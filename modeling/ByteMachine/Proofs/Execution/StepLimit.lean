import ByteMachine.Proofs.Execution.Configure
import ByteMachine.Proofs.Execution.Horizon

/-!
# The step limit is exact

A loaded program is run without a step limit and with one. As long as fewer instructions than the
limit have been executed the limit takes no part in a step, so the two machines do the same; and
when as many have been executed and the machine is still running, the next step fails for the limit
and changes nothing. A run that halts needs its last instruction to be within the limit; one that
fails also needs its last step, which executes nothing, to come before the limit is reached.
-/

namespace ByteMachine.Machine

/-- The machine with a step limit. -/
def limitTo (limit : Nat) (machine : Machine) : Machine :=
  machine.configure (machine.config.withStepLimit (some limit))

variable {machine : Machine} {limit calls last : Nat}

/-- Below its limit a machine steps as it does without one. -/
theorem step_limitTo (hunlimited : machine.config.stepLimit = none)
    (hbelow : machine.status = .running → machine.steps < limit) :
    (machine.limitTo limit).step = machine.step.mapMachine (limitTo limit) := by
  have hreached (hrunning : machine.status = .running) :
      (machine.limitTo limit).reachedLimit? = machine.reachedLimit? := by
    have hfree : machine.reachedLimit? = none := by
      rw [reachedLimit?_eq_none_iff, hunlimited]
      intro other hother
      cases hother
    rw [hfree, reachedLimit?_eq_none_iff]
    intro other hother
    cases hother
    exact hbelow hrunning
  have hstep : (machine.limitTo limit).step = machine.step.mapMachine
      (configure (machine.config.withStepLimit (some limit))) :=
    step_configure rfl hreached fun _ _ _ _ _ _ _ => Or.inr Iff.rfl
  rw [hstep, Turn.mapMachine, Turn.mapMachine, limitTo, step_config]

section Unlimited

variable (hunlimited : machine.config.stepLimit = none) (hrunning : machine.status = .running)

include hunlimited hrunning

/-- As long as the limit is not exceeded, a machine goes on as it does without one. -/
theorem GoesOn.stepped_limitTo (h : machine.GoesOn calls) (hle : machine.steps + calls ≤ limit) :
    (machine.limitTo limit).stepped calls = (machine.stepped calls).limitTo limit := by
  induction calls with
  | zero => rfl
  | succ calls ih =>
    have hgoes := h.mono (Nat.le_succ calls)
    have hsteps := (hgoes.counts hrunning).2
    rw [stepped_succ, ih hgoes (by omega), stepped_succ,
      step_limitTo (by rw [stepped_config, hunlimited]) fun _ => by omega]
    rfl

/-- As long as the limit is not reached, the steps come out as they do without one. -/
theorem GoesOn.step_stepped_limitTo (h : machine.GoesOn calls)
    (hlt : machine.steps + calls < limit) :
    ((machine.limitTo limit).stepped calls).step =
      (machine.stepped calls).step.mapMachine (limitTo limit) := by
  have hsteps := (h.counts hrunning).2
  rw [h.stepped_limitTo hunlimited hrunning (by omega),
    step_limitTo (by rw [stepped_config, hunlimited]) fun _ => by omega]

/-- A machine goes on under a limit that it does not exceed. -/
theorem GoesOn.limitTo (h : machine.GoesOn calls) (hle : machine.steps + calls ≤ limit) :
    (machine.limitTo limit).GoesOn calls := by
  intro earlier hlt
  rw [(h.mono (by omega)).step_stepped_limitTo hunlimited hrunning (by omega)]
  exact h earlier hlt

/-- A run whose last step comes before the limit is reached has the same end under the limit. -/
theorem EndsAt.ending_limitTo (h : machine.EndsAt last) (hlt : machine.steps + last < limit) :
    (machine.limitTo limit).EndsAt last ∧
      (machine.limitTo limit).ending last =
        (machine.ending last).mapMachine (Machine.limitTo limit) :=
  h.ending_of_steps fun _ hle =>
    (h.goesOn.mono hle).step_stepped_limitTo hunlimited hrunning (by omega)

/-- A run whose last step comes before the limit is reached is the same under the limit. -/
theorem EndsAt.run_limitTo (h : machine.EndsAt last) (hlt : machine.steps + last < limit) :
    (machine.limitTo limit).run =
      some ((machine.ending last).mapMachine (Machine.limitTo limit)) := by
  obtain ⟨hends, hending⟩ := h.ending_limitTo hunlimited hrunning hlt
  rw [← hending, run_eq_some_iff]
  exact ⟨last, hends, rfl⟩

/-- A machine that would go on beyond the limit fails when it has reached it, and stays as it
was. -/
theorem GoesOn.endsAt_limitTo (h : machine.GoesOn calls) (heq : machine.steps + calls = limit) :
    (machine.limitTo limit).EndsAt calls ∧
      ((machine.limitTo limit).ending calls).answer = .error (.stepLimitExceeded limit) ∧
        ((machine.limitTo limit).ending calls).machine =
          (machine.stepped calls).limitTo limit := by
  obtain ⟨hstatus, hsteps⟩ := h.counts hrunning
  have hstepped := h.stepped_limitTo hunlimited hrunning (Nat.le_of_eq heq)
  have hreached : limit ≤ ((machine.stepped calls).limitTo limit).steps := by
    change limit ≤ (machine.stepped calls).steps
    omega
  have hfails : ((machine.stepped calls).limitTo limit).step =
      ⟨.error (.stepLimitExceeded limit), (machine.stepped calls).limitTo limit, []⟩ :=
    step_limit hstatus rfl hreached
  refine ⟨⟨h.limitTo hunlimited hrunning (Nat.le_of_eq heq), ?_⟩, ?_, ?_⟩
  · rw [hstepped, hfails]
    intro hanswer
    cases hanswer
  · rw [ending_eq_error_iff, hstepped, hfails]
  · change (machine.limitTo limit).stepped (calls + 1) = _
    rw [stepped_succ, hstepped, hfails]

/-- A run that would go on beyond the limit fails for it. -/
theorem GoesOn.run_limitTo (h : machine.GoesOn calls) (heq : machine.steps + calls = limit) :
    (machine.limitTo limit).run.map Turn.answer = some (.error (.stepLimitExceeded limit)) := by
  obtain ⟨hends, hanswer, -⟩ := h.endsAt_limitTo hunlimited hrunning heq
  rw [run_eq_some_iff.mpr ⟨calls, hends, rfl⟩, Option.map_some, hanswer]

/-- A run under a limit fails for the limit only where the machine would have gone on until the
limit was reached. -/
theorem goesOn_of_exceeded (heq : machine.steps + calls = limit) {turn : Turn Unit} {reported : Nat}
    (hrun : (machine.limitTo limit).run = some turn)
    (hanswer : turn.answer = .error (.stepLimitExceeded reported)) :
    reported = limit ∧ machine.GoesOn calls ∧
      turn.machine = (machine.stepped calls).limitTo limit := by
  obtain ⟨last, hlast, rfl⟩ := run_eq_some_iff.mp hrun
  by_cases hgoes : machine.GoesOn calls
  · obtain ⟨hends, hfails, hmachine⟩ := hgoes.endsAt_limitTo hunlimited hrunning heq
    obtain rfl := hlast.unique hends
    rw [hfails] at hanswer
    cases hanswer
    exact ⟨rfl, hgoes, hmachine⟩
  · -- The machine ends before, and without a limit it cannot have failed for one.
    obtain ⟨stop, hlt, hstop⟩ := exists_endsAt hgoes
    have hbelow : machine.steps + stop < limit := by omega
    obtain ⟨hends, hending⟩ := hstop.ending_limitTo hunlimited hrunning hbelow
    obtain rfl := hlast.unique hends
    rw [hending] at hanswer
    obtain ⟨hset, -⟩ := reached_of_stepLimitExceeded (ending_eq_error_iff.mp hanswer)
    rw [stepped_config, hunlimited] at hset
    cases hset

end Unlimited

/-- A run under a limit halts or fails as it does without one if it needs no more instructions than
that, and otherwise fails for the limit in the state that it is in after so many instructions. -/
theorem step_limit_exact (config : Config) (sink : Sink) (image : Image) (limit : Nat) :
    let unlimited := loaded (config.withStepLimit none) sink image
    let limited := loaded (config.withStepLimit (some limit)) sink image
    let exceeded := limited.run.map Turn.answer = some (.error (.stepLimitExceeded limit))
    (∀ turn, unlimited.run = some turn → turn.answer = .ok () →
      (turn.machine.steps ≤ limit → limited.run = some (turn.mapMachine (limitTo limit))) ∧
      (limit < turn.machine.steps → exceeded)) ∧
    (∀ turn fault, unlimited.run = some turn → turn.answer = .error fault →
      (turn.machine.steps < limit → limited.run = some (turn.mapMachine (limitTo limit))) ∧
      (limit ≤ turn.machine.steps → exceeded)) ∧
    (unlimited.run = none → exceeded) ∧
    ∀ turn reported, limited.run = some turn →
      turn.answer = .error (.stepLimitExceeded reported) →
        reported = limit ∧ unlimited.GoesOn limit ∧
          turn.machine = (unlimited.stepped limit).limitTo limit ∧
          turn.machine.steps = limit ∧ turn.machine.status = .running := by
  intro unlimited limited exceeded
  have hunlimited : unlimited.config.stepLimit = none := rfl
  have hrunning : unlimited.status = .running := rfl
  have hzero (calls : Nat) : unlimited.steps + calls = calls := Nat.zero_add calls
  have hlimited : unlimited.limitTo limit = limited := rfl
  have hunchanged {last : Nat} (hends : unlimited.EndsAt last) (hlt : last < limit) :
      limited.run = some ((unlimited.ending last).mapMachine (limitTo limit)) := by
    have hbelow : unlimited.steps + last < limit := (hzero last).symm ▸ hlt
    exact hends.run_limitTo hunlimited hrunning hbelow
  have hexceeded {calls : Nat} (hgoes : unlimited.GoesOn calls) (hle : limit ≤ calls) : exceeded :=
    (hgoes.mono hle).run_limitTo hunlimited hrunning (hzero limit)
  refine ⟨?_, ?_, ?_, ?_⟩
  · intro turn hrun hanswer
    obtain ⟨last, hends, rfl⟩ := run_eq_some_iff.mp hrun
    rcases hends.steps_ending hrunning with ⟨-, fault, hfault⟩ | ⟨hcount, -, -⟩
    · rw [hanswer] at hfault
      cases hfault
    · rw [hzero] at hcount
      exact ⟨fun hle => hunchanged hends (by omega),
        fun hlt => hexceeded hends.goesOn (by omega)⟩
  · intro turn fault hrun hanswer
    obtain ⟨last, hends, rfl⟩ := run_eq_some_iff.mp hrun
    rcases hends.steps_ending hrunning with ⟨hcount, -⟩ | ⟨-, hok, -⟩
    · rw [hzero] at hcount
      exact ⟨fun hlt => hunchanged hends (by omega),
        fun hle => hexceeded hends.goesOn (by omega)⟩
    · rw [hanswer] at hok
      cases hok
  · intro hnone
    exact hexceeded (run_eq_none_iff.mp hnone limit) le_rfl
  · intro turn reported hrun hanswer
    rw [← hlimited] at hrun
    obtain ⟨hreported, hgoes, hmachine⟩ :=
      goesOn_of_exceeded hunlimited hrunning (hzero limit) hrun hanswer
    obtain ⟨hstatus, hcount⟩ := hgoes.counts hrunning
    rw [hzero] at hcount
    refine ⟨hreported, hgoes, hmachine, ?_, ?_⟩
    · rw [hmachine]
      exact hcount
    · rw [hmachine]
      exact hstatus

/-- The doubling program halts with its twelfth instruction, which a limit of eleven forbids. -/
theorem step_limit_exact_doubling :
    (loaded { stepLimit := some 12 } {} doubling).run.map Turn.answer = some (.ok ()) ∧
      ∃ turn, (loaded { stepLimit := some 11 } {} doubling).run = some turn ∧
        turn.answer = .error (.stepLimitExceeded 11) ∧ turn.machine.steps = 11 := by
  have hends : (loaded {} {} doubling).EndsAt 11 := ⟨by decide +kernel, by decide +kernel⟩
  have hrun := run_eq_some_iff.mpr ⟨11, hends, rfl⟩
  have hok : ((loaded {} {} doubling).ending 11).answer = .ok () := by decide +kernel
  have hsteps : ((loaded {} {} doubling).ending 11).machine.steps = 12 := by decide +kernel
  have hwithin := ((step_limit_exact {} {} doubling 12).1 _ hrun hok).1 hsteps.le
  have hbeyond := ((step_limit_exact {} {} doubling 11).1 _ hrun hok).2 (by omega)
  obtain ⟨turn, hturn, hanswer⟩ := Option.map_eq_some_iff.mp hbeyond
  obtain ⟨-, -, -, hcount, -⟩ :=
    (step_limit_exact {} {} doubling 11).2.2.2 turn 11 hturn hanswer
  exact ⟨(congrArg (Option.map Turn.answer) hwithin).trans (congrArg some hok), turn, hturn,
    hanswer, hcount⟩

end ByteMachine.Machine
