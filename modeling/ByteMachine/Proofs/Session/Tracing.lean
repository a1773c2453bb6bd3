import ByteMachine.Proofs.Execution.Configure
import ByteMachine.Proofs.Output.FailedStep
import ByteMachine.Proofs.Session.Induction
import ByteMachine.Proofs.Session.Transcript

/-!
# Tracing is transparent and tells the truth

A machine that traces reports its trace line before each instruction, as the only event at the level
of information, and does nothing else that it would not do without tracing. So whatever a machine is
asked for, it comes out as it would without tracing once these events are struck out: `untraced`
goes through steps, runs, commands and sessions. The events that were struck out are the trace lines
that a host sees who takes the steps of a run one by one.
-/

namespace ByteMachine

/-- The configuration with tracing on or off. -/
def Config.withTracing (config : Config) (tracing : Bool) : Config :=
  { config with tracing }

namespace Event

/-- The events at the level of information. -/
def infos (events : List Event) : List Event :=
  events.filter fun event => event.level = .info

/-- The events at all other levels. -/
def withoutInfos (events : List Event) : List Event :=
  events.filter fun event => event.level ≠ .info

/-- The events at the level of information of two journals in a row are those of the first and then
those of the second. -/
theorem infos_append (earlier later : List Event) :
    infos (earlier ++ later) = infos earlier ++ infos later :=
  List.filter_append earlier later

/-- The other events of two journals in a row are those of the first and then those of the
second. -/
theorem withoutInfos_append (earlier later : List Event) :
    withoutInfos (earlier ++ later) = withoutInfos earlier ++ withoutInfos later :=
  List.filter_append earlier later

/-- No event at the level of information is left. -/
theorem infos_withoutInfos (events : List Event) : infos (withoutInfos events) = [] := by
  simp [infos, withoutInfos]

end Event

/-- The machine with tracing on or off. -/
def Machine.withTracing (tracing : Bool) (machine : Machine) : Machine :=
  machine.configure (machine.config.withTracing tracing)

/-- A turn as it would have been without tracing. -/
def Turn.untraced {α : Type} (turn : Turn α) : Turn α where
  answer := turn.answer
  machine := turn.machine.withTracing false
  events := Event.withoutInfos turn.events

/-- A walk as it would have been without tracing. -/
def Machine.Walk.untraced (walk : Machine.Walk) : Machine.Walk :=
  { walk with
    machine := walk.machine.withTracing false
    events := Event.withoutInfos walk.events }

/-- An observation as it would have been without tracing. -/
def Observation.untraced (observation : Observation) : Observation :=
  { observation with
    events := Event.withoutInfos observation.events
    state := observation.state.withTracing false }

namespace Machine

variable {machine : Machine}

/-- What is announced is at the level of information. -/
theorem level_of_mem_announced : ∀ event ∈ machine.announced, event.level = .info := by
  unfold announced traceEvents
  split
  · split <;> simp [Event.level]
  · simp

/-- With tracing and without it a step does the same, but for what it announces. Nothing else that
it reports is at the level of information. -/
theorem exists_step_withTracing (machine : Machine) (tracing : Bool) :
    ∃ turn : Turn Status, (∀ event ∈ turn.events, event.level ≠ .info) ∧
      machine.step = turn.reporting machine.announced ∧
      (machine.withTracing tracing).step =
        (turn.mapMachine (withTracing tracing)).reporting
          (machine.withTracing tracing).announced := by
  have hguard : ∀ op a b registers request sink,
      machine.Executes op a b registers request sink →
        request = .halt ∨ ((machine.withTracing tracing).Guarded ↔ machine.Guarded) :=
    fun _ _ _ _ _ _ _ => Or.inr Iff.rfl
  obtain ⟨turn, hlevel, hstep, hother⟩ :=
    exists_step_configure (machine.config.withTracing tracing) (fun _ => rfl) hguard
  have hconfig : turn.machine.config = machine.config := by
    rw [← machine.step_config, hstep, Turn.machine_reporting]
  refine ⟨turn, hlevel, hstep, hother.trans ?_⟩
  unfold Turn.mapMachine withTracing
  rw [hconfig]

/-- Of what a step reports, what it announces is at the level of information. -/
theorem infos_step (machine : Machine) : Event.infos machine.step.events = machine.announced := by
  obtain ⟨turn, hlevel, hstep, -⟩ := machine.exists_step_withTracing false
  have hnone : Event.infos turn.events = [] := by simpa [Event.infos] using hlevel
  have hall : Event.infos machine.announced = machine.announced := by
    simpa [Event.infos] using machine.level_of_mem_announced
  rw [hstep, Turn.events_reporting, Event.infos_append, hall, hnone, List.append_nil]

/-- A step without tracing. -/
theorem step_untraced (machine : Machine) :
    (machine.withTracing false).step = machine.step.untraced := by
  obtain ⟨turn, hlevel, hstep, hother⟩ := machine.exists_step_withTracing false
  have hsilent : (machine.withTracing false).announced = [] := by
    unfold announced traceEvents
    split <;> rfl
  have hkept : Event.withoutInfos turn.events = turn.events := by
    simpa [Event.withoutInfos] using hlevel
  have hstruck : Event.withoutInfos machine.announced = [] := by
    simpa [Event.withoutInfos] using machine.level_of_mem_announced
  have hevents : Event.withoutInfos machine.step.events = turn.events := by
    rw [hstep, Turn.events_reporting, Event.withoutInfos_append, hstruck, hkept, List.nil_append]
  rw [hother, hsilent, Turn.untraced, hevents, hstep]
  rfl

/-- Steps in a row without tracing. -/
theorem stepped_untraced (machine : Machine) (calls : Nat) :
    (machine.withTracing false).stepped calls = (machine.stepped calls).withTracing false := by
  induction calls with
  | zero => rfl
  | succ calls ih =>
    rw [stepped_succ, stepped_succ, ih, step_untraced]
    rfl

/-- A machine goes on with tracing as it does without. -/
theorem goesOn_untraced {calls : Nat} :
    (machine.withTracing false).GoesOn calls ↔ machine.GoesOn calls := by
  unfold GoesOn
  simp only [stepped_untraced, step_untraced, Turn.untraced]

/-- A run ends with tracing where it ends without. -/
theorem EndsAt.untraced {last : Nat} (h : machine.EndsAt last) :
    (machine.withTracing false).EndsAt last where
  goesOn := goesOn_untraced.mpr h.goesOn
  stops := by
    rw [stepped_untraced, step_untraced]
    exact h.stops

/-- What comes of steps in a row without tracing. -/
theorem ending_untraced (machine : Machine) (last : Nat) :
    (machine.withTracing false).ending last = (machine.ending last).untraced := by
  have hevents : (machine.withTracing false).reported (last + 1) =
      Event.withoutInfos (machine.reported (last + 1)) := by
    unfold reported Event.withoutInfos
    rw [List.filter_flatMap]
    simp only [stepped_untraced, step_untraced]
    rfl
  unfold ending Turn.untraced
  rw [hevents, stepped_untraced, stepped_untraced, step_untraced]
  rfl

/-- A run without tracing. -/
theorem run_untraced (machine : Machine) :
    (machine.withTracing false).run = machine.run.map Turn.untraced := by
  cases hrun : machine.run with
  | none =>
    exact run_eq_none_iff.mpr fun calls => goesOn_untraced.mpr (run_eq_none_iff.mp hrun calls)
  | some turn =>
    obtain ⟨last, hends, rfl⟩ := run_eq_some_iff.mp hrun
    exact run_eq_some_iff.mpr ⟨last, hends.untraced, (ending_untraced machine last).symm⟩

/-- A walk without tracing. -/
theorem walk_untraced (machine : Machine) (calls : Nat) :
    (machine.withTracing false).walk calls = (machine.walk calls).untraced := by
  induction calls generalizing machine with
  | zero => rfl
  | succ calls ih =>
    have hstep := machine.step_untraced
    by_cases hfirst : machine.step.answer = .ok .running
    · have hother : (machine.withTracing false).step.answer = .ok .running := by
        rw [hstep]
        exact hfirst
      have hrest : machine.step.untraced.machine.walk calls =
          (machine.step.machine.walk calls).untraced := ih machine.step.machine
      rw [walk_succ_of_running hfirst, walk_succ_of_running hother, hstep, hrest]
      simp only [Walk.untraced, Turn.untraced, Event.withoutInfos_append]
      rfl
    · have hother : (machine.withTracing false).step.answer ≠ .ok .running := by
        rw [hstep]
        exact hfirst
      rw [walk_succ_of_stops hfirst, walk_succ_of_stops hother, hstep]
      rfl

/-- A command without tracing. -/
theorem obey_untraced (machine : Machine) (command : Command) :
    (machine.withTracing false).obey command = (machine.obey command).map Turn.untraced := by
  cases command with
  | load image => rfl
  | step =>
    unfold obey
    rw [step_untraced]
    rfl
  | run =>
    unfold obey
    rw [run_untraced, Option.map_map, Option.map_map]
    rfl
  | walk calls =>
    simp only [obey, walk_untraced]
    rfl
  | readMemory address => rfl
  | writeMemory address value =>
    have hmemory : (machine.withTracing false).memory = machine.memory := rfl
    simp only [obey, writeMemory, hmemory]
    cases machine.memory.write address value <;> rfl
  | clearOutput => rfl

/-- A session without tracing. -/
theorem after_untraced (machine : Machine) (session : List Command) :
    (machine.withTracing false).after session =
      (machine.after session).map (withTracing false) := by
  induction session generalizing machine with
  | nil => rfl
  | cons command session ih =>
    rw [after_cons, after_cons, obey_untraced]
    cases machine.obey command with
    | none => rfl
    | some turn => exact ih turn.machine

/-- A transcript without tracing. -/
theorem transcript_untraced (machine : Machine) (session : List Command) :
    (machine.withTracing false).transcript session =
      (machine.transcript session).map (Option.map Observation.untraced) := by
  induction session generalizing machine with
  | nil => rfl
  | cons command session ih =>
    simp only [transcript, obey_untraced]
    cases machine.obey command with
    | none => rfl
    | some turn => exact congrArg (some ((machine.observe turn).untraced) :: ·) (ih turn.machine)

/-- Two sessions that differ in their tracing only end in machines that differ in their tracing
only. -/
theorem after_withTracing (machine : Machine) (tracing : Bool) (session : List Command) :
    (machine.withTracing tracing).after session =
      (machine.after session).map (withTracing tracing) := by
  -- Without tracing both end in one machine, and no session changes the tracing.
  have hfirst := machine.after_untraced session
  have hsecond := (machine.withTracing tracing).after_untraced session
  have huntraced : ((machine.withTracing tracing).after session).map (withTracing false) =
      (machine.after session).map (withTracing false) := hsecond.symm.trans hfirst
  cases hafter : (machine.withTracing tracing).after session with
  | none =>
    rw [hafter, Option.map_none, eq_comm, Option.map_eq_none_iff] at huntraced
    rw [huntraced]
    rfl
  | some later =>
    have hconfig : later.config = machine.config.withTracing tracing := after_config hafter
    rw [hafter, Option.map_some, eq_comm, Option.map_eq_some_iff] at huntraced
    obtain ⟨later', hafter', hsame⟩ := huntraced
    have hretraced : later.withTracing tracing = later := by
      rw [withTracing, hconfig]
      exact congrArg (later.configure ·) hconfig.symm
    rw [hafter', Option.map_some]
    calc some later = some ((later.withTracing false).withTracing tracing) :=
          congrArg some hretraced.symm
      _ = some ((later'.withTracing false).withTracing tracing) := by rw [hsame]
      _ = some (later'.withTracing tracing) := rfl

/-- The trace lines that a host sees before each of a number of steps. -/
def traceLines (machine : Machine) (calls : Nat) : List String :=
  (List.range calls).map fun earlier => (machine.stepped earlier).traceLine

/-- One more step has one more trace line. -/
theorem traceLines_succ (machine : Machine) (calls : Nat) :
    machine.traceLines (calls + 1) =
      machine.traceLines calls ++ [(machine.stepped calls).traceLine] := by
  rw [traceLines, List.range_succ, List.map_append, List.map_singleton]
  rfl

/-- A running machine that traces announces each step with its trace line, unless it has reached its
limit. -/
theorem announced_of_tracing (htracing : machine.config.tracing = true)
    (hrunning : machine.status = .running) :
    ((∃ limit, machine.step.answer = .error (.stepLimitExceeded limit)) ∧
        machine.announced = []) ∨
      ((∀ limit, machine.step.answer ≠ .error (.stepLimitExceeded limit)) ∧
        machine.announced = [.traced machine.traceLine]) := by
  cases hlimit : machine.reachedLimit? with
  | some limit =>
    rw [step_of_reachedLimit hrunning hlimit]
    exact Or.inl ⟨⟨limit, rfl⟩, announced_of_reachedLimit hlimit⟩
  | none =>
    refine Or.inr ⟨fun limit hanswer => ?_, ?_⟩
    · obtain ⟨hset, hle, -⟩ := reached_of_stepLimitExceeded hanswer
      have hlt := reachedLimit?_eq_none_iff.mp hlimit limit hset
      omega
    · rw [announced_of_belowLimit hrunning hlimit, traceEvents, if_pos htracing]

/-- One more step reports its trace line behind the others. -/
theorem infos_reported_succ (machine : Machine) (calls : Nat) :
    Event.infos (machine.reported (calls + 1)) =
      Event.infos (machine.reported calls) ++ (machine.stepped calls).announced := by
  rw [reported_succ, Event.infos_append, infos_step]

/-- A machine that traces and goes on reports its trace lines and nothing else at the level of
information. -/
theorem GoesOn.infos_reported {calls : Nat} (h : machine.GoesOn calls)
    (htracing : machine.config.tracing = true) :
    Event.infos (machine.reported calls) = (machine.traceLines calls).map .traced := by
  induction calls with
  | zero => rfl
  | succ calls ih =>
    have hanswer := h calls (Nat.lt_succ_self calls)
    have hconfig : (machine.stepped calls).config.tracing = true := by
      rw [stepped_config, htracing]
    rw [infos_reported_succ, ih (h.mono (Nat.le_succ calls)), traceLines_succ, List.map_append,
      List.map_singleton]
    rcases announced_of_tracing hconfig (running_of_step hanswer) with
      ⟨⟨limit, hlimit⟩, -⟩ | ⟨-, hannounced⟩
    · rw [hanswer] at hlimit
      cases hlimit
    · rw [hannounced]

/-- A run reports the trace lines before all of its steps, but for the last one when this is refused
for the limit. -/
theorem EndsAt.infos_ending {last : Nat} (h : machine.EndsAt last)
    (htracing : machine.config.tracing = true) (hrunning : machine.status = .running) :
    ((∃ limit, (machine.ending last).answer = .error (.stepLimitExceeded limit)) ∧
        Event.infos (machine.ending last).events = (machine.traceLines last).map .traced) ∨
      ((∀ limit, (machine.ending last).answer ≠ .error (.stepLimitExceeded limit)) ∧
        Event.infos (machine.ending last).events =
          (machine.traceLines (last + 1)).map .traced) := by
  have hbefore := h.goesOn.infos_reported htracing
  have hconfig : (machine.stepped last).config.tracing = true := by rw [stepped_config, htracing]
  have hevents : Event.infos (machine.ending last).events =
      (machine.traceLines last).map .traced ++ (machine.stepped last).announced := by
    rw [← hbefore]
    exact infos_reported_succ machine last
  rw [hevents]
  simp only [ne_eq, ending_eq_error_iff]
  rcases announced_of_tracing hconfig (h.goesOn.counts hrunning).1 with
    ⟨hlimit, hannounced⟩ | ⟨hlimit, hannounced⟩
  · exact Or.inl ⟨hlimit, by rw [hannounced, List.append_nil]⟩
  · refine Or.inr ⟨hlimit, ?_⟩
    rw [hannounced, traceLines_succ, List.map_append, List.map_singleton]

/-- Whether a machine traces or not, every session makes the same of it and shows the same but for
the events at the level of information; and these are the trace lines that it has before its
steps. -/
theorem tracing_is_transparent_and_truthful (machine : Machine) :
    (∀ tracing session,
      (machine.withTracing tracing).after session =
          (machine.after session).map (withTracing tracing) ∧
        ((machine.withTracing tracing).transcript session).map (Option.map Observation.untraced) =
          (machine.transcript session).map (Option.map Observation.untraced)) ∧
    (machine.config.tracing = true → machine.status = .running →
      ∀ turn, machine.run = some turn →
        ∃ last, machine.EndsAt last ∧ turn = machine.ending last ∧
          ((∀ limit, turn.answer ≠ .error (.stepLimitExceeded limit)) →
            Event.infos turn.events = (machine.traceLines (last + 1)).map .traced) ∧
          ∀ limit, turn.answer = .error (.stepLimitExceeded limit) →
            Event.infos turn.events = (machine.traceLines last).map .traced) ∧
    (machine.status = .halted →
      machine.step.events = [] ∧ machine.run = some ⟨.ok (), machine, []⟩) ∧
    (machine.config.tracing = false → ∀ session observation,
      some observation ∈ machine.transcript session → Event.infos observation.events = []) := by
  refine ⟨fun tracing session => ⟨machine.after_withTracing tracing session, ?_⟩,
    fun htracing hrunning turn hrun => ?_, fun hhalted => ?_,
    fun htracing session observation hmem => ?_⟩
  · rw [← transcript_untraced, ← transcript_untraced]
    rfl
  · obtain ⟨last, hends, rfl⟩ := run_eq_some_iff.mp hrun
    refine ⟨last, hends, rfl, fun hother => ?_, fun limit hlimit => ?_⟩
    · rcases hends.infos_ending htracing hrunning with ⟨⟨limit, hlimit⟩, -⟩ | ⟨-, hinfos⟩
      · exact absurd hlimit (hother limit)
      · exact hinfos
    · rcases hends.infos_ending htracing hrunning with ⟨-, hinfos⟩ | ⟨hother, -⟩
      · exact hinfos
      · exact absurd hlimit (hother limit)
  · rw [step_halted hhalted]
    exact ⟨rfl, run_halted hhalted⟩
  · have huntraced : machine.withTracing false = machine := by
      rw [withTracing, ← htracing]
      rfl
    rw [← huntraced, transcript_untraced] at hmem
    obtain ⟨seen, -, hseen⟩ := List.mem_map.mp hmem
    obtain ⟨other, -, rfl⟩ := Option.map_eq_some_iff.mp hseen
    exact Event.infos_withoutInfos other.events

/-- A run that three instructions are allowed to reports three trace lines. One whose second line is
refused by the sink reports the trace line before the refusal, too. -/
theorem tracing_is_transparent_and_truthful_doubling :
    let limited := loaded { stepLimit := some 3, tracing := true } {} doubling
    let cut := loaded { tracing := true } { capacity := some 6 } largestTwice
    let session : List Command :=
      [.run, .step, .clearOutput, .walk 2, .load doubling, .writeMemory 1 2, .run]
    (∃ turn, limited.run = some turn ∧ turn.answer = .error (.stepLimitExceeded 3) ∧
      Event.infos turn.events = (limited.traceLines 3).map .traced) ∧
    (∃ turn last, cut.run = some turn ∧ turn.answer = .error (.output .full) ∧ cut.EndsAt last ∧
      Event.infos turn.events = (cut.traceLines (last + 1)).map .traced) ∧
    ((cut.withTracing false).transcript session).map (Option.map Observation.untraced) =
      (cut.transcript session).map (Option.map Observation.untraced) := by
  intro limited cut session
  have hcut : cut.run.map Turn.answer = some (.error (.output .full)) := by decide +kernel
  have hlimited : limited.run.map Turn.answer = some (.error (.stepLimitExceeded 3)) := by
    decide +kernel
  obtain ⟨turn, hrun, hanswer⟩ := Option.map_eq_some_iff.mp hlimited
  obtain ⟨turn', hrun', hanswer'⟩ := Option.map_eq_some_iff.mp hcut
  obtain ⟨-, htruth, -⟩ := tracing_is_transparent_and_truthful limited
  obtain ⟨hsame, htruth', -⟩ := tracing_is_transparent_and_truthful cut
  obtain ⟨last, hends, -, -, hinfos⟩ := htruth rfl rfl turn hrun
  obtain ⟨last', hends', -, hinfos', -⟩ := htruth' rfl rfl turn' hrun'
  have hthird : limited.EndsAt 3 := ⟨by decide +kernel, by decide +kernel⟩
  rw [hends.unique hthird] at hinfos
  refine ⟨⟨turn, hrun, hanswer, hinfos 3 hanswer⟩,
    ⟨turn', last', hrun', hanswer', hends', hinfos' fun limit hlimit => ?_⟩,
    (hsame false session).2⟩
  rw [hanswer'] at hlimit
  cases hlimit

end Machine

end ByteMachine
