import ByteMachine.Proofs.Output.FailedStep
import ByteMachine.Proofs.Output.Pieces

/-!
# A bounded sink only truncates

A program is run with a bounded sink and with an unbounded one. As long as everything that was
printed fits, the bound takes no part in a step and the two machines do the same. The first line
that does not fit is cut at the bound, and the bounded machine fails at its instruction from then
on: the sink is full, so nothing changes any more. Either way the bounded sink holds what the
unbounded one holds, as far as it fits.
-/

namespace ByteMachine.Machine

/-- The machine with a bounded sink that holds the same. -/
def boundTo (capacity : Nat) (refusal : Refusal) (machine : Machine) : Machine :=
  machine.withSink { capacity := some capacity, refusal, contents := machine.sink.contents }

variable {machine : Machine} {capacity calls : Nat} {value : UInt8}

/-- A machine that is stepped in vain stays as it is however often it is stepped. -/
theorem stepped_of_step_eq (h : machine.step.machine = machine) (calls : Nat) :
    machine.stepped calls = machine := by
  induction calls with
  | zero => rfl
  | succ calls ih => rw [stepped_succ, ih, h]

/-- A machine that is about to print into a full sink fails and stays as it is. -/
theorem Prints.step_of_full (h : machine.Prints value)
    (hbounded : machine.sink.capacity = some capacity)
    (hfull : capacity ≤ machine.sink.contents.size) :
    machine.step.answer = .error (.output machine.sink.refusal) ∧
      machine.step.machine = machine := by
  have hline : 0 < (Sink.line value).length := List.length_pos_iff.mpr (Sink.line_ne_nil value)
  have hfits : machine.sink.fits (Sink.line value) = false :=
    Sink.fits_eq_false_iff.mpr ⟨capacity, hbounded, by omega⟩
  have hnone : machine.sink.fitting (Sink.line value) = [] := by
    simp [Sink.fitting, hbounded, Nat.sub_eq_zero_of_le hfull]
  obtain ⟨events, hsame⟩ := h.step_of_not_fits
  have hstep : machine.step = _ := hsame machine.sink hfits
  rw [hstep, Sink.write_of_fitting_eq_nil hnone]
  exact ⟨rfl, rfl⟩

section Unbounded

variable (hunbounded : machine.sink.capacity = none)

include hunbounded

/-- With an unbounded sink a machine that is about to print does so. -/
theorem Prints.contents_step (h : machine.Prints value) :
    machine.step.machine.sink.contents = machine.sink.contents ++ Sink.line value ∧
      machine.step.machine.sink.contents.size =
        machine.sink.contents.size + (Sink.line value).length := by
  have hfits : machine.sink.fits (Sink.line value) = true := by simp [Sink.fits, hunbounded]
  obtain ⟨turn, status, -, hsame⟩ := h.step_of_fits
  have hstep : machine.step = _ := hsame machine.sink hfits
  have hsink : machine.step.machine.sink = machine.sink.write (Sink.line value) := by
    rw [hstep]
    rfl
  have hwhole := (machine.sink.fitting_eq_iff (Sink.line_ne_nil value)).mpr hfits
  rw [hsink, Sink.write_size, hwhole, Sink.write_of_fits hfits]
  exact ⟨rfl, rfl⟩

/-- As long as everything printed fits, a step comes out as it does without a bound. -/
theorem step_boundTo (refusal : Refusal)
    (hwithin : machine.step.machine.sink.contents.size ≤ capacity) :
    (machine.boundTo capacity refusal).step =
      machine.step.mapMachine (boundTo capacity refusal) := by
  rcases machine.silent_or_prints with hsilent | ⟨value, hprints⟩
  · have hstep := hsilent.step_withSink
      { capacity := some capacity, refusal, contents := machine.sink.contents }
    have hbound : machine.step.machine.boundTo capacity refusal = machine.step.machine.withSink
        { capacity := some capacity, refusal, contents := machine.sink.contents } := by
      rw [boundTo, hsilent.step_sink]
    rw [boundTo, hstep, Turn.mapMachine, Turn.mapMachine, hbound]
  · have hfits : machine.sink.fits (Sink.line value) = true := by simp [Sink.fits, hunbounded]
    have hbound : ({ capacity := some capacity, refusal, contents := machine.sink.contents } :
        Sink).fits (Sink.line value) = true := by
      rw [(hprints.contents_step hunbounded).2] at hwithin
      exact Sink.fits_of_le rfl hwithin
    obtain ⟨turn, status, -, hsame⟩ := hprints.step_of_fits
    have hstep : machine.step = _ := hsame machine.sink hfits
    rw [boundTo, hsame _ hbound, hstep, Sink.write_of_fits hfits, Sink.write_of_fits hbound]
    simp only [Turn.mapMachine, boundTo, withSink]

/-- Where what is printed first exceeds the bound, the machine is about to print. The bounded one
fails there, and its sink is filled up with the beginning of the line. -/
theorem step_boundTo_of_lt (refusal : Refusal) (hwithin : machine.sink.contents.size ≤ capacity)
    (hbeyond : capacity < machine.step.machine.sink.contents.size) :
    ∃ value, machine.Prints value ∧
      (machine.boundTo capacity refusal).step.answer = .error (.output refusal) ∧
      (machine.boundTo capacity refusal).step.machine = machine.withSink
        { capacity := some capacity
          refusal
          contents := (machine.step.machine.sink.contents.toList.take capacity).toArray } := by
  rcases machine.silent_or_prints with hsilent | ⟨value, hprints⟩
  · rw [hsilent.step_sink] at hbeyond
    omega
  · obtain ⟨hcontents, hsize⟩ := hprints.contents_step hunbounded
    have hfits : ({ capacity := some capacity, refusal, contents := machine.sink.contents } :
        Sink).fits (Sink.line value) = false := by
      rw [hsize] at hbeyond
      exact Sink.fits_eq_false_iff.mpr ⟨capacity, rfl, hbeyond⟩
    obtain ⟨events, hsame⟩ := hprints.step_of_not_fits
    refine ⟨value, hprints, by rw [boundTo, hsame _ hfits], ?_⟩
    have htake : machine.sink.contents ++
          (Sink.line value).take (capacity - machine.sink.contents.size) =
        (machine.step.machine.sink.contents.toList.take capacity).toArray := by
      apply Array.toList_inj.mp
      rw [hcontents]
      simp [List.take_append, List.take_of_length_le hwithin]
    rw [boundTo, hsame _ hfits]
    simp only [Sink.write, Sink.fitting, htake]

/-- An unbounded sink stays so. -/
theorem stepped_unbounded (calls : Nat) : (machine.stepped calls).sink.capacity = none :=
  (machine.stepped_sink calls).1.trans hunbounded

/-- As long as everything printed fits, the bounded machine does the same. -/
theorem stepped_boundTo (refusal : Refusal)
    (hwithin : (machine.stepped calls).sink.contents.size ≤ capacity) :
    (∀ earlier < calls, ((machine.boundTo capacity refusal).stepped earlier).step.answer =
        (machine.stepped earlier).step.answer) ∧
      (machine.boundTo capacity refusal).stepped calls =
        (machine.stepped calls).boundTo capacity refusal := by
  induction calls with
  | zero => exact ⟨fun earlier hlt => absurd hlt (by omega), rfl⟩
  | succ calls ih =>
    have hgrows := (machine.stepped calls).step_follows.contents_isPrefix.length_le
    rw [stepped_succ] at hwithin
    simp only [Array.length_toList] at hgrows
    obtain ⟨hanswers, hmachine⟩ := ih (by omega)
    have hstep := step_boundTo (machine.stepped_unbounded hunbounded calls) refusal hwithin
    rw [← hmachine] at hstep
    refine ⟨fun earlier hlt => ?_, by rw [stepped_succ, hstep, stepped_succ]; rfl⟩
    rcases by omega with hlt | rfl : earlier < calls ∨ earlier = calls
    · exact hanswers earlier hlt
    · rw [hstep]
      rfl

end Unbounded

/-- What exceeds a bound after some steps, and not before them, exceeds it first with one of
them. -/
theorem exists_first_beyond (hwithin : machine.sink.contents.size ≤ capacity)
    (hbeyond : capacity < (machine.stepped calls).sink.contents.size) :
    ∃ first < calls, (machine.stepped first).sink.contents.size ≤ capacity ∧
      capacity < (machine.stepped (first + 1)).sink.contents.size := by
  induction calls with
  | zero =>
    rw [stepped_zero] at hbeyond
    omega
  | succ calls ih =>
    by_cases h : capacity < (machine.stepped calls).sink.contents.size
    · obtain ⟨first, hlt, hfirst⟩ := ih h
      exact ⟨first, by omega, hfirst⟩
    · exact ⟨calls, by omega, by omega, hbeyond⟩

/-- The beginning of what has been printed does not change any more. -/
theorem take_contents_stepped {first later : Nat} (hle : first ≤ later)
    (hlong : capacity ≤ (machine.stepped first).sink.contents.size) :
    (machine.stepped later).sink.contents.toList.take capacity =
      (machine.stepped first).sink.contents.toList.take capacity := by
  have hprefix := contents_isPrefix_stepped (machine.stepped first) (later - first)
  rw [stepped_add, Nat.add_sub_cancel' hle] at hprefix
  obtain ⟨rest, hrest⟩ := hprefix
  rw [← hrest, List.take_append_of_le_length (by simpa using hlong)]

/-- At the first line that does not fit the bounded machine fails, and its sink is filled up with
what fits. -/
theorem stepped_boundTo_succ_of_lt (hunbounded : machine.sink.capacity = none) (refusal : Refusal)
    {failing : Nat}
    (hwithin : (machine.stepped failing).sink.contents.size ≤ capacity)
    (hbeyond : capacity < (machine.stepped (failing + 1)).sink.contents.size) :
    ∃ value, (machine.stepped failing).Prints value ∧
      ((machine.boundTo capacity refusal).stepped failing).step.answer =
        .error (.output refusal) ∧
      (machine.boundTo capacity refusal).stepped (failing + 1) =
        (machine.stepped failing).withSink
          { capacity := some capacity
            refusal
            contents :=
              ((machine.stepped (failing + 1)).sink.contents.toList.take capacity).toArray } := by
  rw [stepped_succ] at hbeyond
  obtain ⟨value, hprints, hanswer, hmachine⟩ := step_boundTo_of_lt
    (machine.stepped_unbounded hunbounded failing) refusal hwithin hbeyond
  have hbefore := (stepped_boundTo hunbounded refusal hwithin).2
  rw [← hbefore] at hanswer hmachine
  rw [stepped_succ, stepped_succ]
  exact ⟨value, hprints, hanswer, hmachine⟩

/-- A machine that is about to print into a full sink fails for ever and stays as it is. -/
theorem Prints.stepped_of_full (h : machine.Prints value)
    (hbounded : machine.sink.capacity = some capacity)
    (hfull : capacity ≤ machine.sink.contents.size) (calls : Nat) :
    (machine.stepped calls).step.answer = .error (.output machine.sink.refusal) ∧
      machine.stepped calls = machine := by
  obtain ⟨hanswer, hmachine⟩ := h.step_of_full hbounded hfull
  have hstays := stepped_of_step_eq hmachine calls
  rw [hstays]
  exact ⟨hanswer, rfl⟩

/-- From the first line on that does not fit, the bounded machine fails and stays where it is, and
its sink is filled up with what fits. -/
theorem stepped_boundTo_of_lt (hunbounded : machine.sink.capacity = none) (refusal : Refusal)
    {failing : Nat}
    (hwithin : (machine.stepped failing).sink.contents.size ≤ capacity)
    (hbeyond : capacity < (machine.stepped (failing + 1)).sink.contents.size) :
    ∃ value, (machine.stepped failing).Prints value ∧
      ∀ later, failing ≤ later →
        ((machine.boundTo capacity refusal).stepped later).step.answer =
            .error (.output refusal) ∧
          (machine.boundTo capacity refusal).stepped (later + 1) =
            (machine.stepped failing).withSink
              { capacity := some capacity
                refusal
                contents :=
                  ((machine.stepped (later + 1)).sink.contents.toList.take capacity).toArray } := by
  obtain ⟨value, hprints, hanswer, hmachine⟩ :=
    stepped_boundTo_succ_of_lt hunbounded refusal hwithin hbeyond
  have hagain : ((machine.boundTo capacity refusal).stepped (failing + 1)).Prints value := by
    rw [hmachine]
    exact hprints.withSink _
  have hcapacity : ((machine.boundTo capacity refusal).stepped (failing + 1)).sink.capacity =
      some capacity := by
    rw [hmachine]
    rfl
  have hrefusal : ((machine.boundTo capacity refusal).stepped (failing + 1)).sink.refusal =
      refusal := by
    rw [hmachine]
    rfl
  have hfull : capacity ≤
      ((machine.boundTo capacity refusal).stepped (failing + 1)).sink.contents.size := by
    rw [hmachine, withSink, List.size_toArray, List.length_take, Array.length_toList]
    omega
  -- The failed machine is about to print the same line, now into a full sink.
  have hstuck := hagain.stepped_of_full hcapacity hfull
  refine ⟨value, hprints, fun later hle => ?_⟩
  rcases Nat.eq_or_lt_of_le hle with rfl | hlt
  · exact ⟨hanswer, hmachine⟩
  · obtain ⟨more, rfl⟩ := Nat.exists_eq_add_of_lt hlt
    obtain ⟨hanswer', -⟩ := hstuck more
    obtain ⟨-, hmachine'⟩ := hstuck (more + 1)
    rw [stepped_add, hrefusal, Nat.add_right_comm] at hanswer'
    rw [stepped_add, hmachine] at hmachine'
    rw [take_contents_stepped (by omega) hbeyond.le]
    refine ⟨hanswer', ?_⟩
    rw [← hmachine', Nat.add_right_comm failing more 1]
    rfl

/-- A machine with a bounded sink does what the unbounded one does up to the first line that does
not fit. There it fails, and its sink holds exactly as much of what the other printed as fits. -/
theorem bounded_sink_only_truncates (config : Config) (image : Image) (capacity : Nat)
    (refusal : Refusal) (calls : Nat) :
    let unbounded := loaded config {} image
    let bounded := loaded config { capacity := some capacity, refusal } image
    let printed := (unbounded.stepped calls).sink.contents.toList
    (printed.length ≤ capacity →
      (∀ earlier < calls,
        (bounded.stepped earlier).step.answer = (unbounded.stepped earlier).step.answer) ∧
      bounded.stepped calls = (unbounded.stepped calls).withSink
        { capacity := some capacity, refusal, contents := printed.toArray }) ∧
    (capacity < printed.length →
      ∃ failing < calls, ∃ value line,
        (unbounded.stepped failing).Prints value ∧
        line = (toString value.toNat).toList ++ ['\n'] ∧
        (unbounded.stepped (failing + 1)).sink.contents.toList =
          (unbounded.stepped failing).sink.contents.toList ++ line ∧
        (unbounded.stepped failing).sink.contents.size ≤ capacity ∧
        capacity < (unbounded.stepped failing).sink.contents.size + line.length ∧
        (∀ earlier < failing,
          (bounded.stepped earlier).step.answer = (unbounded.stepped earlier).step.answer) ∧
        (∀ later, failing ≤ later →
          (bounded.stepped later).step.answer = .error (.output refusal)) ∧
        bounded.stepped calls = (unbounded.stepped failing).withSink
          { capacity := some capacity, refusal, contents := (printed.take capacity).toArray }) ∧
    (Fault.output refusal).message = "failed to write program output: " ++
      (match refusal with
      | .full => "sink is full"
      | .nothingAccepted => "failed to write whole buffer") ∧
    ∀ (registers : Registers) (sink : Sink) (a b value : UInt8), registers.read a = .ok value →
      Opcode.prn.execute registers sink a b =
        let written := sink.writePieces [(toString value.toNat).toList, ['\n']]
        ⟨(written.1.mapError Fault.output).map fun _ => .advance, registers, written.2⟩ := by
  intro unbounded bounded printed
  have hunbounded : unbounded.sink.capacity = none := rfl
  have hbounded : unbounded.boundTo capacity refusal = bounded := rfl
  refine ⟨fun hfits => ?_, fun hlong => ?_, ?_, fun registers sink a b value hread =>
    Opcode.execute_prn_eq_pieces hread sink b⟩
  · have hwithin : (unbounded.stepped calls).sink.contents.size ≤ capacity := by
      simpa [printed] using hfits
    obtain ⟨hanswers, hmachine⟩ := stepped_boundTo hunbounded refusal hwithin
    rw [hbounded] at hanswers hmachine
    exact ⟨hanswers, by simpa [boundTo, printed] using hmachine⟩
  · have hexceeds : capacity < (unbounded.stepped calls).sink.contents.size := by
      simpa [printed] using hlong
    obtain ⟨failing, hlt, hwithin, hbeyond⟩ :=
      exists_first_beyond (Nat.zero_le capacity) hexceeds
    obtain ⟨hanswers, -⟩ := stepped_boundTo hunbounded refusal hwithin
    obtain ⟨value, hprints, hrest⟩ :=
      stepped_boundTo_of_lt hunbounded refusal hwithin hbeyond
    obtain ⟨hcontents, hsize⟩ :=
      hprints.contents_step (unbounded.stepped_unbounded hunbounded failing)
    rw [← stepped_succ] at hcontents hsize
    obtain ⟨more, rfl⟩ := Nat.exists_eq_add_of_lt hlt
    rw [hbounded] at hanswers hrest
    refine ⟨failing, hlt, value, Sink.line value, hprints, Sink.line_eq_toString value, ?_, hwithin,
      hsize ▸ hbeyond, hanswers, fun later hle => (hrest later hle).1,
      (hrest (failing + more) (by omega)).2⟩
    rw [hcontents]
    simp
  · cases refusal <;> rfl

/-- With room for six characters the first line of the program fits. The second one is cut. -/
theorem bounded_sink_only_truncates_largestTwice :
    (((loaded {} {} largestTwice).stepped 2).sink.contents.toList.length ≤ 6 ∧
      (loaded {} ⟨some 6, .nothingAccepted, #[]⟩ largestTwice).stepped 2 =
        ((loaded {} {} largestTwice).stepped 2).withSink ⟨some 6, .nothingAccepted,
          ((loaded {} {} largestTwice).stepped 2).sink.contents.toList.toArray⟩) ∧
    6 < ((loaded {} {} largestTwice).stepped 3).sink.contents.toList.length ∧
      ∃ failing < 3,
        ((loaded {} ⟨some 6, .nothingAccepted, #[]⟩ largestTwice).stepped failing).step.answer =
          .error (.output .nothingAccepted) ∧
        (loaded {} ⟨some 6, .nothingAccepted, #[]⟩ largestTwice).stepped 3 =
          ((loaded {} {} largestTwice).stepped failing).withSink ⟨some 6, .nothingAccepted,
            (((loaded {} {} largestTwice).stepped 3).sink.contents.toList.take 6).toArray⟩ := by
  have hfits : ((loaded {} {} largestTwice).stepped 2).sink.contents.toList.length ≤ 6 := by
    decide +kernel
  have hlong : 6 < ((loaded {} {} largestTwice).stepped 3).sink.contents.toList.length := by
    decide +kernel
  obtain ⟨-, hsame⟩ :=
    (bounded_sink_only_truncates {} largestTwice 6 .nothingAccepted 2).1 hfits
  obtain ⟨failing, hlt, -, -, -, -, -, -, -, -, hfails, hcut⟩ :=
    (bounded_sink_only_truncates {} largestTwice 6 .nothingAccepted 3).2.1 hlong
  exact ⟨⟨hfits, hsame⟩, hlong, failing, hlt, hfails failing le_rfl, hcut⟩

end ByteMachine.Machine
