import ByteMachine.Proofs.Output.FailedStep
import ByteMachine.Proofs.Session.Transcript

/-!
# Loading erases history

Loading a program leaves nothing of what a machine has been through but its configuration and its
sink. So two machines with the same configuration and the same room in their sinks match once the
same program has been loaded into both, whatever each of them has done before and however it ended,
and matching machines have the same transcript for ever.
-/

namespace ByteMachine

/-- A fault is left alone by words that are left alone. -/
@[simp] theorem Fault.reworded_id : Fault.reworded id = id := by
  funext fault
  cases fault <;> rfl

/-- A result is left alone when its fault is. -/
@[simp] theorem mapError_id {α : Type} : (Except.mapError id : Except Fault α → _) = id := by
  funext attempt
  cases attempt <;> rfl

/-- An answer is left alone by words that are left alone. -/
@[simp] theorem Answer.reworded_id : Answer.reworded id = id := by
  funext answer
  cases answer <;> simp [Answer.reworded]

/-- An observation is left alone by words that are left alone. -/
@[simp] theorem Observation.reworded_id : Observation.reworded id = id := by
  funext observation
  rcases observation with ⟨fault | answer, events, printed, traceLine, state⟩
  · simp only [Observation.reworded, Fault.reworded_id, Except.mapError, Except.map, id]
  · simp only [Observation.reworded, Answer.reworded_id, Except.mapError, Except.map, id]

namespace Machine

variable {words : Refusal → Refusal} {first second : Machine}

/-- Loading the same program makes machines match, whatever they have been through. -/
theorem matches_load (hconfig : second.config = first.config)
    (hroom : second.sink.room = first.sink.room)
    (hrefusal : first.sink.room ≠ none → second.sink.refusal = words first.sink.refusal)
    (image : Image) :
    (first.load image).machine.Matches words
      (first.sink.contents.toList, second.sink.contents.toList) (second.load image).machine where
  state := by
    rw [load_machine, load_machine, hconfig]
    rfl
  sink := ⟨hroom, hrefusal, [], (List.append_nil _).symm, (List.append_nil _).symm⟩

/-- From the loading of a program on, two machines have the same transcript, but for the words in
which a line is refused. -/
theorem transcript_load (hconfig : second.config = first.config)
    (hroom : second.sink.room = first.sink.room)
    (hrefusal : first.sink.room ≠ none → second.sink.refusal = words first.sink.refusal)
    (image : Image) {session : List Command} (hsession : .clearOutput ∉ session) :
    second.transcript (.load image :: session) =
      (first.transcript (.load image :: session)).map
        (Option.map (Observation.reworded words)) := by
  have hmatches := matches_load hconfig hroom hrefusal image
  have hturn : ((first.load image).map fun _ => Answer.done).Retold words
      (first.sink.contents.toList, second.sink.contents.toList)
      ((second.load image).map fun _ => Answer.done) := ⟨rfl, rfl, hmatches⟩
  have hobserved := Matches.observe_eq hturn
  have hlater := hmatches.transcript_eq hsession
  simp only [transcript, obey, List.map_cons, Option.map_some]
  rw [hobserved]
  exact congrArg _ hlater

/-- From the loading of a program on, two machines are the same but for their sinks, and the same is
added to these. -/
theorem after_load (hconfig : second.config = first.config)
    (hroom : second.sink.room = first.sink.room) (image : Image) {session : List Command}
    (hsession : .clearOutput ∉ session) {later : Machine}
    (hlater : first.after (.load image :: session) = some later) :
    ∃ later' added, second.after (.load image :: session) = some later' ∧
      later' = later.withSink later'.sink ∧
      later.sink.contents.toList = first.sink.contents.toList ++ added ∧
      later'.sink.contents.toList = second.sink.contents.toList ++ added := by
  have hmatches : (first.load image).machine.Matches (fun _ => second.sink.refusal)
      (first.sink.contents.toList, second.sink.contents.toList) (second.load image).machine :=
    matches_load hconfig hroom (fun _ => rfl) image
  rw [after_cons] at hlater
  change (first.load image).machine.after session = some later at hlater
  rcases hmatches.after hsession with ⟨hnone, -⟩ | ⟨machine, later', hfirst, hsecond, h⟩
  · rw [hnone] at hlater
    cases hlater
  · rw [hfirst] at hlater
    cases hlater
    obtain ⟨added, hadded, hadded'⟩ := h.sink.printed
    exact ⟨later', added, (second.after_cons _ _).trans hsecond, h.state, hadded, hadded'⟩

/-- From the moment at which a program is loaded into two machines with the same configuration and
the same room in their sinks, all that a host sees of one it sees of the other, up to the words in
which a sink refuses a line. -/
theorem load_erases_history (first second : Machine) (hconfig : second.config = first.config)
    (hroom : second.sink.room = first.sink.room) (image : Image) (session : List Command)
    (hsession : .clearOutput ∉ session) :
    second.transcript (.load image :: session) =
        (first.transcript (.load image :: session)).map
          (Option.map (Observation.reworded fun _ => second.sink.refusal)) ∧
      (first.sink.room = none ∨ second.sink.refusal = first.sink.refusal →
        second.transcript (.load image :: session) =
          first.transcript (.load image :: session)) ∧
      (∀ later, first.after (.load image :: session) = some later →
        ∃ later' added, second.after (.load image :: session) = some later' ∧
          later' = later.withSink later'.sink ∧
          later.sink.contents.toList = first.sink.contents.toList ++ added ∧
          later'.sink.contents.toList = second.sink.contents.toList ++ added) ∧
      ∀ sink : Sink, sink.room = first.sink.room → sink.refusal = first.sink.refusal →
        first.transcript (.load image :: session) =
          (new first.config sink).transcript (.load image :: session) := by
  refine ⟨?_, fun halike => ?_, fun later hlater => after_load hconfig hroom image hsession hlater,
    fun sink hsame hwords => ?_⟩
  · exact transcript_load hconfig hroom (fun _ => rfl) image hsession
  · have hrefusal : first.sink.room ≠ none → second.sink.refusal = id first.sink.refusal :=
      fun hbounded => halike.resolve_left hbounded
    have hequal := transcript_load hconfig hroom hrefusal image hsession
    simpa using hequal
  · have hconfig' : (new first.config sink).config = first.config := rfl
    have hroom' : (new first.config sink).sink.room = first.sink.room := hsame
    have hrefusal : first.sink.room ≠ none →
        (new first.config sink).sink.refusal = id first.sink.refusal := fun _ => hwords
    have hequal := transcript_load hconfig' hroom' hrefusal image hsession
    simpa using hequal.symm

/-- A machine that has run into the guard, with an origin and two lines in its sink, is as good
after loading as a new one with room for five characters. -/
theorem load_erases_history_largestTwice :
    let used := (loaded {} { capacity := some 9 } doubling).stepped 40
    let session := [.load largestTwice, .run, .walk 1, .readMemory 300]
    used.status = .halted ∧ used.origins.size = 1 ∧ used.sink.text = "1\n2\n" ∧
      (new {} { capacity := some 5 }).transcript session = used.transcript session ∧
      (new {} { capacity := some 5, refusal := .nothingAccepted }).transcript session =
        (used.transcript session).map
          (Option.map (Observation.reworded fun _ => .nothingAccepted)) := by
  intro used session
  have hconfig : used.config = {} := stepped_config _ 40
  have hroom : used.sink.room = some 5 := by decide +kernel
  have hsession : .clearOutput ∉ [Command.run, .walk 1, .readMemory 300] := by simp
  obtain ⟨-, hsame, -⟩ := load_erases_history used (new {} { capacity := some 5 }) hconfig.symm
    hroom.symm largestTwice _ hsession
  obtain ⟨hreworded, -, -⟩ := load_erases_history used
    (new {} { capacity := some 5, refusal := .nothingAccepted }) hconfig.symm hroom.symm
    largestTwice _ hsession
  have hrefusal : used.sink.refusal = .full := by decide +kernel
  exact ⟨by decide +kernel, by decide +kernel, by decide +kernel, hsame (Or.inr hrefusal.symm),
    hreworded⟩

end Machine

end ByteMachine
