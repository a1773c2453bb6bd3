import ByteMachine.Machine.Session
import ByteMachine.Proofs.Execution.Horizon
import ByteMachine.Proofs.Output.Printing

/-!
# What a host sees of a session

A transcript lists, for each command of a session, all that a host can see of it: the answer, the
events, the trace line, the characters printed by the command, and the state of the machine apart
from its sink. Two machines that differ in their sinks only, and have the same room left there, give
the same transcript; a line that does not fit is refused by each sink in its own words.
-/

namespace ByteMachine

/-- A fault, with the refusal of a line put in other words. -/
def Fault.reworded (words : Refusal → Refusal) : Fault → Fault
  | .output refusal => .output (words refusal)
  | fault => fault

/-- An answer, with the refusal of a line put in other words. -/
def Answer.reworded (words : Refusal → Refusal) : Answer → Answer
  | .walked lines last => .walked lines (last.map (Except.mapError (Fault.reworded words)))
  | answer => answer

/-- What a host sees of one command: the answer or the fault, the events, the characters printed,
and the machine afterwards, apart from its sink. -/
structure Observation where
  answer : Except Fault Answer
  events : List Event
  printed : List Char
  traceLine : String
  state : Machine

/-- An observation, with the refusal of a line put in other words. -/
def Observation.reworded (words : Refusal → Refusal) (observation : Observation) : Observation :=
  { observation with
    answer := (observation.answer.mapError (Fault.reworded words)).map (Answer.reworded words) }

namespace Machine

/-- What a host sees of a command with a given outcome. -/
def observe (machine : Machine) (turn : Turn Answer) : Observation where
  answer := turn.answer
  events := turn.events
  printed := turn.machine.sink.contents.toList.drop machine.sink.contents.size
  traceLine := turn.machine.traceLine
  state := turn.machine.withSink {}

/-- What a host sees of a session. A run that never ends is all that is seen of it and of the
commands behind it; a session of steps shows what it does. -/
def transcript (machine : Machine) : List Command → List (Option Observation)
  | [] => []
  | command :: session =>
    match machine.obey command with
    | none => [none]
    | some turn => some (machine.observe turn) :: turn.machine.transcript session

end Machine

/-- Two sinks with the same room, that have been printed to alike. The texts in `before` are what
each held at the beginning. -/
structure Sink.Matches (words : Refusal → Refusal) (before : List Char × List Char)
    (first second : Sink) : Prop where
  room : second.room = first.room
  refusal : first.room ≠ none → second.refusal = words first.refusal
  printed : ∃ added, first.contents.toList = before.1 ++ added ∧
    second.contents.toList = before.2 ++ added

/-- Two machines that differ in their sinks only, and these match. -/
structure Machine.Matches (words : Refusal → Refusal) (before : List Char × List Char)
    (first second : Machine) : Prop where
  state : second = first.withSink second.sink
  sink : first.sink.Matches words before second.sink

/-- Two turns that come out alike. -/
structure Turn.Matches {α : Type} (words : Refusal → Refusal) (before : List Char × List Char)
    (first second : Turn α) : Prop where
  answer : second.answer = first.answer.mapError (Fault.reworded words)
  events : second.events = first.events
  machine : first.machine.Matches words before second.machine

/-- Two turns with answers to a command that come out alike. -/
structure Turn.Retold (words : Refusal → Refusal) (before : List Char × List Char)
    (first second : Turn Answer) : Prop where
  answer : second.answer =
    (first.answer.mapError (Fault.reworded words)).map (Answer.reworded words)
  events : second.events = first.events
  machine : first.machine.Matches words before second.machine

variable {words : Refusal → Refusal} {before : List Char × List Char}

/-- An attempt succeeds in other words exactly when it succeeds. -/
theorem mapError_eq_ok_iff {α : Type} {attempt : Except Fault α} {retell : Fault → Fault} {a : α} :
    attempt.mapError retell = .ok a ↔ attempt = .ok a := by
  cases attempt <;> simp [Except.mapError]

/-- Only the refusal of a line is put in other words. -/
theorem mapError_reworded_of_ne {α : Type} {attempt : Except Fault α}
    (h : ∀ refusal, attempt ≠ .error (.output refusal)) :
    attempt.mapError (Fault.reworded words) = attempt := by
  cases attempt with
  | ok a => rfl
  | error fault =>
    cases fault with
    | output refusal => exact absurd rfl (h refusal)
    | _ => rfl

/-- Turns that come out alike still do with another form of answer, if it holds no refusal. -/
theorem Turn.Matches.map {α : Type} {first second : Turn α} (h : first.Matches words before second)
    {form : α → Answer} (hform : ∀ a, (form a).reworded words = form a) :
    (first.map form).Retold words before (second.map form) where
  answer := by
    change second.answer.map form = _
    rw [h.answer]
    unfold Turn.map
    cases first.answer with
    | error fault => rfl
    | ok a => exact congrArg Except.ok (hform a).symm
  events := h.events
  machine := h.machine

/-- Matching sinks still match when the same line is written to both. -/
theorem Sink.Matches.write {first second : Sink} (h : first.Matches words before second)
    (line : List Char) : (first.write line).Matches words before (second.write line) where
  room := by rw [room_write, room_write, h.room, fitting_eq_of_room h.room]
  refusal := by
    intro hbounded
    apply h.refusal
    intro hnone
    rw [room_write, hnone] at hbounded
    exact hbounded rfl
  printed := by
    obtain ⟨added, hfirst, hsecond⟩ := h.printed
    refine ⟨added ++ first.fitting line, ?_, ?_⟩
    · rw [write_contents, hfirst, List.append_assoc]
    · rw [write_contents, hsecond, List.append_assoc, fitting_eq_of_room h.room]

namespace Machine.Matches

variable {first second : Machine}

/-- Matching machines step alike. -/
theorem step (h : first.Matches words before second) :
    first.step.Matches words before second.step := by
  -- The sinks take part in a step only where a line is printed, and there only by their room.
  rcases first.silent_or_prints with hsilent | ⟨value, hprints⟩
  · have hsecond := hsilent.step_withSink second.sink
    rw [← h.state] at hsecond
    have hsink : first.step.machine.sink.Matches words before second.sink := by
      rw [hsilent.step_sink]
      exact h.sink
    rw [hsecond]
    exact ⟨(mapError_reworded_of_ne hsilent.step_ne_output).symm, rfl, rfl, hsink⟩
  · have hwrite := h.sink.write (Sink.line value)
    have hroom := Sink.fits_eq_of_room h.sink.room value
    rw [h.state]
    cases hfits : first.sink.fits (Sink.line value) with
    | true =>
      obtain ⟨turn, status, hanswer, hsame⟩ := hprints.step_of_fits
      have hfirst : first.step = _ := hsame first.sink hfits
      rw [hsame second.sink (hroom.trans hfits), hfirst]
      refine ⟨?_, rfl, rfl, hwrite⟩
      change turn.answer = turn.answer.mapError _
      rw [hanswer]
      rfl
    | false =>
      obtain ⟨events, hsame⟩ := hprints.step_of_not_fits
      have hfirst : first.step = _ := hsame first.sink hfits
      have hbounded : first.sink.room ≠ none := by
        obtain ⟨capacity, hcapacity, -⟩ := Sink.fits_eq_false_iff.mp hfits
        simp [Sink.room, hcapacity]
      rw [hsame second.sink (hroom.trans hfits), hfirst]
      refine ⟨?_, rfl, rfl, hwrite⟩
      rw [h.sink.refusal hbounded]
      rfl

/-- Matching machines still match after any number of steps. -/
theorem stepped (h : first.Matches words before second) (calls : Nat) :
    (first.stepped calls).Matches words before (second.stepped calls) := by
  induction calls with
  | zero => exact h
  | succ calls ih =>
    rw [stepped_succ, stepped_succ]
    exact ih.step.machine

/-- Matching machines go on for the same numbers of steps. -/
theorem goesOn_iff (h : first.Matches words before second) {calls : Nat} :
    second.GoesOn calls ↔ first.GoesOn calls := by
  unfold GoesOn
  refine forall₂_congr fun earlier _ => ?_
  rw [(h.stepped earlier).step.answer, mapError_eq_ok_iff]

/-- Matching machines end at the same step. -/
theorem endsAt (h : first.Matches words before second) {last : Nat} (hends : first.EndsAt last) :
    second.EndsAt last := by
  refine ⟨h.goesOn_iff.mpr hends.goesOn, fun hanswer => hends.stops ?_⟩
  rw [(h.stepped last).step.answer, mapError_eq_ok_iff] at hanswer
  exact hanswer

/-- Matching machines that end at the same step end alike. -/
theorem ending (h : first.Matches words before second) (last : Nat) :
    (first.ending last).Matches words before (second.ending last) where
  answer := by
    change (second.stepped last).step.answer.map _ = _
    rw [(h.stepped last).step.answer]
    unfold Machine.ending
    cases (first.stepped last).step.answer <;> rfl
  events := by
    apply List.flatMap_congr
    intro earlier _
    exact (h.stepped earlier).step.events
  machine := h.stepped (last + 1)

/-- Matching machines run alike, or neither run ends. -/
theorem run (h : first.Matches words before second) :
    (first.run = none ∧ second.run = none) ∨
      ∃ turn turn', first.run = some turn ∧ second.run = some turn' ∧
        turn.Matches words before turn' := by
  cases hrun : first.run with
  | none =>
    have hsecond : second.run = none :=
      run_eq_none_iff.mpr fun calls => h.goesOn_iff.mpr (run_eq_none_iff.mp hrun calls)
    exact Or.inl ⟨rfl, hsecond⟩
  | some turn =>
    obtain ⟨last, hends, rfl⟩ := run_eq_some_iff.mp hrun
    exact Or.inr ⟨_, _, rfl, run_eq_some_iff.mpr ⟨last, h.endsAt hends, rfl⟩, h.ending last⟩

/-- Matching machines have the same trace line. -/
theorem traceLine_eq (h : first.Matches words before second) :
    second.traceLine = first.traceLine := by
  rw [h.state]
  rfl

/-- Matching machines walk alike. -/
theorem walk (h : first.Matches words before second) (calls : Nat) :
    (second.walk calls).lines = (first.walk calls).lines ∧
      (second.walk calls).last =
        (first.walk calls).last.map (Except.mapError (Fault.reworded words)) ∧
      (second.walk calls).events = (first.walk calls).events ∧
      (first.walk calls).machine.Matches words before (second.walk calls).machine := by
  induction calls generalizing first second with
  | zero => exact ⟨rfl, rfl, rfl, h⟩
  | succ calls ih =>
    have hstep := h.step
    obtain ⟨hlines, hlast, hevents, hmachine⟩ := ih hstep.machine
    have hanswer := hstep.answer
    simp only [Machine.walk]
    rcases hfirst : first.step.answer with fault | status
    · rw [hfirst] at hanswer
      rw [hanswer, h.traceLine_eq, hstep.events]
      exact ⟨rfl, rfl, rfl, hstep.machine⟩
    · rw [hfirst] at hanswer
      rw [hanswer, h.traceLine_eq, hstep.events]
      cases status with
      | halted => exact ⟨rfl, rfl, rfl, hstep.machine⟩
      | running =>
        simp only [Except.mapError, hlines, hevents, hlast]
        refine ⟨trivial, ?_, trivial, hmachine⟩
        cases (first.step.machine.walk calls).last <;> rfl

/-- Matching machines obey a command alike, unless it empties their sinks. -/
theorem obey (h : first.Matches words before second) {command : Command}
    (hcommand : command ≠ .clearOutput) :
    (first.obey command = none ∧ second.obey command = none) ∨
      ∃ turn turn', first.obey command = some turn ∧ second.obey command = some turn' ∧
        turn.Retold words before turn' := by
  cases command with
  | load image =>
    have hloaded : (first.load image).machine.Matches words before (second.load image).machine :=
      ⟨by rw [h.state]; rfl, h.sink⟩
    have hturn : (first.load image).Matches words before (second.load image) := ⟨rfl, rfl, hloaded⟩
    exact Or.inr ⟨_, _, rfl, rfl, hturn.map fun _ => rfl⟩
  | step => exact Or.inr ⟨_, _, rfl, rfl, h.step.map fun _ => rfl⟩
  | run =>
    rcases h.run with ⟨hfirst, hsecond⟩ | ⟨turn, turn', hfirst, hsecond, hturn⟩
    · simp only [Machine.obey, hfirst, hsecond]
      exact Or.inl ⟨rfl, rfl⟩
    · simp only [Machine.obey, hfirst, hsecond]
      exact Or.inr ⟨_, _, rfl, rfl, hturn.map fun _ => rfl⟩
  | walk calls =>
    obtain ⟨hlines, hlast, hevents, hmachine⟩ := h.walk calls
    refine Or.inr ⟨_, _, rfl, rfl, ⟨?_, hevents, hmachine⟩⟩
    simp only [hlines, hlast]
    rfl
  | readMemory address =>
    have hturn : (first.readMemory address).Matches words before (second.readMemory address) := by
      refine ⟨?_, rfl, h⟩
      unfold Machine.readMemory
      rw [h.state]
      rcases Nat.lt_or_ge address memorySize with hlt | hge
      · rw [withSink, Memory.read_of_lt _ hlt]
        rfl
      · rw [withSink, Memory.read_of_le _ hge]
        rfl
    exact Or.inr ⟨_, _, rfl, rfl, hturn.map fun _ => rfl⟩
  | writeMemory address value =>
    have hturn : (first.writeMemory address value).Matches words before
        (second.writeMemory address value) := by
      unfold Machine.writeMemory Memory.write
      rw [h.state]
      by_cases hlt : address < memorySize
      · simp only [withSink, dif_pos hlt]
        exact ⟨rfl, rfl, rfl, h.sink⟩
      · simp only [withSink, dif_neg hlt]
        exact ⟨rfl, rfl, rfl, h.sink⟩
    exact Or.inr ⟨_, _, rfl, rfl, hturn.map fun _ => rfl⟩
  | clearOutput => exact absurd rfl hcommand

/-- Matching machines still match after every session, or neither session ends. -/
theorem after (h : first.Matches words before second) {session : List Command}
    (hsession : .clearOutput ∉ session) :
    (first.after session = none ∧ second.after session = none) ∨
      ∃ later later', first.after session = some later ∧ second.after session = some later' ∧
        later.Matches words before later' := by
  induction session generalizing first second with
  | nil => exact Or.inr ⟨first, second, rfl, rfl, h⟩
  | cons command session ih =>
    obtain ⟨hcommand, hrest⟩ := not_or.mp (List.mem_cons.not.mp hsession)
    rw [after_cons, after_cons]
    rcases h.obey (Ne.symm hcommand) with
      ⟨hfirst, hsecond⟩ | ⟨turn, turn', hfirst, hsecond, hturn⟩
    · rw [hfirst, hsecond]
      exact Or.inl ⟨rfl, rfl⟩
    · rw [hfirst, hsecond]
      exact ih hturn.machine hrest

/-- Machines that match still do when what they hold now is taken for what they held before. -/
theorem rebased (h : first.Matches words before second) :
    first.Matches words (first.sink.contents.toList, second.sink.contents.toList) second where
  state := h.state
  sink := { h.sink with printed := ⟨[], by simp, by simp⟩ }

/-- Turns that come out alike look alike. -/
theorem observe_eq {turn turn' : Turn Answer} (h : turn.Retold words
      (first.sink.contents.toList, second.sink.contents.toList) turn') :
    second.observe turn' = (first.observe turn).reworded words := by
  obtain ⟨added, hfirst, hsecond⟩ := h.machine.sink.printed
  have hprinted : turn'.machine.sink.contents.toList.drop second.sink.contents.size =
      turn.machine.sink.contents.toList.drop first.sink.contents.size := by
    rw [hfirst, hsecond]
    simp [← Array.length_toList]
  have hstate : turn'.machine.withSink {} = turn.machine.withSink {} := by
    rw [h.machine.state]
    rfl
  simp only [observe, Observation.reworded, h.answer, h.events, hprinted, hstate,
    h.machine.traceLine_eq]

/-- Matching machines have the same transcript of every session, but for the words in which a line
is refused. -/
theorem transcript_eq (h : first.Matches words before second) {session : List Command}
    (hsession : .clearOutput ∉ session) :
    second.transcript session =
      (first.transcript session).map (Option.map (Observation.reworded words)) := by
  induction session generalizing first second before with
  | nil => rfl
  | cons command session ih =>
    obtain ⟨hcommand, hrest⟩ := not_or.mp (List.mem_cons.not.mp hsession)
    simp only [transcript]
    -- What a command prints is measured from what the sinks hold when it begins.
    rcases h.rebased.obey (Ne.symm hcommand) with
      ⟨hfirst, hsecond⟩ | ⟨turn, turn', hfirst, hsecond, hturn⟩
    · rw [hfirst, hsecond]
      rfl
    · rw [hfirst, hsecond]
      simp only [List.map_cons, Option.map_some, observe_eq hturn, ih hturn.machine hrest]

end Machine.Matches

end ByteMachine
