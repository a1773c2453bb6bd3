import ByteMachine.Proofs.Output.Printing

/-!
# A line may be written in pieces

A sink is written to by attempts: each takes as many leading characters as still fit, and one that
takes none is refused. A text is written by attempts until all of it has been taken, and a line as
two texts, its numeral and its line feed. `writePieces_eq` says that this comes to one cut at the
room that was left before: where the text ends and the next one begins does not show.
-/

namespace ByteMachine

namespace Sink

/-- Write a text by attempts, until all of it has been taken or an attempt takes nothing. -/
def writeAll (sink : Sink) (text : List Char) : Except Refusal Unit × Sink :=
  if text = [] then (.ok (), sink)
  else if _ : (sink.fitting text).length = 0 then (.error sink.refusal, sink)
  else (sink.write text).writeAll (text.drop (sink.fitting text).length)
termination_by text.length
decreasing_by
  have := (sink.fitting_isPrefix text).length_le
  simp only [List.length_drop]
  omega

/-- Write texts one behind the other, until one of them is refused. -/
def writePieces (sink : Sink) : List (List Char) → Except Refusal Unit × Sink
  | [] => (.ok (), sink)
  | piece :: pieces =>
    match sink.writeAll piece with
    | (.ok (), after) => after.writePieces pieces
    | refused => refused

/-- Nothing is taken of nothing. -/
@[simp] theorem fitting_nil (sink : Sink) : sink.fitting [] = [] := by
  unfold fitting
  split <;> simp

/-- A text of which nothing is taken changes nothing. -/
theorem write_of_fitting_eq_nil {sink : Sink} {text : List Char} (h : sink.fitting text = []) :
    sink.write text = sink := by
  rw [write, h]
  simp

/-- Of two texts in a row the first is taken first, and the second with what room is left. -/
theorem fitting_append (sink : Sink) (first second : List Char) :
    sink.fitting (first ++ second) =
      sink.fitting first ++ (sink.write first).fitting second := by
  have hsize := sink.write_size first
  cases hcapacity : sink.capacity with
  | none => simp [fitting, write, hcapacity]
  | some capacity =>
    have hcapacity' : (sink.write first).capacity = some capacity := hcapacity
    have hlength : (sink.fitting first).length =
        min (capacity - sink.contents.size) first.length := by
      simp [fitting, hcapacity]
    have hroom : capacity - (sink.write first).contents.size =
        capacity - sink.contents.size - first.length := by omega
    simp only [fitting, hcapacity, hcapacity', hroom, List.take_append]

/-- Behind a text that was cut nothing more is taken. -/
theorem fitting_write_of_cut {sink : Sink} {first : List Char} (h : sink.fitting first ≠ first)
    (second : List Char) : (sink.write first).fitting second = [] := by
  have hsize := sink.write_size first
  cases hcapacity : sink.capacity with
  | none => exact absurd (by simp [fitting, hcapacity]) h
  | some capacity =>
    have hcapacity' : (sink.write first).capacity = some capacity := hcapacity
    have hcut : sink.fitting first = first.take (capacity - sink.contents.size) := by
      simp [fitting, hcapacity]
    have hlt : capacity - sink.contents.size < first.length := by
      by_contra hle
      exact h (hcut.trans (List.take_of_length_le (by omega)))
    have hroom : capacity - (sink.write first).contents.size = 0 := by
      rw [hcut, List.length_take] at hsize
      omega
    simp [fitting, hcapacity', hroom]

/-- Two writes in a row are one write of both texts. -/
theorem write_write (sink : Sink) (first second : List Char) :
    (sink.write first).write second = sink.write (first ++ second) := by
  have hcontents : (sink.write first).contents ++ (sink.write first).fitting second =
      sink.contents ++ sink.fitting (first ++ second) := by
    apply Array.toList_inj.mp
    simp [fitting_append]
  rw [write, hcontents]
  rfl

/-- Attempts come to one cut at the room that is left. -/
theorem writeAll_eq (sink : Sink) (text : List Char) :
    sink.writeAll text =
      (if sink.fitting text = text then .ok () else .error sink.refusal, sink.write text) := by
  by_cases hnil : text = []
  · subst hnil
    rw [writeAll, if_pos rfl, write_of_fitting_eq_nil sink.fitting_nil]
    simp
  · rw [writeAll, if_neg hnil]
    by_cases hnone : sink.fitting text = []
    · have hcut : sink.fitting text ≠ text := by
        rw [hnone]
        exact Ne.symm hnil
      rw [dif_pos (by simp [hnone]), if_neg hcut, write_of_fitting_eq_nil hnone]
    · rw [dif_neg (by simpa using hnone)]
      by_cases hwhole : sink.fitting text = text
      · rw [if_pos hwhole, hwhole, List.drop_length, writeAll, if_pos rfl]
      · -- The second attempt finds a full sink, and there is a rest that it refuses.
        have hshorter : (sink.fitting text).length < text.length := by
          have htaken := sink.fitting_isPrefix text
          have hne : (sink.fitting text).length ≠ text.length := fun hlength =>
            hwhole (htaken.eq_of_length hlength)
          have hle := htaken.length_le
          omega
        have hrest : text.drop (sink.fitting text).length ≠ [] := by
          simpa using hshorter
        have hfull := fitting_write_of_cut hwhole (text.drop (sink.fitting text).length)
        rw [if_neg hwhole, writeAll, if_neg hrest, dif_pos (by simp [hfull])]
        rfl

/-- Pieces come to one cut at the room that is left, wherever they begin and end. -/
theorem writePieces_eq (sink : Sink) (pieces : List (List Char)) :
    sink.writePieces pieces =
      (if sink.fitting pieces.flatten = pieces.flatten then .ok () else .error sink.refusal,
        sink.write pieces.flatten) := by
  induction pieces generalizing sink with
  | nil => simp [writePieces, write_of_fitting_eq_nil sink.fitting_nil]
  | cons piece pieces ih =>
    rw [writePieces, writeAll_eq, List.flatten_cons, fitting_append, ← write_write]
    by_cases hwhole : sink.fitting piece = piece
    · rw [if_pos hwhole]
      simp only [ih, hwhole, List.append_cancel_left_eq]
      rfl
    · have hfull := fitting_write_of_cut hwhole pieces.flatten
      have hcut : sink.fitting piece ++ [] ≠ piece ++ pieces.flatten := by
        intro heq
        have hle := (sink.fitting_isPrefix piece).length_le
        have hlength := congrArg List.length heq
        simp only [List.append_nil, List.length_append] at hlength
        exact hwhole ((sink.fitting_isPrefix piece).eq_of_length (by omega))
      rw [hfull, if_neg hcut, write_of_fitting_eq_nil hfull, if_neg hwhole]

end Sink

/-- Printing writes the numeral of the value and then a line feed, and fails if one of them is
refused. -/
theorem Opcode.execute_prn_eq_pieces {registers : Registers} {a value : UInt8}
    (hread : registers.read a = .ok value) (sink : Sink) (b : UInt8) :
    Opcode.prn.execute registers sink a b =
      let written := sink.writePieces [(toString value.toNat).toList, ['\n']]
      ⟨(written.1.mapError Fault.output).map fun _ => .advance, registers, written.2⟩ := by
  have hflatten : [(toString value.toNat).toList, ['\n']].flatten = Sink.line value := by
    rw [Sink.line_eq_toString]
    simp
  simp only [Sink.writePieces_eq, hflatten, sink.fitting_eq_iff (Sink.line_ne_nil value),
    Opcode.execute, Opcode.print, hread]
  cases sink.fits (Sink.line value) <;> rfl

end ByteMachine
