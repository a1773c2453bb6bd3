import ByteMachine.Proofs.Program.LayoutEdit

/-!
# What a malformed line tells

The error for a malformed line names its number and its payload. The line can be found in the text
by its number alone (`LineAt`), whatever is taken for its line end, and its payload is the reported
one (`LineAt.of_firstMalformed`). The lines in front of it describe bytes. So the line is to blame
by itself: what follows it does not matter, and with a byte in its place the reader gets further.
-/

namespace ByteMachine.Source

/-- The line of a text with a number, counted from one, with what stands before and behind it. -/
structure LineAt (text : List Char) (number : Nat) (before line after : List Char) : Prop
    extends IsLine before line after where
  text_eq : text = before ++ line ++ after
  number_eq : number = before.count '\n' + 1

variable {text before line after found : List Char} {number : Nat}

/-- Eight binary digits stand for a byte. -/
theorem IsByteText.exists_value (h : IsByteText text) :
    ∃ value : UInt8, value.toNat = binaryValue text := by
  have hlt := binaryValue_lt text
  rw [h.1] at hlt
  exact ⟨UInt8.ofNat (binaryValue text), UInt8.toNat_ofNat_of_lt' hlt⟩

/-- Behind one more closed line a line can begin as before. -/
theorem AtLineStart.behind_line (h : AtLineStart before) (line : List Char) :
    AtLineStart (line ++ '\n' :: before) := by
  cases h with
  | first => exact .behind line
  | behind earlier =>
    have hend := AtLineStart.behind (line ++ '\n' :: earlier)
    rwa [List.append_assoc] at hend

/-- Every piece of a text is a line of it, with as many lines in front as there are pieces. -/
theorem exists_lineAt_of_pieces {earlier later : List (List Char)}
    (h : pieces text = earlier ++ line :: later) :
    ∃ before after, LineAt text (earlier.length + 1) before line after := by
  induction earlier generalizing text with
  | nil =>
    by_cases hfeed : '\n' ∈ text
    · obtain ⟨first, rest, rfl, hfirst⟩ := List.eq_append_cons_of_mem hfeed
      rw [pieces_append_newline, pieces_of_not_mem hfirst] at h
      cases h
      exact ⟨[], '\n' :: rest, ⟨.first, hfirst, .closed .feed rest⟩, rfl, rfl⟩
    · rw [pieces_of_not_mem hfeed] at h
      cases h
      exact ⟨[], [], ⟨.first, hfeed, .last⟩, (List.append_nil _).symm, rfl⟩
  | cons piece earlier ih =>
    by_cases hfeed : '\n' ∈ text
    · obtain ⟨first, rest, rfl, hfirst⟩ := List.eq_append_cons_of_mem hfeed
      rw [pieces_append_newline, pieces_of_not_mem hfirst] at h
      obtain ⟨before, after, hline⟩ := ih (List.cons.inj h).2
      refine ⟨first ++ '\n' :: before, after,
        ⟨hline.begins.behind_line first, hline.one_line, hline.ends⟩, ?_, ?_⟩
      · simp [hline.text_eq]
      · rw [List.count_append, List.count_eq_zero.mpr hfirst, List.count_cons_self, Nat.zero_add,
          ← hline.number_eq, List.length_cons]
    · rw [pieces_of_not_mem hfeed] at h
      simp at h

/-- The first malformed piece of a text is a line of it. -/
theorem FirstMalformed.exists_lineAt (h : FirstMalformed (pieces text) number found) :
    ∃ before line after, LineAt text number before line after := by
  obtain ⟨earlier, line, later, -, hpieces, rfl, -⟩ := h
  obtain ⟨before, after, hline⟩ := exists_lineAt_of_pieces hpieces
  exact ⟨before, line, after, hline⟩

/-- There is something on a malformed line. -/
theorem FirstMalformed.ne_nil {lines : List (List Char)} (h : FirstMalformed lines number found) :
    found ≠ [] := by
  obtain ⟨_, _, _, _, -, -, -, -, hne, -⟩ := h
  exact hne

/-- The payload of a malformed line is malformed by itself. -/
theorem FirstMalformed.alone {lines : List (List Char)} (h : FirstMalformed lines number found)
    (hline : '\n' ∉ found) : FirstMalformed (pieces found) 1 found := by
  obtain ⟨_, _, _, _, -, -, -, hfound, hne, hbad⟩ := h
  rw [pieces_of_not_mem hline]
  exact ⟨[], found, [], [], rfl, rfl, .nil, hasPayload_self hfound.trimmed hfound.hash_not_mem,
    hne, hbad⟩

/-- The line with the number of the first malformed piece has its payload, and the pieces in front
of the line describe bytes, whatever follows them. -/
theorem LineAt.of_firstMalformed (hline : LineAt text number before line after)
    (h : FirstMalformed (pieces text) number found) :
    HasPayload line found ∧ ∃ earlier bytes, earlier.length + 1 = number ∧
      Describes earlier bytes ∧ ∀ rest, pieces (before ++ rest) = earlier ++ pieces rest := by
  obtain ⟨front, bad, behind, bytes, hpieces, hnumber, hdescribes, hfound, -⟩ := h
  obtain ⟨earlier, hlength, hbefore⟩ := hline.begins.exists_pieces
  obtain ⟨returns, later, hreturns, hafter⟩ := hline.ends.exists_pieces
  rw [hline.text_eq, List.append_assoc, hbefore, hafter line hline.one_line] at hpieces
  have hsame : earlier.length = front.length := by
    have hcount := hline.number_eq
    omega
  obtain ⟨rfl, hrest⟩ := List.append_inj hpieces hsame
  obtain ⟨rfl, rfl⟩ := List.cons.inj hrest
  rw [← payload_eq_iff, payload_trailed line hreturns, payload_eq_iff] at hfound
  exact ⟨hfound, earlier, bytes, hnumber.symm, hdescribes, hbefore⟩

namespace LineAt

/-- With a byte in place of the first malformed line, the first malformed one comes later. -/
theorem lt_of_digits (hline : LineAt text number before line after)
    (h : FirstMalformed (pieces text) number found) {digits found' : List Char} {number' : Nat}
    (hdigits : IsByteText digits)
    (h' : FirstMalformed (pieces (before ++ digits ++ after)) number' found') :
    number < number' := by
  obtain ⟨-, earlier, bytes, rfl, hearlier, hbefore⟩ := hline.of_firstMalformed h
  obtain ⟨returns, later, hreturns, hafter⟩ := hline.ends.exists_pieces
  obtain ⟨value, hvalue⟩ := hdigits.exists_value
  have hfeed : '\n' ∉ digits := hdigits.not_mem (by decide) (by decide)
  have hhash : '#' ∉ digits := hdigits.not_mem (by decide) (by decide)
  have hpayload : HasPayload (digits ++ returns) digits :=
    (hasPayload_self hdigits.trimmed hhash).trailed hreturns
  have hfront : Describes (earlier ++ [digits ++ returns]) (bytes ++ [value]) :=
    hearlier.append (.byte hpayload hdigits hvalue .nil)
  rw [List.append_assoc, hbefore, hafter digits hfeed, List.append_cons] at h'
  simpa using h'.length_lt hfront

/-- Whatever follows the first malformed line, it is the first malformed one. -/
theorem firstMalformed_of_atLineEnd (hline : LineAt text number before line after)
    (h : FirstMalformed (pieces text) number found) {after' : List Char}
    (hends : AtLineEnd after') :
    FirstMalformed (pieces (before ++ line ++ after')) number found := by
  obtain ⟨hfound, earlier, bytes, hnumber, hearlier, hbefore⟩ := hline.of_firstMalformed h
  obtain ⟨returns, later, hreturns, hafter⟩ := hends.exists_pieces
  obtain ⟨_, _, _, _, -, -, -, -, hne, hbad⟩ := h
  rw [List.append_assoc, hbefore, hafter line hline.one_line]
  exact ⟨earlier, _, later, bytes, rfl, hnumber.symm, hearlier, hfound.trailed hreturns, hne, hbad⟩

end LineAt

/-- The error for a malformed line is evidence by itself: the reported text is refused alone and
stands in the line with the reported number, and the error goes away with that line and with nothing
behind it. -/
theorem malformed_line_is_evidence {source found : String} {number : Nat}
    (h : parse source = .error (.malformedLine number found)) :
    (found ≠ "" ∧ '\n' ∉ found.toList ∧ '#' ∉ found.toList ∧ Trimmed found.toList) ∧
    parse found = .error (.malformedLine 1 found) ∧
    (∃ before line after, LineAt source.toList number before line after) ∧
    ∀ before line after, LineAt source.toList number before line after →
      found.toList <:+: line ∧
      (∀ digits number' found', IsByteText digits →
        parse (String.ofList (before ++ digits ++ after)) =
          .error (.malformedLine number' found') → number < number') ∧
      ∀ after', AtLineEnd after' →
        parse (String.ofList (before ++ line ++ after')) =
          .error (.malformedLine number found) := by
  have hfirst := parse_eq_malformedLine_iff_pieces.mp h
  obtain ⟨before, bad, after, hplace⟩ := hfirst.exists_lineAt
  obtain ⟨hfound, -⟩ := hplace.of_firstMalformed hfirst
  have hfeed : '\n' ∉ found.toList := fun hmem => hplace.one_line (hfound.isInfix.subset hmem)
  refine ⟨⟨?_, hfeed, hfound.hash_not_mem, hfound.trimmed⟩,
    parse_eq_malformedLine_iff_pieces.mpr (hfirst.alone hfeed), ⟨before, bad, after, hplace⟩,
    fun before line after hline => ⟨?_, ?_, ?_⟩⟩
  · rintro rfl
    exact hfirst.ne_nil rfl
  · exact (hline.of_firstMalformed hfirst).1.isInfix
  · intro digits number' found' hdigits hparse
    have hlater := parse_eq_malformedLine_iff_pieces.mp hparse
    rw [String.toList_ofList] at hlater
    exact hline.lt_of_digits hfirst hdigits hlater
  · intro after' hends
    rw [parse_eq_malformedLine_iff_pieces, String.toList_ofList]
    exact hline.firstMalformed_of_atLineEnd hfirst hends

/-- The second of three lines has a sign, white space and a comment, and ends in a carriage return.
The third line is malformed too, and is reported when the second one is a byte. -/
theorem malformed_line_is_evidence_signed :
    let before := "00000001\r".toList ++ ['\n']
    let line := "\t+0000001 # signed".toList
    let after := '\r' :: '\n' :: "0101".toList
    let digits := spelling 0xFF
    parse (String.ofList (before ++ line ++ after)) = .error (.malformedLine 2 "+0000001") ∧
      parse "+0000001" = .error (.malformedLine 1 "+0000001") ∧ "+0000001".toList <:+: line ∧
      parse (String.ofList (before ++ digits ++ after)) = .error (.malformedLine 3 "0101") ∧ 2 < 3 ∧
      parse (String.ofList (before ++ line ++ [])) = .error (.malformedLine 2 "+0000001") := by
  intro before line after digits
  have hsource : parse (String.ofList (before ++ line ++ after)) =
      .error (.malformedLine 2 "+0000001") := by
    rw [parse, String.toList_ofList]
    decide +kernel
  have hdigits : parse (String.ofList (before ++ digits ++ after)) =
      .error (.malformedLine 3 "0101") := by
    rw [parse, String.toList_ofList]
    decide +kernel
  have hbefore : AtLineStart before := .behind "00000001\r".toList
  have hline : LineAt (String.ofList (before ++ line ++ after)).toList 2 before line after :=
    ⟨⟨hbefore, by decide, .closed .returnFeed "0101".toList⟩, String.toList_ofList, by decide⟩
  have hbyte : IsByteText digits := isByteText_spelling 0xFF
  obtain ⟨-, halone, -, hplaces⟩ := malformed_line_is_evidence hsource
  obtain ⟨hoccurs, hlater, hends⟩ := hplaces before line after hline
  exact ⟨hsource, halone, hoccurs, hdigits, hlater digits 3 "0101" hbyte hdigits, hends [] .last⟩

end ByteMachine.Source
