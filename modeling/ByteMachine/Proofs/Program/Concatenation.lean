import ByteMachine.Proofs.Program.Parsing

/-!
# Texts behind each other

Cut at its line feeds, a text falls into pieces. They are its lines, but for an empty piece at the
end, which makes no difference to what is read (`parseChars_eq_readLines_pieces`). The pieces of two
texts with a line feed between them are those of the first and then those of the second. So what is
read of the whole follows from what is read of the parts, and lines of the second part have as many
lines in front of them as the first part has pieces.
-/

namespace ByteMachine.Source

/-- What stands between the line feeds of a text. -/
def pieces (text : List Char) : List (List Char) :=
  text.splitOn '\n'

/-- A text without a line feed is one piece. -/
theorem pieces_of_not_mem {text : List Char} (h : '\n' ∉ text) : pieces text = [text] :=
  List.splitOn_eq_singleton h

/-- A line feed stands between the pieces before it and those behind it. -/
theorem pieces_append_newline (first second : List Char) :
    pieces (first ++ '\n' :: second) = pieces first ++ pieces second :=
  List.splitOn_append_cons_self first second

/-- There is one piece more than there are line feeds. -/
theorem length_pieces (text : List Char) : (pieces text).length = text.count '\n' + 1 := by
  induction text with
  | nil => rfl
  | cons c text ih =>
    unfold pieces at ih ⊢
    rw [List.splitOn_cons_eq_if_modifyHead, List.count_cons]
    by_cases hc : c = '\n'
    · simp [hc, ih]
    · simp [hc, ih]

/-- The pieces of a text are its lines, perhaps with an empty piece at the end. -/
theorem pieces_cases (text : List Char) :
    pieces text = sourceLines text ∨ pieces text = sourceLines text ++ [[]] := by
  unfold pieces sourceLines
  by_cases hlast : (text.splitOn '\n').getLast? = some []
  · obtain ⟨front, hfront⟩ := List.getLast?_eq_some_iff.mp hlast
    rw [if_pos hlast, hfront, List.dropLast_concat]
    exact Or.inr rfl
  · rw [if_neg hlast]
    exact Or.inl rfl

variable {lines earlier : List (List Char)} {bytes : List UInt8} {number : Nat} {found : List Char}

/-- Lines behind each other describe their bytes behind each other. -/
theorem Describes.append {others : List (List Char)} {more : List UInt8}
    (h : Describes lines bytes) (hothers : Describes others more) :
    Describes (lines ++ others) (bytes ++ more) := by
  induction h with
  | nil => exact hothers
  | blank hblank _ ih => exact .blank hblank ih
  | byte htext hbyte hvalue _ ih => exact .byte htext hbyte hvalue ih

/-- What follows the first malformed line makes no difference to it. -/
theorem FirstMalformed.append (h : FirstMalformed lines number found)
    (others : List (List Char)) : FirstMalformed (lines ++ others) number found := by
  obtain ⟨earlier, line, later, bytes, rfl, hnumber, hdescribes, hline⟩ := h
  exact ⟨earlier, line, later ++ others, bytes, by simp, hnumber, hdescribes, hline⟩

/-- Behind lines that describe bytes, the first malformed line has a number larger by theirs. -/
theorem FirstMalformed.behind (h : FirstMalformed lines number found)
    (hearlier : Describes earlier bytes) :
    FirstMalformed (earlier ++ lines) (earlier.length + number) found := by
  obtain ⟨before, line, later, others, rfl, rfl, hdescribes, hline⟩ := h
  refine ⟨earlier ++ before, line, later, bytes ++ others, by simp, ?_,
    hearlier.append hdescribes, hline⟩
  rw [List.length_append, Nat.add_assoc]

/-- The first malformed line comes behind all lines that describe bytes. -/
theorem FirstMalformed.length_lt {later : List (List Char)}
    (h : FirstMalformed (earlier ++ later) number found) (hearlier : Describes earlier bytes) :
    earlier.length < number := by
  have hread := h.readLines_eq
  rcases describes_or_malformed later with ⟨others, hothers⟩ | ⟨place, text, hfirst⟩
  · rw [(hearlier.append hothers).readLines_eq] at hread
    exact absurd hread (ofBytes_ne_malformedLine _ _ _)
  · rw [(hfirst.behind hearlier).readLines_eq] at hread
    obtain ⟨_, _, _, _, -, hplace, -⟩ := hfirst
    rw [Except.error.injEq, LoadError.malformedLine.injEq] at hread
    omega

/-- An empty piece at the end makes no difference to what is read. -/
theorem parseChars_eq_readLines_pieces (text : List Char) :
    parseChars text = readLines (pieces text) := by
  rw [parseChars_eq]
  rcases pieces_cases text with hpieces | hpieces
  · rw [hpieces]
  · rw [hpieces]
    rcases describes_or_malformed (sourceLines text) with ⟨bytes, h⟩ | ⟨number, found, h⟩
    · have hclosed := h.append (.blank (hasPayload_payload []) .nil)
      rw [h.readLines_eq, hclosed.readLines_eq, List.append_nil]
    · rw [h.readLines_eq, (h.append _).readLines_eq]

/-- The pieces of a text describe bytes, and these are what is read; or the text is refused at the
first malformed piece. -/
theorem parse_cases_pieces (source : String) :
    (∃ bytes, Describes (pieces source.toList) bytes ∧ parse source = Image.ofBytes bytes) ∨
      ∃ number found, FirstMalformed (pieces source.toList) number found ∧
        parse source = .error (.malformedLine number (String.ofList found)) := by
  rw [parse, parseChars_eq_readLines_pieces]
  exact readLines_cases _

/-- A text is refused as malformed exactly at its first malformed piece. -/
theorem parse_eq_malformedLine_iff_pieces {source found : String} :
    parse source = .error (.malformedLine number found) ↔
      FirstMalformed (pieces source.toList) number found.toList := by
  rw [parse, parseChars_eq_readLines_pieces]
  exact readLines_eq_malformedLine_iff

/-- The number of bytes that were counted: those of the image, or those that were too many for
one. -/
def counted? : Except LoadError Image → Option Nat
  | .ok image => some image.size
  | .error (.programTooLarge size) => some size
  | .error _ => none

/-- The bytes of an attempt to build an image are counted, whether they fit or not. -/
theorem counted?_ofBytes (bytes : List UInt8) :
    counted? (Image.ofBytes bytes) = some bytes.length := by
  unfold Image.ofBytes
  split
  · rfl
  · rfl

/-- Two texts with a line feed between them are refused for the first malformed line of either, with
its number in the whole, then for the bytes of both, and otherwise read as one program after the
other. -/
theorem parse_joins_parts (first second : String) :
    (∀ number found, parse first = .error (.malformedLine number found) →
      parse (first ++ "\n" ++ second) = .error (.malformedLine number found)) ∧
    ((∀ number found, parse first ≠ .error (.malformedLine number found)) →
      (∀ number found, parse second = .error (.malformedLine number found) →
        parse (first ++ "\n" ++ second) =
          .error (.malformedLine (number + 1 + first.toList.count '\n') found)) ∧
      ((∀ number found, parse second ≠ .error (.malformedLine number found)) →
        ∃ size size', counted? (parse first) = some size ∧ counted? (parse second) = some size' ∧
          (256 < size + size' →
            parse (first ++ "\n" ++ second) = .error (.programTooLarge (size + size'))) ∧
          (size + size' ≤ 256 →
            ∃ image image' whole, parse first = .ok image ∧ parse second = .ok image' ∧
              parse (first ++ "\n" ++ second) = .ok whole ∧
              whole.program = image.program ++ image'.program))) := by
  have hwhole : parse (first ++ "\n" ++ second) =
      readLines (pieces first.toList ++ pieces second.toList) := by
    have htext : (first ++ "\n" ++ second).toList = first.toList ++ '\n' :: second.toList := by simp
    rw [parse, parseChars_eq_readLines_pieces, htext, pieces_append_newline]
  rw [hwhole]
  rcases parse_cases_pieces first with ⟨bytes, hbytes, hfirst⟩ | ⟨number, found, hbad, hfirst⟩
  · refine ⟨fun number found hparse => ?_,
      fun _ => ⟨fun number found hparse => ?_, fun hwell => ?_⟩⟩
    · exact absurd (hfirst.symm.trans hparse) (ofBytes_ne_malformedLine bytes number found)
    · rcases parse_cases_pieces second with ⟨others, -, hsecond⟩ | ⟨number', text, hbad, hsecond⟩
      · exact absurd (hsecond.symm.trans hparse) (ofBytes_ne_malformedLine others number found)
      · rw [hsecond] at hparse
        cases hparse
        rw [(hbad.behind hbytes).readLines_eq, length_pieces]
        congr 2
        omega
    · rcases parse_cases_pieces second with ⟨others, hothers, hsecond⟩ | ⟨number, text, -, hsecond⟩
      · rw [(hbytes.append hothers).readLines_eq, hfirst, hsecond]
        refine ⟨_, _, counted?_ofBytes bytes, counted?_ofBytes others, fun hlong => ?_,
          fun hfits => ?_⟩
        · rw [Image.ofBytes_eq_error_iff, List.length_append]
          exact ⟨rfl, hlong⟩
        · have himage (part : List UInt8) (hle : part.length ≤ 256) :
              Image.ofBytes part = .ok ⟨part, hle⟩ := Image.ofBytes_program ⟨part, hle⟩
          exact ⟨_, _, _, himage bytes (by omega), himage others (by omega),
            himage (bytes ++ others) (by rwa [List.length_append]), rfl⟩
      · exact absurd hsecond (hwell number _)
  · refine ⟨fun number' text hparse => ?_, fun hwell => absurd hfirst (hwell number _)⟩
    rw [hfirst] at hparse
    rw [(hbad.append _).readLines_eq, hparse]

/-- A malformed line of the second part is found although the first part has 257 bytes, and it is
counted behind the 258 pieces of that part. Two well-formed parts are read as one program. -/
theorem parse_joins_parts_late :
    let long := String.ofList (List.replicate 257 "00000111\n".toList).flatten
    parse long = .error (.programTooLarge 257) ∧
      parse (long ++ "\n" ++ "00000001\n+0000001") = .error (.malformedLine 260 "+0000001") ∧
      parse ("0101 # short" ++ "\n" ++ "2") = .error (.malformedLine 1 "0101") ∧
      ∃ whole, parse ("10000010\n" ++ "\n" ++ "\t00000001") = .ok whole ∧
        whole.program = [0x82, 1] := by
  intro long
  have hlong : parse long = .error (.programTooLarge 257) := by
    rw [parse, String.toList_ofList]
    decide +kernel
  have hshort : parse "0101 # short" = .error (.malformedLine 1 "0101") := by decide +kernel
  have hsigned : parse "00000001\n+0000001" = .error (.malformedLine 2 "+0000001") := by
    decide +kernel
  obtain ⟨-, hlate⟩ := parse_joins_parts long "00000001\n+0000001"
  obtain ⟨hearly, -⟩ := parse_joins_parts "0101 # short" "2"
  obtain ⟨-, hjoined⟩ := parse_joins_parts "10000010\n" "\t00000001"
  refine ⟨hlong, ?_, hearly 1 "0101" hshort, ?_⟩
  · have hcount : long.toList.count '\n' = 257 := by
      rw [String.toList_ofList]
      decide +kernel
    have hwell : ∀ number found, parse long ≠ .error (.malformedLine number found) := by
      simp [hlong]
    have hfound := (hlate hwell).1 2 "+0000001" hsigned
    rwa [hcount] at hfound
  · have hfirst : parse "10000010\n" = .ok ⟨[0x82], by decide⟩ := by decide +kernel
    have hsecond : parse "\t00000001" = .ok ⟨[1], by decide⟩ := by decide +kernel
    obtain ⟨size, size', hsize, hsize', -, hfits⟩ :=
      (hjoined (by simp [hfirst])).2 (by simp [hsecond])
    rw [hfirst] at hsize
    rw [hsecond] at hsize'
    cases hsize
    cases hsize'
    obtain ⟨image, image', whole, himage, himage', hwhole, hprogram⟩ := hfits (by decide)
    rw [hfirst] at himage
    rw [hsecond] at himage'
    cases himage
    cases himage'
    exact ⟨whole, hwhole, hprogram⟩

end ByteMachine.Source
