import ByteMachine.Proofs.Program.Grammar

/-!
# Reading a program text

The reader accepts exactly the texts of the grammar. It puts each line into one of three classes,
and these are the three that the grammar knows. So no line is malformed exactly when the lines
describe a program, and then the bytes that are read are those described; and the first malformed
line is the one behind the longest beginning that describes a program.
-/

namespace ByteMachine.Source

variable {line text : List Char} {lines : List (List Char)} {bytes : List UInt8}

namespace Content

/-- A line with an empty payload is skipped. -/
theorem ofLine_of_blank (h : HasPayload line []) : ofLine line = .blank := by
  rw [ofLine, payload_eq_iff.mpr h]
  rfl

/-- A line whose payload spells a byte contributes it. -/
theorem ofLine_of_byte {value : UInt8} (h : HasPayload line text) (hbyte : IsByteText text)
    (hvalue : value.toNat = binaryValue text) : ofLine line = .byte value := by
  have hne : text ≠ [] := by
    rintro rfl
    cases hbyte.1
  have hread := readByte?_eq_some_iff.mpr ⟨hbyte, hvalue⟩
  simp only [ofLine, payload_eq_iff.mpr h, if_neg hne, hread]

/-- A line with any other payload is malformed. -/
theorem ofLine_of_malformed (h : HasPayload line text) (hne : text ≠ [])
    (hbad : ¬IsByteText text) : ofLine line = .malformed text := by
  have hread := readByte?_eq_none_iff.mpr hbad
  simp only [ofLine, payload_eq_iff.mpr h, if_neg hne, hread]

end Content

open Content

/-- A line is blank, or its payload spells a byte, or it is malformed. -/
theorem line_cases (line : List Char) :
    HasPayload line [] ∨
      (∃ text value, HasPayload line text ∧ IsByteText text ∧
        UInt8.toNat value = binaryValue text) ∨
      ∃ text, HasPayload line text ∧ text ≠ [] ∧ ¬IsByteText text := by
  have hpayload := hasPayload_payload line
  by_cases hnil : payload line = []
  · exact Or.inl (hnil ▸ hpayload)
  · cases hread : readByte? (payload line) with
    | some value =>
      obtain ⟨hbyte, hvalue⟩ := readByte?_eq_some_iff.mp hread
      exact Or.inr (Or.inl ⟨_, value, hpayload, hbyte, hvalue⟩)
    | none => exact Or.inr (Or.inr ⟨_, hpayload, hnil, readByte?_eq_none_iff.mp hread⟩)

/-- Lines describe a program, or there is a first malformed one among them. -/
theorem describes_or_malformed (lines : List (List Char)) :
    (∃ bytes, Describes lines bytes) ∨ ∃ number text, FirstMalformed lines number text := by
  induction lines with
  | nil => exact Or.inl ⟨[], .nil⟩
  | cons line lines ih =>
    -- A malformed line comes first. Behind any other one, what is found below is found one later.
    rcases line_cases line with hblank | ⟨text, value, htext, hbyte, hvalue⟩ |
      ⟨text, htext, hne, hbad⟩
    · rcases ih with ⟨bytes, hdescribes⟩ | ⟨number, text, hmalformed⟩
      · exact Or.inl ⟨bytes, .blank hblank hdescribes⟩
      · obtain ⟨earlier, found, later, bytes, rfl, hnumber, hdescribes, hfound⟩ := hmalformed
        exact Or.inr ⟨_, text, line :: earlier, found, later, bytes, rfl, rfl,
          .blank hblank hdescribes, hfound⟩
    · rcases ih with ⟨bytes, hdescribes⟩ | ⟨number, text, hmalformed⟩
      · exact Or.inl ⟨value :: bytes, .byte htext hbyte hvalue hdescribes⟩
      · obtain ⟨earlier, found, later, bytes, rfl, hnumber, hdescribes, hfound⟩ := hmalformed
        exact Or.inr ⟨_, text, line :: earlier, found, later, value :: bytes, rfl, rfl,
          .byte htext hbyte hvalue hdescribes, hfound⟩
    · exact Or.inr ⟨_, text, [], line, lines, [], rfl, rfl, .nil, htext, hne, hbad⟩

/-- Lines that describe bytes are read as these bytes, and none of them is malformed. -/
theorem Describes.read (h : Describes lines bytes) :
    (∀ content ∈ lines.map ofLine, content.malformed? = none) ∧
      (lines.map ofLine).filterMap byte? = bytes := by
  induction h with
  | nil => simp
  | blank hblank _ ih =>
    rw [List.map_cons, ofLine_of_blank hblank, List.forall_mem_cons]
    exact ⟨⟨rfl, ih.1⟩, ih.2⟩
  | byte htext hbyte hvalue _ ih =>
    rw [List.map_cons, ofLine_of_byte htext hbyte hvalue, List.forall_mem_cons]
    exact ⟨⟨rfl, ih.1⟩, congrArg _ ih.2⟩

/-- Nothing malformed is found among contents of which none is. -/
theorem findSome?_malformed_of_none {contents : List Content}
    (h : ∀ content ∈ contents, content.malformed? = none) (start : Nat) :
    (contents.zipIdx start).findSome? (fun (content, number) =>
      content.malformed?.map fun text => (number, text)) = none := by
  induction contents generalizing start with
  | nil => rfl
  | cons content contents ih =>
    obtain ⟨hcontent, hcontents⟩ := List.forall_mem_cons.mp h
    simp [List.zipIdx_cons, hcontent, ih hcontents]

/-- What is read of the lines of a text. -/
def readLines (lines : List (List Char)) : Except LoadError Image :=
  match firstMalformed? (lines.map ofLine) with
  | some (number, found) => .error (.malformedLine number (String.ofList found))
  | none => Image.ofBytes ((lines.map ofLine).filterMap byte?)

/-- A text is read line by line. -/
theorem parseChars_eq (text : List Char) : parseChars text = readLines (sourceLines text) := by
  rw [parseChars, contents_eq]
  rfl

/-- Lines that describe bytes are read as the image of these bytes, if there is one. -/
theorem Describes.readLines_eq (h : Describes lines bytes) :
    readLines lines = Image.ofBytes bytes := by
  obtain ⟨hwell, hbytes⟩ := h.read
  have hnone := findSome?_malformed_of_none hwell 1
  rw [readLines, firstMalformed?, hnone, hbytes]

/-- Lines are refused at the first malformed one among them. -/
theorem FirstMalformed.readLines_eq {number : Nat} {found : List Char}
    (h : FirstMalformed lines number found) :
    readLines lines = .error (.malformedLine number (String.ofList found)) := by
  obtain ⟨earlier, line, later, bytes, rfl, rfl, hdescribes, hfound, hne, hbad⟩ := h
  have hnone := findSome?_malformed_of_none hdescribes.read.1 1
  rw [readLines, firstMalformed?, List.map_append, List.map_cons,
    ofLine_of_malformed hfound hne hbad, List.zipIdx_append, List.findSome?_append, hnone]
  simp [malformed?, Nat.add_comm]

/-- The text of lines that describe bytes is read as these bytes. -/
theorem parseChars_of_describes (h : Describes (sourceLines text) bytes) :
    parseChars text = Image.ofBytes bytes := by
  rw [parseChars_eq, h.readLines_eq]

/-- No list of bytes is refused as a malformed line. -/
theorem ofBytes_ne_malformedLine (bytes : List UInt8) (number : Nat) (found : String) :
    Image.ofBytes bytes ≠ .error (.malformedLine number found) := by
  intro h
  rw [Image.ofBytes_eq_error_iff] at h
  cases h.1

/-- Lines are read as the bytes that they describe, or refused at the first malformed one. -/
theorem readLines_cases (lines : List (List Char)) :
    (∃ bytes, Describes lines bytes ∧ readLines lines = Image.ofBytes bytes) ∨
      ∃ number text, FirstMalformed lines number text ∧
        readLines lines = .error (.malformedLine number (String.ofList text)) := by
  rcases describes_or_malformed lines with ⟨bytes, h⟩ | ⟨number, text, h⟩
  · exact Or.inl ⟨bytes, h, h.readLines_eq⟩
  · exact Or.inr ⟨number, text, h, h.readLines_eq⟩

/-- Lines are refused as malformed exactly at the first malformed one. -/
theorem readLines_eq_malformedLine_iff {number : Nat} {found : String} :
    readLines lines = .error (.malformedLine number found) ↔
      FirstMalformed lines number found.toList := by
  constructor
  · intro h
    rcases readLines_cases lines with ⟨bytes, -, hread⟩ | ⟨number', text, hfirst, hread⟩
    · exact absurd (hread.symm.trans h) (ofBytes_ne_malformedLine bytes number found)
    · rw [hread] at h
      cases h
      rwa [String.toList_ofList]
  · intro h
    rw [h.readLines_eq, String.ofList_toList]

/-- A program text is read as the bytes that its lines describe, or refused at its first malformed
line. -/
theorem parse_cases (source : String) :
    (∃ bytes, Describes (sourceLines source.toList) bytes ∧ parse source = Image.ofBytes bytes) ∨
      ∃ number text, FirstMalformed (sourceLines source.toList) number text ∧
        parse source = .error (.malformedLine number (String.ofList text)) := by
  rw [parse, parseChars_eq]
  exact readLines_cases _

/-- A text is refused as malformed exactly at its first malformed line. -/
theorem parse_eq_malformedLine_iff {source : String} {number : Nat} {found : String} :
    parse source = .error (.malformedLine number found) ↔
      FirstMalformed (sourceLines source.toList) number found.toList := by
  rw [parse, parseChars_eq]
  exact readLines_eq_malformedLine_iff

/-- A text is refused as too long exactly when its lines describe more bytes than the memory
holds. -/
theorem parse_eq_programTooLarge_iff {source : String} {size : Nat} :
    parse source = .error (.programTooLarge size) ↔
      ∃ bytes, Describes (sourceLines source.toList) bytes ∧ bytes.length = size ∧
        memorySize < size := by
  constructor
  · intro h
    rcases parse_cases source with ⟨bytes, hdescribes, hparse⟩ | ⟨number, text, -, hparse⟩
    · rw [hparse, Image.ofBytes_eq_error_iff, LoadError.programTooLarge.injEq] at h
      obtain ⟨rfl, hlong⟩ := h
      exact ⟨bytes, hdescribes, rfl, hlong⟩
    · rw [hparse] at h
      cases h
  · rintro ⟨bytes, hdescribes, rfl, hlong⟩
    rw [parse, parseChars_of_describes hdescribes, Image.ofBytes_eq_error_iff]
    exact ⟨rfl, hlong⟩

/-- A text is accepted exactly when its lines describe a program that fits, and it is read as this
program. -/
theorem parse_eq_ok_iff {source : String} {image : Image} :
    parse source = .ok image ↔ Describes (sourceLines source.toList) image.program := by
  constructor
  · intro h
    rcases parse_cases source with ⟨bytes, hdescribes, hparse⟩ | ⟨number, text, -, hparse⟩
    · rw [hparse, Image.ofBytes_eq_ok_iff] at h
      rwa [h]
    · rw [hparse] at h
      cases h
  · intro h
    rw [parse, parseChars_of_describes h, Image.ofBytes_program]

/-- A text with a line that is neither blank nor spells a byte is refused as malformed. -/
theorem exists_malformedLine {source : String} (hline : line ∈ sourceLines source.toList)
    (htext : HasPayload line text) (hne : text ≠ []) (hbad : ¬IsByteText text) :
    ∃ number found, parse source = .error (.malformedLine number found) := by
  rcases parse_cases source with ⟨bytes, hdescribes, -⟩ | ⟨number, found, -, hparse⟩
  · have hwell := hdescribes.read.1 _ (List.mem_map_of_mem hline)
    rw [ofLine_of_malformed htext hne hbad] at hwell
    cases hwell
  · exact ⟨number, _, hparse⟩

/-- A text is refused for its first line that is neither blank nor spells a byte, then for the
number of its bytes, and otherwise read as these bytes, in order, with zeros behind them. -/
theorem parse_accepts_exactly_grammar (source : String) :
    let lines := sourceLines source.toList
    (∀ number found, parse source = .error (.malformedLine number found) ↔
      FirstMalformed lines number found.toList) ∧
    (∀ size, parse source = .error (.programTooLarge size) ↔
      ∃ bytes, Describes lines bytes ∧ bytes.length = size ∧ 256 < size) ∧
    (∀ image, parse source = .ok image ↔ Describes lines image.program) ∧
    (∀ path cause, parse source ≠ .error (.unreadable path cause)) ∧
    (∀ bytes, Describes lines bytes → bytes.length ≤ 256 →
      ∃ image, parse source = .ok image ∧ image.program = bytes ∧ image.size = bytes.length ∧
        image.memory.toList = bytes ++ List.replicate (256 - bytes.length) 0) ∧
    ∀ line ∈ lines, ∀ text, HasPayload line text →
      (text ≠ [] ∧ ¬IsByteText text) ∨ (∃ c ∈ text, c ≠ '0' ∧ c ≠ '1') →
        ∃ number found, parse source = .error (.malformedLine number found) := by
  intro lines
  refine ⟨fun number found => parse_eq_malformedLine_iff,
    fun size => parse_eq_programTooLarge_iff, fun image => parse_eq_ok_iff,
    fun path cause h => ?_, fun bytes hdescribes hle => ?_, fun line hline text htext hbad => ?_⟩
  · rcases parse_cases source with ⟨bytes, -, hparse⟩ | ⟨number, text, -, hparse⟩
    · rw [hparse, Image.ofBytes_eq_error_iff] at h
      cases h.1
    · rw [hparse] at h
      cases h
  · exact ⟨⟨bytes, hle⟩, parse_eq_ok_iff.mpr hdescribes, rfl, rfl, Image.memory_toList ⟨bytes, hle⟩⟩
  · rcases hbad with ⟨hne, hbad⟩ | ⟨c, hc, hzero, hone⟩
    · exact exists_malformedLine hline htext hne hbad
    · exact exists_malformedLine hline htext (List.ne_nil_of_mem hc) fun hbyte =>
        (hbyte.2 c hc).elim hzero hone

/-- A sign in the place of a digit is refused with its line, and a text with comments, white space
and line ends of both kinds is accepted. -/
theorem parse_accepts_exactly_grammar_signed :
    FirstMalformed (sourceLines "\t10000010 # load\r\n\n+0000001\n0000000_\n".toList) 3
        "+0000001".toList ∧
      Describes (sourceLines "10000010 # load\r\n\n\t00000001 ".toList) [0x82, 0x01] ∧
      ∃ image, parse "10000010 # load\r\n\n\t00000001 " = .ok image ∧
        image.program = [0x82, 0x01] ∧ image.size = 2 ∧
        image.memory.toList = [0x82, 0x01] ++ List.replicate 254 0 := by
  obtain ⟨hmalformed, -⟩ :=
    parse_accepts_exactly_grammar "\t10000010 # load\r\n\n+0000001\n0000000_\n"
  obtain ⟨-, -, haccepted, -, himage, -⟩ :=
    parse_accepts_exactly_grammar "10000010 # load\r\n\n\t00000001 "
  have hdescribes : Describes (sourceLines "10000010 # load\r\n\n\t00000001 ".toList)
      [0x82, 0x01] := (haccepted ⟨[0x82, 0x01], by decide⟩).mp (by decide +kernel)
  exact ⟨(hmalformed 3 "+0000001").mp (by decide +kernel), hdescribes,
    himage [0x82, 0x01] hdescribes (by decide)⟩

end ByteMachine.Source
