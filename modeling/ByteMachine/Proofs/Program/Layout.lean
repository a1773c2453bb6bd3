import ByteMachine.Proofs.Program.Parsing

/-!
# Layouts of a program

One program can be written in many ways. A layout is one of them: it puts every byte on a line of
its own, chooses the white space around the digits, the comments, the lines without a byte and the
line ends, and may leave the last line open. Its text is read as its bytes, whatever it has chosen
(`Layout.describes`), and there is no other text that is read as them (`Layout.exists_layout`).
-/

namespace ByteMachine.Source

/-- The eight binary digits of a byte, most significant digit first. -/
def spelling (value : UInt8) : List Char :=
  [7, 6, 5, 4, 3, 2, 1, 0].map fun place => if value.toNat.testBit place then '1' else '0'

/-- The digits of a byte spell it. -/
theorem isByteText_spelling (value : UInt8) : IsByteText (spelling value) := by
  refine ⟨rfl, fun c hc => ?_⟩
  obtain ⟨place, -, rfl⟩ := List.mem_map.mp hc
  by_cases hset : value.toNat.testBit place = true
  · exact Or.inr (if_pos hset)
  · exact Or.inl (if_neg hset)

/-- The digits of a byte stand for its value. -/
theorem binaryValue_spelling (value : UInt8) : binaryValue (spelling value) = value.toNat := by
  have h : ∀ n : Fin 256, binaryValue (spelling (UInt8.ofNat n.val)) =
      (UInt8.ofNat n.val).toNat := by
    decide +kernel
  simpa using h ⟨value.toNat, value.toNat_lt⟩

/-- Binary digits of the same number of places that stand for the same value are the same. -/
theorem eq_of_binaryValue_eq {first second : List Char} (hlength : first.length = second.length)
    (hfirst : ∀ c ∈ first, c = '0' ∨ c = '1') (hsecond : ∀ c ∈ second, c = '0' ∨ c = '1')
    (hvalue : binaryValue first = binaryValue second) : first = second := by
  induction first generalizing second with
  | nil => exact (List.length_eq_zero_iff.mp hlength.symm).symm
  | cons c first ih =>
    cases second with
    | nil => cases hlength
    | cons d second =>
      obtain ⟨hc, hothers⟩ := List.forall_mem_cons.mp hfirst
      obtain ⟨hd, hothers'⟩ := List.forall_mem_cons.mp hsecond
      have htail : first.length = second.length := Nat.succ.inj hlength
      have hlt := binaryValue_lt first
      have hlt' := binaryValue_lt second
      rw [binaryValue_cons, binaryValue_cons, htail] at hvalue
      rw [htail] at hlt
      -- What the later digits stand for is less than the first one counts.
      have hsame : c = d ∧ binaryValue first = binaryValue second := by
        rcases hc with rfl | rfl
        · rcases hd with rfl | rfl
          · exact ⟨rfl, Nat.add_left_cancel hvalue⟩
          · rw [if_neg (by decide), if_pos rfl] at hvalue
            omega
        · rcases hd with rfl | rfl
          · rw [if_pos rfl, if_neg (by decide)] at hvalue
            omega
          · exact ⟨rfl, Nat.add_left_cancel hvalue⟩
      rw [hsame.1, ih htail hothers hothers' hsame.2]

/-- A byte is spelled in one way. -/
theorem eq_spelling {text : List Char} {value : UInt8} (hbyte : IsByteText text)
    (hvalue : value.toNat = binaryValue text) : text = spelling value :=
  have hspelling := isByteText_spelling value
  eq_of_binaryValue_eq (hbyte.1.trans hspelling.1.symm) hbyte.2 hspelling.2
    (hvalue.symm.trans (binaryValue_spelling value).symm)

/-- A text that spells a byte holds binary digits only. -/
theorem IsByteText.not_mem {text : List Char} (h : IsByteText text) {c : Char} (hzero : c ≠ '0')
    (hone : c ≠ '1') : c ∉ text :=
  fun hmem => (h.2 c hmem).elim hzero hone

/-- A text that spells a byte has no white space around it. -/
theorem IsByteText.trimmed {text : List Char} (h : IsByteText text) : Trimmed text := by
  have hdigit : ∀ c ∈ text, c ∉ whiteSpace := by
    intro c hc
    rcases h.2 c hc with rfl | rfl <;> decide
  exact ⟨fun c hc => hdigit c (List.mem_of_head? hc),
    fun c hc => hdigit c (List.mem_of_getLast? hc)⟩

/-- One line of a layout, up to its line end: a byte, if there is one, between white space, and a
comment, if there is one, given by what stands behind the `#`. -/
structure LineLayout where
  value : Option UInt8 := none
  lead : List Char := []
  trail : List Char := []
  comment : Option (List Char) := none
  lead_white : lead ⊆ whiteSpace := by decide
  trail_white : trail ⊆ whiteSpace := by decide
  one_line : '\n' ∉ lead ∧ '\n' ∉ trail ∧ ∀ remark ∈ comment, '\n' ∉ remark := by decide

namespace LineLayout

/-- The digits on the line. -/
def digits (line : LineLayout) : List Char :=
  line.value.elim [] spelling

/-- The comment on the line with its `#`. -/
def remark (line : LineLayout) : List Char :=
  line.comment.elim [] ('#' :: ·)

/-- Text of the line. -/
def text (line : LineLayout) : List Char :=
  line.lead ++ line.digits ++ line.trail ++ line.remark

variable (line : LineLayout)

/-- Only binary digits stand between the white space. -/
theorem not_mem_digits {c : Char} (hzero : c ≠ '0') (hone : c ≠ '1') : c ∉ line.digits := by
  unfold digits
  cases line.value with
  | none => exact List.not_mem_nil
  | some value => exact (isByteText_spelling value).not_mem hzero hone

/-- The digits have no white space around them. -/
theorem trimmed_digits : Trimmed line.digits := by
  unfold digits
  cases line.value with
  | none => exact ⟨by simp, by simp⟩
  | some value => exact (isByteText_spelling value).trimmed

/-- The text of a line is one line. -/
theorem newline_not_mem_text : '\n' ∉ line.text := by
  obtain ⟨hlead, htrail, hcomment⟩ := line.one_line
  have hdigits : '\n' ∉ line.digits := line.not_mem_digits (by decide) (by decide)
  have hremark : '\n' ∉ line.remark := by
    unfold remark
    cases hline : line.comment with
    | none => simp
    | some remark => simpa using hcomment remark hline
  simp only [text, List.mem_append, not_or]
  exact ⟨⟨⟨hlead, hdigits⟩, htrail⟩, hremark⟩

/-- The payload of a line is its digits, also when its text is closed by white space. -/
theorem hasPayload {closing : List Char} (hclosing : closing ⊆ whiteSpace) :
    HasPayload (line.text ++ closing) line.digits := by
  have hhash : '#' ∉ line.digits := line.not_mem_digits (by decide) (by decide)
  have hbody : HasPayload (line.lead ++ line.digits ++ line.trail) line.digits :=
    ((hasPayload_self line.trimmed_digits hhash).indented line.lead_white).trailed line.trail_white
  have htext : HasPayload line.text line.digits := by
    unfold text remark
    cases line.comment with
    | none => rwa [Option.elim_none, List.append_nil]
    | some comment => exact hbody.remarked comment
  exact htext.trailed hclosing

/-- A line with a byte is not empty. -/
theorem value_of_text_eq_nil (h : line.text = []) : line.value = none := by
  simp only [text, List.append_eq_nil_iff] at h
  have hdigits : line.digits = [] := h.1.1.2
  unfold digits at hdigits
  cases hvalue : line.value with
  | none => rfl
  | some value =>
    rw [hvalue] at hdigits
    cases hdigits

/-- A line in front of others puts its byte, if it has one, in front of theirs. -/
theorem describes {closing : List Char} (hclosing : closing ⊆ whiteSpace)
    {lines : List (List Char)} {bytes : List UInt8} (h : Describes lines bytes) :
    Describes ((line.text ++ closing) :: lines) (line.value.toList ++ bytes) := by
  have hpayload := line.hasPayload hclosing
  unfold digits at hpayload
  cases hvalue : line.value with
  | none =>
    rw [hvalue] at hpayload
    exact .blank hpayload h
  | some value =>
    rw [hvalue] at hpayload
    exact .byte hpayload (isByteText_spelling value) (binaryValue_spelling value).symm h

/-- A line with digits or nothing for a payload is laid out. -/
theorem exists_of_hasPayload {found : List Char} (value : Option UInt8) (hline : '\n' ∉ found)
    (h : HasPayload found (value.elim [] spelling)) :
    ∃ line : LineLayout, line.text = found ∧ line.value = value := by
  obtain ⟨body, comment, rfl, -, hcomment, lead, trail, rfl, hlead, htrail, -⟩ := h
  simp only [List.mem_append, not_or] at hline
  obtain ⟨⟨⟨hlead', -⟩, htrail'⟩, hcomment'⟩ := hline
  rcases hcomment with rfl | hhead
  · let line : LineLayout :=
      { value, lead, trail
        lead_white := hlead
        trail_white := htrail
        one_line := ⟨hlead', htrail', by simp⟩ }
    exact ⟨line, rfl, rfl⟩
  · obtain ⟨remark, rfl⟩ := List.head?_eq_some_iff.mp hhead
    have hremark : '\n' ∉ remark := fun hmem => hcomment' (List.mem_cons_of_mem _ hmem)
    let line : LineLayout :=
      { value, lead, trail
        comment := some remark
        lead_white := hlead
        trail_white := htrail
        one_line := ⟨hlead', htrail', by simpa using hremark⟩ }
    exact ⟨line, rfl, rfl⟩

end LineLayout

/-- The first of the lines that describe bytes is laid out, with the first byte or with none. -/
theorem Describes.exists_line {found : List Char} {lines : List (List Char)} {bytes : List UInt8}
    (h : Describes (found :: lines) bytes) (hfeed : '\n' ∉ found) :
    ∃ (line : LineLayout) (others : List UInt8), line.text = found ∧
      bytes = line.value.toList ++ others ∧ Describes lines others := by
  cases h with
  | blank hpayload hothers =>
    obtain ⟨line, hline, hvalue⟩ := LineLayout.exists_of_hasPayload none hfeed hpayload
    exact ⟨line, bytes, hline, by rw [hvalue]; rfl, hothers⟩
  | @byte _ text value _ others hpayload hbyte hspelled hothers =>
    rw [eq_spelling hbyte hspelled] at hpayload
    obtain ⟨line, hline, hvalue⟩ := LineLayout.exists_of_hasPayload (some value) hfeed hpayload
    exact ⟨line, others, hline, by rw [hvalue]; rfl, hothers⟩

/-- The two line ends: a line feed, alone or behind a carriage return. -/
inductive LineEnd where
  | feed
  | returnFeed
  deriving DecidableEq, Repr

/-- What stands before the line feed of a line end. -/
def LineEnd.returns : LineEnd → List Char
  | .feed => []
  | .returnFeed => ['\r']

/-- A carriage return counts as white space. -/
theorem LineEnd.returns_subset (ending : LineEnd) : ending.returns ⊆ whiteSpace := by
  cases ending <;> decide

/-- No line feed stands before the line feed of a line end. -/
theorem LineEnd.newline_not_mem_returns (ending : LineEnd) : '\n' ∉ ending.returns := by
  cases ending <;> decide

/-- A way of writing a program: closed lines, and perhaps a last line that is left open. -/
inductive Layout where
  | done
  | opened (line : LineLayout)
  | closed (line : LineLayout) (ending : LineEnd) (rest : Layout)

namespace Layout

/-- Text of a layout. -/
def text : Layout → List Char
  | done => []
  | opened line => line.text
  | closed line ending rest => line.text ++ ending.returns ++ '\n' :: rest.text

/-- Bytes of a layout, in the order of their lines. -/
def bytes : Layout → List UInt8
  | done => []
  | opened line => line.value.toList
  | closed line _ rest => line.value.toList ++ rest.bytes

/-- The layout with nothing but the digits on each line. -/
def plain (bytes : List UInt8) : Layout :=
  bytes.foldr (fun value rest => closed { value := some value } .feed rest) done

/-- A program can be written without any decoration. -/
@[simp] theorem bytes_plain (bytes : List UInt8) : (plain bytes).bytes = bytes := by
  induction bytes with
  | nil => rfl
  | cons value bytes ih => exact congrArg (value :: ·) ih

/-- The lines of a layout describe its bytes. -/
theorem describes (layout : Layout) : Describes (sourceLines layout.text) layout.bytes := by
  induction layout with
  | done => exact .nil
  | opened line =>
    rw [text, bytes, sourceLines_of_not_mem line.newline_not_mem_text]
    by_cases hempty : line.text = []
    · -- An empty last line is no line at all.
      rw [if_pos hempty, line.value_of_text_eq_nil hempty]
      exact .nil
    · have hone := line.describes (List.nil_subset _) .nil
      rw [List.append_nil, List.append_nil] at hone
      rwa [if_neg hempty]
  | closed line ending rest ih =>
    have hfeed : '\n' ∉ line.text ++ ending.returns := by
      rw [List.mem_append, not_or]
      exact ⟨line.newline_not_mem_text, ending.newline_not_mem_returns⟩
    rw [text, sourceLines_append_newline hfeed]
    exact line.describes ending.returns_subset ih

/-- The lines of a text that describe bytes are laid out. -/
theorem exists_layout (text : List Char) {bytes : List UInt8}
    (h : Describes (sourceLines text) bytes) :
    ∃ layout : Layout, layout.text = text ∧ layout.bytes = bytes := by
  -- Each closed line makes the text shorter. Returns before its line feed count as white space.
  induction hlength : text.length using Nat.strongRecOn generalizing text bytes with
  | ind length ih =>
    by_cases hfeed : '\n' ∈ text
    · obtain ⟨found, rest, rfl, hfound⟩ := List.eq_append_cons_of_mem hfeed
      rw [sourceLines_append_newline hfound] at h
      obtain ⟨line, others, hline, rfl, hothers⟩ := h.exists_line hfound
      have hshorter : rest.length < length := by
        rw [← hlength, List.length_append, List.length_cons]
        omega
      obtain ⟨layout, htext, hbytes⟩ := ih rest.length hshorter rest hothers rfl
      refine ⟨closed line .feed layout, ?_, ?_⟩
      · simp only [Layout.text, LineEnd.returns, List.append_nil, hline, htext]
      · rw [Layout.bytes, hbytes]
    · rw [sourceLines_of_not_mem hfeed] at h
      by_cases hempty : text = []
      · rw [if_pos hempty] at h
        cases h
        exact ⟨done, hempty.symm, rfl⟩
      · rw [if_neg hempty] at h
        obtain ⟨line, others, hline, rfl, hothers⟩ := h.exists_line hfeed
        cases hothers
        exact ⟨opened line, hline, (List.append_nil _).symm⟩

end Layout

/-- However a program is laid out, its text is read as the image of its bytes, or refused for their
number if they are too many; and no other text is read as the program. -/
theorem every_layout_reads_back (bytes : List UInt8) :
    (∀ layout : Layout, layout.bytes = bytes →
      (bytes.length ≤ 256 →
        ∃ image, parse (String.ofList layout.text) = .ok image ∧ Image.ofBytes bytes = .ok image ∧
          image.size = bytes.length ∧ image.program = bytes) ∧
      (256 < bytes.length →
        parse (String.ofList layout.text) = .error (.programTooLarge bytes.length))) ∧
    ∀ source, (∃ image, parse source = .ok image ∧ image.program = bytes) ↔
      bytes.length ≤ 256 ∧
        ∃ layout : Layout, layout.text = source.toList ∧ layout.bytes = bytes := by
  have hread (layout : Layout) (hbytes : layout.bytes = bytes) :
      parse (String.ofList layout.text) = Image.ofBytes bytes := by
    rw [parse, String.toList_ofList, parseChars_of_describes layout.describes, hbytes]
  have himage (hfits : bytes.length ≤ 256) : Image.ofBytes bytes = .ok ⟨bytes, hfits⟩ :=
    Image.ofBytes_program ⟨bytes, hfits⟩
  refine ⟨fun layout hbytes => ⟨fun hfits => ?_, fun hlong => ?_⟩, fun source => ⟨?_, ?_⟩⟩
  · exact ⟨⟨bytes, hfits⟩, (hread layout hbytes).trans (himage hfits), himage hfits, rfl, rfl⟩
  · rw [hread layout hbytes, Image.ofBytes_eq_error_iff]
    exact ⟨rfl, hlong⟩
  · rintro ⟨image, hparse, rfl⟩
    exact ⟨image.fits, Layout.exists_layout _ (parse_eq_ok_iff.mp hparse)⟩
  · rintro ⟨hfits, layout, htext, hbytes⟩
    have hparse := hread layout hbytes
    rw [htext, String.ofList_toList] at hparse
    exact ⟨⟨bytes, hfits⟩, hparse.trans (himage hfits), rfl⟩

/-- Two bytes, decorated with white space, comments that hold digits, and line ends of both kinds,
and left open at the end, are read back; 257 bytes without decoration are refused. -/
theorem every_layout_reads_back_decorated :
    let decorated : Layout :=
      .closed { comment := some "#01010101\r".toList } .feed
        (.closed { value := some 0x82, lead := ['\t', '\u3000'], trail := ['\r', ' '],
                   comment := some " # 00000001 é".toList } .returnFeed
          (.closed { lead := [' ', '\u00a0'] } .feed
            (.opened { value := some 1, trail := ['\r'] })))
    decorated.text =
        "##01010101\r\n\t\u300010000010\r # # 00000001 é\r\n \u00a0\n00000001\r".toList ∧
      (∃ image, parse (String.ofList decorated.text) = .ok image ∧
        Image.ofBytes [0x82, 1] = .ok image ∧ image.size = 2 ∧ image.program = [0x82, 1]) ∧
      (∃ layout : Layout, layout.text = "00000111".toList ∧ layout.bytes = [7]) ∧
      parse (String.ofList (Layout.plain (List.replicate 257 7)).text) =
        .error (.programTooLarge 257) := by
  intro decorated
  obtain ⟨hdecorated, -⟩ := every_layout_reads_back [0x82, 1]
  obtain ⟨-, hsevens⟩ := every_layout_reads_back [7]
  obtain ⟨hlong, -⟩ := every_layout_reads_back (List.replicate 257 7)
  rw [List.length_replicate] at hlong
  have hseven : ∃ image, parse "00000111" = .ok image ∧ image.program = [7] :=
    ⟨⟨[7], by decide⟩, by decide +kernel, rfl⟩
  exact ⟨by decide +kernel, (hdecorated decorated rfl).1 (by decide),
    ((hsevens "00000111").mp hseven).2, (hlong _ (Layout.bytes_plain _)).2 (by decide)⟩

end ByteMachine.Source
