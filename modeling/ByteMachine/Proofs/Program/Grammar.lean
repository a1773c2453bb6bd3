import ByteMachine.Program.Source
import Mathlib.Data.List.TakeWhile
import Mathlib.Data.Nat.Digits.Defs

/-!
# The grammar of program texts

What a program text is, said without a way to read it: which pieces are its lines, which part of a
line is its payload, which texts spell a byte, and which lines describe which program. For each of
these there is a lemma that the reader finds exactly what is said here.
-/

namespace ByteMachine.Source

/-- The characters with the Unicode property `White_Space`. -/
def whiteSpace : List Char :=
  ['\t', '\n', '\x0b', '\x0c', '\r', ' ', '\u0085', '\u00a0', '\u1680', '\u2000', '\u2001',
   '\u2002', '\u2003', '\u2004', '\u2005', '\u2006', '\u2007', '\u2008', '\u2009', '\u200a',
   '\u2028', '\u2029', '\u202f', '\u205f', '\u3000']

/-- The lines of a text: its pieces between line feeds, without an empty piece at the end. -/
def sourceLines (text : List Char) : List (List Char) :=
  let pieces := text.splitOn '\n'
  if pieces.getLast? = some [] then pieces.dropLast else pieces

/-- A text neither begins nor ends with white space. -/
def Trimmed (text : List Char) : Prop :=
  (∀ c ∈ text.head?, c ∉ whiteSpace) ∧ ∀ c ∈ text.getLast?, c ∉ whiteSpace

/-- A text without the white space around it. -/
def TrimsTo (body text : List Char) : Prop :=
  ∃ lead trail, body = lead ++ text ++ trail ∧ lead ⊆ whiteSpace ∧ trail ⊆ whiteSpace ∧
    Trimmed text

/-- The payload of a line: what stands before its first `#`, without the white space around it. -/
def HasPayload (line text : List Char) : Prop :=
  ∃ body comment, line = body ++ comment ∧ '#' ∉ body ∧
    (comment = [] ∨ comment.head? = some '#') ∧ TrimsTo body text

/-- Eight binary digits. -/
def IsByteText (text : List Char) : Prop :=
  text.length = 8 ∧ ∀ c ∈ text, c = '0' ∨ c = '1'

/-- The number that binary digits stand for, most significant digit first. -/
def binaryValue (text : List Char) : Nat :=
  Nat.ofDigits 2 (text.reverse.map fun c => if c = '1' then 1 else 0)

/-- Lines describe the bytes of a program: each is blank, or its payload spells the next byte. -/
inductive Describes : List (List Char) → List UInt8 → Prop where
  | nil : Describes [] []
  | blank {line : List Char} {lines : List (List Char)} {bytes : List UInt8} :
      HasPayload line [] → Describes lines bytes → Describes (line :: lines) bytes
  | byte {line text : List Char} {value : UInt8} {lines : List (List Char)} {bytes : List UInt8} :
      HasPayload line text → IsByteText text → value.toNat = binaryValue text →
        Describes lines bytes → Describes (line :: lines) (value :: bytes)

/-- The first of the lines that is neither blank nor spells a byte, counted from one, with its
payload. -/
def FirstMalformed (lines : List (List Char)) (number : Nat) (text : List Char) : Prop :=
  ∃ earlier line later bytes, lines = earlier ++ line :: later ∧ number = earlier.length + 1 ∧
    Describes earlier bytes ∧ HasPayload line text ∧ text ≠ [] ∧ ¬IsByteText text

/-- The ranges of blank characters hold white space and nothing else. -/
theorem isBlank_iff {c : Char} : Text.isBlank c = true ↔ c ∈ whiteSpace := by
  have hranges : whiteSpace.map Char.toNat =
      Text.blankRanges.flatMap fun range => List.range' range.1 (range.2 + 1 - range.1) := rfl
  have hpoint : c ∈ whiteSpace ↔ c.toNat ∈ whiteSpace.map Char.toNat := by
    simp [List.mem_map, Char.toNat_inj]
  rw [hpoint, hranges, Text.isBlank, List.any_eq_true, List.mem_flatMap]
  refine exists_congr fun range => and_congr_right fun _ => ?_
  rw [List.mem_range'_1, Bool.and_eq_true, decide_eq_true_eq, decide_eq_true_eq]
  omega

/-- A character that is not white space is not blank. -/
theorem isBlank_eq_false_iff {c : Char} : Text.isBlank c = false ↔ c ∉ whiteSpace := by
  rw [← isBlank_iff, Bool.not_eq_true]

/-- A line feed in front opens a line, any other character joins the first one. -/
theorem sourceLines_cons (c : Char) (text : List Char) :
    sourceLines (c :: text) =
      if c = '\n' then [] :: sourceLines text
      else match sourceLines text with
        | [] => [[c]]
        | first :: others => (c :: first) :: others := by
  obtain ⟨first, others, hpieces⟩ := List.exists_cons_of_ne_nil (List.splitOn_ne_nil '\n' text)
  have hcons : (c :: text).splitOn '\n' =
      if c = '\n' then [] :: first :: others else (c :: first) :: others := by
    rw [List.splitOn_eq_splitOnP] at hpieces ⊢
    rw [List.splitOnP_cons_eq_if_modifyHead, hpieces]
    simp
  rw [sourceLines, sourceLines, hcons, hpieces]
  by_cases hc : c = '\n'
  · simp only [if_pos hc, List.getLast?_cons_cons, List.dropLast_cons_cons]
    split_ifs <;> rfl
  · simp only [if_neg hc]
    cases others with
    | nil => cases first <;> simp
    | cons second rest =>
      simp only [List.getLast?_cons_cons, List.dropLast_cons_cons]
      split_ifs <;> rfl

/-- A text without a line feed is one line, or none when it is empty. -/
theorem sourceLines_of_not_mem {line : List Char} (h : '\n' ∉ line) :
    sourceLines line = if line = [] then [] else [line] := by
  rw [sourceLines, List.splitOn_eq_singleton h]
  by_cases hline : line = [] <;> simp [hline]

/-- A line that is closed by a line feed is the first one, whatever follows. -/
theorem sourceLines_append_newline {line : List Char} (h : '\n' ∉ line) (rest : List Char) :
    sourceLines (line ++ '\n' :: rest) = line :: sourceLines rest := by
  obtain ⟨first, others, hrest⟩ := List.exists_cons_of_ne_nil (List.splitOn_ne_nil '\n' rest)
  rw [sourceLines, sourceLines, List.splitOn_append_cons_self, List.splitOn_eq_singleton h, hrest,
    List.singleton_append, List.getLast?_cons_cons, List.dropLast_cons_cons]
  split_ifs <;> rfl

/-- A segment without its line feed. -/
def dropFeed (segment : List Char) : List Char :=
  if segment.getLast? = some '\n' then segment.dropLast else segment

/-- Without their line feeds the segments of a text are the lines of the grammar. -/
theorem segments_map_dropFeed (text : List Char) :
    (Text.segments text).map dropFeed = sourceLines text := by
  induction text with
  | nil => rfl
  | cons c text ih =>
    rw [sourceLines_cons, ← ih]
    change (Text.prependChar c (Text.segments text)).map dropFeed = _
    by_cases hc : c = '\n'
    · simp [Text.prependChar, hc, dropFeed]
    · cases Text.segments text with
      | nil => simp [Text.prependChar, hc, dropFeed]
      | cons first others =>
        have hjoined : dropFeed (c :: first) = c :: dropFeed first := by
          cases first with
          | nil => simp [dropFeed, hc]
          | cons d rest =>
            simp only [dropFeed, List.getLast?_cons_cons, List.dropLast_cons_cons]
            split_ifs <;> rfl
        simp [Text.prependChar, hc, hjoined]

/-- White space removed from the front leaves nothing of it there. -/
theorem head?_trimStart (text : List Char) : ∀ c ∈ (Text.trimStart text).head?, c ∉ whiteSpace := by
  intro c hc
  have hhead := text.head?_dropWhile_not Text.isBlank
  rw [Text.trimStart] at hc
  rw [hc] at hhead
  exact isBlank_eq_false_iff.mp hhead

/-- A text that does not begin with white space keeps its front. -/
theorem trimStart_of_head? {text : List Char} (h : ∀ c ∈ text.head?, c ∉ whiteSpace) :
    Text.trimStart text = text := by
  cases text with
  | nil => rfl
  | cons c text =>
    have hc : Text.isBlank c = false := isBlank_eq_false_iff.mpr (h c rfl)
    simp [Text.trimStart, hc]

/-- White space in front is removed. -/
theorem trimStart_append {lead : List Char} (h : lead ⊆ whiteSpace) (text : List Char) :
    Text.trimStart (lead ++ text) = Text.trimStart text :=
  List.dropWhile_append_of_pos fun _ hc => isBlank_iff.mpr (h hc)

/-- What is removed from the front is white space. -/
theorem exists_trimStart (text : List Char) :
    ∃ lead, text = lead ++ Text.trimStart text ∧ lead ⊆ whiteSpace :=
  ⟨text.takeWhile Text.isBlank, List.takeWhile_append_dropWhile.symm,
    fun _ hc => isBlank_iff.mp (List.mem_takeWhile_imp hc)⟩

/-- What is removed from the back is white space. -/
theorem exists_trimEnd (text : List Char) :
    ∃ trail, text = Text.trimEnd text ++ trail ∧ trail ⊆ whiteSpace := by
  obtain ⟨lead, htext, hlead⟩ := exists_trimStart text.reverse
  refine ⟨lead.reverse, ?_, by simpa using hlead⟩
  rw [Text.trimEnd, ← List.reverse_append, ← htext, List.reverse_reverse]

/-- Trimming finds the text without the white space around it. -/
theorem trim_eq_iff {body text : List Char} : Text.trim body = text ↔ TrimsTo body text := by
  constructor
  · rintro rfl
    obtain ⟨lead, hbody, hlead⟩ := exists_trimStart body
    obtain ⟨trail, hstart, htrail⟩ := exists_trimEnd (Text.trimStart body)
    refine ⟨lead, trail, ?_, hlead, htrail, ?_, ?_⟩
    · rw [List.append_assoc, Text.trim, ← hstart, ← hbody]
    · intro c hc
      apply head?_trimStart body c
      rw [Text.trim] at hc
      rw [hstart, List.head?_append, hc]
      rfl
    · intro c hc
      apply head?_trimStart (Text.trimStart body).reverse c
      rwa [Text.trim, Text.trimEnd, List.getLast?_reverse] at hc
  · rintro ⟨lead, trail, rfl, hlead, htrail, hhead, hlast⟩
    have hstart : Text.trimStart (lead ++ text ++ trail) = Text.trimStart (text ++ trail) := by
      rw [List.append_assoc, trimStart_append hlead]
    rw [Text.trim, hstart]
    cases text with
    | nil =>
      have hnone := trimStart_append htrail []
      rw [List.append_nil] at hnone
      rw [List.nil_append, hnone]
      rfl
    | cons c text =>
      have hkept : Text.trimStart (c :: text ++ trail) = c :: text ++ trail :=
        trimStart_of_head? hhead
      have hend : trail.reverse ⊆ whiteSpace := by simpa using htrail
      have hback : Text.trimStart (c :: text).reverse = (c :: text).reverse :=
        trimStart_of_head? (by rwa [List.head?_reverse])
      rw [hkept, Text.trimEnd, List.reverse_append, trimStart_append hend, hback,
        List.reverse_reverse]

/-- The body of a line ends where its comment begins. -/
theorem takeWhile_body {body comment : List Char} (hbody : '#' ∉ body)
    (hcomment : comment = [] ∨ comment.head? = some '#') :
    (body ++ comment).takeWhile (· != '#') = body := by
  have hall : ∀ c ∈ body, (c != '#') = true := by
    intro c hc
    rw [bne_iff_ne]
    rintro rfl
    exact hbody hc
  have hstop : comment.takeWhile (· != '#') = [] := by
    rcases hcomment with rfl | hhead
    · rfl
    · obtain ⟨rest, rfl⟩ := List.head?_eq_some_iff.mp hhead
      rfl
  rw [List.takeWhile_append_of_pos hall, hstop, List.append_nil]

/-- The reader takes the payload of a line. -/
theorem payload_eq_iff {line text : List Char} : payload line = text ↔ HasPayload line text := by
  constructor
  · intro h
    refine ⟨line.takeWhile (· != '#'), line.dropWhile (· != '#'),
      List.takeWhile_append_dropWhile.symm, fun hmem => ?_, ?_, trim_eq_iff.mp h⟩
    · simpa using List.mem_takeWhile_imp hmem
    · have hhead := line.head?_dropWhile_not (· != '#')
      cases hcomment : line.dropWhile (· != '#') with
      | nil => exact Or.inl rfl
      | cons c comment =>
        rw [hcomment] at hhead
        exact Or.inr (by simpa using hhead)
  · rintro ⟨body, comment, rfl, hbody, hcomment, htrims⟩
    rw [payload, takeWhile_body hbody hcomment]
    exact trim_eq_iff.mpr htrims

/-- Every line has the payload that the reader takes. -/
theorem hasPayload_payload (line : List Char) : HasPayload line (payload line) :=
  payload_eq_iff.mp rfl

/-- White space holds no `#`. -/
theorem hash_not_mem_of_subset {space : List Char} (h : space ⊆ whiteSpace) : '#' ∉ space :=
  fun hmem => absurd (h hmem) (by decide)

/-- White space in front is trimmed. -/
theorem TrimsTo.indented {body text space : List Char} (h : TrimsTo body text)
    (hspace : space ⊆ whiteSpace) : TrimsTo (space ++ body) text := by
  obtain ⟨lead, trail, rfl, hlead, htrail, htrimmed⟩ := h
  exact ⟨space ++ lead, trail, by simp, List.append_subset.mpr ⟨hspace, hlead⟩, htrail, htrimmed⟩

/-- White space behind is trimmed. -/
theorem TrimsTo.trailed {body text space : List Char} (h : TrimsTo body text)
    (hspace : space ⊆ whiteSpace) : TrimsTo (body ++ space) text := by
  obtain ⟨lead, trail, rfl, hlead, htrail, htrimmed⟩ := h
  exact ⟨lead, trail ++ space, by simp, hlead, List.append_subset.mpr ⟨htrail, hspace⟩, htrimmed⟩

/-- A trimmed text without a comment is its own payload. -/
theorem hasPayload_self {text : List Char} (htrimmed : Trimmed text) (hhash : '#' ∉ text) :
    HasPayload text text :=
  ⟨text, [], by simp, hhash, Or.inl rfl, [], [], by simp, List.nil_subset _, List.nil_subset _,
    htrimmed⟩

namespace HasPayload

variable {line text space : List Char}

/-- The payload of a line stands in the line. -/
theorem isInfix (h : HasPayload line text) : text <:+: line := by
  obtain ⟨body, comment, rfl, -, -, lead, trail, rfl, -⟩ := h
  exact ⟨lead, trail ++ comment, by simp⟩

/-- The payload of a line holds no `#`. -/
theorem hash_not_mem (h : HasPayload line text) : '#' ∉ text := by
  obtain ⟨body, comment, -, hbody, -, lead, trail, rfl, -⟩ := h
  simp only [List.mem_append, not_or] at hbody
  exact hbody.1.2

/-- The payload of a line has no white space around it. -/
theorem trimmed (h : HasPayload line text) : Trimmed text := by
  obtain ⟨_, _, _, _, _, _, _, _, _, _, htrimmed⟩ := h
  exact htrimmed

/-- White space in front of a line leaves the payload alone. -/
theorem indented (h : HasPayload line text) (hspace : space ⊆ whiteSpace) :
    HasPayload (space ++ line) text := by
  obtain ⟨body, comment, rfl, hbody, hcomment, htrims⟩ := h
  refine ⟨space ++ body, comment, by simp, ?_, hcomment, htrims.indented hspace⟩
  rw [List.mem_append, not_or]
  exact ⟨hash_not_mem_of_subset hspace, hbody⟩

/-- White space behind a line leaves the payload alone: it is trimmed, or part of the comment. -/
theorem trailed (h : HasPayload line text) (hspace : space ⊆ whiteSpace) :
    HasPayload (line ++ space) text := by
  obtain ⟨body, comment, rfl, hbody, hcomment, htrims⟩ := h
  rcases hcomment with rfl | hhead
  · refine ⟨body ++ space, [], by simp, ?_, Or.inl rfl, htrims.trailed hspace⟩
    rw [List.mem_append, not_or]
    exact ⟨hbody, hash_not_mem_of_subset hspace⟩
  · exact ⟨body, comment ++ space, by simp, hbody, Or.inr (by simp [hhead]), htrims⟩

/-- A comment behind a line leaves the payload alone, also if there was one already. -/
theorem remarked (h : HasPayload line text) (remark : List Char) :
    HasPayload (line ++ '#' :: remark) text := by
  obtain ⟨body, comment, rfl, hbody, hcomment, htrims⟩ := h
  rcases hcomment with rfl | hhead
  · exact ⟨body, '#' :: remark, by simp, hbody, Or.inr rfl, htrims⟩
  · exact ⟨body, comment ++ '#' :: remark, by simp, hbody, Or.inr (by simp [hhead]), htrims⟩

end HasPayload

/-- The reader takes the same payload with white space behind the line. -/
theorem payload_trailed (line : List Char) {space : List Char} (h : space ⊆ whiteSpace) :
    payload (line ++ space) = payload line :=
  payload_eq_iff.mpr ((hasPayload_payload line).trailed h)

/-- A carriage return at the end of a line is white space behind it. -/
theorem payload_dropReturn (line : List Char) :
    payload (Text.dropReturn line) = payload line := by
  by_cases hlast : line.getLast? = some '\r'
  · obtain ⟨front, rfl⟩ := List.getLast?_eq_some_iff.mp hlast
    have hreturn : ['\r'] ⊆ whiteSpace := by decide
    rw [Text.dropReturn, if_pos hlast, List.dropLast_concat, payload_trailed front hreturn]
  · rw [Text.dropReturn, if_neg hlast]

/-- Which line end a line has does not matter to its payload. -/
theorem payload_dropLineEnd (segment : List Char) :
    payload (Text.dropLineEnd segment) = payload (dropFeed segment) := by
  unfold Text.dropLineEnd dropFeed
  split
  · exact payload_dropReturn _
  · rfl

/-- The reader finds on each line what it would find on the line of the grammar. -/
theorem contents_eq (text : List Char) :
    contents text = (sourceLines text).map Content.ofLine := by
  rw [contents, Text.lines, ← segments_map_dropFeed, List.map_map, List.map_map]
  refine List.map_congr_left fun segment _ => ?_
  simp only [Function.comp_apply, Content.ofLine, payload_dropLineEnd]

/-- A digit in front counts for the power of two that belongs to its place. -/
theorem binaryValue_cons (c : Char) (text : List Char) :
    binaryValue (c :: text) = (if c = '1' then 1 else 0) * 2 ^ text.length + binaryValue text := by
  simp only [binaryValue, List.reverse_cons, List.map_append, Nat.ofDigits_append, List.map_cons,
    List.map_nil, Nat.ofDigits_singleton, List.length_map, List.length_reverse]
  ring

/-- As many digits as there are, so many values. -/
theorem binaryValue_lt (text : List Char) : binaryValue text < 2 ^ text.length := by
  induction text with
  | nil => simp [binaryValue]
  | cons c text ih =>
    rw [binaryValue_cons, List.length_cons, pow_succ]
    split_ifs <;> omega

/-- Reading binary digits behind a number shifts the number. -/
theorem ofDigitChars_eq {text : List Char} (h : ∀ c ∈ text, c = '0' ∨ c = '1') (before : Nat) :
    Nat.ofDigitChars 2 text before = before * 2 ^ text.length + binaryValue text := by
  induction text generalizing before with
  | nil => simp [binaryValue]
  | cons c text ih =>
    have hdigit : c.toNat - '0'.toNat = if c = '1' then 1 else 0 := by
      rcases h c (by simp) with rfl | rfl <;> rfl
    rw [Nat.ofDigitChars_cons, ih fun d hd => h d (by simp [hd]), binaryValue_cons, hdigit,
      List.length_cons]
    ring

/-- The reader takes a byte for a binary digit by its code. -/
theorem isBinaryDigit_iff {byte : UInt8} :
    isBinaryDigit byte = true ↔ byte.toNat = 0x30 ∨ byte.toNat = 0x31 := by
  simp only [isBinaryDigit, Bool.or_eq_true, beq_iff_eq, ← UInt8.toNat_inj]
  rfl

/-- All bytes of a character are codes of binary digits exactly if it is such a digit. -/
theorem utf8EncodeChar_all_isBinaryDigit {c : Char} :
    (String.utf8EncodeChar c).all isBinaryDigit = true ↔ c = '0' ∨ c = '1' := by
  have hcode (d : Char) : c = d ↔ c.val.toNat = d.val.toNat := by
    rw [UInt32.toNat_inj, Char.ext_iff]
  rw [hcode, hcode, String.utf8EncodeChar]
  -- Beyond ASCII the first byte is at least 0xC0.
  split_ifs with hone htwo hthree
  all_goals
    simp only [List.all_cons, List.all_nil, Bool.and_eq_true, isBinaryDigit_iff,
      UInt8.toNat_ofNat', and_true]
    change _ ↔ c.val.toNat = 0x30 ∨ c.val.toNat = 0x31
    omega

/-- The reader looks for eight binary digits. It counts bytes, and a digit has one. -/
theorem isByteText_iff {text : List Char} :
    ((text.flatMap String.utf8EncodeChar).length = 8 ∧
      (text.flatMap String.utf8EncodeChar).all isBinaryDigit = true) ↔ IsByteText text := by
  have hall : (text.flatMap String.utf8EncodeChar).all isBinaryDigit = true ↔
      ∀ c ∈ text, c = '0' ∨ c = '1' := by
    rw [List.all_flatMap, List.all_eq_true]
    exact forall₂_congr fun c _ => utf8EncodeChar_all_isBinaryDigit
  rw [hall, IsByteText]
  refine and_congr_left fun hdigits => ?_
  have hone : ∀ c ∈ text, (String.utf8EncodeChar c).length = 1 := by
    intro c hc
    rcases hdigits c hc with rfl | rfl <;> rfl
  rw [List.length_flatMap, List.map_congr_left hone, List.map_const',
    List.sum_replicate_nat, Nat.mul_one]

/-- The reader reads the texts that spell a byte, and their value. -/
theorem readByte?_eq_some_iff {text : List Char} {value : UInt8} :
    readByte? text = some value ↔ IsByteText text ∧ value.toNat = binaryValue text := by
  unfold readByte?
  by_cases h : IsByteText text
  · have hlt := binaryValue_lt text
    rw [h.1] at hlt
    rw [if_pos (isByteText_iff.mpr h), ofDigitChars_eq h.2, Nat.zero_mul, Nat.zero_add,
      Option.some_inj, ← UInt8.toNat_inj, UInt8.toNat_ofNat_of_lt' hlt]
    exact ⟨fun heq => ⟨h, heq.symm⟩, fun hspells => hspells.2.symm⟩
  · rw [if_neg (isByteText_iff.not.mpr h)]
    simp [h]

/-- The reader reads no other text. -/
theorem readByte?_eq_none_iff {text : List Char} : readByte? text = none ↔ ¬IsByteText text := by
  rw [← isByteText_iff, readByte?]
  simp

end ByteMachine.Source
