import ByteMachine.Program.File
import Mathlib.Data.List.Forall2

/-!
# Well-formed UTF-8

Which bytes are the UTF-8 form of a text, told by the bytes alone. The Unicode standard lists the
forms that the bytes of one character take, with a range for each byte, and calls bytes well-formed
when they are such forms one behind the other. These are exactly the UTF-8 forms of texts: the
ranges leave out the forms that are longer than they need be, the surrogates and what lies beyond
the last code point. Where a character ends is known from its own bytes, so behind a text there may
follow exactly what is well-formed on its own.
-/

namespace ByteMachine.Text

/-- The forms of a character: for each of its bytes the least and the greatest value. -/
def characterForms : List (List (Nat × Nat)) :=
  [[(0x00, 0x7F)],
   [(0xC2, 0xDF), (0x80, 0xBF)],
   [(0xE0, 0xE0), (0xA0, 0xBF), (0x80, 0xBF)],
   [(0xE1, 0xEC), (0x80, 0xBF), (0x80, 0xBF)],
   [(0xED, 0xED), (0x80, 0x9F), (0x80, 0xBF)],
   [(0xEE, 0xEF), (0x80, 0xBF), (0x80, 0xBF)],
   [(0xF0, 0xF0), (0x90, 0xBF), (0x80, 0xBF), (0x80, 0xBF)],
   [(0xF1, 0xF3), (0x80, 0xBF), (0x80, 0xBF), (0x80, 0xBF)],
   [(0xF4, 0xF4), (0x80, 0x8F), (0x80, 0xBF), (0x80, 0xBF)]]

/-- Bytes that have one of the forms of a character. -/
def IsCharacter (bytes : List UInt8) : Prop :=
  ∃ form ∈ characterForms,
    List.Forall₂ (fun byte range => range.1 ≤ byte.toNat ∧ byte.toNat ≤ range.2) bytes form

/-- Bytes that are characters one behind the other. -/
inductive WellFormed : List UInt8 → Prop where
  | nil : WellFormed []
  | character {bytes rest : List UInt8} :
      IsCharacter bytes → WellFormed rest → WellFormed (bytes ++ rest)

/-- A byte that continues a character. -/
def IsContinuation (byte : UInt8) : Prop :=
  0x80 ≤ byte.toNat ∧ byte.toNat ≤ 0xBF

variable {a b c d : UInt8} {bytes : List UInt8}

/-- A character of one byte is one of ASCII. -/
theorem isCharacter_one : IsCharacter [a] ↔ a.toNat ≤ 0x7F := by
  simp [IsCharacter, characterForms]

/-- A character of two bytes does not begin with one that would make it overlong. -/
theorem isCharacter_two :
    IsCharacter [a, b] ↔ (0xC2 ≤ a.toNat ∧ a.toNat ≤ 0xDF) ∧ IsContinuation b := by
  simp [IsCharacter, characterForms, IsContinuation]

/-- A character of three bytes is neither overlong nor a surrogate. -/
theorem isCharacter_three :
    IsCharacter [a, b, c] ↔ (0xE0 ≤ a.toNat ∧ a.toNat ≤ 0xEF) ∧ IsContinuation b ∧
      IsContinuation c ∧ (a.toNat = 0xE0 → 0xA0 ≤ b.toNat) ∧ (a.toNat = 0xED → b.toNat ≤ 0x9F) := by
  simp only [IsCharacter, characterForms, IsContinuation, List.mem_cons, List.not_mem_nil, or_false,
    exists_eq_or_imp, exists_eq_left, List.forall₂_cons, List.forall₂_nil_left_iff,
    List.forall₂_nil_right_iff, reduceCtorEq, and_false, and_true, false_or]
  omega

/-- A character of four bytes is neither overlong nor beyond the last code point. -/
theorem isCharacter_four :
    IsCharacter [a, b, c, d] ↔ (0xF0 ≤ a.toNat ∧ a.toNat ≤ 0xF4) ∧ IsContinuation b ∧
      IsContinuation c ∧ IsContinuation d ∧
      (a.toNat = 0xF0 → 0x90 ≤ b.toNat) ∧ (a.toNat = 0xF4 → b.toNat ≤ 0x8F) := by
  simp only [IsCharacter, characterForms, IsContinuation, List.mem_cons, List.not_mem_nil, or_false,
    exists_eq_or_imp, exists_eq_left, List.forall₂_cons, List.forall₂_nil_right_iff,
    reduceCtorEq, and_false, and_true, false_or]
  omega

/-- A character has one to four bytes. -/
theorem IsCharacter.length (h : IsCharacter bytes) : 1 ≤ bytes.length ∧ bytes.length ≤ 4 := by
  obtain ⟨form, hform, hbytes⟩ := h
  have hforms : ∀ form ∈ characterForms, 1 ≤ form.length ∧ form.length ≤ 4 := by decide
  rw [hbytes.length_eq]
  exact hforms form hform

/-- There is a character for each number that is a code point and no surrogate. -/
theorem exists_char (number : Nat) (h : number.isValidChar) : ∃ c : Char, c.val.toNat = number :=
  ⟨Char.ofNatAux number h, rfl⟩

/-- The UTF-8 form of a character is a character. -/
theorem isCharacter_utf8EncodeChar (c : Char) : IsCharacter (String.utf8EncodeChar c) := by
  have hvalid : c.val.toNat.isValidChar := c.valid
  simp only [String.utf8EncodeChar]
  split_ifs with hone htwo hthree
  · rw [isCharacter_one, UInt8.toNat_ofNat']
    omega
  · rw [isCharacter_two, IsContinuation, UInt8.toNat_ofNat', UInt8.toNat_ofNat']
    omega
  · simp only [isCharacter_three, IsContinuation, UInt8.toNat_ofNat']
    omega
  · simp only [isCharacter_four, IsContinuation, UInt8.toNat_ofNat']
    omega

/-- A byte is known by its value. -/
theorem eq_ofNat {number : Nat} (h : number = a.toNat) : a = UInt8.ofNat number := by
  rw [h, UInt8.ofNat_toNat]

/-- Every character is the UTF-8 form of one. -/
theorem IsCharacter.exists_char (h : IsCharacter bytes) :
    ∃ c : Char, bytes = String.utf8EncodeChar c := by
  -- By the number of bytes. Where there are one to four of them, they give the code point.
  have hlength := h.length
  rcases bytes with _ | ⟨a, _ | ⟨b, _ | ⟨c, _ | ⟨d, _ | ⟨e, rest⟩⟩⟩⟩⟩
  · simp at hlength
  · rw [isCharacter_one] at h
    obtain ⟨char, hchar⟩ := Text.exists_char a.toNat (by omega)
    refine ⟨char, ?_⟩
    rw [String.utf8EncodeChar, hchar, if_pos h, UInt8.ofNat_toNat]
  · rw [isCharacter_two, IsContinuation] at h
    obtain ⟨char, hchar⟩ := Text.exists_char
      ((a.toNat - 0xC0) * 64 + (b.toNat - 0x80)) (by omega)
    refine ⟨char, ?_⟩
    rw [String.utf8EncodeChar, hchar, if_neg (by omega), if_pos (by omega), ← eq_ofNat (a := a),
      ← eq_ofNat (a := b)] <;> omega
  · simp only [isCharacter_three, IsContinuation] at h
    obtain ⟨char, hchar⟩ := Text.exists_char
      ((a.toNat - 0xE0) * 4096 + (b.toNat - 0x80) * 64 + (c.toNat - 0x80)) (by omega)
    refine ⟨char, ?_⟩
    rw [String.utf8EncodeChar, hchar, if_neg (by omega), if_neg (by omega), if_pos (by omega),
      ← eq_ofNat (a := a), ← eq_ofNat (a := b), ← eq_ofNat (a := c)] <;> omega
  · simp only [isCharacter_four, IsContinuation] at h
    obtain ⟨char, hchar⟩ := Text.exists_char
      ((a.toNat - 0xF0) * 262144 + (b.toNat - 0x80) * 4096 + (c.toNat - 0x80) * 64 +
        (d.toNat - 0x80)) (by omega)
    refine ⟨char, ?_⟩
    rw [String.utf8EncodeChar, hchar, if_neg (by omega), if_neg (by omega), if_neg (by omega),
      ← eq_ofNat (a := a), ← eq_ofNat (a := b), ← eq_ofNat (a := c), ← eq_ofNat (a := d)] <;> omega
  · simp only [List.length_cons] at hlength
    omega

/-- Well-formed bytes are the UTF-8 forms of characters, one behind the other. -/
theorem wellFormed_iff_exists_flatMap :
    WellFormed bytes ↔ ∃ text : List Char, bytes = text.flatMap String.utf8EncodeChar := by
  constructor
  · intro h
    induction h with
    | nil => exact ⟨[], rfl⟩
    | character hfront _ ih =>
      obtain ⟨c, rfl⟩ := hfront.exists_char
      obtain ⟨text, rfl⟩ := ih
      exact ⟨c :: text, rfl⟩
  · rintro ⟨text, rfl⟩
    induction text with
    | nil => exact .nil
    | cons c text ih => exact .character (isCharacter_utf8EncodeChar c) ih

/-- Bytes are well-formed exactly when they are the UTF-8 form of a text. -/
theorem wellFormed_iff_exists_toUTF8 {file : ByteArray} :
    WellFormed file.data.toList ↔ ∃ text : String, file = text.toUTF8 := by
  rw [wellFormed_iff_exists_flatMap]
  constructor
  · rintro ⟨text, htext⟩
    refine ⟨String.ofList text, ByteArray.ext (Array.toList_inj.mp ?_)⟩
    rw [htext, String.toUTF8_eq_toByteArray, String.toByteArray_ofList, List.utf8Encode,
      List.toList_data_toByteArray]
  · rintro ⟨text, rfl⟩
    refine ⟨text.toList, ?_⟩
    rw [String.toUTF8_eq_toByteArray, ← String.utf8Encode_toList, List.utf8Encode,
      List.toList_data_toByteArray]

/-- Well-formed bytes are what a string is made of. -/
theorem wellFormed_iff_isValidUTF8 {file : ByteArray} :
    WellFormed file.data.toList ↔ file.IsValidUTF8 := by
  rw [wellFormed_iff_exists_toUTF8]
  constructor
  · rintro ⟨text, rfl⟩
    exact text.isValidUTF8
  · intro h
    exact ⟨⟨file, h⟩, rfl⟩

/-- Whether bytes are well-formed is decided character by character. -/
instance (bytes : List UInt8) : Decidable (WellFormed bytes) :=
  decidable_of_iff bytes.toByteArray.IsValidUTF8 <| by
    rw [← wellFormed_iff_isValidUTF8, List.toList_data_toByteArray]

/-- Behind a text bytes are well-formed exactly when they are so on their own. -/
theorem wellFormed_toUTF8_append_iff (text : String) {rest : ByteArray} :
    WellFormed (text.toUTF8 ++ rest).data.toList ↔ WellFormed rest.data.toList := by
  have hchars (chars : List Char) :
      (chars.utf8Encode ++ rest).IsValidUTF8 ↔ rest.IsValidUTF8 := by
    induction chars with
    | nil => simp
    | cons c chars ih =>
      rw [List.utf8Encode_cons, ByteArray.append_assoc,
        ByteArray.isValidUTF8_utf8Encode_singleton_append_iff, ih]
  rw [wellFormed_iff_isValidUTF8, wellFormed_iff_isValidUTF8, String.toUTF8_eq_toByteArray,
    ← String.utf8Encode_toList, hchars]

end ByteMachine.Text
