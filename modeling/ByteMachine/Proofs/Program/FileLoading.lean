import ByteMachine.Proofs.Program.Parsing
import ByteMachine.Proofs.Program.Utf8

/-!
# Loading a program file

A program file is read like the text that it holds: the image or the error is that of the text, and
the event tells the size of the image. A file that holds no text is refused before any line is
looked at. It does not matter what stands in front of the first byte that is wrong, be it a comment,
a program or a malformed line. A byte-order mark is a character of the text like any other, and as
it is neither white space nor a digit it makes the first line malformed.
-/

namespace ByteMachine

namespace Source

variable {c : Char} {rest text : List Char}

/-- A character in front of a line that is neither white space nor a `#` is in front of the payload
too. -/
theorem HasPayload.head?_eq (h : HasPayload (c :: rest) text) (hspace : c ∉ whiteSpace)
    (hhash : c ≠ '#') : text.head? = some c := by
  obtain ⟨body, comment, hline, -, hcomment, lead, trail, hbody, hlead, htrail, -⟩ := h
  -- Neither of the pieces that are left out can begin with the character.
  have hbodyHead : body.head? = some c := by
    cases body with
    | nil =>
      rw [List.nil_append] at hline
      subst hline
      simp [hhash] at hcomment
    | cons first body =>
      cases hline
      rfl
  have hleadNil : lead = [] := by
    cases lead with
    | nil => rfl
    | cons first lead =>
      rw [hbody] at hbodyHead
      cases hbodyHead
      exact absurd (hlead List.mem_cons_self) hspace
  cases text with
  | nil =>
    rw [hbody, hleadNil, List.nil_append, List.nil_append] at hbodyHead
    exact absurd (htrail (List.mem_of_head? hbodyHead)) hspace
  | cons first text =>
    rw [hbody, hleadNil] at hbodyHead
    exact hbodyHead

/-- A text that begins with neither white space nor a `#` nor a binary digit is malformed in its
first line. -/
theorem exists_malformed_first_line (hspace : c ∉ whiteSpace) (hhash : c ≠ '#')
    (hdigit : c ≠ '0' ∧ c ≠ '1') (source : String) :
    ∃ found, parse (String.singleton c ++ source) = .error (.malformedLine 1 found) ∧
      found.toList.head? = some c := by
  have hfeed : c ≠ '\n' := fun heq => hspace (heq ▸ by decide)
  obtain ⟨line, later, hlines⟩ :
      ∃ line later, sourceLines (c :: source.toList) = (c :: line) :: later := by
    rw [sourceLines_cons]
    cases sourceLines source.toList with
    | nil => exact ⟨[], [], if_neg hfeed⟩
    | cons first others => exact ⟨first, others, if_neg hfeed⟩
  have hpayload := hasPayload_payload (c :: line)
  have hhead := hpayload.head?_eq hspace hhash
  have hmem := List.mem_of_head? hhead
  have hbad : ¬IsByteText (payload (c :: line)) := fun hbyte =>
    (hbyte.2 c hmem).elim hdigit.1 hdigit.2
  refine ⟨String.ofList (payload (c :: line)), parse_eq_malformedLine_iff.mpr ?_,
    by simpa using hhead⟩
  rw [String.toList_append, String.toList_singleton, List.singleton_append, hlines,
    String.toList_ofList]
  exact ⟨[], c :: line, later, [], rfl, rfl, .nil, hpayload, List.ne_nil_of_mem hmem, hbad⟩

end Source

namespace ProgramFile

open Text (WellFormed)

variable {path : String} {contents : Except ReadError ByteArray}

/-- A program that is found is reported with its size. -/
theorem load_of_ok {image : Image} (h : parse path contents = .ok image) :
    load path contents = ⟨.ok image, [.fileParsed path image.size]⟩ := by
  rw [load, h]

/-- Where there is no program nothing is reported. -/
theorem load_of_error {error : LoadError} (h : parse path contents = .error error) :
    load path contents = ⟨.error error, []⟩ := by
  rw [load, h]

/-- Loading a file gives what its contents are read as. -/
theorem result_load : (load path contents).result = parse path contents := by
  cases h : parse path contents with
  | ok image => rw [load_of_ok h]
  | error error => rw [load_of_error h]

/-- Bytes that are not well-formed are no text. -/
theorem decode_of_not_wellFormed {bytes : ByteArray} (h : ¬WellFormed bytes.data.toList) :
    decode bytes = .error .invalidUtf8 := by
  cases hfound : String.fromUTF8? bytes with
  | none => rw [decode, hfound]
  | some text =>
    have hdecode : decode bytes = .ok text := by rw [decode, hfound]
    exact absurd (Text.wellFormed_iff_exists_toUTF8.mpr ⟨text, decode_eq_ok_iff.mp hdecode⟩) h

/-- A file that holds no text is refused, and nothing is reported. -/
theorem load_of_not_wellFormed {bytes : ByteArray} (h : ¬WellFormed bytes.data.toList) :
    load path (.ok bytes) = ⟨.error (.unreadable path .invalidUtf8), []⟩ := by
  have hbind : (Except.ok bytes : Except ReadError ByteArray).bind decode = .error .invalidUtf8 :=
    decode_of_not_wellFormed h
  exact load_of_error (by rw [parse, hbind])

/-- Loading a file agrees with reading the text that its bytes are by the standard, byte-order mark
included, and reports the size of an image. A file that is no text is refused with its path,
wherever the wrong byte is, and nothing is reported. -/
theorem load_agrees_with_parse (path : String) (bytes : ByteArray) :
    let loaded := load path (.ok bytes)
    (WellFormed bytes.data.toList ↔ ∃ text : String, bytes = text.toUTF8) ∧
    (∀ text : String, bytes = text.toUTF8 →
      loaded.result = Source.parse text ∧
      (∀ image, Source.parse text = .ok image →
        loaded.events = [.fileParsed path image.size] ∧
        loaded.events.map Event.message =
          ["parsed program file" ++ (" path=" ++ path) ++ (" bytes=" ++ Text.decimal image.size)]) ∧
      ∀ error, Source.parse text = .error error → loaded.events = []) ∧
    (¬WellFormed bytes.data.toList → ∃ error,
      loaded = ⟨.error error, []⟩ ∧ error = .unreadable path .invalidUtf8 ∧
      error.message = "cannot read '" ++ path ++ "': " ++ "stream did not contain valid UTF-8") ∧
    (∀ (front : String) (rest : ByteArray), bytes = front.toUTF8 ++ rest →
      (WellFormed bytes.data.toList ↔ WellFormed rest.data.toList)) ∧
    (∀ text : String, bytes = [0xEF, 0xBB, 0xBF].toByteArray ++ text.toUTF8 →
      loaded.result = Source.parse ("\uFEFF" ++ text) ∧
      ∃ found, loaded.result = .error (.malformedLine 1 found) ∧
        found.toList.head? = some '\uFEFF') := by
  intro loaded
  refine ⟨Text.wellFormed_iff_exists_toUTF8, ?_,
    fun hill => ⟨_, load_of_not_wellFormed hill, rfl, rfl⟩, ?_, ?_⟩
  · rintro text rfl
    have hparse : parse path (.ok text.toUTF8) = Source.parse text := parse_toUTF8 path text
    refine ⟨result_load.trans hparse, fun image himage => ?_,
      fun error herror => congrArg Loaded.events (load_of_error (hparse.trans herror))⟩
    have hevents : loaded.events = [.fileParsed path image.size] :=
      congrArg Loaded.events (load_of_ok (hparse.trans himage))
    exact ⟨hevents, congrArg (List.map Event.message) hevents⟩
  · rintro front rest rfl
    exact Text.wellFormed_toUTF8_append_iff front
  · rintro text rfl
    have hmark : [0xEF, 0xBB, 0xBF].toByteArray ++ text.toUTF8 = ("\uFEFF" ++ text).toUTF8 := by
      rw [String.toUTF8_eq_toByteArray, String.toUTF8_eq_toByteArray, String.toByteArray_append]
      rfl
    have hresult : loaded.result = Source.parse ("\uFEFF" ++ text) := by
      rw [← parse_toUTF8 path, ← hmark, ← result_load]
    obtain ⟨found, hparse, hhead⟩ := Source.exists_malformed_first_line (c := '\uFEFF')
      (by decide) (by decide) (by decide) text
    exact ⟨hresult, found, hresult.trans hparse, hhead⟩

/-- A program is loaded whose comment is not in ASCII. Behind a malformed line, in a comment, an
overlong form, a surrogate, a number that is too large and a form that is cut off are refused before
the line is. A byte-order mark in front of eight digits is malformed with them. -/
theorem load_agrees_with_parse_comment :
    let good := load "p.ls8" (.ok "00000001 # \u00e9\n".toUTF8)
    let marked := load "p.ls8" (.ok ([0xEF, 0xBB, 0xBF].toByteArray ++ "00000001".toUTF8))
    let wrong := [[0xC0, 0xAF], [0xED, 0xA0, 0x80], [0xF4, 0x90, 0x80, 0x80], [0xE2, 0x82]]
    (∃ image, good.result = .ok image ∧ image.program = [1] ∧
      good.events = [.fileParsed "p.ls8" 1]) ∧
    (∃ found, marked.result = .error (.malformedLine 1 found) ∧
      found.toList.head? = some '\uFEFF') ∧
    ∀ rest ∈ wrong, load "p.ls8" (.ok ("0000000l\n# ".toUTF8 ++ rest.toByteArray)) =
      ⟨.error (.unreadable "p.ls8" .invalidUtf8), []⟩ := by
  intro good marked wrong
  obtain ⟨-, htext, -⟩ := load_agrees_with_parse "p.ls8" "00000001 # \u00e9\n".toUTF8
  obtain ⟨hresult, hevents, -⟩ := htext _ rfl
  obtain ⟨-, -, -, -, hmarked⟩ := load_agrees_with_parse "p.ls8"
    ([0xEF, 0xBB, 0xBF].toByteArray ++ "00000001".toUTF8)
  have hparse : Source.parse "00000001 # \u00e9\n" = .ok ⟨[1], by decide⟩ := by decide +kernel
  have hill : ∀ rest ∈ wrong, ¬WellFormed rest := by decide +kernel
  refine ⟨⟨_, hresult.trans hparse, rfl, (hevents _ hparse).1⟩, (hmarked _ rfl).2,
    fun rest hrest => ?_⟩
  obtain ⟨-, -, hwrong, hplace, -⟩ := load_agrees_with_parse "p.ls8"
    ("0000000l\n# ".toUTF8 ++ rest.toByteArray)
  have hbytes : ¬WellFormed ("0000000l\n# ".toUTF8 ++ rest.toByteArray).data.toList := by
    rw [hplace _ _ rfl, List.toList_data_toByteArray]
    exact hill rest hrest
  obtain ⟨error, hloaded, rfl, -⟩ := hwrong hbytes
  exact hloaded

end ProgramFile

end ByteMachine
