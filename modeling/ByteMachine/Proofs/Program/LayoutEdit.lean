import ByteMachine.Proofs.Program.Concatenation
import ByteMachine.Proofs.Program.Layout
import Mathlib.Logic.Relation

/-!
# Edits of the layout

White space around a line, a comment behind it and the kind of its line end concern the layout of a
text only. An edit of this kind changes one piece of the text, and not the payload of that piece
(`LineEdit.payload_eq`). Of a piece nothing but its payload is read, so no row of such edits changes
the outcome: the edited text is read as the same image, or refused as the original is.
-/

namespace ByteMachine.Source

/-- A line can begin behind a text that is empty or closed. -/
inductive AtLineStart : List Char → Prop where
  | first : AtLineStart []
  | behind (earlier : List Char) : AtLineStart (earlier ++ ['\n'])

/-- A line can end before a text that is empty or begins with a line end. -/
inductive AtLineEnd : List Char → Prop where
  | last : AtLineEnd []
  | closed (ending : LineEnd) (later : List Char) : AtLineEnd (ending.returns ++ '\n' :: later)

/-- A line of a text, with what stands before and behind it. -/
structure IsLine (before line after : List Char) : Prop where
  begins : AtLineStart before
  one_line : '\n' ∉ line
  ends : AtLineEnd after

/-- White space in front of a line or behind it, or a comment behind it. -/
inductive LineEdit (line : List Char) : List Char → Prop where
  | indented (space : List Char) (white : space ⊆ whiteSpace) (one_line : '\n' ∉ space) :
      LineEdit line (space ++ line)
  | trailed (space : List Char) (white : space ⊆ whiteSpace) (one_line : '\n' ∉ space) :
      LineEdit line (line ++ space)
  | remarked (remark : List Char) (one_line : '\n' ∉ remark) :
      LineEdit line (line ++ '#' :: remark)

/-- An edit of one line of a text, or of the line end behind it. -/
inductive LayoutEdit : List Char → List Char → Prop where
  | line (before line edited after : List Char) (place : IsLine before line after)
      (edit : LineEdit line edited) :
      LayoutEdit (before ++ line ++ after) (before ++ edited ++ after)
  | returned (before line later : List Char) (place : IsLine before line ('\n' :: later)) :
      LayoutEdit (before ++ line ++ '\n' :: later) (before ++ line ++ '\r' :: '\n' :: later)

variable {before line edited after text : List Char}

/-- What stands before a line is cut into as many pieces as it has line feeds, whatever follows. -/
theorem AtLineStart.exists_pieces (h : AtLineStart before) :
    ∃ earlier, earlier.length = before.count '\n' ∧
      ∀ rest, pieces (before ++ rest) = earlier ++ pieces rest := by
  cases h with
  | first => exact ⟨[], rfl, fun _ => rfl⟩
  | behind earlier =>
    refine ⟨pieces earlier, ?_, fun rest => ?_⟩
    · rw [length_pieces, List.count_append, List.count_singleton_self]
    · rw [List.append_assoc]
      exact pieces_append_newline earlier rest

/-- A line is a piece, perhaps with a carriage return that belongs to the line end. -/
theorem AtLineEnd.exists_pieces (h : AtLineEnd after) :
    ∃ returns later, returns ⊆ whiteSpace ∧
      ∀ line, '\n' ∉ line → pieces (line ++ after) = (line ++ returns) :: later := by
  cases h with
  | last =>
    refine ⟨[], [], List.nil_subset _, fun line hline => ?_⟩
    rw [List.append_nil, pieces_of_not_mem hline]
  | closed ending later =>
    refine ⟨ending.returns, pieces later, ending.returns_subset, fun line hline => ?_⟩
    have hpiece : '\n' ∉ line ++ ending.returns := by
      rw [List.mem_append, not_or]
      exact ⟨hline, ending.newline_not_mem_returns⟩
    rw [← List.append_assoc, pieces_append_newline, pieces_of_not_mem hpiece]
    rfl

/-- An edit of a line leaves its payload alone. -/
theorem LineEdit.payload_eq (h : LineEdit line edited) : payload edited = payload line := by
  have hpayload := hasPayload_payload line
  rw [payload_eq_iff]
  cases h with
  | indented space hwhite _ => exact hpayload.indented hwhite
  | trailed space hwhite _ => exact hpayload.trailed hwhite
  | remarked remark _ => exact hpayload.remarked remark

/-- An edited line is one line. -/
theorem LineEdit.newline_not_mem (h : LineEdit line edited) (hline : '\n' ∉ line) :
    '\n' ∉ edited := by
  cases h with
  | indented space _ hspace => simp [hline, hspace]
  | trailed space _ hspace => simp [hline, hspace]
  | remarked remark hremark => simp [hline, hremark]

/-- Of a line nothing but its payload is read. -/
theorem readLines_congr (earlier later : List (List Char)) (h : payload edited = payload line) :
    readLines (earlier ++ edited :: later) = readLines (earlier ++ line :: later) := by
  have hcontent : Content.ofLine edited = Content.ofLine line := by
    rw [Content.ofLine, h, Content.ofLine]
  simp only [readLines, List.map_append, List.map_cons, hcontent]

/-- An edit of the layout does not change what is read. -/
theorem LayoutEdit.parseChars_eq (h : LayoutEdit text edited) :
    parseChars edited = parseChars text := by
  rw [parseChars_eq_readLines_pieces, parseChars_eq_readLines_pieces]
  cases h with
  | line before line edited after place edit =>
    obtain ⟨earlier, -, hbefore⟩ := place.begins.exists_pieces
    obtain ⟨returns, later, hreturns, hafter⟩ := place.ends.exists_pieces
    have hpayload : payload (edited ++ returns) = payload (line ++ returns) := by
      rw [payload_trailed _ hreturns, payload_trailed _ hreturns, edit.payload_eq]
    rw [List.append_assoc, List.append_assoc, hbefore, hbefore, hafter line place.one_line,
      hafter edited (edit.newline_not_mem place.one_line)]
    exact readLines_congr earlier later hpayload
  | returned before line later place =>
    obtain ⟨earlier, -, hbefore⟩ := place.begins.exists_pieces
    have hreturn : '\n' ∉ line ++ ['\r'] := by simp [place.one_line]
    have hpayload : payload (line ++ ['\r']) = payload line := payload_trailed line (by decide)
    rw [List.append_assoc, List.append_assoc, hbefore, hbefore, pieces_append_newline,
      List.append_cons line, pieces_append_newline, pieces_of_not_mem place.one_line,
      pieces_of_not_mem hreturn]
    exact readLines_congr earlier (pieces later) hpayload

/-- White space, comments and carriage returns put around lines, as often and wherever one likes,
never change what a text is read as, nor what it is refused for. -/
theorem layout_edits_keep_outcome (source edited : String)
    (hedits : Relation.ReflTransGen LayoutEdit source.toList edited.toList) :
    parse edited = parse source := by
  unfold parse
  generalize edited.toList = text at hedits
  induction hedits with
  | refl => rfl
  | tail _ hedit ih => rw [hedit.parseChars_eq, ih]

/-- A line with a sign is refused with the same number and text when it is indented and the line in
front of it gets a comment and a carriage return. -/
theorem layout_edits_keep_outcome_signed :
    let seven := "00000111".toList
    let signed := "+0000001".toList
    let remark := " seven # 00000111".toList
    let source := seven ++ '\n' :: signed
    let edited := seven ++ '#' :: remark ++ '\r' :: '\n' :: ('\u3000' :: signed)
    Relation.ReflTransGen LayoutEdit source edited ∧
      parse (String.ofList edited) = .error (.malformedLine 2 "+0000001") := by
  intro seven signed remark source edited
  have hseven : '\n' ∉ seven := by decide
  have hremarked : '\n' ∉ seven ++ '#' :: remark := by decide
  have hsigned : '\n' ∉ signed := by decide
  have hcomment : LayoutEdit source (seven ++ '#' :: remark ++ '\n' :: signed) :=
    .line [] seven (seven ++ '#' :: remark) ('\n' :: signed)
      ⟨.first, hseven, .closed .feed signed⟩ (.remarked remark (by decide))
  have hreturn : LayoutEdit (seven ++ '#' :: remark ++ '\n' :: signed)
      (seven ++ '#' :: remark ++ '\r' :: '\n' :: signed) :=
    .returned [] (seven ++ '#' :: remark) signed ⟨.first, hremarked, .closed .feed signed⟩
  have hindent : LayoutEdit (seven ++ '#' :: remark ++ '\r' :: '\n' :: signed) edited := by
    have h := LayoutEdit.line (seven ++ '#' :: remark ++ ['\r'] ++ ['\n']) signed
      ('\u3000' :: signed) [] ⟨.behind _, hsigned, .last⟩
      (.indented ['\u3000'] (by decide) (by decide))
    simpa [edited] using h
  have hedits : Relation.ReflTransGen LayoutEdit source edited :=
    ((Relation.ReflTransGen.single hcomment).tail hreturn).tail hindent
  have hparse : parse (String.ofList source) = .error (.malformedLine 2 "+0000001") := by
    rw [parse, String.toList_ofList]
    decide +kernel
  refine ⟨hedits, ?_⟩
  rw [← hparse]
  apply layout_edits_keep_outcome
  rwa [String.toList_ofList, String.toList_ofList]

end ByteMachine.Source
