import Klartext.Proofs.Diagnosis.Place
import Klartext.Proofs.Tree.Atom

set_option autoImplicit false

/-! # The lines around a place

What is shown of the surroundings of a place can be cut into lines again: the lines above with their
numbers, the line of the place, the caret, and the lines below. In front of a line stand its number and
two more characters, in front of the caret always six: the caret stands below the character it is about
as long as the number has up to four digits. -/

namespace Klartext

namespace Place

/-! ## Lines with their numbers -/

/-- Lines with their numbers, counted from one of them on. -/
def numberedFrom (n : Nat) : List Text → List Text
  | [] => []
  | text :: below => numbered n text :: numberedFrom (n + 1) below

/-- A line of what is shown around a place: behind the line of the place comes the caret. -/
def shownLine (line column : Int) (shown : Text × Nat) : List Text :=
  numbered (shown.2 + 1) shown.1 :: if (shown.2 : Int) + 1 = line then [caret column] else []

variable {line column : Int}

theorem shownLine_of_ne {n : Nat} (h : (n : Int) + 1 ≠ line) (text : Text) :
    shownLine line column (text, n) = [numbered (n + 1) text] := by
  rw [shownLine, if_neg h]

theorem shownLine_self (text : Text) (n : Nat) :
    shownLine ((n + 1 : Nat) : Int) column (text, n) = [numbered (n + 1) text, caret column] := by
  rw [shownLine, if_pos (Int.natCast_succ n).symm]

/-- Lines above and below the place are shown with their numbers only. -/
theorem flatMap_shownLine {texts : List Text} {first : Nat}
    (h : ∀ i : Nat, first ≤ i → i < first + texts.length → (i : Int) + 1 ≠ line) :
    (texts.zipIdx first).flatMap (shownLine line column) = numberedFrom (first + 1) texts := by
  induction texts generalizing first with
  | nil => rfl
  | cons text below ih =>
      have hfirst : (first : Int) + 1 ≠ line :=
        h first (Nat.le_refl _) (Nat.lt_add_of_pos_right (Nat.succ_pos _))
      have hbelow : ∀ i : Nat, first + 1 ≤ i → i < first + 1 + below.length → (i : Int) + 1 ≠ line := by
        intro i hi hlt
        exact h i (by omega) (by rw [List.length_cons]; omega)
      rw [List.zipIdx_cons, List.flatMap_cons, ih hbelow, shownLine_of_ne hfirst]
      rfl

/-- Around a line of the source stand up to `radius` lines above it and up to `radius` lines below it,
    and between them the line itself with the caret below it. -/
theorem contextLines_eq {source text : Text} {above below : List Text}
    (hlines : lines source = above ++ text :: below) (radius : Nat) :
    contextLines source ((above.length + 1 : Nat) : Int) column radius =
      numberedFrom (above.length - radius + 1) (above.drop (above.length - radius)) ++
        numbered (above.length + 1) text :: caret column ::
          numberedFrom (above.length + 2) (below.take radius) := by
  -- near the first line the subtraction of integers goes below zero and that of numbers stops there
  have hstop : (((above.length + 1 : Nat) : Int) + radius).toNat = above.length + (radius + 1) := by
    omega
  have hfirst : (((above.length + 1 : Nat) : Int) - radius - 1).toNat = above.length - radius := by
    omega
  have hshown : ((lines source).take (above.length + (radius + 1))).drop (above.length - radius) =
      above.drop (above.length - radius) ++ text :: below.take radius := by
    rw [hlines, List.take_length_add_append, List.take_succ_cons,
      List.drop_append_of_le_length (Nat.sub_le _ _)]
  have hlength : above.length - radius + (above.drop (above.length - radius)).length =
      above.length := by
    rw [List.length_drop]
    omega
  have hsplit : contextLines source ((above.length + 1 : Nat) : Int) column radius =
      ((above.drop (above.length - radius) ++ text :: below.take radius).zipIdx
        (above.length - radius)).flatMap (shownLine ((above.length + 1 : Nat) : Int) column) := by
    rw [← hshown, ← hstop, ← hfirst]
    rfl
  rw [hsplit, List.zipIdx_append, hlength, List.zipIdx_cons, List.flatMap_append, List.flatMap_cons,
    flatMap_shownLine, flatMap_shownLine, shownLine_self]
  · rfl
  · intro i hi _
    omega
  · intro i _ hi
    rw [hlength] at hi
    omega

/-! ## No line of what is shown is broken -/

theorem lines_joinWith {texts : List Text} (hne : texts ≠ []) (h : ∀ text ∈ texts, '\n' ∉ text) :
    lines (Text.joinWith ['\n'] texts) = texts := by
  induction texts with
  | nil => exact absurd rfl hne
  | cons text below ih =>
      obtain ⟨htext, hbelow⟩ := List.forall_mem_cons.1 h
      cases below with
      | nil => exact Text.splitOn_of_not_mem '\n' htext
      | cons text' below =>
          have hjoin : Text.joinWith ['\n'] (text :: text' :: below) =
              text ++ '\n' :: Text.joinWith ['\n'] (text' :: below) := by
            simp [Text.joinWith_cons]
          rw [hjoin, lines, Text.splitOn_append, Text.splitOn_of_not_mem '\n' htext, ← lines,
            ih (List.cons_ne_nil _ _) hbelow]
          rfl

theorem not_mem_numbered {text : Text} (h : '\n' ∉ text) (n : Nat) : '\n' ∉ numbered n text := by
  simp [numbered, lineNumber, Layout.not_mem_toDigits, h]

theorem not_mem_caret (column : Int) : '\n' ∉ caret column := by
  simp [caret]

theorem not_mem_numberedFrom {texts : List Text} (h : ∀ text ∈ texts, '\n' ∉ text) (n : Nat) :
    ∀ shown ∈ numberedFrom n texts, '\n' ∉ shown := by
  induction texts generalizing n with
  | nil => exact List.forall_mem_nil _
  | cons text below ih =>
      obtain ⟨htext, hbelow⟩ := List.forall_mem_cons.1 h
      exact List.forall_mem_cons.2 ⟨not_mem_numbered htext n, ih hbelow (n + 1)⟩

/-- Cut into lines, what is shown around a line of the source is what was put together. -/
theorem lines_context {source text : Text} {above below : List Text}
    (hlines : lines source = above ++ text :: below) (radius : Nat) :
    lines (context source ((above.length + 1 : Nat) : Int) column radius).toList =
      numberedFrom (above.length - radius + 1) (above.drop (above.length - radius)) ++
        numbered (above.length + 1) text :: caret column ::
          numberedFrom (above.length + 2) (below.take radius) := by
  have hfree : ∀ part ∈ lines source, '\n' ∉ part := fun _ => Text.not_mem_of_mem_splitOn '\n'
  rw [hlines, List.forall_mem_append, List.forall_mem_cons] at hfree
  obtain ⟨habove, htext, hbelow⟩ := hfree
  rw [context, String.toList_ofList, contextLines_eq hlines, lines_joinWith (by simp)]
  simp only [List.forall_mem_append, List.forall_mem_cons]
  refine ⟨not_mem_numberedFrom (fun part hpart => habove part (List.mem_of_mem_drop hpart)) _,
    not_mem_numbered htext _, not_mem_caret column,
    not_mem_numberedFrom (fun part hpart => hbelow part (List.mem_of_mem_take hpart)) _⟩

/-! ## What stands in front -/

theorem length_lineNumber (n : Nat) :
    (lineNumber n).length = 4 + ((Nat.toDigits 10 n).length - 4) := by
  simp only [lineNumber, List.length_append, List.length_replicate]
  omega

theorem length_toDigits_le_four {n : Nat} : (Nat.toDigits 10 n).length ≤ 4 ↔ n < 10000 :=
  Nat.length_toDigits_le_iff (by decide) (by decide)

/-- What is shown around a place of a text are the existing lines from two above its line to two below
    it, each with its number, and below its own line the caret. Behind `before` the numbered line goes on
    with what stands at the place, and `width` spaces stand in front of the caret: as many as `before`
    has characters, but for the digits of the number beyond the fourth. -/
theorem caret_below_place (source : Text) {offset : Nat} (h : offset ≤ source.length) :
    ∃ (above below : List Text) (text before : Text) (width line column : Nat),
      lineAt source offset = line ∧ columnAt source offset = column ∧
      lines source = above ++ text :: below ∧ line = above.length + 1 ∧
      lines (context source line column 2).toList =
        numberedFrom (above.length - 2 + 1) (above.drop (above.length - 2)) ++
          numbered line text :: caret column :: numberedFrom (line + 1) (below.take 2) ∧
      numbered line text = before ++ (source.drop offset).takeWhile (· != '\n') ∧
      caret column = List.replicate width ' ' ++ "^ Error here".toList ∧
      before.length = width + ((Nat.toDigits 10 line).length - 4) ∧
      (width = before.length ↔ line < 10000) := by
  obtain ⟨above, beginning, below, hlines, -, hline, hcolumn⟩ :=
    exists_line (source.take offset) (source.drop offset)
  rw [List.take_append_drop] at hlines hline hcolumn
  rw [List.length_take_of_le h] at hline hcolumn
  obtain ⟨text, htext⟩ : ∃ text, beginning ++ (source.drop offset).takeWhile (· != '\n') = text :=
    ⟨_, rfl⟩
  rw [htext] at hlines
  -- the caret allows for four digits, a colon and a space in front of the line
  have hwidth : (lineNumber (above.length + 1) ++ ':' :: ' ' :: beginning).length =
      6 + beginning.length + ((Nat.toDigits 10 (above.length + 1)).length - 4) := by
    simp only [List.length_append, List.length_cons, length_lineNumber]
    omega
  refine ⟨above, below, text, lineNumber (above.length + 1) ++ ':' :: ' ' :: beginning,
    6 + beginning.length, above.length + 1, beginning.length + 1, hline, hcolumn, hlines, rfl,
    lines_context hlines 2, ?_, ?_, hwidth, ?_⟩
  · rw [← htext, numbered, List.append_assoc]
    rfl
  · rw [caret, show (((beginning.length + 1 : Nat) : Int) - 1).toNat = beginning.length by omega]
  · rw [hwidth, ← length_toDigits_le_four]
    omega

/-- The second character of the second of three lines. -/
theorem caret_below_place_middle :
    let source := "a\nbc\nd".toList
    3 ≤ source.length ∧ source[3]? = some 'c' ∧
      ∃ before : Text, numbered 2 "bc".toList = before ++ ['c'] ∧
        caret 2 = List.replicate before.length ' ' ++ "^ Error here".toList ∧
        lines (context source 2 2 2).toList =
          ["   1: a".toList, "   2: bc".toList, "       ^ Error here".toList, "   3: d".toList] := by
  intro source
  obtain ⟨above, below, text, before, width, line, column, hline, hcolumn, hlines, habove, hshown,
    hbefore, hcaret, -, hwidth⟩ := caret_below_place source (by decide : 3 ≤ source.length)
  obtain rfl : 2 = line := hline
  obtain rfl : 2 = column := hcolumn
  obtain ⟨first, rfl⟩ := List.length_eq_one_iff.1 (Nat.succ.inj habove).symm
  have hsource : lines source = ["a".toList, "bc".toList, "d".toList] := by rfl
  cases hsource.symm.trans hlines
  rw [hwidth.2 (by decide)] at hcaret
  exact ⟨by decide, rfl, before, hbefore, hcaret, hshown⟩

end Place

end Klartext
