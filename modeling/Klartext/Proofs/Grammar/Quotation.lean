import Klartext.Proofs.Grammar.Literal
import Klartext.Proofs.Rules.Words

set_option autoImplicit false

/-! # Where a string ends

A backslash takes the character behind it along, be it a quotation mark or a backslash. The first
quotation mark that is not taken in this way closes a string, and the string is the text before it
without the backslashes that take a character. A text in which no mark closes anything is no
string. -/

namespace Klartext

namespace Text

/-! ## Closing marks -/

/-- The character at an index is taken along by a backslash before it, which was not taken itself. -/
def isEscaped (t : Text) : (index : Nat) → Bool
  | 0 => false
  | index + 1 => t[index]? == some '\\' && !isEscaped t index

/-- At an index stands a quotation mark that no backslash takes along. -/
structure ClosesAt (t : Text) (index : Nat) : Prop where
  mark : t[index]? = some '\"'
  not_escaped : t.isEscaped index = false

/-- The first such quotation mark. -/
structure ClosesFirst (t : Text) (index : Nat) : Prop where
  closes : t.ClosesAt index
  first : ∀ before < index, ¬ t.ClosesAt before

variable {c : Char} {t : Text} {index : Nat}

theorem isEscaped_plain (hc : c ≠ '\\') : isEscaped (c :: t) (index + 1) = t.isEscaped index := by
  induction index with
  | zero => simp [isEscaped, hc]
  | succ index ih => rw [isEscaped, ih, isEscaped, List.getElem?_cons_succ]

theorem isEscaped_escaped : isEscaped ('\\' :: c :: t) (index + 2) = t.isEscaped index := by
  induction index with
  | zero => simp [isEscaped]
  | succ index ih =>
      rw [isEscaped, ih, isEscaped, List.getElem?_cons_succ, List.getElem?_cons_succ]

theorem closesAt_mark (t : Text) : ClosesAt ('\"' :: t) 0 := ⟨rfl, rfl⟩

theorem not_closesAt_zero (hc : c ≠ '\"') : ¬ ClosesAt (c :: t) 0 :=
  fun h => hc (Option.some.inj h.mark)

theorem closesAt_plain (hc : c ≠ '\\') : ClosesAt (c :: t) (index + 1) ↔ t.ClosesAt index :=
  ⟨fun h => ⟨h.mark, isEscaped_plain hc ▸ h.not_escaped⟩,
    fun h => ⟨h.mark, (isEscaped_plain hc).trans h.not_escaped⟩⟩

theorem not_closesAt_escaped : ¬ ClosesAt ('\\' :: c :: t) 1 :=
  fun h => nomatch h.not_escaped

theorem closesAt_escaped : ClosesAt ('\\' :: c :: t) (index + 2) ↔ t.ClosesAt index :=
  ⟨fun h => ⟨h.mark, isEscaped_escaped ▸ h.not_escaped⟩,
    fun h => ⟨h.mark, isEscaped_escaped.trans h.not_escaped⟩⟩

/-- If a mark closes the text at all, there is a first one. -/
theorem ClosesAt.exists_first (h : t.ClosesAt index) : ∃ first, t.ClosesFirst first := by
  induction index using Nat.strongRecOn with
  | _ index ih =>
      by_cases hbefore : ∃ before < index, t.ClosesAt before
      · obtain ⟨before, hlt, hcloses⟩ := hbefore
        exact ih before hlt hcloses
      · exact ⟨index, h, fun before hlt hcloses => hbefore ⟨before, hlt, hcloses⟩⟩

end Text

namespace Reader

open Text

/-! ## What closing finds -/

/-- The raw text ends at the first mark that closes it. -/
theorem closing_of_closesFirst {t : Text} {index : Nat} (h : ClosesFirst t index) :
    closing ['\"'] 0 t = some (t.take index, t.drop (index + 1)) := by
  match t with
  | [] => exact nomatch h.closes.mark
  | c :: t =>
      by_cases hmark : c = '\"'
      · subst hmark
        match index, h with
        | 0, _ => exact closing_mark t
        | index + 1, h => exact absurd (closesAt_mark t) (h.first 0 (Nat.succ_pos index))
      · by_cases hbackslash : c = '\\'
        · subst hbackslash
          match t, index, h with
          | _, 0, h => exact absurd h.closes (not_closesAt_zero hmark)
          | [], _ + 1, h => exact nomatch h.closes.mark
          | d :: t, 1, h => exact absurd h.closes not_closesAt_escaped
          | d :: t, index + 2, h =>
              -- behind an escaped character the same marks close the text as before
              have hrest : ClosesFirst t index :=
                ⟨closesAt_escaped.1 h.closes, fun before hlt hcloses =>
                  h.first (before + 2) (by omega) (closesAt_escaped.2 hcloses)⟩
              rw [closing_escaped, closing_of_closesFirst hrest]
              rfl
        · match index, h with
          | 0, h => exact absurd h.closes (not_closesAt_zero hmark)
          | index + 1, h =>
              have hrest : ClosesFirst t index :=
                ⟨(closesAt_plain hbackslash).1 h.closes, fun before hlt hcloses =>
                  h.first (before + 1) (by omega) ((closesAt_plain hbackslash).2 hcloses)⟩
              rw [closing_plain hmark hbackslash, closing_of_closesFirst hrest]
              rfl

/-- Where nothing closes the text, no end is found. -/
theorem closing_of_not_closes {t : Text} (h : ∀ index, ¬ ClosesAt t index) :
    closing ['\"'] 0 t = none := by
  match t with
  | [] => rfl
  | c :: t =>
      by_cases hmark : c = '\"'
      · subst hmark
        exact absurd (closesAt_mark t) (h 0)
      · by_cases hbackslash : c = '\\'
        · subst hbackslash
          match t, h with
          | [], _ => rfl
          | d :: t, h =>
              have hrest : ∀ index, ¬ ClosesAt t index := fun index hcloses =>
                h (index + 2) (closesAt_escaped.2 hcloses)
              rw [closing_escaped, closing_of_not_closes hrest]
              rfl
        · have hrest : ∀ index, ¬ ClosesAt t index := fun index hcloses =>
            h (index + 1) ((closesAt_plain hbackslash).2 hcloses)
          rw [closing_plain hmark hbackslash, closing_of_not_closes hrest]
          rfl

end Reader

namespace Grammar

open Reader Rules Surface Text

/-! ## Strings -/

/-- The text begins with a quotation mark, and another one closes what follows. -/
def BeginsString (t : Text) : Prop := ∃ body index, t = '\"' :: body ∧ ClosesAt body index

theorem string_of_closesFirst {body : Text} {index : Nat} (h : ClosesFirst body index) :
    ∃ content, Quoted (body.take index) content ∧
      string ('\"' :: body) =
        .found (.literal (.string (String.ofList content))) (body.drop (index + 1)) := by
  have hclosing := closing_of_closesFirst h
  have hbetween : between ['\"'] ('\"' :: body) =
      .found (unescape (body.take index)) (body.drop (index + 1)) := by
    simp [between, hclosing]
  refine ⟨_, (quoted_of_closing hclosing).2, ?_⟩
  rw [string, bind_found hbetween]
  rfl

theorem string_of_not_beginsString {t : Text} (h : ¬ BeginsString t) : string t = .missed := by
  by_cases hhead : ∃ body, t = '\"' :: body
  · obtain ⟨body, rfl⟩ := hhead
    have hclosing : closing ['\"'] 0 body = none :=
      closing_of_not_closes fun index hcloses => h ⟨body, index, rfl, hcloses⟩
    refine bind_missed ?_
    simp [between, hclosing]
  · refine string_missed fun c hc hmark => hhead ?_
    obtain ⟨body, rfl⟩ := List.head?_eq_some_iff.1 hc
    exact ⟨body, by rw [hmark]⟩

/-- A string with a backslash before each quotation mark and each backslash in it is read back from
    between quotation marks, whatever follows. A text is read as a string if and only if it begins
    with a quotation mark and one closes it: up to the first that does it is quoted, and behind that
    one it goes on. Every other text is missed. -/
theorem string_codec (t : Text) :
    (∀ s, string (quote s ++ t) = .found (.literal (.string (String.ofList s))) t) ∧
    ((∃ node rest, string t = .found node rest) ↔ BeginsString t) ∧
    (∀ body index, t = '\"' :: body → ClosesFirst body index →
      ∃ content, Quoted (body.take index) content ∧
        string t =
          .found (.literal (.string (String.ofList content))) (body.drop (index + 1))) ∧
    (¬ BeginsString t → string t = .missed) := by
  refine ⟨fun s => string_read s t, ⟨?_, ?_⟩, ?_, string_of_not_beginsString⟩
  · rintro ⟨node, rest, hfound⟩
    refine Classical.byContradiction fun hnot => ?_
    rw [string_of_not_beginsString hnot] at hfound
    cases hfound
  · rintro ⟨body, index, rfl, hcloses⟩
    obtain ⟨first, hfirst⟩ := hcloses.exists_first
    obtain ⟨content, -, hfound⟩ := string_of_closesFirst hfirst
    exact ⟨_, _, hfound⟩
  · rintro body index rfl hfirst
    exact string_of_closesFirst hfirst

/-- Two backslashes before a mark take none of it along, a third one does. -/
theorem string_codec_backslashes :
    (∃ content, Quoted ['\\', '\\'] content ∧
      string ['\"', '\\', '\\', '\"', 'a', '\"'] =
        .found (.literal (.string (String.ofList content))) ['a', '\"']) ∧
    string ['\"', '\\', '\\', '\\', '\"'] = .missed := by
  have hcloses : ClosesFirst ['\\', '\\', '\"', 'a', '\"'] 2 := by
    refine ⟨⟨rfl, rfl⟩, fun before hlt hcloses => ?_⟩
    match before, hlt with
    | 0, _ => exact nomatch hcloses.mark
    | 1, _ => exact nomatch hcloses.mark
  have hopen : ¬ BeginsString ['\"', '\\', '\\', '\\', '\"'] := by
    rintro ⟨body, index, ⟨⟩, hcloses⟩
    match index, hcloses with
    | 3, hcloses => exact nomatch hcloses.not_escaped
  obtain ⟨-, -, hfirst, -⟩ := string_codec ['\"', '\\', '\\', '\"', 'a', '\"']
  obtain ⟨-, -, -, hmissed⟩ := string_codec ['\"', '\\', '\\', '\\', '\"']
  exact ⟨hfirst _ 2 rfl hcloses, hmissed hopen⟩

end Grammar

end Klartext
