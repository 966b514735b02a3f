import Klartext.Grammar.Expression
import Klartext.Proofs.Text.Words

set_option autoImplicit false

/-! # How literals are written

The written forms of literals, kept apart from what reads them: a number as the groups of digits
that stand between points, with a second run of digits behind a comma or without one, and a string
with a backslash before each quotation mark and each backslash in it. Every written literal has a
text and a value.

The digits behind the comma are converted as one whole number, for which there may be too many of
them; `overlong?` says whether there are and how many. -/

namespace Klartext

namespace Surface

/-! ## Numbers -/

/-- A run of ASCII digits, in one group or more with points between them. -/
structure Digits where
  groups : List Text
  ne_nil : groups ≠ []
  grouped : ∀ g ∈ groups, g ≠ [] ∧ ∀ c ∈ g, c.isDigit = true

namespace Digits

def text (d : Digits) : Text := Text.joinWith ['.'] d.groups

/-- The digits without the points. -/
def joined (d : Digits) : Text := d.groups.flatten

end Digits

/-- A number: digits, and more of them behind a comma or none. -/
structure Numeral where
  whole : Digits
  fraction : Option Digits

namespace Numeral

def text (n : Numeral) : Text :=
  match n.fraction with
  | none => n.whole.text
  | some places => n.whole.text ++ ',' :: places.text

def value (n : Numeral) : Float :=
  match n.fraction with
  | none => Double.nearestDecimal (Layout.natOf n.whole.joined) 0
  | some places =>
    Grammar.withFraction n.whole.joined (Layout.natOf places.joined) places.joined.length

/-- The number of digits behind the comma, if that is too large. -/
def overlong? (n : Numeral) : Option Nat :=
  match n.fraction with
  | none => none
  | some places =>
    if Reader.digitLimit < places.joined.length then some places.joined.length else none

end Numeral

/-! ## Strings -/

/-- A text as it stands between quotation marks. -/
def escape (t : Text) : Text :=
  t.flatMap fun c => if c = '\"' ∨ c = '\\' then ['\\', c] else [c]

/-- A text between quotation marks. -/
def quote (t : Text) : Text := '\"' :: (escape t ++ ['\"'])

/-! ## Literals -/

/-- A written literal. -/
inductive Literal where
  | number (n : Numeral)
  | string (content : Text)
  | boolean (b : Bool)
  | null

namespace Literal

def text : Literal → Text
  | .number n => n.text
  | .string content => quote content
  | .boolean true => "wahr".toList
  | .boolean false => "falsch".toList
  | .null => "nix".toList

def value : Literal → Value
  | .number n => .number n.value
  | .string content => .string (String.ofList content)
  | .boolean b => .boolean b
  | .null => .null

/-- The number of digits behind a comma, if that is too large. -/
def overlong? : Literal → Option Nat
  | .number n => n.overlong?
  | _ => none

end Literal

/-! ## How literals begin and end -/

theorem Digits.head (d : Digits) : ∃ c u, d.text = c :: u ∧ c.isDigit = true := by
  obtain ⟨groups, hne, hgroups⟩ := d
  cases groups with
  | nil => exact absurd rfl hne
  | cons group groups =>
      obtain ⟨hgroup, hdigits⟩ := hgroups group List.mem_cons_self
      cases group with
      | nil => exact absurd rfl hgroup
      | cons c group =>
          have hc : c.isDigit = true := hdigits c List.mem_cons_self
          cases groups with
          | nil => exact ⟨c, group, rfl, hc⟩
          | cons g gs => exact ⟨c, _, rfl, hc⟩

theorem Numeral.head (n : Numeral) : ∃ c u, n.text = c :: u ∧ c.isDigit = true := by
  obtain ⟨whole, fraction⟩ := n
  obtain ⟨c, u, hwhole, hc⟩ := whole.head
  cases fraction with
  | none => exact ⟨c, u, hwhole, hc⟩
  | some places => exact ⟨c, u ++ ',' :: places.text, by simp [text, hwhole], hc⟩

theorem Digits.last (d : Digits) : ∃ u c, d.text = u ++ [c] ∧ c.isDigit = true :=
  Text.joinWith_last d.ne_nil fun g hg => Text.exists_concat (d.grouped g hg).1 (d.grouped g hg).2

theorem Digits.not_blank (d : Digits) : ∀ c ∈ d.text, isBlank c = false := by
  intro c hc
  rcases Text.mem_joinWith hc with hpoint | ⟨g, hg, hdigit⟩
  · rw [List.mem_singleton.1 hpoint]
    decide
  · exact not_isBlank_of_isDigit ((d.grouped g hg).2 c hdigit)

theorem Numeral.last (n : Numeral) : ∃ u c, n.text = u ++ [c] ∧ c.isDigit = true := by
  obtain ⟨whole, fraction⟩ := n
  cases fraction with
  | none => exact whole.last
  | some places =>
      obtain ⟨u, c, hu, hc⟩ := places.last
      exact ⟨whole.text ++ ',' :: u, c, by simp [text, hu], hc⟩

theorem Numeral.not_blank (n : Numeral) : ∀ c ∈ n.text, isBlank c = false := by
  obtain ⟨whole, fraction⟩ := n
  intro c hc
  cases fraction with
  | none => exact whole.not_blank c hc
  | some places =>
      simp only [text, List.mem_append, List.mem_cons] at hc
      rcases hc with hc | rfl | hc
      · exact whole.not_blank c hc
      · decide
      · exact places.not_blank c hc

/-- A literal is a string or has no whitespace in it. -/
theorem Literal.not_blank_or_quoted (l : Literal) :
    (∃ content, l = .string content) ∨ ∀ c ∈ l.text, isBlank c = false := by
  cases l with
  | number n => exact .inr n.not_blank
  | string content => exact .inl ⟨content, rfl⟩
  | boolean b => cases b <;> exact .inr (Text.not_blank_of_all (by decide))
  | null => exact .inr (Text.not_blank_of_all (by decide))

theorem Literal.last (l : Literal) :
    ∃ u c, l.text = u ++ [c] ∧ isBlank c = false ∧ c ≠ ',' := by
  cases l with
  | number n =>
      obtain ⟨u, c, hu, hc⟩ := n.last
      refine ⟨u, c, hu, not_isBlank_of_isDigit hc, ?_⟩
      rintro rfl
      exact absurd hc (by decide)
  | string content => exact ⟨'\"' :: escape content, '\"', rfl, by decide, by decide⟩
  | boolean b =>
      cases b with
      | true => exact ⟨"wah".toList, 'r', rfl, by decide, by decide⟩
      | false => exact ⟨"falsc".toList, 'h', rfl, by decide, by decide⟩
  | null => exact ⟨"ni".toList, 'x', rfl, by decide, by decide⟩

end Surface

end Klartext
