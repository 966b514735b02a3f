import Klartext.Proofs.Reader.Words
import Klartext.Proofs.Surface.Expression

set_option autoImplicit false

/-! # Written literals are read back

The primitive layer reads the text of a literal back, whatever follows it, as long as that does not
go on with the digits of a number. -/

namespace Klartext

open Reader

namespace Surface

/-! ## Numbers -/

/-- What can stand behind a number without being taken for a part of it. -/
structure EndsNumber (t : Text) : Prop where
  ends_digits : Text.EndsDigits '.' t
  no_fraction : ∀ u, t = ',' :: u → ∀ c ∈ u.head?, c.isDigit = false

theorem EndsNumber.nil : EndsNumber [] := by
  refine ⟨?_, ?_⟩
  · simp [Text.EndsDigits]
  · rintro u ⟨⟩

theorem EndsNumber.cons {c : Char} {t : Text} (hdigit : c.isDigit = false) (hpoint : c ≠ '.')
    (hcomma : c ≠ ',') : EndsNumber (c :: t) := by
  refine ⟨?_, ?_⟩
  · simp [Text.EndsDigits, hdigit, hpoint]
  · rintro u ⟨⟩
    exact absurd rfl hcomma

theorem Digits.read (d : Digits) {t : Text} (ht : Text.EndsDigits '.' t) :
    digits (some '.') (d.text ++ t) = .found d.joined t :=
  digits_groups (by decide) d.ne_nil d.grouped ht

theorem Numeral.read (n : Numeral) {t : Text} (ht : EndsNumber t) :
    Grammar.number (n.text ++ t) = .checked n.overlong? (.literal (.number n.value)) t := by
  obtain ⟨whole, fraction⟩ := n
  cases fraction with
  | none =>
      -- a comma may follow the number all the same, as long as no digit follows the comma
      have hfraction : (do phrase ","; digits (some '.') : Reader Text) t = .missed := by
        by_cases hcomma : ∃ u, t = ',' :: u
        · obtain ⟨u, rfl⟩ := hcomma
          exact (bind_found (phrase_append rfl u)).trans (digits_missed (ht.no_fraction u rfl))
        · refine bind_missed (bind_missed (literal_missed ?_))
          rintro ⟨u, rfl⟩
          exact hcomma ⟨u, rfl⟩
      rw [Grammar.number, Numeral.text, bind_found (whole.read ht.ends_digits),
        bind_found (optional_of_missed hfraction)]
      rfl
  | some places =>
      have hwhole : Text.EndsDigits '.' (',' :: (places.text ++ t)) := by
        simp [Text.EndsDigits]
      have hfraction : (do phrase ","; digits (some '.') : Reader Text)
          (',' :: (places.text ++ t)) = .found places.joined t :=
        (bind_found (phrase_append rfl _)).trans (places.read ht.ends_digits)
      have hoptional := optional_of_checked (o := none) hfraction
      simp only [Grammar.number, Numeral.text, List.append_assoc, List.cons_append]
      rw [bind_found (whole.read hwhole), bind_found hoptional]
      by_cases hlimit : digitLimit < places.joined.length
      · simp [Numeral.overlong?, wholeNumber, hlimit, breakOff]
      · simp [Numeral.overlong?, Numeral.value, Layout.natOf, wholeNumber, hlimit]

/-! ## Strings -/

theorem escape_cons (c : Char) (t : Text) :
    escape (c :: t) = (if c = '\"' ∨ c = '\\' then ['\\', c] else [c]) ++ escape t :=
  rfl

theorem unescape_escape (t : Text) : unescape (escape t) = t := by
  induction t with
  | nil => rfl
  | cons c t ih =>
      rw [escape_cons]
      split
      · simp [unescape, ih]
      · rename_i hc
        have hbackslash : c ≠ '\\' := fun h => hc (.inr h)
        simp [unescape, ih, hbackslash]

/-- Escaped text is closed by the quotation mark behind it. -/
theorem closing_escape (s t : Text) :
    closing ['\"'] 0 (escape s ++ '\"' :: t) = some (escape s, t) := by
  induction s with
  | nil => exact closing_mark t
  | cons c s ih =>
      rw [escape_cons]
      split
      · simp [closing_escaped, ih]
      · rename_i hc
        simp only [not_or] at hc
        simp [closing_plain hc.1 hc.2, ih]

/-- Nothing closes a text that was cut off before its closing quotation mark. -/
theorem closing_of_prefix {s p : Text} (h : p <+: escape s) : closing ['\"'] 0 p = none := by
  induction s generalizing p with
  | nil =>
      rw [List.prefix_nil.1 h]
      rfl
  | cons c s ih =>
      rw [escape_cons] at h
      split at h
      · -- a backslash takes the character behind it along, if that was not cut off
        simp only [List.cons_append, List.nil_append] at h
        match p, h with
        | [], _ => rfl
        | [b], h =>
            obtain ⟨rfl, _⟩ := List.cons_prefix_cons.1 h
            rfl
        | b :: d :: p, h =>
            obtain ⟨rfl, hescaped⟩ := List.cons_prefix_cons.1 h
            rw [closing_escaped, ih (List.cons_prefix_cons.1 hescaped).2]
            rfl
      · rename_i hc
        simp only [not_or] at hc
        simp only [List.cons_append, List.nil_append] at h
        match p, h with
        | [], _ => rfl
        | d :: p, h =>
            obtain ⟨rfl, hrest⟩ := List.cons_prefix_cons.1 h
            rw [closing_plain hc.1 hc.2, ih hrest]
            rfl

theorem string_read (s t : Text) :
    Grammar.string (quote s ++ t) = .found (.literal (.string (String.ofList s))) t := by
  have hread : between ['\"'] (quote s ++ t) = .found s t := by
    simp [between, quote, closing_escape, unescape_escape]
  rw [Grammar.string, bind_found hread]
  rfl

/-! ## Literals -/

theorem string_missed {t : Text} (h : ∀ c ∈ t.head?, c ≠ '\"') : Grammar.string t = .missed := by
  have hread : between ['\"'] t = .missed := by
    cases t with
    | nil => rfl
    | cons c t =>
        have hc : c ≠ '\"' := h c (by simp)
        simp [between, hc.symm]
  exact bind_missed hread

theorem Literal.read (l : Literal) {t : Text} (ht : EndsNumber t) :
    Grammar.primitive (l.text ++ t) = .checked l.overlong? (.literal l.value) t := by
  cases l with
  | number n =>
      have hstring : Grammar.string (n.text ++ t) = .missed := by
        obtain ⟨c, u, htext, hc⟩ := n.head
        refine string_missed ?_
        rw [htext]
        rintro _ ⟨⟩ rfl
        exact absurd hc (by decide)
      exact (orElse_of_missed hstring).trans (orElse_of_checked (n.read ht))
  | string content => exact orElse_of_checked (o := none) (string_read content t)
  | boolean b =>
      cases b with
      | true => rfl
      | false => rfl
  | null => rfl

end Surface

end Klartext
