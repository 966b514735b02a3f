import Klartext.Proofs.Reader.Basic

set_option autoImplicit false

/-! # Digits and quoted text

What the readers of digits and of quoted text make of a text that is written as they want it. A run
of digits ends where neither a digit nor a separator goes on. Quoted text ends at the first
quotation mark without a backslash before it, and there is no such mark inside escaped text. -/

namespace Klartext

namespace Text

/-- Neither a digit nor the separator stands at the front. -/
def EndsDigits (separator : Char) (t : Text) : Prop :=
  ∀ c ∈ t.head?, c.isDigit = false ∧ c ≠ separator

end Text

namespace Reader

/-! ## Digits -/

section Digits

variable {separator : Char} {t : Text}

theorem digitRun_of_ends (h : Text.EndsDigits separator t) (unfinished : Bool) (index : Nat) :
    digitRun (some separator) unfinished index t = ⟨[], unfinished, t⟩ := by
  cases t with
  | nil => rfl
  | cons c t =>
      obtain ⟨hdigit, hseparator⟩ := h c (by simp)
      simp [digitRun, hdigit, hseparator]

theorem digitRun_group (hseparator : separator.isDigit = false) {group : Text}
    (hne : group ≠ []) (hdigits : ∀ c ∈ group, c.isDigit = true) (unfinished : Bool)
    (index : Nat) (t : Text) :
    digitRun (some separator) unfinished index (group ++ t) =
      let others := digitRun (some separator) false (index + group.length) t
      { others with digits := group ++ others.digits } := by
  induction group generalizing unfinished index with
  | nil => exact absurd rfl hne
  | cons c group ih =>
      have hc : c.isDigit = true := hdigits c List.mem_cons_self
      have hother : ¬ some c = some separator := by
        rintro ⟨⟩
        simp [hc] at hseparator
      rw [List.cons_append, digitRun, if_neg hother, if_pos hc]
      by_cases hgroup : group = []
      · subst hgroup
        rfl
      · rw [ih hgroup (fun x hx => hdigits x (List.mem_cons_of_mem c hx)), List.length_cons,
          Nat.add_assoc, Nat.add_comm 1]
        rfl

theorem digitRun_separator {index : Nat} (hindex : index ≠ 0) (t : Text) :
    digitRun (some separator) false index (separator :: t) =
      digitRun (some separator) true (index + 1) t := by
  simp [digitRun, hindex]

/-- A run takes all groups, and nothing behind the last of them. -/
theorem digitRun_groups (hseparator : separator.isDigit = false) {groups : List Text}
    (hne : groups ≠ []) (hgroups : ∀ g ∈ groups, g ≠ [] ∧ ∀ c ∈ g, c.isDigit = true)
    (ht : Text.EndsDigits separator t) (unfinished : Bool) (index : Nat) :
    digitRun (some separator) unfinished index (Text.joinWith [separator] groups ++ t) =
      ⟨groups.flatten, false, t⟩ := by
  induction groups generalizing unfinished index with
  | nil => exact absurd rfl hne
  | cons group groups ih =>
      obtain ⟨hgroup, hdigits⟩ := hgroups group List.mem_cons_self
      by_cases hlast : groups = []
      · subst hlast
        rw [Text.joinWith, digitRun_group hseparator hgroup hdigits, digitRun_of_ends ht]
        simp
      · -- a separator counts only behind a digit, and the group has one
        have hindex : index + group.length ≠ 0 := by
          have := List.length_pos_iff.2 hgroup
          omega
        rw [Text.joinWith_cons hlast, List.append_assoc, List.append_assoc,
          digitRun_group hseparator hgroup hdigits, List.singleton_append,
          digitRun_separator hindex,
          ih hlast fun g hg => hgroups g (List.mem_cons_of_mem group hg)]
        simp

theorem digits_groups (hseparator : separator.isDigit = false) {groups : List Text}
    (hne : groups ≠ []) (hgroups : ∀ g ∈ groups, g ≠ [] ∧ ∀ c ∈ g, c.isDigit = true)
    (ht : Text.EndsDigits separator t) :
    digits (some separator) (Text.joinWith [separator] groups ++ t) =
      .found groups.flatten t := by
  have hflatten : groups.flatten.isEmpty = false := by
    obtain ⟨group, hgroup⟩ := List.exists_mem_of_ne_nil groups hne
    rw [List.isEmpty_eq_false_iff_exists_mem]
    obtain ⟨c, hc⟩ := List.exists_mem_of_ne_nil group (hgroups group hgroup).1
    exact ⟨c, List.mem_flatten.2 ⟨group, hgroup, hc⟩⟩
  rw [digits, digitRun_groups hseparator hne hgroups ht]
  simp [hflatten]

/-- No run of digits begins with anything but a digit. -/
theorem digits_missed (ht : ∀ c ∈ t.head?, c.isDigit = false) :
    digits (some separator) t = .missed := by
  cases t with
  | nil => rfl
  | cons c t =>
      have hc : c.isDigit = false := ht c (by simp)
      by_cases hseparator : c = separator <;> simp [digits, digitRun, hc, hseparator]

end Digits

/-! ## Quoted text -/

theorem closing_mark (t : Text) : closing ['\"'] 0 ('\"' :: t) = some ([], t) := by
  simp [closing]

theorem closing_escaped (c : Char) (t : Text) :
    closing ['\"'] 0 ('\\' :: c :: t) =
      (closing ['\"'] 0 t).map fun parts => ('\\' :: c :: parts.1, parts.2) := by
  simp [closing, Function.comp_def]

theorem closing_plain {c : Char} (hmark : c ≠ '\"') (hbackslash : c ≠ '\\') (t : Text) :
    closing ['\"'] 0 (c :: t) =
      (closing ['\"'] 0 t).map fun parts => (c :: parts.1, parts.2) := by
  simp [closing, hmark, hbackslash, hmark.symm]

end Reader

end Klartext
