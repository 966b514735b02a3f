import Klartext.Grammar.Nesting
import Klartext.Proofs.Text.Search
import Klartext.Proofs.Text.Words

set_option autoImplicit false

/-! # How readers compose

Equations for the combinators at one text, given what their parts do there, and for the small
readers on the texts that they are meant for.

A number with too many digits behind its comma is the one thing in well-written text at which
reading breaks off. `Reading.checked` is what comes of reading such text: the value and the rest, or
the failure at the first of these numbers. -/

namespace Klartext

/-- The value and the rest, unless a number has too many digits behind its comma, `overlong?` of
    them. -/
def Reading.checked {α : Type} (overlong? : Option Nat) (value : α) (rest : Text) : Reading α :=
  match overlong? with
  | none => .found value rest
  | some count => .broken (.tooManyDigits count)

@[simp] theorem Reading.checked_none {α : Type} (value : α) (rest : Text) :
    Reading.checked none value rest = .found value rest := rfl

@[simp] theorem Reading.checked_some {α : Type} (count : Nat) (value : α) (rest : Text) :
    Reading.checked (some count) value rest = .broken (.tooManyDigits count) := rfl

namespace Reader

variable {α β : Type}

/-! ## Combinators -/

instance : LawfulMonad Reader := by
  refine LawfulMonad.mk' Reader (fun p => funext fun t => ?_) (fun _ _ => rfl)
    fun p f g => funext fun t => ?_
  · show (p >>= fun a => pure (id a)) t = p t
    rw [bind_apply]
    cases p t <;> rfl
  · simp only [bind_apply]
    cases p t <;> rfl

section Combinators

variable {p q : Reader α} {f : α → Reader β} {t u v : Text} {a : α} {b : β} {o o' : Option Nat}
  {e : Failure}

theorem bind_found (hp : p t = .found a u) : (p >>= f) t = f a u := by
  rw [bind_apply, hp]

theorem bind_missed (hp : p t = .missed) : (p >>= f) t = .missed := by
  rw [bind_apply, hp]

theorem bind_eq_found :
    (p >>= f) t = .found b v ↔ ∃ a u, p t = .found a u ∧ f a u = .found b v := by
  refine ⟨fun h => ?_, fun ⟨a, u, hp, hf⟩ => (bind_found hp).trans hf⟩
  rw [bind_apply] at h
  split at h
  · exact ⟨_, _, by assumption, h⟩
  · cases h
  · cases h

theorem bind_eq_broken :
    (p >>= f) t = .broken e ↔ p t = .broken e ∨ ∃ a u, p t = .found a u ∧ f a u = .broken e := by
  rw [bind_apply]
  cases p t <;> simp [and_assoc]

/-- One part after the other: the first number with too many digits is that of the first part, or
    that of the second if the first has none. -/
theorem bind_checked (hp : p t = .checked o a u) (hf : f a u = .checked o' b v) :
    (p >>= f) t = .checked (o.or o') b v := by
  rw [bind_apply, hp]
  cases o with
  | none => exact hf
  | some count => rfl

theorem bind_checked_found (hp : p t = .checked o a u) (hf : f a u = .found b v) :
    (p >>= f) t = .checked o b v := by
  rw [bind_apply, hp]
  cases o with
  | none => exact hf
  | some count => rfl

theorem bind_checked_pure {g : α → β} (hp : p t = .checked o a u) :
    (p >>= fun a => pure (g a)) t = .checked o (g a) u :=
  bind_checked_found hp rfl

theorem bind_assoc_apply {γ : Type} {g : β → Reader γ} :
    (p >>= fun a => f a >>= g) t = ((p >>= f) >>= g) t := by
  rw [bind_assoc]

theorem orElse_eq_found :
    (p <|> q) t = .found a u ↔ p t = .found a u ∨ p t = .missed ∧ q t = .found a u := by
  rw [orElse_apply]
  cases p t <;> simp

theorem orElse_eq_broken :
    (p <|> q) t = .broken e ↔ p t = .broken e ∨ p t = .missed ∧ q t = .broken e := by
  rw [orElse_apply]
  cases p t <;> simp

theorem orElse_of_missed (hp : p t = .missed) : (p <|> q) t = q t := by
  rw [orElse_apply, hp]

theorem orElse_of_checked (hp : p t = .checked o a u) : (p <|> q) t = .checked o a u := by
  rw [orElse_apply, hp]
  cases o <;> rfl

theorem firstOf_of_missed {others : List (Reader α)} (hp : p t = .missed) :
    firstOf (p :: others) t = firstOf others t :=
  orElse_of_missed hp

theorem firstOf_of_checked {others : List (Reader α)} (hp : p t = .checked o a u) :
    firstOf (p :: others) t = .checked o a u :=
  orElse_of_checked hp

theorem firstOf_append_of_missed {before others : List (Reader α)}
    (hbefore : ∀ r ∈ before, r t = .missed) :
    firstOf (before ++ others) t = firstOf others t := by
  induction before with
  | nil => rfl
  | cons r before ih =>
      rw [List.cons_append, firstOf_of_missed (hbefore r List.mem_cons_self)]
      exact ih fun s hs => hbefore s (List.mem_cons_of_mem r hs)

theorem firstOf_append_of_checked {before others : List (Reader α)}
    (hbefore : ∀ r ∈ before, r t = .missed) (hp : p t = .checked o a u) :
    firstOf (before ++ p :: others) t = .checked o a u :=
  (firstOf_append_of_missed hbefore).trans (firstOf_of_checked hp)

theorem firstOf_eq_missed {readers : List (Reader α)} (h : ∀ r ∈ readers, r t = .missed) :
    firstOf readers t = .missed := by
  rw [← List.append_nil readers, firstOf_append_of_missed h]
  rfl

/-- What is found is found by the first reader that does not miss. -/
theorem firstOf_eq_found {readers : List (Reader α)} :
    firstOf readers t = .found a u ↔ ∃ earlier r later, readers = earlier ++ r :: later ∧
      (∀ s ∈ earlier, s t = .missed) ∧ r t = .found a u := by
  constructor
  · intro h
    induction readers with
    | nil => cases h
    | cons r others ih =>
        rcases orElse_eq_found.1 h with hr | ⟨hmissed, hothers⟩
        · exact ⟨[], r, others, rfl, List.forall_mem_nil _, hr⟩
        · obtain ⟨earlier, s, later, rfl, hearlier, hs⟩ := ih hothers
          exact ⟨r :: earlier, s, later, rfl, List.forall_mem_cons.2 ⟨hmissed, hearlier⟩, hs⟩
  · rintro ⟨earlier, r, later, rfl, hearlier, hr⟩
    rw [firstOf_append_of_missed hearlier]
    exact orElse_eq_found.2 (.inl hr)

theorem optional_of_missed (hp : p t = .missed) : optional p t = .found none t := by
  rw [optional, orElse_of_missed (bind_missed hp), pure_apply]

theorem optional_of_checked (hp : p t = .checked o a u) :
    optional p t = .checked o (some a) u :=
  orElse_of_checked (bind_checked_pure hp)

theorem upTo_succ (bound : Nat) :
    upTo p (bound + 1) t =
      match p t with
      | .found a rest =>
        if rest.length < t.length then (do return a :: (← upTo p bound)) rest else .found [] t
      | .missed => .found [] t
      | .broken e => .broken e := rfl

/-- A value and those behind it are found, or nothing is taken: the reader misses, or what it takes is
    nothing. -/
theorem upTo_succ_eq_found {as : List α} {bound : Nat} :
    upTo p (bound + 1) t = .found as v ↔
      (∃ a u, p t = .found a u ∧ u.length < t.length ∧
        (do return a :: (← upTo p bound)) u = .found as v) ∨
      as = [] ∧ v = t ∧ (p t = .missed ∨ ∃ a u, p t = .found a u ∧ t.length ≤ u.length) := by
  refine ⟨fun h => ?_, ?_⟩
  · rw [upTo_succ] at h
    split at h
    · rename_i a u hp
      split at h
      · rename_i hprogress
        exact .inl ⟨a, u, hp, hprogress, h⟩
      · rename_i hnone
        cases h
        exact .inr ⟨rfl, rfl, .inr ⟨a, u, hp, Nat.le_of_not_lt hnone⟩⟩
    · rename_i hp
      cases h
      exact .inr ⟨rfl, rfl, .inl hp⟩
    · cases h
  · rintro (⟨a, u, hp, hprogress, hothers⟩ | ⟨rfl, rfl, hp | ⟨a, u, hp, hle⟩⟩) <;> rw [upTo_succ, hp]
    · exact (if_pos hprogress).trans hothers
    · exact if_neg (Nat.not_lt.2 hle)

theorem upTo_succ_eq_broken {bound : Nat} :
    upTo p (bound + 1) t = .broken e ↔
      p t = .broken e ∨ ∃ a u, p t = .found a u ∧ u.length < t.length ∧
        (do return a :: (← upTo p bound)) u = .broken e := by
  refine ⟨fun h => ?_, ?_⟩
  · rw [upTo_succ] at h
    split at h
    · rename_i a u hp
      split at h
      · rename_i hprogress
        exact .inr ⟨a, u, hp, hprogress, h⟩
      · cases h
    · cases h
    · rename_i hp
      cases h
      exact .inl hp
  · rintro (hp | ⟨a, u, hp, hprogress, hothers⟩) <;> rw [upTo_succ, hp]
    exact (if_pos hprogress).trans hothers

theorem upTo_of_missed (hp : p t = .missed) (bound : Nat) : upTo p bound t = .found [] t := by
  cases bound with
  | zero => rfl
  | succ bound => rw [upTo_succ, hp]

theorem upTo_of_checked {as : List α} {bound : Nat} (hp : p t = .checked o a u)
    (hlength : u.length < t.length) (hrest : upTo p bound u = .checked o' as v) :
    upTo p (bound + 1) t = .checked (o.or o') (a :: as) v := by
  rw [upTo_succ, hp]
  cases o with
  | none => exact (if_pos hlength).trans (bind_checked_pure hrest)
  | some count => rfl

end Combinators

/-! ## Whitespace -/

theorem blanks_flush {t : Text} (h : Text.Flush t) : blanks t = .found [] t := by
  rw [blanks, h.takeWhile_eq, h.dropWhile_eq]

theorem blanks_space {t : Text} (h : Text.Flush t) : blanks (' ' :: t) = .found [' '] t := by
  have hspace : isBlank ' ' = true := by decide
  rw [blanks, List.takeWhile_cons_of_pos hspace, List.dropWhile_cons_of_pos hspace,
    h.takeWhile_eq, h.dropWhile_eq]

theorem blanks1_space {t : Text} (h : Text.Flush t) : blanks1 (' ' :: t) = .found [' '] t := by
  have hspace : isBlank ' ' = true := by decide
  rw [blanks1, List.takeWhile_cons_of_pos hspace, List.dropWhile_cons_of_pos hspace,
    h.takeWhile_eq, h.dropWhile_eq]
  rfl

/-! ## Phrases -/

theorem literal_append (s t : Text) : literal s (s ++ t) = .found s t := by
  have hprefix : s.isPrefixOf (s ++ t) = true := List.isPrefixOf_iff_prefix.2 ⟨t, rfl⟩
  rw [literal, if_pos hprefix, List.drop_left]

theorem literal_missed {s t : Text} (h : ¬ s <+: t) : literal s t = .missed := by
  rw [literal, if_neg]
  rwa [List.isPrefixOf_iff_prefix]

theorem inOrder_joinWith {ws : List Text} (h : ∀ w ∈ ws, Text.IsWord w) (t : Text) :
    inOrder ws (Text.joinWith [' '] ws ++ t) = .found () t := by
  induction ws with
  | nil => rfl
  | cons w ws ih =>
      cases ws with
      | nil => rw [inOrder, Text.joinWith, bind_found (literal_append w t)]; rfl
      | cons w' ws =>
          have hrest := ih fun x hx => h x (List.mem_cons_of_mem _ hx)
          have hw' : Text.IsWord w' := h w' (by simp)
          have hflush : Text.Flush (Text.joinWith [' '] (w' :: ws) ++ t) :=
            (Text.flush_joinWith hw' ws).append (Text.joinWith_ne_nil hw' ws) t
          rw [inOrder, Text.joinWith_cons (by simp), List.append_assoc, List.append_assoc,
            bind_found (literal_append w _), List.singleton_append,
            bind_found (blanks1_space hflush)]
          · exact hrest
          · simp

/-- A phrase that is written with single spaces reads itself. -/
theorem phrase_append {s : String} (h : Text.normalize s.toList = s.toList) (t : Text) :
    phrase s (s.toList ++ t) = .found () t := by
  have hwords : ∀ w ∈ Text.words s.toList, Text.IsWord w := fun w hw =>
    Text.isWord_of_mem_words hw
  have hread := inOrder_joinWith hwords t
  rwa [← Text.normalize, h] at hread

/-- A phrase and the space behind it. -/
theorem phrase_blanks1 {s w : String} (hs : Text.normalize s.toList = s.toList)
    (hw : w.toList = s.toList ++ [' ']) {f : Text → Reader β} {t : Text}
    (hflush : Text.Flush t) :
    (phrase s >>= fun _ => blanks1 >>= f) (w.toList ++ t) = f [' '] t := by
  rw [hw, List.append_assoc, bind_found (phrase_append hs _)]
  exact bind_found (blanks1_space hflush)

/-- A phrase and the space before it. -/
theorem blanks1_phrase {s w : String} (hs : Text.normalize s.toList = s.toList)
    (hw : w.toList = ' ' :: s.toList) {f : Unit → Reader β} {t : Text}
    (hflush : Text.Flush (s.toList ++ t)) :
    (blanks1 >>= fun _ => phrase s >>= f) (w.toList ++ t) = f () t := by
  rw [hw, List.cons_append, bind_found (blanks1_space hflush)]
  exact bind_found (phrase_append hs t)

theorem inOrder_missed {w : Text} {t : Text} (h : ¬ w <+: t) (ws : List Text) :
    inOrder (w :: ws) t = .missed := by
  cases ws with
  | nil => exact bind_missed (literal_missed h)
  | cons w' ws => exact bind_missed (literal_missed h)

theorem phrase_missed {s : String} {w : Text} {ws : List Text}
    (hwords : Text.words s.toList = w :: ws) {t : Text} (h : ¬ w <+: t) :
    phrase s t = .missed := by
  rw [phrase, hwords]
  exact inOrder_missed h ws

/-- A longer phrase misses where only its beginning stands. -/
theorem inOrder_append_missed {ws : List Text} (hne : ws ≠ []) (hws : ∀ w ∈ ws, Text.IsWord w)
    {w t : Text} (hflush : Text.Flush t) (h : ¬ w <+: t) (others : List Text) :
    inOrder (ws ++ w :: others) (Text.joinWith [' '] ws ++ ' ' :: t) = .missed := by
  induction ws with
  | nil => exact absurd rfl hne
  | cons v ws ih =>
      cases ws with
      | nil =>
          rw [Text.joinWith, List.singleton_append, inOrder, bind_found (literal_append v _),
            bind_found (blanks1_space hflush)]
          · exact inOrder_missed h others
          · simp
      | cons v' ws =>
          have hv' : Text.IsWord v' := hws v' (by simp)
          have hflush' : Text.Flush (Text.joinWith [' '] (v' :: ws) ++ ' ' :: t) :=
            (Text.flush_joinWith hv' ws).append (Text.joinWith_ne_nil hv' ws) _
          rw [Text.joinWith_cons (by simp), List.append_assoc, List.append_assoc, List.cons_append,
            inOrder, bind_found (literal_append v _), List.singleton_append,
            bind_found (blanks1_space hflush')]
          · exact ih (by simp) fun x hx => hws x (List.mem_cons_of_mem v hx)
          · simp

theorem phrase_longer {s p : String} {w t : Text} {others : List Text}
    (hwords : Text.words s.toList = Text.words p.toList ++ w :: others)
    (hp : Text.normalize p.toList = p.toList) (hne : Text.words p.toList ≠ [])
    (hflush : Text.Flush t) (h : ¬ w <+: t) : phrase s (p.toList ++ ' ' :: t) = .missed := by
  have hread := inOrder_append_missed hne (fun v hv => Text.isWord_of_mem_words hv) hflush h others
  rwa [← Text.normalize, hp, ← hwords] at hread

/-! ## Names -/

/-- A name in normal form is read up to the first occurrence of the terminator. -/
theorem nameUntil_append {terminator name t : Text} {excluded : List Text}
    (hterminator : terminator ≠ []) (hne : name ≠ []) (hnormal : Text.normalize name = name)
    (hfirst : Text.Absent terminator name (terminator ++ t))
    (hexcluded : ∀ s ∈ excluded, Text.holds s name = false) :
    nameUntil terminator excluded (name ++ (terminator ++ t)) = .found name t := by
  have htext : textUntil terminator excluded (name ++ (terminator ++ t)) = .found name t := by
    have hany : (excluded.any fun s => Text.holds s name) = false := by
      rw [List.any_eq_false]
      intro s hs
      rw [hexcluded s hs]
      simp
    rw [textUntil, Text.splitFirst?_of_absent hterminator hfirst]
    simp only [hany, Bool.false_eq_true, if_false]
  rw [nameUntil, bind_found htext]
  simp [hnormal, hne]

/-- There is no name where the terminator does not stand. -/
theorem nameUntil_absent {terminator t : Text} (hterminator : terminator ≠ [])
    (h : Text.Absent terminator t []) (excluded : List Text) :
    nameUntil terminator excluded t = .missed := by
  have hholds := Text.holds_eq_false hterminator h
  rw [Text.holds, Option.isSome_eq_false_iff, Option.isNone_iff_eq_none] at hholds
  have htext : textUntil terminator excluded t = .missed := by
    rw [textUntil, hholds]
  rw [nameUntil, bind_missed htext]

/-- There is no name where an excluded literal stands before the first terminator. -/
theorem nameUntil_excluded {terminator a b s : Text} {excluded : List Text}
    (hs : s ∈ excluded) (hfirst : Text.Absent terminator (a ++ s) b) :
    nameUntil terminator excluded (a ++ (s ++ b)) = .missed := by
  have htext : textUntil terminator excluded (a ++ (s ++ b)) = .missed := by
    rw [textUntil, ← List.append_assoc, Text.splitFirst?_append hfirst]
    cases Text.splitFirst? terminator b with
    | none => rfl
    | some parts =>
        have hany : (excluded.any fun s' => Text.holds s' (a ++ s ++ parts.1)) = true := by
          rw [List.any_eq_true]
          refine ⟨s, hs, ?_⟩
          rw [List.append_assoc]
          exact Text.holds_append s a parts.1
        simp only [Option.map_some, hany, if_true]
  rw [nameUntil, bind_missed htext]

end Reader

end Klartext
