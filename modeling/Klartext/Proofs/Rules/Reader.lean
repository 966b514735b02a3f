import Klartext.Proofs.Reader.Basic
import Klartext.Proofs.Reader.Words
import Klartext.Proofs.Rules.Basic

set_option autoImplicit false

/-! # What readers take off a text

`Reader.Reads D p` says of a reader what it takes off the front of a text where it finds a value:
text of which `D` holds together with the value. It also says at what a reader can fail other than
by a refusal or by nesting: at a fraction that is too long. One lemma for each combinator and each
reader of words, so that no proof about the grammar opens them. -/

namespace Klartext

open Reader Rules

/-! ## Fractions that are too long -/

/-- Somewhere in the text stand a comma and behind it a run of digits, `count` of them, which are
    too many to be converted. -/
def LongFraction (count : Nat) (t : Text) : Prop :=
  ∃ (a : Text) (places : Surface.Digits) (b : Text), t = a ++ ',' :: (places.text ++ b) ∧
    places.joined.length = count ∧ digitLimit < count

/-- A part of a text has no fractions that the text does not have. -/
theorem LongFraction.mono {count : Nat} {t u : Text} (h : LongFraction count t) (htu : t <:+: u) :
    LongFraction count u := by
  obtain ⟨a, places, b, rfl, hcount⟩ := h
  obtain ⟨front, back, rfl⟩ := htu
  exact ⟨front ++ a, places, b ++ back, by simp, hcount⟩

namespace Reader

/-- What the reader finds goes with what it takes off the text as `D` says, and where it stops at
    too many digits, there are too many behind a comma. -/
structure Reads {α : Type} (D : α → Text → Prop) (p : Reader α) : Prop where
  found : ∀ {t : Text} {a : α} {rest : Text}, p t = .found a rest → ∃ used, t = used ++ rest ∧ D a used
  broken : ∀ {t : Text} {count : Nat}, p t = .broken (.tooManyDigits count) → LongFraction count t

section Combinators

variable {α β : Type} {p q : Reader α} {D D' : α → Text → Prop} {E : β → Text → Prop}
  {f : α → Reader β}

theorem Reads.mono (h : Reads D p) (hD : ∀ a u, D a u → D' a u) : Reads D' p := by
  refine ⟨fun hp => ?_, h.broken⟩
  obtain ⟨used, ht, hused⟩ := h.found hp
  exact ⟨used, ht, hD _ _ hused⟩

theorem Reads.and (h : Reads D p) (h' : Reads D' p) : Reads (fun a u => D a u ∧ D' a u) p := by
  refine ⟨fun hp => ?_, h.broken⟩
  obtain ⟨used, rfl, hused⟩ := h.found hp
  obtain ⟨used', heq, hused'⟩ := h'.found hp
  exact ⟨used, rfl, hused, List.append_cancel_right heq ▸ hused'⟩

theorem reads_pure {a : α} (h : D a []) : Reads D (pure a : Reader α) := by
  refine ⟨fun hp => ?_, fun hp => by cases hp⟩
  cases hp
  exact ⟨[], rfl, h⟩

theorem reads_miss : Reads D (miss : Reader α) :=
  ⟨nofun, nofun⟩

/-- The second reader goes on where the first one stopped. What it breaks off at may have begun in
    what the first one took. -/
theorem Reads.andThen (hp : Reads D p)
    (hfound : ∀ {a u t b rest}, D a u → f a t = .found b rest → ∃ v, t = v ++ rest ∧ E b (u ++ v))
    (hbroken : ∀ {a u t count}, D a u → f a t = .broken (.tooManyDigits count) →
      LongFraction count (u ++ t)) : Reads E (p >>= f) := by
  refine ⟨fun h => ?_, fun h => ?_⟩
  · obtain ⟨a, between, hpt, hread⟩ := bind_eq_found.1 h
    obtain ⟨u, rfl, hu⟩ := hp.found hpt
    obtain ⟨v, rfl, hv⟩ := hfound hu hread
    exact ⟨u ++ v, (List.append_assoc ..).symm, hv⟩
  · rcases bind_eq_broken.1 h with hpt | ⟨a, between, hpt, hread⟩
    · exact hp.broken hpt
    · obtain ⟨u, rfl, hu⟩ := hp.found hpt
      exact hbroken hu hread

theorem Reads.bind (hp : Reads D p) (hf : ∀ a u, D a u → Reads (fun b v => E b (u ++ v)) (f a)) :
    Reads E (p >>= f) :=
  hp.andThen (fun hu h => (hf _ _ hu).found h) fun hu h =>
    ((hf _ _ hu).broken h).mono (List.suffix_append _ _).isInfix

theorem Reads.orElse (hp : Reads D p) (hq : Reads D q) : Reads D (p <|> q) := by
  refine ⟨fun h => ?_, fun h => ?_⟩
  · rcases orElse_eq_found.1 h with hpt | ⟨-, hqt⟩
    · exact hp.found hpt
    · exact hq.found hqt
  · rcases orElse_eq_broken.1 h with hpt | ⟨-, hqt⟩
    · exact hp.broken hpt
    · exact hq.broken hqt

theorem reads_firstOf {readers : List (Reader α)} (h : ∀ r ∈ readers, Reads D r) :
    Reads D (firstOf readers) := by
  induction readers with
  | nil => exact reads_miss
  | cons r others ih =>
      exact (h r List.mem_cons_self).orElse (ih fun s hs => h s (List.mem_cons_of_mem r hs))

theorem reads_optional {O : Option α → Text → Prop} (h : Reads (fun a => O (some a)) p)
    (hnone : O none []) : Reads O (optional p) := by
  refine (h.bind fun a u hu => reads_pure ?_).orElse (reads_pure hnone)
  rwa [List.append_nil]

/-- Values one after the other, each with its own text. -/
theorem Reads.upTo {L : List α → Text → Prop} (h : Reads D p) (hnil : L [] [])
    (hcons : ∀ {a as u v}, D a u → L as v → L (a :: as) (u ++ v)) (bound : Nat) :
    Reads L (upTo p bound) := by
  induction bound with
  | zero => exact reads_pure hnil
  | succ bound ih =>
      have hmore {a : α} {u : Text} (hu : D a u) :
          Reads (fun as v => L as (u ++ v)) (do return a :: (← Reader.upTo p bound)) :=
        ih.bind fun as v hv => reads_pure (by rw [List.append_nil]; exact hcons hu hv)
      refine ⟨fun hread => ?_, fun hread => ?_⟩
      · rcases upTo_succ_eq_found.1 hread with ⟨a, between, hpt, -, hothers⟩ | ⟨rfl, rfl, -⟩
        · obtain ⟨u, rfl, hu⟩ := h.found hpt
          obtain ⟨v, rfl, hv⟩ := (hmore hu).found hothers
          exact ⟨u ++ v, (List.append_assoc ..).symm, hv⟩
        · exact ⟨[], rfl, hnil⟩
      · rcases upTo_succ_eq_broken.1 hread with hpt | ⟨a, between, hpt, -, hothers⟩
        · exact h.broken hpt
        · obtain ⟨u, rfl, hu⟩ := h.found hpt
          exact ((hmore hu).broken hothers).mono (List.suffix_append u between).isInfix

theorem Reads.many {L : List α → Text → Prop} (h : Reads D p) (hnil : L [] [])
    (hcons : ∀ {a as u v}, D a u → L as v → L (a :: as) (u ++ v)) : Reads L (many p) :=
  ⟨fun hp => (h.upTo hnil hcons _).found hp, fun hp => (h.upTo hnil hcons _).broken hp⟩

theorem Reads.orRefuse (h : Reads D p) (refusal : Text → Refusal) :
    Reads D (p.orRefuse refusal) := by
  refine ⟨fun {t a rest} hread => ?_, fun {t count} hread => ?_⟩ <;>
    simp only [Reader.orRefuse] at hread
  · split at hread
    · cases hread
    · exact h.found hread
  · split at hread
    · cases hread
    · exact h.broken hread

/-- A whole text that is read has whitespace around what was taken or none. -/
theorem Reads.complete (h : Reads D p) {t : Text} {a : α} {rest : Text}
    (hread : p.complete t = .found a rest) : ∃ u, Padded u t ∧ D a u := by
  simp only [Reader.complete] at hread
  split at hread
  · rename_i a' rest' hpt
    split at hread
    · rename_i hblank
      cases hread
      obtain ⟨u, htrim, hu⟩ := h.found hpt
      obtain ⟨l, r, ht, hl, hr⟩ := Text.exists_trim t
      rw [htrim] at ht
      exact ⟨u, ⟨l, rest' ++ r, by rw [ht]; simp, hl, Text.isBlank_append.2 ⟨hblank, hr⟩⟩, hu⟩
    · cases hread
  · cases hread
  · cases hread

theorem Reads.complete_broken (h : Reads D p) {t : Text} {count : Nat}
    (hread : p.complete t = .broken (.tooManyDigits count)) : LongFraction count t := by
  simp only [Reader.complete] at hread
  split at hread
  · split at hread <;> cases hread
  · cases hread
  · rename_i e hpt
    cases hread
    obtain ⟨l, r, ht, -, -⟩ := Text.exists_trim t
    exact (h.broken hpt).mono ⟨l, r, by rw [List.append_assoc]; exact ht.symm⟩

end Combinators

end Reader

end Klartext
