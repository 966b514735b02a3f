import Klartext.Proofs.Reader.Basic
import Klartext.Reader.Enumeration

set_option autoImplicit false

/-! # What a search comes to

A search over the pieces of a list tries many that are no items. What matters of it is the result
and how deep it went; the refusals that it gathers on its way come to light only if it finds
nothing in the end. `Search.Yields` bounds both over every state from which a search may go on. It
also admits the one failure that ends a search at once, a number with too many digits behind its
comma: `overlong?` is their number where such a number may be met. -/

namespace Klartext

namespace Enumeration

namespace Search

/-- The search has a result as `Q` says, with at most `depth` items one behind the other, or it ends
    at a number with too many digits. -/
def Yields {β : Type} (overlong? : Option Nat) (depth : Nat) (Q : β → Prop) (s : Search β) :
    Prop :=
  ∀ before : Progress,
    (∃ b after, s before = .ok (b, after) ∧ after.depth ≤ max before.depth depth ∧ Q b) ∨
      ∃ count, overlong? = some count ∧ s before = .error (.tooManyDigits count)

variable {β γ : Type} {overlong? : Option Nat} {depth : Nat} {Q : β → Prop} {R : γ → Prop}
  {s : Search β} {f : β → Search γ}

theorem yields_pure {b : β} (h : Q b) : Yields overlong? depth Q (pure b) :=
  fun before => .inl ⟨b, before, rfl, Nat.le_max_left _ _, h⟩

theorem bind_ok {before between : Progress} {b : β} (h : s before = .ok (b, between)) :
    (s >>= f) before = f b between := by
  show (s before >>= fun parts => f parts.1 parts.2) = _
  rw [h]
  rfl

theorem bind_error {before : Progress} {e : Failure} (h : s before = .error e) :
    (s >>= f) before = .error e := by
  show (s before >>= fun parts => f parts.1 parts.2) = _
  rw [h]
  rfl

theorem bind_eq_ok {before after : Progress} {c : γ} :
    (s >>= f) before = .ok (c, after) ↔
      ∃ b between, s before = .ok (b, between) ∧ f b between = .ok (c, after) := by
  constructor
  · intro h
    cases hs : s before with
    | error e => cases (bind_error hs).symm.trans h
    | ok found => exact ⟨found.1, found.2, rfl, (bind_ok hs).symm.trans h⟩
  · rintro ⟨b, between, hs, hf⟩
    exact (bind_ok hs).trans hf

theorem Yields.bind (hs : Yields overlong? depth Q s)
    (hf : ∀ b, Q b → Yields overlong? depth R (f b)) : Yields overlong? depth R (s >>= f) := by
  intro before
  rcases hs before with ⟨b, between, hs, hdepth, hb⟩ | ⟨count, hcount, hs⟩
  · rw [bind_ok hs]
    rcases hf b hb between with ⟨c, after, hf, hdepth', hc⟩ | hfail
    · exact .inl ⟨c, after, hf, by omega, hc⟩
    · exact .inr hfail
  · exact .inr ⟨count, hcount, bind_error hs⟩

theorem Yields.mono {depth' : Nat} {Q' : β → Prop} (hs : Yields overlong? depth Q s)
    (hdepth : depth ≤ depth') (hQ : ∀ b, Q b → Q' b) : Yields overlong? depth' Q' s := by
  intro before
  rcases hs before with ⟨b, after, hs, hdepth', hb⟩ | hfail
  · exact .inl ⟨b, after, hs, by omega, hQ b hb⟩
  · exact .inr hfail

/-! ## Alternatives -/

section FirstSome

variable {f g : β → Search (Option γ)} {b : β} {bs cs : List β} {c : γ} {before after : Progress}

theorem firstSome_cons :
    firstSome f (b :: bs) before =
      match f b before with
      | .ok (some c, s) => .ok (some c, s)
      | .ok (none, s) => firstSome f bs s
      | .error e => .error e := by
  rw [firstSome]
  cases h : f b before with
  | error e => exact bind_error h
  | ok found =>
      obtain ⟨_ | c, s⟩ := found
      · exact bind_ok h
      · exact bind_ok h

/-- What was found is found again if there are further alternatives behind the others. -/
theorem firstSome_append (hfg : ∀ b ∈ bs, g b = f b)
    (h : firstSome f bs before = .ok (some c, after)) :
    firstSome g (bs ++ cs) before = .ok (some c, after) := by
  induction bs generalizing before with
  | nil => cases h
  | cons b bs ih =>
      rw [List.cons_append]
      rw [firstSome_cons] at h ⊢
      rw [hfg b List.mem_cons_self]
      split at h
      · exact h
      · exact ih (fun b' hb' => hfg b' (List.mem_cons_of_mem b hb')) h
      · cases h

theorem exists_of_firstSome (h : firstSome f bs before = .ok (some c, after)) :
    ∃ b ∈ bs, ∃ s s', f b s = .ok (some c, s') := by
  induction bs generalizing before with
  | nil => cases h
  | cons b bs ih =>
      rw [firstSome_cons] at h
      split at h
      · rename_i hfound
        cases h
        exact ⟨b, List.mem_cons_self, before, after, hfound⟩
      · obtain ⟨b', hb', hfound⟩ := ih h
        exact ⟨b', List.mem_cons_of_mem b hb', hfound⟩
      · cases h

/-- What is found is found among the first alternatives, or it is one of the further ones. -/
theorem firstSome_of_append (hfg : ∀ b ∈ bs, g b = f b)
    (h : firstSome g (bs ++ cs) before = .ok (some c, after)) :
    firstSome f bs before = .ok (some c, after) ∨ ∃ b ∈ cs, ∃ s s', g b s = .ok (some c, s') := by
  induction bs generalizing before with
  | nil => exact .inr (exists_of_firstSome h)
  | cons b bs ih =>
      rw [List.cons_append] at h
      rw [firstSome_cons] at h ⊢
      rw [hfg b List.mem_cons_self] at h
      split at h
      · exact .inl h
      · exact ih (fun b' hb' => hfg b' (List.mem_cons_of_mem b hb')) h
      · cases h

end FirstSome

section Yields

variable {g : β → Search (Option γ)} {P : Option γ → Prop}

theorem yields_firstSome_none {bs : List β}
    (h : ∀ b ∈ bs, Yields overlong? depth (· = none) (g b)) :
    Yields overlong? depth (· = none) (firstSome g bs) := by
  induction bs with
  | nil => exact yields_pure rfl
  | cons b bs ih =>
      refine (h b List.mem_cons_self).bind ?_
      rintro _ rfl
      exact ih fun c hc => h c (List.mem_cons_of_mem b hc)

theorem yields_firstSome_cons {b : β} {bs : List β} (hP : ∀ r, P r → r ≠ none)
    (h : Yields overlong? depth P (g b)) : Yields overlong? depth P (firstSome g (b :: bs)) := by
  refine h.bind ?_
  intro r hr
  cases r with
  | none => exact absurd rfl (hP none hr)
  | some c => exact yields_pure hr

/-- The alternatives before the first that succeeds come to nothing. -/
theorem yields_firstSome_append {before after : List β} {b : β} (hP : ∀ r, P r → r ≠ none)
    (hbefore : ∀ b ∈ before, Yields overlong? depth (· = none) (g b))
    (h : Yields overlong? depth P (g b)) :
    Yields overlong? depth P (firstSome g (before ++ b :: after)) := by
  induction before with
  | nil => exact yields_firstSome_cons hP h
  | cons c before ih =>
      refine (hbefore c List.mem_cons_self).bind ?_
      rintro _ rfl
      exact ih fun d hd => hbefore d (List.mem_cons_of_mem c hd)

/-- One alternative succeeds, and the others come to the same or to nothing. -/
theorem yields_firstSome {bs : List β} (hP : ∀ r, P r → r ≠ none)
    (hall : ∀ b ∈ bs, Yields overlong? depth P (g b) ∨ Yields overlong? depth (· = none) (g b))
    (hone : ∃ b ∈ bs, Yields overlong? depth P (g b)) :
    Yields overlong? depth P (firstSome g bs) := by
  induction bs with
  | nil => simp at hone
  | cons b bs ih =>
      rcases hall b List.mem_cons_self with h | hnone
      · exact yields_firstSome_cons hP h
      · obtain ⟨c, hc, h⟩ := hone
        rcases List.mem_cons.1 hc with rfl | hc
        · exact yields_firstSome_cons hP h
        · refine hnone.bind ?_
          rintro _ rfl
          exact ih (fun d hd => hall d (List.mem_cons_of_mem b hd)) ⟨c, hc, h⟩

end Yields

/-! ## Pieces -/

variable {α : Type}

/-- What was read is no item, or reading broke off at a number with too many digits. -/
def NoItem (overlong? : Option Nat) (r : Reading α) : Prop :=
  r = .missed ∨ (∃ refusal, r = .broken (.refused refusal)) ∨
    ∃ count, overlong? = some count ∧ r = .broken (.tooManyDigits count)

theorem NoItem.mono {o o' : Option Nat} {r : Reading α} (h : NoItem o r)
    (ho : ∀ count, o = some count → o' = some count) : NoItem o' r := by
  rcases h with hmissed | hrefused | ⟨count, hcount, hbroken⟩
  · exact .inl hmissed
  · exact .inr (.inl hrefused)
  · exact .inr (.inr ⟨count, ho count hcount, hbroken⟩)

theorem yields_item?_none {r : Reading α} (h : NoItem overlong? r) :
    Yields overlong? depth (· = none) (item? r) := by
  rcases h with rfl | ⟨refusal, rfl⟩ | ⟨count, hcount, rfl⟩
  · exact yields_pure rfl
  · intro before
    exact .inl ⟨none, ⟨before.refusal.or (some refusal), before.depth⟩, rfl,
      Nat.le_max_left _ _, rfl⟩
  · exact fun before => .inr ⟨count, hcount, rfl⟩

theorem yields_item?_some {o : Option Nat} {a : α} {rest : Text}
    (ho : ∀ count, o = some count → overlong? = some count) :
    Yields overlong? depth (fun r => o = none ∧ r = some a) (item? (.checked o a rest)) := by
  cases o with
  | none => exact yields_pure ⟨rfl, rfl⟩
  | some count => exact fun before => .inr ⟨count, ho count rfl, rfl⟩

/-- What was found behind an item goes one item deeper. -/
theorem Yields.resume {P : Option γ → Prop} {t : Search (Option γ)} {room : Nat}
    (h : Yields overlong? depth P t) (hroom : depth < room) :
    Yields overlong? (depth + 1) P (resume room (t.run .none)) := by
  intro before
  rcases h .none with ⟨r, behind, hrun, hdepth, hr⟩ | ⟨count, hcount, hrun⟩
  · have hbehind : behind.depth ≤ depth := by simpa [Progress.none] using hdepth
    refine .inl ⟨r, ⟨before.refusal.or behind.refusal, max before.depth (behind.depth + 1)⟩,
      ?_, ?_, hr⟩
    · have hfits : ¬ room ≤ behind.depth := by omega
      simp only [StateT.run, hrun, Enumeration.resume, if_neg hfits]
    · simp only
      omega
  · refine .inr ⟨count, hcount, ?_⟩
    rw [StateT.run, hrun, Enumeration.resume]

end Search

end Enumeration

end Klartext
