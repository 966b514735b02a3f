import Klartext.Proofs.Enumeration.Written

set_option autoImplicit false

/-! # Readers that follow more deeply

A reader that breaks off at the depth of nesting has not decided anything about its text. One that
*deepens* it (`Reader.Deepens`) reads everything else as it does, misses and refusals included. The
combinators keep this, because none of them goes on after the depth of nesting was reached: neither
an alternative, nor a repetition, nor the search for the items of a list, which gathers refusals and
goes on after them. -/

namespace Klartext

namespace Reader

variable {α β γ : Type}

/-- The second reader reads what the first one reads, except for the texts at which the first one
    breaks off at the depth of nesting. -/
def Deepens (p q : Reader α) : Prop := ∀ t, p t = .broken .tooDeep ∨ p t = q t

theorem deepens_refl (p : Reader α) : Deepens p p := fun _ => .inr rfl

theorem deepens_breakOff (q : Reader α) : Deepens (breakOff .tooDeep) q := fun _ => .inl rfl

section Combinators

variable {p q p' q' : Reader α}

theorem Deepens.bind {f g : α → Reader β} (h : Deepens p q) (hf : ∀ a, Deepens (f a) (g a)) :
    Deepens (p >>= f) (q >>= g) := by
  intro t
  rw [bind_apply, bind_apply]
  rcases h t with hp | hpq
  · exact .inl (by rw [hp])
  · rw [← hpq]
    cases p t with
    | found a rest => exact hf a rest
    | missed => exact .inr rfl
    | broken e => exact .inr rfl

theorem Deepens.andThen {f : α → Reader β} (h : Deepens p q) : Deepens (p >>= f) (q >>= f) :=
  h.bind fun a => deepens_refl (f a)

theorem deepens_bind {f g : α → Reader β} (hf : ∀ a, Deepens (f a) (g a)) :
    Deepens (p >>= f) (p >>= g) :=
  (deepens_refl p).bind hf

theorem Deepens.orElse (h : Deepens p q) (h' : Deepens p' q') :
    Deepens (p <|> p') (q <|> q') := by
  intro t
  rw [orElse_apply, orElse_apply]
  rcases h t with hp | hpq
  · exact .inl (by rw [hp])
  · rw [← hpq]
    cases p t with
    | found a rest => exact .inr rfl
    | missed => exact h' t
    | broken e => exact .inr rfl

theorem deepens_firstOf {f g : γ → Reader α} {cs : List γ} (h : ∀ c ∈ cs, Deepens (f c) (g c)) :
    Deepens (firstOf (cs.map f)) (firstOf (cs.map g)) := by
  induction cs with
  | nil => exact deepens_refl miss
  | cons c cs ih =>
      exact (h c List.mem_cons_self).orElse (ih fun c' hc' => h c' (List.mem_cons_of_mem c hc'))

theorem Deepens.optional (h : Deepens p q) : Deepens (optional p) (optional q) :=
  h.andThen.orElse (deepens_refl _)

theorem Deepens.upTo (h : Deepens p q) (bound : Nat) : Deepens (upTo p bound) (upTo q bound) := by
  induction bound with
  | zero => exact deepens_refl _
  | succ bound ih =>
      intro t
      rw [upTo_succ, upTo_succ]
      rcases h t with hp | hpq
      · exact .inl (by rw [hp])
      · rw [← hpq]
        cases p t with
        | found a rest =>
            simp only
            split
            · exact ih.andThen rest
            · exact .inr rfl
        | missed => exact .inr rfl
        | broken e => exact .inr rfl

theorem Deepens.many (h : Deepens p q) : Deepens (many p) (many q) :=
  fun t => h.upTo (t.length + 1) t

theorem Deepens.complete (h : Deepens p q) : Deepens p.complete q.complete := by
  intro t
  simp only [Reader.complete]
  rcases h t.trim with hp | hpq
  · exact .inl (by rw [hp])
  · exact .inr (by rw [hpq])

theorem Deepens.orRefuse (h : Deepens p q) (refusal : Text → Refusal) :
    Deepens (p.orRefuse refusal) (q.orRefuse refusal) := by
  intro t
  simp only [Reader.orRefuse]
  rcases h t with hp | hpq
  · exact .inl (by rw [hp])
  · exact .inr (by rw [hpq])

theorem Deepens.manyUntil (h : Deepens p q) (closing : String) :
    Deepens (manyUntil p closing) (manyUntil q closing) := by
  have hgo (bound : Nat) : Deepens (manyUntil.go p closing bound) (manyUntil.go q closing bound) := by
    induction bound with
    | zero => exact deepens_refl _
    | succ bound ih =>
        exact deepens_bind fun _ => (deepens_refl _).orElse (h.bind fun _ => ih.andThen)
  exact fun t => hgo (t.length + 1) t

end Combinators

end Reader

/-! ## Lists -/

namespace Enumeration

namespace Search

variable {β γ : Type}

/-- The second search comes to what the first one comes to, from every progress from which the first
    one does not end at the depth of nesting. -/
def Deepens (s s' : Search β) : Prop := ∀ before, s before = .error .tooDeep ∨ s before = s' before

theorem deepens_refl (s : Search β) : Deepens s s := fun _ => .inr rfl

theorem Deepens.bind {s s' : Search β} {f g : β → Search γ} (h : Deepens s s')
    (hf : ∀ b, Deepens (f b) (g b)) : Deepens (s >>= f) (s' >>= g) := by
  intro before
  have hrun (s : Search β) (f : β → Search γ) :
      (s >>= f) before = (s before >>= fun parts => f parts.1 parts.2) := rfl
  rw [hrun, hrun]
  rcases h before with hs | hs
  · rw [hs]
    exact .inl rfl
  · rw [← hs]
    cases s before with
    | error e => exact .inr rfl
    | ok parts => exact hf parts.1 parts.2

/-- A search that goes on with what another one found, or without it. -/
theorem Deepens.elim {s s' : Search (Option β)} {f g : Option β → Search γ} (h : Deepens s s')
    (hnone : Deepens (f none) (g none)) (hsome : ∀ b, Deepens (f (some b)) (g (some b))) :
    Deepens (s >>= f) (s' >>= g) := by
  refine h.bind fun r => ?_
  cases r with
  | none => exact hnone
  | some b => exact hsome b

theorem deepens_firstSome {f g : β → Search (Option γ)} (h : ∀ b, Deepens (f b) (g b))
    (bs : List β) : Deepens (firstSome f bs) (firstSome g bs) := by
  induction bs with
  | nil => exact deepens_refl _
  | cons b bs ih => exact (h b).elim ih fun c => deepens_refl _

/-- A piece that is nested too deeply is no item that could be left out: it ends the search. -/
theorem deepens_item? {α : Type} {p q : Reader α} (h : Reader.Deepens p q) (t : Text) :
    Deepens (item? (p t)) (item? (q t)) := by
  intro before
  rcases h t with hp | hpq
  · exact .inl (by rw [hp]; rfl)
  · exact .inr (by rw [hpq])

theorem Deepens.resume {s s' : Search (Option β)} {room room' : Nat} (h : Deepens s s')
    (hroom : room ≤ room') :
    Deepens (resume room (s.run .none)) (resume room' (s'.run .none)) := by
  intro before
  simp only [StateT.run]
  rcases h .none with hs | hs
  · exact .inl (by rw [hs]; rfl)
  · rw [← hs]
    cases s .none with
    | error e => exact .inr rfl
    | ok findings =>
        simp only [Enumeration.resume]
        by_cases hdepth : room ≤ findings.2.depth
        · exact .inl (if_pos hdepth)
        · by_cases hdepth' : room' ≤ findings.2.depth
          · exact absurd (Nat.le_trans hroom hdepth') hdepth
          · exact .inr (by rw [if_neg hdepth, if_neg hdepth'])

end Search

open Search

section Pieces

variable {α : Type} {piece piece' : Nat → Nat → Search (Option α)} {room room' : Nat}
  (hpiece : ∀ start stop, Deepens (piece start stop) (piece' start stop)) (hroom : room ≤ room')
include hpiece hroom

theorem deepens_heads (stop least start : Nat) (separators : List Span) :
    Deepens (heads piece room stop least start (tailsOf piece room stop separators))
      (heads piece' room' stop least start (tailsOf piece' room' stop separators)) := by
  induction separators generalizing least start with
  | nil =>
      simp only [tailsOf, heads]
      split
      · exact (hpiece start stop).elim (deepens_refl _) fun a => deepens_refl _
      · exact deepens_refl _
  | cons separator separators ih =>
      refine (hpiece start separator.start).elim (ih least start) fun a => ?_
      exact ((ih 1 separator.stop).resume hroom).elim (ih least start) fun others => deepens_refl _

theorem deepens_items (separators joins : List Span) (length : Nat) :
    Deepens (items piece room separators joins length)
      (items piece' room' separators joins length) := by
  have hthree (join : Span) : Deepens (threeAt piece room separators length join)
      (threeAt piece' room' separators length join) := by
    refine (deepens_heads hpiece hroom _ _ _ _).elim (deepens_refl _) fun others => ?_
    exact (hpiece join.stop length).elim (deepens_refl _) fun a => deepens_refl _
  have htwo (join : Span) : Deepens (twoAt piece length join) (twoAt piece' length join) := by
    refine (hpiece 0 join.start).elim (deepens_refl _) fun a => ?_
    exact (hpiece join.stop length).elim (deepens_refl _) fun b => deepens_refl _
  have hone : Deepens (oneAt piece length) (oneAt piece' length) :=
    (hpiece 0 length).elim (deepens_refl _) fun a => deepens_refl _
  rw [items_eq, items_eq]
  refine (deepens_firstSome hthree _).elim ?_ fun found => deepens_refl _
  exact (deepens_firstSome htwo _).elim hone fun found => deepens_refl _

end Pieces

end Enumeration

theorem Reader.Deepens.listUntil {α : Type} {item item' : Reader α} {room room' : Nat}
    (h : Deepens item item') (hroom : room ≤ room') (terminator : Text) :
    Deepens (listUntil terminator item room) (listUntil terminator item' room') := by
  intro t
  have hlist (index : Nat) : Enumeration.Search.Deepens (Enumeration.listAt item room t index)
      (Enumeration.listAt item' room' t index) := by
    refine Enumeration.Search.Deepens.elim ?_ (Enumeration.Search.deepens_refl _)
      fun found => Enumeration.Search.deepens_refl _
    rw [Enumeration.itemsOf_eq, Enumeration.itemsOf_eq]
    exact Enumeration.deepens_items
      (fun start stop => Enumeration.Search.deepens_item? h.complete _) hroom _ _ _
  rw [Enumeration.listUntil_eq, Enumeration.listUntil_eq]
  rcases Enumeration.Search.deepens_firstSome hlist (Text.occurrences terminator t) .none with hs | hs
  · exact .inl (by rw [hs])
  · exact .inr (by rw [hs])

end Klartext
