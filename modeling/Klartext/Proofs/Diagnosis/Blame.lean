import Klartext.Proofs.Rules.Enumeration

set_option autoImplicit false

/-! # What a refusal is about

Not every reader refuses, but every reader hands on what is refused further down, and it comes to light
with the rest that belongs to it, although the text around it may have been cut and trimmed several
times by then. `Reader.Blames C p` says that whatever `p` refuses, it is about a part of its text of
which `C` holds together with the refusal. One lemma for each combinator, so that only the one rule
that does refuse has to be looked at. -/

namespace Klartext

namespace Reader

/-- What the reader refuses is about a part of its text as `C` says, and what it leaves ends its
    text. -/
structure Blames {α : Type} (C : Refusal → Text → Prop) (p : Reader α) : Prop where
  suffix : ∀ {t : Text} {a : α} {rest : Text}, p t = .found a rest → rest <:+ t
  refused : ∀ {t : Text} {r : Refusal}, p t = .broken (.refused r) → ∃ u, u <:+: t ∧ C r u

/-! ## Readers of words -/

section Words

variable {α β : Type} {C : Refusal → Text → Prop} {D : α → Text → Prop} {p : Reader α}
  {f : α → Reader β}

/-- What a sequence breaks off at behind a reader that does not. -/
theorem exists_of_bind_broken (hp : Reads D p) (hquiet : NeverBreaks p) {t : Text} {e : Failure}
    (h : (p >>= f) t = .broken e) : ∃ a u v, t = u ++ v ∧ D a u ∧ f a v = .broken e := by
  obtain ⟨a, v, hpt, hread⟩ := (bind_eq_broken.1 h).resolve_left (hquiet t e)
  obtain ⟨u, rfl, hu⟩ := hp.found hpt
  exact ⟨a, u, v, rfl, hu, hread⟩

theorem blames_of_neverBreaks (h : Reads D p) (hquiet : NeverBreaks p) : Blames C p := by
  refine ⟨fun hread => ?_, fun hread => absurd hread (hquiet _ _)⟩
  obtain ⟨u, rfl, -⟩ := h.found hread
  exact List.suffix_append u _

theorem blames_phrase (s : String) : Blames C (phrase s) :=
  blames_of_neverBreaks (reads_phrase s) (neverBreaks_phrase s)

theorem blames_blanks : Blames C blanks :=
  blames_of_neverBreaks reads_blanks neverBreaks_blanks

theorem blames_blanks1 : Blames C blanks1 :=
  blames_of_neverBreaks reads_blanks1 neverBreaks_blanks1

theorem blames_nameUntil (terminator : Text) {excluded : List Text} (h : "!".toList ∈ excluded) :
    Blames C (nameUntil terminator excluded) :=
  blames_of_neverBreaks (reads_nameUntil terminator h) (neverBreaks_nameUntil terminator excluded)

theorem blames_digits : Blames C (digits (some '.')) :=
  blames_of_neverBreaks reads_digits (neverBreaks_digits _)

theorem blames_literal (s : Text) : Blames C (literal s) :=
  blames_of_neverBreaks (reads_literal s) (neverBreaks_literal s)

/-- Too many digits are a failure of another kind. -/
theorem blames_wholeNumber (ds : Text) : Blames C (wholeNumber ds) := by
  rw [wholeNumber]
  split
  · refine ⟨fun h => ?_, fun h => ?_⟩ <;> cases h
  · refine ⟨fun h => ?_, fun h => ?_⟩ <;> cases h
    exact List.suffix_rfl

end Words

/-! ## Combinators -/

section Combinators

variable {α β : Type} {C C' : Refusal → Text → Prop} {p q : Reader α} {f : α → Reader β}

theorem Blames.mono (h : Blames C p) (hC : ∀ r u, C r u → C' r u) : Blames C' p := by
  refine ⟨h.suffix, fun hread => ?_⟩
  obtain ⟨u, hu, hr⟩ := h.refused hread
  exact ⟨u, hu, hC _ _ hr⟩

theorem blames_pure (a : α) : Blames C (pure a : Reader α) := by
  refine ⟨fun hread => ?_, nofun⟩
  cases hread
  exact List.suffix_rfl

theorem blames_miss : Blames C (miss : Reader α) := ⟨nofun, nofun⟩

theorem Blames.bind (hp : Blames C p) (hf : ∀ a, Blames C (f a)) : Blames C (p >>= f) := by
  refine ⟨fun h => ?_, fun h => ?_⟩
  · obtain ⟨a, between, hpt, hread⟩ := bind_eq_found.1 h
    exact ((hf a).suffix hread).trans (hp.suffix hpt)
  · rcases bind_eq_broken.1 h with hpt | ⟨a, between, hpt, hread⟩
    · exact hp.refused hpt
    · obtain ⟨u, hu, hr⟩ := (hf a).refused hread
      exact ⟨u, hu.trans (hp.suffix hpt).isInfix, hr⟩

theorem Blames.orElse (hp : Blames C p) (hq : Blames C q) : Blames C (p <|> q) := by
  refine ⟨fun h => ?_, fun h => ?_⟩
  · rcases orElse_eq_found.1 h with hpt | ⟨-, hqt⟩
    · exact hp.suffix hpt
    · exact hq.suffix hqt
  · rcases orElse_eq_broken.1 h with hpt | ⟨-, hqt⟩
    · exact hp.refused hpt
    · exact hq.refused hqt

theorem blames_firstOf {readers : List (Reader α)} (h : ∀ s ∈ readers, Blames C s) :
    Blames C (firstOf readers) := by
  induction readers with
  | nil => exact blames_miss
  | cons s others ih =>
      exact (h s List.mem_cons_self).orElse (ih fun s' hs' => h s' (List.mem_cons_of_mem s hs'))

theorem Blames.optional (h : Blames C p) : Blames C (optional p) :=
  (h.bind fun _ => blames_pure _).orElse (blames_pure none)

theorem Blames.upTo (h : Blames C p) (bound : Nat) : Blames C (upTo p bound) := by
  induction bound with
  | zero => exact blames_pure []
  | succ bound ih =>
      have hmore (a : α) : Blames C (do return a :: (← Reader.upTo p bound)) :=
        ih.bind fun _ => blames_pure _
      refine ⟨fun hread => ?_, fun hread => ?_⟩
      · rcases upTo_succ_eq_found.1 hread with ⟨a, between, hpt, -, hothers⟩ | ⟨rfl, rfl, -⟩
        · exact ((hmore a).suffix hothers).trans (h.suffix hpt)
        · exact List.suffix_rfl
      · rcases upTo_succ_eq_broken.1 hread with hpt | ⟨a, between, hpt, -, hothers⟩
        · exact h.refused hpt
        · obtain ⟨u, hu, hr⟩ := (hmore a).refused hothers
          exact ⟨u, hu.trans (h.suffix hpt).isInfix, hr⟩

theorem Blames.many (h : Blames C p) : Blames C (many p) :=
  ⟨fun hread => (h.upTo _).suffix hread, fun hread => (h.upTo _).refused hread⟩

theorem Blames.manyUntil (h : Blames C p) (closing : String) : Blames C (manyUntil p closing) := by
  have hgo (bound : Nat) : Blames C (manyUntil.go p closing bound) := by
    induction bound with
    | zero => exact blames_miss
    | succ bound ih =>
        refine blames_blanks.bind fun _ => .orElse ?_ ?_
        · exact (blames_phrase closing).bind fun _ => blames_pure []
        · exact h.bind fun a => ih.bind fun as => blames_pure _
  exact ⟨fun hread => (hgo _).suffix hread, fun hread => (hgo _).refused hread⟩

/-- What is refused in a text without the whitespace around it is refused in the text. -/
theorem Blames.complete_refused (h : Blames C p) {t : Text} {r : Refusal}
    (hread : p.complete t = .broken (.refused r)) : ∃ u, u <:+: t ∧ C r u := by
  simp only [Reader.complete] at hread
  split at hread
  · split at hread <;> cases hread
  · cases hread
  · rename_i e hpt
    cases hread
    obtain ⟨u, hu, hr⟩ := h.refused hpt
    obtain ⟨before, behind, ht, -, -⟩ := Text.exists_trim t
    exact ⟨u, hu.trans ⟨before, behind, by rw [List.append_assoc]; exact ht.symm⟩, hr⟩

end Combinators

end Reader

/-! ## What a search remembers -/

namespace Enumeration

namespace Search

/-- `Q` holds of the refusal that the search remembers in the end, if it held of the one before; and
    the search does not end at a refusal. -/
structure Remembers {β : Type} (Q : Refusal → Prop) (s : Search β) : Prop where
  ok : ∀ {before after : Progress} {b : β}, s before = .ok (b, after) →
    (∀ r ∈ before.refusal, Q r) → ∀ r ∈ after.refusal, Q r
  error : ∀ {before : Progress} {r : Refusal}, s before ≠ .error (.refused r)

variable {β γ : Type} {Q : Refusal → Prop} {s : Search β}

theorem remembers_pure (b : β) : Remembers Q (pure b : Search β) := by
  refine ⟨fun hrun hbefore => ?_, nofun⟩
  cases hrun
  exact hbefore

theorem Remembers.bind {f : β → Search γ} (hs : Remembers Q s) (hf : ∀ b, Remembers Q (f b)) :
    Remembers Q (s >>= f) := by
  have hrun (before : Progress) :
      (s >>= f) before = (s before >>= fun parts => f parts.1 parts.2) := rfl
  refine ⟨fun {before after c} h hbefore => ?_, fun {before r} h => ?_⟩ <;> rw [hrun] at h
  · cases hb : s before with
    | error e => rw [hb] at h; cases h
    | ok parts => rw [hb] at h; exact (hf parts.1).ok h (hs.ok hb hbefore)
  · cases hb : s before with
    | error e => rw [hb] at h; cases h; exact hs.error hb
    | ok parts => rw [hb] at h; exact (hf parts.1).error h

/-- A search that goes on with what another one found, or without it. -/
theorem Remembers.elim {s : Search (Option β)} {f : Option β → Search γ} (hs : Remembers Q s)
    (hnone : Remembers Q (f none)) (hsome : ∀ b, Remembers Q (f (some b))) :
    Remembers Q (s >>= f) := by
  refine hs.bind fun r => ?_
  cases r with
  | none => exact hnone
  | some b => exact hsome b

theorem remembers_firstSome {f : β → Search (Option γ)} (h : ∀ b, Remembers Q (f b)) (bs : List β) :
    Remembers Q (firstSome f bs) := by
  induction bs with
  | nil => exact remembers_pure none
  | cons b bs ih => exact (h b).elim ih fun c => remembers_pure (some c)

theorem forall_mem_or {o o' : Option Refusal} (h : ∀ r ∈ o, Q r) (h' : ∀ r ∈ o', Q r) :
    ∀ r ∈ o.or o', Q r := by
  cases o with
  | none => exact h'
  | some r => exact h

/-- The refusal of a piece is remembered. -/
theorem remembers_item? {α : Type} {reading : Reading α}
    (h : ∀ {r}, reading = .broken (.refused r) → Q r) : Remembers Q (item? reading) := by
  match reading with
  | .found a rest => exact remembers_pure (some a)
  | .missed => exact remembers_pure none
  | .broken (.refused r) =>
      refine ⟨fun hrun hbefore => ?_, nofun⟩
      cases hrun
      refine forall_mem_or hbefore fun r' hr' => ?_
      cases hr'
      exact h rfl
  | .broken .tooDeep => exact ⟨nofun, nofun⟩
  | .broken (.tooManyDigits count) => exact ⟨nofun, nofun⟩

theorem Remembers.resume {s : Search (Option γ)} (h : Remembers Q s) (room : Nat) :
    Remembers Q (resume room (s.run .none)) := by
  refine ⟨fun {before after r} hrun hbefore => ?_, fun {before r} hrun => ?_⟩ <;>
    rw [StateT.run] at hrun
  · cases hs : s .none with
    | error e => rw [hs] at hrun; cases hrun
    | ok findings =>
        rw [hs] at hrun
        simp only [Enumeration.resume] at hrun
        split at hrun
        · cases hrun
        · cases hrun
          exact forall_mem_or hbefore (h.ok hs fun r hr => absurd hr (Option.not_mem_none r))
  · cases hs : s .none with
    | error e => rw [hs] at hrun; cases hrun; exact h.error hs
    | ok findings =>
        rw [hs] at hrun
        simp only [Enumeration.resume] at hrun
        split at hrun <;> cases hrun

end Search

open Search

section Pieces

variable {α : Type} {Q : Refusal → Prop} {piece : Nat → Nat → Search (Option α)} {room : Nat}
  (hpiece : ∀ start stop, Remembers Q (piece start stop))
include hpiece

theorem heads_remembers (stop least start : Nat) (separators : List Span) :
    Remembers Q (heads piece room stop least start (tailsOf piece room stop separators)) := by
  induction separators generalizing least start with
  | nil =>
      simp only [tailsOf, heads]
      split
      · exact (hpiece start stop).elim (remembers_pure none) fun a => remembers_pure _
      · exact remembers_pure none
  | cons separator separators ih =>
      refine (hpiece start separator.start).elim (ih least start) fun a => ?_
      exact ((ih 1 separator.stop).resume room).elim (ih least start) fun others =>
        remembers_pure _

theorem items_remembers (separators joins : List Span) (length : Nat) :
    Remembers Q (items piece room separators joins length) := by
  -- whatever is tried, only pieces are read, and each time their refusals are remembered
  have hthree (join : Span) : Remembers Q (threeAt piece room separators length join) := by
    refine (heads_remembers hpiece _ _ _ _).elim (remembers_pure none) fun others => ?_
    exact (hpiece join.stop length).elim (remembers_pure none) fun a => remembers_pure _
  have htwo (join : Span) : Remembers Q (twoAt piece length join) := by
    refine (hpiece 0 join.start).elim (remembers_pure none) fun a => ?_
    exact (hpiece join.stop length).elim (remembers_pure none) fun b => remembers_pure _
  have hone : Remembers Q (oneAt piece length) :=
    (hpiece 0 length).elim (remembers_pure none) fun a => remembers_pure _
  rw [items_eq]
  refine (remembers_firstSome hthree _).elim ?_ fun found => remembers_pure _
  exact (remembers_firstSome htwo _).elim hone fun found => remembers_pure _

end Pieces

end Enumeration

/-- What comes to light of a list that is not found is the refusal of one of its pieces. -/
theorem Reader.Blames.listUntil {α : Type} {C : Refusal → Text → Prop} {item : Reader α}
    (h : Blames C item) (terminator : Text) (room : Nat) :
    Blames C (listUntil terminator item room) := by
  -- a piece of the list is a piece of the text, so that what is to blame stands in the text
  have hlist (t : Text) (index : Nat) : Enumeration.Search.Remembers (fun r => ∃ u, u <:+: t ∧ C r u)
      (Enumeration.listAt item room t index) := by
    refine Enumeration.Search.Remembers.elim ?_ (Enumeration.Search.remembers_pure none) fun found =>
      Enumeration.Search.remembers_pure _
    rw [Enumeration.itemsOf_eq]
    refine Enumeration.items_remembers (fun start stop =>
      Enumeration.Search.remembers_item? fun hread => ?_) _ _ _
    obtain ⟨u, hu, hr⟩ := h.complete_refused hread
    have hpiece := (Text.slice_isInfix (t.take index) start stop).trans
      (List.take_prefix index t).isInfix
    exact ⟨u, hu.trans hpiece, hr⟩
  have hsearch (t : Text) := Enumeration.Search.remembers_firstSome (hlist t)
    (Text.occurrences terminator t)
  refine ⟨fun {t as rest} hread => ?_, fun {t r} hread => ?_⟩ <;>
    rw [Enumeration.listUntil_eq] at hread
  · split at hread
    · cases hread
      exact List.drop_suffix _ t
    · cases hread
    · cases hread
    · cases hread
  · split at hread
    · cases hread
    · rename_i refusal depth hrun
      cases hread
      exact (hsearch t).ok hrun nofun _ rfl
    · cases hread
    · rename_i e hrun
      cases hread
      exact absurd hrun (hsearch t).error

end Klartext
