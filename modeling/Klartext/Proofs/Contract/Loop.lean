import Klartext.Proofs.Contract.Words

set_option autoImplicit false

/-! # Loops end

The two loops of the combinators, as what they do step by step. Nothing in them bounds the number of
steps, so that they could go on for ever; they do not, if each value takes something off the text.
Then they find at most as many values as the text has characters, and the extractors, which count
their steps, never run out of them. -/

namespace Klartext

namespace Extractor

variable {α : Type}

/-! ## Steps -/

/-- What a loop comes to. -/
abbrev Outcome (α : Type) : Type := Except Failure (Option (List α) × Text)

/-- A value before those that a loop finds. -/
def before (a : α) (outcome : Outcome α) : Outcome α :=
  outcome.map fun answer => (answer.1.map (a :: ·), answer.2)

/-- Finds values as long as there is one and something is taken. From a text on the loop comes upon
    a number of values, and then it ends. -/
inductive Repeats (p : Extractor α) : Text → Nat → Outcome α → Prop where
  | raised {t : Text} {e : Failure} (h : p t = .error e) : Repeats p t 0 (.error e)
  | ended {t rest : Text} (h : p t = .ok (none, rest)) : Repeats p t 0 (.ok (some [], t))
  | stuck {t : Text} {a : α} (h : p t = .ok (some a, t)) : Repeats p t 0 (.ok (some [], t))
  | next {t rest : Text} {a : α} {n : Nat} {outcome : Outcome α} (h : p t = .ok (some a, rest))
      (hne : rest ≠ t) (hrest : Repeats p rest n outcome) :
      Repeats p t (n + 1) (before a outcome)

/-- Finds values up to a closing phrase, with whitespace before each of them and before the phrase.
    Where neither a value nor the phrase stands, the whole text is left. -/
inductive RepeatsUntil (closing : String) (p : Extractor α) (whole : Text) :
    Text → Nat → Outcome α → Prop where
  | closed {t rest : Text} (h : phrase closing (t.dropWhile isBlank) = .ok (some (), rest)) :
      RepeatsUntil closing p whole t 0 (.ok (some [], rest))
  | raised {t rest : Text} {e : Failure}
      (hopen : phrase closing (t.dropWhile isBlank) = .ok (none, rest))
      (h : p (t.dropWhile isBlank) = .error e) : RepeatsUntil closing p whole t 0 (.error e)
  | missed {t rest rest' : Text}
      (hopen : phrase closing (t.dropWhile isBlank) = .ok (none, rest))
      (h : p (t.dropWhile isBlank) = .ok (none, rest')) :
      RepeatsUntil closing p whole t 0 (.ok (none, whole))
  | next {t rest rest' : Text} {a : α} {n : Nat} {outcome : Outcome α}
      (hopen : phrase closing (t.dropWhile isBlank) = .ok (none, rest))
      (h : p (t.dropWhile isBlank) = .ok (some a, rest'))
      (hrest : RepeatsUntil closing p whole rest' n outcome) :
      RepeatsUntil closing p whole t (n + 1) (before a outcome)

/-- On every text the loop ends in one way only, with at most one value for each character, and what
    it comes to is what the extractor gives. -/
def Runs (loop : Text → Nat → Outcome α → Prop) (q : Extractor (List α)) : Prop :=
  ∀ t, ∃ n ≤ t.length, loop t n (q t) ∧
    ∀ n' outcome, loop t n' outcome → n' = n ∧ outcome = q t

/-! ## Extractors -/

/-- Values off what is left of a text, at most `bound` of them. -/
def manyFrom (p : Extractor α) : (bound : Nat) → Extractor (List α)
  | 0, rest => return (some [], rest)
  | bound + 1, rest => do
    let (some a, after) ← p rest | return (some [], rest)
    if after = rest then return (some [], rest) else before a (manyFrom p bound after)

/-- Values as long as there is one and something is taken. -/
def many (p : Extractor α) : Extractor (List α) := fun t => manyFrom p (t.length + 1) t

/-- Values off what is left of the whole text, fewer than `bound` of them, up to the closing
    phrase. -/
def multipleFrom (closing : String) (p : Extractor α) (whole : Text) :
    (bound : Nat) → Extractor (List α)
  | 0, _ => return (none, whole)
  | bound + 1, t => do
    let (_, rest) ← whitespace t
    if let (some _, after) ← phrase closing rest then return (some [], after)
    let (some a, after) ← p rest | return (none, whole)
    before a (multipleFrom closing p whole bound after)

/-- Values up to a closing phrase, which is taken too. -/
def multipleUntil (closing : String) (p : Extractor α) : Extractor (List α) := fun t =>
  multipleFrom closing p t (t.length + 1) t

section Readers

variable {p : Extractor α} {q : Reader α}

theorem Answers.before {whole rest : Text} {outcome : Outcome α} {q : Reader (List α)}
    (h : Answers whole outcome (q rest)) (a : α) :
    Answers whole (before a outcome) ((do return a :: (← q)) rest) := by
  rw [Reader.bind_apply]
  generalize q rest = x at h
  cases h with
  | found h => exact .found h
  | missed => exact .missed
  | broken e => exact .broken e

theorem reports_many (h : Reports p q) : Reports (many p) (Reader.many q) := by
  have hfrom (bound : Nat) {whole rest : Text} (hrest : rest <:+ whole) :
      Answers whole (manyFrom p bound rest) (Reader.upTo q bound rest) := by
    induction bound generalizing rest with
    | zero => exact .found hrest
    | succ bound ih =>
        rw [manyFrom, Reader.upTo_succ]
        refine h.elim (fun a after hafter => ?_) (.found hrest) .broken
        show Answers whole (if after = rest then .ok (some [], rest) else _)
          (if after.length < rest.length then (do return a :: (← Reader.upTo q bound)) after
            else .found [] rest)
        by_cases hsame : after = rest
        · rw [if_pos hsame, if_neg (by rw [hsame]; exact Nat.lt_irrefl _)]
          exact .found hrest
        · have hshorter : after.length < rest.length :=
            Nat.lt_of_le_of_ne hafter.length_le fun heq => hsame (hafter.eq_of_length heq)
          rw [if_neg hsame, if_pos hshorter]
          exact (ih (hafter.trans hrest)).before a
  exact fun _ => hfrom _ List.suffix_rfl

theorem reports_multipleUntil (h : Reports p q) (closing : String) :
    Reports (multipleUntil closing p) (Reader.manyUntil q closing) := by
  have hfrom (bound : Nat) {whole t : Text} (ht : t <:+ whole) :
      Answers whole (multipleFrom closing p whole bound t)
        (Reader.manyUntil.go q closing bound t) := by
    induction bound generalizing t with
    | zero => exact .missed
    | succ bound ih =>
        rw [multipleFrom, Reader.manyUntil.go, Reader.bind_apply]
        have hrest : t.dropWhile isBlank <:+ whole := (List.dropWhile_suffix isBlank).trans ht
        show Answers whole (do
            if let (some _, after) ← phrase closing (t.dropWhile isBlank) then
              return (some [], after)
            let (some a, after) ← p (t.dropWhile isBlank) | return (none, whole)
            Extractor.before a (multipleFrom closing p whole bound after))
          (((do Reader.phrase closing; return []) <|> (do
            return (← q) :: (← Reader.manyUntil.go q closing bound)) : Reader (List α))
              (t.dropWhile isBlank))
        rw [Reader.orElse_apply, Reader.bind_apply, Reader.bind_apply]
        refine (reports_phrase closing).elim (fun _ after hafter => .found (hafter.trans hrest)) ?_
          .broken
        exact h.elim (fun a after hafter => (ih (hafter.trans hrest)).before a) .missed .broken
  exact fun _ => hfrom _ List.suffix_rfl

end Readers

/-! ## One way only -/

theorem Repeats.unique {p : Extractor α} {t : Text} {n n' : Nat} {outcome outcome' : Outcome α}
    (h : Repeats p t n outcome) (h' : Repeats p t n' outcome') : n' = n ∧ outcome' = outcome := by
  induction h generalizing n' outcome' with
  | raised h => cases h' <;> simp_all
  | ended h => cases h' <;> simp_all
  | stuck h => cases h' <;> simp_all
  | next h hne _ ih =>
      cases h' with
      | raised h' | ended h' => rw [h] at h'; cases h'
      | stuck h' => rw [h] at h'; cases h'; exact absurd rfl hne
      | next h' _ hrest' =>
          rw [h] at h'
          cases h'
          obtain ⟨rfl, rfl⟩ := ih hrest'
          exact ⟨rfl, rfl⟩

theorem RepeatsUntil.unique {closing : String} {p : Extractor α} {whole t : Text} {n n' : Nat}
    {outcome outcome' : Outcome α} (h : RepeatsUntil closing p whole t n outcome)
    (h' : RepeatsUntil closing p whole t n' outcome') : n' = n ∧ outcome' = outcome := by
  induction h generalizing n' outcome' with
  | closed h => cases h' <;> simp_all
  | raised hopen h => cases h' <;> simp_all
  | missed hopen h => cases h' <;> simp_all
  | next hopen h _ ih =>
      cases h' with
      | closed h' => rw [hopen] at h'; cases h'
      | raised _ h' | missed _ h' => rw [h] at h'; cases h'
      | next _ h' hrest' =>
          rw [h] at h'
          cases h'
          obtain ⟨rfl, rfl⟩ := ih hrest'
          exact ⟨rfl, rfl⟩

/-! ## They end -/

/-- A value of a loop that obeys takes something, so that the bound is never reached. -/
theorem runs_many {p : Extractor α} (h : Obeys p) : Runs (Repeats p) (many p) := by
  have hfrom (bound : Nat) (t : Text) (hbound : t.length < bound) :
      ∃ n ≤ t.length, Repeats p t n (manyFrom p bound t) := by
    induction bound generalizing t with
    | zero => exact absurd hbound (Nat.not_lt_zero _)
    | succ bound ih =>
        rw [manyFrom]
        rcases hp : p t with e | ⟨_ | a, rest⟩
        · exact ⟨0, Nat.zero_le _, .raised hp⟩
        · exact ⟨0, Nat.zero_le _, .ended hp⟩
        · show ∃ n ≤ t.length, Repeats p t n
            (if rest = t then .ok (some [], t) else before a (manyFrom p bound rest))
          by_cases hsame : rest = t
          · rw [if_pos hsame]
            exact ⟨0, Nat.zero_le _, .stuck (hsame ▸ hp)⟩
          · have hshorter : rest.length < t.length := by
              have hsuffix := h.suffix hp
              exact Nat.lt_of_le_of_ne hsuffix.length_le fun heq => hsame (hsuffix.eq_of_length heq)
            obtain ⟨n, hn, hrest⟩ := ih rest (by omega)
            rw [if_neg hsame]
            exact ⟨n + 1, by omega, .next hp hsame hrest⟩
  intro t
  obtain ⟨n, hn, hloop⟩ := hfrom (t.length + 1) t (Nat.lt_succ_self _)
  exact ⟨n, hn, hloop, fun n' outcome h' => hloop.unique h'⟩

/-- Every value takes something, so that each turn has a shorter text to go on with. -/
theorem runs_multipleUntil {p : Extractor α} (h : Progresses p) (closing : String) :
    Runs (fun t => RepeatsUntil closing p t t) (multipleUntil closing p) := by
  have hfrom (bound : Nat) (whole t : Text) (hbound : t.length < bound) :
      ∃ n ≤ t.length, RepeatsUntil closing p whole t n (multipleFrom closing p whole bound t) := by
    induction bound generalizing t with
    | zero => exact absurd hbound (Nat.not_lt_zero _)
    | succ bound ih =>
        have hblank : (t.dropWhile isBlank).length ≤ t.length :=
          (List.dropWhile_suffix isBlank).length_le
        have hstep : multipleFrom closing p whole (bound + 1) t = (do
            if let (some _, after) ← phrase closing (t.dropWhile isBlank) then
              return (some [], after)
            let (some a, after) ← p (t.dropWhile isBlank) | return (none, whole)
            before a (multipleFrom closing p whole bound after)) := rfl
        rw [hstep]
        rcases hclosing : phrase closing (t.dropWhile isBlank) with e | ⟨_ | _, rest⟩
        · exact absurd hclosing (phrase_ne_error closing _ e)
        · rcases hp : p (t.dropWhile isBlank) with e | ⟨_ | a, rest'⟩
          · exact ⟨0, Nat.zero_le _, .raised hclosing hp⟩
          · exact ⟨0, Nat.zero_le _, .missed hclosing hp⟩
          · have hshorter := h _ _ a hp
            obtain ⟨n, hn, hrest⟩ := ih rest' (by omega)
            exact ⟨n + 1, by omega, .next hclosing hp hrest⟩
        · exact ⟨0, Nat.zero_le _, .closed hclosing⟩
  intro t
  obtain ⟨n, hn, hloop⟩ := hfrom (t.length + 1) t t (Nat.lt_succ_self _)
  exact ⟨n, hn, hloop, fun n' outcome h' => hloop.unique h'⟩

/-! ## How they end -/

theorem before_eq_ok {a : α} {outcome : Outcome α} {found? : Option (List α)} {rest : Text} :
    before a outcome = .ok (found?, rest) ↔
      ∃ others?, found? = others?.map (a :: ·) ∧ outcome = .ok (others?, rest) := by
  rcases outcome with e | ⟨others?, rest'⟩
  · simp [before, Except.map]
  · simp only [before, Except.map, Except.ok.injEq, Prod.mk.injEq]
    exact ⟨fun h => ⟨others?, h.1.symm, rfl, h.2⟩, fun ⟨_, hfound, hothers, hrest⟩ =>
      ⟨hothers ▸ hfound.symm, hrest⟩⟩

/-- A loop without a closing phrase has values, and it ends where it has come to a text without a
    value, or with one that takes nothing. -/
theorem Repeats.ends {p : Extractor α} {t rest : Text} {n : Nat} {found? : Option (List α)}
    {outcome : Outcome α} (h : Repeats p t n outcome) (houtcome : outcome = .ok (found?, rest)) :
    (∃ found, found? = some found) ∧
      ((∃ rest', p rest = .ok (none, rest')) ∨ ∃ a, p rest = .ok (some a, rest)) := by
  induction h generalizing found? with
  | raised => cases houtcome
  | ended h =>
      cases houtcome
      exact ⟨⟨_, rfl⟩, .inl ⟨_, h⟩⟩
  | stuck h =>
      cases houtcome
      exact ⟨⟨_, rfl⟩, .inr ⟨_, h⟩⟩
  | next _ _ _ ih =>
      obtain ⟨others?, rfl, hothers⟩ := before_eq_ok.1 houtcome
      obtain ⟨⟨others, rfl⟩, hends⟩ := ih hothers
      exact ⟨⟨_, rfl⟩, hends⟩

end Extractor

end Klartext
