import Klartext.Proofs.Enumeration.Written

set_option autoImplicit false

/-! # Extractors

An *extractor* raises a failure, or it gives a value or none and the text that is left. It *obeys* if
it leaves the text alone where it has no value, so that an alternative can be tried on the same text,
and leaves an end of the text where it has one.

A reader that misses says nothing about what is left. So the combinators are written here once more,
with the remainders that go from one part to the next and with the text that each of them has to put
back by itself. An extractor *reports* a reader if it obeys and comes to the same on every text. -/

namespace Klartext

/-- A value or none and the text that is left, or a failure. -/
abbrev Extractor (α : Type) : Type := Text → Except Failure (Option α × Text)

/-- What is made known of a reader that is taken as a whole: where it misses, nothing was taken. -/
def Reader.report {α : Type} (p : Reader α) : Extractor α := fun t =>
  match p t with
  | .found a rest => .ok (some a, rest)
  | .missed => .ok (none, t)
  | .broken e => .error e

namespace Extractor

variable {α β : Type}

/-- The reader that finds what the extractor has a value for, whatever it leaves otherwise. -/
def reader (p : Extractor α) : Reader α := fun t =>
  match p t with
  | .ok (some a, rest) => .found a rest
  | .ok (none, _) => .missed
  | .error e => .broken e

/-! ## The contract -/

/-- Without a value the text is left as it is, and with a value an end of it is left. -/
structure Obeys (p : Extractor α) : Prop where
  unchanged : ∀ {t rest : Text}, p t = .ok (none, rest) → rest = t
  suffix : ∀ {t rest : Text} {a : α}, p t = .ok (some a, rest) → rest <:+ t

/-- With a value less than the text is left. -/
def Progresses (p : Extractor α) : Prop :=
  ∀ (t rest : Text) (a : α), p t = .ok (some a, rest) → rest.length < t.length

/-- An extractor and a reader come to the same on a text, and of the text is left what the contract
    says. -/
inductive Answers (t : Text) : Except Failure (Option α × Text) → Reading α → Prop where
  | found {a : α} {rest : Text} (h : rest <:+ t) : Answers t (.ok (some a, rest)) (.found a rest)
  | missed : Answers t (.ok (none, t)) .missed
  | broken (e : Failure) : Answers t (.error e) (.broken e)

/-- The extractor obeys, and it does on every text what the reader does. -/
def Reports (p : Extractor α) (q : Reader α) : Prop := ∀ t, Answers t (p t) (q t)

/-- The three ways in which a part of an extractor and the part of a reader that it reports can come
    out alike. -/
@[elab_as_elim]
theorem Reports.elim {p : Extractor α} {q : Reader α} {t : Text}
    {motive : Except Failure (Option α × Text) → Reading α → Prop} (h : Reports p q)
    (found : ∀ a rest, rest <:+ t → motive (.ok (some a, rest)) (.found a rest))
    (missed : motive (.ok (none, t)) .missed) (broken : ∀ e, motive (.error e) (.broken e)) :
    motive (p t) (q t) := by
  have ht := h t
  generalize p t = r, q t = x at ht
  cases ht with
  | found h => exact found _ _ h
  | missed => exact missed
  | broken e => exact broken e

theorem Reports.obeys {p : Extractor α} {q : Reader α} (h : Reports p q) : Obeys p := by
  refine ⟨fun {t rest} hp => ?_, fun {t rest a} hp => ?_⟩ <;> have ht := h t <;> rw [hp] at ht <;>
    generalize q t = x at ht <;> cases ht
  · rfl
  · assumption

/-- What reports a reader is determined by it. -/
theorem Reports.eq_report {p : Extractor α} {q : Reader α} (h : Reports p q) : p = q.report := by
  funext t
  rw [Reader.report]
  exact h.elim (fun _ _ _ => rfl) rfl fun _ => rfl

theorem Reports.reader_eq {p : Extractor α} {q : Reader α} (h : Reports p q) : p.reader = q := by
  funext t
  rw [reader]
  exact h.elim (fun _ _ _ => rfl) rfl fun _ => rfl

theorem Obeys.reports {p : Extractor α} (h : Obeys p) : Reports p p.reader := by
  intro t
  rw [reader]
  rcases hp : p t with e | ⟨_ | a, rest⟩
  · exact .broken e
  · rw [h.unchanged hp]
    exact .missed
  · exact .found (h.suffix hp)

/-- A reader taken as a whole is reported if it finds values at the front of a text. -/
theorem reports_report {q : Reader α}
    (h : ∀ {t rest : Text} {a : α}, q t = .found a rest → rest <:+ t) : Reports q.report q := by
  intro t
  rw [Reader.report]
  cases hq : q t with
  | found a rest => exact .found (h hq)
  | missed => exact .missed
  | broken e => exact .broken e

/-! ## Sequences -/

/-- The steps of a sequence, of which some only have to match, and what is built of the values of the
    others. -/
inductive Steps (β : Type) : Type 1 where
  | build (value : Option β)
  | ignore {α : Type} (step : Extractor α) (others : Steps β)
  | keep {α : Type} (step : Extractor α) (others : α → Steps β)

/-- Takes the steps one after the other, each on what the one before it left of the whole text. Where
    one of them has no value, the whole text is left. -/
def Steps.run (whole : Text) : Steps β → Extractor β
  | .build value, rest => .ok (value, rest)
  | .ignore step others, rest =>
    match step rest with
    | .error e => .error e
    | .ok (none, _) => .ok (none, whole)
    | .ok (some _, rest) => others.run whole rest
  | .keep step others, rest =>
    match step rest with
    | .error e => .error e
    | .ok (none, _) => .ok (none, whole)
    | .ok (some a, rest) => (others a).run whole rest

/-- A sequence of steps. -/
def sequence (steps : Steps β) : Extractor β := fun t => steps.run t t

/-- The steps report those of a `do` block, and something is built. -/
inductive Steps.Report : Steps β → Reader β → Prop where
  | build (b : β) : Report (.build (some b)) (pure b)
  | ignore {α : Type} {step : Extractor α} {p : Reader α} {others : Steps β} {q : Reader β}
      (h : Reports step p) (hothers : Report others q) :
      Report (.ignore step others) (p >>= fun _ => q)
  | keep {α : Type} {step : Extractor α} {p : Reader α} {others : α → Steps β} {q : α → Reader β}
      (h : Reports step p) (hothers : ∀ a, Report (others a) (q a)) :
      Report (.keep step others) (p >>= q)

theorem Steps.Report.answers {steps : Steps β} {q : Reader β} (h : steps.Report q)
    {whole rest : Text} (hrest : rest <:+ whole) :
    Answers whole (steps.run whole rest) (q rest) := by
  induction h generalizing rest with
  | build b => exact .found hrest
  | ignore h _ ih =>
      rw [run, Reader.bind_apply]
      exact h.elim (fun _ _ hnext => ih (hnext.trans hrest)) .missed .broken
  | keep h _ ih =>
      rw [run, Reader.bind_apply]
      exact h.elim (fun a _ hnext => ih a (hnext.trans hrest)) .missed .broken

theorem Steps.Report.sequence {steps : Steps β} {q : Reader β} (h : steps.Report q) :
    Reports (sequence steps) q :=
  fun _ => h.answers List.suffix_rfl

/-- Where nothing is built of the values, what was taken is not put back. -/
theorem sequence_without_value :
    (Reader.literal "a".toList).report.Obeys ∧
    sequence (.keep (Reader.literal "a".toList).report fun _ => .build (none : Option Text))
      "ab".toList = .ok (none, "b".toList) ∧
    ¬ Obeys (sequence (.keep (Reader.literal "a".toList).report fun _ =>
      .build (none : Option Text))) := by
  have htaken : sequence (.keep (Reader.literal "a".toList).report fun _ =>
      .build (none : Option Text)) "ab".toList = .ok (none, "b".toList) := rfl
  refine ⟨(reports_report fun {t rest a} h => ?_).obeys, htaken, fun h => ?_⟩
  · rw [Reader.literal] at h
    split at h
    · cases h
      exact List.drop_suffix _ t
    · cases h
  · exact absurd (h.unchanged htaken) (by decide)

/-! ## Alternatives -/

/-- The first alternative that has a value. -/
def either : List (Extractor α) → Extractor α
  | [], t => return (none, t)
  | p :: others, t => do
    let (some a, rest) ← p t | either others t
    return (some a, rest)

/-- Zero or one value. -/
def optional (p : Extractor α) : Extractor (Option α) := fun t => do
  let (some a, rest) ← p t | return (some none, t)
  return (some (some a), rest)

/-- A value of the whole text, whitespace at its ends apart. -/
def complete (p : Extractor α) : Extractor α := fun t => do
  let (some a, rest) ← p t.trim | return (none, t)
  if Text.isBlank rest then return (some a, []) else return (none, t)

section Alternatives

variable {p : Extractor α} {q : Reader α}

theorem reports_nil : Reports (either []) (Reader.miss : Reader α) := fun _ => .missed

theorem reports_cons {others : List (Extractor α)} {r : Reader α} (h : Reports p q)
    (hothers : Reports (either others) r) : Reports (either (p :: others)) (q <|> r) := by
  intro t
  rw [either, Reader.orElse_apply]
  exact h.elim (fun _ _ hrest => .found hrest) (hothers t) .broken

theorem reports_singleton (h : Reports p q) : Reports (either [p]) q := by
  intro t
  rw [either]
  exact h.elim (fun _ _ hrest => .found hrest) .missed .broken

theorem reports_either {γ : Type} {p : γ → Extractor α} {q : γ → Reader α} {xs : List γ}
    (h : ∀ x ∈ xs, Reports (p x) (q x)) :
    Reports (either (xs.map p)) (Reader.firstOf (xs.map q)) := by
  induction xs with
  | nil => exact reports_nil
  | cons x xs ih =>
      obtain ⟨hx, hxs⟩ := List.forall_mem_cons.1 h
      exact reports_cons hx (ih hxs)

theorem reports_optional (h : Reports p q) : Reports p.optional (Reader.optional q) := by
  intro t
  rw [optional, Reader.optional, Reader.orElse_apply, Reader.bind_apply]
  exact h.elim (fun _ _ hrest => .found hrest) (.found List.suffix_rfl) .broken

/-- Nothing is left of a text that was read completely. -/
theorem reports_complete (h : Reports p q) : Reports p.complete q.complete := by
  intro t
  rw [complete, Reader.complete]
  refine h.elim (fun a rest _ => ?_) .missed .broken
  show Answers t (if Text.isBlank rest then .ok (some a, []) else .ok (none, t))
    (if Text.isBlank rest then .found a [] else .missed)
  split
  · exact .found List.nil_suffix
  · exact .missed

end Alternatives

/-! ## Lists -/

/-- A list of items up to a terminator. What an item leaves of its piece of the text does not
    matter. -/
def list (terminator : Text) (item : Extractor α) (room : Nat) : Extractor (List α) := fun t =>
  match Enumeration.firstSome (Enumeration.listAt item.reader room t)
    (Text.occurrences terminator t) .none with
  | .ok (some (found, index), _) => .ok (some found, t.drop (index + terminator.length))
  | .ok (none, ⟨some refusal, _⟩) => .error (.refused refusal)
  | .ok (none, ⟨none, _⟩) => .ok (none, t)
  | .error e => .error e

theorem reports_list {item : Extractor α} {q : Reader α} (h : Reports item q) (terminator : Text)
    (room : Nat) : Reports (list terminator item room) (Reader.listUntil terminator q room) := by
  intro t
  rw [list, h.reader_eq, Enumeration.listUntil_eq]
  rcases Enumeration.firstSome (Enumeration.listAt q room t) (Text.occurrences terminator t) .none
    with e | ⟨_ | ⟨found, index⟩, _ | refusal, depth⟩
  · exact .broken e
  · exact .missed
  · exact .broken (.refused refusal)
  · exact .found (List.drop_suffix _ t)
  · exact .found (List.drop_suffix _ t)

end Extractor

end Klartext
