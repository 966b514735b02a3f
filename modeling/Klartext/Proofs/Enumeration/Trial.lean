import Mathlib.Algebra.Order.BigOperators.Group.List
import Mathlib.Algebra.Order.Group.Nat
import Mathlib.Data.List.Sublists
import Klartext.Proofs.Enumeration.Written
import Klartext.Proofs.Rules.Words

set_option autoImplicit false

/-! # The order of a search

The search for the items of a list reads pieces of its text one behind the other and goes back
where one of them is no item. `attempts` lists the rows of pieces that it reads, in its order, and
`Search.comes_listAt` says that nothing else counts: the search finds what the first row finds all
of whose pieces are items, and the refusal that it remembers is the first on the way there. -/

namespace Klartext

namespace Enumeration

variable {α β γ : Type}

/-! ## Rows of pieces -/

/-- The stretches from offset `start` to offset `stop` between cuts. -/
def stretches (start stop : Nat) : List Span → List Span
  | [] => [⟨start, stop⟩]
  | cut :: cuts => ⟨start, cut.start⟩ :: stretches cut.stop stop cuts

/-- The item that a piece holds, trimmed, from end to end; or else the refusal, if it is refused. -/
def reading (item : Reader α) (content : Text) (piece : Span) : Except (Option Refusal) α :=
  match item.complete (Text.slice content piece.start piece.stop) with
  | .found a _ => .ok a
  | .broken (.refused r) => .error (some r)
  | _ => .error none

/-- The items of pieces that are read one behind the other, up to the first that holds none. -/
def trial (item : Reader α) (content : Text) (pieces : List Span) :
    Except (Option Refusal) (List α) :=
  pieces.mapM (reading item content)

/-- The choices among cuts. A choice that takes an earlier cut comes first. -/
def choices (cuts : List Span) : List (List Span) := cuts.sublists'.reverse

/-- The ways to cut what stands before a join into two pieces or more. -/
def headCuts (content : Text) (join : Span) : List (List Span) :=
  (choices ((separators content).filter fun separator => separator.stop ≤ join.start)).filter
    fun cuts => 2 ≤ cuts.length + 1

/-- The rows that are read before a join, up to the first that holds items only; behind that one,
    the piece behind the join is read. -/
def tried (item : Reader α) (content : Text) (last : Span) : List (List Span) → List (List Span)
  | [] => []
  | head :: heads =>
    match trial item content head with
    | .ok _ => [head ++ [last]]
    | .error _ => head :: tried item content last heads

/-- The rows of pieces that the search reads, one after the other. -/
def attempts (item : Reader α) (content : Text) : List (List Span) :=
  (joins content).flatMap (fun join => tried item content ⟨join.stop, content.length⟩
    ((headCuts content join).map (stretches 0 join.start))) ++
  ((joins content).map (fun join => stretches 0 content.length [join]) ++
    [stretches 0 content.length []])

/-! ## What comes of trials -/

/-- What the first success among trials gives, and the first refusal before it. -/
def outcome : List (Except (Option Refusal) β) → Option β × Option Refusal
  | [] => (none, none)
  | .ok b :: _ => (some b, none)
  | .error r :: others => ((outcome others).1, r.or (outcome others).2)

/-- One outcome, and another if the first is no success. -/
def followed (o o' : Option β × Option Refusal) : Option β × Option Refusal :=
  match o with
  | (some b, r) => (some b, r)
  | (none, r) => (o'.1, r.or o'.2)

theorem outcome_append (xs ys : List (Except (Option Refusal) β)) :
    outcome (xs ++ ys) = followed (outcome xs) (outcome ys) := by
  induction xs with
  | nil => rfl
  | cons x xs ih =>
      cases x with
      | ok b => rfl
      | error r =>
          simp only [List.cons_append, outcome, ih]
          rcases outcome xs with ⟨_ | b, r'⟩
          · simp only [followed, Option.or_assoc]
          · rfl

theorem outcome_map (f : β → γ) (xs : List (Except (Option Refusal) β)) :
    outcome (xs.map fun x => x.map f) = ((outcome xs).1.map f, (outcome xs).2) := by
  induction xs with
  | nil => rfl
  | cons x xs ih =>
      cases x with
      | ok b => rfl
      | error r =>
          show outcome (.error r :: xs.map fun x => x.map f) = _
          simp only [outcome, ih]

/-- Trials that all fail alike fail as one of them. -/
theorem outcome_replicate {r : Option Refusal} {xs : List (Except (Option Refusal) β)}
    (hne : xs ≠ []) (h : ∀ x ∈ xs, x = .error r) : outcome xs = (none, r) := by
  induction xs with
  | nil => exact absurd rfl hne
  | cons x xs ih =>
      obtain ⟨rfl, hothers⟩ := List.forall_mem_cons.1 h
      by_cases hxs : xs = []
      · subst hxs
        simp [outcome]
      · simp [outcome, ih hxs hothers]

theorem outcome_fst (xs : List (Except (Option Refusal) β)) :
    (outcome xs).1 = xs.findSome? Except.toOption := by
  induction xs with
  | nil => rfl
  | cons x xs ih =>
      cases x with
      | ok b => rfl
      | error r => simp only [outcome, ih, List.findSome?_cons, Except.toOption]

/-- Where no trial succeeds, the first refusal remains. -/
theorem outcome_snd {xs : List (Except (Option Refusal) β)} (h : (outcome xs).1 = none) :
    (outcome xs).2 = xs.findSome? fun | .ok _ => none | .error r => r := by
  induction xs with
  | nil => rfl
  | cons x xs ih =>
      cases x with
      | ok b => cases h
      | error r =>
          simp only [outcome, ih h, List.findSome?_cons]
          cases r <;> rfl

theorem outcome_snd_eq_none {xs : List (Except (Option Refusal) β)}
    (h : ∀ r, .error r ∈ xs → r = none) : (outcome xs).2 = none := by
  induction xs with
  | nil => rfl
  | cons x xs ih =>
      cases x with
      | ok b => rfl
      | error r =>
          rw [outcome, h r List.mem_cons_self, ih fun r hr => h r (List.mem_cons_of_mem _ hr)]
          rfl

/-! ## Trials of rows -/

section Trial

variable {item : Reader α} {content : Text}

theorem trial_cons_ok {piece : Span} {a : α} (h : reading item content piece = .ok a)
    (pieces : List Span) :
    trial item content (piece :: pieces) = (trial item content pieces).map (a :: ·) := by
  simp only [trial, List.mapM_cons, h]
  cases pieces.mapM (reading item content) <;> rfl

theorem trial_cons_error {piece : Span} {r : Option Refusal}
    (h : reading item content piece = .error r) (pieces : List Span) :
    trial item content (piece :: pieces) = .error r := by
  simp only [trial, List.mapM_cons, h]
  rfl

theorem trial_one (piece : Span) :
    trial item content [piece] = (reading item content piece).map ([·]) := by
  cases h : reading item content piece with
  | ok a => exact trial_cons_ok h []
  | error r => exact trial_cons_error h []

theorem trial_append_ok {pieces : List Span} {as : List α}
    (h : trial item content pieces = .ok as) (others : List Span) :
    trial item content (pieces ++ others) = (trial item content others).map (as ++ ·) := by
  induction pieces generalizing as with
  | nil =>
      cases h
      cases hothers : trial item content others <;> rw [List.nil_append, hothers] <;> rfl
  | cons p pieces ih =>
      cases hp : reading item content p with
      | error r => rw [trial_cons_error hp] at h; cases h
      | ok a =>
          rw [trial_cons_ok hp] at h
          rw [List.cons_append, trial_cons_ok hp]
          cases hpieces : trial item content pieces with
          | error r => rw [hpieces] at h; cases h
          | ok as' =>
              rw [hpieces] at h
              cases h
              rw [ih hpieces]
              cases trial item content others <;> rfl

theorem trial_append_error {pieces : List Span} {r : Option Refusal}
    (h : trial item content pieces = .error r) (others : List Span) :
    trial item content (pieces ++ others) = .error r := by
  induction pieces with
  | nil => cases h
  | cons p pieces ih =>
      cases hp : reading item content p with
      | error r' =>
          rw [trial_cons_error hp] at h
          rw [List.cons_append, trial_cons_error hp, h]
      | ok a =>
          rw [trial_cons_ok hp] at h
          rw [List.cons_append, trial_cons_ok hp]
          cases hpieces : trial item content pieces with
          | error r' => rw [hpieces] at h; cases h; rw [ih hpieces]; rfl
          | ok as' => rw [hpieces] at h; cases h

theorem outcome_trial_append {pieces : List Span} {as : List α}
    (h : trial item content pieces = .ok as) (piece : Span) :
    outcome [trial item content (pieces ++ [piece])] =
      ((outcome [reading item content piece]).1.map (as ++ [·]),
        (outcome [reading item content piece]).2) := by
  rw [trial_append_ok h, trial_one]
  cases reading item content piece <;> rfl

/-- The rows before a join come to nothing, or the piece behind it decides. -/
theorem outcome_tried (last : Span) (heads : List (List Span)) :
    outcome ((tried item content last heads).map (trial item content)) =
      match outcome (heads.map (trial item content)) with
      | (none, r) => (none, r)
      | (some as, r) =>
        ((outcome [reading item content last]).1.map (as ++ [·]),
          r.or (outcome [reading item content last]).2) := by
  induction heads with
  | nil => rfl
  | cons head heads ih =>
      cases hhead : trial item content head with
      | ok as =>
          simp only [tried, hhead, List.map_cons, List.map_nil, outcome_trial_append hhead, outcome,
            Option.none_or]
      | error r =>
          simp only [tried, hhead, List.map_cons, outcome, ih]
          rcases outcome (heads.map (trial item content)) with ⟨_ | as, r'⟩
          · rfl
          · simp only [Option.or_assoc]

end Trial

theorem choices_cons (cut : Span) (cuts : List Span) :
    choices (cut :: cuts) = (choices cuts).map (cut :: ·) ++ choices cuts := by
  simp [choices, List.sublists'_cons]

theorem choices_ne_nil (cuts : List Span) : choices cuts ≠ [] := by
  have hmem : [] ∈ choices cuts := by simp [choices]
  exact List.ne_nil_of_mem hmem

theorem mem_choices {cuts : List Span} {chosen : List Span} :
    chosen ∈ choices cuts ↔ chosen.Sublist cuts := by
  simp [choices]

/-! ## What a search comes to -/

namespace Search

/-- The search comes to an outcome, with at most `depth` items one behind the other; or there is no
    room for so many, and it is given up. -/
def Comes (room depth : Nat) (o : Option β × Option Refusal) (s : Search (Option β)) : Prop :=
  ∀ before : Progress,
    (∃ after, s before = .ok (o.1, after) ∧ after.refusal = before.refusal.or o.2 ∧
      after.depth ≤ max before.depth depth) ∨
    (s before = .error .tooDeep ∧ room < depth)

variable {room depth : Nat} {o : Option β × Option Refusal} {s : Search (Option β)}

theorem comes_none : Comes room depth (none, none) (pure none : Search (Option β)) :=
  fun before => .inl ⟨before, rfl, by simp, Nat.le_max_left _ _⟩

theorem comes_some (b : β) : Comes room depth (some b, none) (pure (some b) : Search (Option β)) :=
  fun before => .inl ⟨before, rfl, by simp, Nat.le_max_left _ _⟩

theorem Comes.mono {depth' : Nat} (h : Comes room depth o s) (hdepth : depth ≤ depth') :
    Comes room depth' o s := by
  intro before
  rcases h before with ⟨after, hrun, hrefusal, hafter⟩ | ⟨hrun, hroom⟩
  · exact .inl ⟨after, hrun, hrefusal, by omega⟩
  · exact .inr ⟨hrun, by omega⟩

theorem Comes.bind {f : Option β → Search (Option γ)} {o' o'' : Option γ × Option Refusal}
    (hs : Comes room depth o s) (hf : Comes room depth o' (f o.1))
    (ho : o'' = (o'.1, o.2.or o'.2)) : Comes room depth o'' (s >>= f) := by
  subst ho
  intro before
  rcases hs before with ⟨between, hrun, hrefusal, hdepth⟩ | ⟨hrun, hroom⟩
  · rw [bind_ok hrun]
    rcases hf between with ⟨after, hrun', hrefusal', hdepth'⟩ | hdeep
    · refine .inl ⟨after, hrun', ?_, by omega⟩
      rw [hrefusal', hrefusal, Option.or_assoc]
    · exact .inr hdeep
  · exact .inr ⟨bind_error hrun, hroom⟩

theorem Comes.map {f : Option β → Search (Option γ)} (h : Comes room depth o s) (g : β → γ)
    (hsome : ∀ b, f (some b) = pure (some (g b))) (hnone : f none = pure none) :
    Comes room depth (o.1.map g, o.2) (s >>= f) := by
  rcases o with ⟨_ | b, r⟩
  · have hnot : Comes room depth (none, none) (f none) := hnone ▸ comes_none
    exact h.bind hnot (by simp)
  · have hfound : Comes room depth (some (g b), none) (f (some b)) := hsome b ▸ comes_some (g b)
    exact h.bind hfound (by simp)

/-- One search, and another if the first finds nothing. -/
theorem Comes.orElse {f : Option β → Search (Option β)} {o' : Option β × Option Refusal}
    (hs : Comes room depth o s) (hsome : ∀ b, f (some b) = pure (some b))
    (hnone : Comes room depth o' (f none)) : Comes room depth (followed o o') (s >>= f) := by
  rcases o with ⟨_ | b, r⟩
  · exact hs.bind hnone rfl
  · have hfound : Comes room depth (some b, none) (f (some b)) := hsome b ▸ comes_some b
    exact hs.bind hfound (by simp [followed])

/-- What comes of alternatives is what comes of their trials in order. -/
theorem comes_firstSome {f : γ → Search (Option β)}
    {trials : γ → List (Except (Option Refusal) β)} {cs : List γ}
    (h : ∀ c ∈ cs, Comes room depth (outcome (trials c)) (f c)) :
    Comes room depth (outcome (cs.flatMap trials)) (firstSome f cs) := by
  induction cs with
  | nil => exact comes_none
  | cons c cs ih =>
      have hc := h c List.mem_cons_self
      have hcs := ih fun d hd => h d (List.mem_cons_of_mem c hd)
      rw [List.flatMap_cons, outcome_append]
      exact hc.orElse (fun _ => rfl) hcs

theorem Comes.resume (h : Comes room depth o s) :
    Comes room (depth + 1) o (resume room (s.run .none)) := by
  intro before
  rcases h .none with ⟨behind, hrun, hrefusal, hdepth⟩ | ⟨hrun, hroom⟩
  · have hbehind : behind.depth ≤ depth := by simpa [Progress.none] using hdepth
    have hrefused : behind.refusal = o.2 := by simpa [Progress.none] using hrefusal
    simp only [StateT.run, hrun, Enumeration.resume]
    by_cases hfull : room ≤ behind.depth
    · rw [if_pos hfull]
      exact .inr ⟨rfl, by omega⟩
    · rw [if_neg hfull, hrefused]
      exact .inl ⟨_, rfl, rfl, by simp only; omega⟩
  · refine .inr ⟨?_, by omega⟩
    rw [StateT.run, hrun, Enumeration.resume]

end Search

open Search

/-! ## The search for items -/

section Items

variable {item : Reader α} {content : Text} {room : Nat}

/-- A piece of the text, as the search reads it. -/
def pieceAt (item : Reader α) (content : Text) (start stop : Nat) : Search (Option α) :=
  item? (item.complete (Text.slice content start stop))

/-- The reader finds, misses or refuses; nothing else breaks it off. -/
def OnlyRefuses (item : Reader α) : Prop :=
  ∀ t e, item t = .broken e → ∃ r, e = .refused r

theorem onlyRefuses_of_neverBreaks (h : item.NeverBreaks) : OnlyRefuses item :=
  fun t e hbroken => absurd hbroken (h t e)

theorem OnlyRefuses.complete (h : OnlyRefuses item) : OnlyRefuses item.complete := by
  intro t e hread
  rw [Reader.complete] at hread
  split at hread
  · split at hread <;> cases hread
  · cases hread
  · rename_i e' hbroken
    cases hread
    exact h _ _ hbroken

/-- What comes of the rows before offset `stop` that take at least `least` pieces. -/
def headTrials (item : Reader α) (content : Text) (start stop least : Nat) (seps : List Span) :
    List (Except (Option Refusal) (List α)) :=
  ((choices seps).filter fun cuts => least ≤ cuts.length + 1).map fun cuts =>
    trial item content (stretches start stop cuts)

theorem headTrials_cons {stop least : Nat} (hleast : least ≤ 2) (start : Nat) (s : Span)
    (seps : List Span) :
    headTrials item content start stop least (s :: seps) =
      ((choices seps).map fun cuts =>
        trial item content (⟨start, s.start⟩ :: stretches s.stop stop cuts)) ++
      headTrials item content start stop least seps := by
  have hall : ((choices seps).map (s :: ·)).filter (fun cuts => least ≤ cuts.length + 1) =
      (choices seps).map (s :: ·) := by
    refine List.filter_eq_self.2 fun cuts hcuts => ?_
    obtain ⟨chosen, -, rfl⟩ := List.mem_map.1 hcuts
    simp only [List.length_cons, decide_eq_true_eq]
    omega
  rw [headTrials, choices_cons, List.filter_append, hall, List.map_append, List.map_map]
  rfl

theorem headTrials_one (start stop : Nat) (seps : List Span) :
    headTrials item content start stop 1 seps =
      (choices seps).map fun cuts => trial item content (stretches start stop cuts) := by
  rw [headTrials, List.filter_eq_self.2 fun cuts _ => by simp]

/-- Behind a piece that is no item, no row is read. -/
theorem outcome_behind_error {piece : Span} {r : Option Refusal}
    (h : reading item content piece = .error r) (start stop : Nat) (seps : List Span) :
    outcome ((choices seps).map fun cuts =>
      trial item content (piece :: stretches start stop cuts)) = (none, r) := by
  refine outcome_replicate ?_ fun x hx => ?_
  · rw [Ne, List.map_eq_nil_iff]
    exact choices_ne_nil seps
  · obtain ⟨cuts, -, rfl⟩ := List.mem_map.1 hx
    exact trial_cons_error h _

/-- Behind an item, the rows that begin with it go on as the rows behind it. -/
theorem outcome_behind_ok {piece : Span} {a : α} (h : reading item content piece = .ok a)
    (start stop : Nat) (seps : List Span) :
    outcome ((choices seps).map fun cuts =>
      trial item content (piece :: stretches start stop cuts)) =
      ((outcome (headTrials item content start stop 1 seps)).1.map (a :: ·),
        (outcome (headTrials item content start stop 1 seps)).2) := by
  rw [headTrials_one, ← outcome_map, List.map_map]
  simp only [Function.comp_def, trial_cons_ok h]

variable (hitem : OnlyRefuses item) (content room)
include hitem

theorem comes_piece (depth start stop : Nat) :
    Comes room depth (outcome [reading item content ⟨start, stop⟩])
      (pieceAt item content start stop) := by
  rw [pieceAt, reading]
  cases hread : item.complete (Text.slice content start stop) with
  | found a rest => exact comes_some a
  | missed => exact comes_none
  | broken e =>
      obtain ⟨r, rfl⟩ := hitem.complete _ _ hread
      exact fun before => .inl ⟨⟨before.refusal.or (some r), before.depth⟩, rfl,
        by simp [outcome], Nat.le_max_left _ _⟩

/-- A row of one piece. -/
theorem comes_row_of_one (depth start stop : Nat) :
    Comes room depth (outcome [trial item content [⟨start, stop⟩]])
      (do
        match ← pieceAt item content start stop with
        | some a => pure (some [a])
        | none => pure none) := by
  have hmap := outcome_map ([·]) [reading item content ⟨start, stop⟩]
  rw [List.map_singleton, ← trial_one] at hmap
  rw [hmap]
  exact (comes_piece content room hitem depth start stop).map _ (fun _ => rfl) rfl

/-- The rows before offset `stop` are read in the order of the choices among the separators. -/
theorem comes_heads (stop : Nat) {least : Nat} (hleast : least ≤ 2) (start : Nat) (seps : List Span) :
    Comes room seps.length (outcome (headTrials item content start stop least seps))
      (heads (pieceAt item content) room stop least start
        (tailsOf (pieceAt item content) room stop seps)) := by
  induction seps generalizing start least with
  | nil =>
      simp only [tailsOf, heads]
      by_cases hone : least ≤ 1
      · have htrials : headTrials item content start stop least [] =
            [trial item content [⟨start, stop⟩]] := by
          simp [headTrials, choices, hone, stretches]
        rw [if_pos hone, htrials]
        exact comes_row_of_one content room hitem 0 start stop
      · have htrials : headTrials item content start stop least [] = [] := by
          simp [headTrials, choices, hone]
        rw [if_neg hone, htrials]
        exact comes_none
  | cons s seps ih =>
      -- the rows that are cut at `s` come first, and then those without it
      have hwithout := (ih hleast start).mono (Nat.le_succ seps.length)
      have hpiece := comes_piece content room hitem (seps.length + 1) start s.start
      simp only [tailsOf, heads]
      rw [headTrials_cons hleast, outcome_append]
      cases hread : reading item content ⟨start, s.start⟩ with
      | error r =>
          rw [hread] at hpiece
          rw [outcome_behind_error hread]
          exact hpiece.bind hwithout (by simp [followed, outcome])
      | ok a =>
          rw [hread] at hpiece
          rw [outcome_behind_ok hread]
          have hbehind := (ih (Nat.le_succ 1) s.stop).resume
          rcases hout : outcome (headTrials item content s.stop stop 1 seps) with ⟨_ | others, r⟩
          · rw [hout] at hbehind
            exact hpiece.bind (hbehind.bind hwithout rfl) (by simp [followed, outcome])
          · rw [hout] at hbehind
            exact hpiece.bind (hbehind.bind (comes_some (a :: others)) rfl)
              (by simp [followed, outcome])

theorem comes_threeAt (join : Span) :
    Comes room (separators content).length
      (outcome ((tried item content ⟨join.stop, content.length⟩
        ((headCuts content join).map (stretches 0 join.start))).map (trial item content)))
      (threeAt (pieceAt item content) room (separators content) content.length join) := by
  have htrials : ((headCuts content join).map (stretches 0 join.start)).map (trial item content) =
      headTrials item content 0 join.start 2
        ((separators content).filter fun s => s.stop ≤ join.start) := by
    rw [List.map_map]
    rfl
  have hheads := (comes_heads content room hitem join.start (Nat.le_refl 2) 0
    ((separators content).filter fun s => s.stop ≤ join.start)).mono (List.length_filter_le _ _)
  have hlast := comes_piece content room hitem (separators content).length join.stop content.length
  rw [outcome_tried, htrials]
  rcases hout : outcome (headTrials item content 0 join.start 2
    ((separators content).filter fun s => s.stop ≤ join.start)) with ⟨_ | as, r⟩
  · rw [hout] at hheads
    exact hheads.bind comes_none (by simp)
  · rw [hout] at hheads
    exact hheads.bind (hlast.map (as ++ [·]) (fun _ => rfl) rfl) rfl

theorem comes_twoAt (depth : Nat) (join : Span) :
    Comes room depth (outcome [trial item content (stretches 0 content.length [join])])
      (twoAt (pieceAt item content) content.length join) := by
  have hfirst := comes_piece content room hitem depth 0 join.start
  have hlast := comes_piece content room hitem depth join.stop content.length
  simp only [stretches]
  cases hread : reading item content ⟨0, join.start⟩ with
  | error r =>
      rw [hread] at hfirst
      rw [trial_cons_error hread]
      exact hfirst.bind comes_none (by simp [outcome])
  | ok a =>
      rw [hread] at hfirst
      have hrow := outcome_trial_append ((trial_one _).trans (congrArg (Except.map ([·])) hread))
        ⟨join.stop, content.length⟩
      rw [List.singleton_append] at hrow
      rw [hrow]
      exact hfirst.bind (hlast.map ([a, ·]) (fun _ => rfl) rfl) (by simp [outcome])

omit hitem in
/-- Without separators, nothing stands before a join but one piece. -/
theorem flatMap_tried_eq_nil (h : (separators content).isEmpty = true) :
    ((joins content).flatMap fun join =>
      (tried item content ⟨join.stop, content.length⟩
        ((headCuts content join).map (stretches 0 join.start))).map (trial item content)) = [] := by
  have hnone (join : Span) : headCuts content join = [] := by
    simp [headCuts, List.isEmpty_iff.1 h, choices]
  simp [hnone, tried]

/-- The search reads the attempts in order. -/
theorem comes_itemsOf :
    Comes room (separators content).length
      (outcome ((attempts item content).map (trial item content)))
      (itemsOf item room content) := by
  have hthree : Comes room (separators content).length
      (outcome ((joins content).flatMap fun join =>
        (tried item content ⟨join.stop, content.length⟩
          ((headCuts content join).map (stretches 0 join.start))).map (trial item content)))
      (firstSome (threeAt (pieceAt item content) room (separators content) content.length)
        (if (separators content).isEmpty then [] else joins content)) := by
    by_cases hseps : (separators content).isEmpty
    · rw [flatMap_tried_eq_nil content hseps, if_pos hseps]
      exact comes_none
    · rw [if_neg hseps]
      exact comes_firstSome fun join _ => comes_threeAt content room hitem join
  have htwo : Comes room (separators content).length
      (outcome ((joins content).flatMap fun join =>
        [trial item content (stretches 0 content.length [join])]))
      (firstSome (twoAt (pieceAt item content) content.length) (joins content)) :=
    comes_firstSome fun join _ => comes_twoAt content room hitem _ join
  have hone := comes_row_of_one content room hitem (separators content).length 0 content.length
  have hpairs : ((joins content).flatMap fun join =>
      [trial item content (stretches 0 content.length [join])]) =
      ((joins content).map fun join => stretches 0 content.length [join]).map
        (trial item content) := by
    rw [List.map_map, List.map_eq_flatMap]
    rfl
  rw [hpairs] at htwo
  have hitems : itemsOf item room content = items (pieceAt item content) room
      (separators content) (joins content) content.length := itemsOf_eq item room content
  rw [hitems, items_eq, attempts, List.map_append, List.map_append, List.map_flatMap,
    outcome_append, outcome_append]
  exact hthree.orElse (fun _ => rfl) (htwo.orElse (fun _ => rfl) hone)

/-- The trials of the list that ends at an occurrence of the terminator. -/
def listTrials (item : Reader α) (t : Text) (index : Nat) :
    List (Except (Option Refusal) (List α × Nat)) :=
  ((attempts item (t.take index)).map (trial item (t.take index))).map fun found =>
    found.map (·, index)

omit content in
theorem comes_listAt (t : Text) (index : Nat) :
    Comes room (separators (t.take index)).length (outcome (listTrials item t index))
      (listAt item room t index) := by
  rw [listTrials, outcome_map]
  exact (comes_itemsOf (t.take index) room hitem).map _ (fun _ => rfl) rfl

omit content in
/-- The search for a list tries the occurrences of the terminator in order, unless a list is too
    long for it. -/
theorem listUntil_of_trials (terminator t : Text) :
    (Reader.listUntil terminator item room t =
      match outcome ((Text.occurrences terminator t).flatMap (listTrials item t)) with
      | (some (found, index), _) => .found found (t.drop (index + terminator.length))
      | (none, some r) => .broken (.refused r)
      | (none, none) => .missed) ∨
    (Reader.listUntil terminator item room t = .broken .tooDeep ∧
      ∃ i ∈ Text.occurrences terminator t, room < (separators (t.take i)).length) := by
  -- the room is enough for every occurrence, or one of them is the reason to break off
  have hsearch {depth : Nat}
      (hdepth : ∀ i ∈ Text.occurrences terminator t, (separators (t.take i)).length ≤ depth) :=
    comes_firstSome fun i hi => (comes_listAt room hitem t i).mono (hdepth i hi)
  have hrun : (∃ after, firstSome (listAt item room t) (Text.occurrences terminator t) .none =
        .ok ((outcome ((Text.occurrences terminator t).flatMap (listTrials item t))).1, after) ∧
        after.refusal = (outcome ((Text.occurrences terminator t).flatMap (listTrials item t))).2) ∨
      (firstSome (listAt item room t) (Text.occurrences terminator t) .none = .error .tooDeep ∧
        ∃ i ∈ Text.occurrences terminator t, room < (separators (t.take i)).length) := by
    by_cases hlong : ∃ i ∈ Text.occurrences terminator t, room < (separators (t.take i)).length
    · have hsum := hsearch fun i hi =>
        List.le_sum_of_mem (List.mem_map_of_mem (f := fun i => (separators (t.take i)).length) hi)
      rcases hsum .none with ⟨after, hok, hrefusal, -⟩ | ⟨herror, -⟩
      · exact .inl ⟨after, hok, by simpa [Progress.none] using hrefusal⟩
      · exact .inr ⟨herror, hlong⟩
    · have hroom := hsearch fun i hi => Nat.le_of_not_lt fun hi' => hlong ⟨i, hi, hi'⟩
      rcases hroom .none with ⟨after, hok, hrefusal, -⟩ | ⟨-, hlt⟩
      · exact .inl ⟨after, hok, by simpa [Progress.none] using hrefusal⟩
      · exact absurd hlt (Nat.lt_irrefl room)
  rw [listUntil_eq]
  rcases hrun with ⟨⟨refusal, depth⟩, hok, hrefusal⟩ | ⟨herror, hlong⟩
  · left
    simp only at hrefusal
    subst hrefusal
    rw [hok]
    rcases outcome ((Text.occurrences terminator t).flatMap (listTrials item t)) with
      ⟨_ | ⟨found, index⟩, _ | r⟩ <;> rfl
  · exact .inr ⟨by rw [herror], hlong⟩

end Items

end Enumeration

end Klartext
