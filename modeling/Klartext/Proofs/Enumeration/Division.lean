import Klartext.Proofs.Depth.Reader
import Klartext.Proofs.Enumeration.Trial
import Klartext.Proofs.Grammar.Item
import Klartext.Proofs.Rules.Enumeration

set_option autoImplicit false

/-! # Lists are found where there are any

A text is a list if it can be divided into items: at separators and behind them at a join, at a
join alone, or not at all. Any separator and any join may be such a place, so there are many ways
to divide a text, and some come before others. `Enumeration.listUntil_decides` says that the reader
of lists finds a list exactly where a terminator stands behind one, and which one it finds. -/

namespace Klartext

namespace Enumeration

variable {α : Type}

/-! ## Divisions -/

/-- A way to divide a text into pieces. -/
inductive Division where
  /-- At one or more separators and a join behind them. -/
  | many (cuts : List Span) (join : Span)
  /-- At a join. -/
  | two (join : Span)
  /-- Not at all. -/
  | one
  deriving Repr, DecidableEq

namespace Division

/-- The places at which a text is divided, in order. -/
def places : Division → List Span
  | many cuts join => cuts ++ [join]
  | two join => [join]
  | one => []

/-- The pieces into which a text is divided. -/
def pieces (d : Division) (content : Text) : List Span := stretches 0 content.length d.places

/-- The places are separators and joins of the text. -/
def Fits (content : Text) : Division → Prop
  | many cuts join => cuts ≠ [] ∧ cuts.Sublist (separators content) ∧ join ∈ joins content ∧
      ∀ cut ∈ cuts, cut.stop ≤ join.start
  | two join => join ∈ joins content
  | one => True

/-- The values are those of the pieces, each of which holds an item from end to end. -/
def Holds (item : Reader α) (content : Text) (d : Division) (values : List α) : Prop :=
  List.Forall₂ (fun piece value => ∃ rest,
    item.complete (Text.slice content piece.start piece.stop) = .found value rest)
    (d.pieces content) values

/-- One choice of cuts comes before another: where they part, it has the earlier cut, or it goes on
    where the other one ends. -/
inductive Earlier : List Span → List Span → Prop where
  | further (cut : Span) (cuts : List Span) : Earlier (cut :: cuts) []
  | first {cut cut' : Span} (cuts cuts' : List Span) (h : cut.start < cut'.start) :
      Earlier (cut :: cuts) (cut' :: cuts')
  | later (cut : Span) {cuts cuts' : List Span} (h : Earlier cuts cuts') :
      Earlier (cut :: cuts) (cut :: cuts')

/-- One division comes before another: it has the shape with more pieces, or the same shape and the
    join further to the left, or the same join and the earlier cuts before it. -/
inductive Before : Division → Division → Prop where
  | many_two (cuts : List Span) (join join' : Span) : Before (many cuts join) (two join')
  | many_one (cuts : List Span) (join : Span) : Before (many cuts join) one
  | two_one (join : Span) : Before (two join) one
  | many_join (cuts cuts' : List Span) {join join' : Span} (h : join.start < join'.start) :
      Before (many cuts join) (many cuts' join')
  | many_cuts {cuts cuts' : List Span} (join : Span) (h : Earlier cuts cuts') :
      Before (many cuts join) (many cuts' join)
  | two_join {join join' : Span} (h : join.start < join'.start) : Before (two join) (two join')

end Division

open Division

/-- The text can be divided into items. -/
def IsList (item : Reader α) (content : Text) : Prop :=
  ∃ d values, Division.Fits content d ∧ d.Holds item content values

/-- Among the divisions of a text into items, one that comes before all others. -/
structure Preferred (item : Reader α) (content : Text) (d : Division) (values : List α) :
    Prop where
  fits : d.Fits content
  holds : d.Holds item content values
  before : ∀ {d' values'}, d'.Fits content → d'.Holds item content values' →
    d' = d ∨ Before d d'

/-- The terminator stands at an offset. -/
def EndsAt (terminator t : Text) (i : Nat) : Prop := i ≤ t.length ∧ terminator <+: t.drop i

/-- The first refusal among the rows of pieces that are read. -/
def firstRefusal? (item : Reader α) (content : Text) : Option Refusal :=
  (attempts item content).findSome? fun row =>
    match trial item content row with
    | .ok _ => none
    | .error refusal => refusal

instance (r : Reading α) : Decidable (r = .broken .tooDeep) :=
  match r with
  | .found _ _ => isFalse nofun
  | .missed => isFalse nofun
  | .broken (.refused _) => isFalse nofun
  | .broken .tooDeep => isTrue rfl
  | .broken (.tooManyDigits _) => isFalse nofun

/-- What a list up to a terminator comes to. -/
structure Decided (terminator : Text) (item : Reader α) (t : Text) (r : Reading (List α)) :
    Prop where
  /-- Values are found exactly if a list stands before some terminator. -/
  found_iff : (∃ values rest, r = .found values rest) ↔
    ∃ i, EndsAt terminator t i ∧ IsList item (t.take i)
  /-- They are those of the preferred division before the leftmost such terminator, and the rest
      is the text behind it. -/
  found : ∀ {values rest}, r = .found values rest → ∃ i, EndsAt terminator t i ∧
    (∀ j < i, EndsAt terminator t j → ¬ IsList item (t.take j)) ∧
    (∃ d, Preferred item (t.take i) d values) ∧ rest = t.drop (i + terminator.length)
  /-- Otherwise the first refusal in the order of the search comes to light. -/
  not_found : (¬ ∃ i, EndsAt terminator t i ∧ IsList item (t.take i)) →
    r = match (Text.occurrences terminator t).findSome? fun i => firstRefusal? item (t.take i) with
      | some refusal => .broken (.refused refusal)
      | none => .missed

/-! ## The divisions in order -/

/-- The divisions of a text. One that comes before another stands before it. -/
def divisions (content : Text) : List Division :=
  (joins content).flatMap (fun join => (headCuts content join).map (many · join)) ++
  ((joins content).map two ++ [one])

theorem stretches_append (start stop : Nat) (cuts : List Span) (cut : Span) :
    stretches start stop (cuts ++ [cut]) =
      stretches start cut.start cuts ++ [⟨cut.stop, stop⟩] := by
  induction cuts generalizing start with
  | nil => rfl
  | cons c cuts ih => rw [List.cons_append, stretches, ih, stretches, List.cons_append]

theorem mem_headCuts {content : Text} {join : Span} {cuts : List Span} :
    cuts ∈ headCuts content join ↔
      cuts ≠ [] ∧ cuts.Sublist (separators content) ∧ ∀ cut ∈ cuts, cut.stop ≤ join.start := by
  rw [headCuts, List.mem_filter, mem_choices, decide_eq_true_eq]
  constructor
  · rintro ⟨hsub, hlength⟩
    refine ⟨List.ne_nil_of_length_pos (by omega), hsub.trans List.filter_sublist, fun cut hcut => ?_⟩
    simpa using (List.mem_filter.1 (hsub.subset hcut)).2
  · rintro ⟨hne, hsub, hstop⟩
    have hself : cuts.filter (fun cut => cut.stop ≤ join.start) = cuts :=
      List.filter_eq_self.2 fun cut hcut => by simpa using hstop cut hcut
    refine ⟨hself ▸ hsub.filter _, ?_⟩
    have hpos := List.length_pos_iff.2 hne
    omega

theorem mem_divisions {content : Text} {d : Division} : d ∈ divisions content ↔ d.Fits content := by
  cases d with
  | one => simp [divisions, Fits]
  | two join => simp [divisions, Fits]
  | many cuts join =>
      simp only [divisions, Fits, List.mem_append, List.mem_flatMap, List.mem_map,
        List.mem_singleton, reduceCtorEq, and_false, exists_false, or_false, many.injEq,
        mem_headCuts]
      constructor
      · rintro ⟨j, hj, cuts', ⟨hne, hsub, hstop⟩, rfl, rfl⟩
        exact ⟨hne, hsub, hj, hstop⟩
      · rintro ⟨hne, hsub, hj, hstop⟩
        exact ⟨join, hj, cuts, ⟨hne, hsub, hstop⟩, rfl, rfl⟩

theorem pairwise_choices {cuts : List Span} (h : cuts.Pairwise fun s s' => s.start < s'.start) :
    (choices cuts).Pairwise Earlier := by
  induction cuts with
  | nil => exact List.pairwise_singleton _ _
  | cons cut cuts ih =>
      obtain ⟨hcut, hcuts⟩ := List.pairwise_cons.1 h
      rw [choices_cons]
      refine List.pairwise_append.2
        ⟨(ih hcuts).map (cut :: ·) fun _ _ => .later cut, ih hcuts, ?_⟩
      intro taken htaken skipped hskipped
      obtain ⟨chosen, -, rfl⟩ := List.mem_map.1 htaken
      cases skipped with
      | nil => exact .further cut chosen
      | cons cut' others =>
          exact .first chosen others (hcut cut' ((mem_choices.1 hskipped).subset List.mem_cons_self))

theorem pairwise_start (length : Text → Nat) (t : Text) :
    (Text.matchesOf length t).Pairwise fun s s' => s.start < s'.start := by
  refine (Text.pairwise_matchesFrom length 0 0 t).imp_of_mem fun {s s'} hs _ hle => ?_
  obtain ⟨n, -, -, hmatch, hstop⟩ := Text.mem_matchesFrom hs
  omega

theorem pairwise_headCuts (content : Text) (join : Span) :
    (headCuts content join).Pairwise Earlier :=
  (pairwise_choices ((pairwise_start separatorLength content).filter _)).filter _

theorem pairwise_divisions (content : Text) : (divisions content).Pairwise Before := by
  have hjoins : (joins content).Pairwise fun s s' => s.start < s'.start :=
    pairwise_start joinLength content
  refine List.pairwise_append.2 ⟨?_, List.pairwise_append.2 ⟨?_, List.pairwise_singleton _ _, ?_⟩, ?_⟩
  · refine List.pairwise_flatMap.2 ⟨fun join _ => ?_, hjoins.imp fun hlt d hd d' hd' => ?_⟩
    · exact (pairwise_headCuts content join).map _ fun _ _ => .many_cuts join
    · obtain ⟨cuts, -, rfl⟩ := List.mem_map.1 hd
      obtain ⟨cuts', -, rfl⟩ := List.mem_map.1 hd'
      exact .many_join cuts cuts' hlt
  · exact hjoins.map _ fun _ _ => .two_join
  · intro d hd d' hd'
    obtain ⟨join, -, rfl⟩ := List.mem_map.1 hd
    rw [List.mem_singleton.1 hd']
    exact .two_one join
  · intro d hd d' hd'
    obtain ⟨join, -, hd⟩ := List.mem_flatMap.1 hd
    obtain ⟨cuts, -, rfl⟩ := List.mem_map.1 hd
    rcases List.mem_append.1 hd' with hd' | hd'
    · obtain ⟨join', -, rfl⟩ := List.mem_map.1 hd'
      exact .many_two cuts join join'
    · rw [List.mem_singleton.1 hd']
      exact .many_one cuts join

/-! ## What the attempts find -/

section Attempts

variable {item : Reader α} {content : Text}

theorem reading_eq_ok {piece : Span} {a : α} :
    reading item content piece = .ok a ↔
      ∃ rest, item.complete (Text.slice content piece.start piece.stop) = .found a rest := by
  rw [reading]
  split <;> simp_all

theorem trial_eq_ok {pieces : List Span} {as : List α} :
    trial item content pieces = .ok as ↔
      List.Forall₂ (fun piece a => ∃ rest,
        item.complete (Text.slice content piece.start piece.stop) = .found a rest) pieces as := by
  simp only [← reading_eq_ok]
  induction pieces generalizing as with
  | nil => cases as <;> simp [trial, pure, Except.pure]
  | cons piece pieces ih =>
      cases hread : reading item content piece with
      | error r =>
          rw [trial_cons_error hread]
          cases as <;> simp [hread]
      | ok a =>
          rw [trial_cons_ok hread]
          cases as with
          | nil => cases trial item content pieces <;> simp [Except.map]
          | cons a' as =>
              rw [List.forall₂_cons, ← ih, hread, Except.ok.injEq]
              cases trial item content pieces <;> simp [Except.map]

/-- The values of a division into items. -/
def valuesOf? (item : Reader α) (content : Text) (d : Division) : Option (List α) :=
  (trial item content (d.pieces content)).toOption

theorem valuesOf?_eq_some {d : Division} {values : List α} :
    valuesOf? item content d = some values ↔ d.Holds item content values := by
  rw [Holds, ← trial_eq_ok, valuesOf?]
  cases trial item content (d.pieces content) <;> simp [Except.toOption]

theorem trial_append_singleton_error {last : Span} {r : Option Refusal}
    (h : reading item content last = .error r) (row : List Span) :
    (trial item content (row ++ [last])).toOption = none := by
  cases hrow : trial item content row with
  | ok as => rw [trial_append_ok hrow, trial_cons_error h]; rfl
  | error r' => rw [trial_append_error hrow]; rfl

/-- Behind a row that holds items only, no row before the same join is read. None would do better:
    if the first one fails, then for the piece behind the join. -/
theorem findSome?_tried (last : Span) (rows : List (List Span)) :
    ((tried item content last rows).map (trial item content)).findSome? Except.toOption =
      rows.findSome? fun row => (trial item content (row ++ [last])).toOption := by
  induction rows with
  | nil => rfl
  | cons row rows ih =>
      cases hrow : trial item content row with
      | error r =>
          simp only [tried, hrow, List.map_cons, List.findSome?_cons, trial_append_error hrow,
            Except.toOption, ih]
      | ok as =>
          simp only [tried, hrow, List.map_cons, List.map_nil, List.findSome?_cons,
            List.findSome?_nil]
          -- the row is tried with the piece behind the join, and no row comes after it
          cases hlast : reading item content last with
          | ok a =>
              rw [trial_append_ok hrow, trial_cons_ok hlast]
              rfl
          | error r =>
              simp only [trial_append_singleton_error hlast]
              exact (List.findSome?_eq_none_iff.2 fun _ _ => rfl).symm

theorem findSome?_flatMap {β γ δ : Type} (l : List β) (f : β → List γ) (g : γ → Option δ) :
    (l.flatMap f).findSome? g = l.findSome? fun b => (f b).findSome? g := by
  induction l with
  | nil => rfl
  | cons b l ih =>
      rw [List.flatMap_cons, List.findSome?_append, List.findSome?_cons, ih]
      cases (f b).findSome? g <;> rfl

/-- What the attempts come to is what the first division into items gives. -/
theorem findSome?_attempts :
    ((attempts item content).map (trial item content)).findSome? Except.toOption =
      (divisions content).findSome? (valuesOf? item content) := by
  have hmany (join : Span) :
      ((tried item content ⟨join.stop, content.length⟩
        ((headCuts content join).map (stretches 0 join.start))).map
        (trial item content)).findSome? Except.toOption =
      ((headCuts content join).map (many · join)).findSome? (valuesOf? item content) := by
    rw [findSome?_tried, List.findSome?_map, List.findSome?_map]
    simp only [Function.comp_def, valuesOf?, pieces, places, stretches_append]
  simp only [attempts, divisions, List.map_append, List.findSome?_append, List.map_flatMap,
    findSome?_flatMap, hmany]
  simp only [List.findSome?_map]
  rfl

/-- The first division into items is the preferred one. -/
theorem preferred_of_findSome? {values : List α}
    (h : (divisions content).findSome? (valuesOf? item content) = some values) :
    ∃ d, Preferred item content d values := by
  obtain ⟨earlier, d, later, hdivisions, hvalues, hearlier⟩ := List.findSome?_eq_some_iff.1 h
  have horder := pairwise_divisions content
  rw [hdivisions, List.pairwise_append, List.pairwise_cons] at horder
  refine ⟨d, mem_divisions.1 (by simp [hdivisions]), valuesOf?_eq_some.1 hvalues, ?_⟩
  intro d' values' hfits hholds
  have hmem := mem_divisions.2 hfits
  rw [hdivisions, List.mem_append, List.mem_cons] at hmem
  rcases hmem with hmem | rfl | hmem
  · have hnone := hearlier d' hmem
    rw [valuesOf?_eq_some.2 hholds] at hnone
    cases hnone
  · exact .inl rfl
  · exact .inr (horder.2.1.1 d' hmem)

theorem isList_iff :
    IsList item content ↔ (divisions content).findSome? (valuesOf? item content) ≠ none := by
  simp only [ne_eq, List.findSome?_eq_none_iff, not_forall]
  constructor
  · rintro ⟨d, values, hfits, hholds⟩
    exact ⟨d, mem_divisions.2 hfits, by simp [valuesOf?_eq_some.2 hholds]⟩
  · rintro ⟨d, hmem, hvalues⟩
    obtain ⟨values, hvalues⟩ := Option.ne_none_iff_exists'.1 hvalues
    exact ⟨d, values, mem_divisions.1 hmem, valuesOf?_eq_some.1 hvalues⟩

end Attempts

/-! ## The reader of lists -/

theorem mem_occurrences {terminator t : Text} {i : Nat} :
    i ∈ Text.occurrences terminator t ↔ EndsAt terminator t i := by
  simp [Text.occurrences, Text.mem_occurrencesFrom, EndsAt]

theorem pairwise_occurrencesFrom (terminator : Text) (offset : Nat) (t : Text) :
    (Text.occurrencesFrom terminator offset t).Pairwise (· < ·) := by
  induction t generalizing offset with
  | nil =>
      rw [Text.occurrencesFrom]
      split
      · exact List.pairwise_singleton _ _
      · exact List.Pairwise.nil
  | cons c t ih =>
      rw [Text.occurrencesFrom]
      split
      · refine List.pairwise_cons.2 ⟨fun i hi => ?_, ih (offset + 1)⟩
        obtain ⟨n, -, rfl, -⟩ := Text.mem_occurrencesFrom.1 hi
        omega
      · exact ih (offset + 1)

section ListUntil

variable {item : Reader α} {t : Text}

/-- The values of the preferred division of a text into items. -/
def valuesAt? (item : Reader α) (t : Text) (i : Nat) : Option (List α) :=
  (divisions (t.take i)).findSome? (valuesOf? item (t.take i))

theorem outcome_listTrials_fst (item : Reader α) (t : Text) (is : List Nat) :
    (outcome (is.flatMap (listTrials item t))).1 =
      is.findSome? fun i => (valuesAt? item t i).map (·, i) := by
  rw [outcome_fst, findSome?_flatMap]
  congr 1
  funext i
  rw [valuesAt?, ← findSome?_attempts, listTrials, List.map_findSome?, List.findSome?_map]
  congr 1
  funext x
  cases x <;> rfl

theorem outcome_listTrials_snd (item : Reader α) (t : Text) (is : List Nat)
    (h : (outcome (is.flatMap (listTrials item t))).1 = none) :
    (outcome (is.flatMap (listTrials item t))).2 =
      is.findSome? fun i => firstRefusal? item (t.take i) := by
  rw [outcome_snd h, findSome?_flatMap]
  congr 1
  funext i
  rw [firstRefusal?, listTrials, List.map_map, List.findSome?_map]
  congr 1
  funext row
  simp only [Function.comp_apply]
  cases trial item (t.take i) row <;> rfl

theorem isList_iff_valuesAt? {i : Nat} : IsList item (t.take i) ↔ valuesAt? item t i ≠ none :=
  isList_iff

theorem decided_found {terminator : Text} {values : List α} {index : Nat}
    (h : (Text.occurrences terminator t).findSome? (fun i => (valuesAt? item t i).map (·, i)) =
      some (values, index)) :
    Decided terminator item t (.found values (t.drop (index + terminator.length))) := by
  obtain ⟨earlier, i, later, hoccurrences, hvalues, hearlier⟩ := List.findSome?_eq_some_iff.1 h
  obtain ⟨values', hvalues, hpair⟩ := Option.map_eq_some_iff.1 hvalues
  cases hpair
  have horder := pairwise_occurrencesFrom terminator 0 t
  have hends : EndsAt terminator t index := mem_occurrences.1 (by simp [hoccurrences])
  have hlist : IsList item (t.take index) := isList_iff_valuesAt?.2 (by simp [hvalues])
  -- the occurrences are tried from left to right, so that those before it were tried in vain
  have hleftmost : ∀ j < index, EndsAt terminator t j → ¬ IsList item (t.take j) := by
    intro j hlt hj
    have hmem := mem_occurrences.2 hj
    rw [Text.occurrences] at hmem hoccurrences
    rw [hoccurrences, List.pairwise_append, List.pairwise_cons] at horder
    rw [hoccurrences, List.mem_append, List.mem_cons] at hmem
    rcases hmem with hmem | rfl | hmem
    · rw [isList_iff_valuesAt?, not_not]
      exact Option.map_eq_none_iff.1 (hearlier j hmem)
    · exact absurd hlt (Nat.lt_irrefl j)
    · exact absurd (horder.2.1.1 j hmem) (Nat.lt_asymm hlt)
  refine ⟨iff_of_true ⟨_, _, rfl⟩ ⟨index, hends, hlist⟩, ?_, fun hnot =>
    absurd ⟨index, hends, hlist⟩ hnot⟩
  rintro _ _ ⟨⟩
  exact ⟨index, hends, hleftmost, preferred_of_findSome? hvalues, rfl⟩

theorem decided_not_found {terminator : Text} {r : Reading (List α)}
    (h : (Text.occurrences terminator t).findSome? (fun i => (valuesAt? item t i).map (·, i)) =
      none)
    (hr : r = match (Text.occurrences terminator t).findSome? fun i =>
        firstRefusal? item (t.take i) with
      | some refusal => .broken (.refused refusal)
      | none => .missed) :
    Decided terminator item t r := by
  have hnone : ¬ ∃ i, EndsAt terminator t i ∧ IsList item (t.take i) := by
    rintro ⟨i, hends, hlist⟩
    have hvalues := List.findSome?_eq_none_iff.1 h i (mem_occurrences.2 hends)
    exact isList_iff_valuesAt?.1 hlist (Option.map_eq_none_iff.1 hvalues)
  have hnot : ∀ values rest, r ≠ .found values rest := by
    intro values rest heq
    rw [hr] at heq
    split at heq <;> cases heq
  exact ⟨iff_of_false (fun ⟨_, _, heq⟩ => hnot _ _ heq) hnone, fun heq => absurd heq (hnot _ _),
    fun _ => hr⟩

theorem Decided.ne_tooDeep {terminator : Text} {r : Reading (List α)}
    (h : Decided terminator item t r) : r ≠ .broken .tooDeep := by
  rintro rfl
  by_cases hlist : ∃ i, EndsAt terminator t i ∧ IsList item (t.take i)
  · obtain ⟨values, rest, heq⟩ := h.found_iff.2 hlist
    cases heq
  · have heq := h.not_found hlist
    split at heq <;> cases heq

theorem onlyRefuses_plainName : OnlyRefuses Reader.plainName :=
  onlyRefuses_of_neverBreaks Reader.neverBreaks_plainName

/-- The reader finds a list exactly if there is one before some terminator, and which one it is;
    unless there are more separators before a terminator than it has room for. -/
theorem listUntil_decides (hitem : OnlyRefuses item) (terminator : Text) (room : Nat) (t : Text) :
    Decided terminator item t (Reader.listUntil terminator item room t) ∨
      (Reader.listUntil terminator item room t = .broken .tooDeep ∧
        ∃ i, EndsAt terminator t i ∧ room < (separators (t.take i)).length) := by
  rcases listUntil_of_trials room hitem terminator t with hread | ⟨hdeep, i, hi, hlong⟩
  · left
    have hfst := outcome_listTrials_fst item t (Text.occurrences terminator t)
    have hsnd := outcome_listTrials_snd item t (Text.occurrences terminator t)
    rcases hout : outcome ((Text.occurrences terminator t).flatMap (listTrials item t)) with
      ⟨_ | ⟨values, index⟩, refusal⟩ <;> rw [hout] at hread hfst hsnd
    · refine decided_not_found hfst.symm ?_
      rw [hread, ← hsnd rfl]
      cases refusal <;> rfl
    · rw [hread]
      exact decided_found hfst.symm
  · exact .inr ⟨hdeep, i, mem_occurrences.1 hi, hlong⟩

end ListUntil

theorem listUntil_decides_names :
    OnlyRefuses Reader.plainName ∧
      Decided " an".toList Reader.plainName "a, b und c an!".toList
        (Reader.listUntil " an".toList Reader.plainName Grammar.depthLimit "a, b und c an!".toList) :=
  ⟨onlyRefuses_plainName,
    (listUntil_decides onlyRefuses_plainName " an".toList Grammar.depthLimit _).resolve_right
      fun h => absurd h.1 (by decide +kernel)⟩

/-! ## How long a list may be -/

section Length

variable {piece : Nat → Nat → Search (Option α)} {room stop least start : Nat}
  {before after : Progress} {found : List α}

theorem resume_eq_ok {findings : Findings (List α)}
    (h : resume room findings before = .ok (some found, after)) :
    ∃ behind, findings = .ok (some found, behind) ∧ behind.depth < room ∧
      behind.depth + 1 ≤ after.depth := by
  cases findings with
  | error e => cases h
  | ok parts =>
      obtain ⟨found', behind⟩ := parts
      rw [resume] at h
      split at h
      · cases h
      · rename_i hroom
        cases h
        exact ⟨behind, rfl, Nat.lt_of_not_le hroom, Nat.le_max_right _ _⟩

/-- Behind the first of the items of a head stand as many as were counted, and no more than there is
    room for. -/
theorem length_of_heads {seps : List Span}
    (h : heads piece room stop least start (tailsOf piece room stop seps) before =
      .ok (some found, after)) :
    found.length ≤ room + 1 ∧ found.length ≤ after.depth + 1 := by
  induction seps generalizing least start before after found with
  | nil =>
      rw [tailsOf, heads] at h
      split at h
      · obtain ⟨a?, between, -, hfound⟩ := Search.bind_eq_ok.1 h
        cases a? <;> cases hfound
        simp
      · cases h
  | cons separator seps ih =>
      rw [tailsOf, heads] at h
      obtain ⟨a?, between, -, h⟩ := Search.bind_eq_ok.1 h
      cases a? with
      | none => exact ih h
      | some a =>
          obtain ⟨others?, between', hresume, h⟩ := Search.bind_eq_ok.1 h
          cases others? with
          | none => exact ih h
          | some others =>
              cases h
              obtain ⟨behind, hothers, hroom, hdepth⟩ := resume_eq_ok hresume
              have hlength := (ih hothers).2
              rw [List.length_cons]
              omega

/-- A list has at most two items more than there is room for. -/
theorem length_of_items {seps joins : List Span} {length : Nat}
    (h : items piece room seps joins length before = .ok (some found, after)) :
    found.length ≤ room + 2 := by
  rw [items_eq] at h
  obtain ⟨three, between, hthree, h⟩ := Search.bind_eq_ok.1 h
  cases three with
  | some found' =>
      cases h
      obtain ⟨join, -, s, s', hjoin⟩ := Search.exists_of_firstSome hthree
      obtain ⟨others?, t, hheads, hjoin⟩ := Search.bind_eq_ok.1 hjoin
      cases others? with
      | none => cases hjoin
      | some others =>
          obtain ⟨a?, t', -, hlast⟩ := Search.bind_eq_ok.1 hjoin
          cases a? <;> cases hlast
          have hlength := (length_of_heads hheads).1
          rw [List.length_append, List.length_singleton]
          omega
  | none =>
      obtain ⟨two, between', htwo, h⟩ := Search.bind_eq_ok.1 h
      cases two with
      | some found' =>
          cases h
          obtain ⟨join, -, s, s', hjoin⟩ := Search.exists_of_firstSome htwo
          obtain ⟨a?, t, -, hjoin⟩ := Search.bind_eq_ok.1 hjoin
          cases a? with
          | none => cases hjoin
          | some a =>
              obtain ⟨b?, t', -, hlast⟩ := Search.bind_eq_ok.1 hjoin
              cases b? <;> cases hlast
              simp
      | none =>
          obtain ⟨a?, t, -, hone⟩ := Search.bind_eq_ok.1 h
          cases a? <;> cases hone
          simp

theorem length_of_listUntil {item : Reader α} {terminator t rest : Text} {values : List α}
    (h : Reader.listUntil terminator item room t = .found values rest) :
    values.length ≤ room + 2 := by
  rw [listUntil_eq] at h
  split at h
  · rename_i found index progress hsearch
    cases h
    obtain ⟨i, -, s, s', hlist⟩ := Search.exists_of_firstSome hsearch
    obtain ⟨found?, t', hitems, hlist⟩ := Search.bind_eq_ok.1 hlist
    cases found? <;> cases hlist
    rw [itemsOf_eq] at hitems
    exact length_of_items hitems
  · cases h
  · cases h
  · cases h

end Length

/-- Whatever there is room for, a list can be longer. -/
theorem listUntil_not_decided :
    ¬ ∃ room, ∀ t, Decided " und macht".toList Reader.plainName t
      (Reader.listUntil " und macht".toList Reader.plainName room t) := by
  rintro ⟨room, hdecided⟩
  let names : List Surface.PlainName :=
    List.replicate (room + 3) ⟨["a".toList], by decide, by decide⟩
  have hlength : names.length = room + 3 := List.length_replicate
  have hne : names ≠ [] := List.ne_nil_of_length_pos (by omega)
  have hroom : names.length ≤ (room + 2) + 1 := by omega
  -- with more room the names would be found, and with this room there are too many of them
  have hread := Surface.read_parameters hne hroom []
  have h := hdecided
    (enumeration (names.map Surface.PlainName.text) ++ (" und macht".toList ++ []))
  rcases (Reader.deepens_refl Reader.plainName).listUntil (Nat.le_add_right room 2)
    " und macht".toList _ with hdeep | hsame
  · exact h.ne_tooDeep hdeep
  · have hle := length_of_listUntil (hsame.trans hread)
    rw [List.length_map] at hle
    omega

end Enumeration

end Klartext
