import Klartext.Proofs.Enumeration.Search

set_option autoImplicit false

/-! # Where a list is cut

A list as it is written fixes where its items begin and end. The search for a way to cut it tries
every separator, also one inside an item, and every end, also one that cuts an item off. It comes
upon the written items all the same, because a piece that begins where an item begins is an item
only if it ends where that item ends (`Pieces`): so whatever the search finds, every piece of it
begins where an item begins. -/

namespace Klartext

namespace Enumeration

open Search

/-- An item in the text of a list, from offset `start` up to but not including offset `stop`. -/
structure Mark (α : Type) where
  start : Nat
  stop : Nat
  value : α
  /-- The number of digits behind a comma in the item, if that is too large. -/
  overlong? : Option Nat

variable {α : Type}

/-- The first number with too many digits. -/
def firstOverlong? (marks : List (Mark α)) : Option Nat := marks.findSome? Mark.overlong?

theorem firstOverlong?_cons {m : Mark α} (h : m.overlong? = none) (marks : List (Mark α)) :
    firstOverlong? (m :: marks) = firstOverlong? marks := by
  simp [firstOverlong?, h]

/-- The gaps between the items but the last; the separators stand there. -/
def gaps : List (Mark α) → List Span
  | m :: m' :: m'' :: rest => ⟨m.stop, m'.start⟩ :: gaps (m' :: m'' :: rest)
  | _ => []

theorem gaps_cons_cons (m m' last : Mark α) (middle : List (Mark α)) :
    gaps (m :: m' :: (middle ++ [last])) =
      ⟨m.stop, m'.start⟩ :: gaps (m' :: (middle ++ [last])) := by
  cases middle <;> rfl

/-- What the pieces of a text of `length` characters are that begin where an item begins: the item
    if they end with it, and no item if they end at another offset at which the search cuts. -/
structure Pieces (marks : List (Mark α)) (piece : Nat → Nat → Search (Option α))
    (cut : Nat → Prop) (length : Nat) : Prop where
  hit : ∀ depth {m rest}, m :: rest <:+ marks → m.stop ≤ length →
    Yields (firstOverlong? (m :: rest)) depth (fun r => m.overlong? = none ∧ r = some m.value)
      (piece m.start m.stop)
  miss : ∀ depth {m rest c}, m :: rest <:+ marks → cut c → c ≤ length → c ≠ m.stop →
    Yields (firstOverlong? (m :: rest)) depth (· = none) (piece m.start c)

/-- A separator stands behind an item only if two more items follow, and leads to the next one. -/
structure IsSeparator (marks : List (Mark α)) (cut : Nat → Prop) (length : Nat) (s : Span) :
    Prop where
  cut : cut s.start
  le_length : s.start ≤ length
  next : ∀ {m rest}, m :: rest <:+ marks → s.start = m.stop →
    ∃ m' m'' rest', rest = m' :: m'' :: rest' ∧ m'.start = s.stop

/-- A join stands behind an item only if one more item follows, and leads to it. -/
structure IsJoin (marks : List (Mark α)) (cut : Nat → Prop) (length : Nat) (j : Span) :
    Prop where
  cut : cut j.start
  le_length : j.start ≤ length
  next : ∀ {m rest}, m :: rest <:+ marks → j.start = m.stop → ∃ m', rest = [m'] ∧ m'.start = j.stop

section Heads

variable {marks : List (Mark α)} {piece : Nat → Nat → Search (Option α)} {cut : Nat → Prop}
  {length room stop : Nat}

/-- Either nothing is found, or what is found ends with one of the items `behind`, and no number up
    to it has too many digits. -/
def Located (marks behind : List (Mark α)) (stop : Nat) (r : Option (List α)) : Prop :=
  r = none ∨ ∃ m rest, m :: rest <:+ behind ∧ m.stop = stop ∧
    firstOverlong? marks = firstOverlong? rest

/-- Items that begin with a written item end with one. -/
theorem heads_located (hp : Pieces marks piece cut length) (hroom : marks.length ≤ room + 1)
    (hcut : cut stop) (hstop : stop ≤ length) {seps : List Span}
    (hseps : ∀ s ∈ seps, IsSeparator marks cut length s) {m : Mark α} {rest : List (Mark α)}
    (hm : m :: rest <:+ marks) (least : Nat) :
    Yields (firstOverlong? (m :: rest)) rest.length
      (Located (m :: rest) (if least ≤ 1 then m :: rest else rest) stop)
      (heads piece room stop least m.start (tailsOf piece room stop seps)) := by
  induction seps generalizing m rest least with
  | nil =>
      simp only [tailsOf, heads]
      by_cases hleast : least ≤ 1
      · rw [if_pos hleast, if_pos hleast]
        by_cases hend : stop = m.stop
        · subst hend
          refine (hp.hit _ hm hstop).bind ?_
          rintro _ ⟨ho, rfl⟩
          exact yields_pure (Or.inr ⟨m, rest, List.suffix_refl _, rfl, firstOverlong?_cons ho rest⟩)
        · refine (hp.miss _ hm hcut hstop hend).bind ?_
          rintro _ rfl
          exact yields_pure (Or.inl rfl)
      · rw [if_neg hleast, if_neg hleast]
        exact yields_pure (Or.inl rfl)
  | cons s seps ih =>
      obtain ⟨hs, hseps⟩ := List.forall_mem_cons.1 hseps
      simp only [tailsOf, heads]
      by_cases hend : s.start = m.stop
      · -- the separator stands behind the item and leads to the next one
        obtain ⟨m', m'', rest', rfl, hstart⟩ := hs.next hm hend
        have hm' : m' :: m'' :: rest' <:+ marks := (List.suffix_cons m _).trans hm
        have hlength := hm.length_le
        have hdeeper : (m'' :: rest').length < room := by
          simp only [List.length_cons] at hlength ⊢
          omega
        rw [hend]
        refine (hp.hit _ hm (hend ▸ hs.le_length)).bind ?_
        rintro _ ⟨ho, rfl⟩
        have htail := (ih hseps hm' 1).resume hdeeper
        rw [hstart, ← firstOverlong?_cons ho] at htail
        refine htail.bind ?_
        intro r hr
        cases r with
        | none =>
            -- the search goes on with the later separators, from the same item
            exact ih hseps hm least
        | some others =>
            rcases hr with hnone | ⟨l, after, hsuffix, hl, hfirst⟩
            · cases hnone
            · refine yields_pure
                (Or.inr ⟨l, after, ?_, hl, (firstOverlong?_cons ho _).trans hfirst⟩)
              split
              · exact hsuffix.trans (List.suffix_cons m _)
              · exact hsuffix
      · refine (hp.miss _ hm hs.cut hs.le_length hend).bind ?_
        rintro _ rfl
        exact ih hseps hm least

/-- The items but the last are found if the search ends behind them. -/
theorem heads_found (hp : Pieces marks piece cut length) (hroom : marks.length ≤ room + 1)
    (hstop : stop ≤ length) {seps : List Span}
    (hseps : ∀ s ∈ seps, cut s.start ∧ s.start < stop)
    (hends : ∀ s ∈ seps, ∀ s' ∈ seps, s.start = s'.start → s = s')
    {middle : List (Mark α)} {m last : Mark α} (hm : m :: (middle ++ [last]) <:+ marks)
    (hgaps : (gaps (m :: (middle ++ [last]))).Sublist seps) (least : Nat)
    (hleast : least ≤ middle.length + 1)
    (hend : ((m :: middle).getLast (by simp)).stop = stop) :
    Yields (firstOverlong? (m :: (middle ++ [last]))) middle.length
      (fun r => firstOverlong? (m :: (middle ++ [last])) = firstOverlong? [last] ∧
        r = some ((m :: middle).map Mark.value))
      (heads piece room stop least m.start (tailsOf piece room stop seps)) := by
  induction seps generalizing m middle least with
  | nil =>
      cases middle with
      | cons m' middle =>
          rw [List.cons_append, gaps_cons_cons] at hgaps
          cases hgaps
      | nil =>
          have hend : m.stop = stop := hend
          subst hend
          simp only [tailsOf, heads]
          rw [if_pos (by simpa using hleast)]
          refine (hp.hit _ hm hstop).bind ?_
          rintro _ ⟨ho, rfl⟩
          exact yields_pure ⟨firstOverlong?_cons ho _, rfl⟩
  | cons s seps ih =>
      obtain ⟨⟨hcut, hbefore⟩, hseps'⟩ := List.forall_mem_cons.1 hseps
      have hends' : ∀ s ∈ seps, ∀ s' ∈ seps, s.start = s'.start → s = s' :=
        fun t ht t' ht' => hends t (List.mem_cons_of_mem s ht) t' (List.mem_cons_of_mem s ht')
      simp only [tailsOf, heads]
      by_cases hs : s.start = m.stop
      · cases middle with
        | nil =>
            -- no separator stands where the search ends
            have hend : m.stop = stop := hend
            omega
        | cons m' middle =>
            rw [List.cons_append, gaps_cons_cons] at hgaps
            -- the separator is the gap, since no other stands in its place
            have hgap : s = ⟨m.stop, m'.start⟩ :=
              hends s List.mem_cons_self _ (hgaps.subset List.mem_cons_self) hs
            subst hgap
            have hm' : m' :: (middle ++ [last]) <:+ marks := (List.suffix_cons m _).trans hm
            have hlength := hm.length_le
            have hdeeper : middle.length < room := by
              simp only [List.length_cons, List.length_append] at hlength
              omega
            refine (hp.hit _ hm (by simp only at hbefore; omega)).bind ?_
            rintro _ ⟨ho, rfl⟩
            have htail := (ih hseps' hends' hm' (List.cons_sublist_cons.1 hgaps) 1
              (Nat.succ_le_succ (Nat.zero_le _)) hend).resume hdeeper
            rw [← firstOverlong?_cons ho] at htail
            refine htail.bind ?_
            rintro _ ⟨hfirst, rfl⟩
            exact yields_pure ⟨hfirst, rfl⟩
      · refine (hp.miss _ hm hcut (by omega) hs).bind ?_
        rintro _ rfl
        -- the gaps are among the later separators
        refine ih hseps' hends' hm ?_ least hleast hend
        cases middle with
        | nil => exact List.nil_sublist _
        | cons m' middle =>
            rw [List.cons_append, gaps_cons_cons] at hgaps ⊢
            cases hgaps with
            | cons _ hlater => exact hlater
            | cons_cons => exact absurd rfl hs

end Heads

/-! ## The three ways of cutting -/

section Ways

variable (piece : Nat → Nat → Search (Option α)) (room : Nat) (seps : List Span) (length : Nat)

/-- Three or more items, the last of them behind a join. -/
def threeAt (join : Span) : Search (Option (List α)) := do
  let before := seps.filter fun s => s.stop ≤ join.start
  match ← heads piece room join.start 2 0 (tailsOf piece room join.start before) with
  | none => pure none
  | some others =>
    match ← piece join.stop length with
    | some a => pure (some (others ++ [a]))
    | none => pure none

/-- Two items with a join between them. -/
def twoAt (join : Span) : Search (Option (List α)) := do
  match ← piece 0 join.start with
  | none => pure none
  | some a =>
    match ← piece join.stop length with
    | some b => pure (some [a, b])
    | none => pure none

/-- One item. -/
def oneAt : Search (Option (List α)) := do
  match ← piece 0 length with
  | some a => pure (some [a])
  | none => pure none

theorem items_eq (joins : List Span) :
    items piece room seps joins length = (do
      match ← firstSome (threeAt piece room seps length) (if seps.isEmpty then [] else joins) with
      | some found => pure (some found)
      | none =>
        match ← firstSome (twoAt piece length) joins with
        | some found => pure (some found)
        | none => oneAt piece length) :=
  rfl

end Ways

section Items

variable {marks : List (Mark α)} {piece : Nat → Nat → Search (Option α)} {cut : Nat → Prop}
  {length room : Nat} {seps joins : List Span} {m : Mark α} {rest : List (Mark α)}

/-- What stands before a join are items only if the join is the one behind the last but one. -/
theorem heads_before_join (hp : Pieces (m :: rest) piece cut length) (hstart : m.start = 0)
    (hroom : rest.length ≤ room) (hseps : ∀ s ∈ seps, IsSeparator (m :: rest) cut length s)
    {join : Span} (hjoin : IsJoin (m :: rest) cut length join) :
    Yields (firstOverlong? (m :: rest)) rest.length
      (fun r => r = none ∨ ∃ l last, [l, last] <:+ rest ∧ l.stop = join.start ∧
        last.start = join.stop ∧ firstOverlong? (m :: rest) = firstOverlong? [last])
      (heads piece room join.start 2 0
        (tailsOf piece room join.start (seps.filter fun s => s.stop ≤ join.start))) := by
  have hbefore : ∀ s ∈ seps.filter fun s => s.stop ≤ join.start,
      IsSeparator (m :: rest) cut length s :=
    fun s hs => hseps s (List.mem_filter.1 hs).1
  have hlocated := heads_located hp (Nat.succ_le_succ hroom) hjoin.cut hjoin.le_length hbefore
    (List.suffix_refl _) 2
  rw [hstart] at hlocated
  refine hlocated.mono (Nat.le_refl _) ?_
  rintro r (hnone | ⟨l, after, hsuffix, hstop, hfirst⟩)
  · exact .inl hnone
  · obtain ⟨last, rfl, hlast⟩ :=
      hjoin.next (hsuffix.trans (List.suffix_cons m rest)) hstop.symm
    exact .inr ⟨l, last, hsuffix, hstop, hlast, hfirst⟩

/-- What stands before a join is an item only if it is the first of two. -/
theorem piece_before_join (hp : Pieces (m :: rest) piece cut length) (hstart : m.start = 0)
    {join : Span} (hjoin : IsJoin (m :: rest) cut length join) :
    Yields (firstOverlong? (m :: rest)) rest.length
      (fun r => r = none ∨ r = some m.value ∧ ∃ last, rest = [last] ∧ last.start = join.stop ∧
        firstOverlong? (m :: rest) = firstOverlong? [last])
      (piece 0 join.start) := by
  have hm : m :: rest <:+ m :: rest := List.suffix_refl _
  rw [← hstart]
  by_cases hend : join.start = m.stop
  · obtain ⟨last, rfl, hlast⟩ := hjoin.next hm hend
    rw [hend]
    refine (hp.hit _ hm (hend ▸ hjoin.le_length)).mono (Nat.le_refl _) ?_
    rintro r ⟨ho, rfl⟩
    exact .inr ⟨rfl, last, rfl, hlast, firstOverlong?_cons ho _⟩
  · exact (hp.miss _ hm hjoin.cut hjoin.le_length hend).mono (Nat.le_refl _) fun _ h => .inl h

/-- The join behind an item leads to the items, the other joins to nothing. -/
theorem firstSome_joins {g : Span → Search (Option (List α))} {o : Option Nat} {depth stop : Nat}
    {found : List α}
    (hthere : ∀ j ∈ joins, j.start = stop →
      Yields o depth (fun r => o = none ∧ r = some found) (g j))
    (helsewhere : ∀ j ∈ joins, j.start ≠ stop → Yields o depth (· = none) (g j))
    (hjoin : ∃ j ∈ joins, j.start = stop) :
    Yields o depth (fun r => o = none ∧ r = some found) (firstSome g joins) := by
  obtain ⟨join, hmem, hstop⟩ := hjoin
  refine yields_firstSome ?_ ?_ ⟨join, hmem, hthere join hmem hstop⟩
  · rintro _ ⟨_, rfl⟩ hnone
    cases hnone
  · intro j hj
    by_cases hend : j.start = stop
    · exact .inl (hthere j hj hend)
    · exact .inr (helsewhere j hj hend)

/-! ### Texts that were cut off -/

section CutOff

variable (hp : Pieces (m :: rest) piece cut length) (hstart : m.start = 0) (hcut : cut length)
  (hlength : ∀ l ∈ m :: rest, length ≠ l.stop)
include hp hcut hlength

/-- The text does not end with an item. -/
theorem last_none {l : Mark α} {after : List (Mark α)} (hl : l :: after <:+ m :: rest)
    (depth : Nat) : Yields (firstOverlong? (l :: after)) depth (· = none) (piece l.start length) :=
  hp.miss depth hl hcut (Nat.le_refl _) (hlength l (hl.subset List.mem_cons_self))

include hstart

theorem threeAt_cutOff (hroom : rest.length ≤ room)
    (hseps : ∀ s ∈ seps, IsSeparator (m :: rest) cut length s) {join : Span}
    (hjoin : IsJoin (m :: rest) cut length join) :
    Yields (firstOverlong? (m :: rest)) rest.length (· = none)
      (threeAt piece room seps length join) := by
  refine (heads_before_join hp hstart hroom hseps hjoin).bind ?_
  rintro r (rfl | ⟨l, last, hsuffix, _, hlast, hfirst⟩)
  · exact yields_pure rfl
  · cases r with
    | none => exact yields_pure rfl
    | some others =>
        have hsuffix' : [last] <:+ m :: rest :=
          (List.suffix_cons l _).trans (hsuffix.trans (List.suffix_cons m rest))
        rw [hfirst, ← hlast]
        refine (last_none hp hcut hlength hsuffix' _).bind ?_
        rintro _ rfl
        exact yields_pure rfl

theorem twoAt_cutOff {join : Span} (hjoin : IsJoin (m :: rest) cut length join) :
    Yields (firstOverlong? (m :: rest)) rest.length (· = none) (twoAt piece length join) := by
  refine (piece_before_join hp hstart hjoin).bind ?_
  rintro r (rfl | ⟨rfl, last, rfl, hlast, hfirst⟩)
  · exact yields_pure rfl
  · rw [hfirst, ← hlast]
    refine (last_none hp hcut hlength (List.suffix_cons m _) _).bind ?_
    rintro _ rfl
    exact yields_pure rfl

theorem oneAt_cutOff :
    Yields (firstOverlong? (m :: rest)) rest.length (· = none) (oneAt piece length) := by
  have hread := last_none hp hcut hlength (List.suffix_refl _) rest.length
  rw [hstart] at hread
  refine hread.bind ?_
  rintro _ rfl
  exact yields_pure rfl

/-- A text that was cut off before the end of the list is no list. -/
theorem items_none (hroom : rest.length ≤ room)
    (hseps : ∀ s ∈ seps, IsSeparator (m :: rest) cut length s)
    (hjoins : ∀ j ∈ joins, IsJoin (m :: rest) cut length j) :
    Yields (firstOverlong? (m :: rest)) rest.length (· = none)
      (items piece room seps joins length) := by
  rw [items_eq]
  refine (yields_firstSome_none ?_).bind ?_
  · intro j hj
    split at hj
    · cases hj
    · exact threeAt_cutOff hp hstart hcut hlength hroom hseps (hjoins j hj)
  · rintro _ rfl
    refine (yields_firstSome_none fun j hj =>
      twoAt_cutOff hp hstart hcut hlength (hjoins j hj)).bind ?_
    rintro _ rfl
    exact oneAt_cutOff hp hstart hcut hlength

end CutOff

/-! ### One item and two -/

/-- There are no three items where fewer are written. -/
theorem threeAt_none (hp : Pieces (m :: rest) piece cut length) (hstart : m.start = 0)
    (hroom : rest.length ≤ room) (hseps : ∀ s ∈ seps, IsSeparator (m :: rest) cut length s)
    (hfew : rest.length ≤ 1) {j : Span} (hj : IsJoin (m :: rest) cut length j) :
    Yields (firstOverlong? (m :: rest)) rest.length (· = none)
      (threeAt piece room seps length j) := by
  refine (heads_before_join hp hstart hroom hseps hj).bind ?_
  rintro r (rfl | ⟨l, last, hsuffix, _⟩)
  · exact yields_pure rfl
  · have hlength := hsuffix.length_le
    simp only [List.length_cons, List.length_nil] at hlength
    omega

theorem firstSome_threeAt_none (hp : Pieces (m :: rest) piece cut length) (hstart : m.start = 0)
    (hroom : rest.length ≤ room) (hseps : ∀ s ∈ seps, IsSeparator (m :: rest) cut length s)
    (hjoins : ∀ j ∈ joins, IsJoin (m :: rest) cut length j) (hfew : rest.length ≤ 1) :
    Yields (firstOverlong? (m :: rest)) rest.length (· = none)
      (firstSome (threeAt piece room seps length) (if seps.isEmpty then [] else joins)) := by
  refine yields_firstSome_none ?_
  intro j hj
  split at hj
  · cases hj
  · exact threeAt_none hp hstart hroom hseps hfew (hjoins j hj)

theorem items_found_one (hp : Pieces [m] piece cut length) (hstart : m.start = 0)
    (hseps : ∀ s ∈ seps, IsSeparator [m] cut length s)
    (hjoins : ∀ j ∈ joins, IsJoin [m] cut length j) (hlength : m.stop = length) :
    Yields (firstOverlong? [m]) 0
      (fun r => firstOverlong? [m] = none ∧ r = some [m.value])
      (items piece room seps joins length) := by
  have htwo : ∀ j ∈ joins, Yields (firstOverlong? [m]) 0 (· = none) (twoAt piece length j) := by
    intro j hj
    refine (piece_before_join hp hstart (hjoins j hj)).bind ?_
    rintro r (rfl | ⟨_, last, hlast, _⟩)
    · exact yields_pure rfl
    · cases hlast
  rw [items_eq]
  refine (firstSome_threeAt_none hp hstart (Nat.zero_le _) hseps hjoins (Nat.zero_le _)).bind ?_
  rintro _ rfl
  refine (yields_firstSome_none htwo).bind ?_
  rintro _ rfl
  have hit := hp.hit 0 (List.suffix_refl _) (Nat.le_of_eq hlength)
  rw [hstart, hlength] at hit
  refine hit.bind ?_
  rintro _ ⟨ho, rfl⟩
  exact yields_pure ⟨firstOverlong?_cons ho [], rfl⟩

theorem twoAt_found {last : Mark α} (hp : Pieces [m, last] piece cut length)
    (hstart : m.start = 0) (hlength : last.stop = length) {join : Span}
    (hjoin : IsJoin [m, last] cut length join) (hend : join.start = m.stop) :
    Yields (firstOverlong? [m, last]) 1
      (fun r => firstOverlong? [m, last] = none ∧ r = some [m.value, last.value])
      (twoAt piece length join) := by
  obtain ⟨last', hlast', hnext⟩ := hjoin.next (List.suffix_refl _) hend
  obtain ⟨rfl, _⟩ := List.cons.inj hlast'
  have hfirst := hp.hit 1 (List.suffix_refl _) (hend ▸ hjoin.le_length)
  rw [hstart, ← hend] at hfirst
  refine hfirst.bind ?_
  rintro _ ⟨ho, rfl⟩
  have hsecond := hp.hit 1 (List.suffix_cons m _) (Nat.le_of_eq hlength)
  rw [hnext, hlength, ← firstOverlong?_cons ho] at hsecond
  refine hsecond.bind ?_
  rintro _ ⟨ho', rfl⟩
  exact yields_pure ⟨(firstOverlong?_cons ho _).trans (firstOverlong?_cons ho' []), rfl⟩

theorem items_found_two {last : Mark α} (hp : Pieces [m, last] piece cut length)
    (hstart : m.start = 0) (hroom : 1 ≤ room)
    (hseps : ∀ s ∈ seps, IsSeparator [m, last] cut length s)
    (hjoins : ∀ j ∈ joins, IsJoin [m, last] cut length j)
    (hjoin : ⟨m.stop, last.start⟩ ∈ joins) (hlength : last.stop = length) :
    Yields (firstOverlong? [m, last]) 1
      (fun r => firstOverlong? [m, last] = none ∧ r = some [m.value, last.value])
      (items piece room seps joins length) := by
  rw [items_eq]
  refine (firstSome_threeAt_none hp hstart hroom hseps hjoins (Nat.le_refl _)).bind ?_
  rintro _ rfl
  refine (firstSome_joins (fun j hj => twoAt_found hp hstart hlength (hjoins j hj)) ?_
    ⟨_, hjoin, rfl⟩).bind ?_
  · intro j hj hend
    have hmiss := hp.miss 1 (List.suffix_refl _) (hjoins j hj).cut (hjoins j hj).le_length hend
    rw [hstart] at hmiss
    refine hmiss.bind ?_
    rintro _ rfl
    exact yields_pure rfl
  · rintro _ ⟨hfirst, rfl⟩
    exact yields_pure ⟨hfirst, rfl⟩

/-! ### More items -/

section More

variable {front : List (Mark α)} {l last : Mark α}
  (hp : Pieces (m :: (front ++ [l, last])) piece cut length) (hstart : m.start = 0)
  (hroom : (front ++ [l, last]).length ≤ room)
  (hseps : ∀ s ∈ seps, IsSeparator (m :: (front ++ [l, last])) cut length s)
include hp hstart hroom hseps

theorem threeAt_found (hends : ∀ s ∈ seps, ∀ s' ∈ seps, s.start = s'.start → s = s')
    (horder : ∀ s ∈ seps, s.start < s.stop)
    (hgaps : (gaps (m :: (front ++ [l, last]))).Sublist seps)
    (hbefore : ∀ s ∈ gaps (m :: (front ++ [l, last])), s.stop ≤ l.stop)
    (hlength : last.stop = length) {join : Span}
    (hjoin : IsJoin (m :: (front ++ [l, last])) cut length join) (hend : join.start = l.stop) :
    Yields (firstOverlong? (m :: (front ++ [l, last]))) (front ++ [l, last]).length
      (fun r => firstOverlong? (m :: (front ++ [l, last])) = none ∧
        r = some ((m :: (front ++ [l, last])).map Mark.value))
      (threeAt piece room seps length join) := by
  have hsplit : front ++ [l, last] = (front ++ [l]) ++ [last] := by simp
  have htwo : [l, last] <:+ m :: (front ++ [l, last]) :=
    (List.suffix_append front _).trans (List.suffix_cons m _)
  obtain ⟨last', hlast', hnext⟩ := hjoin.next htwo hend
  obtain ⟨rfl, _⟩ := List.cons.inj hlast'
  -- only the separators before the join are used, and all gaps are among them
  have hkept : ∀ s ∈ seps.filter fun s => s.stop ≤ join.start, s ∈ seps ∧ s.stop ≤ join.start := by
    intro s hs
    obtain ⟨hs, hstop⟩ := List.mem_filter.1 hs
    exact ⟨hs, by simpa using hstop⟩
  have hgaps' : (gaps (m :: (front ++ [l, last]))).Sublist
      (seps.filter fun s => s.stop ≤ join.start) := by
    have hfilter : (gaps (m :: (front ++ [l, last]))).filter (fun s => s.stop ≤ join.start) =
        gaps (m :: (front ++ [l, last])) := by
      rw [List.filter_eq_self]
      intro s hs
      simpa [hend] using hbefore s hs
    have hsublist := hgaps.filter fun s => s.stop ≤ join.start
    rwa [hfilter] at hsublist
  have hlast : ((m :: (front ++ [l])).getLast (by simp)).stop = join.start := by
    have hconcat : (((m :: front) ++ [l]).getLast (by simp)) = l := List.getLast_concat
    exact (congrArg Mark.stop hconcat).trans hend.symm
  rw [hsplit] at hgaps'
  have hheads := heads_found hp (Nat.succ_le_succ hroom) hjoin.le_length
    (fun s hs => ⟨(hseps s (hkept s hs).1).cut,
      Nat.lt_of_lt_of_le (horder s (hkept s hs).1) (hkept s hs).2⟩)
    (fun s hs s' hs' => hends s (hkept s hs).1 s' (hkept s' hs').1)
    (hsplit ▸ List.suffix_refl _) hgaps' 2 (by simp) hlast
  rw [hstart, ← hsplit] at hheads
  refine (hheads.mono (by simp) fun _ h => h).bind ?_
  rintro _ ⟨hfirst, rfl⟩
  have hit := hp.hit (front ++ [l, last]).length ((List.suffix_cons l [last]).trans htwo)
    (Nat.le_of_eq hlength)
  rw [hnext, hlength, ← hfirst] at hit
  refine hit.bind ?_
  rintro _ ⟨ho, rfl⟩
  exact yields_pure ⟨hfirst.trans (firstOverlong?_cons ho []), by simp⟩

theorem threeAt_elsewhere {join : Span}
    (hjoin : IsJoin (m :: (front ++ [l, last])) cut length join) (hend : join.start ≠ l.stop) :
    Yields (firstOverlong? (m :: (front ++ [l, last]))) (front ++ [l, last]).length (· = none)
      (threeAt piece room seps length join) := by
  refine (heads_before_join hp hstart hroom hseps hjoin).bind ?_
  rintro r (rfl | ⟨l', last', hsuffix, hstop, _⟩)
  · exact yields_pure rfl
  · -- there is one last pair of items, so the join stands behind `l` after all
    have hsame := (List.suffix_of_suffix_length_le hsuffix (List.suffix_append front [l, last])
      (Nat.le_refl _)).eq_of_length rfl
    obtain ⟨rfl, _⟩ := List.cons.inj hsame
    exact absurd hstop.symm hend

theorem items_found_more (hends : ∀ s ∈ seps, ∀ s' ∈ seps, s.start = s'.start → s = s')
    (horder : ∀ s ∈ seps, s.start < s.stop)
    (hgaps : (gaps (m :: (front ++ [l, last]))).Sublist seps)
    (hbefore : ∀ s ∈ gaps (m :: (front ++ [l, last])), s.stop ≤ l.stop)
    (hjoins : ∀ j ∈ joins, IsJoin (m :: (front ++ [l, last])) cut length j)
    (hjoin : ⟨l.stop, last.start⟩ ∈ joins) (hlength : last.stop = length) :
    Yields (firstOverlong? (m :: (front ++ [l, last]))) (front ++ [l, last]).length
      (fun r => firstOverlong? (m :: (front ++ [l, last])) = none ∧
        r = some ((m :: (front ++ [l, last])).map Mark.value))
      (items piece room seps joins length) := by
  have hne : seps.isEmpty = false := by
    obtain ⟨x, xs, hfront⟩ := List.exists_cons_of_ne_nil (List.concat_ne_nil l front)
    have hsplit : front ++ [l, last] = x :: (xs ++ [last]) := by
      rw [← List.cons_append, ← hfront, List.append_assoc, List.singleton_append]
    rw [hsplit, gaps_cons_cons] at hgaps
    exact List.isEmpty_eq_false_iff_exists_mem.2 ⟨_, hgaps.subset List.mem_cons_self⟩
  rw [items_eq, if_neg (by simp [hne])]
  refine (firstSome_joins
    (fun j hj => threeAt_found hp hstart hroom hseps hends horder hgaps hbefore hlength
      (hjoins j hj))
    (fun j hj => threeAt_elsewhere hp hstart hroom hseps (hjoins j hj))
    ⟨_, hjoin, rfl⟩).bind ?_
  rintro _ ⟨hfirst, rfl⟩
  exact yields_pure ⟨hfirst, rfl⟩

end More

/-- The whole text of a list is cut into its items. -/
theorem items_found (hp : Pieces (m :: rest) piece cut length) (hstart : m.start = 0)
    (hroom : rest.length ≤ room) (hseps : ∀ s ∈ seps, IsSeparator (m :: rest) cut length s)
    (hends : ∀ s ∈ seps, ∀ s' ∈ seps, s.start = s'.start → s = s')
    (horder : ∀ s ∈ seps, s.start < s.stop) (hgaps : (gaps (m :: rest)).Sublist seps)
    (hbefore : ∀ l last, [l, last] <:+ m :: rest → ∀ s ∈ gaps (m :: rest), s.stop ≤ l.stop)
    (hjoins : ∀ j ∈ joins, IsJoin (m :: rest) cut length j)
    (hjoin : ∀ l last, [l, last] <:+ m :: rest → ⟨l.stop, last.start⟩ ∈ joins)
    (hlength : ∀ last, [last] <:+ m :: rest → last.stop = length) :
    Yields (firstOverlong? (m :: rest)) rest.length
      (fun r => firstOverlong? (m :: rest) = none ∧ r = some ((m :: rest).map Mark.value))
      (items piece room seps joins length) := by
  rcases List.eq_nil_or_concat rest with rfl | ⟨others, last, rfl⟩
  · exact items_found_one hp hstart hseps hjoins (hlength m (List.suffix_refl _))
  · rw [List.concat_eq_append] at *
    have hlast := hlength last ((List.suffix_append others _).trans (List.suffix_cons m _))
    rcases List.eq_nil_or_concat others with rfl | ⟨front, l, rfl⟩
    · exact items_found_two hp hstart hroom hseps hjoins (hjoin m last (List.suffix_refl _)) hlast
    · rw [List.concat_eq_append, List.append_assoc, List.singleton_append] at *
      have hl : [l, last] <:+ m :: (front ++ [l, last]) :=
        (List.suffix_append front _).trans (List.suffix_cons m _)
      exact items_found_more hp hstart hroom hseps hends horder hgaps (hbefore l last hl) hjoins
        (hjoin l last hl) hlast

end Items

end Enumeration

end Klartext
