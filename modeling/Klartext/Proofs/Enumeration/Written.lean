import Klartext.Proofs.Enumeration.Cut
import Klartext.Proofs.Enumeration.Items

set_option autoImplicit false

/-! # Written lists are read back

A list is written `a`, `a und b` or `a, b und c`. It is read back by the search if its items keep to
a few rules (`Entry.Lawful`): the item reader takes the whole text of an item, but neither a part of
it that ends where the list could be cut nor the item with more of the list behind it; and the edges
of an item do not go together with what stands between the items.

Only the items are looked at, never the text behind the list: an occurrence of the terminator inside
an item is tried first and comes to nothing, and behind the list nothing is tried. -/

namespace Klartext

namespace Enumeration

open Search

/-! ## Writing -/

/-- What stands between an item and those behind it. -/
def glue : List Text → Text
  | [] => []
  | [_] => " und ".toList
  | _ => ", ".toList

/-- The text of a list. -/
def enumeration : List Text → Text
  | [] => []
  | a :: others => a ++ (glue others ++ enumeration others)

example : enumeration ["a".toList, "b".toList, "c".toList] = "a, b und c".toList := rfl

/-- An item as it is written and as it is read. -/
structure Entry (α : Type) where
  text : Text
  value : α
  /-- The number of digits behind a comma in the item, if that is too large. -/
  overlong? : Option Nat

variable {α : Type}

/-- The text of a list of items. -/
def written (xs : List (Entry α)) : Text := enumeration (xs.map Entry.text)

/-- What stands between an item and the items behind it. -/
def between (xs : List (Entry α)) : Text := glue (xs.map Entry.text)

@[simp] theorem written_nil : written ([] : List (Entry α)) = [] := rfl

theorem written_cons (x : Entry α) (xs : List (Entry α)) :
    written (x :: xs) = x.text ++ (between xs ++ written xs) := rfl

@[simp] theorem between_nil : between ([] : List (Entry α)) = [] := rfl

@[simp] theorem between_one (x : Entry α) : between [x] = " und ".toList := rfl

@[simp] theorem between_more (x y : Entry α) (xs : List (Entry α)) :
    between (x :: y :: xs) = ", ".toList := rfl

/-- The items of a list as marks in a text, the first of them at an offset. -/
def marksFrom (offset : Nat) : List (Entry α) → List (Mark α)
  | [] => []
  | x :: xs =>
    ⟨offset, offset + x.text.length, x.value, x.overlong?⟩ ::
      marksFrom (offset + x.text.length + (between xs).length) xs

theorem length_marksFrom (offset : Nat) (xs : List (Entry α)) :
    (marksFrom offset xs).length = xs.length := by
  induction xs generalizing offset with
  | nil => rfl
  | cons x xs ih => rw [marksFrom, List.length_cons, ih, List.length_cons]

theorem map_value_marksFrom (offset : Nat) (xs : List (Entry α)) :
    (marksFrom offset xs).map Mark.value = xs.map Entry.value := by
  induction xs generalizing offset with
  | nil => rfl
  | cons x xs ih => rw [marksFrom, List.map_cons, ih, List.map_cons]

theorem firstOverlong?_marksFrom (offset : Nat) (xs : List (Entry α)) :
    firstOverlong? (marksFrom offset xs) = xs.findSome? Entry.overlong? := by
  induction xs generalizing offset with
  | nil => rfl
  | cons x xs ih =>
      simp only [firstOverlong?] at ih ⊢
      rw [marksFrom, List.findSome?_cons, ih, List.findSome?_cons]

/-- Where an item of a list stands: the text before it, and the items behind it. -/
structure Spot (xs : List (Entry α)) (m : Mark α) (rest : List (Mark α)) (x : Entry α)
    (ys : List (Entry α)) (before : Text) : Prop where
  suffix : x :: ys <:+ xs
  written_eq : written xs = before ++ written (x :: ys)
  marks_eq : m :: rest = marksFrom before.length (x :: ys)

/-- The marks from one of them on are those of the items from one of them on. -/
theorem suffix_marksFrom {offset : Nat} {xs : List (Entry α)} {m : Mark α} {rest : List (Mark α)}
    (h : m :: rest <:+ marksFrom offset xs) :
    ∃ x ys before, x :: ys <:+ xs ∧ written xs = before ++ written (x :: ys) ∧
      m :: rest = marksFrom (offset + before.length) (x :: ys) := by
  induction xs generalizing offset with
  | nil => exact absurd (List.suffix_nil.1 h) (by simp)
  | cons x xs ih =>
      rw [marksFrom] at h
      rcases List.suffix_cons_iff.1 h with heq | h
      · exact ⟨x, xs, [], List.suffix_refl _, rfl, heq⟩
      · obtain ⟨y, ys, before, hsuffix, hwritten, hmarks⟩ := ih h
        refine ⟨y, ys, x.text ++ (between xs ++ before), hsuffix.trans (List.suffix_cons x xs),
          ?_, ?_⟩
        · rw [written_cons, hwritten]
          simp only [List.append_assoc]
        · rw [hmarks]
          simp only [List.length_append, Nat.add_assoc]

theorem exists_spot {xs : List (Entry α)} {m : Mark α} {rest : List (Mark α)}
    (h : m :: rest <:+ marksFrom 0 xs) : ∃ x ys before, Spot xs m rest x ys before := by
  obtain ⟨x, ys, before, hsuffix, hwritten, hmarks⟩ := suffix_marksFrom h
  rw [Nat.zero_add] at hmarks
  exact ⟨x, ys, before, hsuffix, hwritten, hmarks⟩

namespace Spot

variable {xs ys : List (Entry α)} {m : Mark α} {rest : List (Mark α)} {x : Entry α} {before : Text}

theorem start_eq (h : Spot xs m rest x ys before) : m.start = before.length := by
  rw [(List.cons.inj h.marks_eq).1]

theorem stop_eq (h : Spot xs m rest x ys before) :
    m.stop = before.length + x.text.length := by
  rw [(List.cons.inj h.marks_eq).1]

theorem value_eq (h : Spot xs m rest x ys before) : m.value = x.value := by
  rw [(List.cons.inj h.marks_eq).1]

theorem overlong?_eq (h : Spot xs m rest x ys before) : m.overlong? = x.overlong? := by
  rw [(List.cons.inj h.marks_eq).1]

theorem rest_eq (h : Spot xs m rest x ys before) :
    rest = marksFrom (m.stop + (between ys).length) ys := by
  rw [(List.cons.inj h.marks_eq).2, h.stop_eq]

theorem firstOverlong?_eq (h : Spot xs m rest x ys before) :
    firstOverlong? (m :: rest) = (x :: ys).findSome? Entry.overlong? := by
  rw [h.marks_eq, firstOverlong?_marksFrom]

theorem length_eq (h : Spot xs m rest x ys before) :
    (written xs).length = m.stop + ((between ys).length + (written ys).length) := by
  rw [h.written_eq, written_cons, h.stop_eq]
  simp only [List.length_append]
  omega

/-- The text from an item on. -/
theorem drop_start (h : Spot xs m rest x ys before) (t : Text) :
    (written xs ++ t).drop m.start = x.text ++ (between ys ++ (written ys ++ t)) := by
  rw [h.written_eq, h.start_eq, List.append_assoc, List.drop_left, written_cons]
  simp only [List.append_assoc]

/-- The text behind an item. -/
theorem drop_stop (h : Spot xs m rest x ys before) (t : Text) :
    (written xs ++ t).drop m.stop = between ys ++ (written ys ++ t) := by
  rw [h.stop_eq, ← h.start_eq, ← List.drop_drop, h.drop_start, List.drop_left]

end Spot

/-! ## Rules for items -/

/-- What may stand behind an item. -/
def Follows (t : Text) : Prop := ∃ c u, t = c :: u ∧ (c = ',' ∨ c = ' ')

/-- A part of an item, from its beginning on, behind which the list could be cut. -/
def Part (terminator a y : Text) : Prop :=
  ∃ z w, a = y ++ z ∧ y ≠ [] ∧ z ≠ [] ∧ Follows w ∧ Cut terminator (z ++ w)

theorem part_take {terminator a w : Text} {d : Nat} (hpos : 0 < d) (hlt : d < a.length)
    (hw : Follows w) (hcut : Cut terminator (a.drop d ++ w)) : Part terminator a (a.take d) := by
  refine ⟨a.drop d, w, (List.take_append_drop d a).symm, ?_, ?_, hw, hcut⟩
  · rw [← List.length_pos_iff, List.length_take]
    omega
  · rw [← List.length_pos_iff, List.length_drop]
    omega

/-- The rules for an item in a list with a terminator. -/
structure Entry.Lawful (item : Reader α) (terminator : Text) (x : Entry α) : Prop where
  head : ∃ c u, x.text = c :: u ∧ isBlank c = false ∧ c ≠ ','
  last : ∃ u c, x.text = u ++ [c] ∧ isBlank c = false ∧ c ≠ ','
  not_und : ∀ u c, isBlank c = true → x.text ≠ u ++ c :: "und".toList
  not_cut : ∀ w, Follows w → ¬ Cut terminator (' ' :: (x.text ++ w))
  not_terminator : ∀ w, Follows w → ¬ terminator <+: " und ".toList ++ (x.text ++ w)
  read : item.complete x.text = .checked x.overlong? x.value []
  part : ∀ y, Part terminator x.text y → NoItem x.overlong? (item.complete y)
  comma : ∀ w, NoItem x.overlong? (item.complete (x.text ++ (", ".toList ++ w)))

/-- The rules for a list with a terminator: those for its items, and that its last item but one is
    no item together with a part of the last one. -/
structure Lawful (item : Reader α) (terminator : Text) (xs : List (Entry α)) : Prop where
  empty : NoItem none (item.complete [])
  entry : ∀ x ∈ xs, x.Lawful item terminator
  join : ∀ x x', [x, x'] <:+ xs → ∀ y, Part terminator x'.text y →
    NoItem (x.overlong?.or x'.overlong?) (item.complete (x.text ++ (" und ".toList ++ y)))

/-! ## Pieces of a written list -/

theorem not_cut_of_head {ending t : Text} {c : Char} (hblank : isBlank c = false)
    (hcomma : c ≠ ',') :
    ¬ Cut (' ' :: ending) (c :: t) := by
  rintro (h | h | h)
  · obtain ⟨b, u, hu, _⟩ := separatorLength_ne_zero.1 h
    exact hcomma (List.cons.inj hu).1
  · obtain ⟨before, after, u, hu, hbefore, hblanks, _⟩ := joinLength_ne_zero h
    cases before with
    | nil => exact hbefore rfl
    | cons b before =>
        have hb := hblanks b List.mem_cons_self
        rw [← (List.cons.inj hu).1, hblank] at hb
        cases hb
  · have hspace := (List.cons_prefix_cons.1 h).1
    rw [← hspace] at hblank
    exact absurd hblank (by decide)

section Pieces

variable {item : Reader α} {ending t : Text} {xs : List (Entry α)}

theorem follows_terminator (ending t : Text) : Follows (' ' :: ending ++ t) :=
  ⟨' ', ending ++ t, rfl, .inr rfl⟩

theorem follows_between (ys : List (Entry α)) {w : Text} (hw : Follows w) :
    Follows (between ys ++ (written ys ++ w)) := by
  match ys with
  | [] => exact hw
  | [y] => exact ⟨' ', _, rfl, .inr rfl⟩
  | y :: z :: ys => exact ⟨',', _, rfl, .inl rfl⟩

theorem follows_written (z : Entry α) (ys : List (Entry α)) :
    Follows (between (z :: ys) ++ written (z :: ys)) := by
  cases ys with
  | nil => exact ⟨' ', _, rfl, .inr rfl⟩
  | cons y ys => exact ⟨',', _, rfl, .inl rfl⟩

theorem Entry.Lawful.not_cut_text {x : Entry α} (hx : x.Lawful item (' ' :: ending)) (w : Text) :
    ¬ Cut (' ' :: ending) (x.text ++ w) := by
  obtain ⟨c, u, htext, hblank, hcomma⟩ := hx.head
  rw [htext]
  exact not_cut_of_head hblank hcomma

theorem Entry.Lawful.flush {x : Entry α} {terminator : Text} (hx : x.Lawful item terminator)
    (w : Text) : Text.Flush (x.text ++ w) := by
  obtain ⟨c, u, htext, hblank, _⟩ := hx.head
  rw [htext]
  exact Text.flush_cons hblank

theorem written_one (x : Entry α) : written [x] = x.text := by
  rw [written_cons, between_nil, written_nil, List.append_nil, List.append_nil]

theorem findSome?_overlong?_pair (x y : Entry α) :
    [x, y].findSome? Entry.overlong? = x.overlong?.or y.overlong? := by
  rw [List.findSome?_cons, List.findSome?_cons, List.findSome?_nil]
  cases x.overlong? with
  | some count => rfl
  | none => cases y.overlong? <;> rfl

/-- A part of the last item does not make an item together with the one before it. -/
theorem noItem_join {x y : Entry α} (h : Lawful item (' ' :: ending) xs) (hxs : [x, y] <:+ xs)
    {w : Text} (hw : Follows w) {k : Nat} (hpos : 0 < k) (hlt : k < 5 + y.text.length)
    (hcut : Cut (' ' :: ending) ((" und ".toList ++ (y.text ++ w)).drop k)) :
    NoItem ([x, y].findSome? Entry.overlong?)
      (item.complete (x.text ++ (" und ".toList ++ (y.text ++ w)).take k)) := by
  have hy := h.entry y (hxs.subset (by simp))
  match k with
  -- the list is not cut inside ` und `, nor before the item behind it
  | 1 => exact absurd hcut (not_cut_of_head (by decide) (by decide))
  | 2 => exact absurd hcut (not_cut_of_head (by decide) (by decide))
  | 3 => exact absurd hcut (not_cut_of_head (by decide) (by decide))
  | 4 => exact absurd hcut (hy.not_cut w hw)
  | 5 => exact absurd hcut (hy.not_cut_text w)
  | k + 6 =>
      have hinside : k + 1 < y.text.length := by omega
      have hle := Nat.le_of_lt hinside
      have hcut : Cut (' ' :: ending) ((y.text ++ w).drop (k + 1)) := hcut
      rw [List.drop_append_of_le_length hle] at hcut
      have htake : (" und ".toList ++ (y.text ++ w)).take (k + 6) =
          " und ".toList ++ y.text.take (k + 1) := by
        rw [← List.take_append_of_le_length hle]
        rfl
      rw [htake, findSome?_overlong?_pair]
      exact h.join x y hxs _ (part_take (Nat.succ_pos k) hinside hw hcut)

/-- A piece from the beginning of an item to a place behind it at which the list could be cut. -/
theorem noItem_beyond {x : Entry α} {ys : List (Entry α)} (h : Lawful item (' ' :: ending) xs)
    (hxs : x :: ys <:+ xs) {w : Text} (hw : Follows w) {k : Nat} (hpos : 0 < k)
    (hlt : k < (between ys).length + (written ys).length)
    (hcut : Cut (' ' :: ending) ((between ys ++ (written ys ++ w)).drop k)) :
    NoItem ((x :: ys).findSome? Entry.overlong?)
      (item.complete (x.text ++ (between ys ++ (written ys ++ w)).take k)) := by
  cases ys with
  | nil => simp at hlt
  | cons y ys =>
      cases ys with
      | nil =>
          rw [written_one, between_one] at *
          exact noItem_join h hxs hw hpos hlt hcut
      | cons z ys =>
          have hx := h.entry x (hxs.subset List.mem_cons_self)
          have hy := h.entry y (hxs.subset (by simp))
          rw [between_more] at *
          match k with
          | 1 =>
              -- the piece ends between the comma and the space
              rw [written_cons, List.append_assoc] at hcut
              refine absurd hcut (hy.not_cut _ ?_)
              rw [List.append_assoc]
              exact follows_between _ hw
          | k + 2 =>
              -- the piece goes beyond the comma
              refine (hx.comma ((written (y :: z :: ys) ++ w).take k)).mono ?_
              intro count hcount
              rw [List.findSome?_cons, hcount]

/-- A piece from the beginning of an item to another place at which the list could be cut. -/
theorem noItem_of_cut {x : Entry α} {ys : List (Entry α)} (h : Lawful item (' ' :: ending) xs)
    (hxs : x :: ys <:+ xs) {w : Text} (hw : Follows w) {d : Nat} (hpos : 0 < d)
    (hlt : d < x.text.length + ((between ys).length + (written ys).length))
    (hne : d ≠ x.text.length)
    (hcut : Cut (' ' :: ending) ((x.text ++ (between ys ++ (written ys ++ w))).drop d)) :
    NoItem ((x :: ys).findSome? Entry.overlong?)
      (item.complete ((x.text ++ (between ys ++ (written ys ++ w))).take d)) := by
  have hx := h.entry x (hxs.subset List.mem_cons_self)
  rcases Nat.lt_or_gt_of_ne hne with hinside | hbeyond
  · rw [List.drop_append_of_le_length (Nat.le_of_lt hinside)] at hcut
    rw [List.take_append_of_le_length (Nat.le_of_lt hinside)]
    refine (hx.part _ (part_take hpos hinside (follows_between ys hw) hcut)).mono ?_
    intro count hcount
    rw [List.findSome?_cons, hcount]
  · obtain ⟨k, rfl⟩ : ∃ k, d = x.text.length + k := ⟨d - x.text.length, by omega⟩
    rw [List.drop_length_add_append] at hcut
    rw [List.take_length_add_append]
    exact noItem_beyond h hxs hw (by omega) (by omega) hcut

theorem slice_take {t : Text} {start stop i : Nat} (h : stop ≤ i) :
    Text.slice (t.take i) start stop = Text.slice t start stop := by
  rw [Text.slice, Text.slice, List.drop_take, List.take_take, Nat.min_eq_left (by omega)]

/-- The offsets at which the search can cut a list and the text behind it. -/
def CutAt (ending t : Text) (xs : List (Entry α)) (c : Nat) : Prop :=
  c < (written xs).length ∧ Cut (' ' :: ending) ((written xs ++ (' ' :: ending ++ t)).drop c)

/-- The pieces of a written list that begin where an item begins, as long as they do not go beyond
    the list. -/
theorem pieces_written (h : Lawful item (' ' :: ending) xs) (i : Nat) :
    Pieces (marksFrom 0 xs)
      (fun start stop => item? (item.complete
        (Text.slice ((written xs ++ (' ' :: ending ++ t)).take i) start stop)))
      (CutAt ending t xs) i := by
  refine ⟨?_, ?_⟩
  · intro depth m rest hm hstop
    obtain ⟨x, ys, before, hspot⟩ := exists_spot hm
    have hx := h.entry x (hspot.suffix.subset List.mem_cons_self)
    have hslice : Text.slice (written xs ++ (' ' :: ending ++ t)) m.start m.stop = x.text := by
      rw [Text.slice, hspot.drop_start, hspot.stop_eq, ← hspot.start_eq, Nat.add_sub_cancel_left,
        List.take_left]
    rw [slice_take hstop, hslice, hx.read, hspot.firstOverlong?_eq, hspot.overlong?_eq,
      hspot.value_eq]
    refine yields_item?_some ?_
    intro count hcount
    rw [List.findSome?_cons, hcount]
  · intro depth m rest c hm ⟨hlt, hcut⟩ hc hne
    obtain ⟨x, ys, before, hspot⟩ := exists_spot hm
    rw [slice_take hc, hspot.firstOverlong?_eq]
    refine yields_item?_none ?_
    by_cases hbefore : c ≤ m.start
    · -- the piece is empty
      rw [Text.slice, Nat.sub_eq_zero_of_le hbefore, List.take_zero]
      exact h.empty.mono (by simp)
    · -- the piece ends inside the item or beyond it, where the text behind the item is cut
      have hlength := hspot.length_eq
      have hstart := hspot.start_eq
      have hstop := hspot.stop_eq
      have hdrop : (written xs ++ (' ' :: ending ++ t)).drop c =
          (x.text ++ (between ys ++ (written ys ++ (' ' :: ending ++ t)))).drop (c - m.start) := by
        rw [← hspot.drop_start, List.drop_drop]
        congr 1
        omega
      rw [hdrop] at hcut
      rw [Text.slice, hspot.drop_start]
      exact noItem_of_cut h hspot.suffix (follows_terminator ending t) (by omega) (by omega)
        (by omega) hcut

/-! ## Separators and joins of a written list -/

/-- What a match in a list that was cut off is a match of. -/
theorem prefix_drop_take (t : Text) (i n : Nat) : (t.take i).drop n <+: t.drop n := by
  rw [List.drop_take]
  exact List.take_prefix _ _

theorem flush_written (h : Lawful item (' ' :: ending) xs) {y : Entry α} {ys : List (Entry α)}
    (hy : y ∈ xs) (w : Text) : Text.Flush (written (y :: ys) ++ w) := by
  rw [written_cons, List.append_assoc]
  exact (h.entry y hy).flush _

/-- A match in the text up to offset `i` stands before `i`, and what it matches begins the text
    from there on. -/
theorem match_written {recognize : Text → Nat} {i : Nat} {s : Span}
    (hs : s ∈ Text.matchesFrom recognize 0 0 ((written xs ++ (' ' :: ending ++ t)).take i)) :
    s.start < i ∧ ∃ p, p <+: (written xs ++ (' ' :: ending ++ t)).drop s.start ∧
      recognize p ≠ 0 ∧ s.stop = s.start + recognize p := by
  obtain ⟨n, hn, hlt, hmatch, hstop⟩ := Text.mem_matchesFrom hs
  rw [Nat.zero_add] at hn
  subst hn
  rw [List.length_take] at hlt
  exact ⟨by omega, _, prefix_drop_take _ i s.start, hmatch, hstop⟩

/-- Behind an item that does not end the list stands another one. -/
theorem exists_spot_behind {m : Mark α} {rest : List (Mark α)} (hm : m :: rest <:+ marksFrom 0 xs)
    (hstop : m.stop < (written xs).length) :
    ∃ x y ys before, Spot xs m rest x (y :: ys) before := by
  obtain ⟨x, ys, before, hspot⟩ := exists_spot hm
  cases ys with
  | nil =>
      have hlength := hspot.length_eq
      simp only [between_nil, written_nil, List.length_nil] at hlength
      omega
  | cons y ys => exact ⟨x, y, ys, before, hspot⟩

theorem isSeparator_written (h : Lawful item (' ' :: ending) xs) {i : Nat}
    (hi : i ≤ (written xs).length) {s : Span}
    (hs : s ∈ separators ((written xs ++ (' ' :: ending ++ t)).take i)) :
    IsSeparator (marksFrom 0 xs) (CutAt ending t xs) i s := by
  obtain ⟨hlt, p, hprefix, hmatch, hstop⟩ := match_written hs
  refine ⟨⟨by omega, .inl (separatorLength_mono hprefix hmatch)⟩, by omega, ?_⟩
  intro m rest hm hend
  obtain ⟨x, y, ys, before, hspot⟩ := exists_spot_behind hm (by omega)
  have hrest := hspot.rest_eq
  rw [hend, hspot.drop_stop] at hprefix
  cases ys with
  | nil =>
      -- an ` und ` begins with no comma
      obtain ⟨b, u, hu, _⟩ := separatorLength_ne_zero.1 (separatorLength_mono hprefix hmatch)
      exact absurd (List.cons.inj hu).1 (by decide)
  | cons z ys =>
      have hy : y ∈ xs := hspot.suffix.subset (by simp)
      have htwo := separatorLength_of_prefix hprefix (flush_written h hy _) hmatch
      exact ⟨_, _, _, hrest, by rw [hstop, hend, htwo]; rfl⟩

theorem isJoin_written (h : Lawful item (' ' :: ending) xs) {i : Nat}
    (hi : i ≤ (written xs).length) {j : Span}
    (hj : j ∈ joins ((written xs ++ (' ' :: ending ++ t)).take i)) :
    IsJoin (marksFrom 0 xs) (CutAt ending t xs) i j := by
  obtain ⟨hlt, p, hprefix, hmatch, hstop⟩ := match_written hj
  refine ⟨⟨by omega, .inr (.inl (joinLength_mono hprefix hmatch))⟩, by omega, ?_⟩
  intro m rest hm hend
  obtain ⟨x, y, ys, before, hspot⟩ := exists_spot_behind hm (by omega)
  have hrest := hspot.rest_eq
  rw [hend, hspot.drop_stop] at hprefix
  cases ys with
  | nil =>
      have hy : y ∈ xs := hspot.suffix.subset (by simp)
      have hfive := joinLength_of_prefix hprefix (flush_written h hy _) hmatch
      exact ⟨_, hrest, by rw [hstop, hend, hfive]; rfl⟩
  | cons z ys =>
      -- a comma begins no ` und `
      exact absurd rfl (joinLength_mono hprefix hmatch)

/-- The list does not end with any of its items but the last. -/
theorem not_terminator_at (h : Lawful item (' ' :: ending) xs) {i : Nat}
    (hi : i < (written xs).length)
    (hterminator : ' ' :: ending <+: (written xs ++ (' ' :: ending ++ t)).drop i) {m : Mark α}
    (hm : m ∈ marksFrom 0 xs) : i ≠ m.stop := by
  rintro rfl
  obtain ⟨front, rest, hsplit⟩ := List.append_of_mem hm
  obtain ⟨x, y, ys, before, hspot⟩ := exists_spot_behind ⟨front, hsplit.symm⟩ hi
  rw [hspot.drop_stop] at hterminator
  cases ys with
  | nil =>
      have hy : y ∈ xs := hspot.suffix.subset (by simp)
      rw [written_one] at hterminator
      exact (h.entry y hy).not_terminator _ (follows_terminator ending t) hterminator
  | cons z ys => exact absurd (List.cons_prefix_cons.1 hterminator).1 (by decide)

/-- Every gap between items but the last is one of the separators. -/
theorem gaps_sublist (h : ∀ x ∈ xs, x.Lawful item (' ' :: ending)) (offset : Nat) :
    (gaps (marksFrom offset xs)).Sublist
      (Text.matchesFrom separatorLength 0 offset (written xs)) := by
  induction xs generalizing offset with
  | nil => exact List.nil_sublist _
  | cons x xs ih =>
      -- there is a gap before a comma as long as two more items come
      match xs, h, ih with
      | [], _, _ => exact List.nil_sublist _
      | [y], _, _ => exact List.nil_sublist _
      | y :: z :: xs, h, ih =>
          obtain ⟨a, c, htext, hblank, hcomma⟩ := (h x List.mem_cons_self).last
          have hflush : Text.Flush (written (y :: z :: xs)) := by
            rw [written_cons]
            exact (h y (by simp)).flush _
          have hcontained : Text.Contained separatorLength x.text
              (", ".toList ++ written (y :: z :: xs)) := by
            rw [htext]
            exact contained_separatorLength hblank hcomma _
          obtain ⟨inner, hinner⟩ := Text.matchesFrom_append hcontained (Nat.zero_le _) offset
          have hlater := ih (fun w hw => h w (List.mem_cons_of_mem x hw))
            (offset + x.text.length + 2)
          rw [written_cons, between_more, hinner]
          refine List.sublist_append_of_sublist_right ?_
          have hmatch : separatorLength (',' :: ' ' :: written (y :: z :: xs)) = 1 + 1 :=
            separatorLength_comma_space hflush
          show List.Sublist _ (Text.matchesFrom separatorLength 0 (offset + x.text.length)
            (',' :: ' ' :: written (y :: z :: xs)))
          rw [Text.matchesFrom_of_match hmatch]
          exact List.Sublist.cons_cons _ hlater

/-- The last two of three items or more are not the first two. -/
theorem last_two_marksFrom {offset : Nat} {x y z : Entry α} {xs : List (Entry α)} {l last : Mark α}
    (hl : [l, last] <:+ marksFrom offset (x :: y :: z :: xs)) :
    [l, last] <:+ marksFrom (offset + x.text.length + 2) (y :: z :: xs) := by
  rcases List.suffix_cons_iff.1 hl with heq | hmore
  · have hlength := congrArg List.length heq
    simp [marksFrom] at hlength
  · exact hmore

/-- The gap before the last item is one of the joins. -/
theorem join_mem (h : ∀ x ∈ xs, x.Lawful item (' ' :: ending)) {offset : Nat} {l last : Mark α}
    (hl : [l, last] <:+ marksFrom offset xs) :
    ⟨l.stop, last.start⟩ ∈ Text.matchesFrom joinLength 0 offset (written xs) := by
  induction xs generalizing offset with
  | nil => exact absurd (List.suffix_nil.1 hl) (by simp)
  | cons x xs ih =>
      obtain ⟨a, c, htext, hblank, _⟩ := (h x List.mem_cons_self).last
      have hcontained {b : Text} (hb : ∀ d ∈ b.head?, d = ',' ∨ d = ' ') :
          Text.Contained joinLength x.text b := by
        rw [htext]
        exact contained_joinLength hblank
          (fun v d hd => htext ▸ (h x List.mem_cons_self).not_und v d hd) hb
      match xs, h, ih with
      | [], _, _ =>
          have hlength := hl.length_le
          simp [marksFrom] at hlength
      | [y], h, _ =>
          have hflush : Text.Flush y.text := by
            simpa using (h y (by simp)).flush []
          obtain ⟨inner, hinner⟩ := Text.matchesFrom_append
            (hcontained (b := " und ".toList ++ y.text) (by simp)) (Nat.zero_le _) offset
          have hmarks := hl.eq_of_length rfl
          simp only [marksFrom, List.cons.injEq, and_true] at hmarks
          have hmatch : joinLength (' ' :: ("und ".toList ++ y.text)) = 4 + 1 :=
            joinLength_und hflush
          rw [written_cons, written_one, between_one, hinner, hmarks.1, hmarks.2]
          refine List.mem_append_right _ ?_
          show _ ∈ Text.matchesFrom joinLength 0 (offset + x.text.length)
            (' ' :: ("und ".toList ++ y.text))
          rw [Text.matchesFrom_of_match hmatch]
          exact List.mem_cons_self
      | y :: z :: xs, h, ih =>
          obtain ⟨inner, hinner⟩ := Text.matchesFrom_append
            (hcontained (b := ", ".toList ++ written (y :: z :: xs)) (by simp)) (Nat.zero_le _)
            offset
          -- neither the comma nor the space behind it begins an ` und `
          have hspace : joinLength (' ' :: written (y :: z :: xs)) = 0 := by
            by_cases hzero : joinLength (' ' :: written (y :: z :: xs)) = 0
            · exact hzero
            · exact absurd (.inr (.inl hzero)) ((h y (by simp)).not_cut _ (follows_written z xs))
          rw [written_cons, between_more, hinner]
          refine List.mem_append_right _ ?_
          show _ ∈ Text.matchesFrom joinLength 0 (offset + x.text.length)
            (',' :: ' ' :: written (y :: z :: xs))
          rw [Text.matchesFrom_of_zero rfl, Text.matchesFrom_of_zero hspace]
          exact ih (fun w hw => h w (List.mem_cons_of_mem x hw)) (last_two_marksFrom hl)

/-- The gaps come before the end of the last item but one. -/
theorem gaps_before {offset : Nat} {l last : Mark α} (hl : [l, last] <:+ marksFrom offset xs) :
    offset ≤ l.stop ∧ ∀ s ∈ gaps (marksFrom offset xs), s.stop ≤ l.stop := by
  induction xs generalizing offset with
  | nil => exact absurd (List.suffix_nil.1 hl) (by simp)
  | cons x xs ih =>
      cases xs with
      | nil =>
          have hlength := hl.length_le
          simp [marksFrom] at hlength
      | cons y xs =>
          cases xs with
          | nil =>
              have hmarks := hl.eq_of_length rfl
              simp only [marksFrom, List.cons.injEq, and_true] at hmarks
              refine ⟨?_, fun s hs => absurd hs (by simp [marksFrom, gaps])⟩
              rw [hmarks.1]
              exact Nat.le_add_right _ _
          | cons z xs =>
              obtain ⟨hoffset, hgaps⟩ := ih (last_two_marksFrom hl)
              refine ⟨by omega, ?_⟩
              intro s hs
              rcases List.mem_cons.1 hs with rfl | hs
              · exact hoffset
              · exact hgaps s hs

/-- The last item ends where the list does. -/
theorem last_stop {last : Mark α} (hlast : [last] <:+ marksFrom 0 xs) :
    last.stop = (written xs).length := by
  obtain ⟨x, ys, before, hspot⟩ := exists_spot hlast
  have hlength := hspot.length_eq
  cases ys with
  | nil =>
      simp only [between_nil, written_nil, List.length_nil] at hlength
      omega
  | cons y ys => exact absurd hspot.rest_eq (by simp [marksFrom])

end Pieces

/-! ## The whole list -/

theorem itemsOf_eq (item : Reader α) (room : Nat) (content : Text) :
    itemsOf item room content =
      items (fun start stop => item? (item.complete (Text.slice content start stop))) room
        (separators content) (joins content) content.length := by
  simp only [itemsOf, Memo.get_of]

/-- The list that ends at an occurrence of the terminator. -/
def listAt (item : Reader α) (room : Nat) (t : Text) (index : Nat) :
    Search (Option (List α × Nat)) := do
  match ← itemsOf item room (t.take index) with
  | some found => pure (some (found, index))
  | none => pure none

theorem listUntil_eq (terminator : Text) (item : Reader α) (room : Nat) (t : Text) :
    Reader.listUntil terminator item room t =
      match firstSome (listAt item room t) (Text.occurrences terminator t) .none with
      | .ok (some (found, index), _) => .found found (t.drop (index + terminator.length))
      | .ok (none, ⟨some refusal, _⟩) => .broken (.refused refusal)
      | .ok (none, ⟨none, _⟩) => .missed
      | .error e => .broken e :=
  rfl

section List

variable {item : Reader α} {ending : Text} {xs : List (Entry α)} {room : Nat}

/-- A list that was cut off at an occurrence of the terminator inside an item is no list. -/
theorem itemsOf_none (h : Lawful item (' ' :: ending) xs) (hroom : xs.length ≤ room + 1)
    {t : Text} {i : Nat} (hi : i < (written xs).length)
    (hterminator : ' ' :: ending <+: (written xs ++ (' ' :: ending ++ t)).drop i) :
    Yields (xs.findSome? Entry.overlong?) (xs.length - 1) (· = none)
      (itemsOf item room ((written xs ++ (' ' :: ending ++ t)).take i)) := by
  have hle := Nat.le_of_lt hi
  have hlength : ((written xs ++ (' ' :: ending ++ t)).take i).length = i := by
    rw [List.length_take, List.length_append]
    omega
  cases xs with
  | nil => simp at hi
  | cons x xs =>
      rw [itemsOf_eq, hlength, ← firstOverlong?_marksFrom 0]
      have hmarks : (marksFrom (0 + x.text.length + (between xs).length) xs).length ≤ room := by
        rw [length_marksFrom]
        simpa using hroom
      have hnone := items_none (pieces_written (t := t) h i) rfl ⟨hi, .inr (.inr hterminator)⟩
        (fun m hm => not_terminator_at h hi hterminator hm) hmarks
        (fun s hs => isSeparator_written h hle hs) (fun j hj => isJoin_written h hle hj)
      rw [length_marksFrom] at hnone
      exact hnone

/-- A separator is fixed by where it stands. -/
theorem separators_ext {t : Text} {s s' : Span} (hs : s ∈ separators t) (hs' : s' ∈ separators t)
    (hstart : s.start = s'.start) : s = s' := by
  obtain ⟨n, hn, _, _, hstop⟩ := Text.mem_matchesFrom hs
  obtain ⟨n', hn', _, _, hstop'⟩ := Text.mem_matchesFrom hs'
  have hsame : n = n' := by omega
  subst hsame
  cases s
  cases s'
  simp_all

theorem separators_start_lt {t : Text} {s : Span} (hs : s ∈ separators t) : s.start < s.stop := by
  obtain ⟨n, _, _, hmatch, hstop⟩ := Text.mem_matchesFrom hs
  omega

/-- The text of a list is cut into its items. -/
theorem itemsOf_written (h : Lawful item (' ' :: ending) xs) (hne : xs ≠ [])
    (hroom : xs.length ≤ room + 1) :
    Yields (xs.findSome? Entry.overlong?) (xs.length - 1)
      (fun r => xs.findSome? Entry.overlong? = none ∧ r = some (xs.map Entry.value))
      (itemsOf item room (written xs)) := by
  have hle := Nat.le_refl (written xs).length
  -- the lemmas speak of a list that is cut off behind some text; this one is cut off at its end
  have hcontent (t : Text) :
      (written xs ++ (' ' :: ending ++ t)).take (written xs).length = written xs :=
    List.take_left
  have hseps : ∀ s ∈ separators (written xs),
      IsSeparator (marksFrom 0 xs) (CutAt ending [] xs) (written xs).length s :=
    fun s hs => isSeparator_written h hle (by rwa [hcontent])
  have hjoins : ∀ j ∈ joins (written xs),
      IsJoin (marksFrom 0 xs) (CutAt ending [] xs) (written xs).length j :=
    fun j hj => isJoin_written h hle (by rwa [hcontent])
  have hpieces := pieces_written (t := []) h (written xs).length
  simp only [hcontent] at hpieces
  have hends : ∀ s ∈ separators (written xs), ∀ s' ∈ separators (written xs),
      s.start = s'.start → s = s' :=
    fun _ hs _ hs' => separators_ext hs hs'
  have horder : ∀ s ∈ separators (written xs), s.start < s.stop := fun _ => separators_start_lt
  have hbefore : ∀ l last, [l, last] <:+ marksFrom 0 xs →
      ∀ s ∈ gaps (marksFrom 0 xs), s.stop ≤ l.stop :=
    fun l last hl => (gaps_before hl).2
  have hjoin : ∀ l last, [l, last] <:+ marksFrom 0 xs → ⟨l.stop, last.start⟩ ∈ joins (written xs) :=
    fun l last hl => join_mem h.entry hl
  have hlast : ∀ last, [last] <:+ marksFrom 0 xs → last.stop = (written xs).length :=
    fun last hlast => last_stop hlast
  cases xs with
  | nil => exact absurd rfl hne
  | cons x xs =>
      rw [itemsOf_eq, ← firstOverlong?_marksFrom 0, ← map_value_marksFrom 0]
      have hmarks : (marksFrom (0 + x.text.length + (between xs).length) xs).length ≤ room := by
        rw [length_marksFrom]
        simpa using hroom
      have hfound := items_found hpieces rfl hmarks hseps hends horder (gaps_sublist h.entry 0)
        hbefore hjoins hjoin hlast
      rw [length_marksFrom] at hfound
      exact hfound

/-- A list is read back up to its terminator, down to the first number with too many digits. -/
theorem listUntil_written (h : Lawful item (' ' :: ending) xs) (hne : xs ≠ [])
    (hroom : xs.length ≤ room + 1) (t : Text) :
    Reader.listUntil (' ' :: ending) item room (written xs ++ (' ' :: ending ++ t)) =
      .checked (xs.findSome? Entry.overlong?) (xs.map Entry.value) t := by
  -- at the occurrences inside the list nothing is found, and the next one is its end
  obtain ⟨before, after, hoccurrences, hbefore⟩ :=
    Text.occurrencesFrom_append (List.cons_ne_nil ' ' ending) 0 (written xs) t
  rw [Nat.zero_add] at hoccurrences
  have hsearch : Yields (xs.findSome? Entry.overlong?) (xs.length - 1)
      (fun r => xs.findSome? Entry.overlong? = none ∧
        r = some (xs.map Entry.value, (written xs).length))
      (firstSome (listAt item room (written xs ++ (' ' :: ending ++ t)))
        (Text.occurrences (' ' :: ending) (written xs ++ (' ' :: ending ++ t)))) := by
    rw [Text.occurrences, hoccurrences]
    refine yields_firstSome_append ?_ ?_ ?_
    · rintro _ ⟨_, rfl⟩ hnone
      cases hnone
    · intro i hi
      obtain ⟨n, rfl, hn, hprefix⟩ := hbefore i hi
      rw [Nat.zero_add]
      refine (itemsOf_none h hroom hn hprefix).bind ?_
      rintro _ rfl
      exact yields_pure rfl
    · rw [listAt, List.take_left]
      refine (itemsOf_written h hne hroom).bind ?_
      rintro _ ⟨hnone, rfl⟩
      exact yields_pure ⟨hnone, rfl⟩
  rw [listUntil_eq]
  rcases hsearch .none with ⟨_, progress, hrun, _, hnone, rfl⟩ | ⟨count, hcount, hrun⟩
  · rw [hrun, hnone]
    simp only
    rw [← List.drop_drop, List.drop_left, List.drop_left]
    rfl
  · rw [hrun, hcount]
    rfl

end List

end Enumeration

end Klartext
