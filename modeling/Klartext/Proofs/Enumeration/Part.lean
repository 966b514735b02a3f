import Klartext.Proofs.Enumeration.Written

set_option autoImplicit false

/-! # Parts of lists

Where the text of an item is not cut, and what comes of reading where something was cut off: no item
(`NoItem`) in one part of a reader makes none of the whole, and a list that was cut off before its
terminator is no list. -/

namespace Klartext

open Reader Enumeration Enumeration.Search

/-! ## Places that are not cut -/

namespace Enumeration

variable {ending : Text}

theorem not_cut_space {t : Text} (hflush : Text.Flush t)
    (hund : ∀ b, isBlank b = true → ¬ "und".toList ++ [b] <+: t) (hending : ¬ ending <+: t) :
    ¬ Cut (' ' :: ending) (' ' :: t) := by
  rintro (h | h | h)
  · obtain ⟨b, u, hu, _⟩ := separatorLength_ne_zero.1 h
    exact absurd (List.cons.inj hu).1 (by decide)
  · obtain ⟨before, after, u, hu, hbefore, hblanks, hafter, hblanks', _⟩ := joinLength_ne_zero h
    match before, after, hbefore, hafter with
    | [b], a :: after, _, _ =>
        exact hund a (hblanks' a (by simp)) ⟨after ++ u, (List.cons.inj hu).2.symm⟩
    | b :: b' :: before, _, _, _ =>
        have hb' : isBlank b' = false := hflush b' (by rw [(List.cons.inj hu).2]; simp)
        simp [hblanks b' (by simp)] at hb'
  · exact hending (List.cons_prefix_cons.1 h).2

theorem not_cut_comma {t : Text} {c : Char} (hblank : isBlank c = false) :
    ¬ Cut (' ' :: ending) (',' :: c :: t) := by
  rintro (h | h | h)
  · obtain ⟨b, u, hu, hb⟩ := separatorLength_ne_zero.1 h
    rw [← (List.cons.inj (List.cons.inj hu).2).1, hblank] at hb
    cases hb
  · exact absurd rfl h
  · exact absurd (List.cons_prefix_cons.1 h).1 (by decide)

/-- A text without whitespace is not cut inside. -/
theorem not_part_of_not_blank {a y : Text} (hblank : ∀ c ∈ a, isBlank c = false)
    (hlast : ∃ u c, a = u ++ [c] ∧ isBlank c = false ∧ c ≠ ',') : ¬ Part (' ' :: ending) a y := by
  rintro ⟨z, w, ha, _, hz, _, hcut⟩
  have hzblank : ∀ c ∈ z, isBlank c = false := fun c hc => hblank c (by rw [ha]; simp [hc])
  match z, hz with
  | [c], _ =>
      obtain ⟨u, d, hu, _, hd⟩ := hlast
      rw [ha] at hu
      have hcd := (List.cons.inj (List.append_inj' hu rfl).2).1
      exact not_cut_of_head (hzblank c (by simp)) (hcd ▸ hd) hcut
  | c :: d :: z, _ =>
      by_cases hcomma : c = ','
      · subst hcomma
        exact not_cut_comma (hzblank d (by simp)) hcut
      · exact not_cut_of_head (hzblank c (by simp)) hcomma hcut

/-- The list is cut nowhere in a text, with another one behind it. -/
def Uncut (ending : Text) : Text → Text → Prop := Text.Nowhere (Cut (' ' :: ending))

theorem uncut_of_not_blank {a : Text} (h : (a.all fun c => !isBlank c && c != ',') = true)
    (b : Text) : Uncut ending a b := by
  intro u hne hu
  cases u with
  | nil => exact absurd rfl hne
  | cons c u =>
      have hc := List.all_eq_true.1 h c (hu.subset List.mem_cons_self)
      simp only [Bool.and_eq_true, Bool.not_eq_true', bne_iff_ne] at hc
      exact not_cut_of_head hc.1 hc.2

/-- Where a list is not cut before the words of a name, it is cut neither in the name nor at the
    space before it. -/
theorem uncut_of_normal {n t : Text} (hn : Text.normalize n = n) (hne : n ≠ []) (hcomma : ',' ∉ n)
    (hword : ∀ w ∈ Text.words n, ∀ u, (∀ c ∈ u.head?, c = ' ') →
      (∀ b, isBlank b = true → ¬ "und".toList ++ [b] <+: w ++ (u ++ t)) ∧
        ¬ ending <+: w ++ (u ++ t)) :
    Uncut ending (' ' :: n) t := by
  refine Text.nowhere_of_normal hn hne (fun w hw u hu => ?_) fun c hc hblank v => ?_
  · have hw' := Text.isWord_of_mem_words hw
    obtain ⟨hund, hending⟩ := hword w hw u hu
    exact not_cut_space (hw'.flush.append hw'.ne_nil _) hund hending
  · refine not_cut_of_head hblank ?_
    rintro rfl
    exact hcomma hc

theorem not_part_of_uncut {a : Text} (h : ∀ w, Follows w → Uncut ending a w) (y : Text) :
    ¬ Part (' ' :: ending) a y := by
  rintro ⟨z, w, ha, _, hz, hw, hcut⟩
  exact h w hw z hz ⟨y, ha.symm⟩ hcut

/-- A part of a text between two marks lacks at least the second one. -/
theorem part_enclosed {c : Char} {a y z : Text} (h : c :: (a ++ [c]) = y ++ z) (hy : y ≠ [])
    (hz : z ≠ []) : ∃ p, p <+: a ∧ y = c :: p := by
  cases y with
  | nil => exact absurd rfl hy
  | cons d p =>
      obtain ⟨rfl, htail⟩ := List.cons.inj h
      have hprefix : p <+: a ++ [c] := ⟨z, htail.symm⟩
      rcases List.prefix_concat_iff.1 hprefix with hwhole | hprefix
      · rw [hwhole] at htail
        exact absurd (List.self_eq_append_right.1 htail) hz
      · exact ⟨p, hprefix, rfl⟩

end Enumeration

/-! ## Readers that find no item -/

namespace Reader

variable {α β : Type} {p q : Reader α} {f : α → Reader β} {t u : Text} {a : α} {o o' : Option Nat}

theorem noItem_broken {e : Failure} (h : NoItem o (Reading.broken e : Reading α)) :
    NoItem o (Reading.broken e : Reading β) := by
  rcases h with hmissed | ⟨refusal, hrefused⟩ | ⟨count, hcount, hbroken⟩
  · cases hmissed
  · cases hrefused
    exact .inr (.inl ⟨refusal, rfl⟩)
  · cases hbroken
    exact .inr (.inr ⟨count, hcount, rfl⟩)

/-- What is no item is missed, or reading broke off there. -/
theorem missed_or_broken {r : Reading α} (h : NoItem o r) : r = .missed ∨ ∃ e, r = .broken e := by
  rcases h with hmissed | ⟨refusal, hrefused⟩ | ⟨count, _, hbroken⟩
  · exact .inl hmissed
  · exact .inr ⟨_, hrefused⟩
  · exact .inr ⟨_, hbroken⟩

theorem noItem_bind (h : NoItem o (p t)) : NoItem o ((p >>= f) t) := by
  rw [bind_apply]
  rcases missed_or_broken h with hmissed | ⟨e, hbroken⟩
  · rw [hmissed]
    exact .inl rfl
  · rw [hbroken] at h ⊢
    exact noItem_broken h

theorem noItem_bind_checked (hp : p t = .checked o a u) (h : NoItem o' (f a u)) :
    NoItem (o.or o') ((p >>= f) t) := by
  rw [bind_apply, hp]
  cases o with
  | none => exact h
  | some count => exact .inr (.inr ⟨count, rfl, rfl⟩)

theorem noItem_bind_missed (hp : p t = .checked o a u) (h : f a u = .missed) :
    NoItem o ((p >>= f) t) := by
  have hnone : NoItem none (f a u) := .inl h
  have hbind := noItem_bind_checked hp hnone
  rwa [Option.or_none] at hbind

theorem noItem_orElse (hp : NoItem o (p t)) (hq : NoItem o (q t)) : NoItem o ((p <|> q) t) := by
  rw [orElse_apply]
  rcases missed_or_broken hp with hmissed | ⟨e, hbroken⟩
  · rw [hmissed]
    exact hq
  · rw [hbroken] at hp ⊢
    exact hp

theorem noItem_firstOf {readers : List (Reader α)} (h : ∀ r ∈ readers, NoItem o (r t)) :
    NoItem o (firstOf readers t) := by
  induction readers with
  | nil => exact .inl rfl
  | cons r others ih =>
      obtain ⟨hr, hothers⟩ := List.forall_mem_cons.1 h
      exact noItem_orElse hr (ih hothers)

/-- What is refused where nothing is found makes reading break off. -/
theorem noItem_orRefuse (h : NoItem o (p t)) (refusal : Text → Refusal) :
    ∃ e, p.orRefuse refusal t = .broken e ∧ NoItem o (Reading.broken e : Reading α) := by
  rw [orRefuse]
  rcases missed_or_broken h with hmissed | ⟨e, hbroken⟩
  · rw [hmissed]
    exact ⟨_, rfl, .inr (.inl ⟨_, rfl⟩)⟩
  · rw [hbroken] at h ⊢
    exact ⟨e, rfl, h⟩

/-! ### Whole texts -/

theorem complete_of_checked (htrim : t.trim = u) (h : p u = .checked o a []) :
    p.complete t = .checked o a [] := by
  rw [complete, htrim, h]
  cases o <;> rfl

theorem complete_missed (htrim : t.trim = u) (h : p u = .missed) : p.complete t = .missed := by
  rw [complete, htrim, h]

theorem noItem_complete (htrim : t.trim = u) (h : NoItem o (p u)) : NoItem o (p.complete t) := by
  rw [complete, htrim]
  rcases missed_or_broken h with hmissed | ⟨e, hbroken⟩
  · rw [hmissed]
    exact .inl rfl
  · rw [hbroken] at h ⊢
    exact h

theorem noItem_complete_rest {rest : Text} (htrim : t.trim = u) (h : p u = .checked o a rest)
    (hrest : ∃ c ∈ rest, isBlank c = false) : NoItem o (p.complete t) := by
  have hblank : Text.isBlank rest = false := by
    obtain ⟨c, hc, hcblank⟩ := hrest
    rw [Text.isBlank, List.all_eq_false]
    exact ⟨c, hc, by simp [hcblank]⟩
  rw [complete, htrim, h]
  cases o with
  | none => exact .inl (by simp [hblank])
  | some count => exact .inr (.inr ⟨count, rfl, rfl⟩)

/-- A list that was cut off before its terminator is no list, though the terminator stands inside
    some of its items. -/
theorem listUntil_cutOff {item : Reader α} {ending : Text} {xs : List (Entry α)} {room : Nat}
    (h : Lawful item (' ' :: ending) xs) (hroom : xs.length ≤ room + 1) (hp : t <+: written xs) :
    NoItem (xs.findSome? Entry.overlong?) (listUntil (' ' :: ending) item room t) := by
  obtain ⟨u, hu⟩ := hp
  have hnone : ∀ i ∈ Text.occurrences (' ' :: ending) t,
      Yields (xs.findSome? Entry.overlong?) (xs.length - 1) (· = none) (listAt item room t i) := by
    intro i hi
    obtain ⟨n, -, hn, hprefix⟩ := Text.mem_occurrencesFrom.1 hi
    rw [Nat.zero_add] at hn
    subst hn
    -- the occurrence stands in front of the end of the whole list
    have hlt : i < t.length := by
      have hlength := hprefix.length_le
      rw [List.length_drop, List.length_cons] at hlength
      omega
    have hinside : i < (written xs).length := by
      rw [← hu, List.length_append]
      omega
    have hwhole (rest : Text) : ' ' :: ending <+: (written xs ++ rest).drop i := by
      rw [← hu, List.append_assoc, List.drop_append_of_le_length (Nat.le_of_lt hlt)]
      exact hprefix.trans (List.prefix_append _ _)
    have hitems := itemsOf_none (t := []) h hroom hinside (hwhole _)
    rw [← hu, List.append_assoc, List.take_append_of_le_length (Nat.le_of_lt hlt)] at hitems
    refine hitems.bind ?_
    rintro _ rfl
    exact yields_pure rfl
  rw [listUntil_eq]
  rcases yields_firstSome_none hnone .none with
    ⟨_, ⟨refusal?, _⟩, hrun, _, rfl⟩ | ⟨count, hcount, hrun⟩
  · rw [hrun]
    cases refusal? with
    | none => exact .inl rfl
    | some refusal => exact .inr (.inl ⟨refusal, rfl⟩)
  · rw [hrun]
    exact .inr (.inr ⟨count, hcount, rfl⟩)

end Reader

end Klartext
