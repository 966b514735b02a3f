import Klartext.Proofs.Text.Words
import Klartext.Text.Search

set_option autoImplicit false

/-! # Where a literal stands

What the searches in a text give where its front part is known: the first occurrence of a literal
behind a part that holds none, all occurrences up to a known one, and the matches of a recognizer
behind a part that no match leaves. And what the parts are into which a character cuts a text. -/

namespace Klartext

namespace Text

/-- What `P` says of a text holds from no character of `a` on, with `b` behind it. -/
def Nowhere (P : Text → Prop) (a b : Text) : Prop := ∀ u, u ≠ [] → u <:+ a → ¬ P (u ++ b)

section Nowhere

variable {P : Text → Prop} {a b c : Text}

theorem nowhere_nil (P : Text → Prop) (b : Text) : Nowhere P [] b := by
  intro u hne hu
  exact absurd (List.suffix_nil.1 hu) hne

theorem nowhere_cons {x : Char} (h : ¬ P (x :: (a ++ b))) (ha : Nowhere P a b) :
    Nowhere P (x :: a) b := by
  intro u hne hu
  rcases List.suffix_cons_iff.1 hu with rfl | hu
  · exact h
  · exact ha u hne hu

theorem Nowhere.head {x : Char} (h : Nowhere P (x :: a) b) : ¬ P (x :: (a ++ b)) :=
  h (x :: a) (by simp) (List.suffix_refl _)

theorem Nowhere.tail {x : Char} (h : Nowhere P (x :: a) b) : Nowhere P a b :=
  fun u hne hu => h u hne (hu.trans (List.suffix_cons x a))

theorem Nowhere.append (ha : Nowhere P a (b ++ c)) (hb : Nowhere P b c) :
    Nowhere P (a ++ b) c := by
  induction a with
  | nil => exact hb
  | cons x a ih =>
      refine nowhere_cons ?_ (ih ha.tail)
      simpa using ha.head

/-- Where what `P` says of a text holds only behind `a`, all of `a` stands before it. -/
theorem Nowhere.split {y z w : Text} (h : Nowhere P a (b ++ w)) (heq : a ++ b = y ++ z)
    (hz : P (z ++ w)) : ∃ y', y = a ++ y' ∧ b = y' ++ z := by
  rcases List.append_eq_append_iff.1 heq with ⟨l, hy, hb⟩ | ⟨l, ha, hl⟩
  · exact ⟨l, hy, hb⟩
  · cases l with
    | nil => exact ⟨[], by rw [ha, List.append_nil, List.append_nil], hl.symm⟩
    | cons c l =>
        rw [hl, List.append_assoc] at hz
        exact absurd hz (h (c :: l) (List.cons_ne_nil c l) ⟨y, ha.symm⟩)

end Nowhere

/-- What holds neither from a space before a word on nor from a character of a word on holds from
    nowhere in a text in normal form on. -/
theorem nowhere_of_normal {P : Text → Prop} {n t : Text} (hn : normalize n = n) (hne : n ≠ [])
    (hword : ∀ w ∈ words n, ∀ u, (∀ c ∈ u.head?, c = ' ') → ¬ P (' ' :: (w ++ (u ++ t))))
    (hchar : ∀ c ∈ n, Klartext.isBlank c = false → ∀ v, ¬ P (c :: v)) :
    Nowhere P (' ' :: n) t := by
  intro v hv hsuffix
  cases v with
  | nil => exact absurd rfl hv
  | cons c v =>
      rw [List.cons_append]
      cases hblank : Klartext.isBlank c with
      | true =>
          -- in normal form whitespace is one space, and a word follows it
          obtain rfl : c = ' ' := by
            rcases List.mem_cons.1 (hsuffix.subset List.mem_cons_self) with hspace | hc
            · exact hspace
            · exact eq_space_of_normal hn hc hblank
          obtain ⟨w, hw, u, rfl, hu⟩ := exists_word_of_normal hn hne hsuffix
          rw [List.append_assoc]
          exact hword w hw u hu
      | false =>
          rcases List.mem_cons.1 (hsuffix.subset List.mem_cons_self) with rfl | hc
          · cases hblank
          · exact hchar c hc hblank (v ++ t)

/-- `needle` begins nowhere in `a`, also where it would go on into `b`. -/
def Absent (needle a b : Text) : Prop := ∀ u, u ≠ [] → u <:+ a → ¬ needle <+: u ++ b

theorem absent_cons {needle a b : Text} {c : Char} (h : ¬ needle <+: c :: (a ++ b))
    (ha : Absent needle a b) : Absent needle (c :: a) b :=
  nowhere_cons h ha

theorem Absent.head {needle a b : Text} {c : Char} (h : Absent needle (c :: a) b) :
    ¬ needle <+: c :: (a ++ b) :=
  Nowhere.head h

theorem Absent.tail {needle a b : Text} {c : Char} (h : Absent needle (c :: a) b) :
    Absent needle a b :=
  Nowhere.tail h

/-- Where a literal begins neither in a text nor in the one behind it, it begins in none of both. -/
theorem Absent.append {needle a b c : Text} (ha : Absent needle a (b ++ c))
    (hb : Absent needle b c) : Absent needle (a ++ b) c :=
  Nowhere.append ha hb

/-- No character of the text is the first one of the literal. -/
theorem absent_of_not_mem {k : Char} {needle a b : Text} (h : k ∉ a) :
    Absent (k :: needle) a b := by
  intro u hne hu hprefix
  cases u with
  | nil => exact hne rfl
  | cons c u =>
      have hk : k = c := (List.cons_prefix_cons.1 hprefix).1
      exact h (hk ▸ hu.subset List.mem_cons_self)

/-- What begins none of the words of a text in normal form stands behind no space in it. -/
theorem absent_of_normal {k n t : Text} (hn : normalize n = n) (hne : n ≠ [])
    (hword : ∀ w ∈ words n, ∀ u, (∀ c ∈ u.head?, c = ' ') → ¬ k <+: w ++ (u ++ t)) :
    Absent (' ' :: k) n t := by
  have hnowhere : Nowhere (' ' :: k <+: ·) (' ' :: n) t := by
    refine nowhere_of_normal hn hne (fun w hw u hu hk => ?_) fun c _ hblank v hk => ?_
    · exact hword w hw u hu (List.cons_prefix_cons.1 hk).2
    · obtain rfl := (List.cons_prefix_cons.1 hk).1
      cases hblank
  exact hnowhere.tail

/-- What begins with an absent literal is absent. -/
theorem Absent.longer {needle a b : Text} (h : Absent needle a b) (more : Text) :
    Absent (needle ++ more) a b :=
  fun u hne hu hprefix => h u hne hu ((List.prefix_append needle more).trans hprefix)

theorem splitFirst?_append {needle a b : Text} (h : Absent needle a b) :
    splitFirst? needle (a ++ b) =
      (splitFirst? needle b).map fun parts => (a ++ parts.1, parts.2) := by
  induction a with
  | nil => cases hb : splitFirst? needle b <;> simp [hb]
  | cons c a ih =>
      have hc : needle.isPrefixOf (c :: (a ++ b)) = false := by
        rw [Bool.eq_false_iff, Ne, List.isPrefixOf_iff_prefix]
        exact h.head
      rw [List.cons_append, splitFirst?, hc, ih h.tail]
      cases splitFirst? needle b <;> rfl

theorem splitFirst?_self {needle : Text} (h : needle ≠ []) (t : Text) :
    splitFirst? needle (needle ++ t) = some ([], t) := by
  cases needle with
  | nil => exact absurd rfl h
  | cons k needle =>
      rw [List.cons_append, splitFirst?, if_pos]
      · simp
      · rw [List.isPrefixOf_iff_prefix]
        exact ⟨t, rfl⟩

/-- The first occurrence of a literal is the one behind a text that holds none. -/
theorem splitFirst?_of_absent {needle a t : Text} (hne : needle ≠ [])
    (h : Absent needle a (needle ++ t)) :
    splitFirst? needle (a ++ (needle ++ t)) = some (a, t) := by
  rw [splitFirst?_append h, splitFirst?_self hne]
  simp

theorem holds_eq_false {needle a : Text} (hne : needle ≠ []) (h : Absent needle a []) :
    holds needle a = false := by
  have hsplit := splitFirst?_append h
  rw [List.append_nil] at hsplit
  rw [holds, hsplit, splitFirst?]
  cases needle with
  | nil => exact absurd rfl hne
  | cons k needle => rfl

/-- A text with a literal in it holds the literal. -/
theorem holds_append (needle a t : Text) : holds needle (a ++ (needle ++ t)) = true := by
  unfold holds
  induction a with
  | nil =>
      cases needle with
      | nil => cases t <;> simp [splitFirst?]
      | cons k needle => rw [List.nil_append, splitFirst?_self (by simp)]; rfl
  | cons c a ih =>
      rw [List.cons_append, splitFirst?]
      split
      · rfl
      · rw [Option.isSome_map]
        exact ih

theorem indexOf?_cons (needle : Text) (c : Char) (t : Text) :
    indexOf? needle (c :: t) =
      if needle <+: c :: t then some 0 else (indexOf? needle t).map (· + 1) := by
  rw [indexOf?, splitFirst?, indexOf?]
  simp only [List.isPrefixOf_iff_prefix]
  split
  · rfl
  · rw [Option.map_map, Option.map_map]
    rfl

/-- What is found stands there, and nowhere before. -/
theorem indexOf?_eq_some {needle t : Text} {i : Nat} (h : indexOf? needle t = some i) :
    needle <+: t.drop i ∧ ∀ j < i, ¬ needle <+: t.drop j := by
  induction t generalizing i with
  | nil =>
      rw [indexOf?, splitFirst?] at h
      split at h
      · rename_i hempty
        cases h
        rw [List.isEmpty_iff.1 hempty]
        exact ⟨List.nil_prefix, nofun⟩
      · cases h
  | cons c t ih =>
      rw [indexOf?_cons] at h
      split at h
      · rename_i hhere
        cases h
        exact ⟨hhere, nofun⟩
      · rename_i hhere
        obtain ⟨i, hi, rfl⟩ := Option.map_eq_some_iff.1 h
        obtain ⟨hstands, hnowhere⟩ := ih hi
        refine ⟨hstands, fun j hj => ?_⟩
        cases j with
        | zero => exact hhere
        | succ j => exact hnowhere j (by omega)

/-! ## All occurrences -/

theorem occurrencesFrom_self {needle : Text} (h : needle ≠ []) (offset : Nat) (t : Text) :
    ∃ after, occurrencesFrom needle offset (needle ++ t) = offset :: after := by
  cases needle with
  | nil => exact absurd rfl h
  | cons k needle =>
      refine ⟨_, if_pos ?_⟩
      rw [List.isPrefixOf_iff_prefix]
      exact ⟨t, rfl⟩

/-- A known occurrence is among all occurrences, behind those further to the left. -/
theorem occurrencesFrom_append {needle : Text} (h : needle ≠ []) (offset : Nat) (a t : Text) :
    ∃ before after,
      occurrencesFrom needle offset (a ++ (needle ++ t)) = before ++ (offset + a.length) :: after ∧
      ∀ i ∈ before, ∃ n, i = offset + n ∧ n < a.length ∧
        needle <+: (a ++ (needle ++ t)).drop n := by
  induction a generalizing offset with
  | nil =>
      obtain ⟨after, hself⟩ := occurrencesFrom_self h offset t
      exact ⟨[], after, hself, by simp⟩
  | cons c a ih =>
      obtain ⟨before, after, hoccurrences, hbefore⟩ := ih (offset + 1)
      have hshift : ∀ i ∈ before, ∃ n, i = offset + n ∧ n < (c :: a).length ∧
          needle <+: (c :: a ++ (needle ++ t)).drop n := by
        intro i hi
        obtain ⟨n, rfl, hn, hprefix⟩ := hbefore i hi
        exact ⟨n + 1, by omega, by simpa using hn, hprefix⟩
      rw [List.cons_append, occurrencesFrom, hoccurrences, List.length_cons,
        Nat.add_assoc offset 1, Nat.add_comm 1]
      split
      · rename_i hprefix
        refine ⟨offset :: before, after, rfl, ?_⟩
        rintro i (_ | ⟨_, hi⟩)
        · exact ⟨0, rfl, by simp, List.isPrefixOf_iff_prefix.1 hprefix⟩
        · exact hshift i hi
      · exact ⟨before, after, rfl, hshift⟩

theorem mem_occurrencesFrom {needle t : Text} {offset i : Nat} :
    i ∈ occurrencesFrom needle offset t ↔
      ∃ n ≤ t.length, i = offset + n ∧ needle <+: t.drop n := by
  induction t generalizing offset with
  | nil => simp [occurrencesFrom, and_comm]
  | cons c t ih =>
      have hlater : i ∈ occurrencesFrom needle (offset + 1) t ↔
          ∃ n ≤ t.length, i = offset + (n + 1) ∧ needle <+: t.drop n := by
        simp only [ih, Nat.add_assoc, Nat.add_comm 1]
      have hsplit : (∃ n ≤ (c :: t).length, i = offset + n ∧ needle <+: (c :: t).drop n) ↔
          (i = offset ∧ needle <+: c :: t) ∨ i ∈ occurrencesFrom needle (offset + 1) t := by
        rw [hlater]
        constructor
        · rintro ⟨_ | n, hn, hi, hprefix⟩
          · exact .inl ⟨hi, hprefix⟩
          · exact .inr ⟨n, Nat.le_of_succ_le_succ hn, hi, hprefix⟩
        · rintro (⟨hi, hprefix⟩ | ⟨n, hn, hi, hprefix⟩)
          · exact ⟨0, Nat.zero_le _, hi, hprefix⟩
          · exact ⟨n + 1, Nat.succ_le_succ hn, hi, hprefix⟩
      rw [hsplit, occurrencesFrom]
      split
      · rename_i hprefix
        simp [List.isPrefixOf_iff_prefix.1 hprefix]
      · rename_i hnot
        rw [List.isPrefixOf_iff_prefix] at hnot
        simp [hnot]

/-! ## Matches -/

/-- A match stands where the recognizer matches, and is as long as the recognizer says. -/
theorem mem_matchesFrom {length : Text → Nat} {skip offset : Nat} {t : Text} {s : Span}
    (h : s ∈ matchesFrom length skip offset t) :
    ∃ n, s.start = offset + n ∧ n < t.length ∧ length (t.drop n) ≠ 0 ∧
      s.stop = s.start + length (t.drop n) := by
  induction t generalizing skip offset with
  | nil => cases h
  | cons c rest ih =>
      have hshift {skip : Nat} (hs : s ∈ matchesFrom length skip (offset + 1) rest) :
          ∃ n, s.start = offset + n ∧ n < (c :: rest).length ∧ length ((c :: rest).drop n) ≠ 0 ∧
            s.stop = s.start + length ((c :: rest).drop n) := by
        obtain ⟨n, hstart, hn, hmatch, hstop⟩ := ih hs
        exact ⟨n + 1, by omega, by simpa using hn, hmatch, hstop⟩
      cases skip with
      | succ skip => exact hshift h
      | zero =>
          rw [matchesFrom] at h
          split at h
          · exact hshift h
          · rename_i n hn
            rcases List.mem_cons.1 h with rfl | h
            · exact ⟨0, rfl, by simp, by simp [hn], by simp [hn]⟩
            · exact hshift h

theorem matchesFrom_of_zero {length : Text → Nat} {c : Char} {t : Text} (h : length (c :: t) = 0)
    (offset : Nat) :
    matchesFrom length 0 offset (c :: t) = matchesFrom length 0 (offset + 1) t := by
  rw [matchesFrom, h]

theorem matchesFrom_of_match {length : Text → Nat} {c : Char} {t : Text} {n : Nat}
    (h : length (c :: t) = n + 1) (offset : Nat) :
    matchesFrom length 0 offset (c :: t) =
      ⟨offset, offset + (n + 1)⟩ :: matchesFrom length n (offset + 1) t := by
  rw [matchesFrom, h]

/-- No match that begins in `a` goes beyond it into `b`. -/
def Contained (length : Text → Nat) (a b : Text) : Prop :=
  ∀ u, u ≠ [] → u <:+ a → length (u ++ b) ≤ u.length

theorem Contained.tail {length : Text → Nat} {a b : Text} {c : Char}
    (h : Contained length (c :: a) b) : Contained length a b :=
  fun u hne hu => h u hne (hu.trans (List.suffix_cons c a))

/-- The matches behind a part that no match leaves are the matches of the rest by itself. -/
theorem matchesFrom_append {length : Text → Nat} {a b : Text} (h : Contained length a b)
    {skip : Nat} (hskip : skip ≤ a.length) (offset : Nat) :
    ∃ inner, matchesFrom length skip offset (a ++ b) =
      inner ++ matchesFrom length 0 (offset + a.length) b := by
  induction a generalizing skip offset with
  | nil =>
      have hskip : skip = 0 := by simpa using hskip
      subst hskip
      exact ⟨[], rfl⟩
  | cons c a ih =>
      have hlength : offset + (c :: a).length = offset + 1 + a.length := by
        simp only [List.length_cons]
        omega
      rw [List.cons_append, hlength]
      cases skip with
      | succ skip => exact ih h.tail (by simpa using hskip) (offset + 1)
      | zero =>
          -- a match here ends in `a`, so that what it skips is left before `b` begins
          have hmatch := h (c :: a) (by simp) (List.suffix_refl _)
          rw [List.cons_append, List.length_cons] at hmatch
          rw [matchesFrom]
          split
          · exact ih h.tail (Nat.zero_le _) (offset + 1)
          · rename_i n hn
            have hn' : n ≤ a.length := by omega
            obtain ⟨inner, hinner⟩ := ih h.tail hn' (offset + 1)
            exact ⟨_ :: inner, by rw [hinner]; rfl⟩

/-! ## Cutting at a character -/

section SplitOn

variable (separator : Char)

theorem splitOn_ne_nil (t : Text) : splitOn separator t ≠ [] := by
  cases t with
  | nil => exact List.cons_ne_nil _ _
  | cons c t =>
      rw [splitOn]
      split
      · exact List.cons_ne_nil _ _
      · split <;> exact List.cons_ne_nil _ _

theorem splitOn_separator (t : Text) :
    splitOn separator (separator :: t) = [] :: splitOn separator t := by
  cases h : splitOn separator t with
  | nil => exact absurd h (splitOn_ne_nil separator t)
  | cons part others => rw [splitOn, h]; exact if_pos rfl

variable {separator} in
theorem splitOn_other {c : Char} (hc : c ≠ separator) {t part : Text} {others : List Text}
    (h : splitOn separator t = part :: others) :
    splitOn separator (c :: t) = (c :: part) :: others := by
  rw [splitOn, h]
  exact if_neg hc

/-- The first part is what stands before the first separator. -/
theorem head?_splitOn (t : Text) :
    (splitOn separator t).head? = some (t.takeWhile (· != separator)) := by
  induction t with
  | nil => rfl
  | cons c t ih =>
      by_cases hc : c = separator
      · subst hc
        rw [splitOn_separator, List.takeWhile_cons_of_neg (by simp)]
        rfl
      · obtain ⟨part, others, hparts⟩ := List.exists_cons_of_ne_nil (splitOn_ne_nil separator t)
        rw [hparts] at ih
        cases ih
        rw [splitOn_other hc hparts, List.takeWhile_cons_of_pos (by simpa using hc)]
        rfl

/-- What stands before and behind a separator is cut by itself. -/
theorem splitOn_append (a b : Text) :
    splitOn separator (a ++ separator :: b) = splitOn separator a ++ splitOn separator b := by
  induction a with
  | nil => exact splitOn_separator separator b
  | cons c a ih =>
      by_cases hc : c = separator
      · subst hc
        rw [List.cons_append, splitOn_separator, splitOn_separator, ih, List.cons_append]
      · obtain ⟨part, others, hparts⟩ := List.exists_cons_of_ne_nil (splitOn_ne_nil separator a)
        rw [hparts] at ih
        rw [List.cons_append, splitOn_other hc ih, splitOn_other hc hparts]
        rfl

theorem splitOn_of_not_mem {t : Text} (h : separator ∉ t) : splitOn separator t = [t] := by
  induction t with
  | nil => rfl
  | cons c t ih =>
      have ht := ih (List.not_mem_of_not_mem_cons h)
      exact splitOn_other (Ne.symm (List.ne_of_not_mem_cons h)) ht

/-- The separator stands in none of the parts. -/
theorem not_mem_of_mem_splitOn {t part : Text} (h : part ∈ splitOn separator t) :
    separator ∉ part := by
  induction t generalizing part with
  | nil =>
      obtain rfl := List.mem_singleton.1 h
      exact List.not_mem_nil
  | cons c t ih =>
      by_cases hc : c = separator
      · subst hc
        rw [splitOn_separator] at h
        rcases List.mem_cons.1 h with rfl | h
        · exact List.not_mem_nil
        · exact ih h
      · obtain ⟨first, others, hparts⟩ := List.exists_cons_of_ne_nil (splitOn_ne_nil separator t)
        rw [splitOn_other hc hparts] at h
        rcases List.mem_cons.1 h with rfl | h
        · exact List.not_mem_cons_of_ne_of_not_mem (Ne.symm hc) (ih (hparts ▸ List.mem_cons_self))
        · exact ih (hparts ▸ List.mem_cons_of_mem first h)

theorem length_splitOn (t : Text) : (splitOn separator t).length = t.count separator + 1 := by
  induction t with
  | nil => rfl
  | cons c t ih =>
      by_cases hc : c = separator
      · subst hc
        rw [splitOn_separator, List.length_cons, ih, List.count_cons_self]
      · obtain ⟨part, others, hparts⟩ := List.exists_cons_of_ne_nil (splitOn_ne_nil separator t)
        rw [hparts] at ih
        rw [splitOn_other hc hparts, List.count_cons_of_ne hc, ← ih]
        rfl

end SplitOn

end Text

end Klartext
