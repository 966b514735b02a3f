import Klartext.Proofs.Text.Search
import Klartext.Proofs.Text.Words
import Klartext.Reader.Enumeration

set_option autoImplicit false

/-! # Where a list can be cut

The search cuts the text of a list at its separators and joins, and ends it at the occurrences of
the terminator. All three are seen from what the text goes on with (`Cut`), and what goes on in a
text that was cut off goes on in the whole text too. -/

namespace Klartext

namespace Enumeration

/-! ## Separators -/

theorem separatorLength_ne_zero {t : Text} :
    separatorLength t ≠ 0 ↔ ∃ b u, t = ',' :: b :: u ∧ isBlank b = true := by
  constructor
  · intro h
    rw [separatorLength.eq_def] at h
    split at h
    · rename_i u
      cases u with
      | nil => simp at h
      | cons b u =>
          by_cases hb : isBlank b = true
          · exact ⟨b, u, rfl, hb⟩
          · simp [hb] at h
    · exact absurd rfl h
  · rintro ⟨b, u, rfl, hb⟩
    simp [separatorLength, hb]

theorem separatorLength_comma_space {t : Text} (h : Text.Flush t) :
    separatorLength (',' :: ' ' :: t) = 2 := by
  have hspace : isBlank ' ' = true := by decide
  rw [separatorLength, List.takeWhile_cons_of_pos hspace, h.takeWhile_eq]
  rfl

theorem flush_of_isPrefix {p t : Text} (hp : p <+: t) (h : Text.Flush t) : Text.Flush p := by
  obtain ⟨u, rfl⟩ := hp
  cases p with
  | nil => exact Text.flush_nil
  | cons c p => exact Text.flush_cons (h c (by simp))

/-- A comma and a space are a separator of two characters as soon as both are there. -/
theorem separatorLength_of_prefix {p t : Text} (hp : p <+: ',' :: ' ' :: t) (h : Text.Flush t)
    (hmatch : separatorLength p ≠ 0) : separatorLength p = 2 := by
  obtain ⟨b, u, rfl, _⟩ := separatorLength_ne_zero.1 hmatch
  obtain ⟨rfl, hu⟩ := List.cons_prefix_cons.1 (List.cons_prefix_cons.1 hp).2
  exact separatorLength_comma_space (flush_of_isPrefix hu h)

/-! ## Joins -/

theorem joinLength_eq {before after u : Text} (hbefore : before ≠ [])
    (hblank : ∀ c ∈ before, isBlank c = true) (hafter : after ≠ [])
    (hblank' : ∀ c ∈ after, isBlank c = true) (hu : Text.Flush u) :
    joinLength (before ++ ('u' :: 'n' :: 'd' :: (after ++ u))) =
      before.length + 3 + after.length := by
  have hund : Text.Flush ('u' :: 'n' :: 'd' :: (after ++ u)) := Text.flush_cons (by decide)
  have hzero : before.length ≠ 0 := by simpa using hbefore
  have hzero' : after.length ≠ 0 := by simpa using hafter
  simp only [joinLength, List.takeWhile_append_of_pos hblank, hund.takeWhile_eq,
    List.dropWhile_append_of_pos hblank, hund.dropWhile_eq,
    List.takeWhile_append_of_pos hblank', hu.takeWhile_eq, List.append_nil]
  simp [hzero, hzero']

theorem joinLength_ne_zero {t : Text} (h : joinLength t ≠ 0) :
    ∃ before after u, t = before ++ ('u' :: 'n' :: 'd' :: (after ++ u)) ∧ before ≠ [] ∧
      (∀ c ∈ before, isBlank c = true) ∧ after ≠ [] ∧ (∀ c ∈ after, isBlank c = true) ∧
      Text.Flush u := by
  simp only [joinLength] at h
  split at h
  · rename_i rest hrest
    split at h
    · exact absurd rfl h
    · rename_i hlengths
      simp only [Bool.or_eq_true, decide_eq_true_eq, not_or, List.length_eq_zero_iff] at hlengths
      refine ⟨t.takeWhile isBlank, rest.takeWhile isBlank, rest.dropWhile isBlank, ?_,
        hlengths.1, List.all_eq_true.1 List.all_takeWhile, hlengths.2,
        List.all_eq_true.1 List.all_takeWhile, Text.flush_dropWhile rest⟩
      rw [List.takeWhile_append_dropWhile, ← hrest, List.takeWhile_append_dropWhile]
  · exact absurd rfl h

theorem joinLength_und {t : Text} (h : Text.Flush t) : joinLength (" und ".toList ++ t) = 5 := by
  have hspace : ∀ c ∈ [' '], isBlank c = true := List.forall_mem_singleton.2 (by decide)
  exact joinLength_eq (List.cons_ne_nil _ _) hspace (List.cons_ne_nil _ _) hspace h

/-- The word `und` between spaces is a join of five characters as soon as all are there. -/
theorem joinLength_of_prefix {p t : Text} (hp : p <+: " und ".toList ++ t) (h : Text.Flush t)
    (hmatch : joinLength p ≠ 0) : joinLength p = 5 := by
  obtain ⟨before, after, u, rfl, hbefore, hblank, hafter, hblank', hu⟩ := joinLength_ne_zero hmatch
  rw [joinLength_eq hbefore hblank hafter hblank' hu]
  have hp : before ++ ('u' :: 'n' :: 'd' :: (after ++ u)) <+:
      ' ' :: 'u' :: 'n' :: 'd' :: ' ' :: t :=
    hp
  match before, after, hbefore, hafter with
  | [b], [a], _, _ => rfl
  | b :: b' :: before, _, _, _ =>
      obtain ⟨rfl, _⟩ := List.cons_prefix_cons.1 (List.cons_prefix_cons.1 hp).2
      exact absurd (hblank 'u' (by simp)) (by decide)
  | [b], a :: a' :: after, _, _ =>
      simp only [List.cons_append, List.nil_append, List.cons_prefix_cons, true_and] at hp
      obtain ⟨v, rfl⟩ := hp.2.2
      have ha' : isBlank a' = false := h a' (by simp)
      simp [hblank' a' (by simp)] at ha'

theorem joinLength_ne_zero_of {before t : Text} {b : Char} (hbefore : before ≠ [])
    (hblank : ∀ c ∈ before, isBlank c = true) (hb : isBlank b = true) :
    joinLength (before ++ ('u' :: 'n' :: 'd' :: b :: t)) ≠ 0 := by
  have hne : (b :: t).takeWhile isBlank ≠ [] := by simp [hb]
  have hlength := joinLength_eq hbefore hblank hne (List.all_eq_true.1 List.all_takeWhile)
    (Text.flush_dropWhile (b :: t))
  rw [List.takeWhile_append_dropWhile] at hlength
  omega

/-! ## Matches inside an item -/

/-- No separator goes beyond a text that ends neither in whitespace nor in a comma. -/
theorem contained_separatorLength {a : Text} {c : Char} (hblank : isBlank c = false)
    (hcomma : c ≠ ',') (b : Text) : Text.Contained separatorLength (a ++ [c]) b := by
  intro u hne hu
  by_cases hmatch : separatorLength (u ++ b) = 0
  · omega
  obtain ⟨v, rfl, _⟩ := (List.suffix_concat_iff.1 hu).resolve_left hne
  obtain ⟨d, w, hw, _⟩ := separatorLength_ne_zero.1 hmatch
  cases v with
  | nil => exact absurd (List.cons.inj hw).1 hcomma
  | cons k v =>
      obtain ⟨rfl, _⟩ := List.cons.inj hw
      -- the whitespace behind the comma ends before `c` at the latest
      have hinside : (v ++ c :: b).takeWhile isBlank = v.takeWhile isBlank := by
        rw [List.takeWhile_append]
        split
        · rename_i hall
          rw [(List.takeWhile_prefix isBlank).eq_of_length hall]
          simp [hblank]
        · rfl
      have hle := (List.takeWhile_prefix isBlank (l := v)).length_le
      simp only [List.cons_append, List.append_assoc, List.nil_append, separatorLength, hinside]
      split
      · exact Nat.zero_le _
      · simp only [List.length_cons, List.length_append, List.length_nil]
        omega

/-- No join goes beyond a text that ends neither in whitespace nor in the word `und`. -/
theorem contained_joinLength {a b : Text} {c : Char} (hblank : isBlank c = false)
    (hund : ∀ v d, isBlank d = true → a ++ [c] ≠ v ++ d :: "und".toList)
    (hb : ∀ d ∈ b.head?, d = ',' ∨ d = ' ') : Text.Contained joinLength (a ++ [c]) b := by
  intro u hne hu
  by_cases hmatch : joinLength (u ++ b) = 0
  · omega
  obtain ⟨v, rfl, hv⟩ := (List.suffix_concat_iff.1 hu).resolve_left hne
  obtain ⟨before, after, w, hw, hbefore, hblanks, hafter, hblanks', hflush⟩ :=
    joinLength_ne_zero hmatch
  rw [hw, joinLength_eq hbefore hblanks hafter hblanks' hflush]
  have hnot {l : Text} (hl : ∀ d ∈ l, isBlank d = true) : c ∉ l := by
    intro hc
    simp [hl c hc] at hblank
  rcases List.append_eq_append_iff.1 hw with ⟨l, hl, _⟩ | ⟨l, hl, hrest⟩
  · exact absurd (by simp [hl]) (hnot hblanks)
  · -- the text ends behind the whitespace in front of `und`
    match l, hl, hrest with
    | [], hl, _ =>
        rw [List.append_nil] at hl
        exact absurd (by simp [← hl]) (hnot hblanks)
    | [_], _, hrest =>
        -- the text ends behind the `u`, so that `b` begins with the `n`
        obtain ⟨_, rfl⟩ := List.cons.inj hrest
        exact absurd (hb 'n' (by simp)) (by decide)
    | [_, _], _, hrest =>
        obtain ⟨_, hrest⟩ := List.cons.inj hrest
        obtain ⟨_, rfl⟩ := List.cons.inj hrest
        exact absurd (hb 'd' (by simp)) (by decide)
    | x :: y :: z :: l, hl, hrest =>
        simp only [List.cons_append, List.cons.injEq] at hrest
        obtain ⟨rfl, rfl, rfl, hrest⟩ := hrest
        have hlength := congrArg List.length hl
        simp only [List.length_append, List.length_cons, List.length_nil] at hlength ⊢
        rcases List.append_eq_append_iff.1 hrest with ⟨k, hk, _⟩ | ⟨k, hk, _⟩
        · have hafterLength := congrArg List.length hk
          simp only [List.length_append] at hafterLength
          omega
        · rcases List.eq_nil_or_concat l with rfl | ⟨front, d, rfl⟩
          · -- the text ends with `und` itself
            obtain ⟨e, rfl⟩ := hv
            obtain ⟨front, d, rfl⟩ := (List.eq_nil_or_concat before).resolve_left hbefore
            refine absurd ?_ (hund (e ++ front) d (hblanks d (by simp)))
            rw [List.append_assoc, hl]
            simp
          · have hlast : v ++ [c] = (before ++ 'u' :: 'n' :: 'd' :: front) ++ [d] := by
              rw [hl]
              simp
            obtain ⟨rfl, _⟩ := List.cons.inj (List.append_inj' hlast rfl).2
            exact absurd (by simp [hk]) (hnot hblanks')

/-! ## Cuts -/

/-- A separator, a join or the terminator stands at the front of the text. -/
def Cut (terminator t : Text) : Prop :=
  separatorLength t ≠ 0 ∨ joinLength t ≠ 0 ∨ terminator <+: t

theorem separatorLength_mono {p t : Text} (hp : p <+: t) (h : separatorLength p ≠ 0) :
    separatorLength t ≠ 0 := by
  obtain ⟨b, u, rfl, hb⟩ := separatorLength_ne_zero.1 h
  obtain ⟨v, rfl⟩ := hp
  exact separatorLength_ne_zero.2 ⟨b, u ++ v, rfl, hb⟩

theorem joinLength_mono {p t : Text} (hp : p <+: t) (h : joinLength p ≠ 0) :
    joinLength t ≠ 0 := by
  obtain ⟨before, after, u, rfl, hbefore, hblank, hafter, hblank', _⟩ := joinLength_ne_zero h
  obtain ⟨v, rfl⟩ := hp
  cases after with
  | nil => exact absurd rfl hafter
  | cons b after =>
      simp only [List.append_assoc, List.cons_append]
      exact joinLength_ne_zero_of hbefore hblank (hblank' b List.mem_cons_self)

end Enumeration

end Klartext
