import Klartext.Number.Layout
import Klartext.Proofs.Reader.Words
import Klartext.Proofs.Surface.Literal

set_option autoImplicit false

/-! # Grouped digits

A run of digits decides at its end whether there was one: a separator that no digit follows undoes
all of it. So digits are read exactly where grouped digits stand that nothing behind them goes on
with, and they are read to their end (`Reader.digits_eq_found`). -/

namespace Klartext

open Surface

namespace Text

/-- Runs of digits with single separators between them, at least one run and none of them empty. -/
def IsGrouped (separator : Char) (g : Text) : Prop :=
  ∃ d : Digits, g = joinWith [separator] d.groups

/-- The text is the grouped digits `g` and behind them a rest that does not go on with them. -/
structure HasDigits (separator : Char) (t g rest : Text) : Prop where
  text_eq : t = g ++ rest
  grouped : IsGrouped separator g
  ends : EndsDigits separator rest

/-- Joined texts without the separators are the texts, if it does not stand in them. -/
theorem filter_joinWith {separator : Char} {ts : List Text} (h : ∀ t ∈ ts, separator ∉ t) :
    (joinWith [separator] ts).filter (· ≠ separator) = ts.flatten := by
  induction ts with
  | nil => rfl
  | cons t ts ih =>
      have ht : t.filter (· ≠ separator) = t := by
        refine List.filter_eq_self.2 fun c hc => decide_eq_true ?_
        rintro rfl
        exact h t List.mem_cons_self hc
      have hts := ih fun u hu => h u (List.mem_cons_of_mem t hu)
      by_cases hlast : ts = []
      · subst hlast
        rw [joinWith, ht, List.flatten_cons, List.flatten_nil, List.append_nil]
      · have hseparator : [separator].filter (· ≠ separator) = [] := by simp
        rw [joinWith_cons hlast, List.filter_append, List.filter_append, ht, hts, hseparator,
          List.nil_append, List.flatten_cons]

theorem joinWith_cons_cons (separator : Text) (c : Char) (t : Text) (ts : List Text) :
    joinWith separator ((c :: t) :: ts) = c :: joinWith separator (t :: ts) := by
  cases ts <;> rfl

end Text

/-- Grouped digits without the separators are the digits. -/
theorem Surface.Digits.filter_eq_joined (d : Digits) {separator : Char}
    (hseparator : separator.isDigit = false) :
    (Text.joinWith [separator] d.groups).filter (· ≠ separator) = d.joined := by
  refine Text.filter_joinWith fun g hg hmem => ?_
  rw [(d.grouped g hg).2 separator hmem] at hseparator
  cases hseparator

namespace Reader

variable {separator : Char} {t ds rest : Text} {unfinished : Bool} {index : Nat}

/-! ## What a run leaves -/

/-- A run that was begun and did not end in a separator leaves nothing that would go on with it. -/
theorem endsDigits_digitRun (hindex : index ≠ 0)
    (h : (digitRun (some separator) unfinished index t).unfinished = false) :
    Text.EndsDigits separator (digitRun (some separator) unfinished index t).rest := by
  fun_induction digitRun (some separator) unfinished index t with
  | case1 unfinished index => simp [Text.EndsDigits]
  | case2 unfinished index c t hseparator hstop =>
      simp only at h
      simp [h, hindex] at hstop
  | case3 unfinished index c t hseparator hstop ih => exact ih (Nat.succ_ne_zero index) h
  | case4 unfinished index c t hseparator hdigit others ih =>
      exact ih (Nat.succ_ne_zero index) h
  | case5 unfinished index c t hseparator hdigit =>
      intro d hd
      obtain rfl := Option.some.inj hd
      exact ⟨Bool.eq_false_iff.2 hdigit, fun heq => hseparator (congrArg some heq)⟩

/-- A run that was begun goes on with the rest of a group and with further groups. Behind a
    separator it goes on with at least one digit. -/
theorem exists_groups_of_digitRun (hindex : index ≠ 0)
    (h : (digitRun (some separator) unfinished index t).unfinished = false) :
    ∃ group groups,
      t = Text.joinWith [separator] (group :: groups) ++
        (digitRun (some separator) unfinished index t).rest ∧
      (digitRun (some separator) unfinished index t).digits = group ++ groups.flatten ∧
      (∀ c ∈ group, c.isDigit = true) ∧
      (∀ g ∈ groups, g ≠ [] ∧ ∀ c ∈ g, c.isDigit = true) ∧ (unfinished = true → group ≠ []) := by
  fun_induction digitRun (some separator) unfinished index t with
  | case1 unfinished index =>
      simp only at h
      exact ⟨[], [], rfl, rfl, List.forall_mem_nil _, List.forall_mem_nil _, by simp [h]⟩
  | case2 unfinished index c t hseparator hstop =>
      simp only at h
      simp [h, hindex] at hstop
  | case3 unfinished index c t hseparator hstop ih =>
      -- nothing is left of the group that was begun, and behind the separator stands a new one
      obtain rfl := Option.some.inj hseparator
      obtain ⟨group, groups, ht, hdigits, hgroup, hgroups, hne⟩ := ih (Nat.succ_ne_zero index) h
      refine ⟨[], group :: groups, ?_, hdigits, List.forall_mem_nil _,
        List.forall_mem_cons.2 ⟨⟨hne rfl, hgroup⟩, hgroups⟩, fun hu => ?_⟩
      · exact congrArg (c :: ·) ht
      · simp [hu] at hstop
  | case4 unfinished index c t hseparator hdigit others ih =>
      obtain ⟨group, groups, ht, hdigits, hgroup, hgroups, -⟩ := ih (Nat.succ_ne_zero index) h
      refine ⟨c :: group, groups, ?_, congrArg (c :: ·) hdigits,
        List.forall_mem_cons.2 ⟨hdigit, hgroup⟩, hgroups, fun _ => List.cons_ne_nil c group⟩
      rw [Text.joinWith_cons_cons]
      exact congrArg (c :: ·) ht
  | case5 unfinished index c t hseparator hdigit =>
      simp only at h
      exact ⟨[], [], rfl, rfl, List.forall_mem_nil _, List.forall_mem_nil _, by simp [h]⟩

/-! ## Which digits are read -/

theorem digitRun_digit (hseparator : separator.isDigit = false) {c : Char}
    (hc : c.isDigit = true) (unfinished : Bool) (index : Nat) (t : Text) :
    digitRun (some separator) unfinished index (c :: t) =
      let others := digitRun (some separator) false (index + 1) t
      { others with digits := c :: others.digits } :=
  digitRun_group hseparator (List.cons_ne_nil c []) (by simpa using hc) unfinished index t

/-- Digits are read where grouped digits stand in front of what does not go on with them. -/
theorem digits_eq_found (hseparator : separator.isDigit = false) :
    digits (some separator) t = .found ds rest ↔
      ∃ d : Digits, t = Text.joinWith [separator] d.groups ++ rest ∧
        Text.EndsDigits separator rest ∧ ds = d.joined := by
  constructor
  · intro h
    match t with
    | [] => cases h
    | c :: t =>
        -- a run takes nothing but a digit at its beginning
        cases hc : c.isDigit with
        | false =>
            rw [digits_missed (by simpa using hc)] at h
            cases h
        | true =>
            simp only [digits, digitRun_digit hseparator hc, List.isEmpty_cons, Bool.false_or] at h
            split at h
            · cases h
            · rename_i hfinished
              rw [Bool.not_eq_true] at hfinished
              cases h
              obtain ⟨group, groups, ht, hdigits, hgroup, hgroups, -⟩ :=
                exists_groups_of_digitRun Nat.one_ne_zero hfinished
              refine ⟨⟨(c :: group) :: groups, List.cons_ne_nil _ _, ?_⟩, ?_,
                endsDigits_digitRun Nat.one_ne_zero hfinished, congrArg (c :: ·) hdigits⟩
              · exact List.forall_mem_cons.2
                  ⟨⟨List.cons_ne_nil c group, List.forall_mem_cons.2 ⟨hc, hgroup⟩⟩, hgroups⟩
              · rw [Text.joinWith_cons_cons]
                exact congrArg (c :: ·) ht
  · rintro ⟨d, rfl, hrest, rfl⟩
    exact digits_groups hseparator d.ne_nil d.grouped hrest

/-- Digits are read or missed, and nothing else comes of them. -/
theorem digits_eq_missed :
    digits (some separator) t = .missed ↔
      ∀ ds rest, digits (some separator) t ≠ .found ds rest := by
  simp only [digits]
  split
  · simp
  · simp

/-! ## Numbers -/

/-- The digits of a number denote it, whatever zeros stand before them. -/
theorem natOf_zeros_toDigits (zeros n : Nat) :
    Layout.natOf (List.replicate zeros '0' ++ Nat.toDigits 10 n) = n := by
  calc Layout.natOf (List.replicate zeros '0' ++ Nat.toDigits 10 n)
      = Nat.ofDigitChars 10 (Nat.toDigits 10 n)
          (Nat.ofDigitChars 10 (List.replicate zeros '0') 0) := Nat.ofDigitChars_append 0
    _ = Nat.ofDigitChars 10 (Nat.toDigits 10 n) 0 := by
        rw [Nat.ofDigitChars_replicate_zero, Nat.mul_zero]
    _ = n := Nat.ofDigitChars_ten_toDigits

theorem number_groups (d : Digits) (ht : Text.EndsDigits '.' t)
    (hlimit : d.joined.length ≤ digitLimit) :
    number (Text.joinWith ['.'] d.groups ++ t) = .found (Layout.natOf d.joined) t := by
  rw [number, bind_found (digits_groups (by decide) d.ne_nil d.grouped ht)]
  exact congrFun (if_neg (Nat.not_lt.2 hlimit)) t

/-! ## Grouped digits are read exactly -/

theorem digits_eq_found_iff (hseparator : separator.isDigit = false) :
    digits (some separator) t = .found ds rest ↔
      ∃ g, Text.HasDigits separator t g rest ∧ ds = g.filter (· ≠ separator) := by
  rw [digits_eq_found hseparator]
  constructor
  · rintro ⟨d, ht, hrest, rfl⟩
    exact ⟨_, ⟨ht, ⟨d, rfl⟩, hrest⟩, (d.filter_eq_joined hseparator).symm⟩
  · rintro ⟨_, ⟨ht, ⟨d, rfl⟩, hrest⟩, rfl⟩
    exact ⟨d, ht, hrest, d.filter_eq_joined hseparator⟩

/-- A text has grouped digits in front in one way at most, since reading gives one result. -/
theorem hasDigits_unique (hseparator : separator.isDigit = false) {g g' rest' : Text}
    (h : Text.HasDigits separator t g rest) (h' : Text.HasDigits separator t g' rest') :
    g = g' ∧ rest = rest' := by
  have hread := (digits_eq_found_iff hseparator).2 ⟨g, h, rfl⟩
  rw [(digits_eq_found_iff hseparator).2 ⟨g', h', rfl⟩] at hread
  injection hread with _ hrest
  obtain rfl := hrest
  exact ⟨List.append_cancel_right (h.text_eq.symm.trans h'.text_eq), rfl⟩

/-- The digits of a number, divided into groups. -/
theorem exists_digits_of_toDigits {n zeros : Nat} {groups : List Text}
    (hdigits : groups.flatten = List.replicate zeros '0' ++ Nat.toDigits 10 n)
    (hne : ∀ g ∈ groups, g ≠ []) : ∃ d : Digits, d.groups = groups := by
  refine ⟨⟨groups, ?_, fun g hg => ⟨hne g hg, fun c hc => ?_⟩⟩, rfl⟩
  · rintro rfl
    exact Nat.toDigits_ne_nil (List.append_eq_nil_iff.1 hdigits.symm).2
  · have hmem : c ∈ groups.flatten := List.mem_flatten.2 ⟨g, hg, hc⟩
    rw [hdigits, List.mem_append, List.mem_replicate] at hmem
    rcases hmem with ⟨-, rfl⟩ | hmem
    · rfl
    · exact Nat.isDigit_of_mem_toDigits (by decide) (by decide) hmem

/-- Digits are read exactly where grouped digits stand that the text behind them does not go on
    with. There is one such split of a text at most; the digits read are those of the groups, and
    the text behind them is left. Wherever there is none, digits are missed. A number is read from
    its digits, with or without zeros before them, however they are divided into groups by points,
    and the text behind them is left. -/
theorem digits_exact :
    (∀ (separator : Char) (t : Text), separator.isDigit = false →
      (∀ ds rest, digits (some separator) t = .found ds rest ↔
        ∃ g, Text.HasDigits separator t g rest ∧ ds = g.filter (· ≠ separator)) ∧
      (∀ g g' rest rest', Text.HasDigits separator t g rest →
        Text.HasDigits separator t g' rest' → g = g' ∧ rest = rest') ∧
      (digits (some separator) t = .missed ↔ ¬ ∃ g rest, Text.HasDigits separator t g rest)) ∧
    ∀ (n zeros : Nat) (groups : List Text) (rest : Text),
      groups.flatten = List.replicate zeros '0' ++ Nat.toDigits 10 n → (∀ g ∈ groups, g ≠ []) →
      groups.flatten.length ≤ 4300 → Text.EndsDigits '.' rest →
      number (Text.joinWith ['.'] groups ++ rest) = .found n rest := by
  constructor
  · intro separator t hseparator
    refine ⟨fun ds rest => digits_eq_found_iff hseparator,
      fun g g' rest rest' => hasDigits_unique hseparator, ?_⟩
    rw [digits_eq_missed]
    constructor
    · rintro hmissed ⟨g, rest, h⟩
      exact hmissed _ rest ((digits_eq_found_iff hseparator).2 ⟨g, h, rfl⟩)
    · intro hnone ds rest hfound
      obtain ⟨g, h, -⟩ := (digits_eq_found_iff hseparator).1 hfound
      exact hnone ⟨g, rest, h⟩
  · intro n zeros groups rest hdigits hne hlimit hrest
    obtain ⟨d, rfl⟩ := exists_digits_of_toDigits hdigits hne
    rw [number_groups d hrest hlimit, Digits.joined, hdigits, natOf_zeros_toDigits]

/-- Groups of three digits with a word behind them, and a number with zeros before it in groups of
    different lengths, with a comma behind it. -/
theorem digits_exact_thousands :
    '.'.isDigit = false ∧
      Text.HasDigits '.' "100.000.000 Euro".toList "100.000.000".toList " Euro".toList ∧
      digits (some '.') "100.000.000 Euro".toList = .found "100000000".toList " Euro".toList ∧
      [['0'], ['0', '1'], ['0', '0', '0']].flatten =
        List.replicate 2 '0' ++ Nat.toDigits 10 1000 ∧
      Text.EndsDigits '.' ",5".toList ∧
      number "0.01.000,5".toList = .found 1000 ",5".toList := by
  have hsplit : Text.HasDigits '.' "100.000.000 Euro".toList "100.000.000".toList
      " Euro".toList :=
    ⟨rfl, ⟨⟨["100".toList, "000".toList, "000".toList], by simp, by simp⟩, rfl⟩,
      by simp [Text.EndsDigits]⟩
  have hzeros : [['0'], ['0', '1'], ['0', '0', '0']].flatten =
      List.replicate 2 '0' ++ Nat.toDigits 10 1000 := by decide
  have hrest : Text.EndsDigits '.' ",5".toList := by simp [Text.EndsDigits]
  exact ⟨by decide, hsplit,
    ((digits_exact.1 '.' _ (by decide)).1 _ _).2 ⟨_, hsplit, by decide⟩, hzeros, hrest,
    digits_exact.2 1000 2 _ _ hzeros (by decide) (by decide) hrest⟩

end Reader

end Klartext
