import Klartext.Proofs.Continued.Loop

set_option autoImplicit false

/-! # Readers and whitespace at the end

A reader is *unmoved* if whitespace at the end of the text changes nothing about what it does: what it
finds it finds, what it misses it misses, and where it breaks off it breaks off. Most readers are
unmoved only as long as there is an exclamation mark in front of that whitespace. Without one, the
space behind `mit` could be the one that the text was lacking. -/

namespace Klartext

open Rules

/-! ## Texts that are closed by an exclamation mark -/

namespace Text

/-- Behind the last exclamation mark of the text, of which there is one, stands only whitespace. -/
def Sealed (t : Text) : Prop := ∃ u blank, t = u ++ '!' :: blank ∧ isBlank blank = true

/-- Nothing is left of the text but whitespace, or it is sealed. -/
def Ended (t : Text) : Prop := Sealed t ∨ isBlank t = true

/-- The last character of the text is neither whitespace nor an exclamation mark. -/
def Firm (t : Text) : Prop := ∃ u c, t = u ++ [c] ∧ Klartext.isBlank c = false ∧ c ≠ '!'

theorem Sealed.mark {t : Text} (h : Sealed t) : '!' ∈ t := by
  obtain ⟨u, blank, rfl, -⟩ := h
  simp

theorem Sealed.append {t : Text} (h : Sealed t) (front : Text) : Sealed (front ++ t) := by
  obtain ⟨u, blank, rfl, hblank⟩ := h
  exact ⟨front ++ u, blank, (List.append_assoc ..).symm, hblank⟩

/-- What is left of a sealed text is sealed as long as the exclamation mark is in it. -/
theorem Sealed.ended {rest t : Text} (h : Sealed t) (hsuffix : rest <:+ t) : Ended rest := by
  obtain ⟨u, blank, rfl, hblank⟩ := h
  obtain ⟨front, hfront⟩ := hsuffix
  rcases List.append_eq_append_iff.1 hfront with ⟨l, -, hl⟩ | ⟨l, -, hl⟩
  · exact .inl ⟨l, blank, hl, hblank⟩
  · cases l with
    | nil => exact .inl ⟨[], blank, hl.symm, hblank⟩
    | cons c l =>
        rw [List.cons_append, List.cons.injEq] at hl
        rw [hl.2] at hblank
        exact .inr (isBlank_append.1 hblank).2

theorem Ended.sealed {t : Text} (h : Ended t) (hmark : '!' ∈ t) : Sealed t :=
  h.resolve_right fun hblank => not_mem_of_isBlank hblank hmark

theorem Ended.of_suffix {rest t : Text} (h : Ended t) (hsuffix : rest <:+ t) : Ended rest := by
  rcases h with hsealed | hblank
  · exact hsealed.ended hsuffix
  · obtain ⟨front, rfl⟩ := hsuffix
    exact .inr (isBlank_append.1 hblank).2

/-- What ends in another character than the exclamation mark was taken from in front of it. -/
theorem Sealed.behind_firm {used rest : Text} (h : Sealed (used ++ rest)) (hused : Firm used) :
    Sealed rest := by
  obtain ⟨u, c, rfl, hc, hne⟩ := hused
  rcases h.ended (List.suffix_append _ rest) with hsealed | hrest
  · exact hsealed
  · -- otherwise that character would stand in the whitespace behind the mark
    have hcons : c :: rest <:+ u ++ [c] ++ rest := ⟨u, (List.append_assoc u [c] rest).symm⟩
    rcases h.ended hcons with hsealed | hblank
    · rcases List.mem_cons.1 hsealed.mark with heq | hmem
      · exact absurd heq.symm hne
      · exact absurd hmem (not_mem_of_isBlank hrest)
    · have hcblank : Klartext.isBlank c = true := List.all_eq_true.1 hblank c List.mem_cons_self
      rw [hc] at hcblank
      cases hcblank

/-- Whitespace holds no occurrence of a literal that ends otherwise, and no end of one. -/
theorem occurrences_blank {needle blank : Text} (hfirm : Firm needle) (hblank : isBlank blank = true)
    (t : Text) : occurrences needle (t ++ blank) = occurrences needle t := by
  obtain ⟨u, c, rfl, hc, -⟩ := hfirm
  have hne : u ++ [c] ≠ [] := by simp
  obtain ⟨further, hfurther, hbeyond⟩ := exists_occurrences_more hne t blank
  -- a further occurrence would have its last character in the whitespace
  suffices hnone : further = [] by rw [hfurther, hnone, List.append_nil]
  refine List.eq_nil_iff_forall_not_mem.2 fun i hi => ?_
  have hlt := hbeyond i hi
  obtain ⟨n, -, rfl, behind, hbehind⟩ :=
    mem_occurrencesFrom.1 (hfurther ▸ List.mem_append_right _ hi)
  have hdrop : (t ++ blank).drop (n + u.length) = c :: behind := by
    rw [← List.drop_drop, ← hbehind]
    simp
  rw [List.length_append, List.length_singleton] at hlt
  rw [List.drop_append, List.drop_eq_nil_of_le (by omega), List.nil_append] at hdrop
  have hmem : c ∈ blank := List.mem_of_mem_drop (hdrop ▸ List.mem_cons_self)
  have hcblank : Klartext.isBlank c = true := List.all_eq_true.1 hblank c hmem
  rw [hc] at hcblank
  cases hcblank

end Text

/-! ## Unmoved readers -/

/-- The first reading is made of a text and the second one of the text with whitespace behind it, and
    both come to the same: the same value with the whitespace behind the rest, a miss, or a failure. A
    refusal holds what is left of the text, so that failures are not compared. -/
inductive Reading.Echoes {α : Type} (blank : Text) : Reading α → Reading α → Prop
  | found (a : α) (rest : Text) : Echoes blank (.found a rest) (.found a (rest ++ blank))
  | missed : Echoes blank .missed .missed
  | broken (e e' : Failure) : Echoes blank (.broken e) (.broken e')

namespace Reader

open Text (Sealed Ended Firm)

variable {α β : Type} {E F G : Text → Prop} {p q : Reader α} {f : α → Reader β}

/-- Whitespace at the end of a text of which `E` holds changes nothing, and `F` holds of what is left
    of the text. -/
structure Unmoved (E F : Text → Prop) (p : Reader α) : Prop where
  echoes : ∀ {t : Text}, E t → ∀ {blank : Text}, Text.isBlank blank = true →
    (p t).Echoes blank (p (t ++ blank))
  leaves : ∀ {t : Text} {a : α} {rest : Text}, E t → p t = .found a rest → F rest

/-- The three ways in which a reading of the text and one of the text with the whitespace go together. -/
theorem Unmoved.readings (hp : Unmoved E F p) {t blank : Text} (ht : E t)
    (hblank : Text.isBlank blank = true) :
    (∃ a rest, p t = .found a rest ∧ p (t ++ blank) = .found a (rest ++ blank) ∧ F rest) ∨
      (p t = .missed ∧ p (t ++ blank) = .missed) ∨
      ∃ e e', p t = .broken e ∧ p (t ++ blank) = .broken e' := by
  have hleaves := @hp.leaves t
  have hechoes := hp.echoes ht hblank
  generalize p t = first at hechoes hleaves ⊢
  generalize p (t ++ blank) = second at hechoes ⊢
  cases hechoes with
  | found a rest => exact .inl ⟨a, rest, rfl, rfl, hleaves ht rfl⟩
  | missed => exact .inr (.inl ⟨rfl, rfl⟩)
  | broken e e' => exact .inr (.inr ⟨e, e', rfl, rfl⟩)

theorem Unmoved.restrict (h : Unmoved F G p) (hEF : ∀ t, E t → F t) : Unmoved E G p :=
  ⟨fun ht => h.echoes (hEF _ ht), fun ht => h.leaves (hEF _ ht)⟩

theorem StopsAtMark.unmoved (h : StopsAtMark p) : Unmoved Sealed Sealed p := by
  refine ⟨fun {t} ht {blank} _ => ?_, fun {t a rest} ht hp => ?_⟩
  · rw [h.longer ht.mark blank]
    cases p t with
    | found a rest => exact .found a rest
    | missed => exact .missed
    | broken e => exact .broken e e
  · exact (ht.ended (h.suffix hp)).sealed (h.mark ht.mark hp)

/-! ## Combinators -/

theorem unmoved_pure (a : α) : Unmoved E E (pure a : Reader α) := by
  refine ⟨fun {t} _ {blank} _ => .found a t, fun ht hp => ?_⟩
  cases hp
  exact ht

theorem unmoved_miss : Unmoved E F (miss : Reader α) := ⟨fun _ _ _ => .missed, nofun⟩

theorem unmoved_breakOff (e : Failure) : Unmoved E F (breakOff e : Reader α) :=
  ⟨fun _ _ _ => .broken e e, nofun⟩

theorem Unmoved.bind (hp : Unmoved E F p) (hf : ∀ a, Unmoved F G (f a)) :
    Unmoved E G (p >>= f) := by
  refine ⟨fun {t} ht {blank} hblank => ?_, fun {t b rest} ht h => ?_⟩
  · rcases hp.readings ht hblank with ⟨a, rest, hfirst, hsecond, hrest⟩ | ⟨hfirst, hsecond⟩ |
        ⟨e, e', hfirst, hsecond⟩ <;>
      rw [bind_apply, bind_apply, hfirst, hsecond]
    · exact (hf a).echoes hrest hblank
    · exact .missed
    · exact .broken e e'
  · obtain ⟨a, u, hpt, hread⟩ := bind_eq_found.1 h
    exact (hf a).leaves (hp.leaves ht hpt) hread

theorem Unmoved.map {g : α → β} (hp : Unmoved E F p) : Unmoved E F (p >>= fun a => pure (g a)) :=
  hp.bind fun _ => unmoved_pure _

theorem StopsAtMark.then (hp : StopsAtMark p) (hf : ∀ a, Unmoved Sealed F (f a)) :
    Unmoved Sealed F (p >>= f) :=
  hp.unmoved.bind hf

theorem Unmoved.orElse (hp : Unmoved E F p) (hq : Unmoved E F q) : Unmoved E F (p <|> q) := by
  refine ⟨fun {t} ht {blank} hblank => ?_, fun {t a rest} ht h => ?_⟩
  · rcases hp.readings ht hblank with ⟨a, rest, hfirst, hsecond, -⟩ | ⟨hfirst, hsecond⟩ |
        ⟨e, e', hfirst, hsecond⟩ <;>
      rw [orElse_apply, orElse_apply, hfirst, hsecond]
    · exact .found a rest
    · exact hq.echoes ht hblank
    · exact .broken e e'
  · rcases orElse_eq_found.1 h with hpt | ⟨-, hqt⟩
    · exact hp.leaves ht hpt
    · exact hq.leaves ht hqt

theorem unmoved_firstOf {readers : List (Reader α)} (h : ∀ r ∈ readers, Unmoved E F r) :
    Unmoved E F (firstOf readers) := by
  induction readers with
  | nil => exact unmoved_miss
  | cons r others ih =>
      obtain ⟨hr, hothers⟩ := List.forall_mem_cons.1 h
      exact hr.orElse (ih hothers)

theorem Unmoved.optional (hp : Unmoved E E p) : Unmoved E E (optional p) :=
  hp.map.orElse (unmoved_pure none)

theorem Unmoved.orRefuse (hp : Unmoved E F p) (refusal : Text → Refusal) :
    Unmoved E F (p.orRefuse refusal) := by
  refine ⟨fun {t} ht {blank} hblank => ?_, fun {t a rest} ht h => ?_⟩
  · rcases hp.readings ht hblank with ⟨a, rest, hfirst, hsecond, -⟩ | ⟨hfirst, hsecond⟩ |
        ⟨e, e', hfirst, hsecond⟩ <;>
      simp only [Reader.orRefuse, hfirst, hsecond]
    · exact .found a rest
    · exact .broken _ _
    · exact .broken e e'
  · rw [Reader.orRefuse] at h
    split at h
    · cases h
    · exact hp.leaves ht h

/-! ## Loops -/

theorem Unmoved.upTo (hp : Unmoved E E p) (bound : Nat) : Unmoved E E (upTo p bound) := by
  induction bound with
  | zero => exact unmoved_pure []
  | succ bound ih =>
      have hmore (a : α) : Unmoved E E (do return a :: (← Reader.upTo p bound)) := ih.map
      refine ⟨fun {t} ht {blank} hblank => ?_, fun {t as rest} ht h => ?_⟩
      · rcases hp.readings ht hblank with ⟨a, rest, hfirst, hsecond, hrest⟩ | ⟨hfirst, hsecond⟩ |
            ⟨e, e', hfirst, hsecond⟩ <;>
          rw [upTo_succ, upTo_succ, hfirst, hsecond]
        · -- a value takes as much of the one text as of the other
          have hlength : (rest ++ blank).length < (t ++ blank).length ↔ rest.length < t.length := by
            simp
          simp only [hlength]
          split
          · exact (hmore a).echoes hrest hblank
          · exact .found [] t
        · exact .found [] t
        · exact .broken e e'
      · rcases upTo_succ_eq_found.1 h with ⟨a, u, hpt, -, hothers⟩ | ⟨rfl, rfl, -⟩
        · exact (hmore a).leaves (hp.leaves ht hpt) hothers
        · exact ht

theorem Unmoved.many (hp : Unmoved E E p) : Unmoved E E (many p) := by
  refine ⟨fun {t} ht {blank} hblank => ?_, fun ht h => (hp.upTo _).leaves ht h⟩
  have hle : t.length + 1 ≤ (t ++ blank).length + 1 := by
    rw [List.length_append]
    omega
  rw [Reader.many, upTo_of_le (Nat.lt_succ_self t.length) hle]
  exact (hp.upTo _).echoes ht hblank

/-- Whitespace in front is skipped, so that also where nothing else is left, more of it changes
    nothing. -/
theorem Unmoved.behind_blanks {q : Reader α} (hq : Unmoved Sealed F q)
    (hnil : ∀ a rest, q [] ≠ .found a rest) : Unmoved Ended F (do let _ ← blanks; q) := by
  have hsealed : Unmoved Sealed F (do let _ ← blanks; q) := stopsAtMark_blanks.then fun _ => hq
  have hskip {u : Text} (hu : Text.isBlank u = true) : (do let _ ← blanks; q) u = q [] := by
    have hdrop : u.dropWhile isBlank = [] := by
      rw [← List.append_nil u, List.dropWhile_append_of_pos (List.all_eq_true.1 hu)]
      rfl
    rw [bind_apply, blanks, hdrop]
  refine ⟨fun {t} ht {blank} hblank => ?_, fun {t a rest} ht h => ?_⟩
  · rcases ht with ht | ht
    · exact hsealed.echoes ht hblank
    · rw [hskip ht, hskip (Text.isBlank_append.2 ⟨ht, hblank⟩)]
      cases hread : q [] with
      | found a rest => exact absurd hread (hnil a rest)
      | missed => exact .missed
      | broken e => exact .broken e e
  · rcases ht with ht | ht
    · exact hsealed.leaves ht h
    · rw [hskip ht] at h
      exact absurd h (hnil a rest)

section Blocks

variable (hprogress : ∀ {t : Text} {a : α} {rest : Text}, p t = .found a rest →
  rest.length < t.length)
include hprogress

/-- From the length of the text on, a larger bound changes nothing. -/
theorem go_eq_of_le {closing : String} {n m : Nat} {t : Text} (hlength : t.length < n)
    (hnm : n ≤ m) : manyUntil.go p closing n t = manyUntil.go p closing m t := by
  -- each value takes something, so that the bound stays above the length of what is left
  induction n generalizing m t with
  | zero => exact absurd hlength (Nat.not_lt_zero _)
  | succ n ih =>
      obtain ⟨m, rfl⟩ : ∃ k, m = k + 1 := ⟨m - 1, by omega⟩
      rw [manyUntil.go, manyUntil.go, bind_apply, bind_apply]
      simp only [blanks, orElse_apply]
      have hsame : (do return (← p) :: (← manyUntil.go p closing n)) (t.dropWhile isBlank) =
          (do return (← p) :: (← manyUntil.go p closing m)) (t.dropWhile isBlank) := by
        rw [bind_apply, bind_apply]
        cases hread : p (t.dropWhile isBlank) with
        | found a u =>
            have hlt := hprogress hread
            have hle := (List.dropWhile_suffix isBlank (l := t)).length_le
            simp only [bind_apply, ih (m := m) (t := u) (by omega) (by omega)]
        | missed => rfl
        | broken e => rfl
      rw [hsame]

theorem Unmoved.manyUntil {closing : String} (hp : Unmoved Ended Ended p)
    (hclosing : '!' ∉ (Text.words closing.toList).flatten) (hnil : phrase closing [] = .missed) :
    Unmoved Ended Sealed (manyUntil p closing) := by
  have hgo (bound : Nat) : Unmoved Ended Sealed (manyUntil.go p closing bound) := by
    induction bound with
    | zero => exact unmoved_miss
    | succ bound ih =>
        have hdone : Unmoved Sealed Sealed (do phrase closing; return ([] : List α)) :=
          (stopsAtMark_phrase hclosing).unmoved.map
        have hmore : Unmoved Ended Sealed (do return (← p) :: (← manyUntil.go p closing bound)) :=
          hp.bind fun _ => ih.map
        refine Unmoved.behind_blanks (hdone.orElse (hmore.restrict fun _ => .inl)) fun as rest h => ?_
        -- at the end of the text there is neither the closing phrase nor a value
        rw [orElse_apply, bind_missed hnil] at h
        obtain ⟨a, u, hread, -⟩ := bind_eq_found.1 h
        exact absurd (hprogress hread) (Nat.not_lt_zero _)
  refine ⟨fun {t} ht {blank} hblank => ?_, fun ht h => (hgo _).leaves ht h⟩
  have hle : t.length + 1 ≤ (t ++ blank).length + 1 := by
    rw [List.length_append]
    omega
  rw [Reader.manyUntil, go_eq_of_le hprogress (Nat.lt_succ_self t.length) hle]
  exact (hgo _).echoes ht hblank

end Blocks

/-! ## Quoted text -/

theorem closing_of_quoted {raw content : Text} (h : Quoted raw content) (rest : Text) :
    closing ['\"'] 0 (raw ++ '\"' :: rest) = some (raw, rest) := by
  induction h with
  | nil => exact closing_mark rest
  | plain hmark hbackslash _ ih => rw [List.cons_append, closing_plain hmark hbackslash, ih]; rfl
  | escaped c _ ih => rw [List.cons_append, List.cons_append, closing_escaped, ih]; rfl

/-- Text that is not closed is not closed by whitespace. -/
theorem closing_blank {t blank : Text} (hblank : Text.isBlank blank = true)
    (h : closing ['\"'] 0 t = none) : closing ['\"'] 0 (t ++ blank) = none := by
  have hno : '\"' ∉ blank := fun hmem =>
    absurd (List.all_eq_true.1 hblank '\"' hmem) (by decide)
  cases hmore : closing ['\"'] 0 (t ++ blank) with
  | none => rfl
  | some parts =>
      obtain ⟨raw, rest⟩ := parts
      obtain ⟨ht, hquoted⟩ := quoted_of_closing hmore
      rcases List.append_eq_append_iff.1 ht with ⟨l, -, rfl⟩ | ⟨_ | ⟨c, l⟩, rfl, hl⟩
      · exact absurd (List.mem_append_right l List.mem_cons_self) hno
      · rw [List.nil_append] at hl
        exact absurd (hl ▸ List.mem_cons_self) hno
      · rw [List.cons_append, List.cons.injEq] at hl
        rw [← hl.1, closing_of_quoted hquoted] at h
        cases h

theorem unmoved_between : Unmoved Sealed Sealed (between ['\"']) := by
  refine ⟨fun {t} ht {blank} hblank => ?_, fun {t content rest} ht h => ?_⟩
  · simp only [between, Text.isPrefixOf_more (s := ['\"']) (by decide) ht.mark blank]
    split
    · rename_i hprefix
      rw [drop_more hprefix]
      cases hclosing : closing ['\"'] 0 (t.drop ['\"'].length) with
      | none =>
          rw [closing_blank hblank hclosing]
          exact .missed
      | some parts =>
          obtain ⟨raw, rest⟩ := parts
          rw [closing_more hclosing blank]
          exact .found _ _
    · exact .missed
  · obtain ⟨used, rfl, raw, rfl, -⟩ := reads_between.found h
    exact ht.behind_firm ⟨'\"' :: raw, '\"', rfl, by decide, by decide⟩

end Reader

/-! ## Lists -/

namespace Enumeration

theorem firstSome_congr {β γ : Type} {f g : β → Search (Option γ)} {bs : List β}
    (hfg : ∀ b ∈ bs, f b = g b) (before : Progress) :
    firstSome f bs before = firstSome g bs before := by
  induction bs generalizing before with
  | nil => rfl
  | cons b bs ih =>
      rw [Search.firstSome_cons, Search.firstSome_cons, hfg b List.mem_cons_self]
      simp only [ih fun b' hb' => hfg b' (List.mem_cons_of_mem b hb')]

end Enumeration

namespace Reader

open Enumeration
open Text (Sealed Firm)

variable {α : Type}

/-- The terminators that are tried are those of the text without the whitespace. -/
theorem unmoved_listUntil {D : α → Text → Prop} {item : Reader α} {terminator : Text}
    (hfirm : Firm terminator) (h : Reads D item) (room : Nat) :
    Unmoved Sealed Sealed (listUntil terminator item room) := by
  have hne : terminator ≠ [] := by
    obtain ⟨u, c, rfl, -⟩ := hfirm
    simp
  refine ⟨fun {t} ht {blank} hblank => ?_, fun {t as rest} ht hread => ?_⟩
  · have hsearch : firstSome (listAt item room (t ++ blank))
          (Text.occurrences terminator (t ++ blank)) .none =
        firstSome (listAt item room t)
          (Text.occurrences terminator t) .none := by
      rw [Text.occurrences_blank hfirm hblank]
      exact firstSome_congr (fun i hi => listAt_more hne hi blank) .none
    rw [listUntil_eq, listUntil_eq, hsearch]
    split
    · rename_i found index progress hfound
      obtain ⟨i, hi, _, _, hlist⟩ := Search.exists_of_firstSome hfound
      obtain rfl := index_of_listAt hlist
      rw [List.drop_append_of_le_length (Text.add_length_le_of_mem_occurrences hne hi)]
      exact .found _ _
    · exact .broken _ _
    · exact .missed
    · exact .broken _ _
  · obtain ⟨used, rfl, list, rfl, -⟩ := (reads_listUntil h terminator room).found hread
    obtain ⟨u, c, rfl, hc⟩ := hfirm
    exact ht.behind_firm ⟨list ++ u, c, (List.append_assoc ..).symm, hc⟩

end Reader

end Klartext
