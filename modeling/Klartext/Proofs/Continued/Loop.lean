import Klartext.Proofs.Continued.Steady
import Klartext.Proofs.Enumeration.Trial
import Klartext.Proofs.Rules.Enumeration
import Mathlib.Logic.Relation

set_option autoImplicit false

/-! # Loops and lists on texts that go on

The loops of the grammar bound their steps by the length of the text, and the search for a list tries
every occurrence of the terminator. More text means a larger bound and further occurrences; neither
changes what was found. A list that was missed may come to be too long to be read. -/

namespace Klartext

open Reader Rules

namespace Reader

variable {α : Type} {K L : List (List Text)} {H : Hazards} {p : Reader α} {t : Text}

/-! ## Values one after the other -/

/-- A value stands between two places in a text. -/
def Takes (p : Reader α) (t u : Text) : Prop := ∃ a, p t = .found a u

/-- Values stand one behind the other between two places in a text, or none. -/
def Reaches (p : Reader α) : Text → Text → Prop := Relation.ReflTransGen (Takes p)

theorem Reaches.head {a : α} {u v : Text} (hp : p t = .found a u) (h : Reaches p u v) :
    Reaches p t v :=
  Relation.ReflTransGen.head ⟨a, hp⟩ h

/-- From the length of the text on, a larger bound changes nothing. -/
theorem upTo_of_le {n m : Nat} {t : Text} (hlength : t.length < n) (hnm : n ≤ m) :
    upTo p n t = upTo p m t := by
  induction n generalizing m t with
  | zero => exact absurd hlength (Nat.not_lt_zero _)
  | succ n ih =>
      obtain ⟨m, rfl⟩ : ∃ k, m = k + 1 := ⟨m - 1, by omega⟩
      rw [upTo_succ, upTo_succ]
      cases p t with
      | found a rest =>
          simp only
          split
          · rename_i hprogress
            have hsame : upTo p n rest = upTo p m rest := ih (by omega) (by omega)
            rw [bind_apply, bind_apply, hsame]
          · rfl
      | missed => rfl
      | broken e => rfl

theorem many_of_found {t u : Text} {a : α} (h : p t = .found a u) (hprogress : u.length < t.length) :
    many p t = (do return a :: (← many p)) u := by
  have hbound : upTo p t.length u = upTo p (u.length + 1) u :=
    (upTo_of_le (Nat.lt_succ_self _) hprogress).symm
  rw [many, upTo_succ, h]
  simp only [if_pos hprogress]
  rw [bind_apply, bind_apply, many, hbound]

theorem many_of_missed {t : Text} (h : p t = .missed) : many p t = .found [] t := by
  rw [many, upTo_succ, h]

theorem many_of_broken {t : Text} {e : Failure} (h : p t = .broken e) : many p t = .broken e := by
  rw [many, upTo_succ, h]

/-- The first of several values is found, and the others behind it. -/
theorem exists_of_many_cons {t rest : Text} {a : α} {as : List α}
    (h : many p t = .found (a :: as) rest) :
    ∃ u, p t = .found a u ∧ u.length < t.length ∧ many p u = .found as rest := by
  obtain ⟨b, u, hpt, hprogress, -⟩ :=
    (upTo_succ_eq_found.1 h).resolve_right fun hnone => List.cons_ne_nil a as hnone.1
  rw [many_of_found hpt hprogress] at h
  obtain ⟨as', v, hothers, hpure⟩ := bind_eq_found.1 h
  cases hpure
  exact ⟨u, hpt, hprogress, hothers⟩

/-- Where no value is found, nothing is taken; the reader misses, or it would take nothing. -/
theorem many_eq_nil {t rest : Text} (h : many p t = .found [] rest) :
    rest = t ∧ (p t = .missed ∨ ∃ a u, p t = .found a u ∧ t.length ≤ u.length) := by
  rcases upTo_succ_eq_found.1 h with ⟨a, u, -, -, hothers⟩ | ⟨-, hrest, hnone⟩
  · obtain ⟨as, v, -, hpure⟩ := bind_eq_found.1 hothers
    cases hpure
  · exact ⟨hrest, hnone⟩

/-- The values of a loop stand one behind the other up to what it leaves. -/
theorem reaches_of_many {as : List α} {rest : Text} (h : many p t = .found as rest) :
    Reaches p t rest := by
  induction as generalizing t with
  | nil =>
      obtain ⟨rfl, -⟩ := many_eq_nil h
      exact .refl
  | cons a as ih =>
      obtain ⟨u, hpt, -, hothers⟩ := exists_of_many_cons h
      exact .head hpt (ih hothers)

/-- Each of the values is read on, and behind the last one stands nothing that could be one more. -/
theorem steadyAt_upTo (hp : ∀ u, Reaches p t u → SteadyAt H Marked p u) (hlead : Leads L p)
    (h : clashAll L K = true) (bound : Nat) : SteadyAt H (Follows K) (upTo p bound) t := by
  induction bound generalizing t with
  | zero => exact (steady_pure []).at t
  | succ bound ih =>
      have hmore {a : α} {u : Text} (hpt : p t = .found a u) :
          SteadyAt H (Follows K) (do return a :: (← upTo p bound)) u :=
        (ih fun v hv => hp v (.head hpt hv)).map
      have hfirst := hp t .refl
      refine ⟨fun hread => ?_, fun hread hrest more => ?_⟩
      · rcases upTo_succ_eq_found.1 hread with ⟨a, u, hpt, -, hothers⟩ | ⟨rfl, rfl, -⟩
        · exact ((hmore hpt).suffix hothers).trans (hfirst.suffix hpt)
        · exact List.suffix_refl _
      · rcases upTo_succ_eq_found.1 hread with ⟨a, u, hpt, hprogress, hothers⟩ | ⟨rfl, rfl, -⟩
        · have hprogress' : (u ++ more).length < (t ++ more).length := by
            rw [List.length_append, List.length_append]
            omega
          -- the mark that stands behind the values stands behind the first of them
          have hmark : Marked u := hrest.mark.mono ((hmore hpt).suffix hothers)
          rcases hfirst.readsOn hpt hmark more with hfound | hmet
          · rw [upTo_succ, hfound]
            simp only [if_pos hprogress']
            exact (hmore hpt).readsOn hothers hrest more
          · exact .inr (hmet.imp fun hdeep => by rw [upTo_succ, hdeep])
        · exact .inl (upTo_of_missed (hlead.missed h hrest.begins more) _)

theorem steadyAt_many (hp : ∀ u, Reaches p t u → SteadyAt H Marked p u) (hlead : Leads L p)
    (h : clashAll L K = true) : SteadyAt H (Follows K) (many p) t := by
  have hsteady := steadyAt_upTo hp hlead h
  refine ⟨fun hread => (hsteady _).suffix hread, fun hread hrest more => ?_⟩
  have hle : t.length + 1 ≤ (t ++ more).length + 1 := by
    rw [List.length_append]
    omega
  rw [many, upTo_of_le (Nat.lt_succ_self t.length) hle] at hread
  exact (hsteady _).readsOn hread hrest more

/-! ## Values up to a closing phrase -/

/-- What is found with a bound is found with every larger one. -/
theorem go_of_le {closing : String} {n m : Nat} {t : Text} {as : List α} {rest : Text}
    (hnm : n ≤ m) (h : manyUntil.go p closing n t = .found as rest) :
    manyUntil.go p closing m t = .found as rest := by
  induction n generalizing m t as with
  | zero => cases h
  | succ n ih =>
      obtain ⟨m, rfl⟩ : ∃ k, m = k + 1 := ⟨m - 1, by omega⟩
      rw [manyUntil.go] at h ⊢
      obtain ⟨blank, u, hblanks, h⟩ := bind_eq_found.1 h
      rw [bind_found hblanks]
      rw [orElse_apply] at h ⊢
      split at h
      · -- the closing phrase is missed with either bound, and the values behind this one have one less
        obtain ⟨a, v, hpu, hbehind⟩ := bind_eq_found.1 h
        obtain ⟨as', w, hgo, hpure⟩ := bind_eq_found.1 hbehind
        cases hpure
        refine (bind_found hpu).trans ?_
        rw [bind_found (ih (by omega) hgo)]
        rfl
      · exact h

/-- What is read on before whitespace is read on behind it, if the whitespace makes no difference. -/
theorem SteadyAt.behind_blanks (h : SteadyAt H Marked p t)
    (hsuffix : ∀ {t a rest}, p t = .found a rest → rest <:+ t)
    (hblank : ∀ t, p (t.dropWhile isBlank) = p t) :
    SteadyAt H Marked p (t.dropWhile isBlank) := by
  refine ⟨hsuffix, fun hread hrest more => ?_⟩
  rw [hblank] at hread
  obtain ⟨-, hdrop⟩ := Text.span_more (p := isBlank) (by decide)
    (hrest.mono (h.suffix hread)) more
  rw [← hdrop, hblank]
  exact h.readsOn hread hrest more

/-- Each of the values is read on, and the closing phrase is missed again where it was missed. -/
theorem steadyAt_manyUntil {closing : String} (hp : ∀ u, Reaches p t u → SteadyAt H Marked p u)
    (hsuffix : ∀ {t a rest}, p t = .found a rest → rest <:+ t)
    (hblank : ∀ t, p (t.dropWhile isBlank) = p t)
    (hclosing : '!' ∉ (Text.words closing.toList).flatten) :
    SteadyAt H Marked (manyUntil p closing) t := by
  have hdone : StopsAtMark (do phrase closing; return ([] : List α)) :=
    (stopsAtMark_phrase hclosing).bind fun _ => stopsAtMark_pure []
  have hgo (bound : Nat) : SteadyAt H Marked (manyUntil.go p closing bound) t := by
    induction bound generalizing t with
    | zero => exact stopsAtMark_miss.steady.at t
    | succ bound ih =>
        refine (stopsAtMark_blanks.steady.at t).andThen fun {_ u} hblanks => ?_
        obtain rfl : t.dropWhile isBlank = u := by
          cases hblanks
          rfl
        have hmore : SteadyAt H Marked (do return (← p) :: (← manyUntil.go p closing bound))
            (t.dropWhile isBlank) :=
          ((hp t .refl).behind_blanks hsuffix hblank).andThen fun {a v} hread =>
            (ih fun w hw => hp w (.head ((hblank t).symm.trans hread) hw)).map
        refine (hdone.steady.at _).orElse hmore fun hmissed hread hrest more => .inl ?_
        exact hdone.settled.missed (hrest.mono (hmore.suffix hread)) hmissed more
  refine ⟨fun hread => (hgo _).suffix hread, fun hread hrest more => ?_⟩
  have hle : t.length + 1 ≤ (t ++ more).length + 1 := by
    rw [List.length_append]
    omega
  exact (hgo _).readsOn (go_of_le hle hread) hrest more

end Reader

/-! ## Lists -/

namespace Enumeration

variable {before after : Progress}

/-- The list that is found at an occurrence of the terminator ends there. -/
theorem index_of_listAt {α : Type} {item : Reader α} {room : Nat} {t : Text} {i j : Nat}
    {found : List α} (h : listAt item room t i before = .ok (some (found, j), after)) : j = i := by
  rw [listAt] at h
  cases hitems : itemsOf item room (t.take i) before with
  | error e =>
      rw [Search.bind_error hitems] at h
      cases h
  | ok items =>
      obtain ⟨_ | found', s⟩ := items
      · rw [Search.bind_ok hitems] at h
        cases h
      · rw [Search.bind_ok hitems] at h
        cases h
        rfl

end Enumeration

namespace Reader

open Enumeration

variable {α : Type} {F : Text → Prop} {D : α → Text → Prop} {item : Reader α} {terminator : Text}

theorem listAt_more {room : Nat} {t : Text} {i : Nat} (hne : terminator ≠ [])
    (hi : i ∈ Text.occurrences terminator t) (more : Text) :
    listAt item room (t ++ more) i = listAt item room t i := by
  have hle := Text.add_length_le_of_mem_occurrences hne hi
  rw [listAt, listAt, List.take_append_of_le_length (by omega)]

/-- Where the list ended it ends again, also if there are further occurrences of the terminator. -/
theorem steady_listUntil (hne : terminator ≠ []) (h : Reads D item) (room : Nat) :
    Steady F (listUntil terminator item room) := by
  refine ⟨(reads_listUntil h terminator room).suffix, fun {t as rest} hread _ more => ?_⟩
  obtain ⟨further, hfurther, -⟩ := Text.exists_occurrences_more hne t more
  rw [listUntil_eq] at hread ⊢
  split at hread
  · rename_i found index progress hsearch
    cases hread
    obtain ⟨i, hi, _, _, hlist⟩ := Search.exists_of_firstSome hsearch
    obtain rfl := index_of_listAt hlist
    have hle := Text.add_length_le_of_mem_occurrences hne hi
    rw [hfurther, Search.firstSome_append (fun i hi => listAt_more hne hi more) hsearch]
    simp only
    rw [List.drop_append_of_le_length hle]
  · cases hread
  · cases hread
  · cases hread

end Reader

namespace Rules

theorem not_mem_padded {t p : Text} (h : Padded t p) (ht : '!' ∉ t) : '!' ∉ p := by
  obtain ⟨l, r, rfl, hl, hr⟩ := h
  simp [Text.not_mem_of_isBlank hl, ht, Text.not_mem_of_isBlank hr]

theorem Row.not_mem {ts : List Text} {p : Text} (h : Row ts p) (hts : ∀ t ∈ ts, '!' ∉ t) :
    '!' ∉ p := by
  induction h with
  | one h => exact not_mem_padded h (hts _ (List.mem_singleton_self _))
  | cons h hs _ ih =>
      obtain ⟨ht, hts⟩ := List.forall_mem_cons.1 hts
      obtain ⟨g, rfl, hg⟩ := hs
      simp [not_mem_padded h ht, Text.not_mem_of_isBlank hg.blank, ih hts]

/-- There is no exclamation mark between the items of a list. -/
theorem Listing.not_mem {ts : List Text} {p : Text} (h : Listing ts p) (hts : ∀ t ∈ ts, '!' ∉ t) :
    '!' ∉ p := by
  cases h with
  | one h => exact not_mem_padded h (hts _ (List.mem_singleton_self _))
  | joined hrow hj h =>
      obtain ⟨hrows, hlast⟩ := List.forall_mem_append.1 hts
      obtain ⟨g, g', rfl, hg, hg'⟩ := hj
      simp [hrow.not_mem hrows, Text.not_mem_of_isBlank hg.blank, Text.not_mem_of_isBlank hg'.blank,
        not_mem_padded h (hlast _ (List.mem_singleton_self _))]

end Rules

namespace Reader

open Enumeration

variable {α : Type} {D : α → Text → Prop} {item : Reader α} {terminator : Text}

section NeverBreaks

variable {item : Reader α} (hitem : NeverBreaks item)
include hitem

theorem NeverBreaks.complete : NeverBreaks item.complete := by
  intro t e h
  rw [Reader.complete] at h
  split at h
  · split at h <;> cases h
  · cases h
  · rename_i hbroken
    exact hitem _ _ hbroken

theorem eq_none_of_reading {content : Text} {piece : Span} {r : Option Refusal}
    (h : reading item content piece = .error r) : r = none := by
  rw [reading] at h
  split at h
  · cases h
  · rename_i hbroken
    exact absurd hbroken (hitem.complete _ _)
  · cases h
    rfl

theorem eq_none_of_trial {content : Text} {pieces : List Span} {r : Option Refusal}
    (h : trial item content pieces = .error r) : r = none := by
  induction pieces with
  | nil => cases h
  | cons piece pieces ih =>
      cases hpiece : reading item content piece with
      | error r' =>
          rw [trial_cons_error hpiece] at h
          cases h
          exact eq_none_of_reading hitem hpiece
      | ok a =>
          rw [trial_cons_ok hpiece] at h
          cases hothers : trial item content pieces with
          | ok as => rw [hothers] at h; cases h
          | error r' => rw [hothers] at h; cases h; exact ih hothers

/-- Nothing breaks off a list of items that break off nothing, but too many separators before a
    terminator. -/
theorem long_of_listUntil {room : Nat} {t : Text} {e : Failure}
    (h : listUntil terminator item room t = .broken e) :
    e = .tooDeep ∧ ∃ i ∈ Text.occurrences terminator t, room < (separators (t.take i)).length := by
  have hnone : (outcome ((Text.occurrences terminator t).flatMap (listTrials item t))).2 = none := by
    refine outcome_snd_eq_none fun r hr => ?_
    obtain ⟨i, -, hr⟩ := List.mem_flatMap.1 hr
    obtain ⟨found, hfound, hr⟩ := List.mem_map.1 hr
    obtain ⟨row, -, rfl⟩ := List.mem_map.1 hfound
    cases hrow : trial item (t.take i) row with
    | ok as => rw [hrow] at hr; cases hr
    | error r' => rw [hrow] at hr; cases hr; exact eq_none_of_trial hitem hrow
  rcases listUntil_of_trials room (onlyRefuses_of_neverBreaks hitem) terminator t with
    htrials | ⟨hdeep, hlong⟩
  · rw [htrials] at h
    split at h
    · cases h
    · rename_i hsome
      rw [hsome] at hnone
      cases hnone
    · cases h
  · rw [hdeep] at h
    cases h
    exact ⟨rfl, hlong⟩

end NeverBreaks

/-- A list of items without exclamation marks ends before the first one. Where it was missed it is
    missed again, unless it is too long now. -/
theorem listUntil_more_of_missed (hne : terminator ≠ []) (hterminator : '!' ∉ terminator)
    (h : Reads D item) (hD : ∀ {a u}, D a u → '!' ∉ u) (hitem : NeverBreaks item) {room : Nat}
    {t : Text} (hmark : Marked t) (hmissed : listUntil terminator item room t = .missed)
    (more : Text) :
    listUntil terminator item room (t ++ more) = .missed ∨
      (listUntil terminator item room (t ++ more) = .broken .tooDeep ∧
        ∃ i ∈ Text.occurrences terminator (t ++ more),
          room < (separators ((t ++ more).take i)).length) := by
  cases hmore : listUntil terminator item room (t ++ more) with
  | missed => exact .inl rfl
  | broken e =>
      obtain ⟨rfl, hlong⟩ := long_of_listUntil hitem hmore
      exact .inr ⟨rfl, hlong⟩
  | found as rest' =>
      exfalso
      obtain ⟨used, ht, list, rfl, items, rfl, hlist, hitems⟩ :=
        (reads_listUntil h terminator room).found hmore
      have hused : '!' ∉ list ++ terminator := by
        rw [List.mem_append, not_or]
        refine ⟨hlist.not_mem fun u hu => ?_, hterminator⟩
        obtain ⟨item, hitem, rfl⟩ := List.mem_map.1 hu
        exact hD (hitems item hitem)
      obtain ⟨rest, hrest, rfl⟩ := Text.eq_append_of_not_mem ht hmark hused
      obtain ⟨further, hfurther, hbeyond⟩ := Text.exists_occurrences_more hne t more
      rw [listUntil_eq] at hmissed hmore
      split at hmore
      · rename_i found index progress hsearch
        injection hmore with hfound hdrop
        rw [hfurther] at hsearch
        rcases Search.firstSome_of_append (fun i hi => listAt_more hne hi more) hsearch with
          hbefore | ⟨i, hi, _, _, hfar⟩
        · rw [hbefore] at hmissed
          cases hmissed
        · -- what is left of the longer text would be shorter than what stands behind the beginning
          obtain rfl := index_of_listAt hfar
          have hlt := hbeyond index hi
          have hle := Text.add_length_le_of_mem_occurrences hne
            (hfurther ▸ List.mem_append_right _ hi)
          rw [List.length_append] at hle
          have hlength := congrArg List.length hdrop
          rw [List.length_drop, List.length_append, List.length_append] at hlength
          omega
      · cases hmore
      · cases hmore
      · cases hmore

end Reader

end Klartext
