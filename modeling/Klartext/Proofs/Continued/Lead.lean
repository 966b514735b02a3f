import Klartext.Proofs.Continued.Text

set_option autoImplicit false

/-! # Words that a text begins with

What a reader finds begins with words of its own. Most readers look at their words first, and miss a
text that begins otherwise. Of two readers whose words clash, one misses where the other one finds
something, also when more is to come behind the text. -/

namespace Klartext

open Reader Rules

/-! ## Clashes -/

/-- Behind whitespace or none, the text begins with the words, in any spacing. -/
def Begins (ws : List Text) (t : Text) : Prop :=
  ∃ blank u v, t = blank ++ (u ++ v) ∧ Text.isBlank blank = true ∧ Spelled ws u

/-- The first character is no whitespace, so that whitespace before the text ends with it. -/
def startsPlain (w : Text) : Bool := w.head?.any fun c => !isBlank c

/-- No text begins with both: where they part, neither word begins the other one. -/
def clash : List Text → List Text → Bool
  | w :: ws, v :: vs =>
    startsPlain w && startsPlain v
      && if w = v then clash ws vs else !w.isPrefixOf v && !v.isPrefixOf w
  | _, _ => false

/-- All of the one clash with all of the others. -/
def clashAll (L M : List (List Text)) : Bool := L.all fun ws => M.all fun vs => clash ws vs

theorem Begins.more {ws : List Text} {t : Text} (h : Begins ws t) (more : Text) :
    Begins ws (t ++ more) := by
  obtain ⟨blank, u, v, rfl, hblank, hu⟩ := h
  exact ⟨blank, u, v ++ more, by simp, hblank, hu⟩

theorem Begins.behind {ws : List Text} {t blank : Text} (h : Begins ws t)
    (hblank : Text.isBlank blank = true) : Begins ws (blank ++ t) := by
  obtain ⟨blank', u, v, rfl, hblank', hu⟩ := h
  exact ⟨blank ++ blank', u, v, (List.append_assoc ..).symm,
    Text.isBlank_append.2 ⟨hblank, hblank'⟩, hu⟩

theorem Begins.of_spelled {ws : List Text} {u : Text} (h : Spelled ws u) (v : Text) :
    Begins ws (u ++ v) :=
  ⟨[], u, v, rfl, rfl, h⟩

theorem Rules.Spelled.exists_word {w : Text} {ws : List Text} {u : Text} (h : Spelled (w :: ws) u) :
    ∃ v, u = w ++ v := by
  cases h with
  | word => exact ⟨[], (List.append_nil w).symm⟩
  | cons => exact ⟨_, rfl⟩

/-- Words in front of a gap and words behind it are spelled one after the other. -/
theorem Rules.Spelled.append {ws : List Text} {v u g t : Text} {vs : List Text}
    (hu : Spelled ws u) (hne : ws ≠ []) (hg : IsGap g) (ht : Spelled (v :: vs) t) :
    Spelled (ws ++ v :: vs) (u ++ (g ++ t)) := by
  induction hu with
  | nil => exact absurd rfl hne
  | word w => exact .cons hg ht
  | cons hgap _ ih =>
      rw [List.append_assoc, List.append_assoc]
      exact .cons hgap (ih (List.cons_ne_nil _ _))

theorem Rules.Spelled.not_mem {ws : List Text} {u : Text} (h : Spelled ws u)
    (hws : '!' ∉ ws.flatten) : '!' ∉ u := by
  induction h with
  | nil => exact hws
  | word w => simpa using hws
  | cons hgap _ ih =>
      rw [List.flatten_cons, List.mem_append, not_or] at hws
      simp [hws.1, Text.not_mem_of_isBlank hgap.blank, ih hws.2]

theorem Rules.Spelled.subset {ws : List Text} {u : Text} (h : Spelled ws u) : ws.flatten ⊆ u := by
  induction h with
  | nil => exact List.Subset.refl []
  | word w => simp
  | cons _ _ ih =>
      rw [List.flatten_cons]
      exact List.append_subset.2 ⟨List.subset_append_left _ _, fun c hc =>
        List.mem_append_right _ (List.mem_append_right _ (ih hc))⟩

/-- Words without an exclamation mark stand before the first one. -/
theorem Begins.of_more {ws : List Text} (hws : '!' ∉ ws.flatten) {t more : Text}
    (h : Begins ws (t ++ more)) (hmark : '!' ∈ t) : Begins ws t := by
  obtain ⟨blank, u, v, heq, hblank, hu⟩ := h
  rw [← List.append_assoc] at heq
  have hno : '!' ∉ blank ++ u := by
    rw [List.mem_append, not_or]
    exact ⟨Text.not_mem_of_isBlank hblank, hu.not_mem hws⟩
  obtain ⟨rest, rfl, -⟩ := Text.eq_append_of_not_mem heq hmark hno
  exact ⟨blank, u, rest, List.append_assoc .., hblank, hu⟩

theorem flush_of_startsPlain {w : Text} (h : startsPlain w = true) (t : Text) :
    Text.Flush (w ++ t) := by
  cases w with
  | nil => cases h
  | cons c w => exact Text.flush_cons (by simpa [startsPlain] using h)

/-- Whitespace in front of a text that does not begin with any is all that is in front of it. -/
theorem blank_unique {blank blank' t t' : Text} (hblank : Text.isBlank blank = true)
    (hblank' : Text.isBlank blank' = true) (ht : Text.Flush t) (ht' : Text.Flush t')
    (h : blank ++ t = blank' ++ t') : t = t' := by
  have hdrop {b u : Text} (hb : Text.isBlank b = true) (hu : Text.Flush u) :
      (b ++ u).dropWhile isBlank = u := by
    rw [List.dropWhile_append_of_pos (List.all_eq_true.1 hb), hu.dropWhile_eq]
  rw [← hdrop hblank ht, h, hdrop hblank' ht']

theorem not_spelled_of_clash {ws vs : List Text} (h : clash ws vs = true) {u u' v v' : Text}
    (hu : Spelled ws u) (hu' : Spelled vs u') : u ++ v ≠ u' ++ v' := by
  intro heq
  match ws, vs with
  | [], _ => cases h
  | _ :: _, [] => cases h
  | w :: ws, x :: vs =>
      rw [clash, Bool.and_eq_true] at h
      obtain ⟨-, h⟩ := h
      by_cases hsame : w = x
      · subst hsame
        rw [if_pos rfl] at h
        -- the same word stands in front of both, and then the words behind it clash
        cases hu with
        | word => cases h
        | @cons _ w' g t ws' hgap ht =>
            cases hu' with
            | word => cases h
            | @cons _ x' g' t' vs' hgap' ht' =>
                have hplain := h
                rw [clash, Bool.and_eq_true, Bool.and_eq_true] at hplain
                obtain ⟨r, rfl⟩ := ht.exists_word
                obtain ⟨r', rfl⟩ := ht'.exists_word
                simp only [List.append_assoc, List.append_cancel_left_eq] at heq
                have hrest := blank_unique hgap.blank hgap'.blank
                  (flush_of_startsPlain hplain.1.1 _) (flush_of_startsPlain hplain.1.2 _) heq
                have hrest' : (w' ++ r) ++ v = (x' ++ r') ++ v' := by
                  simpa only [List.append_assoc] using hrest
                exact not_spelled_of_clash h ht ht' hrest'
      · rw [if_neg hsame, Bool.and_eq_true, Bool.not_eq_true', Bool.not_eq_true'] at h
        obtain ⟨r, rfl⟩ := hu.exists_word
        obtain ⟨r', rfl⟩ := hu'.exists_word
        rw [List.append_assoc, List.append_assoc] at heq
        rcases List.prefix_or_prefix_of_prefix (List.prefix_append w (r ++ v))
          (heq ▸ List.prefix_append x (r' ++ v')) with hprefix | hprefix
        · rw [List.isPrefixOf_iff_prefix.2 hprefix] at h
          cases h.1
        · rw [List.isPrefixOf_iff_prefix.2 hprefix] at h
          cases h.2

theorem not_begins_of_clash {ws vs : List Text} (h : clash ws vs = true) {t : Text}
    (hws : Begins ws t) (hvs : Begins vs t) : False := by
  obtain ⟨blank, u, v, rfl, hblank, hu⟩ := hws
  obtain ⟨blank', u', v', heq, hblank', hu'⟩ := hvs
  match ws, vs with
  | [], _ => cases h
  | _ :: _, [] => cases h
  | w :: ws, x :: vs =>
      have hplain := h
      rw [clash, Bool.and_eq_true, Bool.and_eq_true] at hplain
      obtain ⟨r, rfl⟩ := hu.exists_word
      obtain ⟨r', rfl⟩ := hu'.exists_word
      refine not_spelled_of_clash h hu hu' (blank_unique hblank hblank' ?_ ?_ heq)
      · rw [List.append_assoc]
        exact flush_of_startsPlain hplain.1.1 _
      · rw [List.append_assoc]
        exact flush_of_startsPlain hplain.1.2 _

theorem clash_of_clashAll {L M : List (List Text)} (h : clashAll L M = true) {ws vs : List Text}
    (hws : ws ∈ L) (hvs : vs ∈ M) : clash ws vs = true :=
  List.all_eq_true.1 (List.all_eq_true.1 h ws hws) vs hvs

/-! ## What readers begin with -/

namespace Reader

variable {α β : Type} {L M : List (List Text)} {p q : Reader α} {f : α → Reader β} {t : Text}

theorem ne_missed_of_bind (h : (p >>= f) t ≠ .missed) : p t ≠ .missed :=
  fun hmissed => h (bind_missed hmissed)

theorem NeverBreaks.exists_found (hp : NeverBreaks p) (h : p t ≠ .missed) :
    ∃ a rest, p t = .found a rest := by
  cases hpt : p t with
  | found a rest => exact ⟨a, rest, rfl⟩
  | missed => exact absurd hpt h
  | broken e => exact absurd hpt (hp t e)

theorem NeverBreaks.bind_ne_missed (hp : NeverBreaks p) (h : (p >>= f) t ≠ .missed) :
    ∃ a u, p t = .found a u ∧ f a u ≠ .missed := by
  obtain ⟨a, u, hpt⟩ := hp.exists_found (ne_missed_of_bind h)
  exact ⟨a, u, hpt, by rwa [bind_found hpt] at h⟩

/-- What the reader finds begins with one of the lists of words. -/
structure Starts (L : List (List Text)) (p : Reader α) : Prop where
  begins : ∀ {t : Text} {a : α} {rest : Text}, p t = .found a rest → ∃ ws ∈ L, Begins ws t

/-- The reader misses a text that does not begin with one of the lists of words. -/
structure Leads (L : List (List Text)) (p : Reader α) : Prop where
  not_missed : ∀ {t : Text}, p t ≠ .missed → ∃ ws ∈ L, Begins ws t

theorem Leads.starts (h : Leads L p) : Starts L p :=
  ⟨fun hp => h.not_missed (by rw [hp]; exact nofun)⟩

theorem Leads.begins (h : Leads L p) {a : α} {rest : Text} (hp : p t = .found a rest) :
    ∃ ws ∈ L, Begins ws t :=
  h.starts.begins hp

/-- What begins differently is missed, whatever stands behind it. -/
theorem Leads.missed (hp : Leads L p) (h : clashAll L M = true) (ht : ∃ vs ∈ M, Begins vs t)
    (more : Text) : p (t ++ more) = .missed := by
  refine Classical.byContradiction fun hne => ?_
  obtain ⟨ws, hws, hbegins⟩ := hp.not_missed hne
  obtain ⟨vs, hvs, hbegins'⟩ := ht
  exact not_begins_of_clash (clash_of_clashAll h hws hvs) hbegins (hbegins'.more more)

theorem Reads.leads {D : α → Text → Prop} (h : Reads D p) (hp : NeverBreaks p)
    (hD : ∀ {a u}, D a u → ∃ ws ∈ L, Begins ws u) : Leads L p := by
  refine ⟨fun {t} hne => ?_⟩
  obtain ⟨a, rest, hread⟩ := hp.exists_found hne
  obtain ⟨u, rfl, hu⟩ := h.found hread
  obtain ⟨ws, hws, hbegins⟩ := hD hu
  exact ⟨ws, hws, hbegins.more rest⟩

/-! ## Readers one behind the other -/

theorem Starts.mono (h : Starts L p) (hLM : ∀ ws ∈ L, ws ∈ M) : Starts M p := by
  refine ⟨fun hp => ?_⟩
  obtain ⟨ws, hws, hbegins⟩ := h.begins hp
  exact ⟨ws, hLM ws hws, hbegins⟩

theorem Leads.mono (h : Leads L p) (hLM : ∀ ws ∈ L, ws ∈ M) : Leads M p := by
  refine ⟨fun hp => ?_⟩
  obtain ⟨ws, hws, hbegins⟩ := h.not_missed hp
  exact ⟨ws, hLM ws hws, hbegins⟩

theorem Starts.andThen (h : Starts L p) : Starts L (p >>= f) := by
  refine ⟨fun hread => ?_⟩
  obtain ⟨a, u, hp, -⟩ := bind_eq_found.1 hread
  exact h.begins hp

theorem Leads.andThen (h : Leads L p) : Leads L (p >>= f) :=
  ⟨fun hne => h.not_missed (ne_missed_of_bind hne)⟩

/-- Whitespace in front does not count. -/
theorem starts_blanks {f : Text → Reader β} (hf : ∀ a, Starts L (f a)) :
    Starts L (blanks >>= f) := by
  refine ⟨fun h => ?_⟩
  obtain ⟨a, u, hblanks, hread⟩ := bind_eq_found.1 h
  obtain ⟨blank, rfl, hblank⟩ := reads_blanks.found hblanks
  obtain ⟨ws, hws, hbegins⟩ := (hf a).begins hread
  exact ⟨ws, hws, hbegins.behind hblank⟩

theorem starts_blanks1 {f : Text → Reader β} (hf : ∀ a, Starts L (f a)) :
    Starts L (blanks1 >>= f) := by
  refine ⟨fun h => ?_⟩
  obtain ⟨a, u, hblanks, hread⟩ := bind_eq_found.1 h
  obtain ⟨gap, rfl, hgap⟩ := reads_blanks1.found hblanks
  obtain ⟨ws, hws, hbegins⟩ := (hf a).begins hread
  exact ⟨ws, hws, hbegins.behind hgap.blank⟩

theorem leads_blanks1 {f : Text → Reader β} (hf : ∀ a, Leads L (f a)) :
    Leads L (blanks1 >>= f) := by
  refine ⟨fun h => ?_⟩
  obtain ⟨a, u, hblanks, hread⟩ := neverBreaks_blanks1.bind_ne_missed h
  obtain ⟨gap, rfl, hgap⟩ := reads_blanks1.found hblanks
  obtain ⟨ws, hws, hbegins⟩ := (hf a).not_missed hread
  exact ⟨ws, hws, hbegins.behind hgap.blank⟩

theorem leads_literal (s : Text) : Leads [[s]] (literal s) := by
  refine (reads_literal s).leads (neverBreaks_literal s) fun {_ u} hu =>
    ⟨[s], List.mem_singleton_self _, ?_⟩
  rw [hu]
  simpa only [List.append_nil] using Begins.of_spelled (.word s) []

theorem leads_phrase (s : String) : Leads [Text.words s.toList] (phrase s) := by
  refine (reads_phrase s).leads (neverBreaks_phrase s) fun {_ u} hu =>
    ⟨_, List.mem_singleton_self _, ?_⟩
  simpa only [List.append_nil] using Begins.of_spelled hu []

/-- The words of a phrase stand before those that stand behind the gap. -/
theorem starts_phrase_behind {s : String} (hs : Text.words s.toList ≠ []) (hne : [] ∉ L)
    {f : Text → Reader β} (hf : ∀ a, Starts L (f a)) :
    Starts (L.map (Text.words s.toList ++ ·)) (phrase s >>= fun _ => blanks1 >>= f) := by
  refine ⟨fun h => ?_⟩
  obtain ⟨_, u, hphrase, hbehind⟩ := bind_eq_found.1 h
  obtain ⟨a, v, hblanks, hread⟩ := bind_eq_found.1 hbehind
  obtain ⟨words, rfl, hwords⟩ := (reads_phrase s).found hphrase
  obtain ⟨gap, rfl, hgap⟩ := reads_blanks1.found hblanks
  obtain ⟨vs, hvs, blank, w, x, rfl, hblank, hw⟩ := (hf a).begins hread
  refine ⟨_, List.mem_map_of_mem hvs, ?_⟩
  cases vs with
  | nil => exact absurd hvs hne
  | cons v' vs =>
      have hgap' : IsGap (gap ++ blank) :=
        ⟨by simp [hgap.ne_nil], Text.isBlank_append.2 ⟨hgap.blank, hblank⟩⟩
      have hbegins := Begins.of_spelled (hwords.append hs hgap' hw) x
      simpa only [List.append_assoc] using hbegins

/-! ## Alternatives -/

theorem Leads.orElse (hp : Leads L p) (hq : Leads M q) : Leads (L ++ M) (p <|> q) := by
  refine ⟨fun {t} h => ?_⟩
  rw [orElse_apply] at h
  split at h
  · obtain ⟨ws, hws, hbegins⟩ := hq.not_missed h
    exact ⟨ws, List.mem_append_right L hws, hbegins⟩
  · obtain ⟨ws, hws, hbegins⟩ := hp.not_missed h
    exact ⟨ws, List.mem_append_left M hws, hbegins⟩

theorem leads_firstOf {readers : List (Reader α)} (h : ∀ r ∈ readers, Leads L r) :
    Leads L (firstOf readers) := by
  induction readers with
  | nil => exact ⟨fun h => absurd rfl h⟩
  | cons r others ih =>
      have hothers := ih fun s hs => h s (List.mem_cons_of_mem r hs)
      refine ((h r List.mem_cons_self).orElse hothers).mono fun ws hws => ?_
      exact (List.mem_append.1 hws).elim id id

theorem starts_firstOf {readers : List (Reader α)} (h : ∀ r ∈ readers, Starts L r) :
    Starts L (firstOf readers) := by
  refine ⟨fun hread => ?_⟩
  obtain ⟨earlier, r, later, rfl, -, hr⟩ := firstOf_eq_found.1 hread
  exact (h r (by simp)).begins hr

/-- What may stand at the front, and what stands behind it or at the front itself. -/
theorem leads_optional {f : Option α → Reader β} (hp : Leads L p) (hf : ∀ o, Leads M (f o)) :
    Leads (L ++ M) (optional p >>= f) := by
  refine ⟨fun {t} h => ?_⟩
  by_cases hpt : p t = .missed
  · rw [bind_found (optional_of_missed hpt)] at h
    obtain ⟨ws, hws, hbegins⟩ := (hf none).not_missed h
    exact ⟨ws, List.mem_append_right L hws, hbegins⟩
  · obtain ⟨ws, hws, hbegins⟩ := hp.not_missed hpt
    exact ⟨ws, List.mem_append_left M hws, hbegins⟩

end Reader

end Klartext
