import Klartext.Grammar.Statement
import Klartext.Proofs.Continued.Text

set_option autoImplicit false

/-! # Readers that stop before the exclamation mark

Most small readers take no exclamation mark and do not look beyond one. What they do with a text that
has one they do with every text that goes on behind it. -/

namespace Klartext

open Rules Surface

/-- The same, where the text goes on behind the rest. -/
def Reading.longer {α : Type} (more : Text) : Reading α → Reading α
  | .found a rest => .found a (rest ++ more)
  | .missed => .missed
  | .broken e => .broken e

namespace Reader

variable {α β : Type} {p q : Reader α} {f : α → Reader β}

/-- The exclamation marks of a text are in what the reader leaves of it, and what stands behind the
    first one changes nothing. -/
structure StopsAtMark (p : Reader α) : Prop where
  longer : ∀ {t : Text}, '!' ∈ t → ∀ more, p (t ++ more) = (p t).longer more
  suffix : ∀ {t : Text} {a : α} {rest : Text}, p t = .found a rest → rest <:+ t
  mark : ∀ {t : Text} {a : α} {rest : Text}, '!' ∈ t → p t = .found a rest → '!' ∈ rest

theorem Reads.suffix {D : α → Text → Prop} (h : Reads D p) {t : Text} {a : α} {rest : Text}
    (hp : p t = .found a rest) : rest <:+ t := by
  obtain ⟨u, rfl, -⟩ := h.found hp
  exact List.suffix_append u rest

theorem Reads.stopsAtMark {D : α → Text → Prop} (h : Reads D p) (hD : ∀ {a u}, D a u → '!' ∉ u)
    (hlonger : ∀ {t : Text}, '!' ∈ t → ∀ more, p (t ++ more) = (p t).longer more) :
    StopsAtMark p := by
  refine ⟨hlonger, h.suffix, fun hmark hp => ?_⟩
  obtain ⟨u, rfl, hu⟩ := h.found hp
  exact (List.mem_append.1 hmark).resolve_left (hD hu)

/-! ## Combinators -/

theorem stopsAtMark_pure (a : α) : StopsAtMark (pure a : Reader α) := by
  refine ⟨fun _ _ => rfl, fun hp => ?_, fun hmark hp => ?_⟩ <;> cases hp
  · exact List.suffix_refl _
  · exact hmark

theorem stopsAtMark_miss : StopsAtMark (miss : Reader α) :=
  ⟨fun _ _ => rfl, fun hp => (by cases hp), fun _ hp => by cases hp⟩

theorem stopsAtMark_breakOff (e : Failure) : StopsAtMark (breakOff e : Reader α) :=
  ⟨fun _ _ => rfl, fun hp => (by cases hp), fun _ hp => by cases hp⟩

theorem StopsAtMark.bind (hp : StopsAtMark p) (hf : ∀ a, StopsAtMark (f a)) :
    StopsAtMark (p >>= f) := by
  refine ⟨fun {t} hmark more => ?_, fun h => ?_, fun hmark h => ?_⟩
  · rw [bind_apply, bind_apply, hp.longer hmark more]
    cases hpt : p t with
    | found a u => exact (hf a).longer (hp.mark hmark hpt) more
    | missed => rfl
    | broken e => rfl
  · obtain ⟨a, u, hpt, hread⟩ := bind_eq_found.1 h
    exact ((hf a).suffix hread).trans (hp.suffix hpt)
  · obtain ⟨a, u, hpt, hread⟩ := bind_eq_found.1 h
    exact (hf a).mark (hp.mark hmark hpt) hread

theorem StopsAtMark.orElse (hp : StopsAtMark p) (hq : StopsAtMark q) : StopsAtMark (p <|> q) := by
  refine ⟨fun {t} hmark more => ?_, fun h => ?_, fun hmark h => ?_⟩
  · rw [orElse_apply, orElse_apply, hp.longer hmark more]
    cases p t with
    | found a rest => rfl
    | missed => exact hq.longer hmark more
    | broken e => rfl
  · rcases orElse_eq_found.1 h with hpt | ⟨-, hqt⟩
    · exact hp.suffix hpt
    · exact hq.suffix hqt
  · rcases orElse_eq_found.1 h with hpt | ⟨-, hqt⟩
    · exact hp.mark hmark hpt
    · exact hq.mark hmark hqt

theorem StopsAtMark.optional (hp : StopsAtMark p) : StopsAtMark (optional p) :=
  (hp.bind fun _ => stopsAtMark_pure _).orElse (stopsAtMark_pure none)

/-! ## Whitespace and words -/

theorem stopsAtMark_blanks : StopsAtMark blanks := by
  refine reads_blanks.stopsAtMark Text.not_mem_of_isBlank fun {t} hmark more => ?_
  obtain ⟨htake, hdrop⟩ := Text.span_more (p := isBlank) (by decide) hmark more
  rw [blanks, htake, hdrop]
  rfl

theorem stopsAtMark_blanks1 : StopsAtMark blanks1 := by
  refine reads_blanks1.stopsAtMark (fun hu => Text.not_mem_of_isBlank hu.blank) fun {t} hmark more => ?_
  obtain ⟨htake, hdrop⟩ := Text.span_more (p := isBlank) (by decide) hmark more
  simp only [blanks1, htake, hdrop]
  split <;> rfl

theorem drop_more {s t : Text} (h : s.isPrefixOf t = true) (more : Text) :
    (t ++ more).drop s.length = t.drop s.length ++ more :=
  List.drop_append_of_le_length (List.isPrefixOf_iff_prefix.1 h).length_le

theorem stopsAtMark_literal {s : Text} (hs : '!' ∉ s) : StopsAtMark (literal s) := by
  refine (reads_literal s).stopsAtMark (fun hu => hu ▸ hs) fun {t} hmark more => ?_
  simp only [literal, Text.isPrefixOf_more hs hmark]
  split
  · rename_i hprefix
    rw [drop_more hprefix]
    rfl
  · rfl

theorem stopsAtMark_longestOf {literals : List Text} (h : ∀ s ∈ literals, '!' ∉ s) :
    StopsAtMark (longestOf literals) := by
  refine (reads_longestOf literals).stopsAtMark (h _) fun {t} hmark more => ?_
  have hfilter : (literals.filter fun s => s.isPrefixOf (t ++ more)) =
      literals.filter fun s => s.isPrefixOf t :=
    List.filter_congr fun s hs => Text.isPrefixOf_more (h s hs) hmark more
  simp only [longestOf, hfilter]
  split
  · rename_i s hlongest
    obtain ⟨-, hprefix⟩ :=
      List.mem_filter.1 ((mem_of_foldl_longest hlongest).resolve_left fun h => by cases h)
    rw [drop_more hprefix]
    rfl
  · rfl

theorem stopsAtMark_phrase {s : String} (h : '!' ∉ (Text.words s.toList).flatten) :
    StopsAtMark (phrase s) := by
  have hinOrder (ws : List Text) (h : '!' ∉ ws.flatten) : StopsAtMark (inOrder ws) := by
    induction ws with
    | nil => exact stopsAtMark_pure ()
    | cons w ws ih =>
        rw [List.flatten_cons, List.mem_append, not_or] at h
        cases ws with
        | nil => exact (stopsAtMark_literal h.1).bind fun _ => stopsAtMark_pure ()
        | cons v ws =>
            exact (stopsAtMark_literal h.1).bind fun _ => stopsAtMark_blanks1.bind fun _ => ih h.2
  exact hinOrder _ h

/-! ## Names -/

theorem stopsAtMark_nameUntil {terminator : Text} {excluded : List Text}
    (hterminator : '!' ∉ terminator) (hexcluded : "!".toList ∈ excluded) :
    StopsAtMark (nameUntil terminator excluded) := by
  refine StopsAtMark.bind ?_ fun raw => ?_
  · refine (reads_textUntil terminator excluded).stopsAtMark (fun {raw u} hu => ?_)
      fun {t} hmark more => ?_
    · obtain ⟨rfl, hexcluded'⟩ := hu
      rw [List.mem_append, not_or]
      exact ⟨Text.not_mem_of_holds (hexcluded' _ hexcluded), hterminator⟩
    · simp only [textUntil]
      cases hsplit : Text.splitFirst? terminator t with
      | some parts =>
          rw [Text.splitFirst?_more more hsplit]
          simp only
          split <;> rfl
      | none =>
          cases hmore : Text.splitFirst? terminator (t ++ more) with
          | none => rfl
          | some parts =>
              -- the terminator stands behind the exclamation mark, which is excluded
              have hhead : '!' ∈ parts.1 := by
                refine Decidable.byContradiction fun hhead => ?_
                have heq := Text.splitFirst?_eq_some hmore
                rw [← List.append_assoc] at heq
                obtain ⟨rest, -, hrest⟩ := Text.eq_append_of_not_mem heq hmark
                  (by rw [List.mem_append, not_or]; exact ⟨hhead, hterminator⟩)
                rw [show parts = (parts.1, rest ++ more) from Prod.ext rfl hrest] at hmore
                rw [Text.splitFirst?_of_more hmore] at hsplit
                cases hsplit
              have hany : (excluded.any fun s => Text.holds s parts.1) = true := by
                obtain ⟨a, b, hparts⟩ := List.append_of_mem hhead
                refine List.any_eq_true.2 ⟨_, hexcluded, ?_⟩
                rw [hparts]
                exact Text.holds_append "!".toList a b
              simp only [hany, if_true]
              rfl
  · simp only
    split
    · exact stopsAtMark_miss
    · exact stopsAtMark_pure _

/-! ## Digits -/

theorem digitRun_more {separator : Option Char} (hseparator : separator ≠ some '!') {t : Text}
    (hmark : '!' ∈ t) (unfinished : Bool) (index : Nat) (more : Text) :
    digitRun separator unfinished index (t ++ more) =
      { digitRun separator unfinished index t with
        rest := (digitRun separator unfinished index t).rest ++ more } := by
  induction t generalizing unfinished index with
  | nil => cases hmark
  | cons c t ih =>
      -- neither a separator nor a digit is the mark, which is thus still to come
      rw [List.cons_append, digitRun, digitRun]
      split
      · rename_i hc
        have hne : '!' ≠ c := fun h => hseparator (by rw [h, hc])
        split
        · rfl
        · exact ih ((List.mem_cons.1 hmark).resolve_left hne) _ _
      · split
        · rename_i hdigit
          have hne : '!' ≠ c := by
            rintro rfl
            exact absurd hdigit (by decide)
          rw [ih ((List.mem_cons.1 hmark).resolve_left hne)]
        · rfl

theorem not_mem_digits (d : Digits) : '!' ∉ d.text := by
  intro hmem
  rcases Text.mem_joinWith hmem with hpoint | ⟨group, hgroup, hmem⟩
  · exact absurd hpoint (by decide)
  · have hdigit : '!'.isDigit = true := (d.grouped group hgroup).2 '!' hmem
    exact absurd hdigit (by decide)

theorem stopsAtMark_digits : StopsAtMark (digits (some '.')) := by
  refine reads_digits.stopsAtMark (fun hu => ?_) fun {t} hmark more => ?_
  · obtain ⟨d, rfl, -⟩ := hu
    exact not_mem_digits d
  · have hpoint : some '.' ≠ some '!' := by decide
    simp only [digits, digitRun_more hpoint hmark]
    split <;> rfl

theorem stopsAtMark_wholeNumber (ds : Text) : StopsAtMark (wholeNumber ds) := by
  rw [wholeNumber]
  split
  · exact stopsAtMark_breakOff _
  · exact stopsAtMark_pure _

end Reader

/-! ## Rules -/

namespace Grammar

open Reader

theorem stopsAtMark_number : StopsAtMark number := by
  have hplaces : StopsAtMark (do phrase ","; digits (some '.')) :=
    (stopsAtMark_phrase (by decide)).bind fun _ => stopsAtMark_digits
  refine stopsAtMark_digits.bind fun whole => hplaces.optional.bind fun places => ?_
  cases places with
  | none => exact stopsAtMark_pure _
  | some places => exact (stopsAtMark_wholeNumber places).bind fun _ => stopsAtMark_pure _

theorem stopsAtMark_boolean : StopsAtMark boolean :=
  ((stopsAtMark_literal (by decide)).bind fun _ => stopsAtMark_pure _).orElse
    ((stopsAtMark_literal (by decide)).bind fun _ => stopsAtMark_pure _)

theorem stopsAtMark_null : StopsAtMark null :=
  (stopsAtMark_literal (by decide)).bind fun _ => stopsAtMark_pure _

theorem stopsAtMark_variableReference : StopsAtMark variableReference :=
  (stopsAtMark_phrase (by decide)).bind fun _ =>
    (stopsAtMark_nameUntil (by decide) (by decide)).bind fun _ => stopsAtMark_pure _

end Grammar

end Klartext
