import Klartext.Proofs.Reader.Digits
import Klartext.Proofs.Rules.Reader

set_option autoImplicit false

/-! # What the readers of words take

Whitespace, literals, phrases, names, digits and quoted text, each with the part of the grammar that
says what is taken. Whatever they are given to read, they find it or miss it. -/

namespace Klartext

open Rules Surface

/-! ## Searching -/

namespace Text

theorem splitFirst?_eq_some {needle t head rest : Text}
    (h : splitFirst? needle t = some (head, rest)) : t = head ++ (needle ++ rest) := by
  induction t generalizing head with
  | nil =>
      simp only [splitFirst?] at h
      split at h
      · rename_i hempty
        cases h
        rw [List.isEmpty_iff.1 hempty]
        rfl
      · cases h
  | cons c t ih =>
      simp only [splitFirst?] at h
      split at h
      · rename_i hprefix
        cases h
        exact (List.prefix_iff_eq_append.1 (List.isPrefixOf_iff_prefix.1 hprefix)).symm
      · obtain ⟨⟨head', rest'⟩, hsplit, hparts⟩ := Option.map_eq_some_iff.1 h
        cases hparts
        rw [ih hsplit, List.cons_append]

theorem not_mem_of_holds {c : Char} {t : Text} (h : holds [c] t = false) : c ∉ t := by
  intro hc
  obtain ⟨a, b, rfl⟩ := List.append_of_mem hc
  have hholds := holds_append [c] a b
  rw [List.singleton_append, h] at hholds
  cases hholds

end Text

namespace Reader

/-! ## Whitespace and literals -/

theorem reads_blanks : Reads (fun _ u => Text.isBlank u = true) blanks := by
  refine ⟨fun {t a rest} h => ?_, nofun⟩
  cases h
  exact ⟨t.takeWhile isBlank, List.takeWhile_append_dropWhile.symm, List.all_takeWhile⟩

theorem reads_blanks1 : Reads (fun _ u => IsGap u) blanks1 := by
  refine ⟨fun {t a rest} h => ?_, fun {t count} h => ?_⟩ <;> simp only [blanks1] at h
  · split at h
    · cases h
    · rename_i hne
      cases h
      exact ⟨t.takeWhile isBlank, List.takeWhile_append_dropWhile.symm,
        fun hnil => hne (by rw [hnil]; rfl), List.all_takeWhile⟩
  · split at h <;> cases h

theorem reads_literal (s : Text) : Reads (fun _ u => u = s) (literal s) := by
  refine ⟨fun {t a rest} h => ?_, fun {t count} h => ?_⟩ <;> simp only [literal] at h
  · split at h
    · rename_i hprefix
      cases h
      exact ⟨s, (List.prefix_iff_eq_append.1 (List.isPrefixOf_iff_prefix.1 hprefix)).symm, rfl⟩
    · cases h
  · split at h <;> cases h

theorem mem_of_foldl_longest {hits : List Text} {best : Option Text} {s : Text}
    (h : hits.foldl (fun best s => match best with
      | none => some s
      | some b => if b.length < s.length then some s else best) best = some s) :
    best = some s ∨ s ∈ hits := by
  induction hits generalizing best with
  | nil => exact .inl h
  | cons t hits ih =>
      rw [List.foldl_cons] at h
      rcases ih h with hbest | hmem
      · split at hbest
        · cases hbest
          exact .inr List.mem_cons_self
        · split at hbest
          · cases hbest
            exact .inr List.mem_cons_self
          · exact .inl hbest
      · exact .inr (List.mem_cons_of_mem t hmem)

theorem reads_longestOf (literals : List Text) :
    Reads (fun _ u => u ∈ literals) (longestOf literals) := by
  refine ⟨fun {t a rest} h => ?_, fun {t count} h => ?_⟩ <;> simp only [longestOf] at h
  · split at h
    · rename_i s hlongest
      cases h
      obtain ⟨hmem, hprefix⟩ :=
        List.mem_filter.1 ((mem_of_foldl_longest hlongest).resolve_left nofun)
      exact ⟨a, (List.prefix_iff_eq_append.1 (List.isPrefixOf_iff_prefix.1 hprefix)).symm, hmem⟩
    · cases h
  · split at h <;> cases h

/-! ## Phrases -/

theorem reads_inOrder (ws : List Text) : Reads (fun _ u => Spelled ws u) (inOrder ws) := by
  induction ws with
  | nil => exact reads_pure .nil
  | cons w ws ih =>
      cases ws with
      | nil =>
          refine (reads_literal w).bind fun _ u hu => reads_pure ?_
          rw [hu, List.append_nil]
          exact .word w
      | cons v ws =>
          refine (reads_literal w).bind fun _ u hu => reads_blanks1.bind fun _ g hg => ?_
          subst hu
          exact ih.mono fun _ t ht => .cons hg ht

theorem reads_phrase (s : String) : Reads (fun _ u => Phrase s u) (phrase s) :=
  reads_inOrder _

/-- A phrase of one word is taken as it is. -/
theorem reads_word {s : String} (h : Text.words s.toList = [s.toList]) :
    Reads (fun _ u => u = s.toList) (phrase s) := by
  have hread := reads_inOrder [s.toList]
  rw [← h] at hread
  refine hread.mono fun _ u hu => ?_
  rw [h] at hu
  cases hu
  rfl

/-! ## Names -/

theorem reads_textUntil (terminator : Text) (excluded : List Text) :
    Reads (fun raw u => u = raw ++ terminator ∧ ∀ s ∈ excluded, Text.holds s raw = false)
      (textUntil terminator excluded) := by
  refine ⟨fun {t a rest} h => ?_, fun {t count} h => ?_⟩ <;> simp only [textUntil] at h
  · split at h
    · cases h
    · rename_i head rest' hsplit
      split at h
      · cases h
      · rename_i hany
        cases h
        refine ⟨a ++ terminator, ?_, rfl, fun s hs => ?_⟩
        · rw [List.append_assoc]
          exact Text.splitFirst?_eq_some hsplit
        · simp only [List.any_eq_true, not_exists, not_and, Bool.not_eq_true] at hany
          exact hany s hs
  · split at h
    · cases h
    · split at h <;> cases h

/-- A name is taken with its terminator, and its text holds no exclamation mark if none may stand
    in it. -/
theorem reads_nameUntil (terminator : Text) {excluded : List Text}
    (hmark : "!".toList ∈ excluded) :
    Reads (fun name u => ∃ raw, u = raw ++ terminator ∧ Names raw (String.ofList name))
      (nameUntil terminator excluded) := by
  refine (reads_textUntil terminator excluded).bind fun raw u hu => ?_
  obtain ⟨rfl, hexcluded⟩ := hu
  simp only
  split
  · exact reads_miss
  · rename_i hname
    refine reads_pure ⟨raw, List.append_nil _, ?_, ?_, rfl⟩
    · exact Text.not_mem_of_holds (hexcluded _ hmark)
    · rwa [List.isEmpty_iff] at hname

theorem reads_plainName : Reads (fun name u => ListsName u name) plainName := by
  refine ⟨fun {t a rest} h => ?_, fun {t count} h => ?_⟩ <;> simp only [plainName] at h
  · split at h
    · cases h
    · rename_i hplain
      cases h
      simp only [Bool.or_eq_true, not_or, Bool.not_eq_true, List.isEmpty_eq_false_iff,
        List.contains_eq_mem, decide_eq_false_iff_not] at hplain
      obtain ⟨⟨⟨hne, hcomma⟩, hmark⟩, hund⟩ := hplain
      refine ⟨t, (List.append_nil t).symm, ⟨?_, hne, rfl⟩, ?_, ?_⟩
      · exact fun hmem => hmark (Text.mem_normalize hmem (by decide))
      · exact fun hmem => hcomma (Text.mem_normalize hmem (by decide))
      · rwa [Text.words_normalize] at hund
  · split at h <;> cases h

/-! ## Digits -/

theorem reads_digits : Reads (fun ds u => ∃ d : Digits, u = d.text ∧ ds = d.joined)
    (digits (some '.')) := by
  refine ⟨fun h => ?_, fun h => ?_⟩
  · obtain ⟨d, ht, -, rfl⟩ := (digits_eq_found (by decide)).1 h
    exact ⟨d.text, ht, d, rfl, rfl⟩
  · simp only [digits] at h
    split at h <;> cases h

/-! ## Quoted text -/

/-- Up to the first quotation mark that no backslash precedes, text is quoted. -/
theorem quoted_of_closing {t raw rest : Text} (h : closing ['\"'] 0 t = some (raw, rest)) :
    t = raw ++ '\"' :: rest ∧ Quoted raw (unescape raw) := by
  match t with
  | [] => cases h
  | c :: t =>
      by_cases hmark : c = '\"'
      · subst hmark
        rw [closing_mark] at h
        cases h
        exact ⟨rfl, .nil⟩
      · by_cases hbackslash : c = '\\'
        · subst hbackslash
          match t with
          | [] => cases h
          | d :: t =>
              rw [closing_escaped] at h
              obtain ⟨⟨raw', rest'⟩, hclosing, hparts⟩ := Option.map_eq_some_iff.1 h
              cases hparts
              obtain ⟨ht, hquoted⟩ := quoted_of_closing hclosing
              exact ⟨by rw [ht]; rfl, .escaped d hquoted⟩
        · rw [closing_plain hmark hbackslash] at h
          obtain ⟨⟨raw', rest'⟩, hclosing, hparts⟩ := Option.map_eq_some_iff.1 h
          cases hparts
          obtain ⟨ht, hquoted⟩ := quoted_of_closing hclosing
          refine ⟨by rw [ht]; rfl, ?_⟩
          -- only a backslash is taken out again
          have hplain : unescape (c :: raw') = c :: unescape raw' := by
            simp [unescape, hbackslash]
          rw [hplain]
          exact .plain hmark hbackslash hquoted

theorem reads_between :
    Reads (fun content u => ∃ raw, u = '\"' :: (raw ++ ['\"']) ∧ Quoted raw content)
      (between ['\"']) := by
  refine ⟨fun {t a rest} h => ?_, fun {t count} h => ?_⟩ <;> simp only [between] at h
  · split at h
    · rename_i hprefix
      obtain ⟨u, rfl⟩ := List.isPrefixOf_iff_prefix.1 hprefix
      split at h
      · rename_i raw rest' hclosing
        cases h
        obtain ⟨hu, hquoted⟩ := quoted_of_closing hclosing
        refine ⟨'\"' :: (raw ++ ['\"']), ?_, raw, rfl, hquoted⟩
        have hu : u = raw ++ '\"' :: rest := hu
        rw [hu]
        simp
      · cases h
    · cases h
  · split at h
    · split at h <;> cases h
    · cases h

/-! ## Readers that never break off -/

section NeverBreaks

variable {α β : Type} {p : Reader α} {f : α → Reader β}

/-- The reader breaks off at no text. -/
def NeverBreaks {α : Type} (p : Reader α) : Prop := ∀ t e, p t ≠ .broken e

theorem NeverBreaks.bind (hp : NeverBreaks p) (hf : ∀ a, NeverBreaks (f a)) :
    NeverBreaks (p >>= f) := by
  intro t e h
  rcases bind_eq_broken.1 h with hbroken | ⟨a, u, -, hbroken⟩
  · exact hp t e hbroken
  · exact hf a u e hbroken

theorem neverBreaks_pure (a : α) : NeverBreaks (pure a : Reader α) := fun _ _ => nofun

theorem neverBreaks_blanks : NeverBreaks blanks := fun _ _ => nofun

theorem neverBreaks_blanks1 : NeverBreaks blanks1 := by
  intro t e h
  simp only [blanks1] at h
  split at h <;> cases h

theorem neverBreaks_literal (s : Text) : NeverBreaks (literal s) := by
  intro t e h
  rw [literal] at h
  split at h <;> cases h

theorem neverBreaks_longestOf (literals : List Text) : NeverBreaks (longestOf literals) := by
  intro t e h
  simp only [longestOf] at h
  split at h <;> cases h

theorem neverBreaks_phrase (s : String) : NeverBreaks (phrase s) := by
  have hinOrder (ws : List Text) : NeverBreaks (inOrder ws) := by
    induction ws with
    | nil => exact neverBreaks_pure ()
    | cons w ws ih =>
        cases ws with
        | nil => exact (neverBreaks_literal w).bind fun _ => neverBreaks_pure ()
        | cons v ws =>
            exact (neverBreaks_literal w).bind fun _ => neverBreaks_blanks1.bind fun _ => ih
  exact hinOrder _

theorem neverBreaks_between (boundary : Text) : NeverBreaks (between boundary) := by
  intro t e h
  simp only [between] at h
  split at h
  · split at h <;> cases h
  · cases h

theorem neverBreaks_digits (separator : Option Char) : NeverBreaks (digits separator) := by
  intro t e h
  simp only [digits] at h
  split at h <;> cases h

theorem neverBreaks_plainName : NeverBreaks plainName := by
  intro t e h
  rw [plainName] at h
  split at h <;> cases h

theorem neverBreaks_nameUntil (terminator : Text) (excluded : List Text) :
    NeverBreaks (nameUntil terminator excluded) := by
  refine NeverBreaks.bind (fun t e h => ?_) fun raw => ?_
  · simp only [textUntil] at h
    split at h
    · cases h
    · split at h <;> cases h
  · simp only
    split
    · intro t e h
      cases h
    · exact neverBreaks_pure _

end NeverBreaks

end Reader

end Klartext
