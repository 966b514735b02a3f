import Klartext.Proofs.Reader.Basic

set_option autoImplicit false

/-! # Normal forms of names

Names are stored and looked up in normal form, so two texts stand for the same name exactly if they
have the same words. What the words of a text are is said here without cutting it (`Text.HasWords`):
a text has the words into which it is cut, and no others (`Text.words_eq_iff`). -/

namespace Klartext

namespace Text

/-! ## The words of a text -/

/-- A text and the words in it, from left to right. Each word is as long as it can be: behind it the
    text ends or goes on with whitespace. -/
inductive HasWords : Text → List Text → Prop where
  | nil : HasWords [] []
  | blank {c : Char} {t : Text} {ws : List Text} (hc : Klartext.isBlank c = true)
      (h : HasWords t ws) : HasWords (c :: t) ws
  | word {w t : Text} {ws : List Text} (hw : IsWord w)
      (hends : ∀ c ∈ t.head?, Klartext.isBlank c = true) (h : HasWords t ws) :
      HasWords (w ++ t) (w :: ws)

/-- A character in front of a word belongs to it. -/
theorem HasWords.cons_word {c d : Char} {t w : Text} {ws : List Text}
    (h : HasWords (d :: t) (w :: ws)) (hc : Klartext.isBlank c = false)
    (hd : Klartext.isBlank d = false) : HasWords (c :: d :: t) ((c :: w) :: ws) := by
  generalize htext : d :: t = text at h
  cases h with
  | blank hblank h =>
      -- the text begins with the word, not with whitespace
      obtain rfl := (List.cons.inj htext).1
      rw [hd] at hblank
      cases hblank
  | word hw hends h =>
      exact .word ⟨List.cons_ne_nil c w, List.forall_mem_cons.2 ⟨hc, hw.not_blank⟩⟩ hends h

theorem hasWords_words (t : Text) : HasWords t (words t) := by
  have hword {c : Char} (hc : ¬ Klartext.isBlank c = true) : IsWord [c] :=
    ⟨List.cons_ne_nil c [], by simpa using hc⟩
  fun_induction words t with
  | case1 => exact .nil
  | case2 c rest hc ih => exact ih.blank hc
  | case3 c hc => exact .word (hword hc) (by simp) .nil
  | case4 c hc next rest hnext ih => exact .word (hword hc) (by simpa using hnext) ih
  | case5 c hc next rest hnext hwords ih =>
      exact absurd hwords (words_ne_nil List.mem_cons_self (by simpa using hnext))
  | case6 c hc next rest hnext word others hwords ih =>
      rw [hwords] at ih ⊢
      exact ih.cons_word (by simpa using hc) (by simpa using hnext)

theorem words_eq_iff {t : Text} {ws : List Text} : words t = ws ↔ HasWords t ws := by
  constructor
  · rintro rfl
    exact hasWords_words t
  · intro h
    induction h with
    | nil => rfl
    | blank hc h ih => rw [words_cons_blank hc, ih]
    | @word w t ws hw hends h ih =>
        rw [words_word_append hw, ih]
        cases t with
        | nil => exact .inl rfl
        | cons c t => exact .inr ⟨c, t, rfl, hends c rfl⟩

/-! ## The normal form -/

theorem normalize_eq_nil_iff_words {t : Text} : normalize t = [] ↔ words t = [] :=
  normalize_eq_iff (u := [])

theorem normalize_eq_nil_iff {t : Text} : normalize t = [] ↔ isBlank t = true := by
  constructor
  · intro h
    refine List.all_eq_true.2 fun c hc => ?_
    cases hblank : Klartext.isBlank c with
    | true => rfl
    | false => simpa [h] using mem_normalize hc hblank
  · intro h
    rw [normalize_eq_nil_iff_words, ← List.append_nil t, words_blank_append h]
    rfl

/-- The character is a space, and on both sides of it stands a character that is not whitespace. -/
structure SingleSpace (before : Text) (c : Char) (behind : Text) : Prop where
  eq_space : c = ' '
  before : ∃ t d, before = t ++ [d] ∧ Klartext.isBlank d = false
  behind : ∃ d t, behind = d :: t ∧ Klartext.isBlank d = false

section Normal

variable {n u v : Text} {c : Char} (hn : normalize n = n)
include hn

/-- A text in normal form begins with a character that is not whitespace, and so does what stands
    behind a space in it. -/
theorem exists_head_of_normal (hne : n ≠ []) (h : ' ' :: v <:+ ' ' :: n) :
    ∃ d t, v = d :: t ∧ Klartext.isBlank d = false := by
  obtain ⟨w, hw, t, rfl, -⟩ := exists_word_of_normal hn hne h
  obtain ⟨hwne, hblank⟩ := isWord_of_mem_words hw
  cases w with
  | nil => exact absurd rfl hwne
  | cons d w => exact ⟨d, w ++ t, rfl, hblank d List.mem_cons_self⟩

/-- Whitespace in normal form is a single space between two words. -/
theorem singleSpace_of_normal (h : n = u ++ c :: v) (hblank : Klartext.isBlank c = true) :
    SingleSpace u c v := by
  have hne : n ≠ [] := by simp [h]
  obtain rfl : c = ' ' := eq_space_of_normal hn (by simp [h]) hblank
  -- with a space put before the text, whitespace before this one would be a second space
  have hsingle : ¬ ' ' :: ' ' :: v <:+ ' ' :: n := by
    intro hspaces
    obtain ⟨d, t, heq, hd⟩ := exists_head_of_normal hn hne hspaces
    rw [← (List.cons.inj heq).1, hblank] at hd
    cases hd
  refine ⟨rfl, ?_, exists_head_of_normal hn hne ⟨' ' :: u, by rw [h, List.cons_append]⟩⟩
  rcases List.eq_nil_or_concat u with rfl | ⟨t, d, hu⟩
  · exact absurd ⟨[], by rw [h]; rfl⟩ hsingle
  · rw [List.concat_eq_append] at hu
    refine ⟨t, d, hu, Bool.eq_false_iff.2 fun hd => hsingle ⟨' ' :: t, ?_⟩⟩
    obtain rfl : d = ' ' := eq_space_of_normal hn (by simp [h, hu]) hd
    simp [h, hu]

end Normal

/-! ## Whitespace between texts -/

section Between

variable {w : Text} (hne : w ≠ []) (hw : isBlank w = true)
include hne hw

theorem words_append_blanks (a b : Text) : words (a ++ (w ++ b)) = words a ++ words b := by
  cases w with
  | nil => exact absurd rfl hne
  | cons c w =>
      obtain ⟨hc, hw⟩ := isBlank_cons.1 hw
      rw [List.cons_append, words_append_blank hc, words_blank_append hw]

theorem normalize_append_blanks {a b : Text} (ha : normalize a ≠ []) (hb : normalize b ≠ []) :
    normalize (a ++ (w ++ b)) = normalize a ++ ' ' :: normalize b := by
  rw [normalize, words_append_blanks hne hw, joinWith_append
    (fun h => ha (normalize_eq_nil_iff_words.2 h)) fun h => hb (normalize_eq_nil_iff_words.2 h)]
  rfl

theorem normalize_append_blanks_of_eq_nil {a b : Text} (h : normalize a = [] ∨ normalize b = []) :
    normalize (a ++ (w ++ b)) = normalize a ++ normalize b := by
  rw [normalize, words_append_blanks hne hw]
  rcases h with h | h
  · rw [normalize_eq_nil_iff_words.1 h, h]
    rfl
  · rw [normalize_eq_nil_iff_words.1 h, h, List.append_nil, List.append_nil]
    rfl

end Between

end Text

/-- A name that is read is in normal form. -/
theorem Reader.normal_of_nameUntil {terminator t name rest : Text} {excluded : List Text}
    (h : nameUntil terminator excluded t = .found name rest) : Text.normalize name = name := by
  obtain ⟨raw, u, -, h⟩ := bind_eq_found.1 h
  split at h
  · cases h
  · cases h
    exact Text.normalize_normalize raw

/-! ## The normal form is canonical -/

/-- Two texts have the same normal form exactly if they have the same words. The normal form is its
    own, is empty only for whitespace, and holds no whitespace but single spaces between words. The
    normal form of two texts with whitespace between them is put together from theirs. So every name
    that is read is its own normal form. -/
theorem Text.normalize_canonical (a b : Text) :
    (normalize a = normalize b ↔ ∃ ws, HasWords a ws ∧ HasWords b ws) ∧
    normalize (normalize a) = normalize a ∧
    (normalize a = [] ↔ isBlank a = true) ∧
    (∀ u c v, normalize a = u ++ c :: v → Klartext.isBlank c = true → SingleSpace u c v) ∧
    (∀ w, w ≠ [] → isBlank w = true →
      (normalize a ≠ [] → normalize b ≠ [] →
        normalize (a ++ (w ++ b)) = normalize a ++ ' ' :: normalize b) ∧
      (normalize a = [] ∨ normalize b = [] →
        normalize (a ++ (w ++ b)) = normalize a ++ normalize b)) ∧
    ∀ terminator excluded name rest,
      Reader.nameUntil terminator excluded a = .found name rest → normalize name = name := by
  have hwords : normalize a = normalize b ↔ ∃ ws, HasWords a ws ∧ HasWords b ws := by
    simp only [normalize_eq_iff, ← words_eq_iff]
    exact ⟨fun h => ⟨words a, rfl, h.symm⟩, fun ⟨ws, ha, hb⟩ => ha.trans hb.symm⟩
  refine ⟨hwords, normalize_normalize a, normalize_eq_nil_iff, ?_, ?_, ?_⟩
  · intro u c v h hc
    exact singleSpace_of_normal (normalize_normalize a) h hc
  · intro w hne hw
    exact ⟨normalize_append_blanks hne hw, normalize_append_blanks_of_eq_nil hne hw⟩
  · intro terminator excluded name rest h
    exact Reader.normal_of_nameUntil h

/-- Two spacings of a name, two texts with whitespace between them, and a name that is read. -/
theorem Text.normalize_canonical_respaced :
    HasWords "  Bier \n  Kaufen ".toList ["Bier".toList, "Kaufen".toList] ∧
    HasWords "Bier\tKaufen".toList ["Bier".toList, "Kaufen".toList] ∧
    normalize "  Bier \n  Kaufen ".toList = normalize "Bier\tKaufen".toList ∧
    normalize "  Bier \n  Kaufen ".toList = "Bier".toList ++ ' ' :: "Kaufen".toList ∧
    SingleSpace "Bier".toList ' ' "Kaufen".toList ∧
    normalize ("  Bier".toList ++ ("\n ".toList ++ "Kaufen ".toList)) =
      normalize "  Bier".toList ++ ' ' :: normalize "Kaufen ".toList ∧
    normalize ("  Bier".toList ++ ("\n ".toList ++ "\t".toList)) =
      normalize "  Bier".toList ++ normalize "\t".toList ∧
    Reader.nameUntil ['/'] [] "für \nBier/!".toList =
      .found "für Bier".toList "!".toList ∧
    normalize "für Bier".toList = "für Bier".toList := by
  have hspaced : HasWords "  Bier \n  Kaufen ".toList ["Bier".toList, "Kaufen".toList] :=
    words_eq_iff.1 (by decide)
  have htabbed : HasWords "Bier\tKaufen".toList ["Bier".toList, "Kaufen".toList] :=
    words_eq_iff.1 (by decide)
  have hnormal : normalize "  Bier \n  Kaufen ".toList =
      "Bier".toList ++ ' ' :: "Kaufen".toList := by decide
  have hread : Reader.nameUntil ['/'] [] "für \nBier/!".toList =
      .found "für Bier".toList "!".toList := rfl
  have hbetween := (normalize_canonical "  Bier".toList "Kaufen ".toList).2.2.2.2.1
    "\n ".toList (by decide) (by decide)
  have hblank := (normalize_canonical "  Bier".toList "\t".toList).2.2.2.2.1
    "\n ".toList (by decide) (by decide)
  exact ⟨hspaced, htabbed, (normalize_canonical _ _).1.2 ⟨_, hspaced, htabbed⟩, hnormal,
    (normalize_canonical _ []).2.2.2.1 _ _ _ hnormal (by decide),
    hbetween.1 (by decide) (by decide), hblank.2 (.inr (by decide)), hread,
    (normalize_canonical _ []).2.2.2.2.2 _ _ _ _ hread⟩

end Klartext
