import Klartext.Proofs.Surface.Expression
import Klartext.Proofs.Text.Search

set_option autoImplicit false

/-! # Plain names

A plain name is made of words that hold none of the marks of the language and begin with none of its
keywords. So a keyword behind a space cannot stand inside the name, nor at its end: a search for it
in the text that begins with the name goes past the name. -/

namespace Klartext

namespace Surface

/-- The words with which no word of a plain name begins. -/
def keywords : List Text :=
  ["ist".toList, "aus".toList, "an".toList, "mit".toList, "und".toList, "kriegt".toList,
    "macht".toList, "Funktion".toList, "Summe".toList, "Differenz".toList, "Produkt".toList,
    "Quotient".toList, "Verknüpfung".toList]

/-- The marks that a plain name does not hold. -/
def marks : List Char := ['!', '/', ',', '?', '\"']

/-- A word of a plain name. -/
structure PlainWord (w : Text) : Prop where
  isWord : Text.IsWord w
  not_mark : ∀ c ∈ w, c ∉ marks
  not_keyword : ∀ k ∈ keywords, ¬ k <+: w

theorem plainWord_iff {w : Text} :
    PlainWord w ↔ w ≠ [] ∧ (w.all fun c => !isBlank c && !marks.contains c) = true ∧
      (keywords.all fun k => !k.isPrefixOf w) = true := by
  constructor
  · rintro ⟨⟨hne, hblank⟩, hmark, hkeyword⟩
    refine ⟨hne, List.all_eq_true.2 fun c hc => ?_, List.all_eq_true.2 fun k hk => ?_⟩
    · simp [hblank c hc, hmark c hc]
    · rw [Bool.not_eq_true', Bool.eq_false_iff, Ne, List.isPrefixOf_iff_prefix]
      exact hkeyword k hk
  · rintro ⟨hne, hchars, hkeyword⟩
    refine ⟨⟨hne, fun c hc => ?_⟩, fun c hc => ?_, fun k hk => ?_⟩
    · have hc := List.all_eq_true.1 hchars c hc
      simp only [Bool.and_eq_true, Bool.not_eq_true'] at hc
      exact hc.1
    · have hc := List.all_eq_true.1 hchars c hc
      simp only [Bool.and_eq_true, Bool.not_eq_true'] at hc
      simpa using hc.2
    · have hk := List.all_eq_true.1 hkeyword k hk
      rwa [Bool.not_eq_true', Bool.eq_false_iff, Ne, List.isPrefixOf_iff_prefix] at hk

instance (w : Text) : Decidable (PlainWord w) := decidable_of_iff' _ plainWord_iff

/-- A name of one plain word or more, joined by single spaces. -/
structure PlainName where
  words : List Text
  ne_nil : words ≠ []
  plain : ∀ w ∈ words, PlainWord w

namespace PlainName

def text (n : PlainName) : Text := Text.joinWith [' '] n.words

/-! ## The characters of a name -/

theorem isWord (n : PlainName) {w : Text} (hw : w ∈ n.words) : Text.IsWord w :=
  (n.plain w hw).isWord

theorem normal (n : PlainName) : Text.normalize n.text = n.text :=
  Text.normalize_joinWith fun _ => n.isWord

theorem plain_of_mem (n : PlainName) {w : Text} (hw : w ∈ Text.words n.text) : PlainWord w := by
  rw [text, Text.words_joinWith fun _ => n.isWord] at hw
  exact n.plain w hw

theorem text_eq (n : PlainName) :
    ∃ w u, n.text = w ++ u ∧ PlainWord w ∧ ∀ c ∈ u.head?, c = ' ' := by
  obtain ⟨w, hw, u, htext, hu⟩ := Text.joinWith_eq_append n.ne_nil
  exact ⟨w, u, htext, n.plain w hw, hu⟩

theorem text_ne_nil (n : PlainName) : n.text ≠ [] := by
  obtain ⟨w, u, htext, hw, _⟩ := n.text_eq
  simp [htext, hw.isWord.ne_nil]

/-- The name begins neither with whitespace nor with a mark. -/
theorem head (n : PlainName) : ∃ c u, n.text = c :: u ∧ isBlank c = false ∧ c ∉ marks := by
  obtain ⟨w, u, htext, hw, _⟩ := n.text_eq
  cases w with
  | nil => exact absurd rfl hw.isWord.ne_nil
  | cons c w =>
      exact ⟨c, w ++ u, htext, hw.isWord.not_blank c List.mem_cons_self,
        hw.not_mark c List.mem_cons_self⟩

theorem last (n : PlainName) : ∃ u c, n.text = u ++ [c] ∧ isBlank c = false ∧ c ∉ marks :=
  Text.joinWith_last n.ne_nil fun w hw => Text.exists_concat (n.plain w hw).isWord.ne_nil
    fun c hc => ⟨(n.plain w hw).isWord.not_blank c hc, (n.plain w hw).not_mark c hc⟩

theorem flush (n : PlainName) (t : Text) : Text.Flush (n.text ++ t) :=
  Text.flush_of_normal n.normal n.text_ne_nil t

theorem not_mem_of_mark (n : PlainName) {c : Char} (hc : c ∈ marks) : c ∉ n.text := by
  intro h
  rcases Text.mem_joinWith h with hspace | ⟨w, hw, hmem⟩
  · rw [List.mem_singleton.1 hspace] at hc
    exact absurd hc (by decide)
  · exact (n.plain w hw).not_mark c hmem hc

/-- The name between slashes. -/
def slashed (n : PlainName) : SlashedName where
  text := n.text
  normal := n.normal
  ne_nil := n.text_ne_nil
  no_slash := n.not_mem_of_mark (by decide)
  no_mark := n.not_mem_of_mark (by decide)

end PlainName

/-! ## Keywords -/

/-- What can stand behind a word without going on with it. -/
def EndsWord (t : Text) : Prop := ∀ c ∈ t.head?, c = ' ' ∨ c ∈ marks

theorem endsWord_nil : EndsWord [] := by simp [EndsWord]

theorem EndsWord.behind {t u : Text} (ht : EndsWord t) (hu : ∀ c ∈ u.head?, c = ' ') :
    EndsWord (u ++ t) :=
  Text.forall_head_append (fun c hc => .inl (hu c hc)) ht

theorem not_mem_keyword {k : Text} (hk : k ∈ keywords) {c : Char} (hc : c = ' ' ∨ c ∈ marks) :
    c ∉ k := by
  have hall : (keywords.all fun k => (' ' :: marks).all fun c => !k.contains c) = true := by decide
  have hnone := List.all_eq_true.1 (List.all_eq_true.1 hall k hk) c (List.mem_cons.2 hc)
  simpa using hnone

theorem PlainWord.not_prefix {w t k : Text} (hw : PlainWord w) (hk : k ∈ keywords)
    (ht : EndsWord t) : ¬ k <+: w ++ t :=
  fun h => hw.not_keyword k hk
    (Text.prefix_of_prefix_append (fun c hc => not_mem_keyword hk (ht c hc)) h)

namespace PlainName

/-- The name does not begin with a keyword. -/
theorem not_prefix (n : PlainName) {k t : Text} (hk : k ∈ keywords) (ht : EndsWord t) :
    ¬ k <+: n.text ++ t := by
  obtain ⟨w, u, htext, hw, hu⟩ := n.text_eq
  rw [htext, List.append_assoc]
  exact hw.not_prefix hk (ht.behind hu)

/-- A keyword behind a space does not begin in the name. -/
theorem absent (n : PlainName) {k t : Text} (hk : k ∈ keywords) (ht : EndsWord t) :
    Text.Absent (' ' :: k) n.text t :=
  Text.absent_of_normal n.normal n.text_ne_nil fun _ hw _ hu =>
    PlainWord.not_prefix (n.plain_of_mem hw) hk (ht.behind hu)

end PlainName

end Surface

end Klartext
