import Klartext.Proofs.Enumeration.Part
import Klartext.Proofs.Surface.Term

set_option autoImplicit false

/-! # Torn terms

A list may be cut inside a term: at a comma or an `und` within it, and at the `aus` of a phrase or
of a call. What is left of the term is *torn*: a string or a reference without its closing mark, a
call without its `aus`, or an operation of which one operand is torn or missing. A name in a call is
never cut itself. -/

namespace Klartext

open Enumeration

namespace Surface

variable {ending : Text}

/-- The words that end a list begin as no term does, and hold no space. -/
theorem exists_of_mem_endings (h : ending ∈ endings) :
    (∃ k, ending = 'a' :: k) ∧ ' ' ∉ ending := by
  simp only [endings, List.mem_cons, List.not_mem_nil, or_false] at h
  rcases h with rfl | rfl
  · exact ⟨⟨_, rfl⟩, by decide⟩
  · exact ⟨⟨_, rfl⟩, by decide⟩

/-! ## Openings -/

theorem Opening.not_cut {t : Text} (h : Opening t) : ¬ Cut (' ' :: ending) t := by
  obtain ⟨c, u, rfl, hc⟩ := h
  refine not_cut_of_head (not_isBlank_of_opens hc) ?_
  rintro rfl
  exact absurd hc (by decide)

/-- A list is not cut at a space before what begins neither `und` nor a word that ends the list. -/
theorem not_cut_before {c : Char} (hending : ending ∈ endings) (hblank : isBlank c = false)
    (hund : c ≠ 'u') (ha : c ≠ 'a') (t : Text) : ¬ Cut (' ' :: ending) (' ' :: c :: t) := by
  obtain ⟨⟨k, rfl⟩, _⟩ := exists_of_mem_endings hending
  refine not_cut_space (Text.flush_cons hblank) (fun b _ hcut => ?_) fun hcut => ?_
  · exact hund (List.cons_prefix_cons.1 hcut).1.symm
  · exact ha (List.cons_prefix_cons.1 hcut).1.symm

theorem Opening.not_cut_before {t : Text} (h : Opening t) (hending : ending ∈ endings) :
    ¬ Cut (' ' :: ending) (' ' :: t) := by
  obtain ⟨c, u, rfl, hc⟩ := h
  refine Surface.not_cut_before hending (not_isBlank_of_opens hc) ?_ ?_ u <;>
    rintro rfl <;> exact absurd hc (by decide)

theorem Opening.uncut_space {t : Text} (h : Opening t) (hending : ending ∈ endings) :
    Uncut ending [' '] t :=
  Text.nowhere_cons (h.not_cut_before hending) (Text.nowhere_nil _ _)

theorem Opening.uncut_mit {t : Text} (h : Opening t) (hending : ending ∈ endings) :
    Uncut ending " mit ".toList t := by
  have hword : Uncut ending "mit".toList (" ".toList ++ t) := uncut_of_not_blank (by decide) _
  exact Text.nowhere_cons (Surface.not_cut_before hending (by decide) (by decide) (by decide) _)
    (hword.append (h.uncut_space hending))

/-! ## Names -/

/-- A list is cut neither in a name nor at the space before it, if neither `und` nor a word that
    begins as its ending does is among the words of the name. -/
theorem uncut_of_words {n t : Text} (hn : Text.normalize n = n) (hne : n ≠ [])
    (ht : ∀ c ∈ t.head?, c = ' ') (hcomma : ',' ∉ n) (hund : "und".toList ∉ Text.words n)
    (hending : ending ∈ endings) (hno : ∀ w ∈ Text.words n, ¬ ending <+: w) :
    Uncut ending (' ' :: n) t := by
  refine uncut_of_normal hn hne hcomma fun w hw u hu => ?_
  have hspace {k : Text} (hk : ' ' ∉ k) : ∀ c ∈ (u ++ t).head?, c ∉ k :=
    fun c hc => Text.forall_head_append hu ht c hc ▸ hk
  constructor
  · intro b hb hcut
    have hword := (Text.isWord_of_mem_words hw).eq_of_isPrefix (hspace (by decide)) hb hcut
    exact hund (hword ▸ hw)
  · intro hcut
    exact hno w hw (Text.prefix_of_prefix_append (hspace (exists_of_mem_endings hending).2) hcut)

namespace CallName

variable {t : Text} (ht : ∀ c ∈ t.head?, c = ' ')
include ht

theorem uncut (n : CallName) (hending : ending ∈ endings) : Uncut ending (' ' :: n.text) t :=
  uncut_of_words n.normal n.ne_nil ht n.no_comma n.no_und hending
    fun w hw => n.no_ending w hw ending hending

theorem absent_mit (n : CallName) : Text.Absent " mit ".toList n.text t := by
  refine Text.absent_of_normal (k := "mit ".toList) n.normal n.ne_nil fun w hw u hu hmit => ?_
  have hword := (Text.isWord_of_mem_words hw).eq_of_isPrefix (k := "mit".toList) (b := ' ')
    (fun c hc => Text.forall_head_append hu ht c hc ▸ (by decide)) (by decide) hmit
  exact n.no_mit (hword ▸ hw)

theorem absent_aus (n : CallName) : Text.Absent " aus".toList n.text t := by
  refine Text.absent_of_normal (k := "aus".toList) n.normal n.ne_nil fun w hw u hu haus => ?_
  exact n.no_ending w hw "aus".toList List.mem_cons_self
    (Text.prefix_of_prefix_append (fun c hc => Text.forall_head_append hu ht c hc ▸ (by decide))
      haus)

end CallName

/-! ## Torn terms -/

/-- What is left of a term that a list was cut in. -/
inductive Torn : Term → Text → Prop where
  | string {s p : Text} (hp : p <+: escape s) : Torn (.literal (.string s)) ('\"' :: p)
  | reference (name : SlashedName) {p : Text} (hp : p <+: name.text) :
      Torn (.reference name) ('/' :: p)
  | name (name : CallName) : Torn (.call name []) ("führe ".toList ++ name.text)
  | arguments (name : CallName) {x : Term} {xs : List Term} {p : Text}
      (hp : p <+: enumeration (Term.texts (x :: xs))) :
      Torn (.call name (x :: xs)) ("führe ".toList ++ (name.text ++ (" mit ".toList ++ p)))
  | phrase {hspoken : Operator.multiply.family.isSpoken = true} {left right : Term} :
      Torn (.operation .multiply hspoken left right) "das Produkt".toList
  | left {op : Operator} {hspoken : op.family.isSpoken = true} {left right : Term} {y : Text}
      (hy : Torn left y) :
      Torn (.operation op hspoken left right) (op.phrase.toList ++ ' ' :: y)
  | between {op : Operator} {hspoken : op.family.isSpoken = true} {left right : Term} :
      Torn (.operation op hspoken left right) (op.phrase.toList ++ ' ' :: left.text)
  | right {op : Operator} {hspoken : op.family.isSpoken = true} {left right : Term} {y : Text}
      (hy : Torn right y) :
      Torn (.operation op hspoken left right)
        (op.phrase.toList ++ ' ' :: (left.text ++ (" und ".toList ++ y)))

theorem Torn.opening {x : Term} {y : Text} (h : Torn x y) : Opening y := by
  cases h with
  | string => exact ⟨'\"', _, rfl, rfl⟩
  | reference => exact ⟨'/', _, rfl, rfl⟩
  | name => exact ⟨'f', _, rfl, rfl⟩
  | arguments => exact ⟨'f', _, rfl, rfl⟩
  | phrase => exact ⟨'d', _, rfl, rfl⟩
  | @left op hspoken => exact opening_phrase hspoken _
  | @between op hspoken => exact opening_phrase hspoken _
  | @right op hspoken => exact opening_phrase hspoken _

/-! ## Where terms are torn -/

theorem Term.opening_enumeration (x : Term) (xs : List Term) (t : Text) :
    Opening (enumeration (texts (x :: xs)) ++ t) := by
  rw [texts, enumeration, List.append_assoc]
  exact x.opening.append _

section Torn

variable {y z w : Text}

theorem not_isEmpty_of_cut {t : Text} (hopening : Opening (t ++ w))
    (hcut : Cut (' ' :: ending) (z ++ w)) (h : t = y ++ z) : y ≠ [] := by
  rintro rfl
  rw [List.nil_append] at h
  exact hopening.not_cut (h ▸ hcut)

/-- The `aus` behind the last part of a term is missing as a whole. -/
theorem prefix_of_aus {a : Text} (hcut : Cut (' ' :: ending) (z ++ w)) (hz : z ≠ [])
    (h : a ++ " aus".toList = y ++ z) : y <+: a := by
  rcases List.append_eq_append_iff.1 h with ⟨l, hy, haus⟩ | ⟨l, ha, _⟩
  · cases l with
    | nil => exact ⟨[], by rw [hy, List.append_nil, List.append_nil]⟩
    | cons c l =>
        have haus : "aus".toList = l ++ z := (List.cons.inj haus).2
        exact absurd hcut (uncut_of_not_blank (a := "aus".toList) (by decide) w z hz ⟨l, haus.symm⟩)
  · exact ⟨l, ha.symm⟩

variable (hending : ending ∈ endings) (hcut : Cut (' ' :: ending) (z ++ w))
include hending hcut

/-- The phrase of an operation is cut only where a list ends with `aus`, and only if that is its own
    last word. -/
theorem phrase_torn {op : Operator} (hspoken : op.family.isSpoken = true) {t : Text}
    (ht : Opening (t ++ w)) (h : op.phrase.toList ++ ' ' :: t = y ++ z) :
    (op = .multiply ∧ y = "das Produkt".toList) ∨
      ∃ y', y = op.phrase.toList ++ ' ' :: y' ∧ t = y' ++ z := by
  have hbehind : ∀ c ∈ (' ' :: t ++ w).head?, c = ' ' := by simp
  by_cases hop : op = .multiply
  · subst hop
    have haus : ∀ c ∈ (" aus ".toList ++ t ++ w).head?, c = ' ' := by simp
    have hphrase : Uncut ending "das Produkt".toList (" aus ".toList ++ t ++ w) :=
      (uncut_of_words rfl (by decide) haus (by decide) (by decide) hending
        ((by decide : ∀ e ∈ endings, ∀ v ∈ Text.words "das Produkt".toList, ¬ e <+: v)
          ending hending)).tail
    -- the list is cut before the `aus` of the phrase, or behind the whole phrase
    have h : "das Produkt".toList ++ (" aus ".toList ++ t) = y ++ z := h
    obtain ⟨y₁, rfl, h₁⟩ := hphrase.split h hcut
    cases y₁ with
    | nil => exact .inl ⟨rfl, List.append_nil _⟩
    | cons c y₁ =>
        have h₁ : ' ' :: ("aus".toList ++ (" ".toList ++ t)) = c :: (y₁ ++ z) := h₁
        obtain ⟨rfl, h₂⟩ := List.cons.inj h₁
        obtain ⟨y₂, rfl, h₃⟩ := (uncut_of_not_blank (a := "aus".toList) (by decide) _).split h₂ hcut
        obtain ⟨y₃, rfl, h₄⟩ := (ht.uncut_space hending).split h₃ hcut
        exact .inr ⟨y₃, rfl, h₄⟩
  · have hwords : op.phrase.toList ≠ [] ∧ ',' ∉ op.phrase.toList ∧
        "und".toList ∉ Text.words op.phrase.toList ∧
        ∀ e ∈ endings, ∀ v ∈ Text.words op.phrase.toList, ¬ e <+: v := by
      rcases op.eq_of_isSpoken hspoken with rfl | rfl | rfl | rfl | rfl
      · decide
      · decide
      · exact absurd rfl hop
      · decide
      · decide
    obtain ⟨hne, hcomma, hund, hno⟩ := hwords
    have hphrase : Uncut ending op.phrase.toList (' ' :: t ++ w) :=
      (uncut_of_words op.normalize_phrase hne hbehind hcomma hund hending (hno ending hending)).tail
    obtain ⟨y₁, rfl, h₁⟩ := hphrase.split h hcut
    obtain ⟨y₂, rfl, h₂⟩ := (ht.uncut_space hending).split h₁ hcut
    exact .inr ⟨y₂, rfl, h₂⟩

variable (hz : z ≠ [])
include hz

theorem call_torn {name : CallName} {xs : List Term} (h : (Term.call name xs).text = y ++ z)
    (hy : y ≠ []) : Torn (.call name xs) (Text.trimEnd y) := by
  have htext : "führe".toList ++ (' ' :: name.text ++
      (Term.argumentText (Term.texts xs) ++ " aus".toList)) = y ++ z := by
    rw [← h]
    rfl
  have hbehind : ∀ c ∈ (Term.argumentText (Term.texts xs) ++ " aus".toList ++ w).head?,
      c = ' ' := by
    cases xs <;> simp [Term.texts, Term.argumentText]
  -- neither `führe` nor the name is cut, so that the cut is behind both
  obtain ⟨y₁, rfl, h₁⟩ := (uncut_of_not_blank (by decide) _).split htext hcut
  obtain ⟨y₂, rfl, h₂⟩ := (name.uncut hbehind hending).split h₁ hcut
  cases xs with
  | nil =>
      obtain rfl := List.prefix_nil.1 (prefix_of_aus hcut hz h₂)
      obtain ⟨u, c, hu, hc⟩ := Text.last_of_normal name.normal name.ne_nil
      have hlast : "führe".toList ++ (' ' :: name.text ++ []) = ("führe ".toList ++ u) ++ [c] := by
        rw [List.append_nil, hu]
        rfl
      rw [hlast, Text.trimEnd_concat hc, List.append_assoc, ← hu]
      exact .name name
  | cons x xs =>
      have hlist : Opening (enumeration (Term.texts (x :: xs)) ++ " aus".toList ++ w) := by
        rw [List.append_assoc]
        exact x.opening_enumeration xs _
      have h₂ : " mit ".toList ++ (enumeration (Term.texts (x :: xs)) ++ " aus".toList) =
          y₂ ++ z := by
        rw [← h₂]
        rfl
      obtain ⟨y₃, rfl, h₃⟩ := (hlist.uncut_mit hending).split h₂ hcut
      have hne : y₃ ≠ [] := not_isEmpty_of_cut hlist hcut h₃
      have hflush : Text.Flush y₃ :=
        flush_of_isPrefix ⟨z, h₃.symm⟩ (x.opening_enumeration xs _).flush
      have htext : "führe".toList ++ (' ' :: name.text ++ (" mit ".toList ++ y₃)) =
          ("führe ".toList ++ (name.text ++ " mit ".toList)) ++ y₃ := by
        simp only [List.append_assoc, List.cons_append]
        rfl
      rw [htext, Text.trimEnd_append hne hflush, List.append_assoc, List.append_assoc]
      exact .arguments name ((Text.trimEnd_prefix y₃).trans (prefix_of_aus hcut hz h₃))

/-- The operands of an operation are cut in one of them, or between them. -/
theorem operands_torn {left right : Term} (hw : Follows w) (hy : y ≠ [])
    (h : left.text ++ (" und ".toList ++ right.text) = y ++ z) :
    Part (' ' :: ending) left.text y ∨ y = left.text ∨
      ∃ y', y = left.text ++ (" und ".toList ++ y') ∧ Part (' ' :: ending) right.text y' := by
  rcases List.append_eq_append_iff.1 h with ⟨l, rfl, h₁⟩ | ⟨l, hl, hrest⟩
  · cases l with
    | nil => exact .inr (.inl (List.append_nil _))
    | cons c l =>
        -- the left operand is whole, and so is the `und` behind it
        have h₁ : ' ' :: ("und".toList ++ (" ".toList ++ right.text)) = c :: (l ++ z) := h₁
        obtain ⟨rfl, h₂⟩ := List.cons.inj h₁
        have hbehind : Opening (right.text ++ w) := right.opening.append w
        obtain ⟨y₁, rfl, h₃⟩ :=
          (uncut_of_not_blank (a := "und".toList) (by decide) _).split h₂ hcut
        obtain ⟨y₂, rfl, h₄⟩ := (hbehind.uncut_space hending).split h₃ hcut
        exact .inr (.inr ⟨y₂, rfl, z, w, h₄, not_isEmpty_of_cut hbehind hcut h₄, hz, hw, hcut⟩)
  · cases l with
    | nil =>
        rw [List.append_nil] at hl
        exact .inr (.inl hl.symm)
    | cons c l =>
        refine .inl ⟨c :: l, " und ".toList ++ right.text ++ w, hl, hy, List.cons_ne_nil c l,
          ⟨' ', _, rfl, .inr rfl⟩, ?_⟩
        rw [← List.append_assoc, ← hrest]
        exact hcut

/-- An operation is torn in one of its operands, or before the second of them. -/
theorem operation_torn {op : Operator} {hspoken : op.family.isSpoken = true} {left right : Term}
    (hleft : ∀ y, Part (' ' :: ending) left.text y → Torn left (Text.trimEnd y))
    (hright : ∀ y, Part (' ' :: ending) right.text y → Torn right (Text.trimEnd y))
    (hw : Follows w) (h : (Term.operation op hspoken left right).text = y ++ z) :
    Torn (.operation op hspoken left right) (Text.trimEnd y) := by
  have hopening : Opening (left.text ++ (" und ".toList ++ right.text) ++ w) := by
    rw [List.append_assoc]
    exact left.opening.append _
  rcases phrase_torn hending hcut hspoken hopening h with ⟨rfl, rfl⟩ | ⟨y₁, rfl, h₁⟩
  · exact .phrase
  · have hne : y₁ ≠ [] := not_isEmpty_of_cut hopening hcut h₁
    -- the phrase and its space stay, whatever whitespace is taken off behind
    have hflush : Text.Flush y₁ := flush_of_isPrefix ⟨z, h₁.symm⟩ (left.flush _)
    have htrim : Text.trimEnd (op.phrase.toList ++ ' ' :: y₁) =
        op.phrase.toList ++ ' ' :: Text.trimEnd y₁ := by
      have hconcat (t : Text) :
          op.phrase.toList ++ ' ' :: t = (op.phrase.toList ++ [' ']) ++ t := by
        simp
      rw [hconcat, Text.trimEnd_append hne hflush, ← hconcat]
    rw [htrim]
    rcases operands_torn hending hcut hz hw hne h₁ with hpart | rfl | ⟨y₂, rfl, hpart⟩
    · exact .left (hleft y₁ hpart)
    · obtain ⟨u, c, hu, hc⟩ := left.closing
      have hwhole : Text.trimEnd left.text = left.text := by
        rw [hu, Text.trimEnd_concat (not_of_closes hc).1]
      rw [hwhole]
      exact .between
    · have htorn := hright y₂ hpart
      obtain ⟨z', _, hz', hne₂, _⟩ := hpart
      rw [← List.append_assoc, Text.trimEnd_append hne₂
        (flush_of_isPrefix ⟨z', hz'.symm⟩ right.opening.flush), List.append_assoc]
      exact .right htorn

end Torn

/-- What is left of a term that a list was cut in, without the whitespace behind it. -/
theorem torn_of_part (hending : ending ∈ endings) :
    (x : Term) → ∀ y, Part (' ' :: ending) x.text y → Torn x (Text.trimEnd y)
  | .literal l => by
      rintro y hy
      rcases l.not_blank_or_quoted with ⟨content, rfl⟩ | hblank
      · obtain ⟨z, w, htext, hy, hz, _, _⟩ := hy
        obtain ⟨p, hp, rfl⟩ := part_enclosed (c := '"') htext hy hz
        rw [← List.nil_append ('"' :: p), Text.trimEnd_append_cons (by decide)]
        exact .string ((Text.trimEnd_prefix p).trans hp)
      · exact absurd hy (not_part_of_not_blank hblank l.last)
  | .reference name => by
      rintro y ⟨z, w, htext, hy, hz, _, _⟩
      obtain ⟨p, hp, rfl⟩ := part_enclosed (c := '/') htext hy hz
      rw [← List.nil_append ('/' :: p), Text.trimEnd_append_cons (by decide)]
      exact .reference name ((Text.trimEnd_prefix p).trans hp)
  | .call name xs => by
      rintro y ⟨z, w, htext, hy, hz, _, hcut⟩
      exact call_torn hending hcut hz htext hy
  | .operation op hspoken left right => by
      rintro y ⟨z, w, htext, _, hz, hw, hcut⟩
      exact operation_torn hending hcut hz (torn_of_part hending left) (torn_of_part hending right)
        hw htext

end Surface

end Klartext
