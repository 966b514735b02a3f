import Klartext.Proofs.Rules.Words

set_option autoImplicit false

/-! # Texts that go on

A text is the beginning of a longer one, which has `more` behind it. What a search finds in the
beginning it finds in the longer text at the same place, and what it finds in the longer text at a
place within the beginning it finds there too. An exclamation mark in the beginning is a place that
nothing without one goes beyond. -/

namespace Klartext

open Rules

namespace Text

/-! ## Marks -/

/-- What is taken off the longer text, and holds no exclamation mark, is taken off a beginning that
    has one. -/
theorem eq_append_of_not_mem {used rest' t more : Text} (h : t ++ more = used ++ rest')
    (hmark : '!' ∈ t) (hused : '!' ∉ used) :
    ∃ rest, t = used ++ rest ∧ rest' = rest ++ more := by
  rcases List.append_eq_append_iff.1 h with ⟨l, rfl, -⟩ | ⟨l, rfl, rfl⟩
  · exact absurd (List.mem_append_left l hmark) hused
  · exact ⟨l, rfl, rfl⟩

theorem not_mem_of_isBlank {t : Text} (h : isBlank t = true) : '!' ∉ t := by
  intro hmem
  exact absurd (List.all_eq_true.1 h '!' hmem) (by decide)

theorem isPrefixOf_more {s t : Text} (hs : '!' ∉ s) (hmark : '!' ∈ t) (more : Text) :
    s.isPrefixOf (t ++ more) = s.isPrefixOf t := by
  rw [Bool.eq_iff_iff, List.isPrefixOf_iff_prefix, List.isPrefixOf_iff_prefix]
  refine ⟨fun ⟨rest', h⟩ => ?_, fun h => h.trans (List.prefix_append t more)⟩
  obtain ⟨rest, ht, -⟩ := eq_append_of_not_mem h.symm hmark hs
  exact ⟨rest, ht.symm⟩

/-- A scan over characters that are no exclamation marks ends before the first one. -/
theorem span_more {p : Char → Bool} (hp : p '!' = false) {t : Text} (hmark : '!' ∈ t)
    (more : Text) : (t ++ more).takeWhile p = t.takeWhile p ∧
      (t ++ more).dropWhile p = t.dropWhile p ++ more := by
  induction t with
  | nil => cases hmark
  | cons c t ih =>
      by_cases hc : p c = true
      · have hne : '!' ≠ c := by
          rintro rfl
          rw [hp] at hc
          cases hc
        obtain ⟨htake, hdrop⟩ := ih ((List.mem_cons.1 hmark).resolve_left hne)
        rw [List.cons_append, List.takeWhile_cons_of_pos hc, List.takeWhile_cons_of_pos hc,
          List.dropWhile_cons_of_pos hc, List.dropWhile_cons_of_pos hc, htake]
        exact ⟨rfl, hdrop⟩
      · rw [List.cons_append, List.takeWhile_cons_of_neg hc, List.takeWhile_cons_of_neg hc,
          List.dropWhile_cons_of_neg hc, List.dropWhile_cons_of_neg hc]
        exact ⟨rfl, rfl⟩

/-! ## The first occurrence -/

theorem splitFirst?_more {needle t head rest : Text} (more : Text)
    (h : splitFirst? needle t = some (head, rest)) :
    splitFirst? needle (t ++ more) = some (head, rest ++ more) := by
  induction t generalizing head with
  | nil =>
      rw [splitFirst?] at h
      split at h
      · rename_i hempty
        cases h
        rw [List.isEmpty_iff.1 hempty]
        cases more <;> rfl
      · cases h
  | cons c t ih =>
      rw [splitFirst?] at h
      rw [List.cons_append, splitFirst?]
      split at h
      · rename_i hprefix
        cases h
        have hprefix : needle <+: c :: t := List.isPrefixOf_iff_prefix.1 hprefix
        have hmore : needle <+: c :: (t ++ more) := hprefix.trans (List.prefix_append (c :: t) more)
        rw [if_pos (List.isPrefixOf_iff_prefix.2 hmore), ← List.cons_append,
          List.drop_append_of_le_length hprefix.length_le]
      · rename_i hprefix
        obtain ⟨⟨head', rest'⟩, hsplit, hparts⟩ := Option.map_eq_some_iff.1 h
        cases hparts
        -- the literal may not reach into what is behind, since it ends in the text later on
        have hno : ¬ needle.isPrefixOf (c :: (t ++ more)) = true := by
          intro hmore
          have hlength := congrArg List.length (splitFirst?_eq_some hsplit)
          rw [List.length_append, List.length_append] at hlength
          refine hprefix (List.isPrefixOf_iff_prefix.2 (List.prefix_of_prefix_length_le
            (List.isPrefixOf_iff_prefix.1 hmore) (List.prefix_append (c :: t) more) ?_))
          rw [List.length_cons]
          omega
        rw [if_neg hno, ih hsplit]
        rfl

theorem splitFirst?_of_more {needle t head rest more : Text}
    (h : splitFirst? needle (t ++ more) = some (head, rest ++ more)) :
    splitFirst? needle t = some (head, rest) := by
  have ht : t = head ++ (needle ++ rest) := by
    have hall := splitFirst?_eq_some h
    rw [← List.append_assoc, ← List.append_assoc] at hall
    rw [List.append_cancel_right hall, List.append_assoc]
  -- the literal stands in the text, so that it has a first occurrence there
  have hholds : holds needle t = true := ht ▸ holds_append needle head rest
  obtain ⟨⟨head', rest'⟩, hsplit⟩ := Option.isSome_iff_exists.1 hholds
  have hparts := Option.some.inj ((splitFirst?_more more hsplit).symm.trans h)
  obtain ⟨rfl, hrest⟩ := Prod.mk.inj hparts
  rw [hsplit, List.append_cancel_right hrest]

/-! ## All occurrences -/

theorem occurrencesFrom_of_short {needle t : Text} (h : t.length < needle.length) (offset : Nat) :
    occurrencesFrom needle offset t = [] := by
  refine List.eq_nil_iff_forall_not_mem.2 fun i hi => ?_
  obtain ⟨n, -, -, hprefix⟩ := mem_occurrencesFrom.1 hi
  have hle := hprefix.length_le
  rw [List.length_drop] at hle
  omega

/-- In the longer text, further occurrences come behind those in the beginning; they all reach
    beyond it. -/
theorem exists_occurrencesFrom_more {needle : Text} (hne : needle ≠ []) (offset : Nat)
    (t more : Text) :
    ∃ further, occurrencesFrom needle offset (t ++ more) =
        occurrencesFrom needle offset t ++ further ∧
      ∀ i ∈ further, offset + t.length < i + needle.length := by
  have hpos := List.length_pos_iff.2 hne
  induction t generalizing offset with
  | nil =>
      rw [List.nil_append, occurrencesFrom_of_short (t := []) hpos]
      refine ⟨_, rfl, fun i hi => ?_⟩
      obtain ⟨n, -, rfl, -⟩ := mem_occurrencesFrom.1 hi
      rw [List.length_nil]
      omega
  | cons c t ih =>
      obtain ⟨further, hfurther, hbeyond⟩ := ih (offset + 1)
      have hbeyond : ∀ i ∈ further, offset + (c :: t).length < i + needle.length := by
        intro i hi
        have hlt := hbeyond i hi
        rw [List.length_cons]
        omega
      rw [List.cons_append, occurrencesFrom, hfurther]
      by_cases hprefix : needle <+: c :: t
      · have hmore : needle <+: c :: (t ++ more) := hprefix.trans (List.prefix_append (c :: t) more)
        refine ⟨further, ?_, hbeyond⟩
        rw [occurrencesFrom, if_pos (List.isPrefixOf_iff_prefix.2 hmore),
          if_pos (List.isPrefixOf_iff_prefix.2 hprefix), List.cons_append]
      · have hnone : needle.isPrefixOf (c :: t) ≠ true := fun h =>
          hprefix (List.isPrefixOf_iff_prefix.1 h)
        by_cases hmore : needle <+: c :: (t ++ more)
        · -- the literal begins here and ends behind the text, which is too short for it
          have hlong : (c :: t).length < needle.length := by
            refine Nat.lt_of_not_le fun hle => hprefix ?_
            exact List.prefix_of_prefix_length_le hmore (List.prefix_append (c :: t) more) hle
          have hshort : t.length < needle.length := by
            rw [List.length_cons] at hlong
            omega
          rw [if_pos (List.isPrefixOf_iff_prefix.2 hmore), occurrencesFrom, if_neg hnone,
            occurrencesFrom_of_short hshort, List.nil_append]
          refine ⟨offset :: further, rfl, List.forall_mem_cons.2 ⟨?_, hbeyond⟩⟩
          omega
        · refine ⟨further, ?_, hbeyond⟩
          rw [if_neg fun h => hmore (List.isPrefixOf_iff_prefix.1 h), occurrencesFrom,
            if_neg hnone]

theorem exists_occurrences_more {needle : Text} (hne : needle ≠ []) (t more : Text) :
    ∃ further, occurrences needle (t ++ more) = occurrences needle t ++ further ∧
      ∀ i ∈ further, t.length < i + needle.length := by
  obtain ⟨further, hfurther, hbeyond⟩ := exists_occurrencesFrom_more hne 0 t more
  refine ⟨further, hfurther, fun i hi => ?_⟩
  have hlt := hbeyond i hi
  omega

/-- An occurrence of a literal ends within the text. -/
theorem add_length_le_of_mem_occurrences {needle t : Text} (hne : needle ≠ []) {i : Nat}
    (h : i ∈ occurrences needle t) : i + needle.length ≤ t.length := by
  obtain ⟨n, -, rfl, hprefix⟩ := mem_occurrencesFrom.1 h
  have hpos := List.length_pos_iff.2 hne
  have hle := hprefix.length_le
  rw [List.length_drop] at hle
  omega

end Text

/-! ## Text between quotation marks -/

namespace Reader

theorem closing_more {t raw rest : Text} (h : closing ['\"'] 0 t = some (raw, rest))
    (more : Text) : closing ['\"'] 0 (t ++ more) = some (raw, rest ++ more) := by
  match t with
  | [] => cases h
  | c :: t =>
      rw [List.cons_append]
      by_cases hmark : c = '\"'
      · subst hmark
        rw [closing_mark] at h ⊢
        cases h
        rfl
      · by_cases hbackslash : c = '\\'
        · -- a backslash takes the next character along, whatever it is
          subst hbackslash
          match t with
          | [] => cases h
          | d :: t =>
              rw [closing_escaped] at h
              obtain ⟨⟨raw', rest'⟩, hclosing, hparts⟩ := Option.map_eq_some_iff.1 h
              cases hparts
              rw [List.cons_append, closing_escaped, closing_more hclosing more]
              rfl
        · rw [closing_plain hmark hbackslash] at h ⊢
          obtain ⟨⟨raw', rest'⟩, hclosing, hparts⟩ := Option.map_eq_some_iff.1 h
          cases hparts
          rw [closing_more hclosing more]
          rfl

end Reader

end Klartext
