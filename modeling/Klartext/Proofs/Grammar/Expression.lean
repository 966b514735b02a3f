import Klartext.Grammar.Nesting
import Klartext.Proofs.Grammar.Literal

set_option autoImplicit false

/-! # Written expressions are read back

Every layer reads the text of its expressions back, down to the number with too many digits if
there is one. The induction is on how an expression is layered, over all limits and all texts that
may follow: an operand of a spoken operation is followed by ` und `, which the layers above it would
take for an operator of their own, but these are not asked for an operand.

What may follow an expression depends on the layer (`Layer.Ends`): it must not go on with a number,
nor with an operator of the layer or of one that binds more tightly. -/

namespace Klartext

open Reader Grammar Surface

/-! ## What may follow -/

/-- None of the operators stands behind whitespace at the front of the text. -/
def NoOperator (operators : List (String × Operator)) (t : Text) : Prop :=
  ∀ form ∈ operators, (do let _ ← blanks1; phrase form.1 : Reader Unit) t = .missed

theorem noOperator_of_blanks1_missed {operators : List (String × Operator)} {t : Text}
    (h : blanks1 t = .missed) : NoOperator operators t :=
  fun _ _ => bind_missed h

theorem noOperator_space {operators : List (String × Operator)} {t : Text}
    (hflush : Text.Flush t) (h : ∀ form ∈ operators, phrase form.1 t = .missed) :
    NoOperator operators (' ' :: t) :=
  fun form hform => (bind_found (blanks1_space hflush)).trans (h form hform)

/-- What may follow an expression of a layer. -/
structure Layer.Ends (layer : Layer) (t : Text) : Prop where
  number : EndsNumber t
  comparison : layer.tightness ≤ Layer.comparison.tightness → NoOperator comparisonOperators t
  logical : layer.tightness ≤ Layer.logical.tightness → NoOperator logicalOperators t

/-- Behind an operand that is not asked for an operator, any text may follow that does not go on
    with a number. -/
theorem Layer.Ends.of_tight {layer : Layer} {t : Text}
    (hlayer : Layer.comparison.tightness < layer.tightness) (ht : EndsNumber t) :
    layer.Ends t := by
  refine ⟨ht, ?_, ?_⟩
  · intro h
    omega
  · intro h
    exact absurd (Nat.lt_of_lt_of_le hlayer h) (by decide)

theorem Layer.Ends.mono {layer layer' : Layer} {t : Text}
    (h : layer.tightness ≤ layer'.tightness) (ht : layer.Ends t) : layer'.Ends t :=
  ⟨ht.number, fun h' => ht.comparison (Nat.le_trans h h'),
    fun h' => ht.logical (Nat.le_trans h h')⟩

/-- Nothing or an exclamation mark may follow every expression. -/
theorem Layer.ends_of_mark (layer : Layer) {t : Text} (ht : t = [] ∨ ∃ u, t = '!' :: u) :
    layer.Ends t := by
  have hblanks : blanks1 t = .missed := by
    rcases ht with rfl | ⟨u, rfl⟩ <;> rfl
  refine ⟨?_, fun _ => noOperator_of_blanks1_missed hblanks,
    fun _ => noOperator_of_blanks1_missed hblanks⟩
  rcases ht with rfl | ⟨u, rfl⟩
  · exact EndsNumber.nil
  · exact EndsNumber.cons (by decide) (by decide) (by decide)

/-! ## From layer to layer -/

namespace Grammar

variable {nested : Nested} {o o' : Option Nat} {a b : Node} {t u : Text}

theorem tail_of_noOperator {operators : List (String × Operator)} {right : Reader Node}
    (h : NoOperator operators t) : tail operators right a t = .found a t := by
  have hmissed : firstOf (operators.map fun operator => (do
      let _ ← blanks1
      phrase operator.1
      let _ ← blanks1
      return .operation operator.2 a (← right) : Reader Node)) t = .missed := by
    refine firstOf_eq_missed ?_
    intro r hr
    obtain ⟨form, hform, rfl⟩ := List.mem_map.1 hr
    rw [bind_assoc_apply]
    exact bind_missed (h form hform)
  exact orElse_of_missed hmissed

/-- An operator between its operands is read if no operator tried before it is there. -/
theorem tail_of_operator {operators : List (String × Operator)} {op : Operator}
    {right : Reader Node} (before after : List (String × Operator))
    (hoperators : operators = before ++ (op.phrase, op) :: after)
    (hbefore : ∀ form ∈ before, phrase form.1 (op.phrase.toList ++ ' ' :: t) = .missed)
    (hflush : Text.Flush t) (hright : right t = .checked o b u) :
    tail operators right a (' ' :: (op.phrase.toList ++ ' ' :: t)) =
      .checked o (.operation op a b) u := by
  have hphrase : Text.Flush (op.phrase.toList ++ ' ' :: t) := by
    cases op <;> exact Text.flush_cons (by decide)
  rw [tail, hoperators, List.map_append, List.map_cons]
  refine orElse_of_checked (firstOf_append_of_checked ?_ ?_)
  · intro r hr
    obtain ⟨form, hform, rfl⟩ := List.mem_map.1 hr
    rw [bind_assoc_apply]
    exact bind_missed ((bind_found (blanks1_space hphrase)).trans (hbefore form hform))
  · rw [bind_found (blanks1_space hphrase),
      bind_found (phrase_append op.normalize_phrase _), bind_found (blanks1_space hflush)]
    exact bind_checked_pure hright

theorem comparison_of_arithmetic (h : arithmetic nested t = .checked o a u)
    (hu : NoOperator comparisonOperators u) : comparison nested t = .checked o a u :=
  bind_checked_found h (tail_of_noOperator hu)

theorem logical_of_comparison (h : comparison nested t = .checked o a u)
    (hu : NoOperator logicalOperators u) : logical nested t = .checked o a u :=
  bind_checked_found h (tail_of_noOperator hu)

theorem spoken_missed {form : String × Operator} {operand : Reader Node}
    (h : phrase form.1 t = .missed) : spoken form operand t = .missed :=
  bind_missed h

theorem arithmetic_eq_concat (h : ∀ form ∈ arithmeticForms, phrase form.1 t = .missed) :
    arithmetic nested t = concat nested t := by
  refine orElse_of_missed (firstOf_eq_missed ?_)
  intro r hr
  obtain ⟨form, hform, rfl⟩ := List.mem_map.1 hr
  exact spoken_missed (h form hform)

/-- Both operands of a spoken operation are read, the left one up to the `und` behind it. -/
theorem spoken_of_operands (op : Operator) {operand : Reader Node} {left right : Text}
    (hflushLeft : Text.Flush left) (hneLeft : left ≠ [])
    (hflushRight : Text.Flush right) (hneRight : right ≠ [])
    (hleft : operand (left ++ (" und ".toList ++ (right ++ t))) =
      .checked o a (" und ".toList ++ (right ++ t)))
    (hright : operand (right ++ t) = .checked o' b t) :
    spoken (op.phrase, op) operand
        (op.phrase.toList ++ ' ' :: (left ++ (" und ".toList ++ (right ++ t)))) =
      .checked (o.or o') (.operation op a b) t := by
  have hund : " und ".toList ++ (right ++ t) = ' ' :: ("und".toList ++ ' ' :: (right ++ t)) := rfl
  have hflushUnd : Text.Flush ("und".toList ++ ' ' :: (right ++ t)) :=
    Text.flush_cons (by decide)
  rw [spoken, bind_found (phrase_append op.normalize_phrase _),
    bind_found (blanks1_space (hflushLeft.append hneLeft _))]
  refine bind_checked hleft ?_
  rw [hund, bind_found (blanks1_space hflushUnd), bind_found (phrase_append rfl _),
    bind_found (blanks1_space (hflushRight.append hneRight t))]
  exact bind_checked_pure hright

/-! ### What a tighter layer reads -/

section Lift

variable {layer : Layer}

theorem expression_of_comparison (hlayer : layer.tightness ≤ Layer.comparison.tightness)
    (h : comparison nested t = .checked o a u) (hu : layer.Ends u) :
    expression nested layer t = .checked o a u := by
  cases layer with
  | logical => exact logical_of_comparison h (hu.logical (by decide))
  | comparison => exact h
  | _ => exact absurd hlayer (by decide)

theorem expression_of_arithmetic (hlayer : layer.tightness ≤ Layer.arithmetic.tightness)
    (h : arithmetic nested t = .checked o a u) (hu : layer.Ends u) :
    expression nested layer t = .checked o a u := by
  by_cases htight : layer.tightness ≤ Layer.comparison.tightness
  · exact expression_of_comparison htight
      (comparison_of_arithmetic h (hu.comparison htight)) hu
  · cases layer with
    | arithmetic => exact h
    | logical => exact absurd (by decide) htight
    | comparison => exact absurd (by decide) htight
    | _ => exact absurd hlayer (by decide)

theorem expression_of_concat (hlayer : layer.tightness ≤ Layer.concat.tightness)
    (hforms : ∀ form ∈ arithmeticForms, phrase form.1 t = .missed)
    (h : concat nested t = .checked o a u) (hu : layer.Ends u) :
    expression nested layer t = .checked o a u := by
  by_cases htight : layer.tightness ≤ Layer.arithmetic.tightness
  · exact expression_of_arithmetic htight ((arithmetic_eq_concat hforms).trans h) hu
  · cases layer with
    | concat => exact h
    | logical => exact absurd (by decide) htight
    | comparison => exact absurd (by decide) htight
    | arithmetic => exact absurd (by decide) htight
    | _ => exact absurd hlayer (by decide)

/-- The words with which the forms above the reference layer begin. -/
def formOpenings : List Text := ["die".toList, "das".toList, "der".toList, "führe".toList]

theorem expression_of_reference (hlayer : layer.tightness ≤ Layer.reference.tightness)
    (hopenings : ∀ k ∈ formOpenings, ¬ k <+: t)
    (h : reference t = .checked o a u) (hu : layer.Ends u) :
    expression nested layer t = .checked o a u := by
  -- every looser form begins with one of four words, of which none stands here
  have hdie := hopenings "die".toList (by simp [formOpenings])
  have hdas := hopenings "das".toList (by simp [formOpenings])
  have hder := hopenings "der".toList (by simp [formOpenings])
  have hcall : call nested t = .checked o a u :=
    (orElse_of_missed (bind_missed (phrase_missed rfl
      (hopenings "führe".toList (by simp [formOpenings]))))).trans h
  by_cases htight : layer.tightness ≤ Layer.concat.tightness
  · refine expression_of_concat htight ?_ ?_ hu
    · intro form hform
      simp only [arithmeticForms, List.mem_cons, List.not_mem_nil, or_false] at hform
      rcases hform with rfl | rfl | rfl | rfl
      · exact phrase_missed rfl hdie
      · exact phrase_missed rfl hdie
      · exact phrase_missed rfl hdas
      · exact phrase_missed rfl hder
    · exact (orElse_of_missed (spoken_missed (phrase_missed rfl hdie))).trans hcall
  · cases layer with
    | call => exact hcall
    | reference => exact h
    | primitive => exact absurd hlayer (by decide)
    | _ => exact absurd (by decide) htight

end Lift

/-- Nothing is read where no form begins. -/
theorem logical_missed (hforms : ∀ form ∈ concatForm :: arithmeticForms, phrase form.1 t = .missed)
    (hcall : phrase "führe" t = .missed) (hslash : phrase "/" t = .missed)
    (hprimitive : primitive t = .missed) : logical nested t = .missed := by
  obtain ⟨hconcat, harithmetic⟩ := List.forall_mem_cons.1 hforms
  have hreference : reference t = .missed :=
    (orElse_of_missed (bind_missed hslash)).trans hprimitive
  have hcallLayer : call nested t = .missed :=
    (orElse_of_missed (bind_missed hcall)).trans hreference
  have hconcatLayer : concat nested t = .missed :=
    (orElse_of_missed (spoken_missed hconcat)).trans hcallLayer
  have harithmeticLayer : arithmetic nested t = .missed :=
    (arithmetic_eq_concat harithmetic).trans hconcatLayer
  exact bind_missed (bind_missed harithmeticLayer)

end Grammar

/-! ## Literals and references -/

namespace Surface

theorem Literal.not_prefix (l : Literal) {k : Text} (hk : k ∈ "/".toList :: formOpenings)
    (t : Text) : ¬ k <+: l.text ++ t := by
  simp only [formOpenings, List.mem_cons, List.not_mem_nil, or_false] at hk
  cases l with
  | number n =>
      obtain ⟨c, u, hnumber, hc⟩ := n.head
      have htext : (Literal.number n).text = c :: u := hnumber
      have hdigit : ∀ d v, k = d :: v → d.isDigit = false := by
        rcases hk with rfl | rfl | rfl | rfl | rfl <;> rintro d v ⟨⟩ <;> decide
      cases k with
      | nil => simp at hk
      | cons d v =>
          rw [htext, List.cons_append, List.cons_prefix_cons]
          rintro ⟨rfl, _⟩
          simp [hc] at hdigit
  | string content => rcases hk with rfl | rfl | rfl | rfl | rfl <;> rintro ⟨u, ⟨⟩⟩
  | boolean b =>
      cases b <;> rcases hk with rfl | rfl | rfl | rfl | rfl <;> rintro ⟨u, ⟨⟩⟩
  | null => rcases hk with rfl | rfl | rfl | rfl | rfl <;> rintro ⟨u, ⟨⟩⟩

theorem Literal.read_layer (l : Literal) (layer : Layer) (nested : Nested) {t : Text}
    (ht : layer.Ends t) :
    expression nested layer (l.text ++ t) = .checked l.overlong? (.literal l.value) t := by
  have hprimitive := l.read ht.number
  have hreference : reference (l.text ++ t) = .checked l.overlong? (.literal l.value) t :=
    (orElse_of_missed (bind_missed (phrase_missed rfl
      (l.not_prefix List.mem_cons_self t)))).trans hprimitive
  by_cases htight : layer.tightness ≤ Layer.reference.tightness
  · exact expression_of_reference htight
      (fun k hk => l.not_prefix (List.mem_cons_of_mem _ hk) t) hreference ht
  · cases layer with
    | primitive => exact hprimitive
    | _ => exact absurd (by decide) htight

theorem SlashedName.read (name : SlashedName) (t : Text) :
    reference ('/' :: (name.text ++ '/' :: t)) =
      .found (.reference (String.ofList name.text)) t := by
  have habsent : Text.Absent "/".toList name.text ("/".toList ++ t) :=
    Text.absent_of_not_mem name.no_slash
  have hexcluded : ∀ s ∈ ["!".toList], Text.holds s name.text = false := by
    intro s hs
    rw [List.mem_singleton.1 hs]
    exact Text.holds_eq_false (by decide) (Text.absent_of_not_mem name.no_mark)
  have hname := nameUntil_append (by decide) name.ne_nil name.normal habsent hexcluded
  have hread : variableReference ('/' :: (name.text ++ '/' :: t)) =
      .checked none (.reference (String.ofList name.text)) t := by
    refine (bind_found (phrase_append rfl (name.text ++ '/' :: t))).trans ?_
    exact bind_checked_pure (o := none) hname
  exact orElse_of_checked hread

theorem SlashedName.read_layer (name : SlashedName) {layer : Layer} (nested : Nested) {t : Text}
    (hlayer : layer.tightness ≤ Layer.reference.tightness) (ht : layer.Ends t) :
    expression nested layer ('/' :: (name.text ++ '/' :: t)) =
      .found (.reference (String.ofList name.text)) t := by
  refine expression_of_reference (o := none) hlayer ?_ (name.read t) ht
  intro k hk
  simp only [formOpenings, List.mem_cons, List.not_mem_nil, or_false] at hk
  rcases hk with rfl | rfl | rfl | rfl <;> simp

/-! ## Operations -/

theorem arithmetic_of_spoken {op : Operator} (hop : op.family = .arithmetic) {nested : Nested}
    {t u : Text} {o : Option Nat} {a : Node}
    (h : spoken (op.phrase, op) (nested.expression .arithmetic) (op.phrase.toList ++ t) =
      .checked o a u) :
    arithmetic nested (op.phrase.toList ++ t) = .checked o a u := by
  refine orElse_of_checked ?_
  cases op with
  | add => exact firstOf_of_checked h
  | subtract => exact (firstOf_of_missed rfl).trans (firstOf_of_checked h)
  | multiply =>
      exact (firstOf_of_missed rfl).trans ((firstOf_of_missed rfl).trans (firstOf_of_checked h))
  | divide =>
      exact (firstOf_of_missed rfl).trans ((firstOf_of_missed rfl).trans
        ((firstOf_of_missed rfl).trans (firstOf_of_checked h)))
  | _ => cases hop

theorem expression_of_spoken_concat {op : Operator} (hop : op.family = .string) {nested : Nested}
    {layer : Layer} (hlayer : layer.tightness ≤ Layer.concat.tightness) {t u : Text}
    {o : Option Nat} {a : Node}
    (h : spoken (op.phrase, op) (nested.expression .concat) (op.phrase.toList ++ t) =
      .checked o a u) (hu : layer.Ends u) :
    expression nested layer (op.phrase.toList ++ t) = .checked o a u := by
  cases op with
  | concat =>
      refine expression_of_concat hlayer ?_ (orElse_of_checked h) hu
      simp only [arithmeticForms, List.forall_mem_cons]
      exact ⟨rfl, rfl, rfl, rfl, List.forall_mem_nil _⟩
  | _ => cases hop

theorem not_isPrefix_oder {t : Text} (h : Opening t) : ¬ "oder".toList <+: t := by
  obtain ⟨c, u, rfl, hc⟩ := h
  intro hprefix
  obtain ⟨rfl, _⟩ := List.cons_prefix_cons.1 hprefix
  exact absurd hc (by decide)

theorem comparison_of_operands {op : Operator} (hop : op.family = .comparison) {nested : Nested}
    {left t u : Text} {o o' : Option Nat} {a b : Node} (ht : Opening t)
    (hleft : arithmetic nested (left ++ ' ' :: (op.phrase.toList ++ ' ' :: t)) =
      .checked o a (' ' :: (op.phrase.toList ++ ' ' :: t)))
    (hright : nested.expression .comparison t = .checked o' b u) :
    comparison nested (left ++ ' ' :: (op.phrase.toList ++ ' ' :: t)) =
      .checked (o.or o') (.operation op a b) u := by
  -- the one phrase that goes on where another one ends, and that is tried before it
  have hlonger {s p : String} {others : List Text}
      (hwords : Text.words s.toList = Text.words p.toList ++ "oder".toList :: others)
      (hp : Text.normalize p.toList = p.toList) (hne : Text.words p.toList ≠ []) :
      phrase s (p.toList ++ ' ' :: t) = .missed :=
    phrase_longer hwords hp hne ht.flush (not_isPrefix_oder ht)
  have hgreater : phrase "größer als oder gleich" ("größer als".toList ++ ' ' :: t) = .missed :=
    hlonger rfl rfl (by decide)
  have hless : phrase "kleiner als oder gleich" ("kleiner als".toList ++ ' ' :: t) = .missed :=
    hlonger rfl rfl (by decide)
  refine bind_checked hleft ?_
  cases op with
  | unequal => exact tail_of_operator [] _ rfl (by simp) ht.flush hright
  | equal =>
      refine tail_of_operator (comparisonOperators.take 1) _ rfl ?_ ht.flush hright
      simp only [comparisonOperators, List.take, List.forall_mem_cons]
      exact ⟨rfl, List.forall_mem_nil _⟩
  | atLeast =>
      refine tail_of_operator (comparisonOperators.take 2) _ rfl ?_ ht.flush hright
      simp only [comparisonOperators, List.take, List.forall_mem_cons]
      exact ⟨rfl, rfl, List.forall_mem_nil _⟩
  | greater =>
      refine tail_of_operator (comparisonOperators.take 3) _ rfl ?_ ht.flush hright
      simp only [comparisonOperators, List.take, List.forall_mem_cons]
      exact ⟨rfl, rfl, hgreater, List.forall_mem_nil _⟩
  | atMost =>
      refine tail_of_operator (comparisonOperators.take 4) _ rfl ?_ ht.flush hright
      simp only [comparisonOperators, List.take, List.forall_mem_cons]
      exact ⟨rfl, rfl, rfl, rfl, List.forall_mem_nil _⟩
  | less =>
      refine tail_of_operator (comparisonOperators.take 5) _ rfl ?_ ht.flush hright
      simp only [comparisonOperators, List.take, List.forall_mem_cons]
      exact ⟨rfl, rfl, rfl, rfl, hless, List.forall_mem_nil _⟩
  | _ => cases hop

theorem logical_of_operands {op : Operator} (hop : op.family = .logical) {nested : Nested}
    {left t u : Text} {o o' : Option Nat} {a b : Node} (ht : Text.Flush t)
    (hleft : comparison nested (left ++ ' ' :: (op.phrase.toList ++ ' ' :: t)) =
      .checked o a (' ' :: (op.phrase.toList ++ ' ' :: t)))
    (hright : nested.expression .logical t = .checked o' b u) :
    logical nested (left ++ ' ' :: (op.phrase.toList ++ ' ' :: t)) =
      .checked (o.or o') (.operation op a b) u := by
  refine bind_checked hleft ?_
  cases op with
  | both => exact tail_of_operator [] _ rfl (by simp) ht hright
  | either =>
      refine tail_of_operator (logicalOperators.take 1) _ rfl ?_ ht hright
      intro form hform
      rw [List.mem_singleton.1 hform]
      rfl
  | _ => cases hop

/-! ## All expressions -/

theorem ends_space {layer : Layer} (hlayer : Layer.comparison.tightness < layer.tightness)
    (t : Text) : layer.Ends (' ' :: t) :=
  Layer.Ends.of_tight hlayer (EndsNumber.cons (by decide) (by decide) (by decide))

/-- An expression ends before a comma behind which no digit stands. -/
theorem ends_comma {layer : Layer} {t : Text} (ht : ∀ c ∈ t.head?, c = ' ') :
    layer.Ends (',' :: t) := by
  have hblanks : blanks1 (',' :: t) = .missed := rfl
  refine ⟨⟨by simp [Text.EndsDigits], ?_⟩, fun _ => noOperator_of_blanks1_missed hblanks,
    fun _ => noOperator_of_blanks1_missed hblanks⟩
  rintro u ⟨⟩ c hc
  rw [ht c hc]
  decide

theorem within_room (limit : Nat) : (within limit).room = limit := by
  cases limit <;> rfl

/-- The left operand of `und` or `oder` ends before it. -/
theorem comparison_ends_logical {op : Operator} (hop : op.family = .logical) (t : Text) :
    Layer.comparison.Ends (' ' :: (op.phrase.toList ++ ' ' :: t)) := by
  refine ⟨EndsNumber.cons (by decide) (by decide) (by decide), fun _ => ?_, ?_⟩
  · cases op with
    | both =>
        refine noOperator_space (Text.flush_cons (by decide)) ?_
        simp only [comparisonOperators, List.forall_mem_cons]
        exact ⟨rfl, rfl, rfl, rfl, rfl, rfl, List.forall_mem_nil _⟩
    | either =>
        refine noOperator_space (Text.flush_cons (by decide)) ?_
        simp only [comparisonOperators, List.forall_mem_cons]
        exact ⟨rfl, rfl, rfl, rfl, rfl, rfl, List.forall_mem_nil _⟩
    | _ => cases hop
  · intro h
    exact absurd h (by decide)

/-- The left operand of an operator that stands between its operands ends before it. -/
theorem leftLayer_ends {op : Operator} (hop : op.family.isSpoken = false) (t : Text) :
    op.family.leftLayer.Ends (' ' :: (op.phrase.toList ++ ' ' :: t)) := by
  cases hfamily : op.family with
  | comparison => exact ends_space (by decide) _
  | logical => exact comparison_ends_logical hfamily t
  | _ => simp [hfamily, Operator.Family.isSpoken] at hop

/-- Every layer up to that of a spoken operation reads it. -/
theorem expression_of_spoken {op : Operator} (hop : op.family.isSpoken = true) {nested : Nested}
    {layer : Layer} (hlayer : layer.tightness ≤ op.family.layer.tightness) {t u : Text}
    {o : Option Nat} {a : Node}
    (h : spoken (op.phrase, op) (nested.expression op.family.layer) (op.phrase.toList ++ t) =
      .checked o a u) (hu : layer.Ends u) :
    expression nested layer (op.phrase.toList ++ t) = .checked o a u := by
  cases hfamily : op.family with
  | arithmetic =>
      rw [hfamily] at h hlayer
      exact expression_of_arithmetic hlayer (arithmetic_of_spoken hfamily h) hu
  | string =>
      rw [hfamily] at h hlayer
      exact expression_of_spoken_concat hfamily hlayer h hu
  | _ => simp [hfamily, Operator.Family.isSpoken] at hop

/-- Every layer up to that of an operation reads its operator between the operands. -/
theorem expression_of_operands {op : Operator} (hop : op.family.isSpoken = false)
    {nested : Nested} {layer : Layer} (hlayer : layer.tightness ≤ op.family.layer.tightness)
    {left t u : Text} {o o' : Option Nat} {a b : Node} (ht : Opening t)
    (hleft : expression nested op.family.leftLayer
        (left ++ ' ' :: (op.phrase.toList ++ ' ' :: t)) =
      .checked o a (' ' :: (op.phrase.toList ++ ' ' :: t)))
    (hright : nested.expression op.family.layer t = .checked o' b u) (hu : layer.Ends u) :
    expression nested layer (left ++ ' ' :: (op.phrase.toList ++ ' ' :: t)) =
      .checked (o.or o') (.operation op a b) u := by
  cases hfamily : op.family with
  | comparison =>
      rw [hfamily] at hlayer hleft hright
      exact expression_of_comparison hlayer (comparison_of_operands hfamily ht hleft hright) hu
  | logical =>
      rw [hfamily] at hlayer hleft hright
      cases layer with
      | logical => exact logical_of_operands hfamily ht.flush hleft hright
      | _ => exact absurd hlayer (by decide)
  | _ => simp [hfamily, Operator.Family.isSpoken] at hop

theorem Expression.flush (e : Expression) : Text.Flush e.text := e.opening.flush

theorem Expression.text_ne_nil (e : Expression) : e.text ≠ [] := by
  obtain ⟨c, u, htext, _⟩ := e.opening
  simp [htext]

/-- Both operands of a spoken operation are of its own layer. -/
theorem leftLayer_of_isSpoken {family : Operator.Family} (h : family.isSpoken = true) :
    family.leftLayer = family.layer ∧ Layer.comparison.tightness < family.layer.tightness := by
  cases family with
  | arithmetic => exact ⟨rfl, by decide⟩
  | string => exact ⟨rfl, by decide⟩
  | _ => cases h

/-- Every layer reads the text of its expressions. -/
theorem Layered.read {layer : Layer} {e : Expression} (h : Layered layer e) {limit : Nat}
    (hdepth : e.depth < limit) {t : Text} (ht : layer.Ends t) :
    (within limit).expression layer (e.text ++ t) = .checked e.overlong? e.node t := by
  induction h generalizing limit t with
  | literal layer l =>
      obtain ⟨limit, rfl⟩ := Nat.exists_eq_succ_of_ne_zero (Nat.ne_zero_of_lt hdepth)
      exact l.read_layer layer (within limit) ht
  | reference name hlayer =>
      obtain ⟨limit, rfl⟩ := Nat.exists_eq_succ_of_ne_zero (Nat.ne_zero_of_lt hdepth)
      rw [Expression.text_reference]
      exact name.read_layer (within limit) hlayer ht
  | @operation layer op left right hlayer _ _ ihleft ihright =>
      obtain ⟨limit, rfl⟩ := Nat.exists_eq_succ_of_ne_zero (Nat.ne_zero_of_lt hdepth)
      -- what may follow the operation may follow its right operand
      have hends := ht.mono hlayer
      by_cases hspoken : op.family.isSpoken = true
      · -- both operands lie one level deeper
        obtain ⟨hleftLayer, htight⟩ := leftLayer_of_isSpoken hspoken
        rw [hleftLayer] at ihleft
        rw [Expression.depth_spoken hspoken] at hdepth
        have hdeeper : left.depth < limit ∧ right.depth < limit := by omega
        rw [Expression.text_spoken hspoken]
        refine expression_of_spoken hspoken hlayer ?_ ht
        exact spoken_of_operands op left.flush left.text_ne_nil right.flush right.text_ne_nil
          (ihleft hdeeper.1 (ends_space htight _)) (ihright hdeeper.2 hends)
      · -- the left operand stands on the level of the operation
        have hbetween : op.family.isSpoken = false := by simpa using hspoken
        rw [Expression.depth_between hbetween] at hdepth
        have hdeeper : left.depth < limit + 1 ∧ right.depth < limit := by omega
        rw [Expression.text_between hbetween]
        exact expression_of_operands hbetween hlayer (right.opening.append t)
          (ihleft hdeeper.1 (leftLayer_ends hbetween _)) (ihright hdeeper.2 hends) ht

/-- A whole expression, at the end of the text or before an exclamation mark, is read back as it is
    meant, unless a number has too many digits behind its comma. -/
theorem read_expression {e : Expression} (h : Layered .logical e) {limit : Nat}
    (hdepth : e.depth < limit) {t : Text} (ht : t = [] ∨ ∃ u, t = '!' :: u) :
    (within limit).expression .logical (e.text ++ t) = .checked e.overlong? e.node t :=
  h.read hdepth (Layer.ends_of_mark .logical ht)

/-- A sum compared with a product, and a truth value behind an `und`. Of the three `und` in its text
    the first two stand between operands, and only the last is an operator. -/
def comparedSum : Expression :=
  let x : SlashedName := ⟨"x".toList, rfl, by decide, by decide, by decide⟩
  .operation .both
    (.operation .atMost (.operation .add (.reference x) (.reference x))
      (.operation .multiply (.reference x) (.reference x)))
    (.literal (.boolean true))

theorem comparedSum_layered : Layered .logical comparedSum := by
  refine .operation (by decide) (.operation (by decide) ?_ ?_) (.literal _ _)
  · exact .operation (by decide) (.reference _ (by decide)) (.reference _ (by decide))
  · exact .operation (by decide) (.reference _ (by decide)) (.reference _ (by decide))

theorem read_expression_comparedSum :
    comparedSum.depth < depthLimit ∧
    String.ofList comparedSum.text = "die Summe von /x/ und /x/ kleiner als oder gleich "
      ++ "das Produkt aus /x/ und /x/ und wahr" ∧
    (within depthLimit).expression .logical (comparedSum.text ++ ['!']) =
      .found (.operation .both
        (.operation .atMost (.operation .add (.reference "x") (.reference "x"))
          (.operation .multiply (.reference "x") (.reference "x")))
        (.literal (.boolean true))) ['!'] :=
  ⟨by decide, by decide +kernel,
    read_expression comparedSum_layered (by decide) (.inr ⟨[], rfl⟩)⟩

end Surface

end Klartext
