import Klartext.Proofs.Depth.Reader
import Klartext.Source

set_option autoImplicit false

/-! # The grammar with more levels of nesting

Every rule keeps `Reader.Deepens` from the readers for what is nested in it, so that by induction the
grammar for more levels of nesting deepens the one for fewer. -/

namespace Klartext

open Reader

/-- The second of two families of readers deepens the first one and has at least its room. -/
structure Nested.Deepens (nested nested' : Nested) : Prop where
  room : nested.room ≤ nested'.room
  expression : ∀ layer, Reader.Deepens (nested.expression layer) (nested'.expression layer)
  statement : Reader.Deepens nested.statement nested'.statement

namespace Grammar

/-! ## Operations -/

theorem deepens_spoken (form : String × Operator) {operand operand' : Reader Node}
    (h : Deepens operand operand') : Deepens (spoken form operand) (spoken form operand') :=
  deepens_bind fun _ => deepens_bind fun _ => h.bind fun _ =>
    deepens_bind fun _ => deepens_bind fun _ => deepens_bind fun _ => h.andThen

theorem deepens_tail (operators : List (String × Operator)) {right right' : Reader Node}
    (h : Deepens right right') (left : Node) :
    Deepens (tail operators right left) (tail operators right' left) :=
  (deepens_firstOf fun _ _ => deepens_bind fun _ => deepens_bind fun _ => deepens_bind fun _ =>
    h.andThen).orElse (deepens_refl _)

/-! ## The rules -/

section Rules

variable {nested nested' : Nested} (h : nested.Deepens nested')
include h

theorem deepens_functionCall : Deepens (functionCall nested) (functionCall nested') := by
  refine deepens_bind fun _ => deepens_bind fun _ => .orElse ?_ (deepens_refl _)
  exact deepens_bind fun name => (((h.expression .logical).listUntil h.room _).orRefuse _).andThen

theorem deepens_call : Deepens (call nested) (call nested') :=
  (deepens_functionCall h).orElse (deepens_refl reference)

theorem deepens_concat : Deepens (concat nested) (concat nested') :=
  (deepens_spoken concatForm (h.expression .concat)).orElse (deepens_call h)

theorem deepens_arithmetic : Deepens (arithmetic nested) (arithmetic nested') :=
  (deepens_firstOf fun form _ => deepens_spoken form (h.expression .arithmetic)).orElse
    (deepens_concat h)

theorem deepens_comparison : Deepens (comparison nested) (comparison nested') :=
  (deepens_arithmetic h).bind (deepens_tail comparisonOperators (h.expression .comparison))

theorem deepens_logical : Deepens (logical nested) (logical nested') :=
  (deepens_comparison h).bind (deepens_tail logicalOperators (h.expression .logical))

theorem deepens_expression (layer : Layer) :
    Deepens (expression nested layer) (expression nested' layer) := by
  cases layer with
  | logical => exact deepens_logical h
  | comparison => exact deepens_comparison h
  | arithmetic => exact deepens_arithmetic h
  | concat => exact deepens_concat h
  | call => exact deepens_call h
  | reference => exact deepens_refl reference
  | primitive => exact deepens_refl primitive

theorem deepens_evaluation : Deepens (evaluation nested) (evaluation nested') :=
  (h.expression .logical).andThen

theorem deepens_definition : Deepens (definition nested) (definition nested') :=
  deepens_bind fun _ => deepens_bind fun _ => deepens_bind fun _ => deepens_bind fun _ =>
    (h.expression .logical).andThen

theorem deepens_signature : Deepens (signature nested.room) (signature nested'.room) := by
  refine .orElse ?_ (deepens_refl _)
  exact deepens_bind fun name => ((deepens_refl plainName).listUntil h.room _).andThen

theorem deepens_function : Deepens (function nested) (function nested') := by
  refine deepens_bind fun _ => deepens_bind fun _ => (deepens_signature h).bind ?_
  exact fun (_, _) => (h.statement.manyUntil _).andThen

theorem deepens_giveBack : Deepens (giveBack nested) (giveBack nested') :=
  deepens_bind fun _ => deepens_bind fun _ => (h.expression .logical).andThen

theorem deepens_print : Deepens (print nested) (print nested') :=
  deepens_bind fun _ => deepens_bind fun _ => ((h.expression .logical).listUntil h.room _).andThen

theorem deepens_clause : Deepens (clause nested) (clause nested') :=
  deepens_bind fun _ => deepens_bind fun _ => (h.expression .logical).andThen

theorem deepens_body : Deepens (body nested) (body nested') :=
  h.statement.manyUntil "oder"

theorem deepens_elseIf : Deepens (elseIf nested) (elseIf nested') :=
  deepens_bind fun _ => deepens_bind fun _ => deepens_bind fun _ =>
    (deepens_clause h).bind fun _ => (deepens_body h).andThen

theorem deepens_otherwise : Deepens (otherwise nested) (otherwise nested') :=
  deepens_bind fun _ => deepens_bind fun _ => deepens_body h

theorem deepens_conditional : Deepens (conditional nested) (conditional nested') :=
  deepens_bind fun _ => deepens_bind fun _ => (deepens_clause h).bind fun _ =>
    (deepens_body h).bind fun _ => (deepens_elseIf h).many.bind fun _ =>
      (deepens_otherwise h).optional.andThen

theorem deepens_statement : Deepens (statement nested) (statement nested') := by
  have hclosed {p q : Reader Node} (h : Deepens p q) : Deepens (closed p) (closed q) := h.andThen
  refine deepens_bind fun _ => ?_
  exact (hclosed (deepens_evaluation h)).orElse <| (hclosed (deepens_conditional h)).orElse <|
    (hclosed (deepens_function h)).orElse <| (hclosed (deepens_definition h)).orElse <|
    (hclosed (deepens_giveBack h)).orElse <| (hclosed (deepens_print h)).orElse (deepens_refl miss)

end Rules

/-! ## Levels -/

/-- More levels of nesting deepen fewer. -/
theorem deepens_within {a b : Nat} (hab : a ≤ b) : (within a).Deepens (within b) := by
  induction a generalizing b with
  | zero => exact ⟨Nat.zero_le _, fun _ => deepens_breakOff _, deepens_breakOff _⟩
  | succ a ih =>
      cases b with
      | zero => exact absurd hab (Nat.not_succ_le_zero a)
      | succ b =>
          have hnested := ih (Nat.le_of_succ_le_succ hab)
          exact ⟨hab, deepens_expression hnested, deepens_statement hnested⟩

theorem deepens_program {a b : Nat} (hab : a ≤ b) : Deepens (program a) (program b) :=
  (deepens_within hab).statement.many

end Grammar

/-! ## Source texts -/

section Source

variable {a b : Nat} (hab : a ≤ b) (source : Text) (filename : String)
include hab

/-- A text that is not nested too deeply for fewer levels is read alike with more of them. -/
theorem parseProgram_deepens :
    parseProgram a source filename =
        .error (.rejected ((Refusal.nesting source).locate source filename)) ∨
      parseProgram a source filename = parseProgram b source filename := by
  simp only [parseProgram]
  rcases Grammar.deepens_program hab source with hbroken | hsame
  · exact .inl (by rw [hbroken]; rfl)
  · exact .inr (by rw [hsame])

theorem parseExpression_deepens :
    parseExpression a source filename =
        .error (.rejected ((Refusal.nesting source).locate source filename)) ∨
      parseExpression a source filename = parseExpression b source filename := by
  simp only [parseExpression]
  rcases ((Grammar.deepens_within hab).expression .logical).complete source with hbroken | hsame
  · exact .inl (by rw [hbroken]; rfl)
  · exact .inr (by rw [hsame])

end Source

end Klartext
