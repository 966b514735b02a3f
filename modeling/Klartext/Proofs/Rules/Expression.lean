import Klartext.Proofs.Rules.Enumeration

set_option autoImplicit false

/-! # Expressions are read by the rules

Whatever a layer takes off a text is derived by the rules of the layer as the node that comes of it,
provided that this holds of the readers for what is nested in it. -/

namespace Klartext

open Reader Rules Surface

/-- The readers for nested parts take what the rules say. A statement may have whitespace before
    it. -/
structure Nested.Reads (nested : Nested) : Prop where
  expression : ∀ layer, Reader.Reads (Derives layer) (nested.expression layer)
  statement : Reader.Reads (fun node u => ∃ blank v, u = blank ++ v ∧
    Text.isBlank blank = true ∧ Sentence (.statement node) v) nested.statement

/-- What a tighter layer takes, a looser one takes too. -/
theorem Reader.Reads.looser {layer tighter : Layer} {p : Reader Node}
    (h : Reads (Derives tighter) p) (hlayer : layer.tightness ≤ tighter.tightness) :
    Reads (Derives layer) p :=
  h.mono fun _ _ hu => .looser hlayer hu

namespace Grammar

variable {nested : Nested}

/-! ## Primitives -/

theorem reads_string : Reads (Derives .primitive) string := by
  refine reads_between.bind fun content u hu => reads_pure ?_
  obtain ⟨raw, rfl, hquoted⟩ := hu
  rw [List.append_nil]
  exact .string hquoted

/-- A comma and the digits behind it. -/
theorem reads_places :
    Reads (fun ds u => ∃ places : Digits, u = ',' :: places.text ∧ ds = places.joined)
      (do phrase ","; digits (some '.')) := by
  refine (reads_word rfl).bind fun _ u hu => reads_digits.mono fun ds v hv => ?_
  obtain ⟨places, rfl, rfl⟩ := hv
  exact ⟨places, by rw [hu]; rfl, rfl⟩

theorem reads_number : Reads (Derives .primitive) number := by
  refine reads_digits.bind fun whole u hu => ?_
  obtain ⟨whole, rfl, rfl⟩ := hu
  have hplaces : Reads (fun o u => ∃ fraction : Option Digits, o = fraction.map Digits.joined ∧
      whole.text ++ u = (Numeral.mk whole fraction).text)
      (optional (do phrase ","; digits (some '.'))) := by
    refine reads_optional (reads_places.mono fun ds u hu => ?_) ⟨none, rfl, List.append_nil _⟩
    obtain ⟨places, rfl, rfl⟩ := hu
    exact ⟨some places, rfl, rfl⟩
  -- when digits turn out to be too many to be converted, they have been taken already
  refine hplaces.andThen (fun {o u t node rest} hu hread => ?_)
    (fun {o u t count} hu hread => ?_) <;>
    obtain ⟨fraction, rfl, htext⟩ := hu
  · refine ⟨[], ?_⟩
    rw [List.append_nil, htext]
    cases fraction with
    | none =>
        cases hread
        exact ⟨rfl, .number ⟨whole, none⟩⟩
    | some places =>
        by_cases hlimit : digitLimit < places.joined.length
        · simp [wholeNumber, hlimit, breakOff] at hread
        · simp only [Option.map_some, wholeNumber, hlimit, if_false, bind_apply,
            pure_apply] at hread
          cases hread
          exact ⟨rfl, .number ⟨whole, some places⟩⟩
  · cases fraction with
    | none => cases hread
    | some places =>
        by_cases hlimit : digitLimit < places.joined.length
        · simp only [Option.map_some, wholeNumber, hlimit, if_true, bind_apply, breakOff] at hread
          cases hread
          obtain rfl : u = ',' :: places.text := List.append_cancel_left htext
          exact ⟨[], places, t, rfl, rfl, hlimit⟩
        · simp [wholeNumber, hlimit] at hread

theorem reads_boolean : Reads (Derives .primitive) boolean := by
  refine Reads.orElse ?_ ?_
  · refine (reads_literal _).bind fun _ u hu => reads_pure ?_
    rw [hu, List.append_nil]
    exact .boolean true
  · refine (reads_literal _).bind fun _ u hu => reads_pure ?_
    rw [hu, List.append_nil]
    exact .boolean false

theorem reads_null : Reads (Derives .primitive) null := by
  refine (reads_literal _).bind fun _ u hu => reads_pure ?_
  rw [hu, List.append_nil]
  exact .null

theorem reads_primitive : Reads (Derives .primitive) primitive :=
  reads_string.orElse (reads_number.orElse (reads_boolean.orElse reads_null))

/-! ## References and calls -/

theorem reads_reference : Reads (Derives .reference) reference := by
  refine Reads.orElse ?_ (reads_primitive.looser (by decide))
  refine (reads_word rfl).bind fun _ u hu =>
    (reads_nameUntil _ (by decide)).bind fun name v hname => reads_pure ?_
  obtain ⟨raw, rfl, hname⟩ := hname
  rw [hu, List.append_nil]
  exact .reference hname

theorem reads_functionCall (h : nested.Reads) : Reads (Derives .call) (functionCall nested) := by
  refine (reads_word rfl).bind fun _ u hu => reads_blanks1.bind fun _ gap hgap => ?_
  subst hu
  refine Reads.orElse ?_ ?_
  · refine (reads_nameUntil _ (by decide)).bind fun name v hname =>
      ((reads_listUntil (h.expression .logical) _ _).orRefuse _).bind fun nodes w hlist =>
        reads_pure ?_
    obtain ⟨raw, rfl, hname⟩ := hname
    obtain ⟨list, rfl, items, rfl, hlisting, hitems⟩ := hlist
    rw [List.append_nil, List.append_assoc]
    exact .callWith hgap hname hlisting hitems
  · refine (reads_nameUntil _ (by decide)).bind fun name v hname => reads_pure ?_
    obtain ⟨raw, rfl, hname⟩ := hname
    rw [List.append_nil]
    exact .call hgap hname

theorem reads_call (h : nested.Reads) : Reads (Derives .call) (call nested) :=
  (reads_functionCall h).orElse (reads_reference.looser (by decide))

/-! ## Operations -/

theorem reads_spoken (op : Operator) (hop : op.family.isSpoken = true) {operand : Reader Node}
    (hoperand : Reads (Derives op.family.layer) operand) :
    Reads (Derives op.family.layer) (spoken (op.phrase, op) operand) := by
  have hleft : op.family.leftLayer = op.family.layer := by
    revert hop
    cases op.family <;> simp [Operator.Family.isSpoken, Operator.Family.leftLayer,
      Operator.Family.layer]
  refine (reads_phrase op.phrase).bind fun _ phrase hphrase => reads_blanks1.bind fun _ gap hgap =>
    hoperand.bind fun left l hl => reads_blanks1.bind fun _ gap' hgap' =>
    (reads_word rfl).bind fun _ und hund => reads_blanks1.bind fun _ gap'' hgap'' =>
    hoperand.bind fun right r hr => reads_pure ?_
  rw [hund, List.append_nil]
  exact .spoken hop hphrase hgap (hleft ▸ hl) hgap' hgap'' hr

theorem reads_concat (h : nested.Reads) : Reads (Derives .concat) (concat nested) :=
  (reads_spoken .concat rfl (h.expression .concat)).orElse
    ((reads_call h).looser (by decide))

theorem reads_arithmetic (h : nested.Reads) : Reads (Derives .arithmetic) (arithmetic nested) := by
  refine Reads.orElse (reads_firstOf ?_) ((reads_concat h).looser (by decide))
  have hoperand := h.expression .arithmetic
  simp only [arithmeticForms, List.map_cons, List.map_nil, List.forall_mem_cons, List.not_mem_nil,
    false_implies, implies_true, and_true]
  exact ⟨reads_spoken .add rfl hoperand, reads_spoken .subtract rfl hoperand,
    reads_spoken .multiply rfl hoperand, reads_spoken .divide rfl hoperand⟩

/-- Behind a left operand stand an operator and a right operand, or the left operand is all. -/
theorem reads_tail (family : Operator.Family) (hfamily : family.isSpoken = false)
    {operators : List (String × Operator)}
    (hoperators : ∀ o ∈ operators, o.1 = o.2.phrase ∧ o.2.family = family) {right : Reader Node}
    (hright : Reads (Derives family.layer) right) {left : Node} {l : Text}
    (hleft : Derives family.leftLayer left l) (hlayer : family.layer.tightness ≤
      family.leftLayer.tightness) :
    Reads (fun node u => Derives family.layer node (l ++ u)) (tail operators right left) := by
  refine Reads.orElse (reads_firstOf fun reader hreader => ?_) (reads_pure ?_)
  · obtain ⟨⟨words, op⟩, hmem, rfl⟩ := List.mem_map.1 hreader
    obtain ⟨hwords, rfl⟩ := hoperators _ hmem
    obtain rfl : words = op.phrase := hwords
    refine reads_blanks1.bind fun _ gap hgap =>
      (reads_phrase op.phrase).bind fun _ phrase hphrase =>
      reads_blanks1.bind fun _ gap' hgap' => hright.bind fun right r hr => reads_pure ?_
    rw [List.append_nil]
    exact .between hfamily hleft hgap hphrase hgap' hr
  · rw [List.append_nil]
    exact .looser hlayer hleft

theorem reads_comparison (h : nested.Reads) : Reads (Derives .comparison) (comparison nested) :=
  (reads_arithmetic h).bind fun _ _ hleft =>
    reads_tail .comparison rfl (by decide) (h.expression .comparison) hleft (by decide)

theorem reads_logical (h : nested.Reads) : Reads (Derives .logical) (logical nested) :=
  (reads_comparison h).bind fun _ _ hleft =>
    reads_tail .logical rfl (by decide) (h.expression .logical) hleft (by decide)

/-- Every layer takes what its rules say. -/
theorem reads_expression (h : nested.Reads) (layer : Layer) :
    Reads (Derives layer) (expression nested layer) := by
  cases layer with
  | logical => exact reads_logical h
  | comparison => exact reads_comparison h
  | arithmetic => exact reads_arithmetic h
  | concat => exact reads_concat h
  | call => exact reads_call h
  | reference => exact reads_reference
  | primitive => exact reads_primitive

end Grammar

end Klartext
