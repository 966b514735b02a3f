import Klartext.Proofs.Surface.Literal

set_option autoImplicit false

/-! # How expressions are written

Expressions without calls as they stand in source text, with single spaces between their parts. An
expression says by its text how it is written and by its node what it means. Its depth counts the
levels of nesting that reading it takes: the operands of a spoken operation are nested, and so is
the right operand of any other, while the left one stands on the level of the operation itself. -/

namespace Klartext

/-! ## Operators -/

namespace Operator

/-- The words of an operator. -/
def phrase : Operator → String
  | .add => "die Summe von"
  | .subtract => "die Differenz von"
  | .multiply => "das Produkt aus"
  | .divide => "der Quotient von"
  | .equal => "gleich"
  | .unequal => "nicht gleich"
  | .greater => "größer als"
  | .atLeast => "größer als oder gleich"
  | .less => "kleiner als"
  | .atMost => "kleiner als oder gleich"
  | .both => "und"
  | .either => "oder"
  | .concat => "die Verknüpfung zwischen"

theorem normalize_phrase (op : Operator) :
    Text.normalize op.phrase.toList = op.phrase.toList := by
  cases op <;> rfl

/-- The words stand before both operands, not between them. -/
def Family.isSpoken : Family → Bool
  | .arithmetic | .string => true
  | .comparison | .logical => false

theorem eq_of_isSpoken {op : Operator} (h : op.family.isSpoken = true) :
    op = .add ∨ op = .subtract ∨ op = .multiply ∨ op = .divide ∨ op = .concat := by
  revert h
  cases op <;> decide

/-- All operators whose words stand before the operands begin with an article. -/
theorem phrase_of_isSpoken {op : Operator} (h : op.family.isSpoken = true) :
    ∃ u, op.phrase.toList = 'd' :: u := by
  rcases eq_of_isSpoken h with rfl | rfl | rfl | rfl | rfl <;> exact ⟨_, rfl⟩

/-- The layer of an operation. Its right operand is of the same layer. -/
def Family.layer : Family → Layer
  | .logical => .logical
  | .comparison => .comparison
  | .arithmetic => .arithmetic
  | .string => .concat

/-- The layer of the left operand. -/
def Family.leftLayer : Family → Layer
  | .logical => .comparison
  | .comparison => .arithmetic
  | .arithmetic => .arithmetic
  | .string => .concat

end Operator

/-! ## Expressions -/

namespace Surface

/-- A name that can stand between slashes. -/
structure SlashedName where
  text : Text
  normal : Text.normalize text = text
  ne_nil : text ≠ []
  no_slash : '/' ∉ text
  no_mark : '!' ∉ text

/-- A written expression without calls. -/
inductive Expression where
  | literal (l : Literal)
  | reference (name : SlashedName)
  | operation (op : Operator) (left right : Expression)

namespace Expression

def text : Expression → Text
  | .literal l => l.text
  | .reference name => '/' :: (name.text ++ ['/'])
  | .operation op left right =>
    if op.family.isSpoken then
      op.phrase.toList ++ ' ' :: (left.text ++ (" und ".toList ++ right.text))
    else
      left.text ++ ' ' :: (op.phrase.toList ++ ' ' :: right.text)

def node : Expression → Node
  | .literal l => .literal l.value
  | .reference name => .reference (String.ofList name.text)
  | .operation op left right => .operation op left.node right.node

/-- The levels of nesting below an expression. -/
def depth : Expression → Nat
  | .literal _ => 0
  | .reference _ => 0
  | .operation op left right =>
    if op.family.isSpoken then max left.depth right.depth + 1
    else max left.depth (right.depth + 1)

/-- The number of digits behind a comma in the first number for which that is too large. -/
def overlong? : Expression → Option Nat
  | .literal l => l.overlong?
  | .reference _ => none
  | .operation _ left right => left.overlong?.or right.overlong?

variable {op : Operator} {left right : Expression}

theorem text_reference (name : SlashedName) (t : Text) :
    (reference name).text ++ t = '/' :: (name.text ++ '/' :: t) := by
  simp [text]

theorem text_spoken (h : op.family.isSpoken = true) (t : Text) :
    (operation op left right).text ++ t =
      op.phrase.toList ++ ' ' :: (left.text ++ (" und ".toList ++ (right.text ++ t))) := by
  rw [text, if_pos h]
  simp only [List.append_assoc, List.cons_append]

theorem text_between (h : op.family.isSpoken = false) (t : Text) :
    (operation op left right).text ++ t =
      left.text ++ ' ' :: (op.phrase.toList ++ ' ' :: (right.text ++ t)) := by
  rw [text, if_neg (by simp [h])]
  simp only [List.append_assoc, List.cons_append]

theorem depth_spoken (h : op.family.isSpoken = true) :
    (operation op left right).depth = max left.depth right.depth + 1 := by
  rw [depth, if_pos h]

theorem depth_between (h : op.family.isSpoken = false) :
    (operation op left right).depth = max left.depth (right.depth + 1) := by
  rw [depth, if_neg (by simp [h])]

end Expression

end Surface

/-! ## Layers -/

/-- How tightly a layer binds. -/
def Layer.tightness : Layer → Nat
  | .logical => 0
  | .comparison => 1
  | .arithmetic => 2
  | .concat => 3
  | .call => 4
  | .reference => 5
  | .primitive => 6

namespace Surface

/-- The expressions of a layer: what binds as tightly as the layer or more so, with operands of
    the layers that their operator asks for. -/
inductive Layered : Layer → Expression → Prop where
  | literal (layer : Layer) (l : Literal) : Layered layer (.literal l)
  | reference {layer : Layer} (name : SlashedName)
      (hlayer : layer.tightness ≤ Layer.reference.tightness) :
      Layered layer (.reference name)
  | operation {layer : Layer} {op : Operator} {left right : Expression}
      (hlayer : layer.tightness ≤ op.family.layer.tightness)
      (hleft : Layered op.family.leftLayer left) (hright : Layered op.family.layer right) :
      Layered layer (.operation op left right)

/-! ## What an expression begins with -/

/-- The characters with which an expression can begin. -/
def opens (c : Char) : Bool := c.isDigit || ['\"', 'w', 'f', 'n', '/', 'd'].contains c

/-- A text that begins as an expression does. -/
def Opening (t : Text) : Prop := ∃ c u, t = c :: u ∧ opens c = true

theorem Opening.append {t : Text} (h : Opening t) (u : Text) : Opening (t ++ u) := by
  obtain ⟨c, v, rfl, hc⟩ := h
  exact ⟨c, v ++ u, rfl, hc⟩

theorem Literal.opening (l : Literal) : Opening l.text := by
  cases l with
  | number n =>
      obtain ⟨c, u, htext, hc⟩ := n.head
      exact ⟨c, u, htext, by simp [opens, hc]⟩
  | string content => exact ⟨'\"', _, rfl, rfl⟩
  | boolean b => cases b <;> exact ⟨_, _, rfl, rfl⟩
  | null => exact ⟨'n', _, rfl, rfl⟩

theorem opening_phrase {op : Operator} (h : op.family.isSpoken = true) (t : Text) :
    Opening (op.phrase.toList ++ t) := by
  obtain ⟨u, hu⟩ := op.phrase_of_isSpoken h
  rw [hu]
  exact ⟨'d', u ++ t, rfl, rfl⟩

theorem Expression.opening (e : Expression) : Opening e.text := by
  induction e with
  | literal l => exact l.opening
  | reference name => exact ⟨'/', _, rfl, rfl⟩
  | operation op left right hleft _ =>
      rw [text]
      split
      · rename_i hspoken
        exact opening_phrase hspoken _
      · exact hleft.append _

/-- Neither whitespace nor the beginning of `und` or `oder`. -/
theorem not_isBlank_of_opens {c : Char} (h : opens c = true) : isBlank c = false := by
  simp only [opens, Bool.or_eq_true, List.contains_eq_mem, List.mem_cons, List.not_mem_nil,
    or_false, decide_eq_true_eq] at h
  rcases h with h | rfl | rfl | rfl | rfl | rfl | rfl
  · exact not_isBlank_of_isDigit h
  all_goals decide

theorem Opening.flush {t : Text} (h : Opening t) : Text.Flush t := by
  obtain ⟨c, u, rfl, hc⟩ := h
  exact Text.flush_cons (not_isBlank_of_opens hc)

end Surface

end Klartext
