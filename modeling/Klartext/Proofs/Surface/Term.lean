import Klartext.Proofs.Enumeration.Written
import Klartext.Proofs.Surface.Expression

set_option autoImplicit false

/-! # How terms are written

Terms are the expressions of the arithmetic layer, with calls among them: literals, references,
spoken operations, and calls, whose arguments are terms again and stand in a list. They are written
with single spaces between their parts.

The words of a called name are neither `mit` nor `und`, and none begins with `aus` or `an`: these
are the words at which the name, its arguments and a list that the call stands in come to an end.

The depth of a term counts the levels of nesting that reading it takes. The arguments of a call take
one level, or two if there is more than one of them, since what was cut out of the last is also
tried as an operand of the word `und` before it. Reading a list takes a level for each item, too. -/

namespace Klartext

open Enumeration

namespace Surface

/-! ## Names of functions -/

/-- The words with which a list ends. -/
def endings : List Text := ["aus".toList, "an".toList]

/-- A name that can stand in a call. -/
structure CallName where
  text : Text
  normal : Text.normalize text = text
  ne_nil : text ≠ []
  no_mark : '!' ∉ text
  no_comma : ',' ∉ text
  no_mit : "mit".toList ∉ Text.words text
  no_und : "und".toList ∉ Text.words text
  no_ending : ∀ w ∈ Text.words text, ∀ ending ∈ endings, ¬ ending <+: w

/-! ## Terms -/

/-- A written expression of the arithmetic layer. -/
inductive Term where
  | literal (l : Literal)
  | reference (name : SlashedName)
  | call (name : CallName) (arguments : List Term)
  | operation (op : Operator) (hspoken : op.family.isSpoken = true) (left right : Term)

namespace Term

/-- What stands behind the name of a function that is called, up to the `aus`. -/
def argumentText : List Text → Text
  | [] => []
  | ts => " mit ".toList ++ enumeration ts

mutual

def text : Term → Text
  | .literal l => l.text
  | .reference name => '/' :: (name.text ++ ['/'])
  | .call name xs => "führe ".toList ++ (name.text ++ (argumentText (texts xs) ++ " aus".toList))
  | .operation op _ left right =>
    op.phrase.toList ++ ' ' :: (text left ++ (" und ".toList ++ text right))

def texts : List Term → List Text
  | [] => []
  | x :: xs => text x :: texts xs

end

mutual

def node : Term → Node
  | .literal l => .literal l.value
  | .reference name => .reference (String.ofList name.text)
  | .call name xs => .call (String.ofList name.text) (nodes xs)
  | .operation op _ left right => .operation op (node left) (node right)

def nodes : List Term → List Node
  | [] => []
  | x :: xs => node x :: nodes xs

end

mutual

/-- The levels of nesting below a term. -/
def depth : Term → Nat
  | .literal _ => 0
  | .reference _ => 0
  | .call _ xs => max xs.length (depths xs + min xs.length 2)
  | .operation _ _ left right => max (depth left) (depth right) + 1

def depths : List Term → Nat
  | [] => 0
  | x :: xs => max (depth x) (depths xs)

end

mutual

/-- The number of digits behind a comma in the first number for which that is too large. -/
def overlong? : Term → Option Nat
  | .literal l => l.overlong?
  | .reference _ => none
  | .call _ xs => overlongs? xs
  | .operation _ _ left right => (overlong? left).or (overlong? right)

def overlongs? : List Term → Option Nat
  | [] => none
  | x :: xs => (overlong? x).or (overlongs? xs)

end

/-- The levels of nesting that reading a list of terms takes. -/
def listDepth (xs : List Term) : Nat := max xs.length (depths xs + min xs.length 2)

/-- The terms of a layer: what binds as tightly as the layer or more so, with operands of the layer
    of their operator. The arguments of a call are of the arithmetic layer. -/
inductive Layered : Layer → Term → Prop where
  | literal (layer : Layer) (l : Literal) : Layered layer (.literal l)
  | reference {layer : Layer} (name : SlashedName)
      (hlayer : layer.tightness ≤ Layer.reference.tightness) :
      Layered layer (.reference name)
  | call {layer : Layer} (name : CallName) {xs : List Term}
      (hlayer : layer.tightness ≤ Layer.call.tightness)
      (harguments : ∀ x ∈ xs, Layered .arithmetic x) :
      Layered layer (.call name xs)
  | operation {layer : Layer} {op : Operator} (hspoken : op.family.isSpoken = true)
      {left right : Term} (hlayer : layer.tightness ≤ op.family.layer.tightness)
      (hleft : Layered op.family.layer left) (hright : Layered op.family.layer right) :
      Layered layer (.operation op hspoken left right)

/-! ## Lists of terms -/

theorem texts_eq_map (xs : List Term) : texts xs = xs.map text := by
  induction xs with
  | nil => rfl
  | cons x xs ih => rw [texts, ih, List.map_cons]

theorem nodes_eq_map (xs : List Term) : nodes xs = xs.map node := by
  induction xs with
  | nil => rfl
  | cons x xs ih => rw [nodes, ih, List.map_cons]

theorem overlongs?_eq_findSome? (xs : List Term) : overlongs? xs = xs.findSome? overlong? := by
  induction xs with
  | nil => rfl
  | cons x xs ih =>
      rw [overlongs?, ih, List.findSome?_cons]
      cases x.overlong? <;> rfl

theorem depth_le_depths {xs : List Term} {x : Term} (h : x ∈ xs) : x.depth ≤ depths xs := by
  induction xs with
  | nil => cases h
  | cons y xs ih =>
      rw [depths]
      rcases List.mem_cons.1 h with rfl | h
      · exact Nat.le_max_left _ _
      · exact Nat.le_trans (ih h) (Nat.le_max_right _ _)

/-! ## The text of a term -/

variable {op : Operator} {left right : Term}

theorem text_call_nil (name : CallName) (t : Text) :
    (call name []).text ++ t = "führe ".toList ++ (name.text ++ (" aus".toList ++ t)) := by
  have htext : (call name []).text = "führe ".toList ++ (name.text ++ " aus".toList) := rfl
  rw [htext]
  simp only [List.append_assoc]

theorem text_call_cons (name : CallName) (x : Term) (xs : List Term) (t : Text) :
    (call name (x :: xs)).text ++ t =
      "führe ".toList ++ (name.text ++ (" mit ".toList ++
        (enumeration (texts (x :: xs)) ++ (" aus".toList ++ t)))) := by
  have htext : (call name (x :: xs)).text = "führe ".toList ++ (name.text ++
      ((" mit ".toList ++ enumeration (texts (x :: xs))) ++ " aus".toList)) := rfl
  rw [htext]
  simp only [List.append_assoc]

theorem text_operation (hspoken : op.family.isSpoken = true) (t : Text) :
    (operation op hspoken left right).text ++ t =
      op.phrase.toList ++ ' ' :: (left.text ++ (" und ".toList ++ (right.text ++ t))) := by
  have htext : (operation op hspoken left right).text =
      op.phrase.toList ++ ' ' :: (left.text ++ (" und ".toList ++ right.text)) := rfl
  rw [htext]
  simp only [List.append_assoc, List.cons_append]

/-! ### How a term begins and ends -/

theorem opening (x : Term) : Opening x.text := by
  cases x with
  | literal l => exact l.opening
  | reference name => exact ⟨'/', _, rfl, rfl⟩
  | call name xs => exact ⟨'f', _, rfl, rfl⟩
  | operation op hspoken left right => exact opening_phrase hspoken _

theorem flush (x : Term) (t : Text) : Text.Flush (x.text ++ t) := (x.opening.append t).flush

theorem text_ne_nil (x : Term) : x.text ≠ [] := by
  obtain ⟨c, u, htext, _⟩ := x.opening
  simp [htext]

end Term

/-- The characters with which a term can end. -/
def closes (c : Char) : Bool := c.isDigit || ['\"', 'r', 'h', 'x', '/', 's'].contains c

/-- Neither whitespace nor a comma, nor the end of `und`. -/
theorem not_of_closes {c : Char} (h : closes c = true) : isBlank c = false ∧ c ≠ ',' ∧ c ≠ 'd' := by
  simp only [closes, Bool.or_eq_true, List.contains_eq_mem, List.mem_cons, List.not_mem_nil,
    or_false, decide_eq_true_eq] at h
  rcases h with h | rfl | rfl | rfl | rfl | rfl | rfl
  · refine ⟨not_isBlank_of_isDigit h, ?_, ?_⟩ <;> rintro rfl <;> exact absurd h (by decide)
  all_goals decide

theorem Literal.closing (l : Literal) : ∃ u c, l.text = u ++ [c] ∧ closes c = true := by
  cases l with
  | number n =>
      obtain ⟨u, c, hu, hc⟩ := n.last
      exact ⟨u, c, hu, by simp [closes, hc]⟩
  | string content => exact ⟨'\"' :: escape content, '\"', rfl, rfl⟩
  | boolean b =>
      cases b with
      | true => exact ⟨"wah".toList, 'r', rfl, rfl⟩
      | false => exact ⟨"falsc".toList, 'h', rfl, rfl⟩
  | null => exact ⟨"ni".toList, 'x', rfl, rfl⟩

theorem Term.closing : (x : Term) → ∃ u c, x.text = u ++ [c] ∧ closes c = true
  | .literal l => l.closing
  | .reference name => ⟨'/' :: name.text, '/', rfl, rfl⟩
  | .call name xs => by
      refine ⟨"führe ".toList ++ (name.text ++ (argumentText (texts xs) ++ " au".toList)), 's',
        ?_, rfl⟩
      simp [text]
  | .operation op hspoken left right => by
      obtain ⟨u, c, hu, hc⟩ := right.closing
      refine ⟨op.phrase.toList ++ ' ' :: (left.text ++ (" und ".toList ++ u)), c, ?_, hc⟩
      simp [text, hu]

end Surface

end Klartext
