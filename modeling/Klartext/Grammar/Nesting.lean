import Klartext.Grammar.Statement

set_option autoImplicit false

/-! # Nesting

The rules of the grammar, tied together for a limited depth of nesting. Each level of nesting, each
operator of a chain and each item of a list takes one level off; at depth zero reading breaks off,
and no rule undoes that. A text that is read within one limit is read alike within every larger
one. -/

namespace Klartext

namespace Grammar

/-- The readers at depth zero. -/
def exhausted : Nested where
  room := 0
  expression _ := Reader.breakOff .tooDeep
  statement := Reader.breakOff .tooDeep

/-- The readers for `limit` levels of nesting. -/
def within : (limit : Nat) → Nested
  | 0 => exhausted
  | limit + 1 =>
    let nested := within limit
    { room := limit + 1
      expression := fun layer => expression nested layer
      statement := statement nested }

/-- The statements at the front of a text. -/
def program (limit : Nat) : Reader (List Node) := Reader.many (within limit).statement

/-- The depth of nesting up to which programs read source text. It is no number of the language: it
    stands in for the recursion that the host allows, which ends somewhere between the depth of the
    texts that people write and that of a chain of thousands. -/
def depthLimit : Nat := 200

end Grammar

end Klartext
