import Klartext.Proofs.Continued.Statement
import Klartext.Proofs.Rules.Fault

set_option autoImplicit false

/-! # The beginning of a statement is no program

A text that is one statement, cut in two where both parts have something in them: the first part is
no program of its own, except where its first statement holds a definition of a variable that gives
way to the second part, or where it has too many digits in it. -/

namespace Klartext

open Reader Rules

namespace Grammar

/-! ## Programs -/

/-- In the first statement that is found in the text, or at its front, a definition gives way with
    `more` behind the text. -/
def FirstGivesWay (limit : Nat) (t more : Text) : Prop :=
  ∃ depth inner u, limit = depth + 1 ∧ Inside depth t inner u ∧ GivesWay inner u more

/-- Of a text that is one statement, no beginning with something behind it is a program, unless a
    definition in it gives way to what stands behind it. -/
theorem firstGivesWay_of_program {limit : Nat} {t more rest rest' : Text} {ss : List Node}
    {node : Node} (hpart : program limit t = .found ss rest)
    (hwhole : program limit (t ++ more) = .found [node] rest')
    (ht : Text.isBlank t = false) (hrest : Text.isBlank rest = true)
    (hmore : Text.isBlank more = false) (hrest' : Text.isBlank rest' = true) :
    FirstGivesWay limit t more := by
  cases ss with
  | nil =>
      rw [(many_eq_nil hpart).1, ht] at hrest
      cases hrest
  | cons s ss =>
      obtain ⟨u, hstatement, -⟩ := exists_of_many_cons hpart
      obtain ⟨v, hfirst, -, hothers⟩ := exists_of_many_cons hwhole
      cases limit with
      | zero => cases hstatement
      | succ depth =>
          rcases (steadyAt_statement depth t).readsOn hstatement trivial more with
            hfound | ⟨hdeep, -⟩ | ⟨inner, w, hinside, hgives⟩
          · -- then the one statement of the whole ends in the beginning, and the rest is left over
            cases hfound.symm.trans hfirst
            rw [(many_eq_nil hothers).1, Text.isBlank_append, hmore] at hrest'
            cases hrest'.2
          · cases hdeep.symm.trans hfirst
          · exact ⟨depth, inner, w, rfl, hinside, hgives⟩

end Grammar

/-! ## Source texts -/

/-- A beginning of a text that is one statement is rejected, unless a definition in it gives way to what
    stands behind it, or it has too many digits in it. -/
theorem parseProgram_beginning {limit : Nat} {t more : Text} {filename : String} {node : Node}
    (hwhole : parseProgram limit (t ++ more) filename = .ok [node])
    (ht : Text.isBlank t = false) (hmore : Text.isBlank more = false) :
    (∃ r, parseProgram limit t filename = .error (.rejected r)) ∨
    (∃ ss, parseProgram limit t filename = .ok ss ∧ Grammar.FirstGivesWay limit t more) ∨
    ∃ count, parseProgram limit t filename = .error (.tooManyDigits count) ∧
      LongFraction count t := by
  rcases parseProgram_cases limit t filename with ⟨ss, hread⟩ | hrejected | hlong
  · obtain ⟨rest, hpart, hrest⟩ := parseProgram_eq_ok.1 hread
    obtain ⟨rest', hprogram, hrest'⟩ := parseProgram_eq_ok.1 hwhole
    exact .inr (.inl ⟨ss, hread,
      Grammar.firstGivesWay_of_program hpart hprogram ht hrest hmore hrest'⟩)
  · exact .inl hrejected
  · exact .inr (.inr hlong)

end Klartext
