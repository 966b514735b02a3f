import Klartext.Evaluation.Session
import Klartext.Proofs.Grammar.Program
import Klartext.Proofs.Rules.Statement

set_option autoImplicit false

/-! # What can go wrong with a source text

A source text is read, or there is a message about it. Only one thing can happen besides: a run of
more than 4300 digits stands behind a comma, and the text is not read, but nothing says where in it
the fault is. This does happen, with every program that begins with such a number. -/

namespace Klartext

open Reader

namespace Grammar

/-- Where reading a program stops at too many digits, they stand behind a comma in its text. -/
theorem longFraction_of_program {limit count : Nat} {source : Text}
    (h : program limit source = .broken (.tooManyDigits count)) : LongFraction count source := by
  have hmany : Reads (fun _ _ => True) (many (within limit).statement) :=
    (reads_within limit).statement.many trivial fun _ _ => trivial
  exact hmany.broken h

/-- A program that begins with a statement in which there are too many digits. -/
theorem program_of_overlong {limit count : Nat} {s : Surface.Statement} (hdepth : s.depth < limit)
    (hcount : s.overlong? = some count) (behind : Text) :
    program limit (s.form ++ '!' :: behind) = .broken (.tooManyDigits count) := by
  have hfirst := s.readsBack limit hdepth behind
  rw [hcount] at hfirst
  rw [program, many, upTo_succ, hfirst]
  rfl

end Grammar

/-- A source text is read or rejected, unless there are too many digits behind a comma in it. -/
theorem parseProgram_cases (limit : Nat) (source : Text) (filename : String) :
    (∃ program, parseProgram limit source filename = .ok program) ∨
    (∃ r, parseProgram limit source filename = .error (.rejected r)) ∨
    ∃ count, parseProgram limit source filename = .error (.tooManyDigits count) ∧
      LongFraction count source := by
  rw [parseProgram]
  split
  · split
    · exact .inl ⟨_, rfl⟩
    · exact .inr (.inl ⟨_, rfl⟩)
  · exact .inr (.inl ⟨_, rfl⟩)
  · rename_i e hread
    cases e with
    | refused refusal => exact .inr (.inl ⟨_, rfl⟩)
    | tooDeep => exact .inr (.inl ⟨_, rfl⟩)
    | tooManyDigits count =>
        exact .inr (.inr ⟨count, rfl, Grammar.longFraction_of_program hread⟩)

namespace Session

theorem run_of_parseProgram {s : Session} {source : String} {program : List Node}
    (h : parseProgram s.limits.source source.toList unnamed = .ok program) :
    s.run source = .ok ((s.recordParsed program unnamed).interpret program) := by
  rw [run, h]

/-- Running a source text gives an outcome, unless there are too many digits in it. -/
theorem run_cases (s : Session) (source : String) :
    (∃ outcome after, s.run source = .ok (outcome, after)) ∨
    ∃ count, s.run source = .error (.tooManyDigits count) ∧ LongFraction count source.toList := by
  rcases parseProgram_cases s.limits.source source.toList unnamed with
    ⟨program, hread⟩ | ⟨r, hread⟩ | ⟨count, hread, hlong⟩
  · exact .inl ⟨_, _, run_of_parseProgram hread⟩
  · exact .inl ⟨.rejected r, s, by rw [run, hread]⟩
  · exact .inr ⟨count, by rw [run, hread], hlong⟩

theorem run_of_overlong {s : Session} {source : String} {first : Surface.Statement} {count : Nat}
    {behind : Text} (hsource : source.toList = first.form ++ '!' :: behind)
    (hdepth : first.depth < s.limits.source) (hcount : first.overlong? = some count) :
    s.run source = .error (.tooManyDigits count) := by
  rw [run, parseProgram, hsource, Grammar.program_of_overlong hdepth hcount]
  rfl

/-- Reading a source text gives statements or a message about it, and running it gives an outcome;
    only a run of too many digits behind a comma is a fault of another kind. It is one wherever a
    program begins with a statement that has such digits in it. -/
theorem run_faults (limit : Nat) (filename : String) (s : Session) (source : String) :
    ((∃ program, parseProgram limit source.toList filename = .ok program) ∨
      (∃ r, parseProgram limit source.toList filename = .error (.rejected r)) ∨
      ∃ count, parseProgram limit source.toList filename = .error (.tooManyDigits count) ∧
        LongFraction count source.toList) ∧
    ((∃ outcome after, s.run source = .ok (outcome, after)) ∨
      ∃ count, s.run source = .error (.tooManyDigits count) ∧
        LongFraction count source.toList) ∧
    ∀ (first : Surface.Statement) (behind : Text) (count : Nat),
      source.toList = first.form ++ '!' :: behind → first.depth < s.limits.source →
      first.overlong? = some count → s.run source = .error (.tooManyDigits count) :=
  ⟨parseProgram_cases limit source.toList filename, run_cases s source,
    fun _ _ _ hsource hdepth hcount => run_of_overlong hsource hdepth hcount⟩

/-- Zero as a run of digits, one more than the given number of them. -/
def zeros (n : Nat) : Surface.Digits :=
  ⟨[List.replicate (n + 1) '0'], List.cons_ne_nil _ _,
    List.forall_mem_singleton.2 ⟨List.cons_ne_nil _ _, fun _ hc =>
      List.eq_of_mem_replicate hc ▸ by decide⟩⟩

theorem length_zeros (n : Nat) : (zeros n).joined.length = n + 1 := by
  rw [Surface.Digits.joined, zeros, List.flatten_cons, List.flatten_nil, List.append_nil,
    List.length_replicate]

/-- Zero with too many digits behind its comma. -/
def longZero : Surface.Numeral := ⟨zeros 0, some (zeros digitLimit)⟩

theorem overlong?_longZero : longZero.overlong? = some (digitLimit + 1) := by
  have hlong : digitLimit < (zeros digitLimit).joined.length := by
    rw [length_zeros]
    exact Nat.lt_succ_self digitLimit
  rw [Surface.Numeral.overlong?, longZero, ← length_zeros]
  exact if_pos hlong

theorem run_faults_longZero :
    let first : Surface.Statement := .evaluation (.literal (.number longZero))
    let source := String.ofList
      ("0,".toList ++ (List.replicate (digitLimit + 1) '0' ++ "!".toList))
    source.toList = first.form ++ ['!'] ∧ first.depth < (Session.start [] false).limits.source ∧
      first.overlong? = some (digitLimit + 1) ∧
      (Session.start [] false).run source = .error (.tooManyDigits (digitLimit + 1)) := by
  intro first source
  have hsource : source.toList = first.form ++ ['!'] := String.toList_ofList
  exact ⟨hsource, by decide, overlong?_longZero, (run_faults 0 unnamed (.start [] false) source).2.2
    first [] _ hsource (by decide) overlong?_longZero⟩

end Session

end Klartext
