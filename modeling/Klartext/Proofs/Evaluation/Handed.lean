import Klartext.Proofs.Evaluation.Closed

set_option autoImplicit false

/-! # Lines handed to a program

A program takes lines off an input by reading them, one by one, and in no other way. So what a run
took off an input are the lines that were handed to it, in the order in which they stood there. -/

namespace Klartext

open Evaluator (readLine)

/-- On the way from one state to another the run was handed lines of an input, each by a step that
    reads it. Whatever else it did, the input was not touched. -/
inductive Machine.Handed (input : Nat) : Machine → List String → Machine → Prop where
  | nothing {m after : Machine} (h : after.inputs[input]? = m.inputs[input]?) :
      Handed input m [] after
  | line {m after : Machine} {line : String}
      (h : m.perform (readLine input) = (.ok (.literal (.string line)), after)) :
      Handed input m [line] after
  | trans {m between after : Machine} {lines more : List String} :
      Handed input m lines between → Handed input between more after →
      Handed input m (lines ++ more) after

namespace Machine

/-- Reading takes the first line off the input, or it fails because there is none. -/
theorem perform_readLine (m : Machine) (input : Nat) :
    (∃ line rest, m.inputs[input]? = some (line :: rest) ∧ m.perform (readLine input) =
      (.ok (.literal (.string line)), { m with inputs := m.inputs.set! input rest })) ∨
    m.perform (readLine input) = (.error .inputExhausted, m) := by
  rw [readLine, perform_get_bind]
  split
  · rename_i line rest hinput
    exact .inl ⟨line, rest, hinput, rfl⟩
  · exact .inr rfl

/-- The lines that a run was handed are those that it took off the front of the input. -/
theorem Handed.front {input : Nat} {m after : Machine} {lines left : List String}
    (h : Handed input m lines after) (hm : m.inputs[input]? = some left) :
    ∃ rest, left = lines ++ rest ∧ after.inputs[input]? = some rest := by
  induction h generalizing left with
  | nothing hsame => exact ⟨left, rfl, hsame.trans hm⟩
  | @line m after line hread =>
      rcases perform_readLine m input with ⟨line', rest, hinput, hperform⟩ | hperform
      · rw [hperform] at hread
        cases hread
        rw [hm] at hinput
        cases hinput
        obtain ⟨hlt, -⟩ := Array.getElem?_eq_some_iff.1 hm
        refine ⟨rest, rfl, ?_⟩
        rw [Array.set!_eq_setIfInBounds, Array.getElem?_setIfInBounds_self_of_lt hlt]
      · rw [hperform] at hread
        cases hread
  | trans _ _ ih ih' =>
      -- the second part takes its lines off the front of what the first one left
      obtain ⟨rest, rfl, hbetween⟩ := ih hm
      obtain ⟨rest', rfl, hafter⟩ := ih' hbetween
      exact ⟨rest', (List.append_assoc ..).symm, hafter⟩

end Machine

namespace Run

/-- Whatever the step takes off the input, it is handed as lines. -/
def Takes (input : Nat) (α : Type) (p : Run α) : Prop :=
  ∀ m : Machine, ∃ lines, Machine.Handed input m lines (m.perform p).2

theorem closed_takes (input : Nat) : Closed (Takes input) where
  pure _ _ := ⟨[], .nothing rfl⟩
  throw _ _ := ⟨[], .nothing rfl⟩
  look h m := h m m
  record _ _ := ⟨[], .nothing rfl⟩
  updateScopes _ _ := ⟨[], .nothing rfl⟩
  bind {α β p f} hp hf := by
    intro m
    obtain ⟨lines, hlines⟩ := hp m
    rw [Machine.perform_bind]
    rcases hresult : m.perform p with ⟨e | a, between⟩ <;> rw [hresult] at hlines
    · exact ⟨lines, hlines⟩
    · obtain ⟨more, hmore⟩ := hf a between
      exact ⟨lines ++ more, hlines.trans hmore⟩
  readLine other := by
    intro m
    rcases m.perform_readLine other with ⟨line, rest, hother, hperform⟩ | hperform
    · by_cases hsame : input = other
      · subst hsame
        exact ⟨[line], .line (hperform ▸ rfl)⟩
      · refine ⟨[], .nothing ?_⟩
        rw [hperform, Array.set!_eq_setIfInBounds, Array.getElem?_setIfInBounds_ne (Ne.symm hsame)]
    · exact ⟨[], .nothing (by rw [hperform])⟩

end Run

/-! ## Sessions -/

namespace Session

theorem machine_interpret (s : Session) (program : List Node) :
    (s.interpret program).2 = { s with machine := (s.machine.perform
      ((Evaluator.within s.traced s.limits.run).statements Machine.root none program)).2 } := by
  rw [interpret, Machine.interpret]
  rcases s.machine.perform _ with ⟨_ | _, _⟩ <;> rfl

/-- That a program was read is left on record, and otherwise the session stays as it is. -/
theorem recordParsed_cases (s : Session) (program : List Node) (filename : String) :
    ∃ events, s.recordParsed program filename =
      { s with machine := { s.machine with events := events } } := by
  rw [recordParsed]
  split
  · exact ⟨_, rfl⟩
  · exact ⟨_, rfl⟩

/-- A session that runs a source text takes lines off its input only by handing them to the program,
    and its limits stay as they are. -/
theorem handed_of_run {s after : Session} {source : String} {outcome : Outcome}
    (h : s.run source = .ok (outcome, after)) (input : Nat) :
    after.limits = s.limits ∧ ∃ lines, Machine.Handed input s.machine lines after.machine := by
  rw [run] at h
  split at h
  · rename_i program _
    obtain ⟨events, hrecord⟩ := s.recordParsed_cases program unnamed
    have hafter : (s.recordParsed program unnamed).interpret program = (outcome, after) :=
      Except.ok.inj h
    obtain rfl : ((s.recordParsed program unnamed).interpret program).2 = after :=
      congrArg Prod.snd hafter
    rw [machine_interpret, hrecord]
    have hclosed := Run.closed_takes input
    obtain ⟨lines, hlines⟩ := hclosed.statements (hclosed.within s.traced s.limits.run)
      Machine.root none program { s.machine with events := events }
    have hrecorded : Machine.Handed input s.machine [] { s.machine with events := events } :=
      .nothing rfl
    exact ⟨rfl, lines, hrecorded.trans hlines⟩
  · cases h
    exact ⟨rfl, [], .nothing rfl⟩
  · cases h

end Session

end Klartext
