import Klartext.Proofs.Contract.Rules
import Klartext.Proofs.Rules.Statement

set_option autoImplicit false

/-! # Every rule keeps the contract

What is composed of extractors that obey obeys again, and every rule of the grammar obeys. A rule
that has a value has taken something, and a statement an exclamation mark at its end, so that the
loops over statements end. -/

namespace Klartext

namespace Extractor

/-! ## Composition -/

mutual

/-- The extractors that the combinators compose of parts that obey. -/
inductive Composed : {α : Type} → Extractor α → Prop where
  | part {α : Type} {p : Extractor α} (h : Obeys p) : Composed p
  | sequence {β : Type} {steps : Steps β} (h : ComposedSteps steps) : Composed (sequence steps)
  | either {α : Type} {alternatives : List (Extractor α)} (h : ∀ p ∈ alternatives, Composed p) :
      Composed (either alternatives)
  | many {α : Type} {p : Extractor α} (h : Composed p) : Composed (many p)
  | optional {α : Type} {p : Extractor α} (h : Composed p) : Composed (optional p)
  | multipleUntil {α : Type} {p : Extractor α} (closing : String) (h : Composed p)
      (hprogress : Progresses p) : Composed (multipleUntil closing p)
  | complete {α : Type} {p : Extractor α} (h : Composed p) : Composed (complete p)
  | list {α : Type} {item : Extractor α} (terminator : Text) (room : Nat) (h : Composed item) :
      Composed (list terminator item room)

/-- Steps that are composed of parts that obey. What is built of their values is a value always. -/
inductive ComposedSteps : {β : Type} → Steps β → Prop where
  | build {β : Type} (b : β) : ComposedSteps (.build (some b))
  | ignore {α β : Type} {step : Extractor α} {others : Steps β} (h : Composed step)
      (hothers : ComposedSteps others) : ComposedSteps (.ignore step others)
  | keep {α β : Type} {step : Extractor α} {others : α → Steps β} (h : Composed step)
      (hothers : ∀ a, ComposedSteps (others a)) : ComposedSteps (.keep step others)

end

/-- The reader whose `do` block the steps are. -/
def Steps.reader {β : Type} : Steps β → Reader β
  | .build none => Reader.miss
  | .build (some b) => pure b
  | .ignore step others => step.reader >>= fun _ => others.reader
  | .keep step others => step.reader >>= fun a => (others a).reader

theorem reports_all {α : Type} {alternatives : List (Extractor α)}
    (h : ∀ p ∈ alternatives, Obeys p) :
    Reports (either alternatives) (Reader.firstOf (alternatives.map reader)) := by
  have heither := reports_either (p := id) (q := reader) fun p hp => (h p hp).reports
  rwa [List.map_id] at heither

mutual

/-- The combinators keep the contract. -/
theorem Composed.obeys {α : Type} {p : Extractor α} : Composed p → Obeys p
  | .part h => h
  | .sequence h => h.report.sequence.obeys
  | .either h => (reports_all fun p hp => (h p hp).obeys).obeys
  | .many h => (reports_many h.obeys.reports).obeys
  | .optional h => (reports_optional h.obeys.reports).obeys
  | .multipleUntil closing h _ => (reports_multipleUntil h.obeys.reports closing).obeys
  | .complete h => (reports_complete h.obeys.reports).obeys
  | .list terminator room h => (reports_list h.obeys.reports terminator room).obeys

theorem ComposedSteps.report {β : Type} {steps : Steps β} :
    ComposedSteps steps → steps.Report steps.reader
  | .build b => .build b
  | .ignore h hothers => .ignore h.obeys.reports hothers.report
  | .keep h hothers => .keep h.obeys.reports fun a => (hothers a).report

end

theorem Reports.found {α : Type} {p : Extractor α} {q : Reader α} (h : Reports p q)
    {t rest : Text} {a : α} (hp : p t = .ok (some a, rest)) : q t = .found a rest := by
  rw [← h.reader_eq, reader, hp]

/-- What a reader takes is never nothing, so that what reports it takes something. -/
theorem Reports.progresses {α : Type} {D : α → Text → Prop} {p : Extractor α} {q : Reader α}
    (h : Reports p q) (hreads : Reader.Reads D q) (hne : ∀ {a u}, D a u → u ≠ []) :
    Progresses p := by
  intro t rest a hp
  obtain ⟨used, rfl, hused⟩ := hreads.found (h.found hp)
  have hlength := List.length_pos_iff.2 (hne hused)
  rw [List.length_append]
  omega

end Extractor

/-! ## No text is empty -/

namespace Rules

theorem Derives.ne_nil {layer : Layer} {node : Node} {t : Text} (h : Derives layer node t) :
    t ≠ [] := by
  induction h with
  | number n =>
      obtain ⟨c, u, htext, -⟩ := n.head
      rw [htext]
      exact List.cons_ne_nil c u
  | string | reference => exact List.cons_ne_nil _ _
  | boolean b => cases b <;> decide
  | null => decide
  | call | callWith => simp
  | spoken _ _ hgap => simp [hgap.ne_nil]
  | between _ _ hgap => simp [hgap.ne_nil]
  | looser _ _ ih => exact ih

theorem Sentence.form_ne_nil {node : Node} {t : Text} (h : Sentence (.form node) t) : t ≠ [] := by
  cases h with
  | evaluation h => exact h.ne_nil
  | definition _ hgap => simp [hgap.ne_nil]
  | function _ hgap => simp [hgap.ne_nil]
  | giveBack | print | conditional => simp

end Rules

/-! ## The rules -/

/-- The first of two readers takes nothing else than both together. -/
theorem Reader.Reads.first {α : Type} {D : α → Text → Prop} {p q : Reader α} (h : Reads D (p <|> q)) :
    Reads D p := by
  refine ⟨fun hp => h.found ?_, fun hp => h.broken ?_⟩ <;> rw [orElse_apply, hp]

namespace Extraction

open Extractor Rules
open Reader (Reads)
open Grammar (reads_within)

/-- The rules of the grammar for one node: expressions at each layer, the forms of statements without
    the exclamation mark, parts of expressions, and statements. -/
inductive Rule where
  | expression (layer : Layer)
  | evaluation
  | conditional
  | function
  | definition
  | giveBack
  | print
  | call
  | reference
  | string
  | number
  | boolean
  | null
  | statement

/-- The extractor of a rule, where what is nested in it may be nested to `limit` levels. -/
def Rule.extractor (limit : Nat) : Rule → Extractor Node
  | .expression layer => Extraction.expression (within limit) layer
  | .evaluation => Extraction.evaluation (within limit)
  | .conditional => Extraction.conditional (within limit)
  | .function => Extraction.function (within limit)
  | .definition => Extraction.definition (within limit)
  | .giveBack => Extraction.giveBack (within limit)
  | .print => Extraction.print (within limit)
  | .call => functionCall (within limit)
  | .reference => variableReference
  | .string => Extraction.string
  | .number => Extraction.number
  | .boolean => Extraction.boolean
  | .null => Extraction.null
  | .statement => Extraction.statement (within limit)

/-- The reader of a rule, with which programs are read. -/
def Rule.reader (limit : Nat) : Rule → Reader Node
  | .expression layer => Grammar.expression (Grammar.within limit) layer
  | .evaluation => Grammar.evaluation (Grammar.within limit)
  | .conditional => Grammar.conditional (Grammar.within limit)
  | .function => Grammar.function (Grammar.within limit)
  | .definition => Grammar.definition (Grammar.within limit)
  | .giveBack => Grammar.giveBack (Grammar.within limit)
  | .print => Grammar.print (Grammar.within limit)
  | .call => Grammar.functionCall (Grammar.within limit)
  | .reference => Grammar.variableReference
  | .string => Grammar.string
  | .number => Grammar.number
  | .boolean => Grammar.boolean
  | .null => Grammar.null
  | .statement => Grammar.statement (Grammar.within limit)

theorem Rule.reports (limit : Nat) (r : Rule) : Reports (r.extractor limit) (r.reader limit) := by
  have h := reports_within limit
  cases r with
  | expression layer => exact reports_expression h layer
  | evaluation => exact reports_evaluation h
  | conditional => exact reports_conditional h
  | function => exact reports_function h
  | definition => exact reports_definition h
  | giveBack => exact reports_giveBack h
  | print => exact reports_print h
  | call => exact reports_functionCall h
  | reference => exact reports_variableReference
  | string => exact reports_string
  | number => exact reports_number
  | boolean => exact reports_boolean
  | null => exact reports_null
  | statement => exact reports_statement h

theorem progresses_statement (limit : Nat) : Progresses (within limit).statement :=
  fun _ _ _ h => Grammar.length_lt_of_statement ((reports_within limit).statement.found h)

/-- Every rule takes something where it has a value. -/
theorem Rule.progresses (limit : Nat) (r : Rule) : Progresses (r.extractor limit) := by
  have h := reads_within limit
  have hreports := r.reports limit
  have hform (hread : Reads (fun node u => Sentence (.form node) u) (r.reader limit)) :
      Progresses (r.extractor limit) :=
    hreports.progresses hread fun hu => hu.form_ne_nil
  have hexpression {layer : Layer} (hread : Reads (Derives layer) (r.reader limit)) :
      Progresses (r.extractor limit) :=
    hreports.progresses hread fun hu => hu.ne_nil
  cases r with
  | expression layer => exact hexpression (Grammar.reads_expression h layer)
  | evaluation => exact hform (Grammar.reads_evaluation h)
  | conditional => exact hform (Grammar.reads_conditional h)
  | function => exact hform (Grammar.reads_function h)
  | definition => exact hform (Grammar.reads_definition h)
  | giveBack => exact hform (Grammar.reads_giveBack h)
  | print => exact hform (Grammar.reads_print h)
  | call => exact hexpression (Grammar.reads_functionCall h)
  | reference => exact hexpression Grammar.reads_reference.first
  | string => exact hexpression Grammar.reads_string
  | number => exact hexpression Grammar.reads_number
  | boolean => exact hexpression Grammar.reads_boolean
  | null => exact hexpression Grammar.reads_null
  | statement => exact progresses_statement (limit + 1)

/-! ## Statements and programs -/

section Statements

variable (limit : Nat)

/-- What is taken for a statement ends in its exclamation mark. -/
theorem exists_mark_of_statement {t rest : Text} {s : Node}
    (h : (within limit).statement t = .ok (some s, rest)) :
    ∃ u, t = (u ++ ['!']) ++ rest :=
  Grammar.exists_mark_of_statement ((reports_within limit).statement.found h)

/-- The loop over statements that a program is. -/
theorem runs_program : Runs (Repeats (within limit).statement) (program limit) :=
  runs_many (reports_within limit).statement.obeys

/-- Reading a program breaks off, or it gives statements up to where no statement is found. -/
theorem program_cases (t : Text) :
    (∃ e, program limit t = .error e) ∨
      ∃ ss rest, program limit t = .ok (some ss, rest) ∧ rest <:+ t ∧
        (within limit).statement rest = .ok (none, rest) := by
  obtain ⟨n, -, hloop, -⟩ := runs_program limit t
  rcases hprogram : program limit t with e | ⟨found?, rest⟩
  · exact .inl ⟨e, rfl⟩
  · obtain ⟨⟨ss, rfl⟩, hends⟩ := hloop.ends hprogram
    refine .inr ⟨ss, rest, rfl, (reports_program limit).obeys.suffix hprogram, ?_⟩
    rcases hends with ⟨rest', hnone⟩ | ⟨s, hstuck⟩
    · rw [hnone, (reports_within limit).statement.obeys.unchanged hnone]
    · exact absurd (progresses_statement limit _ _ s hstuck) (Nat.lt_irrefl _)

end Statements

/-- The contract of the grammar. Every rule breaks off, or leaves the text alone without a value, or
    takes something with one; a statement is taken up to its exclamation mark. The loops over
    statements come to their ends, and a program is read up to where there is no statement. What the
    combinators compose of extractors that obey obeys, as long as sequences have values, and what the
    loops among them give is what they do step by step. The rules are those that programs are read
    with. -/
theorem rules_keep_contract (limit : Nat) :
    (∀ r : Rule, Obeys (r.extractor limit) ∧ Progresses (r.extractor limit)) ∧
    (∀ t s rest, (within limit).statement t = .ok (some s, rest) →
      ∃ u, t = (u ++ ['!']) ++ rest) ∧
    Runs (Repeats (within limit).statement) (program limit) ∧
    (∀ closing, Runs (fun t => RepeatsUntil closing (within limit).statement t t)
      (multipleUntil closing (within limit).statement)) ∧
    (∀ t, (∃ e, program limit t = .error e) ∨
      ∃ ss rest, program limit t = .ok (some ss, rest) ∧ rest <:+ t ∧
        (within limit).statement rest = .ok (none, rest)) ∧
    (∀ (α : Type) (p : Extractor α), Composed p → Obeys p ∧ Runs (Repeats p) (many p) ∧
      (Progresses p → ∀ closing, Runs (fun t => RepeatsUntil closing p t t)
        (multipleUntil closing p))) ∧
    (∀ r : Rule, r.extractor limit = (r.reader limit).report) ∧
    program limit = (Grammar.program limit).report :=
  ⟨fun r => ⟨(r.reports limit).obeys, r.progresses limit⟩,
    fun _ _ _ => exists_mark_of_statement limit, runs_program limit,
    runs_multipleUntil (progresses_statement limit), program_cases limit,
    fun _ _ h => ⟨h.obeys, runs_many h.obeys, runs_multipleUntil⟩,
    fun r => (r.reports limit).eq_report, (reports_program limit).eq_report⟩

theorem rules_keep_contract_null :
    (within 2).statement "nix! nix".toList =
      .ok (some (.evaluation (.literal .null)), " nix".toList) ∧
    (∃ u, "nix! nix".toList = (u ++ ['!']) ++ " nix".toList) ∧
    Obeys (many (either [Extraction.null, Extraction.boolean])) := by
  have hread : (within 2).statement "nix! nix".toList =
      .ok (some (.evaluation (.literal .null)), " nix".toList) := by rfl
  have hcontract := rules_keep_contract 2
  have hparts : ∀ p ∈ [Extraction.null, Extraction.boolean], Composed p :=
    List.forall_mem_cons.2 ⟨.part (hcontract.1 .null).1,
      List.forall_mem_singleton.2 (.part (hcontract.1 .boolean).1)⟩
  exact ⟨hread, hcontract.2.1 _ _ _ hread, (hcontract.2.2.2.2.2.1 _ _ (.many (.either hparts))).1⟩

end Extraction

end Klartext
