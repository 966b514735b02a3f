import Klartext.Proofs.Continued.Joined
import Klartext.Proofs.Continued.Trailing

set_option autoImplicit false

/-! # Whitespace around a program

Whitespace in front of a program and behind it changes nothing about its statements. In front it is
skipped. Behind it every rule could come upon it, but a rule that is tried on a program has the last
exclamation mark still ahead of it: so all rules are unmoved, expressions and statements alike, at
every depth of nesting. -/

namespace Klartext

open Reader Rules
open Text (Sealed Ended Firm)

/-- The readers for nested parts are unmoved. The exclamation mark of a statement may be the last. -/
structure Nested.Unmoved (nested : Nested) : Prop where
  expression : ∀ layer, Reader.Unmoved Sealed Sealed (nested.expression layer)
  statement : Reader.Unmoved Ended Ended nested.statement

namespace Grammar

/-! ## Expressions -/

theorem unmoved_primitive : Unmoved Sealed Sealed primitive :=
  unmoved_between.map.orElse
    (stopsAtMark_number.orElse (stopsAtMark_boolean.orElse stopsAtMark_null)).unmoved

theorem unmoved_reference : Unmoved Sealed Sealed reference :=
  stopsAtMark_variableReference.unmoved.orElse unmoved_primitive

theorem unmoved_spoken (form : String × Operator) (hform : '!' ∉ (Text.words form.1.toList).flatten)
    {operand : Reader Node} (hoperand : Unmoved Sealed Sealed operand) :
    Unmoved Sealed Sealed (spoken form operand) := by
  refine (stopsAtMark_phrase hform).then fun _ => stopsAtMark_blanks1.then fun _ =>
    hoperand.bind fun left => ?_
  exact stopsAtMark_blanks1.then fun _ => (stopsAtMark_phrase (by decide)).then fun _ =>
    stopsAtMark_blanks1.then fun _ => hoperand.map

theorem unmoved_tail {operators : List (String × Operator)} {right : Reader Node}
    (hmark : ∀ o ∈ operators, '!' ∉ (Text.words o.1.toList).flatten)
    (hright : Unmoved Sealed Sealed right) (left : Node) :
    Unmoved Sealed Sealed (tail operators right left) := by
  rw [tail_eq]
  refine Unmoved.orElse (unmoved_firstOf fun reader hreader => ?_) (unmoved_pure left)
  obtain ⟨o, ho, rfl⟩ := List.mem_map.1 hreader
  exact stopsAtMark_blanks1.then fun _ => (stopsAtMark_phrase (hmark o ho)).then fun _ =>
    stopsAtMark_blanks1.then fun _ => hright.map

section Expressions

variable {nested : Nested} (h : nested.Reads)
include h

theorem unmoved_expressions {ending : Text} (hfirm : Firm ending) :
    Unmoved Sealed Sealed (listUntil ending (nested.expression .logical) nested.room) :=
  unmoved_listUntil hfirm (h.expression .logical) nested.room

theorem unmoved_functionCall : Unmoved Sealed Sealed (functionCall nested) := by
  have haus : Firm " aus".toList := ⟨" au".toList, 's', rfl, by decide, by decide⟩
  have hmit : StopsAtMark (nameUntil " mit ".toList [" aus".toList, "!".toList]) :=
    stopsAtMark_nameUntil (by decide) (by decide)
  have hbare : StopsAtMark (nameUntil " aus".toList ["!".toList]) :=
    stopsAtMark_nameUntil (by decide) (by decide)
  refine (stopsAtMark_phrase (by decide)).then fun _ => stopsAtMark_blanks1.then fun _ => ?_
  refine Unmoved.orElse ?_ (hbare.then fun _ => unmoved_pure _)
  exact hmit.then fun name => ((unmoved_expressions h haus).orRefuse _).map

omit h in
/-- In a text without an exclamation mark, the space behind `mit` makes a call of what was none. -/
example : functionCall (within 1) "führe f mit".toList = .missed ∧
    ∃ e, functionCall (within 1) "führe f mit ".toList = .broken e :=
  ⟨by rfl, _, by rfl⟩

theorem unmoved_call : Unmoved Sealed Sealed (call nested) :=
  (unmoved_functionCall h).orElse unmoved_reference

variable (hs : nested.Unmoved)
include hs

theorem unmoved_concat : Unmoved Sealed Sealed (concat nested) :=
  (unmoved_spoken concatForm (by decide) (hs.expression .concat)).orElse (unmoved_call h)

theorem unmoved_arithmetic : Unmoved Sealed Sealed (arithmetic nested) := by
  refine Unmoved.orElse (unmoved_firstOf fun reader hreader => ?_) (unmoved_concat h hs)
  obtain ⟨form, hform, rfl⟩ := List.mem_map.1 hreader
  have hmark : ∀ form ∈ arithmeticForms, '!' ∉ (Text.words form.1.toList).flatten := by decide
  exact unmoved_spoken form (hmark form hform) (hs.expression .arithmetic)

theorem unmoved_comparison : Unmoved Sealed Sealed (comparison nested) :=
  (unmoved_arithmetic h hs).bind fun left =>
    unmoved_tail (by decide) (hs.expression .comparison) left

theorem unmoved_logical : Unmoved Sealed Sealed (logical nested) :=
  (unmoved_comparison h hs).bind fun left =>
    unmoved_tail (by decide) (hs.expression .logical) left

theorem unmoved_expression (layer : Layer) : Unmoved Sealed Sealed (expression nested layer) := by
  cases layer with
  | logical => exact unmoved_logical h hs
  | comparison => exact unmoved_comparison h hs
  | arithmetic => exact unmoved_arithmetic h hs
  | concat => exact unmoved_concat h hs
  | call => exact unmoved_call h
  | reference => exact unmoved_reference
  | primitive => exact unmoved_primitive

end Expressions

/-! ## Statements -/

/-- An exclamation mark may be the last of the text. -/
theorem unmoved_close (node : Node) : Unmoved Sealed Ended (close node) := by
  -- the only phrase that takes an exclamation mark, and with it perhaps the last one
  have hmark : Unmoved Sealed Ended (phrase "!") := by
    refine ⟨fun {t} ht {blank} _ => ?_, fun ht h => ht.ended ((reads_phrase "!").suffix h)⟩
    match t with
    | [] => exact absurd ht.mark List.not_mem_nil
    | c :: t =>
        by_cases hc : c = '!'
        · subst hc
          have hfound (u : Text) : phrase "!" ('!' :: u) = .found () u := phrase_append rfl u
          rw [List.cons_append, hfound, hfound]
          exact .found () t
        · have hmissed (u : Text) : phrase "!" (c :: u) = .missed := by
            refine phrase_missed (w := ['!']) rfl fun hprefix => hc ?_
            exact (List.cons_prefix_cons.1 hprefix).1.symm
          rw [List.cons_append, hmissed, hmissed]
          exact .missed
  exact stopsAtMark_blanks.then fun _ => hmark.map

theorem unmoved_closed {form : Reader Node} (h : Unmoved Sealed Sealed form) :
    Unmoved Sealed Ended (closed form) := by
  rw [closed_eq]
  exact h.bind unmoved_close

section Forms

variable {depth : Nat} (hs : (within depth).Unmoved)
include hs

theorem unmoved_block {closing : String} (hclosing : '!' ∉ (Text.words closing.toList).flatten)
    (hnil : phrase closing [] = .missed) :
    Unmoved Sealed Sealed (manyUntil (within depth).statement closing) :=
  (Unmoved.manyUntil length_lt_of_statement hs.statement hclosing hnil).restrict fun _ => .inl

theorem unmoved_body : Unmoved Sealed Sealed (body (within depth)) :=
  unmoved_block hs (by decide) (phrase_missed rfl (by decide))

theorem unmoved_clause : Unmoved Sealed Sealed (clause (within depth)) := by
  refine (stopsAtMark_phrase (by decide)).then fun _ => stopsAtMark_blanks1.then fun _ => ?_
  exact (hs.expression .logical).bind fun condition => (stopsAtMark_closeClause condition).unmoved

theorem unmoved_conditional : Unmoved Sealed Sealed (conditional (within depth)) := by
  have helseIf : Unmoved Sealed Sealed (elseIf (within depth)) := by
    refine stopsAtMark_blanks1.then fun _ => (stopsAtMark_phrase (by decide)).then fun _ =>
      stopsAtMark_blanks1.then fun _ => ?_
    exact (unmoved_clause hs).bind fun condition => (unmoved_body hs).map
  have hotherwise : Unmoved Sealed Sealed (otherwise (within depth)) :=
    stopsAtMark_blanks1.then fun _ => (stopsAtMark_phrase (by decide)).then fun _ =>
      unmoved_body hs
  refine (stopsAtMark_phrase (by decide)).then fun _ => stopsAtMark_blanks1.then fun _ =>
    (unmoved_clause hs).bind fun condition => (unmoved_body hs).bind fun first => ?_
  exact helseIf.many.bind fun others => hotherwise.optional.bind fun last =>
    (stopsAtMark_phrase (by decide)).unmoved.map

omit hs in
theorem unmoved_signature (room : Nat) : Unmoved Sealed Sealed (signature room) := by
  have hmacht : Firm " und macht".toList := ⟨" und mach".toList, 't', rfl, by decide, by decide⟩
  have hkriegt : StopsAtMark (nameUntil " kriegt ".toList [" macht".toList, "!".toList]) :=
    stopsAtMark_nameUntil (by decide) (by decide)
  have hbare : StopsAtMark (nameUntil " macht".toList ["!".toList]) :=
    stopsAtMark_nameUntil (by decide) (by decide)
  refine Unmoved.orElse ?_ hbare.unmoved.map
  exact hkriegt.then fun name => (unmoved_listUntil hmacht reads_plainName room).map

theorem unmoved_function : Unmoved Sealed Sealed (function (within depth)) := by
  refine (stopsAtMark_phrase (by decide)).then fun _ => stopsAtMark_blanks1.then fun _ =>
    (unmoved_signature _).bind fun _ => ?_
  exact (unmoved_block hs (by decide) (phrase_missed rfl (by decide))).map

theorem unmoved_definition : Unmoved Sealed Sealed (definition (within depth)) := by
  have hname : StopsAtMark (nameUntil " ist".toList ["!".toList]) :=
    stopsAtMark_nameUntil (by decide) (by decide)
  refine (stopsAtMark_longestOf (by decide)).then fun _ => stopsAtMark_blanks1.then fun _ =>
    hname.then fun name => stopsAtMark_blanks1.then fun _ => ?_
  exact (hs.expression .logical).map

theorem unmoved_giveBack : Unmoved Sealed Sealed (giveBack (within depth)) := by
  refine (stopsAtMark_phrase (by decide)).then fun _ => stopsAtMark_blanks1.then fun _ => ?_
  exact (hs.expression .logical).bind fun value => (stopsAtMark_closeGiveBack value).unmoved

omit hs in
theorem unmoved_print : Unmoved Sealed Sealed (print (within depth)) := by
  have han : Firm " an".toList := ⟨" a".toList, 'n', rfl, by decide, by decide⟩
  refine (stopsAtMark_phrase (by decide)).then fun _ => stopsAtMark_blanks1.then fun _ => ?_
  exact (unmoved_expressions (reads_within depth) han).map

theorem unmoved_form {form : Reader Node} (hform : form ∈ forms (within depth)) :
    Unmoved Sealed Sealed form := by
  simp only [forms, List.mem_cons, List.not_mem_nil, or_false] at hform
  rcases hform with rfl | rfl | rfl | rfl | rfl | rfl
  · exact (hs.expression .logical).map
  · exact unmoved_conditional hs
  · exact unmoved_function hs
  · exact unmoved_definition hs
  · exact unmoved_giveBack hs
  · exact unmoved_print

theorem unmoved_statement : Unmoved Ended Ended (statement (within depth)) := by
  refine Unmoved.behind_blanks (unmoved_firstOf fun reader hreader => ?_) fun node rest h => ?_
  · obtain ⟨form, hform, rfl⟩ := List.mem_map.1 hreader
    exact unmoved_closed (unmoved_form hs hform)
  · -- there is an exclamation mark in every statement
    obtain ⟨used, hnil, hused⟩ := (reads_closedForms (reads_within depth)).found h
    obtain ⟨u, rfl⟩ := hused.mark
    simp at hnil

end Forms

/-- At every depth of nesting, statements and expressions are unmoved. -/
theorem unmoved_within (limit : Nat) : (within limit).Unmoved := by
  induction limit with
  | zero => exact ⟨fun _ => unmoved_breakOff .tooDeep, unmoved_breakOff .tooDeep⟩
  | succ limit ih => exact ⟨unmoved_expression (reads_within limit) ih, unmoved_statement ih⟩

/-! ## Programs -/

variable {limit : Nat}

/-- What is a program is sealed, unless it is nothing but whitespace. -/
theorem ended_of_program {t rest : Text} {ss : List Node} (h : program limit t = .found ss rest)
    (hrest : Text.isBlank rest = true) : Ended t := by
  rw [program] at h
  induction ss generalizing t with
  | nil =>
      obtain ⟨rfl, -⟩ := many_eq_nil h
      exact .inr hrest
  | cons s ss ih =>
      obtain ⟨u, hstatement, -, hothers⟩ := exists_of_many_cons h
      obtain ⟨v, rfl⟩ := exists_mark_of_statement hstatement
      rcases ih hothers with hsealed | hblank
      · exact .inl (hsealed.append _)
      · exact .inl ⟨v, u, by simp, hblank⟩

theorem program_in_front_of_blank {t rest blank : Text} {ss : List Node}
    (h : program limit t = .found ss rest) (hrest : Text.isBlank rest = true)
    (hblank : Text.isBlank blank = true) :
    program limit (t ++ blank) = .found ss (rest ++ blank) := by
  have hended := ended_of_program h hrest
  rw [program] at h ⊢
  rcases (unmoved_within limit).statement.many.readings hended hblank with
    ⟨ss', rest', hread, hmore, -⟩ | ⟨hread, -⟩ | ⟨e, e', hread, -⟩ <;> rw [h] at hread <;> cases hread
  exact hmore

end Grammar

/-- Whitespace in front of a source text and behind it does not change what statements it has. What
    the whole text is tried as, wherever the last exclamation mark is still ahead, comes to the same
    with the whitespace behind it, also where that is a miss. -/
theorem parseProgram_surrounded {limit : Nat} {s front behind : Text} {filename : String}
    {ss : List Node} (h : parseProgram limit s filename = .ok ss)
    (hfront : Text.isBlank front = true) (hbehind : Text.isBlank behind = true) :
    parseProgram limit (front ++ s ++ behind) filename = .ok ss ∧
      ∀ depth u, u <:+ s → '!' ∈ u →
        (∀ form ∈ Grammar.forms (Grammar.within depth), (Grammar.closed form u).Echoes behind
          (Grammar.closed form (u ++ behind))) ∧
        ∀ layer, ((Grammar.within depth).expression layer u).Echoes behind
          ((Grammar.within depth).expression layer (u ++ behind)) := by
  obtain ⟨rest, hprogram, hrest⟩ := parseProgram_eq_ok.1 h
  refine ⟨?_, fun depth u hu hmark => ?_⟩
  · have hmore := Grammar.program_in_front_of_blank hprogram hrest hbehind
    obtain ⟨rest', hwhole, hrest'⟩ := Grammar.program_behind_blank hfront hmore
      (Text.isBlank_append.2 ⟨hrest, hbehind⟩)
    rw [List.append_assoc]
    exact parseProgram_eq_ok.2 ⟨rest', hwhole, hrest'⟩
  · have hsealed := ((Grammar.ended_of_program hprogram hrest).of_suffix hu).sealed hmark
    have hunmoved := Grammar.unmoved_within depth
    exact ⟨fun form hform =>
        (Grammar.unmoved_closed (Grammar.unmoved_form hunmoved hform)).echoes hsealed hbehind,
      fun layer => (hunmoved.expression layer).echoes hsealed hbehind⟩

theorem parseProgram_surrounded_definition :
    let s := "der Gruß ist \"Hallo!\" !".toList
    let front := "\n\t".toList
    let behind := " \r\n".toList
    let ss : List Node := [.definition "Gruß" (.literal (.string "Hallo!"))]
    parseProgram Grammar.depthLimit s unnamed = .ok ss ∧
      Text.isBlank front = true ∧ Text.isBlank behind = true ∧
      parseProgram Grammar.depthLimit (front ++ s ++ behind) unnamed = .ok ss ∧
      ∀ form ∈ Grammar.forms (Grammar.within Grammar.depthLimit),
        (Grammar.closed form s).Echoes behind (Grammar.closed form (s ++ behind)) := by
  intro s front behind ss
  have hread : parseProgram Grammar.depthLimit s unnamed = .ok ss :=
    eq_of_defines (by decide +kernel)
  have hfront : Text.isBlank front = true := by decide
  have hbehind : Text.isBlank behind = true := by decide
  obtain ⟨hwhole, halternatives⟩ := parseProgram_surrounded hread hfront hbehind
  have hforms := halternatives Grammar.depthLimit s List.suffix_rfl (by decide)
  exact ⟨hread, hfront, hbehind, hwhole, hforms.1⟩

end Klartext
