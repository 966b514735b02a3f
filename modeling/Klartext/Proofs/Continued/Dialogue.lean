import Klartext.CommandLine.Dialogue
import Klartext.Proofs.Continued.Program
import Klartext.Proofs.Depth.Grammar

set_option autoImplicit false

/-! # Statements that are entered line by line

The interactive mode collects lines until what is collected is complete. As long as lines of one
statement are missing it is not, so that nothing is run before the last line, and then the statement
is run as what it is. -/

namespace Klartext

open Reader Rules

/-! ## Lines -/

theorem toList_lines_append {before behind : List String} (hbefore : before ≠ [])
    (hbehind : behind ≠ []) :
    ("\n".intercalate (before ++ behind)).toList =
      ("\n".intercalate before).toList ++ '\n' :: ("\n".intercalate behind).toList := by
  rw [String.intercalate_append_of_ne_nil hbefore hbehind, String.toList_append,
    String.toList_append, List.append_assoc]
  rfl

theorem exists_toList_lines (line : String) (behind : List String) :
    ∃ more, ("\n".intercalate (line :: behind)).toList = line.toList ++ more := by
  by_cases hne : behind = []
  · subst hne
    exact ⟨[], by rw [String.intercalate_singleton, List.append_nil]⟩
  · have happend := toList_lines_append (List.cons_ne_nil line []) hne
    rw [List.singleton_append, String.intercalate_singleton] at happend
    exact ⟨_, happend⟩

/-- Lines hold only whitespace if their text does. -/
theorem isBlank_of_isBlank_lines {lines : List String}
    (h : Text.isBlank ("\n".intercalate lines).toList = true) :
    ∀ line ∈ lines, Text.isBlank line.toList = true := by
  induction lines with
  | nil => exact List.forall_mem_nil _
  | cons line lines ih =>
      by_cases hne : lines = []
      · subst hne
        rw [String.intercalate_singleton] at h
        exact List.forall_mem_singleton.2 h
      · have happend := toList_lines_append (List.cons_ne_nil line []) hne
        rw [List.singleton_append, String.intercalate_singleton] at happend
        rw [happend, List.append_cons, Text.isBlank_append, Text.isBlank_append] at h
        exact List.forall_mem_cons.2 ⟨h.1.1, ih h.2⟩

/-- Some of the lines hold more than whitespace. -/
def HasText (lines : List String) : Prop := ∃ line ∈ lines, Text.isBlank line.toList = false

theorem HasText.not_blank {lines : List String} (h : HasText lines) :
    Text.isBlank ("\n".intercalate lines).toList = false := by
  obtain ⟨line, hline, hblank⟩ := h
  refine Bool.eq_false_iff.2 fun hlines => ?_
  rw [isBlank_of_isBlank_lines hlines line hline] at hblank
  cases hblank

theorem HasText.ne_nil {lines : List String} (h : HasText lines) : lines ≠ [] := by
  obtain ⟨line, hline, -⟩ := h
  exact List.ne_nil_of_mem hline

/-! ## Commands -/

namespace Grammar

/-- The words with which statements begin. -/
def statementWords : List (List Text) :=
  Layer.logical.leads ++ ["stimmt,".toList] :: ["die".toList, "Funktion".toList] ::
    ["gib".toList] :: ["zeig".toList] :: articleWords

theorem starts_statement (limit : Nat) : Starts statementWords (within limit).statement := by
  cases limit with
  | zero => exact ⟨nofun⟩
  | succ limit =>
      refine starts_blanks fun _ => starts_firstOf fun reader hreader => ?_
      obtain ⟨form, hform, rfl⟩ := List.mem_map.1 hreader
      refine Starts.andThen (f := close) ?_
      have hevaluation : Starts Layer.logical.leads (evaluation (within limit)) :=
        ((steady_within limit).starts .logical).andThen
      simp only [forms, List.mem_cons, List.not_mem_nil, or_false] at hform
      rcases hform with rfl | rfl | rfl | rfl | rfl | rfl
      · exact hevaluation.mono (by decide)
      · exact leads_conditional.starts.mono (by decide)
      · exact leads_function.starts.mono (by decide)
      · exact leads_definition.starts.mono (by decide)
      · exact leads_giveBack.starts.mono (by decide)
      · exact leads_print.starts.mono (by decide)

end Grammar

namespace Dialogue

/-- The words with which commands begin. -/
def commandWords : List (List Text) :=
  [[exitCommand.toList], [":parse".toList], [":env".toList], [":help".toList]]

theorem begins_trim {t : Text} {w : Text} (h : t.trim = w) (more : Text) :
    Begins [w] (t ++ more) := by
  obtain ⟨l, r, ht, hl, -⟩ := Text.exists_trim t
  rw [ht, h]
  exact ⟨l, w, r ++ more, by simp, hl, .word w⟩

/-- A line with which a statement begins is no command. -/
theorem ofLine_eq_code {line : String} (hblank : Text.isBlank line.toList = false) {more : Text}
    {ws : List Text} (hws : ws ∈ Grammar.statementWords) (hbegins : Begins ws (line.toList ++ more)) :
    Command.ofLine line = .code := by
  -- no statement begins with the word of a command, wherever in the line the words end
  have hno {w : Text} (hw : [w] ∈ commandWords) : ¬ Begins [w] (line.toList ++ more) := fun h =>
    not_begins_of_clash (clash_of_clashAll (L := commandWords) (M := Grammar.statementWords)
      (by decide) hw hws) h hbegins
  have htrim {w : Text} (hw : [w] ∈ commandWords) : (Text.trim line.toList == w) = false :=
    beq_eq_false_iff_ne.2 fun h => hno hw (begins_trim h more)
  have hne : (Text.trim line.toList).isEmpty = false := by
    refine Bool.eq_false_iff.2 fun hempty => ?_
    obtain ⟨l, r, ht, hl, hr⟩ := Text.exists_trim line.toList
    rw [List.isEmpty_iff.1 hempty, List.nil_append] at ht
    rw [ht, Text.isBlank_append.2 ⟨hl, hr⟩] at hblank
    cases hblank
  have hparse : ":parse ".toList.isPrefixOf line.toList = false := by
    refine Bool.eq_false_iff.2 fun hprefix => ?_
    obtain ⟨u, hu⟩ := List.isPrefixOf_iff_prefix.1 hprefix
    refine hno (w := ":parse".toList) (by decide) ⟨[], ":parse".toList, ' ' :: (u ++ more), ?_, rfl,
      .word _⟩
    rw [← hu]
    rfl
  rw [Command.ofLine]
  simp only [htrim (w := exitCommand.toList) (by decide), htrim (w := ":env".toList) (by decide),
    htrim (w := ":help".toList) (by decide), hne, hparse, Bool.false_eq_true, if_false]

/-! ## Collecting -/

/-- What is shown of a program that was just read, and the session after running it. A traced session
    leaves on record that the program was read, both when it was tested and when it was run. -/
def execute (s : Session) (program : List Node) : String × Session :=
  let tested := s.recordParsed program unnamed
  let (outcome, after) := (tested.recordParsed program unnamed).interpret program
  (tested.machine.outputFrom s.machine.events.size ++
    (after.machine.outputFrom tested.machine.events.size ++ report outcome), after)

section Collect

variable {s : Session} {before : List String} {line : String}

theorem collect_rejected (hblank : Text.isBlank line.toList = false) {r : Rejection}
    (h : parseProgram s.limits.source ("\n".intercalate (before ++ [line])).toList unnamed =
      .error (.rejected r)) : collect ⟨s, before⟩ line = .next "" ⟨s, before ++ [line]⟩ := by
  simp only [collect, hblank, Bool.false_eq_true, if_false, h]

theorem limits_recordParsed (s : Session) (program : List Node) :
    (s.recordParsed program unnamed).limits = s.limits := by
  rw [Session.recordParsed]
  split <;> rfl

theorem collect_read (hblank : Text.isBlank line.toList = false) {program : List Node}
    (h : parseProgram s.limits.source ("\n".intercalate (before ++ [line])).toList unnamed =
      .ok program) :
    collect ⟨s, before⟩ line = .next (execute s program).1 ⟨(execute s program).2, []⟩ := by
  have hrun : (s.recordParsed program unnamed).run ("\n".intercalate (before ++ [line])) =
      .ok (((s.recordParsed program unnamed).recordParsed program unnamed).interpret program) :=
    Session.run_of_parseProgram (by rw [limits_recordParsed, h])
  simp only [collect, hblank, Bool.false_eq_true, if_false, h, submit, hrun]
  rfl

theorem answer_eq_collect (h : before ≠ [] ∨ Command.ofLine line = .code) :
    answer ⟨s, before⟩ line = collect ⟨s, before⟩ line := by
  rw [answer]
  rcases h with hne | hcode
  · rw [if_neg (by simpa using hne)]
  · rw [hcode]
    split <;> rfl

end Collect

/-! ## Lines of one statement -/

/-- The first statement that is found in the lines holds a definition that gives way to the lines
    behind them. -/
def Premature (limit : Nat) (lines behind : List String) : Prop :=
  Grammar.FirstGivesWay limit ("\n".intercalate lines).toList
    ('\n' :: ("\n".intercalate behind).toList)

/-- What stands in the way of recognising a beginning for what it is: a definition in it that gives
    way, or too many digits. -/
def Doubtful (limit : Nat) (lines behind : List String) : Prop :=
  Premature limit lines behind ∨ ∃ count, LongFraction count ("\n".intercalate lines).toList

section Statement

variable {limit : Nat} {lines before behind : List String} {node : Node}

theorem parse_beginning
    (hread : parseProgram limit ("\n".intercalate lines).toList unnamed = .ok [node])
    (hlines : lines = before ++ behind) (hbefore : HasText before) (hbehind : HasText behind) :
    (∃ r, parseProgram limit ("\n".intercalate before).toList unnamed = .error (.rejected r)) ∨
    (∃ ss, parseProgram limit ("\n".intercalate before).toList unnamed = .ok ss ∧
      Premature limit before behind) ∨
    ∃ count, parseProgram limit ("\n".intercalate before).toList unnamed =
      .error (.tooManyDigits count) ∧ LongFraction count ("\n".intercalate before).toList := by
  rw [hlines, toList_lines_append hbefore.ne_nil hbehind.ne_nil] at hread
  refine parseProgram_beginning hread hbefore.not_blank ?_
  rw [Text.isBlank, List.all_cons, Bool.and_eq_false_iff]
  exact .inr hbehind.not_blank

/-- Of the lines of one statement, no beginning is complete as long as there is something behind it,
    unless a definition in it gives way to what stands there. -/
theorem isComplete_beginning
    (hread : parseProgram limit ("\n".intercalate lines).toList unnamed = .ok [node])
    (hlines : lines = before ++ behind) (hbefore : HasText before) (hbehind : HasText behind) :
    isComplete limit ("\n".intercalate before) = .ok false ∨
    (isComplete limit ("\n".intercalate before) = .ok true ∧ Premature limit before behind) ∨
    ∃ count, isComplete limit ("\n".intercalate before) = .error (.tooManyDigits count) ∧
      LongFraction count ("\n".intercalate before).toList := by
  rcases parse_beginning hread hlines hbefore hbehind with
    ⟨r, hrejected⟩ | ⟨ss, hok, hpremature⟩ | ⟨count, herror, hlong⟩
  · exact .inl (by rw [isComplete, hrejected])
  · exact .inr (.inl ⟨by rw [isComplete, hok], hpremature⟩)
  · exact .inr (.inr ⟨count, by rw [isComplete, herror], hlong⟩)

/-- Where nothing is doubtful about a beginning, it is collected and nothing else happens. -/
theorem collect_beginning {s : Session} {line : String}
    (hread : parseProgram s.limits.source ("\n".intercalate lines).toList unnamed = .ok [node])
    (hlines : lines = before ++ line :: behind) (hline : Text.isBlank line.toList = false)
    (hbehind : HasText behind)
    (hclear : ¬ Doubtful s.limits.source (before ++ [line]) behind) :
    collect ⟨s, before⟩ line = .next "" ⟨s, before ++ [line]⟩ := by
  have hlines' : lines = (before ++ [line]) ++ behind := by rw [hlines, List.append_assoc]; rfl
  have hbefore : HasText (before ++ [line]) := ⟨line, by simp, hline⟩
  rcases parse_beginning hread hlines' hbefore hbehind with
    ⟨r, hrejected⟩ | ⟨ss, -, hpremature⟩ | ⟨count, -, hlong⟩
  · exact collect_rejected hline hrejected
  · exact absurd (.inl hpremature) hclear
  · exact absurd (.inr ⟨count, hlong⟩) hclear

end Statement

/-! ## The dialogue -/

/-- The session with other lines to read. -/
def withInput (s : Session) (input : List String) : Session :=
  { s with machine := { s.machine with inputs := s.machine.inputs.set! 0 input } }

theorem nextLine?_withInput {s : Session} (h : 0 < s.machine.inputs.size) (line : String)
    (rest : List String) : nextLine? (withInput s (line :: rest)) = some (line, withInput s rest) := by
  have hfirst : (s.machine.inputs.set! 0 (line :: rest))[0]? = some (line :: rest) := by
    rw [Array.set!_eq_setIfInBounds, Array.getElem?_setIfInBounds_self_of_lt h]
  rw [nextLine?, withInput, hfirst]
  simp only [withInput, Array.set!_eq_setIfInBounds, Array.setIfInBounds_setIfInBounds]

theorem withInput_self {s : Session} {input : List String}
    (h : s.machine.inputs[0]? = some input) : withInput s input = s := by
  have hsame : s.machine.inputs.set! 0 input = s.machine.inputs := by
    refine Array.ext_getElem? fun i => ?_
    rw [Array.set!_eq_setIfInBounds, Array.getElem?_setIfInBounds]
    split
    · rename_i hi
      subst hi
      split
      · exact h.symm
      · rename_i hsize
        rw [Array.getElem?_eq_none (Nat.le_of_not_lt hsize)] at h
        cases h
    · rfl
  rw [withInput, hsame]

theorem after_after (a b : String) (t : Transcript) : (t.after b).after a = t.after (a ++ b) := by
  rw [Transcript.after, Transcript.after, Transcript.after, String.append_assoc]

/-- A line that is answered with text. -/
theorem converse_next {s : Session} {before : List String} {line output : String}
    {rest : List String} {next : State} {bound : Nat} (hsize : 0 < s.machine.inputs.size)
    (h : answer ⟨withInput s rest, before⟩ line = .next output next) :
    converse (bound + 1) ⟨withInput s (line :: rest), before⟩ =
      (converse bound next).after (prompt ⟨s, before⟩ ++ output) := by
  rw [converse, nextLine?_withInput hsize]
  simp only [h]
  rfl

section Converse

variable {s : Session} {lines before behind others : List String} {node : Node} {bound : Nat}
  (hread : parseProgram s.limits.source ("\n".intercalate lines).toList unnamed = .ok [node])
  (hblank : ∀ line ∈ lines, Text.isBlank line.toList = false)
  (hclear : ∀ before behind, lines = before ++ behind → before ≠ [] → behind ≠ [] →
    ¬ Doubtful s.limits.source before behind)
  (hsize : 0 < s.machine.inputs.size)
include hread hblank hclear hsize

/-- From the next line of the statement on: every line but the last is collected, and with the last one
    the statement is run. -/
theorem converse_lines {line : String} (hlines : lines = before ++ line :: behind)
    (hcode : before ≠ [] ∨ Command.ofLine line = .code) :
    converse (bound + behind.length + 1) ⟨withInput s (line :: (behind ++ others)), before⟩ =
      (converse bound ⟨(execute (withInput s others) [node]).2, []⟩).after
        (prompt ⟨s, before⟩ ++ (String.join (List.replicate behind.length "...> ") ++
          (execute (withInput s others) [node]).1)) := by
  have hline : Text.isBlank line.toList = false := hblank line (by simp [hlines])
  induction behind generalizing before line with
  | nil =>
      rw [hlines] at hread
      have hanswer : answer ⟨withInput s others, before⟩ line =
          .next (execute (withInput s others) [node]).1
            ⟨(execute (withInput s others) [node]).2, []⟩ :=
        (answer_eq_collect hcode).trans (collect_read hline hread)
      exact converse_next hsize hanswer
  | cons next behind ih =>
      -- the line joins those that were collected, and the statement goes on with the next one
      have hlines' : lines = (before ++ [line]) ++ next :: behind := by
        rw [hlines, List.append_assoc]
        rfl
      have hnext : Text.isBlank next.toList = false := hblank next (by simp [hlines])
      have hcollect : collect ⟨withInput s ((next :: behind) ++ others), before⟩ line =
          .next "" ⟨withInput s ((next :: behind) ++ others), before ++ [line]⟩ :=
        collect_beginning hread hlines hline ⟨next, by simp, hnext⟩
          (hclear _ _ hlines' (by simp) (by simp))
      have hrest := ih hlines' (.inl (by simp)) hnext
      rw [List.length_cons, ← Nat.add_assoc,
        converse_next hsize ((answer_eq_collect hcode).trans hcollect), List.cons_append, hrest,
        after_after, List.replicate_succ, String.join_cons]
      have hprompt : prompt ⟨s, before ++ [line]⟩ = "...> " := by
        rw [prompt, if_neg (by simp)]
      rw [hprompt, String.append_empty, String.append_assoc]

/-- Before a statement is entered, nothing has been collected. -/
theorem converse_statement (hinput : s.machine.inputs[0]? = some (lines ++ others)) :
    converse (bound + lines.length) ⟨s, []⟩ =
      (converse bound ⟨(execute (withInput s others) [node]).2, []⟩).after
        ("klartext> " ++ (String.join (List.replicate (lines.length - 1) "...> ") ++
          (execute (withInput s others) [node]).1)) := by
  obtain ⟨rest, hprogram, -⟩ := parseProgram_eq_ok.1 hread
  obtain ⟨u, hstatement, -⟩ := exists_of_many_cons hprogram
  obtain ⟨ws, hws, hbegins⟩ := (Grammar.starts_statement _).begins hstatement
  cases lines with
  | nil =>
      -- there is no exclamation mark in nothing
      obtain ⟨x, ht⟩ := Grammar.exists_mark_of_statement hstatement
      simp at ht
  | cons line behind =>
      obtain ⟨more, hmore⟩ := exists_toList_lines line behind
      rw [hmore] at hbegins
      have hcode := ofLine_eq_code (hblank line List.mem_cons_self) hws hbegins
      conv => lhs; rw [← withInput_self hinput]
      exact converse_lines hread hblank hclear hsize rfl (.inr hcode)

end Converse

/-- A statement that is entered line by line. No beginning of its lines is complete as long as
    something is missing, and the dialogue comes to running the whole as the one statement that it is,
    with nothing shown before but what asks for the lines. A beginning with a definition in its first
    statement that gives way to what stands behind is complete all the same, and too many digits in it
    end the dialogue. -/
theorem lines_of_statement {s : Session} {lines : List String} {node : Node}
    (hread : parseProgram s.limits.source ("\n".intercalate lines).toList unnamed = .ok [node]) :
    (∀ n, HasText (lines.take n) → HasText (lines.drop n) →
      isComplete s.limits.source ("\n".intercalate (lines.take n)) = .ok false ∨
      (isComplete s.limits.source ("\n".intercalate (lines.take n)) = .ok true ∧
        Premature s.limits.source (lines.take n) (lines.drop n)) ∨
      ∃ count, isComplete s.limits.source ("\n".intercalate (lines.take n)) =
          .error (.tooManyDigits count) ∧
        LongFraction count ("\n".intercalate (lines.take n)).toList) ∧
    ∀ (others : List String) (bound : Nat), s.machine.inputs[0]? = some (lines ++ others) →
      (∀ line ∈ lines, Text.isBlank line.toList = false) →
      (∀ n, 0 < n → n < lines.length → ¬ Doubtful s.limits.source (lines.take n) (lines.drop n)) →
      converse (bound + lines.length) ⟨s, []⟩ =
        (converse bound ⟨(execute (withInput s others) [node]).2, []⟩).after
          ("klartext> " ++ (String.join (List.replicate (lines.length - 1) "...> ") ++
            (execute (withInput s others) [node]).1)) := by
  refine ⟨fun n => isComplete_beginning hread (List.take_append_drop n lines).symm,
    fun others bound hinput hblank hclear => ?_⟩
  obtain ⟨hsize, -⟩ := Array.getElem?_eq_some_iff.1 hinput
  refine converse_statement hread hblank (fun before behind hlines hbefore hbehind => ?_) hsize hinput
  have hlength := congrArg List.length hlines
  rw [List.length_append] at hlength
  have hpos := List.length_pos_iff.2 hbefore
  have hpos' := List.length_pos_iff.2 hbehind
  have hdoubt := hclear before.length hpos (by omega)
  rwa [hlines, List.take_left, List.drop_left] at hdoubt

/-- The lines are read as the function `f` without parameters that gives back `nix`. -/
def isGiver : Except SourceFault (List Node) → Bool
  | .ok [.function name [] [.giveBack (.literal .null)]] => name == "f"
  | _ => false

theorem eq_of_isGiver {r : Except SourceFault (List Node)} (h : isGiver r = true) :
    r = .ok [.function "f" [] [.giveBack (.literal .null)]] := by
  unfold isGiver at h
  split at h
  · rw [beq_iff_eq.1 h]
  · cases h

/-- Nothing is doubtful about lines without a comma at which no statement is found. -/
theorem not_doubtful {limit : Nat} {lines behind : List String}
    (hcomma : ',' ∉ ("\n".intercalate lines).toList)
    (hmissed : ((Grammar.within limit).statement ("\n".intercalate lines).toList
      matches .missed) = true) : ¬ Doubtful limit lines behind := by
  rintro (⟨depth, inner, u, rfl, hinside, -⟩ | ⟨count, a, places, b, ht, -⟩)
  · obtain ⟨s, rest, hread⟩ := hinside.exists_found
    have hfound : (Grammar.within (depth + 1)).statement ("\n".intercalate lines).toList =
        .found s rest := hread
    rw [hfound] at hmissed
    cases hmissed
  · exact hcomma (ht ▸ by simp)

theorem lines_of_statement_function :
    let lines := ["die Funktion f macht", "gib nix zurück!", "und endet hier!"]
    parseProgram Grammar.depthLimit ("\n".intercalate lines).toList unnamed =
        .ok [.function "f" [] [.giveBack (.literal .null)]] ∧
      isComplete Grammar.depthLimit ("\n".intercalate (lines.take 2)) = .ok false ∧
      (converse 4 ⟨Session.start lines false, []⟩).output =
        "klartext> ...> ...> klartext> \nGoodbye!\n" := by
  intro lines
  have hread : parseProgram Grammar.depthLimit ("\n".intercalate lines).toList unnamed =
      .ok [.function "f" [] [.giveBack (.literal .null)]] := eq_of_isGiver (by decide +kernel)
  have hclear : ∀ n, 0 < n → n < lines.length →
      ¬ Doubtful Grammar.depthLimit (lines.take n) (lines.drop n) := by
    intro n hpos hlt
    obtain rfl | rfl : n = 1 ∨ n = 2 := by
      have hlength : lines.length = 3 := rfl
      omega
    · exact not_doubtful (by decide +kernel) (by decide +kernel)
    · exact not_doubtful (by decide +kernel) (by decide +kernel)
  have hlines := lines_of_statement (s := Session.start lines false) hread
  refine ⟨hread, ?_, ?_⟩
  · refine (hlines.1 2 ⟨_, List.mem_cons_self, by decide⟩
      ⟨_, List.mem_cons_self, by decide⟩).resolve_right ?_
    rintro (⟨-, hpremature⟩ | ⟨count, -, hlong⟩)
    · exact hclear 2 (by decide) (by decide) (.inl hpremature)
    · exact hclear 2 (by decide) (by decide) (.inr ⟨count, hlong⟩)
  · have hconverse := hlines.2 [] 1 rfl (by decide +kernel) hclear
    rw [show 4 = 1 + lines.length from rfl, hconverse]
    decide +kernel

/-- A text is read as one function. -/
def isFunction : Except SourceFault (List Node) → Bool
  | .ok [.function _ _ _] => true
  | _ => false

theorem exists_of_isFunction {r : Except SourceFault (List Node)} (h : isFunction r = true) :
    ∃ name parameters body, r = .ok [.function name parameters body] := by
  unfold isFunction at h
  split at h
  · exact ⟨_, _, _, rfl⟩
  · cases h

theorem isComplete_of_isOk {limit : Nat} {source : String}
    (h : (parseProgram limit source.toList unnamed).isOk = true) :
    isComplete limit source = .ok true := by
  rw [isComplete]
  split
  · rfl
  · rename_i hread
    rw [hread] at h
    cases h
  · rename_i hread
    rw [hread] at h
    cases h

/-- The first two lines of a function are complete: they define a variable, and all that stands before
    `ist` is its name. Where a blank line comes behind a function, the lines before it are complete
    too, as they should be. -/
theorem misread_beginning :
    let lines := ["die Funktion f macht", "der Wert ist 5!", "und endet hier!"]
    ((∃ name parameters body, parseProgram Grammar.depthLimit ("\n".intercalate lines).toList
        unnamed = .ok [.function name parameters body]) ∧
      isComplete Grammar.depthLimit ("\n".intercalate (lines.take 2)) = .ok true) ∧
    (∃ name parameters body, parseProgram Grammar.depthLimit
        ("\n".intercalate (lines ++ [""])).toList unnamed = .ok [.function name parameters body]) ∧
      isComplete Grammar.depthLimit ("\n".intercalate lines) = .ok true :=
  ⟨⟨exists_of_isFunction (by decide +kernel), isComplete_of_isOk (by decide +kernel)⟩,
    exists_of_isFunction (by decide +kernel), isComplete_of_isOk (by decide +kernel)⟩

end Dialogue

end Klartext
