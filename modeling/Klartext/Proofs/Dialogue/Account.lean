import Klartext.Proofs.Continued.Dialogue
import Klartext.Proofs.Evaluation.Handed

set_option autoImplicit false

/-! # The account of the lines

In the interactive mode the code, the commands and what the program reads share one input. Whenever
it asks for a line, there is an account of all lines before: an `Entry` says of one or more of them
what became of them, `History` puts the entries one behind the other, and what is in no entry is
still being collected. Nothing is lost, nothing is taken twice, and the order is that of the input
(`Dialogue.lines_accounted`). -/

namespace Klartext

namespace Dialogue

/-! ## The states in which a line is asked for -/

/-- After `count` answers, which showed `shown` together with what asked for the lines, the next line
    is asked for. -/
inductive Reached (start : State) : (count : Nat) → (shown : String) → State → Prop where
  | start : Reached start 0 "" start
  | next {count : Nat} {shown line output : String} {state next : State} {session : Session} :
      Reached start count shown state → nextLine? state.session = some (line, session) →
      answer { state with session := session } line = .next output next →
      Reached start (count + 1) (shown ++ (prompt state ++ output)) next

/-- The dialogue comes through these states. -/
theorem Reached.converse {start state : State} {count : Nat} {shown : String}
    (h : Reached start count shown state) (bound : Nat) :
    converse (bound + count) start = (converse bound state).after shown := by
  induction h generalizing bound with
  | start => simp [Transcript.after]
  | @next count shown line output state next session _ hline hanswer ih =>
      have hstep : Dialogue.converse (bound + 1) state =
          (Dialogue.converse bound next).after (prompt state ++ output) := by
        rw [Dialogue.converse, hline]
        simp only [hanswer]
      rw [show bound + (count + 1) = bound + 1 + count by omega, ih (bound + 1), hstep, after_after]

/-! ## Entries -/

/-- What became of lines that are not collected any more. -/
inductive Entry where
  /-- A blank line or a command, while nothing was collected. -/
  | command (line : String)
  /-- Lines that were submitted as one source text, and the lines that the program was handed. -/
  | source (lines handed : List String)

/-- The lines of an entry, in the order in which they were taken off the input. -/
def Entry.lines : Entry → List String
  | .command line => [line]
  | .source lines handed => lines ++ handed

/-- Lines that may be collected: none is blank, and no beginning of them is complete. -/
structure Pending (limit : Nat) (lines : List String) : Prop where
  not_blank : ∀ line ∈ lines, Text.isBlank line.toList = false
  incomplete : ∀ before behind, lines = before ++ behind → before ≠ [] →
    isComplete limit ("\n".intercalate before) = .ok false

/-- The first line is no command. -/
def OpensCode (lines : List String) : Prop :=
  ∀ line, lines.head? = some line → Command.ofLine line = .code

/-- What a session becomes by an entry. -/
inductive Becomes : Session → Entry → Session → Prop where
  /-- A command changes nothing. -/
  | command {s : Session} {line : String} {rest : List String}
      (hinput : s.machine.inputs[0]? = some (line :: rest)) (hcommand : Command.ofLine line ≠ .code) :
      Becomes s (.command line) (withInput s rest)
  /-- A source text that cannot be read was submitted by a blank line, and it changes nothing. -/
  | refused {s : Session} {lines : List String} {line : String} {rest : List String} {r : Rejection}
      (hinput : s.machine.inputs[0]? = some ((lines ++ [line]) ++ rest))
      (hopens : OpensCode (lines ++ [line])) (hpending : Pending s.limits.source lines)
      (hblank : Text.isBlank line.toList = true)
      (hread : parseProgram s.limits.source ("\n".intercalate (lines ++ [line])).toList unnamed =
        .error (.rejected r)) :
      Becomes s (.source (lines ++ [line]) []) (withInput s rest)
  /-- A source text that can be read is run. If a blank line did not submit it, it was read once
      before, which a traced session has on record. -/
  | ran {s tested after : Session} {lines handed : List String} {line : String} {rest : List String}
      {program : List Node} {outcome : Outcome}
      (hinput : s.machine.inputs[0]? = some ((lines ++ [line]) ++ rest))
      (hopens : OpensCode (lines ++ [line])) (hpending : Pending s.limits.source lines)
      (hread : parseProgram s.limits.source ("\n".intercalate (lines ++ [line])).toList unnamed =
        .ok program)
      (htested : tested = if Text.isBlank line.toList then withInput s rest
        else (withInput s rest).recordParsed program unnamed)
      (hrun : tested.run ("\n".intercalate (lines ++ [line])) = .ok (outcome, after))
      (hhanded : Machine.Handed 0 (withInput s rest).machine handed after.machine) :
      Becomes s (.source (lines ++ [line]) handed) after

/-- What a session becomes by entries one after the other. -/
inductive History (start : Session) : List Entry → Session → Prop where
  | start : History start [] start
  | next {entries : List Entry} {entry : Entry} {s after : Session} :
      History start entries s → Becomes s entry after → History start (entries ++ [entry]) after

/-! ## What entries take off the input -/

theorem inputs_withInput {s : Session} {left : List String}
    (h : s.machine.inputs[0]? = some left) (rest : List String) :
    (withInput s rest).machine.inputs[0]? = some rest := by
  obtain ⟨hsize, -⟩ := Array.getElem?_eq_some_iff.1 h
  rw [withInput, Array.set!_eq_setIfInBounds, Array.getElem?_setIfInBounds_self_of_lt hsize]

/-- An entry takes its lines off the front of the input. -/
theorem Becomes.front {s after : Session} {entry : Entry} {left : List String}
    (h : Becomes s entry after) (hleft : s.machine.inputs[0]? = some left) :
    after.limits = s.limits ∧
      ∃ rest, left = entry.lines ++ rest ∧ after.machine.inputs[0]? = some rest := by
  cases h with
  | @command line rest hinput hcommand =>
      rw [hleft] at hinput
      cases hinput
      exact ⟨rfl, rest, rfl, inputs_withInput hleft rest⟩
  | @refused lines line rest r hinput hopens hpending hblank hread =>
      rw [hleft] at hinput
      cases hinput
      exact ⟨rfl, rest, by rw [Entry.lines, List.append_nil], inputs_withInput hleft rest⟩
  | @ran tested _ lines handed line rest program outcome hinput hopens hpending hread htested hrun
      hhanded =>
      rw [hleft] at hinput
      cases hinput
      obtain ⟨rest', hrest, hafter⟩ := hhanded.front (inputs_withInput hleft rest)
      have hlimits : tested.limits = s.limits := by
        rw [htested]
        split
        · rfl
        · rw [limits_recordParsed]
          rfl
      refine ⟨(Session.handed_of_run hrun 0).1.trans hlimits, rest', ?_, hafter⟩
      simp only [Entry.lines, hrest, List.append_assoc]

/-- The entries of a history are what is missing from the input. -/
theorem History.front {start s : Session} {entries : List Entry} {input : List String}
    (h : History start entries s) (hinput : start.machine.inputs[0]? = some input) :
    s.limits = start.limits ∧
      ∃ rest, input = entries.flatMap Entry.lines ++ rest ∧ s.machine.inputs[0]? = some rest := by
  induction h with
  | start => exact ⟨rfl, input, rfl, hinput⟩
  | @next entries entry s after _ hbecomes ih =>
      obtain ⟨hlimits, left, rfl, hleft⟩ := ih
      obtain ⟨hlimits', rest, rfl, hrest⟩ := hbecomes.front hleft
      refine ⟨hlimits'.trans hlimits, rest, ?_, hrest⟩
      rw [List.flatMap_append, List.flatMap_singleton, List.append_assoc]

/-! ## Answers -/

theorem pending_nil (limit : Nat) : Pending limit [] := by
  refine ⟨List.forall_mem_nil _, fun before behind h hne => ?_⟩
  exact absurd (List.append_eq_nil_iff.1 h.symm).1 hne

/-- A line that completes nothing is pending together with those before it. -/
theorem Pending.concat {limit : Nat} {lines : List String} {line : String} {r : Rejection}
    (h : Pending limit lines) (hline : Text.isBlank line.toList = false)
    (hread : parseProgram limit ("\n".intercalate (lines ++ [line])).toList unnamed =
      .error (.rejected r)) : Pending limit (lines ++ [line]) := by
  refine ⟨fun other hother => ?_, fun before behind hlines hbefore => ?_⟩
  · rcases List.mem_append.1 hother with hother | hother
    · exact h.not_blank other hother
    · rw [List.mem_singleton.1 hother]
      exact hline
  · rcases List.eq_nil_or_concat behind with rfl | ⟨behind, last, rfl⟩
    · rw [List.append_nil] at hlines
      rw [← hlines, isComplete, hread]
    · rw [List.concat_eq_append, ← List.append_assoc] at hlines
      exact h.incomplete before behind (List.append_inj' hlines rfl).1 hbefore

theorem opensCode_concat {lines : List String} {line : String} (h : OpensCode lines)
    (hline : lines ≠ [] ∨ Command.ofLine line = .code) : OpensCode (lines ++ [line]) := by
  cases lines with
  | nil =>
      rintro _ ⟨⟩
      exact hline.resolve_left fun hne => hne rfl
  | cons first others => exact h

section Answers

variable {s : Session} {before : List String} {line source output : String} {next : State}

theorem submit_eq_next (h : submit s source = .next output next) :
    ∃ outcome after, s.run source = .ok (outcome, after) ∧ next = ⟨after, []⟩ := by
  rw [submit] at h
  split at h
  · cases h
  · rename_i outcome after hrun
    cases h
    exact ⟨outcome, after, hrun, rfl⟩

theorem exists_of_after {shown : String} {reply : Reply}
    (h : reply.after shown = .next output next) : ∃ more, reply = .next more next := by
  cases reply with
  | next more state =>
      cases h
      exact ⟨more, rfl⟩
  | stop => cases h
  | fault more cause => cases h

/-- Reading a source text before it is run takes nothing off the input. -/
theorem handed_of_tested {program : List Node} {blank : Bool} {outcome : Outcome} {after : Session}
    (h : (if blank then s else s.recordParsed program unnamed).run source = .ok (outcome, after)) :
    ∃ handed, Machine.Handed 0 s.machine handed after.machine := by
  cases blank with
  | true => exact (Session.handed_of_run h 0).2
  | false =>
      obtain ⟨events, hrecord⟩ := s.recordParsed_cases program unnamed
      have hrecorded : Machine.Handed 0 s.machine [] { s.machine with events := events } :=
        .nothing rfl
      rw [if_neg Bool.false_ne_true, hrecord] at h
      obtain ⟨handed, hhanded⟩ := (Session.handed_of_run h 0).2
      exact ⟨handed, hrecorded.trans hhanded⟩

/-- What comes of a line of code. It is collected, or it submits what cannot be read, or what was
    collected with it is run. -/
theorem collect_eq_next (h : collect ⟨s, before⟩ line = .next output next) :
    (∃ r, parseProgram s.limits.source ("\n".intercalate (before ++ [line])).toList unnamed =
        .error (.rejected r) ∧
      ((Text.isBlank line.toList = false ∧ next = ⟨s, before ++ [line]⟩) ∨
        (Text.isBlank line.toList = true ∧ next = ⟨s, []⟩))) ∨
    ∃ program outcome after,
      parseProgram s.limits.source ("\n".intercalate (before ++ [line])).toList unnamed =
        .ok program ∧
      (if Text.isBlank line.toList then s else s.recordParsed program unnamed).run
        ("\n".intercalate (before ++ [line])) = .ok (outcome, after) ∧ next = ⟨after, []⟩ := by
  rw [collect] at h
  simp only at h
  -- a blank line submits whatever was collected, another one only what can be read with it
  by_cases hblank : Text.isBlank line.toList = true
  · rw [if_pos hblank] at h
    obtain ⟨outcome, after, hrun, rfl⟩ := submit_eq_next h
    cases hread : parseProgram s.limits.source ("\n".intercalate (before ++ [line])).toList
      unnamed with
    | ok program =>
        exact .inr ⟨program, outcome, after, rfl, by rw [if_pos hblank, hrun], rfl⟩
    | error fault =>
        rw [Session.run, hread] at hrun
        cases fault with
        | rejected r =>
            cases hrun
            exact .inl ⟨r, rfl, .inr ⟨hblank, rfl⟩⟩
        | _ => cases hrun
  · rw [if_neg hblank] at h
    cases hread : parseProgram s.limits.source ("\n".intercalate (before ++ [line])).toList
      unnamed with
    | ok program =>
        rw [hread] at h
        obtain ⟨more, hmore⟩ := exists_of_after h
        obtain ⟨outcome, after, hrun, rfl⟩ := submit_eq_next hmore
        exact .inr ⟨program, outcome, after, rfl, by rw [if_neg hblank, hrun], rfl⟩
    | error fault =>
        rw [hread] at h
        cases fault with
        | rejected r =>
            cases h
            exact .inl ⟨r, rfl, .inl ⟨Bool.eq_false_iff.2 hblank, rfl⟩⟩
        | _ => cases h

/-- A line that is no code is a command, after which nothing has changed. -/
theorem answer_command (hline : Command.ofLine line ≠ .code)
    (h : answer ⟨s, []⟩ line = .next output next) : next = ⟨s, []⟩ := by
  simp only [answer, List.isEmpty_nil, if_true] at h
  split at h
  · cases h
  · cases h
    rfl
  · rename_i expression _
    rw [showTree] at h
    split at h
    · cases h
      rfl
    · cases h
      rfl
    · cases h
  · cases h
    rfl
  · cases h
    rfl
  · rename_i hcode
    exact absurd hcode hline

end Answers

/-! ## The account -/

/-- Whenever a line is asked for: the entries of all lines before but those that are being collected,
    and the session that they led to, which has not changed since but for its input. -/
structure Account (start : Session) (state : State) (entries : List Entry) (before : Session)
    (rest : List String) : Prop where
  history : History start entries before
  input : before.machine.inputs[0]? = some (state.collected ++ rest)
  session : state.session = withInput before rest
  pending : Pending start.limits.source state.collected
  opens : OpensCode state.collected

/-- The number of the lines that are in an entry or are being collected. -/
def taken (entries : List Entry) (state : State) : Nat :=
  (entries.flatMap Entry.lines).length + state.collected.length

theorem taken_lt {entries : List Entry} {entry : Entry} {state : State} {after : Session}
    (h : state.collected.length < entry.lines.length) :
    taken entries state < taken (entries ++ [entry]) ⟨after, []⟩ := by
  simp only [taken, List.flatMap_append, List.flatMap_singleton, List.length_append, List.length_nil]
  omega

section Account

variable {start before session : Session} {state next : State} {entries : List Entry}
  {rest input : List String} {line output : String}

/-- The next line is the first one that is left. -/
theorem Account.nextLine? (h : Account start state entries before rest)
    (hline : nextLine? state.session = some (line, session)) :
    ∃ rest', rest = line :: rest' ∧ session = withInput before rest' := by
  obtain ⟨hsize, -⟩ := Array.getElem?_eq_some_iff.1 h.input
  cases rest with
  | nil =>
      have hempty := inputs_withInput h.input []
      rw [h.session, Dialogue.nextLine?, hempty] at hline
      cases hline
  | cons first rest' =>
      rw [h.session, nextLine?_withInput hsize] at hline
      cases hline
      exact ⟨rest', rfl, rfl⟩

/-- What collecting a line does to the account. -/
theorem Account.collect (h : Account start state entries before (line :: rest))
    (hinput : start.machine.inputs[0]? = some input)
    (hcode : state.collected ≠ [] ∨ Command.ofLine line = .code)
    (hanswer : Dialogue.collect ⟨withInput before rest, state.collected⟩ line = .next output next) :
    ∃ entries' before' rest', Account start next entries' before' rest' ∧
      taken entries state < taken entries' next := by
  have hlimits : before.limits = start.limits := (h.history.front hinput).1
  have hpending : Pending before.limits.source state.collected := hlimits ▸ h.pending
  have hopens : OpensCode (state.collected ++ [line]) := opensCode_concat h.opens hcode
  have hleft : before.machine.inputs[0]? = some ((state.collected ++ [line]) ++ rest) := by
    rw [h.input, List.append_assoc]
    rfl
  rcases collect_eq_next hanswer with
    ⟨r, hread, ⟨hblank, rfl⟩ | ⟨hblank, rfl⟩⟩ | ⟨program, outcome, after, hread, hrun, rfl⟩
  · -- the line is collected, and the session waits
    refine ⟨entries, before, rest, ⟨h.history, hleft, rfl, ?_, hopens⟩, ?_⟩
    · exact hlimits ▸ hpending.concat hblank hread
    · rw [taken, taken, List.length_append]
      exact Nat.lt_succ_self _
  · -- the lines are an entry that was refused, and none is left
    have hbecomes : Becomes before (.source (state.collected ++ [line]) []) (withInput before rest) :=
      .refused hleft hopens hpending hblank hread
    refine ⟨_, _, rest, ⟨h.history.next hbecomes, inputs_withInput hleft rest, ?_, pending_nil _,
      nofun⟩, taken_lt (by simp [Entry.lines])⟩
    exact (withInput_self (inputs_withInput hleft rest)).symm
  · -- the lines are an entry that was run, with those behind them that the program asked for
    obtain ⟨handed, hhanded⟩ := handed_of_tested hrun
    have hbecomes : Becomes before (.source (state.collected ++ [line]) handed) after :=
      .ran hleft hopens hpending hread rfl hrun hhanded
    obtain ⟨rest', -, hrest'⟩ := hhanded.front (inputs_withInput hleft rest)
    exact ⟨_, after, rest', ⟨h.history.next hbecomes, hrest', (withInput_self hrest').symm,
      pending_nil _, nofun⟩, taken_lt (by simp [Entry.lines])⟩

theorem exists_account {count : Nat} {shown : String}
    (hinput : start.machine.inputs[0]? = some input) (h : Reached ⟨start, []⟩ count shown state) :
    ∃ entries before rest, Account start state entries before rest ∧
      count ≤ taken entries state := by
  induction h with
  | start =>
      exact ⟨[], start, input, ⟨.start, hinput, (withInput_self hinput).symm, pending_nil _, nofun⟩,
        Nat.zero_le _⟩
  | @next count shown line output state next session _ hline hanswer ih =>
      obtain ⟨entries, before, rest, haccount, hcount⟩ := ih
      obtain ⟨rest', rfl, rfl⟩ := haccount.nextLine? hline
      by_cases hcode : state.collected ≠ [] ∨ Command.ofLine line = .code
      · rw [answer_eq_collect hcode] at hanswer
        obtain ⟨entries', before', rest', hnext, htaken⟩ := haccount.collect hinput hcode hanswer
        exact ⟨entries', before', rest', hnext, Nat.lt_of_le_of_lt hcount htaken⟩
      · -- a command is an entry of its own, since nothing is being collected
        rw [not_or] at hcode
        obtain ⟨hempty, hcommand⟩ := hcode
        have hempty : state.collected = [] := Decidable.of_not_not hempty
        rw [hempty] at hanswer
        obtain rfl := answer_command hcommand hanswer
        have hleft : before.machine.inputs[0]? = some (line :: rest') := by
          rw [haccount.input, hempty]
          rfl
        have hbecomes : Becomes before (.command line) (withInput before rest') :=
          .command hleft hcommand
        refine ⟨_, _, rest', ⟨haccount.history.next hbecomes, inputs_withInput hleft rest',
          (withInput_self (inputs_withInput hleft rest')).symm, pending_nil _, nofun⟩,
          Nat.lt_of_le_of_lt hcount (taken_lt ?_)⟩
        rw [hempty]
        exact Nat.zero_lt_one

end Account

/-- Whenever the interactive mode asks for a line, the lines that it has taken so far are those of the
    entries, in the order of the input and each in its place, and those that are being collected. None
    of these is blank and no beginning of them is complete, and while there are any, every line is
    collected with them, whatever command it would be otherwise. -/
theorem lines_accounted {start : Session} {input : List String} {state : State} {count : Nat}
    {shown : String} (hinput : start.machine.inputs[0]? = some input)
    (h : Reached ⟨start, []⟩ count shown state) :
    (∃ entries before rest, History start entries before ∧
      input = entries.flatMap Entry.lines ++ (state.collected ++ rest) ∧
      state.session = withInput before rest ∧ state.session.machine.inputs[0]? = some rest) ∧
    Pending start.limits.source state.collected ∧
    (state.collected ≠ [] → ∀ line, answer state line = collect state line) ∧
    count ≤ input.length ∧
    ∀ bound, converse (bound + count) ⟨start, []⟩ = (converse bound state).after shown := by
  obtain ⟨entries, before, rest, haccount, hcount⟩ := exists_account hinput h
  obtain ⟨-, left, hleft, hbefore⟩ := haccount.history.front hinput
  rw [haccount.input] at hbefore
  obtain rfl := Option.some.inj hbefore
  refine ⟨⟨entries, before, rest, haccount.history, hleft, haccount.session, ?_⟩, haccount.pending,
    fun hne line => answer_eq_collect (.inl hne), ?_, h.converse⟩
  · rw [haccount.session]
    exact inputs_withInput haccount.input rest
  · rw [taken] at hcount
    rw [hleft, List.length_append, List.length_append]
    omega

/-- The text is read as a call without arguments of the function that reads a line. -/
def isReading : Except SourceFault (List Node) → Bool
  | .ok [.evaluation (.call name [])] => name == readLineName
  | _ => false

theorem eq_of_isReading {r : Except SourceFault (List Node)} (h : isReading r = true) :
    r = .ok [.evaluation (.call readLineName [])] := by
  unfold isReading at h
  split at h
  · rw [beq_iff_eq.1 h]
  · cases h

theorem exists_of_rejected {r : Except SourceFault (List Node)}
    (h : (r matches .error (.rejected _)) = true) : ∃ rejection, r = .error (.rejected rejection) := by
  split at h
  · exact ⟨_, rfl⟩
  · cases h

/-- A command, a call on two lines that is handed the line behind it, and a line that is collected. -/
theorem lines_accounted_call :
    let input := [":help", "führe Eingabe", "Einlesen aus!", "Welt", "zeig", "1 an!"]
    ∃ shown state, Reached ⟨Session.start input false, []⟩ 4 shown state ∧
      state.collected = ["zeig"] ∧
      ∃ entries before, History (Session.start input false) entries before ∧
        entries.flatMap Entry.lines = [":help", "führe Eingabe", "Einlesen aus!", "Welt"] ∧
        state.session = withInput before ["1 an!"] := by
  intro input
  have hcall : parseProgram Grammar.depthLimit
      ("\n".intercalate (["führe Eingabe"] ++ ["Einlesen aus!"])).toList unnamed =
        .ok [.evaluation (.call readLineName [])] := eq_of_isReading (by decide +kernel)
  have hrejected (line : String) (h : (parseProgram Grammar.depthLimit
      ("\n".intercalate ([] ++ [line])).toList unnamed matches .error (.rejected _)) = true) :=
    exists_of_rejected h
  obtain ⟨r, hfirst⟩ := hrejected "führe Eingabe" (by decide +kernel)
  obtain ⟨r', hzeig⟩ := hrejected "zeig" (by decide +kernel)
  -- the four answers, of which the third one takes a line off the input
  let start := Session.start input false
  let called := (execute (withInput start ["Welt", "zeig", "1 an!"])
    [.evaluation (.call readLineName [])]).2
  have hhelp : Reached ⟨start, []⟩ 1 _ ⟨withInput start (input.drop 1), []⟩ := .next .start rfl rfl
  have hbegun : Reached ⟨start, []⟩ 2 _ ⟨withInput start (input.drop 2), ["führe Eingabe"]⟩ :=
    .next hhelp rfl
      ((answer_eq_collect (.inr (by decide))).trans (collect_rejected (by decide) hfirst))
  have hcalled : Reached ⟨start, []⟩ 3 _ ⟨called, []⟩ :=
    .next hbegun rfl ((answer_eq_collect (.inl (by simp))).trans (collect_read (by decide) hcall))
  have hinputs : called.machine.inputs[0]? = some ["zeig", "1 an!"] := by decide +kernel
  have hlimits : called.limits.source = Grammar.depthLimit := by decide +kernel
  have hline : nextLine? called = some ("zeig", withInput called ["1 an!"]) := by
    obtain ⟨hsize, -⟩ := Array.getElem?_eq_some_iff.1 hinputs
    conv => lhs; rw [← withInput_self hinputs]
    exact nextLine?_withInput hsize _ _
  have hcollected : Reached ⟨start, []⟩ 4 _ ⟨withInput called ["1 an!"], ["zeig"]⟩ :=
    .next hcalled hline ((answer_eq_collect (.inr (by decide))).trans
      (collect_rejected (by decide) (hlimits ▸ hzeig)))
  obtain ⟨⟨entries, before, rest, hhistory, hlines, hsession, hrest⟩, -⟩ :=
    lines_accounted rfl hcollected
  rw [inputs_withInput hinputs] at hrest
  obtain rfl := Option.some.inj hrest
  refine ⟨_, _, hcollected, rfl, entries, before, hhistory, ?_, hsession⟩
  have htaken : input.take 4 ++ ["zeig", "1 an!"] =
      entries.flatMap Entry.lines ++ ["zeig", "1 an!"] := hlines
  exact (List.append_cancel_right htaken).symm

end Dialogue

end Klartext
