import Klartext.Proofs.Continued.Place

set_option autoImplicit false

/-! # Statements on texts that go on

Every form of a statement is read on, and what the forms before it missed they miss again. There are
the two exceptions: a list of parameters that was missed may be too long now, and the definition of a
variable is tried where a spoken operation or a function was not found, and its name may hold all of
it. -/

namespace Klartext

open Reader Rules

namespace Grammar

variable {nested : Nested}

/-! ## What closes an expression -/

/-- What closes the condition of a branch. -/
def closeClause (condition : Node) : Reader Node := do
  let _ ← blanks1
  phrase "ist"
  let _ ← blanks
  phrase "?"
  return condition

theorem stopsAtMark_closeClause (condition : Node) : StopsAtMark (closeClause condition) :=
  stopsAtMark_blanks1.bind fun _ => (stopsAtMark_phrase (by decide)).bind fun _ =>
    stopsAtMark_blanks.bind fun _ => (stopsAtMark_phrase (by decide)).bind fun _ =>
      stopsAtMark_pure condition

theorem starts_closeClause (condition : Node) : Starts closers (closeClause condition) :=
  starts_blanks1 fun _ => ((leads_phrase "ist").andThen.mono (by decide)).starts

/-- What closes a value that is given back. -/
def closeGiveBack (value : Node) : Reader Node := do
  let _ ← blanks1
  phrase "zurück"
  return .giveBack value

theorem stopsAtMark_closeGiveBack (value : Node) : StopsAtMark (closeGiveBack value) :=
  stopsAtMark_blanks1.bind fun _ => (stopsAtMark_phrase (by decide)).bind fun _ =>
    stopsAtMark_pure _

theorem starts_closeGiveBack (value : Node) : Starts closers (closeGiveBack value) :=
  starts_blanks1 fun _ => ((leads_phrase "zurück").andThen.mono (by decide)).starts

/-- The exclamation mark that closes a statement, with whitespace before it or none. -/
def close (node : Node) : Reader Node := do
  let _ ← blanks
  phrase "!"
  return node

theorem closed_eq (form : Reader Node) : closed form = form >>= close := rfl

theorem reads_close (node : Node) :
    Reads (fun n u => n = node ∧ ∃ blank, u = blank ++ "!".toList) (close node) :=
  reads_blanks.bind fun _ blank _ => (reads_word rfl).bind fun _ mark hmark =>
    reads_pure ⟨rfl, blank, by rw [hmark, List.append_nil]⟩

theorem starts_close (node : Node) : Starts closers (close node) :=
  starts_blanks fun _ => ((leads_phrase "!").andThen.mono (by decide)).starts

theorem mark_of_close {node n : Node} {t rest : Text} (h : close node t = .found n rest) :
    '!' ∈ t := by
  obtain ⟨used, rfl, -, blank, rfl⟩ := (reads_close node).found h
  simp

/-- What comes behind the exclamation mark does not count. -/
theorem steady_close (node : Node) : Steady (fun _ => True) (close node) := by
  refine ⟨(reads_close node).suffix, fun {t n rest} hread _ more => ?_⟩
  have hmark := mark_of_close hread
  obtain ⟨blank, u, hblanks, hphrase⟩ := bind_eq_found.1 hread
  obtain ⟨_, v, hphrase, hpure⟩ := bind_eq_found.1 hphrase
  cases hpure
  obtain ⟨mark, rfl, hmark'⟩ := (reads_word rfl).found hphrase
  subst hmark'
  rw [close, bind_apply, stopsAtMark_blanks.longer hmark more, hblanks]
  simp only [Reading.longer, List.append_assoc]
  rw [bind_found (phrase_append rfl _)]
  rfl

theorem steadyAt_closed {H : Hazards} {form : Reader Node} {t : Text}
    (h : SteadyAt H (Follows closers) form t) : SteadyAt H (fun _ => True) (closed form) t := by
  rw [closed_eq]
  exact h.bind (fun _ => (steady_close _).at _) fun _ hread _ =>
    ⟨mark_of_close hread, (starts_close _).begins hread⟩

/-! ## Expressions in statements -/

section Forms

variable (hs : nested.Steady)
include hs

theorem steady_clause : Steady Marked (clause nested) := by
  refine (stopsAtMark_phrase (by decide)).andThen fun _ => stopsAtMark_blanks1.andThen fun _ => ?_
  exact (hs.expression .logical).before (fun condition => (stopsAtMark_closeClause condition).steady)
    starts_closeClause fun _ => id

theorem steady_firstHead : Steady Marked (firstHead nested) :=
  (stopsAtMark_phrase (by decide)).andThen fun _ => stopsAtMark_blanks1.andThen fun _ =>
    steady_clause hs

theorem steady_elseIfHead : Steady Marked (elseIfHead nested) :=
  stopsAtMark_blanks1.andThen fun _ => (stopsAtMark_phrase (by decide)).andThen fun _ =>
    stopsAtMark_blanks1.andThen fun _ => steady_clause hs

theorem steady_evaluation : Steady (Follows closers) (evaluation nested) :=
  (hs.expression .logical).map

theorem steady_definition : Steady (Follows closers) (definition nested) := by
  have hvalue (name : Text) : Steady (Follows closers) (do
      return Node.definition (String.ofList name) (← nested.expression .logical)) :=
    (hs.expression .logical).map
  have hname : StopsAtMark (nameUntil " ist".toList ["!".toList]) :=
    stopsAtMark_nameUntil (by decide) (by decide)
  refine (stopsAtMark_longestOf (by decide)).steady.andThen (fun _ => ?_) fun _ => Follows.mark
  refine stopsAtMark_blanks1.steady.andThen (fun _ => ?_) fun _ => Follows.mark
  refine hname.steady.andThen (fun name => ?_) fun _ => Follows.mark
  exact stopsAtMark_blanks1.steady.andThen (fun _ => hvalue name) fun _ => Follows.mark

theorem steady_giveBack : Steady Marked (giveBack nested) := by
  refine (stopsAtMark_phrase (by decide)).andThen fun _ => stopsAtMark_blanks1.andThen fun _ => ?_
  exact (hs.expression .logical).before (fun value => (stopsAtMark_closeGiveBack value).steady)
    starts_closeGiveBack fun _ => id

omit hs in
theorem steady_print (h : nested.Reads) : Steady Marked (print nested) := by
  refine (stopsAtMark_phrase (by decide)).andThen fun _ => stopsAtMark_blanks1.andThen fun _ => ?_
  exact (steady_listUntil (by decide) (h.expression .logical) _).map

end Forms

/-! ## Functions and conditionals -/

/-- The text decides whether a function has parameters: there is no exclamation mark in them. -/
theorem steadyAt_signature {H : Hazards} {room : Nat} {t : Text}
    (hover : ∀ {name u i more}, nameUntil " kriegt ".toList [" macht".toList, "!".toList] t =
        .found name u → listUntil " und macht".toList plainName room u = .missed →
      i ∈ Text.occurrences " und macht".toList (u ++ more) →
      room < (Enumeration.separators ((u ++ more).take i)).length → H.overlong more) :
    SteadyAt H Marked (signature room) t := by
  have hkriegt : StopsAtMark (nameUntil " kriegt ".toList [" macht".toList, "!".toList]) :=
    stopsAtMark_nameUntil (by decide) (by decide)
  have hmacht : StopsAtMark (nameUntil " macht".toList ["!".toList]) :=
    stopsAtMark_nameUntil (by decide) (by decide)
  have hwith : Steady Marked (do
      let name ← nameUntil " kriegt ".toList [" macht".toList, "!".toList]
      return (name, ← listUntil " und macht".toList plainName room)) :=
    hkriegt.andThen fun _ => (steady_listUntil (by decide) reads_plainName room).map
  have hwithout := hmacht.andThen fun name => steady_pure (name, ([] : List Text))
  refine (hwith.at t).orElse (hwithout.at t) fun {a rest} hmissed hread hrest more => ?_
  have hmark : Marked t := hrest.mono (hwithout.suffix hread)
  cases hname : nameUntil " kriegt ".toList [" macht".toList, "!".toList] t with
  | missed =>
      refine .inl (bind_missed ?_)
      rw [hkriegt.longer hmark more, hname]
      rfl
  | broken e =>
      rw [bind_apply, hname] at hmissed
      cases hmissed
  | found name u =>
      have hname' : nameUntil " kriegt ".toList [" macht".toList, "!".toList] (t ++ more) =
          .found name (u ++ more) := by
        rw [hkriegt.longer hmark more, hname]
        rfl
      have hlist : listUntil " und macht".toList plainName room u = .missed := by
        rw [bind_found hname, bind_apply] at hmissed
        split at hmissed
        · cases hmissed
        · assumption
        · cases hmissed
      rcases listUntil_more_of_missed (by decide) (by decide) reads_plainName
        (fun hu => hu.names.no_mark) neverBreaks_plainName (hkriegt.mark hmark hname) hlist more with
        hlist' | ⟨hdeep, i, hi, hlong⟩
      · exact .inl (by rw [bind_found hname', bind_missed hlist'])
      · exact .inr (.inl ⟨by rw [bind_found hname', bind_apply, hdeep], hover hname hlist hi hlong⟩)

section Blocks

variable {H : Hazards} {t : Text} (h : nested.Reads) (hs : nested.Steady)
  (hblank : ∀ t, nested.statement (t.dropWhile isBlank) = nested.statement t)
  (hstatement : ∀ {u v}, OpensBlock nested t u → Reaches nested.statement u v →
    SteadyAt H Marked nested.statement v)
include h hblank hstatement

theorem steadyAt_block {closing : String} (hclosing : '!' ∉ (Text.words closing.toList).flatten)
    {u : Text} (hopens : OpensBlock nested t u) :
    SteadyAt H Marked (manyUntil nested.statement closing) u :=
  steadyAt_manyUntil (fun _ => hstatement hopens) h.statement.suffix hblank hclosing

theorem steadyAt_function
    (hover : ∀ {more}, Overlong nested.room t more → H.overlong more) :
    SteadyAt H Marked (function nested) t := by
  have hhead : SteadyAt H Marked (functionHead nested.room) t := by
    refine ((stopsAtMark_phrase (by decide)).steady.at t).andThen fun hphrase =>
      (stopsAtMark_blanks1.steady.at _).andThen fun hgap => steadyAt_signature ?_
    intro name u i more hname hlist hi hlong
    exact hover ⟨name, u, i, (bind_found hphrase).trans ((bind_found hgap).trans hname), hlist, hi,
      hlong⟩
  rw [function_eq]
  exact hhead.andThen fun hread =>
    (steadyAt_block h hblank hstatement (by decide) (.function hread)).map

include hs

theorem steadyAt_elseIf {u : Text} (hbefore : BranchesBefore nested t u) :
    SteadyAt H Marked (elseIf nested) u := by
  rw [elseIf_eq]
  exact ((steady_elseIfHead hs).at u).andThen fun hread =>
    (steadyAt_block h hblank hstatement (by decide) (.further hbefore hread)).map

omit hs in
theorem steadyAt_otherwise {u : Text} (hbefore : BranchesBefore nested t u) :
    SteadyAt H Marked (otherwise nested) u := by
  have hhead : StopsAtMark otherwiseHead :=
    stopsAtMark_blanks1.bind fun _ => stopsAtMark_phrase (by decide)
  rw [otherwise_eq]
  exact (hhead.steady.at u).andThen fun hread =>
    steadyAt_block h hblank hstatement (by decide) (.last hbefore hread)

theorem steadyAt_conditional : SteadyAt H Marked (conditional nested) t := by
  have hmark (first : Branch Node) (others : List (Branch Node)) (last : Option (List Node)) :
      StopsAtMark (do phrase "?"; return Node.conditional first others last) :=
    (stopsAtMark_phrase (by decide)).bind fun _ => stopsAtMark_pure _
  rw [conditional_eq]
  refine ((steady_firstHead hs).at t).andThen fun {condition u} hfirst => ?_
  refine (steadyAt_block h hblank hstatement (by decide) (.first hfirst)).andThen
    fun {statements w} hbody => ?_
  -- the further branches and the last one may be absent, so that they need to know what follows
  have hothers : SteadyAt H (Follows ([["nicht?".toList]] ++ [["?".toList]])) (many (elseIf nested))
      w :=
    steadyAt_many (fun v hv => steadyAt_elseIf h hs hblank hstatement
        ⟨condition, u, statements, w, hfirst, hbody, hv⟩)
      (leads_blanks1 fun _ => (leads_phrase "doch,").andThen) (by decide)
  refine hothers.before (fun {others v} hmany => ?_) fun others => ?_
  · have hbefore : BranchesBefore nested t v :=
      ⟨condition, u, statements, w, hfirst, hbody, reaches_of_many hmany⟩
    have hlast : SteadyAt H (Follows [["?".toList]]) (optional (otherwise nested)) v :=
      ((steadyAt_otherwise h hblank hstatement hbefore).mono fun _ => Follows.mark).optional
        (leads_blanks1 fun _ => (leads_phrase "nicht?").andThen) (by decide)
    exact hlast.before (fun _ => (hmark _ _ _).steady.at _) fun last =>
      (leads_phrase "?").andThen.starts
  · exact (leads_optional (leads_blanks1 fun _ => (leads_phrase "nicht?").andThen) fun last =>
      (leads_phrase "?").andThen).starts

end Blocks

/-! ## The forms in their order -/

/-- The articles, with one of which a definition begins. -/
def articleWords : List (List Text) := articles.map fun article => [article]

theorem leads_definition : Leads articleWords (definition nested) := by
  refine ((reads_longestOf articles).leads (neverBreaks_longestOf articles)
    fun {article u} hu => ?_).andThen
  refine ⟨[u], List.mem_map_of_mem hu, ?_⟩
  simpa only [List.append_nil] using Begins.of_spelled (.word u) []

theorem leads_conditional : Leads [["stimmt,".toList]] (conditional nested) :=
  (leads_phrase "stimmt,").andThen

theorem leads_function : Leads [["die".toList, "Funktion".toList]] (function nested) :=
  (leads_phrase "die Funktion").andThen

theorem leads_giveBack : Leads [["gib".toList]] (giveBack nested) :=
  (leads_phrase "gib").andThen

theorem leads_print : Leads [["zeig".toList]] (print nested) :=
  (leads_phrase "zeig").andThen

theorem apart_closed {F : Text → Prop} {L M : List (List Text)} {p q : Reader Node}
    (hp : Leads L p) (hq : Leads M q) (h : clashAll L M = true) :
    Apart F (closed p) (closed q) :=
  apart_of_leads (hp.andThen (f := close)) (hq.andThen (f := close)).starts h

/-- A form that is tried before definitions, where each of its beginnings is no article or one of the
    misleading ones. -/
def BeforeDefinitions (nested : Nested) (form : Reader Node) : Prop :=
  form ∈ (forms nested).take 3 ∧ ∃ L, Leads L form ∧
    ∀ ws ∈ L, ws ∈ misleading ∨ clashAll [ws] articleWords = true

/-- Each form and those tried later: only a definition may begin with the words of an earlier one. -/
theorem apart_forms (hevaluation : Leads Layer.logical.leads (evaluation nested)) :
    (forms nested).Pairwise fun p q => Apart (fun _ => True) (closed p) (closed q) ∨
      BeforeDefinitions nested p ∧ q = definition nested := by
  simp only [forms, List.pairwise_cons, List.forall_mem_cons, List.not_mem_nil, false_implies,
    implies_true, and_true, List.Pairwise.nil]
  refine ⟨⟨?_, ?_, ?_, ?_, ?_⟩, ⟨?_, ?_, ?_, ?_⟩, ⟨?_, ?_, ?_⟩, ⟨?_, ?_⟩, ?_⟩
  · exact .inl (apart_closed hevaluation leads_conditional (by decide))
  · exact .inl (apart_closed hevaluation leads_function (by decide))
  · exact .inr ⟨by simp [forms], _, hevaluation, by decide⟩
  · exact .inl (apart_closed hevaluation leads_giveBack (by decide))
  · exact .inl (apart_closed hevaluation leads_print (by decide))
  · exact .inl (apart_closed leads_conditional leads_function (by decide))
  · exact .inl (apart_closed leads_conditional leads_definition (by decide))
  · exact .inl (apart_closed leads_conditional leads_giveBack (by decide))
  · exact .inl (apart_closed leads_conditional leads_print (by decide))
  · exact .inr ⟨by simp [forms], _, leads_function, by decide⟩
  · exact .inl (apart_closed leads_function leads_giveBack (by decide))
  · exact .inl (apart_closed leads_function leads_print (by decide))
  · exact .inl (apart_closed leads_definition leads_giveBack (by decide))
  · exact .inl (apart_closed leads_definition leads_print (by decide))
  · exact .inl (apart_closed leads_giveBack leads_print (by decide))

/-! ## Definitions that give way -/

theorem exists_of_closed_definition (h : nested.Reads) {t rest : Text} {node : Node}
    (hread : closed (definition nested) t = .found node rest) :
    '!' ∈ t ∧ ∃ name value, node = .definition name value := by
  have hnode : Reads (fun node _ => ∃ name value, node = .definition name value)
      (definition nested) :=
    (reads_longestOf articles).bind fun _ _ _ => reads_blanks1.bind fun _ _ _ =>
      (reads_nameUntil _ (by decide)).bind fun name _ _ => reads_blanks1.bind fun _ _ _ =>
        (h.expression .logical).bind fun value _ _ => reads_pure ⟨String.ofList name, value, rfl⟩
  obtain ⟨n, u, hdefinition, hclose⟩ := bind_eq_found.1 (closed_eq (definition nested) ▸ hread)
  have hmark := mark_of_close hclose
  obtain ⟨-, rfl, hn⟩ := hnode.found hdefinition
  obtain ⟨-, -, rfl, -⟩ := (reads_close n).found hclose
  exact ⟨List.mem_append_right _ hmark, hn⟩

theorem not_mem_of_misleading : ∀ ws ∈ misleading, '!' ∉ ws.flatten := by decide

theorem begins_of_dropWhile {ws : List Text} {t : Text} (h : Begins ws (t.dropWhile isBlank)) :
    Begins ws t := by
  have hblank : Text.isBlank (t.takeWhile isBlank) = true := List.all_takeWhile
  have hbegins := h.behind hblank
  rwa [List.takeWhile_append_dropWhile] at hbegins

/-- To what begins like a definition, and is tried before it, the definition gives way. -/
theorem givesWay {depth : Nat} {form : Reader Node} (hform : BeforeDefinitions (within depth) form)
    {t rest : Text} {node : Node} (hstatement : statement (within depth) t = .found node rest)
    (hread : closed (definition (within depth)) (t.dropWhile isBlank) = .found node rest)
    (hmissed : closed form (t.dropWhile isBlank) = .missed) {more : Text}
    (hmore : closed form (t.dropWhile isBlank ++ more) ≠ .missed) : GivesWay depth t more := by
  obtain ⟨hmem, L, hlead, hL⟩ := hform
  obtain ⟨ws, hws, hbegins⟩ := (hlead.andThen (f := close)).not_missed hmore
  obtain ⟨vs, hvs, hbegins'⟩ := (leads_definition.andThen (f := close)).begins hread
  obtain ⟨hmark, name, value, rfl⟩ := exists_of_closed_definition (reads_within depth) hread
  have hmisleading : ws ∈ misleading := (hL ws hws).resolve_right fun hclash =>
    not_begins_of_clash (clash_of_clashAll hclash (List.mem_singleton_self ws) hvs) hbegins
      (hbegins'.more more)
  have hwords := hbegins.of_more (not_mem_of_misleading ws hmisleading) hmark
  exact ⟨⟨name, value, rest, hstatement⟩, ⟨ws, hmisleading, begins_of_dropWhile hwords⟩,
    form, hmem, hmissed, hmore⟩

/-! ## Statements -/

theorem statement_behind_blank {limit : Nat} {blank : Text} (hblank : Text.isBlank blank = true)
    (t : Text) : (within limit).statement (blank ++ t) = (within limit).statement t := by
  cases limit with
  | zero => rfl
  | succ limit =>
      have hdrop : (blank ++ t).dropWhile isBlank = t.dropWhile isBlank :=
        List.dropWhile_append_of_pos (List.all_eq_true.1 hblank)
      simp only [within, statement, bind_apply, blanks, hdrop]

theorem statement_dropWhile (limit : Nat) (t : Text) :
    (within limit).statement (t.dropWhile isBlank) = (within limit).statement t := by
  have hblank : Text.isBlank (t.takeWhile isBlank) = true := List.all_takeWhile
  rw [← statement_behind_blank hblank (t.dropWhile isBlank), List.takeWhile_append_dropWhile]

/-- A statement is what its forms make of the text behind the whitespace, also with more behind it. -/
theorem exists_of_statement {depth : Nat} {t rest : Text} {node : Node}
    (h : statement (within depth) t = .found node rest) :
    firstOf ((forms (within depth)).map closed) (t.dropWhile isBlank) = .found node rest ∧
      ∀ more, statement (within depth) (t ++ more) =
        firstOf ((forms (within depth)).map closed) (t.dropWhile isBlank ++ more) := by
  obtain ⟨blank, u, hblanks, hforms⟩ := bind_eq_found.1 h
  obtain rfl : t.dropWhile isBlank = u := by
    cases hblanks
    rfl
  refine ⟨hforms, fun more => ?_⟩
  obtain ⟨used, hu, hused⟩ := (reads_closedForms (reads_within depth)).found hforms
  obtain ⟨v, rfl⟩ := hused.mark
  have hmark : '!' ∈ t := (List.dropWhile_suffix isBlank).subset (by simp [hu])
  rw [statement, bind_apply, blanks, (Text.span_more (p := isBlank) (by decide) hmark more).2]

section Forms

variable {depth : Nat} {H : Hazards} {t : Text}
  (hs : (within depth).Steady)
  (hstatement : ∀ {u v}, OpensBlock (within depth) (t.dropWhile isBlank) u →
    Reaches (within depth).statement u v → SteadyAt H Marked (within depth).statement v)
  (hover : ∀ {more}, Overlong (within depth).room (t.dropWhile isBlank) more → H.overlong more)
include hs hstatement hover

theorem steadyAt_forms : ∀ r ∈ (forms (within depth)).map closed,
    SteadyAt H (fun _ => True) r (t.dropWhile isBlank) := by
  have hreads := reads_within depth
  have hclosed {form : Reader Node} (hform : SteadyAt H Marked form (t.dropWhile isBlank)) :
      SteadyAt H (fun _ => True) (closed form) (t.dropWhile isBlank) :=
    steadyAt_closed (hform.mono fun _ => Follows.mark)
  simp only [forms, List.map_cons, List.map_nil, List.forall_mem_cons, List.not_mem_nil,
    false_implies, implies_true, and_true]
  exact ⟨steadyAt_closed ((steady_evaluation hs).at _),
    hclosed (steadyAt_conditional hreads hs (statement_dropWhile depth) hstatement),
    hclosed (steadyAt_function hreads (statement_dropWhile depth) hstatement hover),
    steadyAt_closed ((steady_definition hs).at _), hclosed ((steady_giveBack hs).at _),
    hclosed ((steady_print hreads).at _)⟩

/-- The form that was found is found again, if those before it miss again; and where one of them does
    not, the statement was a definition, and gives way. -/
theorem steadyAt_closedForms
    (hevaluation : Leads Layer.logical.leads (evaluation (within depth)))
    (hgives : ∀ {more}, GivesWay depth t more → H.overtaken more) :
    SteadyAt H (fun _ => True) (statement (within depth)) t := by
  refine ⟨(reads_statement (reads_within depth)).suffix, fun {node rest} hread _ more => ?_⟩
  obtain ⟨hforms, hlonger⟩ := exists_of_statement hread
  obtain ⟨earlier, r, later, hsplit, hearlier, hr⟩ := firstOf_eq_found.1 hforms
  have hmem : r ∈ (forms (within depth)).map closed := by simp [hsplit]
  rw [hlonger]
  by_cases hmissed : ∀ p ∈ earlier, p (t.dropWhile isBlank ++ more) = .missed
  · rw [hsplit, firstOf_append_of_missed hmissed]
    rcases (steadyAt_forms hs hstatement hover r hmem).readsOn hr trivial more with hfound | hmet
    · exact .inl (orElse_eq_found.2 (.inl hfound))
    · exact .inr hmet.orElse
  · obtain ⟨p, hp, hne⟩ : ∃ p ∈ earlier, p (t.dropWhile isBlank ++ more) ≠ .missed := by
      simpa using hmissed
    obtain ⟨earlier', others, hforms', rfl, hothers⟩ := List.map_eq_append_iff.1 hsplit
    obtain ⟨form, later', rfl, rfl, -⟩ := List.map_eq_cons_iff.1 hothers
    obtain ⟨form', hform', rfl⟩ := List.mem_map.1 hp
    have hpairs := apart_forms hevaluation
    rw [hforms', List.pairwise_append] at hpairs
    rcases hpairs.2.2 form' hform' form List.mem_cons_self with hapart | ⟨hbefore, rfl⟩
    · exact absurd (hapart.missed (hearlier _ hp) hr trivial more) hne
    · exact .inr (.inr (hgives (givesWay hbefore hread hr (hearlier _ hp) hne)))

end Forms

/-! ## Nesting -/

/-- At every depth of nesting, expressions are read on. -/
theorem steady_within (limit : Nat) : (within limit).Steady := by
  induction limit with
  | zero => exact ⟨fun _ => ⟨nofun, nofun⟩, fun _ => ⟨nofun⟩⟩
  | succ limit ih =>
      exact ⟨steady_expression (reads_within limit) ih, fun layer =>
        (leads_expression (within limit) layer).starts⟩

/-- At every depth of nesting, a statement is read on, unless something may happen to it or to a
    statement inside. -/
theorem steadyAt_statement (depth : Nat) (t : Text) :
    SteadyAt (hazards (Inside depth t)) (fun _ => True) (statement (within depth)) t := by
  induction depth generalizing t with
  | zero =>
      have hbroken : statement (within 0) t = .broken .tooDeep := rfl
      exact ⟨by rw [hbroken]; exact nofun, by rw [hbroken]; exact nofun⟩
  | succ depth ih =>
      have hsteady {node : Node} {rest : Text}
          (hread : statement (within (depth + 1)) t = .found node rest) :
          SteadyAt (hazards (Inside (depth + 1) t)) (fun _ => True)
            (statement (within (depth + 1))) t := by
        refine steadyAt_closedForms (steady_within (depth + 1)) (fun {u v} hopens hreaches => ?_)
          (fun hlong => ⟨depth + 1, t, .self hread, hlong⟩)
          (leads_expression (within depth) .logical).andThen
          fun hgives => ⟨depth + 1, t, .self hread, hgives⟩
        refine ((ih v).mono fun _ _ => trivial).weaken ?_ ?_
        · rintro more ⟨inner, w, hinside, hlong⟩
          exact ⟨inner, w, .block hread hopens hreaches hinside, hlong⟩
        · rintro more ⟨inner, w, hinside, hgives⟩
          exact ⟨inner, w, .block hread hopens hreaches hinside, hgives⟩
      exact ⟨fun hread => (hsteady hread).suffix hread, fun hread => (hsteady hread).readsOn hread⟩

end Grammar

end Klartext
