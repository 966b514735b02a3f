import Klartext.Proofs.Diagnosis.Blame
import Klartext.Proofs.Diagnosis.Place

set_option autoImplicit false

/-! # Where the arguments of a call are refused

A call that has come as far as `mit` is read to its end or refused, wherever it stands: among the items
of a list, in the arguments of another call, in a block or a condition. The refusal comes to light with
the rest at which its arguments begin, so that the call it belongs to is known: it is the one that ends
where the rest begins.

The rest alone does not say where in the source that is. An item is read without what stands around it,
and then the rest does not end the source, but is looked for in it. The refusal is located at its call
exactly if the rest does end the source there, or stands there for the first time
(`parseProgram_refusedCall`). -/

namespace Klartext

open Reader Rules

/-! ## Looking for a rest -/

namespace Place

variable {source before rest behind : Text}

/-- Where a rest that stands in the source is located: where it begins if it ends the source, and
    otherwise where it stands for the first time. -/
theorem offsetOf_cases (hsource : source = before ++ (rest ++ behind)) :
    (rest <:+ source ∧ offsetOf source rest + rest.length = source.length) ∨
      (¬ rest <:+ source ∧ rest <+: source.drop (offsetOf source rest) ∧
        ∀ i < offsetOf source rest, ¬ rest <+: source.drop i) := by
  by_cases hsuffix : rest <:+ source
  · refine .inl ⟨hsuffix, ?_⟩
    rw [offsetOf, if_pos (List.isSuffixOf_iff_suffix.2 hsuffix)]
    exact Nat.sub_add_cancel hsuffix.length_le
  · refine .inr ⟨hsuffix, ?_⟩
    have hholds : Text.holds rest source = true := hsource ▸ Text.holds_append rest before behind
    cases hindex : Text.indexOf? rest source with
    | none =>
        rw [Text.indexOf?, Option.map_eq_none_iff] at hindex
        rw [Text.holds, hindex] at hholds
        cases hholds
    | some i =>
        have hoffset : offsetOf source rest = i := by
          rw [offsetOf, if_neg (mt List.isSuffixOf_iff_suffix.1 hsuffix), hindex, Option.getD_some]
        rw [hoffset]
        exact Text.indexOf?_eq_some hindex

/-- A rest that stands in the source stands where it is located. -/
theorem prefix_drop_offsetOf (hsource : source = before ++ (rest ++ behind)) :
    rest <+: source.drop (offsetOf source rest) := by
  rcases offsetOf_cases hsource with ⟨hsuffix, hoffset⟩ | ⟨-, hstands, -⟩
  · obtain ⟨front, rfl⟩ := hsuffix
    rw [List.length_append] at hoffset
    have hdrop : (front ++ rest).drop (offsetOf (front ++ rest) rest) = rest := by
      rw [show offsetOf (front ++ rest) rest = front.length by omega, List.drop_left]
    exact ⟨[], by rw [hdrop, List.append_nil]⟩
  · exact hstands

/-- A rest is located at one of the places at which it stands exactly if it ends the source there, or
    if it does not end the source and stands there for the first time. -/
theorem offsetOf_eq_iff (hsource : source = before ++ (rest ++ behind)) :
    offsetOf source rest = before.length ↔
      behind = [] ∨ (¬ rest <:+ source ∧ ∀ i < before.length, ¬ rest <+: source.drop i) := by
  have hlength : source.length = before.length + rest.length + behind.length := by
    rw [hsource, List.length_append, List.length_append, Nat.add_assoc]
  have hthere : rest <+: source.drop before.length := by
    rw [hsource, List.drop_left]
    exact List.prefix_append rest behind
  -- at the end of the source the length decides, and otherwise that both places are the first one
  rcases offsetOf_cases hsource with ⟨hsuffix, hoffset⟩ | ⟨hnot, hstands, hfirst⟩
  · constructor
    · exact fun h => .inl (List.length_eq_zero_iff.1 (by omega))
    · rintro (rfl | ⟨hnot, -⟩)
      · rw [List.length_nil] at hlength
        omega
      · exact absurd hsuffix hnot
  · constructor
    · exact fun h => .inr ⟨hnot, h ▸ hfirst⟩
    · rintro (rfl | ⟨-, hnowhere⟩)
      · rw [List.append_nil] at hsource
        exact absurd ⟨before, hsource.symm⟩ hnot
      · refine Nat.le_antisymm (Nat.le_of_not_lt fun hlt => ?_) (Nat.le_of_not_lt fun hlt => ?_)
        · exact hfirst _ hlt hthere
        · exact hnowhere _ hlt hstands

end Place

/-! ## Calls that are refused -/

namespace Grammar

/-- The beginning of a call with arguments, up to them. -/
def Opens (name opening : Text) : Prop :=
  ∃ gap raw, opening = "führe".toList ++ (gap ++ (raw ++ " mit ".toList)) ∧ IsGap gap ∧
    Text.normalize raw = name ∧ name ≠ []

/-- Whatever stands before it, the beginning of a call is in normal form its three parts with single
    spaces between them. -/
theorem Opens.normalize {name opening : Text} (h : Opens name opening) (before : Text) :
    ∃ front, Text.normalize (before ++ opening) =
      front ++ ("führe ".toList ++ (name ++ " mit".toList)) := by
  obtain ⟨gap, raw, rfl, ⟨hgap, hblank⟩, rfl, hne⟩ := h
  have hword : Text.IsWord "führe".toList := ⟨by decide, Text.not_blank_of_all (by decide)⟩
  obtain ⟨front, u, hwords⟩ := Text.exists_words_append before hword
  obtain ⟨b, gap, rfl⟩ := List.exists_cons_of_ne_nil hgap
  obtain ⟨hb, hblank⟩ := List.forall_mem_cons.1 (List.all_eq_true.1 hblank)
  have hraw : Text.words (gap ++ (raw ++ " mit ".toList)) = Text.words raw ++ ["mit".toList] := by
    rw [Text.words_blank_append (List.all_eq_true.2 hblank)]
    exact Text.words_append_blank (by decide) raw "mit ".toList
  -- `führe` may be the end of a longer word, since nothing has to stand before it
  have hall : Text.words (before ++ ("führe".toList ++ (b :: gap ++ (raw ++ " mit ".toList)))) =
      front ++ (u ++ "führe".toList) :: (Text.words raw ++ ["mit".toList]) := by
    rw [← List.append_assoc, List.cons_append, Text.words_append_blank hb, hwords, hraw]
    simp only [List.append_assoc, List.singleton_append]
  have hname : Text.words raw ≠ [] := by
    intro hnil
    rw [Text.normalize, hnil] at hne
    exact hne rfl
  obtain ⟨front', hjoin⟩ := Text.exists_joinWith_append [' '] front u "führe".toList
    (Text.words raw ++ ["mit".toList])
  refine ⟨front', ?_⟩
  rw [Text.normalize, hall, hjoin, Text.joinWith_cons (List.append_ne_nil_of_left_ne_nil hname _),
    Text.joinWith_append hname (List.cons_ne_nil _ _), ← Text.normalize]
  rfl

/-- From this text a call was read, nested to less than `limit` levels, and its arguments were refused:
    the text is the beginning of the call and the rest that the refusal names. -/
structure RefusedCall (limit : Nat) (r : Refusal) (call : Text) : Prop where
  read : ∃ depth < limit, functionCall (within depth) call = .broken (.refused r)
  opens : ∃ name opening, call = opening ++ r.rest ∧ Opens name opening ∧
    r = argumentsRefusal name r.rest

theorem RefusedCall.mono {limit limit' : Nat} {r : Refusal} {call : Text}
    (h : RefusedCall limit r call) (hlimit : limit ≤ limit') : RefusedCall limit' r call := by
  obtain ⟨⟨depth, hdepth, hread⟩, hopens⟩ := h
  exact ⟨⟨depth, Nat.lt_of_lt_of_le hdepth hlimit, hread⟩, hopens⟩

end Grammar

/-- What the readers for nested parts refuse is about a part of their text as `C` says. -/
structure Nested.Blames (C : Refusal → Text → Prop) (nested : Nested) : Prop where
  expression : ∀ layer, Reader.Blames C (nested.expression layer)
  statement : Reader.Blames C nested.statement

namespace Grammar

/-! ## What refuses nothing itself -/

section Quiet

variable {C : Refusal → Text → Prop}

theorem blames_primitive : Blames C primitive := by
  refine .orElse ?_ (.orElse ?_ (.orElse (.orElse ?_ ?_) ?_))
  · exact (blames_of_neverBreaks reads_between (neverBreaks_between _)).bind fun _ => blames_pure _
  · refine blames_digits.bind fun whole => ?_
    refine ((blames_phrase ",").bind fun _ => blames_digits).optional.bind fun places? => ?_
    cases places? with
    | none => exact blames_pure _
    | some places => exact (blames_wholeNumber places).bind fun _ => blames_pure _
  · exact (blames_literal _).bind fun _ => blames_pure _
  · exact (blames_literal _).bind fun _ => blames_pure _
  · exact (blames_literal _).bind fun _ => blames_pure _

theorem blames_reference : Blames C reference := by
  refine .orElse ?_ blames_primitive
  exact (blames_phrase "/").bind fun _ => (blames_nameUntil _ (by decide)).bind fun _ =>
    blames_pure _

theorem blames_signature (room : Nat) : Blames C (signature room) := by
  refine .orElse ?_ ?_
  · exact (blames_nameUntil _ (by decide)).bind fun name =>
      ((blames_of_neverBreaks reads_plainName neverBreaks_plainName).listUntil _ _).bind fun _ =>
        blames_pure _
  · exact (blames_nameUntil _ (by decide)).bind fun _ => blames_pure _

end Quiet

/-! ## The rules -/

/-- A call is refused from its arguments on, if they are no list of arguments, or for one of them. -/
theorem refused_of_functionCall {nested : Nested} {t : Text} {r : Refusal}
    (hread : functionCall nested t = .broken (.refused r)) :
    ∃ name opening arguments, t = opening ++ arguments ∧ Opens name opening ∧
      (r = argumentsRefusal name arguments ∨
        listUntil " aus".toList (nested.expression .logical) nested.room arguments =
          .broken (.refused r)) := by
  obtain ⟨_, _, t, rfl, rfl, hgapped⟩ :=
    exists_of_bind_broken (reads_word rfl) (neverBreaks_phrase _) hread
  obtain ⟨_, gap, t, rfl, hgap, hnamed⟩ :=
    exists_of_bind_broken reads_blanks1 neverBreaks_blanks1 hgapped
  rcases orElse_eq_broken.1 hnamed with hnamed | ⟨-, hbare⟩
  · obtain ⟨name, _, t, rfl, ⟨raw, rfl, hname⟩, harguments⟩ :=
      exists_of_bind_broken (reads_nameUntil _ (by decide)) (neverBreaks_nameUntil _ _) hnamed
    have hnormal : Text.normalize raw = name := (String.ofList_injective hname.name_eq).symm
    refine ⟨name, _, t, ?_, ⟨gap, raw, rfl, hgap, hnormal, hnormal ▸ hname.ne_nil⟩, ?_⟩
    · simp only [List.append_assoc]
    · simp only [bind_apply, Reader.orRefuse] at harguments
      cases hlist : listUntil " aus".toList (nested.expression .logical) nested.room t with
      | found nodes rest => simp only [hlist, pure_apply, reduceCtorEq] at harguments
      | missed =>
          simp only [hlist, Reading.broken.injEq, Failure.refused.injEq] at harguments
          exact .inl harguments.symm
      | broken e =>
          simp only [hlist, Reading.broken.injEq] at harguments
          exact .inr (congrArg Reading.broken harguments)
  · -- what has no arguments may be no call, but it is not refused
    exact absurd hbare (((neverBreaks_nameUntil _ _).bind fun _ => neverBreaks_pure _) _ _)

/-- Only the reader of calls refuses anything itself; otherwise the refusal comes from an argument. -/
theorem blames_functionCall {limit : Nat} (h : (within limit).Blames (RefusedCall limit)) :
    Blames (RefusedCall (limit + 1)) (functionCall (within limit)) := by
  refine ⟨fun hread => ?_, fun {t r} hread => ?_⟩
  · obtain ⟨u, rfl, -⟩ := (reads_functionCall (reads_within limit)).found hread
    exact List.suffix_append u _
  · obtain ⟨name, opening, arguments, rfl, hopens, rfl | hlist⟩ :=
      refused_of_functionCall hread
    · exact ⟨_, List.infix_rfl, ⟨limit, Nat.lt_succ_self limit, hread⟩, name, opening, rfl, hopens,
        rfl⟩
    · obtain ⟨u, hu, hr⟩ := ((h.expression .logical).listUntil _ _).refused hlist
      exact ⟨u, hu.trans (List.suffix_append opening arguments).isInfix,
        hr.mono (Nat.le_succ limit)⟩

section Rules

variable {C : Refusal → Text → Prop} {nested : Nested} (h : nested.Blames C)
include h

theorem blames_spoken (form : String × Operator) (layer : Layer) :
    Blames C (spoken form (nested.expression layer)) :=
  (blames_phrase _).bind fun _ => blames_blanks1.bind fun _ => (h.expression layer).bind fun _ =>
    blames_blanks1.bind fun _ => (blames_phrase _).bind fun _ => blames_blanks1.bind fun _ =>
    (h.expression layer).bind fun _ => blames_pure _

theorem blames_tail (operators : List (String × Operator)) (layer : Layer) (left : Node) :
    Blames C (tail operators (nested.expression layer) left) := by
  refine .orElse (blames_firstOf fun reader hreader => ?_) (blames_pure left)
  obtain ⟨operator, -, rfl⟩ := List.mem_map.1 hreader
  exact blames_blanks1.bind fun _ => (blames_phrase _).bind fun _ => blames_blanks1.bind fun _ =>
    (h.expression layer).bind fun _ => blames_pure _

section Expressions

variable (hcall : Blames C (functionCall nested))
include hcall

theorem blames_concat : Blames C (concat nested) :=
  (blames_spoken h concatForm .concat).orElse (hcall.orElse blames_reference)

theorem blames_arithmetic : Blames C (arithmetic nested) := by
  refine .orElse (blames_firstOf fun reader hreader => ?_) (blames_concat h hcall)
  obtain ⟨form, -, rfl⟩ := List.mem_map.1 hreader
  exact blames_spoken h form .arithmetic

theorem blames_comparison : Blames C (comparison nested) :=
  (blames_arithmetic h hcall).bind fun left => blames_tail h comparisonOperators .comparison left

theorem blames_logical : Blames C (logical nested) :=
  (blames_comparison h hcall).bind fun left => blames_tail h logicalOperators .logical left

theorem blames_expression (layer : Layer) : Blames C (expression nested layer) := by
  cases layer with
  | logical => exact blames_logical h hcall
  | comparison => exact blames_comparison h hcall
  | arithmetic => exact blames_arithmetic h hcall
  | concat => exact blames_concat h hcall
  | call => exact hcall.orElse blames_reference
  | reference => exact blames_reference
  | primitive => exact blames_primitive

end Expressions

theorem blames_clause : Blames C (clause nested) :=
  (blames_phrase _).bind fun _ => blames_blanks1.bind fun _ => (h.expression .logical).bind fun _ =>
    blames_blanks1.bind fun _ => (blames_phrase _).bind fun _ => blames_blanks.bind fun _ =>
    (blames_phrase _).bind fun _ => blames_pure _

theorem blames_body : Blames C (body nested) := h.statement.manyUntil "oder"

theorem blames_elseIf : Blames C (elseIf nested) :=
  blames_blanks1.bind fun _ => (blames_phrase _).bind fun _ => blames_blanks1.bind fun _ =>
    (blames_clause h).bind fun _ => (blames_body h).bind fun _ => blames_pure _

theorem blames_otherwise : Blames C (otherwise nested) :=
  blames_blanks1.bind fun _ => (blames_phrase _).bind fun _ => blames_body h

theorem blames_conditional : Blames C (conditional nested) :=
  (blames_phrase _).bind fun _ => blames_blanks1.bind fun _ => (blames_clause h).bind fun _ =>
    (blames_body h).bind fun _ => (blames_elseIf h).many.bind fun _ =>
    (blames_otherwise h).optional.bind fun _ => (blames_phrase _).bind fun _ => blames_pure _

theorem blames_function : Blames C (function nested) :=
  (blames_phrase _).bind fun _ => blames_blanks1.bind fun _ =>
    (blames_signature nested.room).bind fun _ =>
    (h.statement.manyUntil "und endet hier").bind fun _ => blames_pure _

theorem blames_definition : Blames C (definition nested) :=
  (blames_of_neverBreaks (reads_longestOf articles) (neverBreaks_longestOf articles)).bind fun _ =>
    blames_blanks1.bind fun _ => (blames_nameUntil _ (by decide)).bind fun _ =>
    blames_blanks1.bind fun _ => (h.expression .logical).bind fun _ => blames_pure _

theorem blames_giveBack : Blames C (giveBack nested) :=
  (blames_phrase _).bind fun _ => blames_blanks1.bind fun _ => (h.expression .logical).bind fun _ =>
    blames_blanks1.bind fun _ => (blames_phrase _).bind fun _ => blames_pure _

theorem blames_print : Blames C (print nested) :=
  (blames_phrase _).bind fun _ => blames_blanks1.bind fun _ =>
    ((h.expression .logical).listUntil _ _).bind fun _ => blames_pure _

theorem blames_statement : Blames C (statement nested) := by
  refine blames_blanks.bind fun _ => blames_firstOf fun reader hreader => ?_
  obtain ⟨form, hform, rfl⟩ := List.mem_map.1 hreader
  have hclosed {form : Reader Node} (hform : Blames C form) : Blames C (closed form) :=
    hform.bind fun _ => blames_blanks.bind fun _ => (blames_phrase _).bind fun _ => blames_pure _
  simp only [forms, List.mem_cons, List.not_mem_nil, or_false] at hform
  rcases hform with rfl | rfl | rfl | rfl | rfl | rfl
  · exact hclosed ((h.expression .logical).bind fun _ => blames_pure _)
  · exact hclosed (blames_conditional h)
  · exact hclosed (blames_function h)
  · exact hclosed (blames_definition h)
  · exact hclosed (blames_giveBack h)
  · exact hclosed (blames_print h)

end Rules

/-- At every depth a refusal belongs to a call whose arguments are refused. -/
theorem blames_within (limit : Nat) : (within limit).Blames (RefusedCall limit) := by
  induction limit with
  | zero => exact ⟨fun _ => ⟨nofun, nofun⟩, ⟨nofun, nofun⟩⟩
  | succ limit ih =>
      have hnested : (within limit).Blames (RefusedCall (limit + 1)) :=
        ⟨fun layer => (ih.expression layer).mono fun _ _ hr => hr.mono (Nat.le_succ limit),
          ih.statement.mono fun _ _ hr => hr.mono (Nat.le_succ limit)⟩
      exact ⟨blames_expression hnested (blames_functionCall ih), blames_statement hnested⟩

end Grammar

/-! ## Programs -/

namespace Reader

variable {α : Type} {p : Reader α}

/-- One value after the other is read, and this is what is left behind them. -/
inductive Passes (p : Reader α) : List α → Text → Text → Prop where
  | nil (t : Text) : Passes p [] t t
  | cons {t u v : Text} {a : α} {as : List α} (h : p t = .found a u) (hprogress : u.length < t.length)
      (hrest : Passes p as u v) : Passes p (a :: as) t v

theorem Passes.suffix {C : Refusal → Text → Prop} (hp : Blames C p) {as : List α} {t u : Text}
    (h : Passes p as t u) : u <:+ t := by
  induction h with
  | nil => exact List.suffix_rfl
  | cons h _ _ ih => exact ih.trans (hp.suffix h)

/-- Where reading values breaks off, it has passed some of them and breaks off at the next one. -/
theorem exists_passes_of_upTo {bound : Nat} {t : Text} {e : Failure}
    (h : upTo p bound t = .broken e) : ∃ as u, Passes p as t u ∧ p u = .broken e := by
  induction bound generalizing t with
  | zero => cases h
  | succ bound ih =>
      rcases upTo_succ_eq_broken.1 h with hpt | ⟨a, rest, hpt, hprogress, hothers⟩
      · exact ⟨[], t, .nil t, hpt⟩
      · rcases bind_eq_broken.1 hothers with hrest | ⟨_, _, -, hpure⟩
        · obtain ⟨as, u, hpasses, hbroken⟩ := ih hrest
          exact ⟨a :: as, u, .cons hpt hprogress hpasses, hbroken⟩
        · cases hpure

end Reader

/-- The message about the arguments of a call. -/
def argumentsMessage (name : String) : String :=
  s!"Could not parse the arguments of function call '{name}'"

theorem Grammar.message_argumentsRefusal (name rest : Text) :
    (argumentsRefusal name rest).message = argumentsMessage (String.ofList name) := rfl

theorem toList_argumentsMessage (name : String) :
    (argumentsMessage name).toList =
      "Could not parse the arguments of function call '".toList ++ (name.toList ++ "'".toList) := by
  show ("Could not parse the arguments of function call '" ++ name ++ "'").toList = _
  rw [String.toList_append, String.toList_append, List.append_assoc]

theorem argumentsMessage_inj {name name' : String} (h : argumentsMessage name = argumentsMessage name') :
    name = name' := by
  have htexts := congrArg String.toList h
  rw [toList_argumentsMessage, toList_argumentsMessage] at htexts
  exact String.toList_inj.1 (List.append_cancel_right (List.append_cancel_left htexts))

/-- Only the refusal of a call's arguments has this message. -/
theorem refused_of_argumentsMessage {limit : Nat} {source : Text} {filename name : String}
    {r : Refusal} {site : Option Site}
    (h : parseProgram limit source filename = .error (.rejected ⟨r, site⟩))
    (hmessage : r.message = argumentsMessage name) :
    Grammar.program limit source = .broken (.refused r) ∧
      ⟨r, site⟩ = r.locate source filename := by
  -- the other messages are too short to be this one, whatever the name is
  have hother (message : String) (hlength : message.toList.length < 48) :
      message ≠ argumentsMessage name := by
    rintro rfl
    rw [toList_argumentsMessage, List.length_append] at hlength
    exact absurd hlength (by simp)
  rw [parseProgram] at h
  split at h
  · split at h
    · cases h
    · cases h
      exact absurd hmessage (hother "Could not parse statement" (by decide))
  · cases h
    exact absurd hmessage (hother "Could not parse statement" (by decide))
  · rename_i e hread
    cases e with
    | refused r' =>
        have hlocated := SourceFault.rejected.inj (Except.error.inj h)
        obtain rfl : r' = r := congrArg Rejection.refusal hlocated
        exact ⟨hread, hlocated.symm⟩
    | tooDeep =>
        cases h
        exact absurd hmessage (hother "Maximum nesting depth exceeded" (by decide))
    | tooManyDigits count => cases h

/-- Where a refusal of a call's arguments is located. The call that it belongs to stands in the
    statement at which reading breaks off, behind the statements that were read before: it was read
    there and refused, its beginning stands right before the rest, and in normal form what is before
    the rest ends in its words. The refusal is always located at a place at which the rest stands. It
    is the place behind the beginning of the call exactly if nothing follows the rest there, or if the
    rest does not end the source and stands nowhere before. -/
theorem parseProgram_refusedCall {limit : Nat} {source : Text} {filename name : String}
    {r : Refusal} {site : Option Site}
    (h : parseProgram limit source filename = .error (.rejected ⟨r, site⟩))
    (hmessage : r.message = argumentsMessage name) :
    ∃ (statements : List Node) (done begun behind : Text) (located : Site) (offset : Nat),
      source = done ++ (begun ++ (r.rest ++ behind)) ∧
      Passes (Grammar.within limit).statement statements source (begun ++ (r.rest ++ behind)) ∧
      (Grammar.within limit).statement (begun ++ (r.rest ++ behind)) = .broken (.refused r) ∧
      (∃ lead opening, begun = lead ++ opening ∧ Grammar.Opens name.toList opening ∧
        ∃ depth < limit,
          Grammar.functionCall (Grammar.within depth) (opening ++ r.rest) = .broken (.refused r)) ∧
      (∃ front, Text.normalize (done ++ begun) =
        front ++ ("führe ".toList ++ (name.toList ++ " mit".toList))) ∧
      site = some located ∧ located.offset = offset ∧ r.rest <+: source.drop offset ∧
      (offset = (done ++ begun).length ↔
        behind = [] ∨
          (¬ r.rest <:+ source ∧ ∀ i < (done ++ begun).length, ¬ r.rest <+: source.drop i)) := by
  obtain ⟨hread, hlocated⟩ := refused_of_argumentsMessage h hmessage
  obtain ⟨statements, current, hpasses, hbroken⟩ := exists_passes_of_upTo hread
  have hblames := (Grammar.blames_within limit).statement
  obtain ⟨done, rfl⟩ := hpasses.suffix hblames
  obtain ⟨call, ⟨lead, behind, rfl⟩, ⟨depth, hdepth, hcall⟩, name', opening, rfl, hopens, hr⟩ :=
    hblames.refused hbroken
  have hsame : String.ofList name' = name := by
    rw [hr, Grammar.message_argumentsRefusal] at hmessage
    exact argumentsMessage_inj hmessage
  obtain rfl : name' = name.toList := by rw [← hsame, String.toList_ofList]
  have hcurrent : lead ++ (opening ++ r.rest) ++ behind =
      (lead ++ opening) ++ (r.rest ++ behind) := by
    simp only [List.append_assoc]
  rw [hcurrent] at hpasses hbroken hlocated ⊢
  have hsource : done ++ ((lead ++ opening) ++ (r.rest ++ behind)) =
      (done ++ (lead ++ opening)) ++ (r.rest ++ behind) := (List.append_assoc ..).symm
  obtain ⟨front, hnormal⟩ := hopens.normalize (done ++ lead)
  rw [List.append_assoc] at hnormal
  exact ⟨statements, done, lead ++ opening, behind, _, _, rfl, hpasses, hbroken,
    ⟨lead, opening, rfl, hopens, depth, hdepth, hcall⟩, ⟨front, hnormal⟩,
    congrArg Rejection.site hlocated, rfl, Place.prefix_drop_offsetOf hsource,
    Place.offsetOf_eq_iff hsource⟩

/-- What is refused here stands in a string of the statement before, too, and it is located there. -/
theorem parseProgram_refusedCall_elsewhere :
    let source := "\"x y\"! zeig führe f mit x y an!".toList
    let r := Grammar.argumentsRefusal "f".toList "x y".toList
    parseProgram 3 source unnamed =
        .error (.rejected ⟨r, some (r.siteAt source unnamed 1)⟩) ∧
      r.message = argumentsMessage "f" ∧
      ∃ (statements : List Node) (done begun behind : Text),
        source = done ++ (begun ++ ("x y".toList ++ behind)) ∧
        Passes (Grammar.within 3).statement statements source
          (begun ++ ("x y".toList ++ behind)) ∧
        (∃ front, Text.normalize (done ++ begun) = front ++ "führe f mit".toList) ∧
        (done ++ begun).length ≠ 1 := by
  intro source r
  have hbroken : Grammar.program 3 source = .broken (.refused r) := by
    have hcheck : (match Grammar.program 3 source with
      | .broken e => decide (e = .refused r)
      | _ => false) = true := by decide +kernel
    split at hcheck
    · rename_i e hbroken
      rw [hbroken, of_decide_eq_true hcheck]
    · cases hcheck
  have hoffset : Place.offsetOf source r.rest = 1 := by decide +kernel
  have hread : parseProgram 3 source unnamed =
      .error (.rejected ⟨r, some (r.siteAt source unnamed 1)⟩) := by
    rw [parseProgram, hbroken, ← Refusal.locate_eq hoffset]
    rfl
  have hmessage : r.message = argumentsMessage "f" := by decide +kernel
  obtain ⟨statements, done, begun, behind, located, offset, hsource, hpasses, -, -,
    ⟨front, hnormal⟩, -⟩ := parseProgram_refusedCall hread hmessage
  refine ⟨hread, hmessage, statements, done, begun, behind, hsource, hpasses, ⟨front, hnormal⟩,
    fun hone => ?_⟩
  -- before the place stands one character only, and not the beginning of a call
  have hbefore : done ++ begun = "\"".toList := by
    rw [← List.append_assoc] at hsource
    have htake := congrArg (List.take 1) hsource
    rw [← hone, List.take_left] at htake
    rw [← htake, hone]
    decide +kernel
  have hlength := congrArg List.length hnormal
  rw [hbefore, List.length_append] at hlength
  have hshort : (Text.normalize "\"".toList).length = 1 := by decide
  rw [hshort] at hlength
  have hlong : ("führe ".toList ++ ("f".toList ++ " mit".toList)).length = 11 := by decide
  omega

end Klartext
