import Klartext.Proofs.Continued.Loop
import Klartext.Proofs.Rules.Statement

set_option autoImplicit false

/-! # Expressions on texts that go on

An expression is read on if an exclamation mark comes behind it and, where an operator could stand
behind it, something that is no operator. The alternatives of a layer begin with different words, so
that one that missed the beginning of a text does not find the whole. -/

namespace Klartext

open Reader Rules Surface

/-! ## The words that expressions begin with -/

/-- The digits, each as a word. -/
def digitWords : List (List Text) := (List.range 10).map fun n => [[Char.ofNat ('0'.toNat + n)]]

theorem begins_digit {c : Char} (hc : c.isDigit = true) (u : Text) :
    ∃ ws ∈ digitWords, Begins ws (c :: u) := by
  refine ⟨[[c]], List.mem_map.2 ⟨c.toNat - '0'.toNat, ?_, ?_⟩, .of_spelled (.word [c]) u⟩ <;>
    have hrange : '0'.toNat ≤ c.toNat ∧ c.toNat ≤ '0'.toNat + 9 := by
      simpa [Char.isDigit, UInt32.le_iff_toNat_le] using hc
  · rw [List.mem_range]
    omega
  · rw [Nat.add_sub_cancel' hrange.1, Char.ofNat_toNat]

namespace Layer

/-- The words with which the forms of a layer begin. -/
def ownWords : Layer → List (List Text)
  | .logical | .comparison => []
  | .arithmetic => Grammar.arithmeticForms.map fun form => Text.words form.1.toList
  | .concat => [Text.words Grammar.concatForm.1.toList]
  | .call => [["führe".toList]]
  | .reference => [["/".toList]]
  | .primitive =>
    ["\"".toList] :: ["wahr".toList] :: ["falsch".toList] :: ["nix".toList] :: digitWords

/-- The words with which the expressions of a layer begin: its own and those of tighter layers. -/
def leads (layer : Layer) : List (List Text) :=
  (all.filter fun tighter => layer.tightness ≤ tighter.tightness).flatMap ownWords

end Layer

/-! ## What may follow an expression -/

/-- What closes an expression in a statement. -/
def closers : List (List Text) := [["!".toList], ["zurück".toList], ["ist".toList]]

/-- What is expected behind an expression of a layer: behind a comparison also a logical
    operator. -/
def Layer.Follow : Layer → Text → Prop
  | .logical => Follows closers
  | .comparison => Follows (["und".toList] :: ["oder".toList] :: closers)
  | _ => Marked

theorem Layer.Follow.marked {layer : Layer} {t : Text} (h : layer.Follow t) : Marked t := by
  cases layer with
  | logical | comparison => exact Follows.mark h
  | _ => exact h

/-- The readers for nested expressions are steady, and what they find begins with the words of its
    layer. -/
structure Nested.Steady (nested : Nested) : Prop where
  expression : ∀ layer, Reader.Steady layer.Follow (nested.expression layer)
  starts : ∀ layer : Layer, Starts layer.leads (nested.expression layer)

namespace Grammar

variable {nested : Nested}

/-! ## Primitives and references -/

theorem steady_between : Steady Marked (between ['\"']) := by
  refine ⟨reads_between.suffix, fun {t content rest} hread _ more => ?_⟩
  simp only [between] at hread ⊢
  split at hread
  · rename_i hprefix
    have hmore : ['\"'].isPrefixOf (t ++ more) = true := List.isPrefixOf_iff_prefix.2
      ((List.isPrefixOf_iff_prefix.1 hprefix).trans (List.prefix_append t more))
    rw [if_pos hmore, drop_more hprefix]
    split at hread
    · rename_i raw rest' hclosing
      cases hread
      rw [closing_more hclosing more]
    · cases hread
  · cases hread

theorem leads_string : Leads [["\"".toList]] string := by
  refine (reads_between.leads (neverBreaks_between _) fun {_ u} hu => ?_).andThen
  obtain ⟨raw, rfl, -⟩ := hu
  exact ⟨_, List.mem_singleton_self _, .of_spelled (.word "\"".toList) _⟩

theorem leads_number : Leads digitWords number := by
  refine (reads_digits.leads (neverBreaks_digits _) fun {_ u} hu => ?_).andThen
  obtain ⟨d, rfl, -⟩ := hu
  obtain ⟨c, v, htext, hc⟩ := d.head
  rw [htext]
  exact begins_digit hc v

theorem leads_boolean : Leads ([["wahr".toList]] ++ [["falsch".toList]]) boolean :=
  (leads_literal _).andThen.orElse (leads_literal _).andThen

theorem leads_null : Leads [["nix".toList]] null := (leads_literal _).andThen

theorem leads_primitive : Leads Layer.primitive.leads primitive :=
  (leads_string.orElse (leads_number.orElse (leads_boolean.orElse leads_null))).mono (by decide)

theorem steady_primitive : Steady Marked primitive := by
  have hstring : Steady Marked string := steady_between.map
  have hothers : StopsAtMark (number <|> boolean <|> null) :=
    stopsAtMark_number.orElse (stopsAtMark_boolean.orElse stopsAtMark_null)
  exact hstring.orElse hothers.steady
    (apart_of_leads leads_string (leads_number.orElse (leads_boolean.orElse leads_null)).starts
      (by decide))

theorem leads_reference : Leads Layer.reference.leads reference :=
  ((leads_phrase "/").andThen.orElse leads_primitive).mono (by decide)

theorem steady_reference : Steady Marked reference :=
  stopsAtMark_variableReference.steady.orElse steady_primitive
    (stopsAtMark_variableReference.settled.apart steady_primitive fun _ => id)

/-! ## Calls -/

/-- The text decides at `mit` whether a call has arguments. -/
theorem steady_functionCall (h : nested.Reads) : Steady Marked (functionCall nested) := by
  have hlist : Steady Marked (listUntil " aus".toList (nested.expression .logical) nested.room) :=
    steady_listUntil (by decide) (h.expression .logical) _
  have hmit : StopsAtMark (nameUntil " mit ".toList [" aus".toList, "!".toList]) :=
    stopsAtMark_nameUntil (by decide) (by decide)
  have haus : StopsAtMark (nameUntil " aus".toList ["!".toList]) :=
    stopsAtMark_nameUntil (by decide) (by decide)
  refine (stopsAtMark_phrase (by decide)).andThen fun _ => stopsAtMark_blanks1.andThen fun _ => ?_
  have hwithout := haus.andThen fun name => steady_pure (Node.call (String.ofList name) [])
  refine Steady.orElse ?_ hwithout (Settled.apart ?_ hwithout fun _ => id)
  · exact hmit.andThen fun name => (hlist.orRefuse _).map
  · exact hmit.bind_settled fun name => (settled_orRefuse _ _).map

theorem leads_functionCall : Leads [["führe".toList]] (functionCall nested) :=
  (leads_phrase "führe").andThen

theorem leads_call : Leads Layer.call.leads (call nested) :=
  (leads_functionCall.orElse leads_reference).mono (by decide)

theorem steady_call (h : nested.Reads) : Steady Marked (call nested) :=
  (steady_functionCall h).orElse steady_reference
    (apart_of_leads leads_functionCall leads_reference.starts (by decide))

/-! ## Spoken operations -/

theorem steady_spoken (form : String × Operator) (hform : '!' ∉ (Text.words form.1.toList).flatten)
    {operand : Reader Node} (h : Steady Marked operand) : Steady Marked (spoken form operand) := by
  refine (stopsAtMark_phrase hform).andThen fun _ => stopsAtMark_blanks1.andThen fun _ =>
    h.andThen (fun left => ?_) fun _ => id
  exact stopsAtMark_blanks1.andThen fun _ => (stopsAtMark_phrase (by decide)).andThen fun _ =>
    stopsAtMark_blanks1.andThen fun _ => h.map

theorem leads_spoken (form : String × Operator) (operand : Reader Node) :
    Leads [Text.words form.1.toList] (spoken form operand) :=
  (leads_phrase _).andThen

theorem leads_concat : Leads Layer.concat.leads (concat nested) :=
  ((leads_spoken concatForm _).orElse leads_call).mono (by decide)

theorem steady_concat (h : nested.Reads) (hs : nested.Steady) : Steady Marked (concat nested) :=
  (steady_spoken concatForm (by decide) (hs.expression .concat)).orElse (steady_call h)
    (apart_of_leads (leads_spoken concatForm _) leads_call.starts (by decide))

theorem leads_arithmeticForms (operand : Reader Node) : Leads Layer.arithmetic.ownWords
    (firstOf (arithmeticForms.map fun form => spoken form operand)) := by
  refine leads_firstOf fun reader hreader => ?_
  obtain ⟨form, hform, rfl⟩ := List.mem_map.1 hreader
  exact (leads_spoken form operand).mono fun ws hws =>
    List.mem_singleton.1 hws ▸ List.mem_map_of_mem hform

theorem leads_arithmetic : Leads Layer.arithmetic.leads (arithmetic nested) :=
  ((leads_arithmeticForms _).orElse leads_concat).mono (by decide)

theorem steady_arithmetic (h : nested.Reads) (hs : nested.Steady) :
    Steady Marked (arithmetic nested) := by
  refine Steady.orElse (steady_firstOf (fun reader hreader => ?_) ?_) (steady_concat h hs)
    (apart_of_leads (leads_arithmeticForms _) leads_concat.starts (by decide))
  · obtain ⟨form, hform, rfl⟩ := List.mem_map.1 hreader
    have hmark : ∀ form ∈ arithmeticForms, '!' ∉ (Text.words form.1.toList).flatten := by decide
    exact steady_spoken form (hmark form hform) (hs.expression .arithmetic)
  · refine List.pairwise_map.2 (List.Pairwise.imp (R := fun form form' =>
      clashAll [Text.words form.1.toList] [Text.words form'.1.toList] = true) ?_ (by decide))
    exact fun hclash => apart_of_leads (leads_spoken _ _) (leads_spoken _ _).starts hclash

/-! ## Operations between operands -/

/-- An operator and its right operand behind a left one. -/
def operation (right : Reader Node) (left : Node) (operator : String × Operator) : Reader Node := do
  let _ ← blanks1
  phrase operator.1
  let _ ← blanks1
  return .operation operator.2 left (← right)

theorem tail_eq (operators : List (String × Operator)) (right : Reader Node) (left : Node) :
    tail operators right left = (firstOf (operators.map (operation right left)) <|> pure left) :=
  rfl

theorem leads_operation (right : Reader Node) (left : Node) (o : String × Operator) :
    Leads [Text.words o.1.toList] (operation right left o) :=
  leads_blanks1 fun _ => (leads_phrase o.1).andThen

theorem leads_operations (operators : List (String × Operator)) (right : Reader Node)
    (left : Node) : Leads (operators.map fun o => Text.words o.1.toList)
      (firstOf (operators.map (operation right left))) := by
  refine leads_firstOf fun reader hreader => ?_
  obtain ⟨o, ho, rfl⟩ := List.mem_map.1 hreader
  refine (leads_operation right left o).mono fun ws hws => ?_
  rw [List.mem_singleton.1 hws]
  exact List.mem_map_of_mem ho

/-- Operators that cannot be mistaken for one another, with right operands that begin as `L` says, nor
    for what is expected behind an operand. Where the words of one begin those of another, no right
    operand begins with the words that are left. -/
structure Separate (operators : List (String × Operator)) (L K : List (List Text)) : Prop where
  no_mark : ∀ o ∈ operators, '!' ∉ (Text.words o.1.toList).flatten
  words_ne : ∀ o ∈ operators, Text.words o.1.toList ≠ []
  leads_ne : [] ∉ L
  apart : operators.Pairwise fun o o' => clashAll [Text.words o.1.toList]
    (L.map (Text.words o'.1.toList ++ ·)) = true
  behind : clashAll (operators.map fun o => Text.words o.1.toList) K = true

theorem steady_tail {operators : List (String × Operator)} {K : List (List Text)}
    {right : Reader Node} {layer : Layer} (h : Separate operators layer.leads K)
    (hright : Steady (Follows K) right) (hstarts : Starts layer.leads right) (left : Node) :
    Steady (Follows K) (tail operators right left) := by
  have hoperand (o : String × Operator) (ho : Text.words o.1.toList ≠ []) :
      Starts (layer.leads.map (Text.words o.1.toList ++ ·)) (operation right left o) :=
    starts_blanks1 fun _ => starts_phrase_behind ho h.leads_ne fun _ => hstarts.andThen
  rw [tail_eq]
  refine Steady.orElse (steady_firstOf (fun reader hreader => ?_) ?_) (steady_pure left)
    (apart_pure (leads_operations operators right left) h.behind left)
  · obtain ⟨o, ho, rfl⟩ := List.mem_map.1 hreader
    have hvalue : Steady (Follows K) (do return Node.operation o.2 left (← right)) := hright.map
    refine stopsAtMark_blanks1.steady.andThen (fun _ => ?_) fun _ => Follows.mark
    refine (stopsAtMark_phrase (h.no_mark o ho)).steady.andThen (fun _ => ?_) fun _ => Follows.mark
    exact stopsAtMark_blanks1.steady.andThen (fun _ => hvalue) fun _ => Follows.mark
  · refine List.pairwise_map.2 (h.apart.imp_of_mem fun {o o'} _ ho' hclash => ?_)
    exact apart_of_leads (leads_operation right left o) (hoperand o' (h.words_ne o' ho')) hclash

/-- What is found behind a left operand begins with an operator, or it is what is expected there. -/
theorem follows_of_tail {operators : List (String × Operator)} {K : List (List Text)}
    {right : Reader Node} {left node : Node} {t rest : Text}
    (hread : tail operators right left t = .found node rest)
    (hsuffix : rest <:+ t) (hrest : Follows K rest) :
    Follows ((operators.map fun o => Text.words o.1.toList) ++ K) t := by
  refine ⟨hrest.mark.mono hsuffix, ?_⟩
  rw [tail_eq] at hread
  rcases orElse_eq_found.1 hread with hfound | ⟨-, hnothing⟩
  · obtain ⟨ws, hws, hbegins⟩ := (leads_operations operators right left).begins hfound
    exact ⟨ws, List.mem_append_left _ hws, hbegins⟩
  · cases hnothing
    obtain ⟨ws, hws, hbegins⟩ := hrest.begins
    exact ⟨ws, List.mem_append_right _ hws, hbegins⟩

theorem steady_comparison (h : nested.Reads) (hs : nested.Steady) :
    Steady Layer.comparison.Follow (comparison nested) := by
  have hseparate : Separate comparisonOperators Layer.comparison.leads
      (["und".toList] :: ["oder".toList] :: closers) :=
    ⟨by decide, by decide, by decide, by decide, by decide⟩
  refine (steady_arithmetic h hs).andThen (fun left => ?_) fun _ => Layer.Follow.marked
  exact steady_tail hseparate (hs.expression .comparison) (hs.starts .comparison) left

theorem steady_logical (h : nested.Reads) (hs : nested.Steady) :
    Steady Layer.logical.Follow (logical nested) := by
  have hseparate : Separate logicalOperators Layer.logical.leads closers :=
    ⟨by decide, by decide, by decide, by decide, by decide⟩
  have htail (left : Node) :=
    steady_tail hseparate (hs.expression .logical) (hs.starts .logical) left
  refine (steady_comparison h hs).bind htail fun hread hrest => ?_
  exact (follows_of_tail hread ((htail _).suffix hread) hrest).mono (by decide)

theorem steady_expression (h : nested.Reads) (hs : nested.Steady) (layer : Layer) :
    Steady layer.Follow (expression nested layer) := by
  cases layer with
  | logical => exact steady_logical h hs
  | comparison => exact steady_comparison h hs
  | arithmetic => exact steady_arithmetic h hs
  | concat => exact steady_concat h hs
  | call => exact steady_call h
  | reference => exact steady_reference
  | primitive => exact steady_primitive

theorem leads_expression (nested : Nested) (layer : Layer) :
    Leads layer.leads (expression nested layer) := by
  cases layer with
  | logical => exact (leads_arithmetic.andThen.mono (M := Layer.logical.leads) (by decide)).andThen
  | comparison => exact leads_arithmetic.andThen.mono (by decide)
  | arithmetic => exact leads_arithmetic
  | concat => exact leads_concat
  | call => exact leads_call
  | reference => exact leads_reference
  | primitive => exact leads_primitive

end Grammar

end Klartext
