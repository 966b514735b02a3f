import Klartext.Proofs.Tree.Lines

set_option autoImplicit false

/-! # Printed trees determine programs

The lines of a node and what follows them are read from the front: the first line tells the kind of
the node, the kind tells the fields, and a list goes on as long as a node as far in as its first one
comes next. At depths below zero the indentation of what is close to the surface is cut off. From a
depth of -3 on, nodes still stand further in than the nodes two levels above them, and that is
enough; below that they need not, and different programs are printed alike. -/

namespace Klartext

namespace Node

/-! ## Reading lines from the front -/

/-- All numbers in the tree are among the given ones. -/
def NumbersIn (N : Float → Prop) (n : Node) : Prop :=
  ∀ x, Within (.literal (.number x)) n → N x

theorem NumbersIn.child {N : Float → Prop} {n child : Node} (h : n.NumbersIn N)
    (hchild : child ∈ n.children) : child.NumbersIn N :=
  fun x hx => h x (.under hchild hx)

/-- From its lines at a depth with more behind them the node is told among those of which `P` holds,
    and what is behind is told from the lines, if `F` says that it may follow. -/
def ReadAt (P : Node → Prop) (F : List String → Prop) (depth : Int) (n : Node) : Prop :=
  ∀ {n' : Node} {more more' : List String}, P n' → F more → F more' →
    n.lines depth ++ more = n'.lines depth ++ more' → n = n' ∧ more = more'

theorem head?_listLines {ns : List Node} (hform : ∀ n ∈ ns, n.IsForm) (depth : Int)
    (more : List String) :
    ns = [] ∨ ∃ line others, listLines depth ns ++ more = line :: others ∧ HeadAt depth line := by
  cases ns with
  | nil => exact .inl rfl
  | cons n ns =>
      have hn : n.IsForm := hform n List.mem_cons_self
      obtain ⟨fields, hlines⟩ := exists_lines hn depth
      refine .inr ⟨_, fields ++ (listLines depth ns ++ more), ?_, headAt_headline hn depth⟩
      rw [listLines, List.flatMap_cons, hlines, List.append_assoc]
      rfl

/-- A list is told from its lines if its nodes are and if what is behind does not go on with one. -/
theorem read_list {P : Node → Prop} {F : List String → Prop} {depth : Int} {ns ns' : List Node}
    {more more' : List String} (hread : ∀ n ∈ ns, n.ReadAt P F (depth + 2))
    (hform : ∀ n ∈ ns, n.IsForm) (hP : ∀ n ∈ ns', P n) (hform' : ∀ n ∈ ns', n.IsForm)
    (hnext : ∀ {line} others, HeadAt (depth + 2) line → F (line :: others))
    (hmore : F more) (hmore' : F more') (hstop : Stops depth more) (hstop' : Stops depth more')
    (h : listLines (depth + 2) ns ++ more = listLines (depth + 2) ns' ++ more') :
    ns = ns' ∧ more = more' := by
  -- behind an item the list goes on with the next one, or with what is behind the list
  have hends {ns : List Node} {more : List String} (hform : ∀ n ∈ ns, n.IsForm) (hmore : F more) :
      F (listLines (depth + 2) ns ++ more) := by
    rcases head?_listLines hform (depth + 2) more with rfl | ⟨line, others, heq, hhead⟩
    · exact hmore
    · exact heq ▸ hnext others hhead
  have hmissing {ns : List Node} {more more' : List String} (hform : ∀ n ∈ ns, n.IsForm)
      (hstop : Stops depth more') (h : listLines (depth + 2) ns ++ more = more') : ns = [] := by
    rcases head?_listLines hform (depth + 2) more with hnil | ⟨line, others, heq, hhead⟩
    · exact hnil
    · exact absurd hhead (hstop line (by rw [← h, heq]; rfl) _ (Int.le_refl _))
  induction ns generalizing ns' with
  | nil =>
      obtain rfl := hmissing hform' hstop h.symm
      exact ⟨rfl, h⟩
  | cons n ns ih =>
      cases ns' with
      | nil => exact absurd (hmissing hform hstop' h) (List.cons_ne_nil n ns)
      | cons n' ns' =>
          rw [List.forall_mem_cons] at hread hform hP hform'
          simp only [listLines, List.flatMap_cons, List.append_assoc] at h
          obtain ⟨rfl, hothers⟩ := hread.1 hP.1 (hends hform.2 hmore) (hends hform'.2 hmore') h
          obtain ⟨rfl, hrest⟩ := ih hread.2 hform.2 hP.2 hform'.2 hothers
          exact ⟨rfl, hrest⟩

/-! ## Expressions -/

variable {N N' : Float → Prop}

theorem leaf_line_injective {v v' : Value} (hkind : v.kind = v'.kind)
    (hnumber : ∀ x y, v = .number x → v' = .number y → technicalText x = technicalText y → x = y)
    (h : v.leaf.line = v'.leaf.line) : v = v' := by
  have hinside (kind : String) {text text' : String} (h : kind ++ text ++ ")" = kind ++ text' ++ ")") :
      text = text' := (String.append_right_inj kind).1 ((String.append_left_inj ")").1 h)
  cases v with
  | number x =>
      cases v' with
      | number y => rw [hnumber x y rfl rfl (hinside "Number(" h)]
      | _ => simp [Value.kind] at hkind
  | boolean b =>
      cases v' with
      | boolean b' => cases b <;> cases b' <;> first | rfl | exact absurd h (by decide)
      | _ => simp [Value.kind] at hkind
  | string s =>
      cases v' with
      | string s' => rw [quoted_injective (hinside "String(" h)]
      | _ => simp [Value.kind] at hkind
  | null =>
      cases v' with
      | null => rfl
      | _ => simp [Value.kind] at hkind

theorem symbol_injective {op op' : Operator} (h : op.symbol = op'.symbol) : op = op' := by
  rw [← Option.some.injEq, ← Operator.ofSymbol?_symbol op, h, Operator.ofSymbol?_symbol op']

/-- An expression with some of the given numbers in it. -/
structure IsExpressionOf (N : Float → Prop) (n : Node) : Prop where
  isExpression : n.IsExpression .logical
  numbers : n.NumbersIn N

theorem read_call {name : String} {arguments : List Node} (hform : ∀ a ∈ arguments, a.IsForm)
    {depth : Int} (hdepth : -1 ≤ depth)
    (hread : ∀ a ∈ arguments, a.ReadAt (IsExpressionOf N') (Stops (depth + 2)) (depth + 2)) :
    (call name arguments).ReadAt (IsExpressionOf N') (Stops depth) depth := by
  intro n' more more' h' hmore hmore' heq
  have hkind := kind_eq (by trivial) h'.isExpression.isForm heq
  cases h'.isExpression with
  | literal _ v' => cases v' <;> simp [kind, Value.kind] at hkind
  | call _ _ harguments' =>
      simp only [lines_call, List.cons_append, List.cons.injEq, String.append_right_inj,
        true_and] at heq
      obtain ⟨hname, hlist⟩ := heq
      obtain ⟨rfl, hrest⟩ := read_list hread hform
        (fun a ha => ⟨harguments' a ha, h'.numbers.child ha⟩) (fun a ha => (harguments' a ha).isForm)
        (fun others hhead => hhead.stops (by omega) others)
        (hmore.deeper (by omega)) (hmore'.deeper (by omega)) hmore hmore' hlist
      rw [quoted_injective hname]
      exact ⟨rfl, hrest⟩
  | reference | operation => simp [kind] at hkind

/-- The label of the right operand stands between the operands and ends the left one. -/
theorem read_operation {op : Operator} {left right : Node} (hleft : left.IsForm)
    (hright : right.IsForm) {depth : Int}
    (hreadLeft : left.ReadAt (IsExpressionOf N') (Stops (depth + 2)) (depth + 2))
    (hreadRight : right.ReadAt (IsExpressionOf N') (Stops (depth + 2)) (depth + 2)) :
    (operation op left right).ReadAt (IsExpressionOf N') (Stops depth) depth := by
  intro n' more more' h' hmore hmore' heq
  have hkind := kind_eq (by trivial) h'.isExpression.isForm heq
  cases h'.isExpression with
  | literal _ v' => cases v' <;> simp [kind, Value.kind] at hkind
  | operation _ hleft' hright' =>
      simp only [lines_operation _ _ hleft hright,
        lines_operation _ _ hleft'.isForm hright'.isForm, List.cons_append, List.append_assoc,
        List.cons.injEq, String.append_right_inj, true_and] at heq
      obtain ⟨hop, hoperands⟩ := heq
      obtain ⟨rfl, hbehind⟩ := hreadLeft
        ⟨hleft'.looser (Nat.zero_le _), h'.numbers.child (by simp [children])⟩
        (stops_label (by decide) _ _ _) (stops_label (by decide) _ _ _) hoperands
      obtain ⟨rfl, hrest⟩ := hreadRight
        ⟨hright'.looser (Nat.zero_le _), h'.numbers.child (by simp [children])⟩
        (hmore.deeper (by omega)) (hmore'.deeper (by omega)) (List.cons.inj hbehind).2
      rw [symbol_injective (quoted_injective hop)]
      exact ⟨rfl, hrest⟩
  | reference | call => simp [kind] at hkind

theorem IsExpression.readAt
    (hN : ∀ x y, N x → N' y → technicalText x = technicalText y → x = y)
    {layer : Layer} {n : Node} (h : n.IsExpression layer) (hnumbers : n.NumbersIn N) {depth : Int}
    (hdepth : -1 ≤ depth) : n.ReadAt (IsExpressionOf N') (Stops depth) depth := by
  induction h generalizing depth with
  | literal layer v =>
      intro n' more more' h' _ _ heq
      have hkind := kind_eq (by trivial) h'.isExpression.isForm heq
      cases h'.isExpression with
      | literal _ v' =>
          simp only [lines_literal, List.cons_append, List.nil_append, List.cons.injEq,
            String.append_right_inj] at heq
          refine ⟨congrArg _ (leaf_line_injective hkind (fun x y hx hy => hN x y ?_ ?_) heq.1), heq.2⟩
          · exact hnumbers x (hx ▸ .self _)
          · exact h'.numbers y (hy ▸ .self _)
      | reference | call | operation => cases v <;> simp [kind, Value.kind] at hkind
  | reference _ hname =>
      intro n' more more' h' _ _ heq
      have hkind := kind_eq (by trivial) h'.isExpression.isForm heq
      cases h'.isExpression with
      | literal _ v' => cases v' <;> simp [kind, Value.kind] at hkind
      | reference =>
          simp only [lines_reference, List.cons_append, List.nil_append, List.cons.injEq,
            String.append_right_inj, true_and] at heq
          rw [quoted_injective heq.1]
          exact ⟨rfl, heq.2⟩
      | call | operation => simp [kind] at hkind
  | call _ hname harguments ih =>
      exact read_call (fun a ha => (harguments a ha).isForm) hdepth
        fun a ha => ih a ha (hnumbers.child ha) (by omega)
  | operation _ hleft hright ihleft ihright =>
      exact read_operation hleft.isForm hright.isForm
        (ihleft (hnumbers.child (by simp [children])) (by omega))
        (ihright (hnumbers.child (by simp [children])) (by omega))

/-! ## Parameters -/

/-- The line above the body of a function. -/
def bodyLabel (depth : Int) : String := fieldIndentation depth ++ "body" ++ ":"

/-- Parameters are told from their lines, up to the label behind them. Only at depth -1 do they stand
    as far in as the label, and then what is behind must not look like parameters with another such
    label. -/
theorem read_parameters {depth : Int} (hdepth : -3 ≤ depth) {ps ps' : List String}
    {rest rest' : List String} (hps : ∀ p ∈ ps, IsKey p) (hps' : ∀ p ∈ ps', IsKey p)
    (hrest : depth = -1 → ∀ qs more, (∀ q ∈ qs, lead q = 2) → rest ≠ qs ++ bodyLabel depth :: more)
    (hrest' : depth = -1 → ∀ qs more, (∀ q ∈ qs, lead q = 2) →
      rest' ≠ qs ++ bodyLabel depth :: more)
    (h : ps.map (indentation (depth + 2) ++ ·) ++ bodyLabel depth :: rest =
      ps'.map (indentation (depth + 2) ++ ·) ++ bodyLabel depth :: rest') :
    ps = ps' ∧ rest = rest' := by
  have hlead {p : String} (hp : IsKey p) :
      lead (indentation (depth + 2) ++ p) = 2 * (depth + 2).toNat := by
    rw [lead_indentation, hp.lead_eq, Nat.add_zero]
  have hlabel : lead (bodyLabel depth) = 2 * depth.toNat + 2 :=
    lead_label (by decide) (by decide) depth ":"
  -- a parameter that is taken for the label
  have hmissing {p : String} {ps : List String} {rest rest' : List String}
      (hps : ∀ q ∈ p :: ps, IsKey q)
      (hrest : depth = -1 → ∀ qs more, (∀ q ∈ qs, lead q = 2) →
        rest ≠ qs ++ bodyLabel depth :: more)
      (h : bodyLabel depth :: rest =
        (p :: ps).map (indentation (depth + 2) ++ ·) ++ bodyLabel depth :: rest') : False := by
    rw [List.map_cons, List.cons_append, List.cons.injEq] at h
    have hsame := hlabel.symm.trans ((congrArg lead h.1).trans (hlead (hps p List.mem_cons_self)))
    obtain rfl : depth = -1 := by omega
    refine hrest rfl _ rest' (fun q hq => ?_) h.2
    obtain ⟨p', hp', rfl⟩ := List.mem_map.1 hq
    exact hlead (hps p' (List.mem_cons_of_mem p hp'))
  induction ps generalizing ps' with
  | nil =>
      cases ps' with
      | nil => exact ⟨rfl, (List.cons.inj h).2⟩
      | cons p' ps' => exact (hmissing hps' hrest h).elim
  | cons p ps ih =>
      cases ps' with
      | nil => exact (hmissing hps hrest' h.symm).elim
      | cons p' ps' =>
          rw [List.forall_mem_cons] at hps hps'
          rw [List.map_cons, List.map_cons, List.cons_append, List.cons_append, List.cons.injEq,
            String.append_right_inj] at h
          obtain ⟨rfl, hbehind⟩ := ih hps.2 hps'.2 h.2
          exact ⟨by rw [h.1], hbehind⟩

/-- A statement has a field, whose line stands further in than the first one. -/
theorem IsStatement.exists_field {n : Node} (h : n.IsStatement) (depth : Int) :
    ∃ first field others, n.lines depth = first :: field :: others ∧ HeadAt depth first ∧
      lead field = 2 * depth.toNat + 2 := by
  have hhead := headAt_headline h.isForm depth
  cases h with
  | evaluation h =>
      exact ⟨_, _, _, lines_evaluation depth h.isForm, hhead, lead_label (by decide) (by decide) _ _⟩
  | definition _ h =>
      exact ⟨_, _, _, lines_definition depth _ h.isForm, hhead,
        (congrArg lead String.append_assoc).trans (lead_label (by decide) (by decide) _ _)⟩
  | function =>
      exact ⟨_, _, _, lines_function depth _ _ _, hhead,
        (congrArg lead String.append_assoc).trans (lead_label (by decide) (by decide) _ _)⟩
  | giveBack h =>
      exact ⟨_, _, _, lines_giveBack depth h.isForm, hhead, lead_label (by decide) (by decide) _ _⟩
  | print => exact ⟨_, _, _, lines_print depth _, hhead, lead_label (by decide) (by decide) _ _⟩
  | conditional =>
      exact ⟨_, _, _, lines_conditional depth _ _ _, hhead,
        lead_label (by decide) (by decide) _ _⟩

/-- The lines of statements do not look like parameters with the label of a body behind them. -/
theorem statements_ne_parameters {body : List Node} (h : ∀ s ∈ body, s.IsStatement)
    {more : List String} (hmore : Ends (-1) more) {qs others : List String}
    (hqs : ∀ q ∈ qs, lead q = 2) : listLines 1 body ++ more ≠ qs ++ bodyLabel (-1) :: others := by
  intro heq
  have hlabel : lead (bodyLabel (-1)) = 2 := by decide
  have hfront : ∀ line ∈ (qs ++ bodyLabel (-1) :: others).head?, lead line = 2 := by
    cases qs with
    | nil =>
        rintro _ ⟨⟩
        exact hlabel
    | cons q qs =>
        rintro _ ⟨⟩
        exact hqs q List.mem_cons_self
  cases body with
  | nil =>
      -- what is behind the function is not indented
      cases more with
      | nil => simp [listLines] at heq
      | cons line more =>
          have hflush := hmore.flush (by decide) line rfl
          have hindented := hfront line (by rw [← heq]; rfl)
          omega
  | cons s body =>
      -- the second line of a statement stands further in
      obtain ⟨first, field, fields, hlines, hhead, hfield⟩ :=
        (h s List.mem_cons_self).exists_field 1
      rw [listLines, List.flatMap_cons, hlines] at heq
      match qs, hqs, heq with
      | [], _, heq =>
          have hcapital := hhead.capital
          rw [(List.cons.inj heq).1] at hcapital
          exact absurd hcapital (by decide)
      | [q], _, heq =>
          rw [(List.cons.inj (List.cons.inj heq).2).1, hlabel] at hfield
          exact absurd hfield (by decide)
      | q :: q' :: qs, hqs, heq =>
          rw [(List.cons.inj (List.cons.inj heq).2).1, hqs q' (by simp)] at hfield
          exact absurd hfield (by decide)

/-! ## Statements -/

/-- A statement with some of the given numbers in it. -/
structure IsStatementOf (N : Float → Prop) (n : Node) : Prop where
  isStatement : n.IsStatement
  numbers : n.NumbersIn N

/-- A branch with some of the given numbers in it. -/
inductive IsBranchOf (N : Float → Prop) : Node → Prop where
  | mk {condition : Node} {body : List Node} (hcondition : condition.IsExpressionOf N)
      (hbody : ∀ s ∈ body, s.IsStatementOf N) : IsBranchOf N (.branch ⟨condition, body⟩)

theorem IsBranchOf.isForm {n : Node} (h : n.IsBranchOf N) : n.IsForm := by
  cases h
  trivial

theorem read_statements {depth : Int} (hdepth : -3 ≤ depth) {ns ns' : List Node}
    {more more' : List String}
    (hread : ∀ n ∈ ns, n.ReadAt (IsStatementOf N') (Ends (depth + 2)) (depth + 2))
    (hns : ∀ n ∈ ns, n.IsStatement) (hns' : ∀ n ∈ ns', n.IsStatementOf N')
    (hstop : Stops depth more) (hstop' : Stops depth more')
    (hends : Ends (depth + 2) more) (hends' : Ends (depth + 2) more')
    (h : listLines (depth + 2) ns ++ more = listLines (depth + 2) ns' ++ more') :
    ns = ns' ∧ more = more' :=
  read_list hread (fun n hn => (hns n hn).isForm) hns' (fun n hn => (hns' n hn).isStatement.isForm)
    (fun others hhead => hhead.ends (by omega) others) hends hends' hstop hstop' h

theorem read_branch
    (hN : ∀ x y, N x → N' y → technicalText x = technicalText y → x = y)
    {condition : Node} {body : List Node} (hcondition : condition.IsExpressionOf N)
    (hbody : ∀ s ∈ body, s.IsStatement) {depth : Int} (hdepth : -1 ≤ depth)
    (hread : ∀ s ∈ body, s.ReadAt (IsStatementOf N') (Ends (depth + 2)) (depth + 2)) :
    (branch ⟨condition, body⟩).ReadAt (IsBranchOf N') (Stops depth) depth := by
  rintro _ more more' ⟨hcondition', hbody'⟩ hmore hmore' heq
  have hends {more : List String} (hmore : Stops depth more) : Ends (depth + 2) more :=
    ⟨hmore.deeper (by omega), fun hneg => by omega⟩
  simp only [lines_branch _ hcondition.isExpression.isForm,
    lines_branch _ hcondition'.isExpression.isForm, List.cons_append, List.append_assoc,
    List.cons.injEq, true_and] at heq
  obtain ⟨rfl, hbehind⟩ := hcondition.isExpression.readAt hN hcondition.numbers (by omega)
    hcondition' (stops_label (by decide) _ _ _) (stops_label (by decide) _ _ _) heq
  obtain ⟨rfl, hrest⟩ := read_statements (by omega) hread hbody hbody' hmore hmore'
    (hends hmore) (hends hmore') (List.cons.inj hbehind).2
  exact ⟨rfl, hrest⟩

/-- The one expression in a statement, on its last lines. -/
theorem read_value
    (hN : ∀ x y, N x → N' y → technicalText x = technicalText y → x = y)
    {value value' : Node} (h : value.IsExpressionOf N) (h' : value'.IsExpressionOf N')
    {depth : Int} (hdepth : -3 ≤ depth) {more more' : List String} (hmore : Ends depth more)
    (hmore' : Ends depth more')
    (heq : value.lines (depth + 2) ++ more = value'.lines (depth + 2) ++ more') :
    value = value' ∧ more = more' :=
  h.isExpression.readAt hN h.numbers (by omega) h' (hmore.stops.deeper (by omega))
    (hmore'.stops.deeper (by omega)) heq

section Values

variable (hN : ∀ x y, N x → N' y → technicalText x = technicalText y → x = y) {value : Node}
  (h : value.IsExpressionOf N) {depth : Int} (hdepth : -3 ≤ depth)
include hN h hdepth

theorem read_evaluation : (evaluation value).ReadAt (IsStatementOf N') (Ends depth) depth := by
  intro n' more more' h' hmore hmore' heq
  have hkind := kind_eq (by trivial) h'.isStatement.isForm heq
  cases h'.isStatement with
  | evaluation hvalue =>
      simp only [lines_evaluation _ h.isExpression.isForm, lines_evaluation _ hvalue.isForm,
        List.cons_append, List.cons.injEq, true_and] at heq
      obtain ⟨rfl, hrest⟩ := read_value hN h ⟨hvalue, h'.numbers.child (by simp [children])⟩ hdepth
        hmore hmore' heq
      exact ⟨rfl, hrest⟩
  | _ => simp [kind] at hkind

theorem read_definition (name : String) :
    (definition name value).ReadAt (IsStatementOf N') (Ends depth) depth := by
  intro n' more more' h' hmore hmore' heq
  have hkind := kind_eq (by trivial) h'.isStatement.isForm heq
  cases h'.isStatement with
  | definition _ hvalue =>
      simp only [lines_definition _ _ h.isExpression.isForm, lines_definition _ _ hvalue.isForm,
        List.cons_append, List.cons.injEq, String.append_right_inj, true_and] at heq
      obtain ⟨rfl, hrest⟩ := read_value hN h ⟨hvalue, h'.numbers.child (by simp [children])⟩ hdepth
        hmore hmore' heq.2
      rw [quoted_injective heq.1]
      exact ⟨rfl, hrest⟩
  | _ => simp [kind] at hkind

theorem read_giveBack : (giveBack value).ReadAt (IsStatementOf N') (Ends depth) depth := by
  intro n' more more' h' hmore hmore' heq
  have hkind := kind_eq (by trivial) h'.isStatement.isForm heq
  cases h'.isStatement with
  | giveBack hvalue =>
      simp only [lines_giveBack _ h.isExpression.isForm, lines_giveBack _ hvalue.isForm,
        List.cons_append, List.cons.injEq, true_and] at heq
      obtain ⟨rfl, hrest⟩ := read_value hN h ⟨hvalue, h'.numbers.child (by simp [children])⟩ hdepth
        hmore hmore' heq
      exact ⟨rfl, hrest⟩
  | _ => simp [kind] at hkind

end Values

theorem stops_otherwise (depth depth' : Int) (otherwise : Option (List Node))
    (more : List String) : Stops depth (otherwiseLines depth' otherwise ++ more) := by
  cases otherwise with
  | none =>
      refine stops_of_not_capital ?_ depth _
      rw [String.append_assoc, String.append_assoc, isCapital_fieldIndentation]
      decide
  | some body => exact stops_label (by decide) depth depth' _

/-- The last field of a conditional, which may be missing. -/
theorem read_otherwise {depth : Int} (hdepth : -3 ≤ depth) {otherwise otherwise' : Option (List Node)}
    {more more' : List String}
    (hread : ∀ body ∈ otherwise, ∀ s ∈ body,
      s.ReadAt (IsStatementOf N') (Ends (depth + 2)) (depth + 2))
    (hbody : ∀ body ∈ otherwise, ∀ s ∈ body, s.IsStatement)
    (hbody' : ∀ body ∈ otherwise', ∀ s ∈ body, s.IsStatementOf N')
    (hmore : Ends depth more) (hmore' : Ends depth more')
    (h : otherwiseLines depth otherwise ++ more = otherwiseLines depth otherwise' ++ more') :
    otherwise = otherwise' ∧ more = more' := by
  have hlabel : fieldIndentation depth ++ "else_" ++ ": " ++ "None" ≠
      fieldIndentation depth ++ "else_" ++ ":" := by
    rw [String.append_assoc, Ne, String.append_right_inj]
    decide
  cases otherwise with
  | none =>
      cases otherwise' with
      | none => exact ⟨rfl, (List.cons.inj h).2⟩
      | some body' => exact absurd (List.cons.inj h).1 hlabel
  | some body =>
      cases otherwise' with
      | none => exact absurd (List.cons.inj h).1.symm hlabel
      | some body' =>
          obtain ⟨rfl, hrest⟩ := read_statements hdepth (hread body rfl) (hbody body rfl)
            (hbody' body' rfl) hmore.stops hmore'.stops (hmore.deeper (by omega))
            (hmore'.deeper (by omega)) (List.cons.inj h).2
          exact ⟨rfl, hrest⟩

theorem mem_children_of_mem {first b : Branch Node} {others : List (Branch Node)}
    {otherwise : Option (List Node)} (hb : b ∈ first :: others) {n : Node}
    (hn : n ∈ b.condition :: b.body) : n ∈ (conditional first others otherwise).children :=
  List.mem_append_left _ (List.mem_flatMap.2 ⟨b, hb, hn⟩)

theorem mem_children_of_otherwise (first : Branch Node) (others : List (Branch Node))
    {otherwise : Option (List Node)} {body : List Node} (hbody : body ∈ otherwise) {n : Node}
    (hn : n ∈ body) : n ∈ (conditional first others otherwise).children := by
  cases hbody
  exact List.mem_append_right _ hn

theorem read_print {values : List Node} (hform : ∀ v ∈ values, v.IsForm) {depth : Int}
    (hdepth : -3 ≤ depth)
    (hread : ∀ v ∈ values, v.ReadAt (IsExpressionOf N') (Stops (depth + 2)) (depth + 2)) :
    (print values).ReadAt (IsStatementOf N') (Ends depth) depth := by
  intro n' more more' h' hmore hmore' heq
  have hkind := kind_eq (by trivial) h'.isStatement.isForm heq
  cases h'.isStatement with
  | print hvalues =>
      simp only [lines_print, List.cons_append, List.cons.injEq, true_and] at heq
      obtain ⟨rfl, hrest⟩ := read_list hread hform
        (fun v hv => ⟨hvalues v hv, h'.numbers.child hv⟩) (fun v hv => (hvalues v hv).isForm)
        (fun others hhead => hhead.stops (by omega) others)
        (hmore.stops.deeper (by omega)) (hmore'.stops.deeper (by omega)) hmore.stops
        hmore'.stops heq
      exact ⟨rfl, hrest⟩
  | _ => simp [kind] at hkind

theorem read_function {name : String} {parameters : List String} {body : List Node}
    (hparameters : ∀ p ∈ parameters, IsKey p) (hbody : ∀ s ∈ body, s.IsStatement) {depth : Int}
    (hdepth : -3 ≤ depth)
    (hread : ∀ s ∈ body, s.ReadAt (IsStatementOf N') (Ends (depth + 2)) (depth + 2)) :
    (function name parameters body).ReadAt (IsStatementOf N') (Ends depth) depth := by
  intro n' more more' h' hmore hmore' heq
  have hkind := kind_eq (by trivial) h'.isStatement.isForm heq
  cases h'.isStatement with
  | function _ hparameters' hbody' =>
      simp only [lines_function, List.cons_append, List.append_assoc, List.cons.injEq,
        String.append_right_inj, true_and] at heq
      -- at a depth of -1 parameters and labels are indented alike, so that it is to be excluded that
      -- the parameters of the one function go on in the body of the other
      have hunlike {body : List Node} (hbody : ∀ s ∈ body, s.IsStatement)
          {more : List String} (hmore : Ends depth more) (hneg : depth = -1)
          (qs others : List String) (hqs : ∀ q ∈ qs, lead q = 2) :
          listLines (depth + 2) body ++ more ≠ qs ++ bodyLabel depth :: others := by
        subst hneg
        exact statements_ne_parameters hbody hmore hqs
      obtain ⟨rfl, hbehind⟩ := read_parameters hdepth hparameters hparameters'
        (hunlike hbody hmore) (hunlike hbody' hmore') heq.2
      obtain ⟨rfl, hrest⟩ := read_statements hdepth hread hbody
        (fun s hs => ⟨hbody' s hs, h'.numbers.child hs⟩) hmore.stops hmore'.stops
        (hmore.deeper (by omega)) (hmore'.deeper (by omega)) hbehind
      rw [quoted_injective heq.1]
      exact ⟨rfl, hrest⟩
  | _ => simp [kind] at hkind

theorem read_conditional {first : Branch Node} {others : List (Branch Node)}
    {otherwise : Option (List Node)} (hotherwise : ∀ body ∈ otherwise, ∀ s ∈ body, s.IsStatement)
    {depth : Int} (hdepth : -3 ≤ depth)
    (hbranch : ∀ b ∈ first :: others,
      (branch b).ReadAt (IsBranchOf N') (Stops (depth + 2)) (depth + 2))
    (hread : ∀ body ∈ otherwise, ∀ s ∈ body,
      s.ReadAt (IsStatementOf N') (Ends (depth + 2)) (depth + 2)) :
    (conditional first others otherwise).ReadAt (IsStatementOf N') (Ends depth) depth := by
  intro n' more more' h' hmore hmore' heq
  have hkind := kind_eq (by trivial) h'.isStatement.isForm heq
  cases h'.isStatement with
  | @conditional first' others' otherwise' hconditions' hbodies' hotherwise' =>
      simp only [lines_conditional, List.cons_append, List.append_assoc, List.cons.injEq,
        true_and] at heq
      have hbranch' (b : Branch Node) (hb : b ∈ first' :: others') :
          (branch b).IsBranchOf N' :=
        ⟨⟨hconditions' b hb, h'.numbers.child (mem_children_of_mem hb (by simp))⟩,
          fun s hs => ⟨hbodies' b hb s hs,
            h'.numbers.child (mem_children_of_mem hb (List.mem_cons_of_mem _ hs))⟩⟩
      obtain ⟨hfirst, hbehind⟩ := hbranch first List.mem_cons_self
        (hbranch' first' List.mem_cons_self) (stops_label (by decide) _ _ _)
        (stops_label (by decide) _ _ _) heq
      obtain ⟨hothers, hlast⟩ := read_list (P := IsBranchOf N')
        (List.forall_mem_map.2 fun b hb => hbranch b (List.mem_cons_of_mem _ hb))
        (List.forall_mem_map.2 fun b _ => by trivial)
        (List.forall_mem_map.2 fun b hb => hbranch' b (List.mem_cons_of_mem _ hb))
        (List.forall_mem_map.2 fun b _ => by trivial)
        (fun others hhead => hhead.stops (by omega) others)
        (stops_otherwise _ _ _ _) (stops_otherwise _ _ _ _) (stops_otherwise _ _ _ _)
        (stops_otherwise _ _ _ _) (List.cons.inj hbehind).2
      obtain ⟨rfl, hrest⟩ := read_otherwise hdepth hread hotherwise
        (fun body hbody s hs => ⟨hotherwise' body hbody s hs,
          h'.numbers.child (mem_children_of_otherwise _ _ hbody hs)⟩) hmore hmore' hlast
      rw [branch.inj hfirst, (List.map_inj_right fun _ _ => branch.inj).1 hothers]
      exact ⟨rfl, hrest⟩
  | _ => simp [kind] at hkind

theorem IsStatement.readAt
    (hN : ∀ x y, N x → N' y → technicalText x = technicalText y → x = y)
    {n : Node} (h : n.IsStatement) (hnumbers : n.NumbersIn N) {depth : Int}
    (hdepth : -3 ≤ depth) : n.ReadAt (IsStatementOf N') (Ends depth) depth := by
  induction h generalizing depth with
  | evaluation h => exact read_evaluation hN ⟨h, hnumbers.child (by simp [children])⟩ hdepth
  | definition _ h => exact read_definition hN ⟨h, hnumbers.child (by simp [children])⟩ hdepth _
  | giveBack h => exact read_giveBack hN ⟨h, hnumbers.child (by simp [children])⟩ hdepth
  | print h =>
      exact read_print (fun v hv => (h v hv).isForm) hdepth
        fun v hv => (h v hv).readAt hN (hnumbers.child hv) (by omega)
  | function _ hparameters hbody ih =>
      exact read_function hparameters hbody hdepth
        fun s hs => ih s hs (hnumbers.child hs) (by omega)
  | @conditional first others otherwise hconditions hbodies hotherwise ihbodies ihotherwise =>
      intro n' more more' h' hmore hmore' heq
      have hbranch (b : Branch Node) (hb : b ∈ first :: others) :
          (branch b).ReadAt (IsBranchOf N') (Stops (depth + 2)) (depth + 2) :=
        read_branch hN ⟨hconditions b hb, hnumbers.child (mem_children_of_mem hb (by simp))⟩
          (hbodies b hb) (by omega) fun s hs => ihbodies b hb s hs
            (hnumbers.child (mem_children_of_mem hb (List.mem_cons_of_mem _ hs))) (by omega)
      have hread (body : List Node) (hbody : body ∈ otherwise) (s : Node) (hs : s ∈ body) :
          s.ReadAt (IsStatementOf N') (Ends (depth + 2)) (depth + 2) :=
        ihotherwise body hbody s hs
          (hnumbers.child (mem_children_of_otherwise first others hbody hs)) (by omega)
      exact read_conditional hotherwise hdepth hbranch hread h' hmore hmore' heq

end Node

end Klartext
