import Klartext.Proofs.Rules.Statement

set_option autoImplicit false

/-! # Trees that are read

What a syntax tree must look like for the grammar to have a text for it: names are in normal form,
every node stands where it belongs, and operands are of the layers that their operator asks for. So
the left operand of an operator between operands always binds more tightly than the operator. -/

namespace Klartext

open Reader Rules

/-- A name as tables keep it: in normal form and not empty. -/
structure IsKey (name : String) : Prop where
  normal : normalizeName name = name
  ne_empty : name ≠ ""

theorem Rules.Names.isKey {raw : Text} {name : String} (h : Names raw name) : IsKey name := by
  obtain ⟨-, hne, rfl⟩ := h
  refine ⟨?_, fun hempty => hne ?_⟩
  · rw [normalizeName, String.toList_ofList, Text.normalize_normalize]
  · rw [← String.toList_ofList (l := Text.normalize raw), hempty]
    rfl

namespace Node

/-! ## Expressions -/

/-- The expressions of a layer. -/
inductive IsExpression : Layer → Node → Prop where
  | literal (layer : Layer) (v : Value) : IsExpression layer (.literal v)
  | reference {layer : Layer} {name : String}
      (hlayer : layer.tightness ≤ Layer.reference.tightness) (hname : IsKey name) :
      IsExpression layer (.reference name)
  | call {layer : Layer} {name : String} {arguments : List Node}
      (hlayer : layer.tightness ≤ Layer.call.tightness) (hname : IsKey name)
      (harguments : ∀ a ∈ arguments, IsExpression .logical a) :
      IsExpression layer (.call name arguments)
  | operation {layer : Layer} {op : Operator} {left right : Node}
      (hlayer : layer.tightness ≤ op.family.layer.tightness)
      (hleft : IsExpression op.family.leftLayer left)
      (hright : IsExpression op.family.layer right) :
      IsExpression layer (.operation op left right)

theorem IsExpression.looser {layer tighter : Layer} {node : Node}
    (h : IsExpression tighter node) (hle : layer.tightness ≤ tighter.tightness) :
    IsExpression layer node := by
  cases h with
  | literal layer v => exact .literal _ v
  | reference hlayer hname => exact .reference (Nat.le_trans hle hlayer) hname
  | call hlayer hname harguments => exact .call (Nat.le_trans hle hlayer) hname harguments
  | operation hlayer hleft hright => exact .operation (Nat.le_trans hle hlayer) hleft hright

end Node

/-- What is derived for a layer is an expression of the layer. -/
theorem Rules.Derives.isExpression {layer : Layer} {node : Node} {t : Text}
    (h : Derives layer node t) : node.IsExpression layer := by
  induction h with
  | number | string | boolean | null => exact .literal _ _
  | reference hname => exact .reference (Nat.le_refl _) hname.isKey
  | call hgap hname => exact .call (Nat.le_refl _) hname.isKey nofun
  | callWith hgap hname hlist hitems ih =>
      refine .call (Nat.le_refl _) hname.isKey fun a ha => ?_
      obtain ⟨item, hitem, rfl⟩ := List.mem_map.1 ha
      exact ih item hitem
  | spoken _ _ _ _ _ _ _ hleft hright => exact .operation (Nat.le_refl _) hleft hright
  | between _ _ _ _ _ _ hleft hright => exact .operation (Nat.le_refl _) hleft hright
  | looser hlayer _ ih => exact ih.looser hlayer

namespace Node

/-! ## Statements -/

/-- The statements. -/
inductive IsStatement : Node → Prop where
  | evaluation {value : Node} (h : value.IsExpression .logical) : IsStatement (.evaluation value)
  | definition {name : String} {value : Node} (hname : IsKey name)
      (h : value.IsExpression .logical) : IsStatement (.definition name value)
  | function {name : String} {parameters : List String} {body : List Node} (hname : IsKey name)
      (hparameters : ∀ p ∈ parameters, IsKey p) (hbody : ∀ s ∈ body, IsStatement s) :
      IsStatement (.function name parameters body)
  | giveBack {value : Node} (h : value.IsExpression .logical) : IsStatement (.giveBack value)
  | print {values : List Node} (h : ∀ v ∈ values, v.IsExpression .logical) :
      IsStatement (.print values)
  | conditional {first : Branch Node} {others : List (Branch Node)} {otherwise : Option (List Node)}
      (hconditions : ∀ b ∈ first :: others, b.condition.IsExpression .logical)
      (hbodies : ∀ b ∈ first :: others, ∀ s ∈ b.body, IsStatement s)
      (hotherwise : ∀ body ∈ otherwise, ∀ s ∈ body, IsStatement s) :
      IsStatement (.conditional first others otherwise)

end Node

/-- The nodes in a part of a statement stand where they belong. -/
def Rules.Part.IsProper : Part → Prop
  | .form node | .statement node => node.IsStatement
  | .block _ nodes => ∀ s ∈ nodes, s.IsStatement
  | .guarded branch =>
    branch.condition.IsExpression .logical ∧ ∀ s ∈ branch.body, s.IsStatement
  | .branches all => ∀ branch ∈ all,
    branch.condition.IsExpression .logical ∧ ∀ s ∈ branch.body, s.IsStatement
  | .otherwise nodes => ∀ body ∈ nodes, ∀ s ∈ body, s.IsStatement

theorem Rules.Signature.isKey {name : String} {parameters : List String} {t : Text}
    (h : Signature name parameters t) : IsKey name ∧ ∀ p ∈ parameters, IsKey p := by
  cases h with
  | bare hname => exact ⟨hname.isKey, nofun⟩
  | parameters hname hlist hitems =>
      refine ⟨hname.isKey, fun p hp => ?_⟩
      obtain ⟨item, hitem, rfl⟩ := List.mem_map.1 hp
      exact (hitems item hitem).names.isKey

theorem Rules.Sentence.isProper {part : Part} {t : Text} (h : Sentence part t) :
    part.IsProper := by
  induction h with
  | evaluation h => exact .evaluation h.isExpression
  | definition _ _ hname _ h => exact .definition hname.isKey h.isExpression
  | function _ _ hhead _ ih => exact .function hhead.isKey.1 hhead.isKey.2 ih
  | giveBack _ h _ => exact .giveBack h.isExpression
  | print _ _ hitems =>
      refine .print fun v hv => ?_
      obtain ⟨item, hitem, rfl⟩ := List.mem_map.1 hv
      exact (hitems item hitem).isExpression
  | @conditional _ _ _ _ first others _ _ _ _ _ hfirst hothers hotherwise =>
      -- the first branch is a branch like the others
      have hbranches : (Part.branches (first :: others)).IsProper :=
        List.forall_mem_cons.2 ⟨hfirst, hothers⟩
      exact .conditional (fun b hb => (hbranches b hb).1) (fun b hb => (hbranches b hb).2)
        hotherwise
  | closed _ _ ih => exact ih
  | done => exact nofun
  | next _ _ _ hstatement hrest => exact List.forall_mem_cons.2 ⟨hstatement, hrest⟩
  | guarded hclause _ ih =>
      obtain ⟨-, hcondition, -, -⟩ := hclause
      exact ⟨hcondition.isExpression, ih⟩
  | noBranch => exact nofun
  | branch _ _ _ _ hfirst hothers => exact List.forall_mem_cons.2 ⟨hfirst, hothers⟩
  | noOtherwise => exact nofun
  | otherwise _ _ ih =>
      intro body hbody
      cases hbody
      exact ih

namespace Node

/-! ## Nodes within nodes -/

/-- The nodes right below a node. -/
def children : Node → List Node
  | .literal _ | .reference _ | .bare _ | .integer _ => []
  | .operation _ left right => [left, right]
  | .call _ arguments => arguments
  | .evaluation value | .definition _ value | .giveBack value => [value]
  | .function _ _ body => body
  | .print values => values
  | .branch b => b.condition :: b.body
  | .conditional first others otherwise =>
    ((first :: others).flatMap fun b => b.condition :: b.body) ++ otherwise.getD []
  | .list items => items
  | .labelled _ node => [node]

/-- A node is the other one or stands somewhere below it. -/
inductive Within : Node → Node → Prop where
  | self (node : Node) : Within node node
  | under {inner child node : Node} (hchild : child ∈ node.children) (h : Within inner child) :
      Within inner node

/-- An expression or a statement. -/
def IsProper (node : Node) : Prop := node.IsExpression .logical ∨ node.IsStatement

theorem IsProper.child {node child : Node} (h : node.IsProper) (hchild : child ∈ node.children) :
    child.IsProper := by
  rcases h with h | h
  · refine .inl ?_
    cases h with
    | literal | reference => cases hchild
    | call _ _ harguments => exact harguments child hchild
    | operation _ hleft hright =>
        simp only [children, List.mem_cons, List.not_mem_nil, or_false] at hchild
        rcases hchild with rfl | rfl
        · exact hleft.looser (Nat.zero_le _)
        · exact hright.looser (Nat.zero_le _)
  · cases h with
    | evaluation h => exact .inl (List.mem_singleton.1 hchild ▸ h)
    | definition _ h => exact .inl (List.mem_singleton.1 hchild ▸ h)
    | giveBack h => exact .inl (List.mem_singleton.1 hchild ▸ h)
    | function _ _ hbody => exact .inr (hbody child hchild)
    | print h => exact .inl (h child hchild)
    | @conditional first others otherwise hconditions hbodies hotherwise =>
        rcases List.mem_append.1 hchild with hbranch | hlast
        · obtain ⟨b, hb, hmem⟩ := List.mem_flatMap.1 hbranch
          rcases List.mem_cons.1 hmem with rfl | hbody
          · exact .inl (hconditions b hb)
          · exact .inr (hbodies b hb child hbody)
        · cases otherwise with
          | none => cases hlast
          | some body => exact .inr (hotherwise body rfl child hlast)

theorem IsProper.within {inner node : Node} (h : node.IsProper) (hinner : Within inner node) :
    inner.IsProper := by
  induction hinner with
  | self => exact h
  | under hchild _ ih => exact ih (h.child hchild)

/-- Wherever in the tree an operator stands between its operands, a left operand that is an
    operation again is one of a layer that binds more tightly. -/
def LeftTighter (node : Node) : Prop :=
  ∀ {op op' : Operator} {l r right : Node},
    Within (.operation op (.operation op' l r) right) node → op.family.isSpoken = false →
      op.family.layer.tightness < op'.family.layer.tightness

theorem IsProper.leftTighter {node : Node} (h : node.IsProper) : node.LeftTighter := by
  intro op op' l r right hwithin hop
  rcases h.within hwithin with h | h
  · cases h with
    | operation _ hleft _ =>
        cases hleft with
        | operation hlayer _ _ =>
            refine Nat.lt_of_lt_of_le ?_ hlayer
            revert hop
            cases op.family <;> decide
  · cases h

end Node

namespace Grammar

/-! ## What is found -/

/-- Every node of a program that is found is a statement. -/
theorem isStatement_of_program {limit : Nat} {t rest : Text} {nodes : List Node}
    (h : program limit t = .found nodes rest) : ∀ s ∈ nodes, s.IsStatement := by
  have hstatement : Reads (fun node _ => node.IsStatement) (within limit).statement :=
    (reads_within limit).statement.mono fun _ _ ⟨_, _, _, _, hsentence⟩ => hsentence.isProper
  have hmany : Reads (fun ss _ => ∀ s ∈ ss, Node.IsStatement s) (program limit) :=
    hstatement.many (List.forall_mem_nil _) fun hs hss => List.forall_mem_cons.2 ⟨hs, hss⟩
  obtain ⟨_, _, hnodes⟩ := hmany.found h
  exact hnodes

/-- What is read at the front of a text is all of the text up to the rest, and the rules derive it
    as the node that was found: an expression of the layer, or a statement behind the whitespace
    before it. -/
theorem derivation_of_found (limit : Nat) {t rest : Text} {node : Node} :
    (∀ layer, (within limit).expression layer t = .found node rest →
      ∃ used, t = used ++ rest ∧ Derives layer node used ∧ node.LeftTighter) ∧
    ((within limit).statement t = .found node rest →
      ∃ used, t.dropWhile isBlank = used ++ rest ∧ Sentence (.statement node) used ∧
        node.LeftTighter) := by
  refine ⟨fun layer hfound => ?_, fun hfound => ?_⟩
  · obtain ⟨used, ht, hused⟩ := ((reads_within limit).expression layer).found hfound
    have hproper : node.IsProper := .inl (hused.isExpression.looser (Nat.zero_le _))
    exact ⟨used, ht, hused, hproper.leftTighter⟩
  · cases limit with
    | zero => cases hfound
    | succ limit =>
        have hforms := reads_closedForms (reads_within limit)
        obtain ⟨used, ht, hused⟩ := hforms.found (t := t.dropWhile isBlank) hfound
        exact ⟨used, ht, hused, Node.IsProper.leftTighter (.inr hused.isProper)⟩

/-- An expression up to the exclamation mark behind it, and the statement that it is with it. -/
theorem derivation_of_disjunction :
    let node : Node :=
      .operation .either (.literal (.boolean true)) (.literal (.boolean false))
    (∃ used, "wahr oder  falsch !".toList = used ++ " !".toList ∧
      Derives .logical node used ∧ node.LeftTighter) ∧
    ∃ used, " wahr oder  falsch !".toList.dropWhile isBlank = used ++ [] ∧
      Sentence (.statement (.evaluation node)) used ∧ (Node.evaluation node).LeftTighter :=
  ⟨(derivation_of_found 2).1 .logical rfl, (derivation_of_found 3).2 rfl⟩

end Grammar

end Klartext
