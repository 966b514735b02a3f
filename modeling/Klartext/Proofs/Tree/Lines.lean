import Klartext.Proofs.Rules.Tree
import Klartext.Proofs.Tree.Atom

set_option autoImplicit false

/-! # The lines of a printed tree

The line of a node begins with a capital letter, the line of a field two steps further in with a
small one. Where the lines of a node end shows by what can follow them: a field of a node further
out, or a node that is not as far in as the last nodes of a list would be. -/

namespace Klartext

/-! ## Lines as text -/

theorem toList_linesText (lines : List String) :
    (linesText lines).toList = lines.flatMap fun line => line.toList ++ ['\n'] := by
  simp [linesText, String.toList_join, List.flatMap_map]

/-- Up to its first line feed a text is determined, and so is what is behind it. -/
theorem Text.line_inj {a a' t t' : Text} (ha : '\n' ∉ a) (ha' : '\n' ∉ a')
    (h : a ++ '\n' :: t = a' ++ '\n' :: t') : a = a' ∧ t = t' := by
  have hbefore {b b' u u' : Text} (hb' : '\n' ∉ b') (heq : b ++ '\n' :: u = b' ++ '\n' :: u') :
      b' <+: b := by
    rcases List.append_eq_append_iff.1 heq with ⟨l, rfl, hl⟩ | ⟨l, rfl, -⟩
    · cases l with
      | nil => simp
      | cons c l =>
          obtain ⟨rfl, -⟩ := List.cons.inj hl
          exact absurd (List.mem_append_right b List.mem_cons_self) hb'
    · exact List.prefix_append b' l
  obtain rfl := (hbefore ha h.symm).eq_of_length_le (hbefore ha' h).length_le
  exact ⟨rfl, (List.cons.inj (List.append_cancel_left h)).2⟩

/-- Lines can be told apart in a text if none of them is broken itself. -/
theorem linesText_injective {lines lines' : List String} (h : ∀ line ∈ lines, '\n' ∉ line.toList)
    (h' : ∀ line ∈ lines', '\n' ∉ line.toList) (htext : linesText lines = linesText lines') :
    lines = lines' := by
  replace htext := congrArg String.toList htext
  rw [toList_linesText, toList_linesText] at htext
  induction lines generalizing lines' with
  | nil =>
      cases lines' with
      | nil => rfl
      | cons line' lines' => simp at htext
  | cons line lines ih =>
      cases lines' with
      | nil => simp at htext
      | cons line' lines' =>
          rw [List.forall_mem_cons] at h h'
          simp only [List.flatMap_cons, List.append_assoc, List.singleton_append] at htext
          obtain ⟨hline, hrest⟩ := Text.line_inj h.1 h'.1 htext
          rw [String.toList_inj.1 hline, ih h.2 h'.2 hrest]

/-! ## How a line begins -/

/-- The number of spaces at the beginning of a line. -/
def lead (line : String) : Nat := (line.toList.takeWhile (· == ' ')).length

/-- The first character of a line that is no space is a capital letter. -/
def isCapital (line : String) : Bool :=
  (line.toList.dropWhile (· == ' ')).head?.any Char.isUpper

theorem lead_spaces (count : Nat) (line : String) :
    lead (String.ofList (List.replicate count ' ') ++ line) = count + lead line := by
  have hspaces : ∀ c ∈ List.replicate count ' ', (c == ' ') = true := by simp
  rw [lead, String.toList_append, String.toList_ofList, List.takeWhile_append_of_pos hspaces,
    List.length_append, List.length_replicate]
  rfl

theorem isCapital_spaces (count : Nat) (line : String) :
    isCapital (String.ofList (List.replicate count ' ') ++ line) = isCapital line := by
  have hspaces : ∀ c ∈ List.replicate count ' ', (c == ' ') = true := by simp
  rw [isCapital, String.toList_append, String.toList_ofList,
    List.dropWhile_append_of_pos hspaces]
  rfl

@[simp] theorem lead_indentation (depth : Int) (line : String) :
    lead (indentation depth ++ line) = 2 * depth.toNat + lead line :=
  lead_spaces _ line

@[simp] theorem isCapital_indentation (depth : Int) (line : String) :
    isCapital (indentation depth ++ line) = isCapital line :=
  isCapital_spaces _ line

@[simp] theorem lead_fieldIndentation (depth : Int) (line : String) :
    lead (fieldIndentation depth ++ line) = 2 * depth.toNat + 2 + lead line := by
  rw [fieldIndentation, String.append_assoc, lead_indentation, Nat.add_assoc]
  exact congrArg _ (lead_spaces 2 line)

@[simp] theorem isCapital_fieldIndentation (depth : Int) (line : String) :
    isCapital (fieldIndentation depth ++ line) = isCapital line := by
  rw [fieldIndentation, String.append_assoc, isCapital_indentation]
  exact isCapital_spaces 2 line

theorem lead_append {s : String} (h : (s.toList.all (· == ' ')) = false) (t : String) :
    lead (s ++ t) = lead s := by
  rw [lead, String.toList_append, List.takeWhile_append, if_neg]
  · rfl
  · intro hlength
    have hwhole := (List.takeWhile_prefix (l := s.toList) (· == ' ')).eq_of_length hlength
    rw [← hwhole, List.all_takeWhile] at h
    cases h

theorem lead_eq_zero {line : String} {t : Text} (h : Text.Flush (line.toList ++ t)) :
    lead line = 0 := by
  rw [lead]
  cases htext : line.toList with
  | nil => rfl
  | cons c u =>
      rw [htext] at h
      have hne : (c == ' ') = false := by
        rw [beq_eq_false_iff_ne]
        rintro rfl
        exact absurd (h ' ' rfl) (by decide)
      rw [List.takeWhile_cons_of_neg (by simp [hne])]
      rfl

theorem IsKey.normalize_toList {name : String} (h : IsKey name) :
    Text.normalize name.toList = name.toList := by
  have hnormal := congrArg String.toList h.normal
  rwa [normalizeName, String.toList_ofList] at hnormal

theorem IsKey.lead_eq {name : String} (h : IsKey name) : lead name = 0 :=
  lead_eq_zero (Text.flush_of_normal h.normalize_toList
    (fun hnil => h.ne_empty (String.toList_inj.1 hnil)) [])

/-! ## Lines of nodes -/

/-- The line could be the first one of a node at a depth. -/
structure HeadAt (depth : Int) (line : String) : Prop where
  lead_eq : lead line = 2 * depth.toNat
  capital : isCapital line = true

/-- What may follow a node at a depth: if it begins with another node, then with one not as far in
    as what is in a list below the first one. -/
def Stops (depth : Int) (lines : List String) : Prop :=
  ∀ line ∈ lines.head?, ∀ deeper, depth + 2 ≤ deeper → ¬ HeadAt deeper line

/-- What may follow a statement: as `Stops` says, and if the depth is negative, then nothing that is
    indented. -/
structure Ends (depth : Int) (lines : List String) : Prop where
  stops : Stops depth lines
  flush : depth < 0 → ∀ line ∈ lines.head?, lead line = 0

theorem Stops.deeper {depth deeper : Int} {lines : List String} (h : Stops depth lines)
    (hle : depth ≤ deeper) : Stops deeper lines :=
  fun line hline further hfurther => h line hline further (by omega)

theorem Ends.deeper {depth deeper : Int} {lines : List String} (h : Ends depth lines)
    (hle : depth ≤ deeper) : Ends deeper lines :=
  ⟨h.stops.deeper hle, fun hneg => h.flush (by omega)⟩

theorem stops_of_not_capital {line : String} (h : isCapital line = false) (depth : Int)
    (lines : List String) : Stops depth (line :: lines) := by
  rintro _ ⟨⟩ deeper - hhead
  rw [hhead.capital] at h
  cases h

/-- The next node of a list is not as far in as the nodes below the one before it. -/
theorem HeadAt.stops {depth : Int} (hdepth : -1 ≤ depth) {line : String} (h : HeadAt depth line)
    (lines : List String) : Stops depth (line :: lines) := by
  rintro _ ⟨⟩ deeper hdeeper hhead
  have hlead := h.lead_eq.symm.trans hhead.lead_eq
  omega

theorem HeadAt.ends {depth : Int} (hdepth : -1 ≤ depth) {line : String} (h : HeadAt depth line)
    (lines : List String) : Ends depth (line :: lines) := by
  refine ⟨h.stops hdepth lines, ?_⟩
  rintro hneg _ ⟨⟩
  rw [h.lead_eq]
  omega

theorem ends_nil (depth : Int) : Ends depth [] := ⟨nofun, nofun⟩

theorem stops_label {name : String} (h : isCapital (name ++ ":") = false) (depth depth' : Int)
    (more : List String) : Stops depth ((fieldIndentation depth' ++ name ++ ":") :: more) := by
  refine stops_of_not_capital ?_ depth more
  rw [String.append_assoc, isCapital_fieldIndentation]
  exact h

theorem lead_label {name : String} (h : (name.toList.all (· == ' ')) = false)
    (hlead : lead name = 0) (depth : Int) (more : String) :
    lead (fieldIndentation depth ++ name ++ more) = 2 * depth.toNat + 2 := by
  rw [String.append_assoc, lead_fieldIndentation, lead_append h, hlead]

namespace Node

/-- A node of its own kind, not a value or a list that stands in the place of one. -/
def IsForm : Node → Prop
  | .bare _ | .integer _ | .list _ | .labelled _ _ => False
  | _ => True

theorem IsExpression.isForm {layer : Layer} {n : Node} (h : n.IsExpression layer) : n.IsForm := by
  cases h <;> exact trivial

theorem IsStatement.isForm {n : Node} (h : n.IsStatement) : n.IsForm := by
  cases h <;> exact trivial

/-- The lines of a node at a depth. -/
def lines (n : Node) (depth : Int) : List String := n.outline.lines depth

/-- The lines of the nodes of a list at a depth. -/
def listLines (depth : Int) (ns : List Node) : List String := ns.flatMap fun n => n.lines depth

theorem itemLines_outlines (depth : Int) (ns : List Node) :
    itemLines depth (outlines ns) = listLines depth ns := by
  rw [outlines_eq_map, itemLines_eq_flatMap, List.flatMap_map]
  rfl

theorem outlines_branches (branches : List (Branch Node)) :
    branchOutlines branches = outlines (branches.map .branch) := by
  rw [branchOutlines_eq_map, outlines_eq_map, List.map_map]
  exact List.map_congr_left fun b _ => (outline_branch b).symm

/-- The lines of a field are a label and the lines of the node in it. -/
theorem fieldLines_form {n : Node} (h : n.IsForm) (depth : Int) (name : String)
    (fields : List (String × Outline)) :
    fieldLines depth ((name, n.outline) :: fields) =
      (fieldIndentation depth ++ name ++ ":") ::
        (n.lines (depth + 2) ++ fieldLines depth fields) := by
  cases n with
  | bare | integer | list | labelled => exact h.elim
  | literal v => cases v <;> simp [outline, Value.leaf, fieldLines, lines]
  | branch b =>
      obtain ⟨condition, body⟩ := b
      simp [outline, branchOutline, fieldLines, lines]
  | _ => simp [outline, fieldLines, lines]

/-! ## The lines of each node -/

section Lines

variable (depth : Int)

theorem lines_reference (name : String) : (reference name).lines depth =
    [indentation depth ++ "VariableReference",
      fieldIndentation depth ++ "identifier" ++ ": " ++ quoted name] := by
  simp [lines, outline]

theorem lines_operation (op : Operator) {l r : Node} (hl : l.IsForm) (hr : r.IsForm) :
    (operation op l r).lines depth =
      (indentation depth ++ "Operation") ::
      (fieldIndentation depth ++ "op" ++ ": " ++ quoted op.symbol) ::
      (fieldIndentation depth ++ "lhs" ++ ":") :: (l.lines (depth + 2) ++
      (fieldIndentation depth ++ "rhs" ++ ":") :: r.lines (depth + 2)) := by
  simp [lines, outline, fieldLines_form hl, fieldLines_form hr]

theorem lines_call (name : String) (arguments : List Node) : (call name arguments).lines depth =
    (indentation depth ++ "FunctionCall") ::
    (fieldIndentation depth ++ "identifier" ++ ": " ++ quoted name) ::
    (fieldIndentation depth ++ "arguments" ++ ":") :: listLines (depth + 2) arguments := by
  simp [lines, outline, itemLines_outlines]

theorem lines_evaluation {value : Node} (h : value.IsForm) : (evaluation value).lines depth =
    (indentation depth ++ "ExpressionStatement") ::
    (fieldIndentation depth ++ "value" ++ ":") :: value.lines (depth + 2) := by
  simp [lines, outline, fieldLines_form h]

theorem lines_definition (name : String) {value : Node} (h : value.IsForm) :
    (definition name value).lines depth =
      (indentation depth ++ "VariableDefinition") ::
      (fieldIndentation depth ++ "identifier" ++ ": " ++ quoted name) ::
      (fieldIndentation depth ++ "value" ++ ":") :: value.lines (depth + 2) := by
  simp [lines, outline, fieldLines_form h]

theorem lines_giveBack {value : Node} (h : value.IsForm) : (giveBack value).lines depth =
    (indentation depth ++ "Return") ::
    (fieldIndentation depth ++ "value" ++ ":") :: value.lines (depth + 2) := by
  simp [lines, outline, fieldLines_form h]

theorem lines_print (values : List Node) : (print values).lines depth =
    (indentation depth ++ "Print") ::
    (fieldIndentation depth ++ "values" ++ ":") :: listLines (depth + 2) values := by
  simp [lines, outline, itemLines_outlines]

theorem lines_function (name : String) (parameters : List String) (body : List Node) :
    (function name parameters body).lines depth =
      (indentation depth ++ "FunctionDefinition") ::
      (fieldIndentation depth ++ "identifier" ++ ": " ++ quoted name) ::
      (fieldIndentation depth ++ "parameters" ++ ":") ::
        (parameters.map (indentation (depth + 2) ++ ·) ++
      (fieldIndentation depth ++ "body" ++ ":") :: listLines (depth + 2) body) := by
  have hparameters : itemLines (depth + 2) (parameters.map fun p => .datum p (quoted p)) =
      parameters.map (indentation (depth + 2) ++ ·) := by
    rw [itemLines_eq_flatMap, List.flatMap_map, List.map_eq_flatMap]
    simp only [Outline.lines]
  simp [lines, outline, itemLines_outlines, hparameters]

theorem lines_branch {condition : Node} (h : condition.IsForm) (body : List Node) :
    (branch ⟨condition, body⟩).lines depth =
      (indentation depth ++ "Conditional") ::
      (fieldIndentation depth ++ "condition" ++ ":") :: (condition.lines (depth + 2) ++
      (fieldIndentation depth ++ "body" ++ ":") :: listLines (depth + 2) body) := by
  simp [lines, outline, branchOutline, fieldLines_form h, itemLines_outlines]

/-- The lines of the last field of a conditional. -/
def otherwiseLines (depth : Int) : Option (List Node) → List String
  | none => [fieldIndentation depth ++ "else_" ++ ": " ++ "None"]
  | some body => (fieldIndentation depth ++ "else_" ++ ":") :: listLines (depth + 2) body

theorem lines_conditional (first : Branch Node) (others : List (Branch Node))
    (otherwise : Option (List Node)) : (conditional first others otherwise).lines depth =
      (indentation depth ++ "Condition") ::
      (fieldIndentation depth ++ "if_" ++ ":") :: ((branch first).lines (depth + 2) ++
      (fieldIndentation depth ++ "else_ifs" ++ ":") ::
        (listLines (depth + 2) (others.map .branch) ++ otherwiseLines depth otherwise)) := by
  have hform : (branch first).IsForm := trivial
  rw [lines, outline, Outline.lines_form, ← outline_branch, fieldLines_form hform,
    fieldLines_items, outlines_branches, itemLines_outlines]
  cases otherwise with
  | none => simp [otherwiseOutline, otherwiseLines]
  | some body => simp [otherwiseOutline, otherwiseLines, itemLines_outlines]

end Lines

/-! ## First lines -/

/-- The kinds of nodes that are forms. -/
def formKinds : List String :=
  ["Number", "Boolean", "String", "Null", "Operation", "VariableReference", "FunctionCall",
    "ExpressionStatement", "VariableDefinition", "FunctionDefinition", "Return", "Print",
    "Conditional", "Condition"]

theorem kind_mem_formKinds {n : Node} (h : n.IsForm) : n.kind ∈ formKinds := by
  cases n with
  | bare | integer | list | labelled => exact h.elim
  | literal v => cases v <;> simp [kind, Value.kind, formKinds]
  | _ => simp [kind, formKinds]

/-- A kind is a capital letter and further letters. -/
theorem exists_kind {n : Node} (h : n.IsForm) :
    ∃ c cs, n.kind.toList = c :: cs ∧ c.isUpper = true ∧ c.isAlpha = true ∧
      ∀ d ∈ cs, d.isAlpha = true := by
  have hall : ∀ kind ∈ formKinds,
      kind.toList.head?.any Char.isUpper = true ∧ kind.toList.all Char.isAlpha = true := by decide
  obtain ⟨hupper, halpha⟩ := hall _ (kind_mem_formKinds h)
  cases hlist : n.kind.toList with
  | nil =>
      rw [hlist] at hupper
      cases hupper
  | cons c cs =>
      rw [hlist] at hupper halpha
      rw [List.all_cons, Bool.and_eq_true, List.all_eq_true] at halpha
      exact ⟨c, cs, rfl, hupper, halpha.1, halpha.2⟩

/-- The first line of a node without its indentation. -/
def headline : Node → String
  | .literal v => v.leaf.line
  | n => n.kind

/-- The first line of a node is its kind, and behind it may follow a bracket. -/
theorem exists_headline (n : Node) :
    ∃ more, n.headline.toList = n.kind.toList ++ more ∧ ∀ c ∈ more.head?, c = '(' := by
  have hkind {n : Node} (h : n.headline = n.kind) :
      ∃ more, n.headline.toList = n.kind.toList ++ more ∧ ∀ c ∈ more.head?, c = '(' :=
    ⟨[], by rw [h, List.append_nil], nofun⟩
  have hliteral (v : Value) (inside : String) (h : v.leaf.line = v.kind ++ ("(" ++ inside)) :
      ∃ more, (literal v).headline.toList = (literal v).kind.toList ++ more ∧
        ∀ c ∈ more.head?, c = '(' := by
    refine ⟨'(' :: inside.toList, ?_, ?_⟩
    · rw [headline, kind, h, String.toList_append, String.toList_append]
      rfl
    · rintro _ ⟨⟩
      rfl
  cases n with
  | literal v =>
      cases v with
      | number x => exact hliteral _ (technicalText x ++ ")") (by
          rw [← String.append_assoc, ← String.append_assoc]; rfl)
      | boolean b => exact hliteral _ (boolWord b ++ ")") (by
          rw [← String.append_assoc, ← String.append_assoc]; rfl)
      | string s => exact hliteral _ (quoted s ++ ")") (by
          rw [← String.append_assoc, ← String.append_assoc]; rfl)
      | null => exact hkind rfl
  | _ => exact hkind rfl

theorem lines_literal (v : Value) (depth : Int) :
    (literal v).lines depth = [indentation depth ++ v.leaf.line] := by
  cases v <;> simp [lines, outline, Value.leaf, Outline.lines, Outline.line]

theorem head?_lines {n : Node} (h : n.IsForm) (depth : Int) :
    (n.lines depth).head? = some (indentation depth ++ n.headline) := by
  cases n with
  | bare | integer | list | labelled => exact h.elim
  | literal v => rw [lines_literal, headline, List.head?_cons]
  | branch b =>
      obtain ⟨condition, body⟩ := b
      simp [lines, outline, branchOutline, headline, kind]
  | _ => simp [lines, outline, headline, kind]

theorem exists_lines {n : Node} (h : n.IsForm) (depth : Int) :
    ∃ fields, n.lines depth = (indentation depth ++ n.headline) :: fields :=
  List.head?_eq_some_iff.1 (head?_lines h depth)

theorem headAt_headline {n : Node} (h : n.IsForm) (depth : Int) :
    HeadAt depth (indentation depth ++ n.headline) := by
  obtain ⟨c, cs, hkind, hupper, halpha, -⟩ := exists_kind h
  obtain ⟨more, hheadline, -⟩ := exists_headline n
  rw [hkind] at hheadline
  have hspace : (c == ' ') = false := by
    rw [beq_eq_false_iff_ne]
    rintro rfl
    cases halpha
  refine ⟨?_, ?_⟩
  · rw [lead_indentation, lead, hheadline, List.cons_append,
      List.takeWhile_cons_of_neg (by simp [hspace])]
    rfl
  · rw [isCapital_indentation, isCapital, hheadline, List.cons_append,
      List.dropWhile_cons_of_neg (by simp [hspace])]
    exact hupper

/-- The letters at the beginning of the first line of a node are its kind. -/
theorem takeWhile_headline {n : Node} (h : n.IsForm) :
    n.headline.toList.takeWhile Char.isAlpha = n.kind.toList := by
  obtain ⟨c, cs, hkind, -, halpha, hletters⟩ := exists_kind h
  obtain ⟨more, hheadline, hmore⟩ := exists_headline n
  have hall : ∀ d ∈ n.kind.toList, d.isAlpha = true := by
    rw [hkind]
    exact List.forall_mem_cons.2 ⟨halpha, hletters⟩
  rw [hheadline, List.takeWhile_append_of_pos hall]
  cases more with
  | nil => exact List.append_nil _
  | cons d more =>
      rw [hmore d rfl]
      exact List.append_nil _

/-- Nodes with the same first line are of the same kind. -/
theorem kind_eq {n n' : Node} (h : n.IsForm) (h' : n'.IsForm) {depth : Int}
    {more more' : List String} (heq : n.lines depth ++ more = n'.lines depth ++ more') :
    n.kind = n'.kind := by
  obtain ⟨fields, hlines⟩ := exists_lines h depth
  obtain ⟨fields', hlines'⟩ := exists_lines h' depth
  rw [hlines, hlines', List.cons_append, List.cons_append, List.cons.injEq,
    String.append_right_inj] at heq
  rw [← String.toList_inj, ← takeWhile_headline h, ← takeWhile_headline h', heq.1]

end Node

end Klartext
