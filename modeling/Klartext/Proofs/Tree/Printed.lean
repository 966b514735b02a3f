import Klartext.Proofs.Tree.Readable
import Klartext.Source

set_option autoImplicit false

/-! # Printed programs

No line of a printed statement is broken by what is quoted in it or by a name, so the text of a
statement determines its lines, and from a depth of -3 on the lines determine the statement. -/

namespace Klartext

/-! ## Unbroken lines -/

/-- There is no line feed in the line. -/
def Unbroken (line : String) : Prop := '\n' ∉ line.toList

instance (line : String) : Decidable (Unbroken line) :=
  inferInstanceAs (Decidable ('\n' ∉ line.toList))

theorem Unbroken.append {s t : String} (hs : Unbroken s) (ht : Unbroken t) : Unbroken (s ++ t) := by
  rw [Unbroken, String.toList_append]
  exact List.not_mem_append hs ht

theorem unbroken_indentation (depth : Int) : Unbroken (indentation depth) := by
  rw [Unbroken, indentation, String.toList_ofList]
  exact fun h => absurd (List.eq_of_mem_replicate h) (by decide)

theorem unbroken_label {name : String} (h : Unbroken name) (depth : Int) :
    Unbroken (fieldIndentation depth ++ name ++ ":") :=
  (((unbroken_indentation depth).append (by decide)).append h).append (by decide)

theorem unbroken_datum {name text : String} (h : Unbroken name) (htext : Unbroken text)
    (depth : Int) : Unbroken (fieldIndentation depth ++ name ++ ": " ++ text) :=
  ((((unbroken_indentation depth).append (by decide)).append h).append (by decide)).append htext

theorem unbroken_quoted (s : String) : Unbroken (quoted s) := not_mem_quoted s

theorem IsKey.unbroken {name : String} (h : IsKey name) : Unbroken name := fun hmem =>
  absurd (Text.eq_space_of_normal h.normalize_toList hmem (by decide)) (by decide)

theorem Value.unbroken_line (v : Value) : Unbroken v.leaf.line := by
  have hbetween (kind : String) {text : String} (hkind : Unbroken kind) (htext : Unbroken text) :
      Unbroken (kind ++ text ++ ")") := (hkind.append htext).append (by decide)
  cases v with
  | number x => exact hbetween "Number(" (by decide) (not_mem_technicalText x)
  | boolean b => cases b <;> decide
  | string s => exact hbetween "String(" (by decide) (unbroken_quoted s)
  | null => decide

namespace Node

/-- All lines are unbroken. -/
def AllUnbroken (lines : List String) : Prop := ∀ line ∈ lines, Unbroken line

theorem allUnbroken_listLines {depth : Int} {ns : List Node}
    (h : ∀ n ∈ ns, AllUnbroken (n.lines depth)) : AllUnbroken (listLines depth ns) := by
  intro line hline
  obtain ⟨n, hn, hmem⟩ := List.mem_flatMap.1 hline
  exact h n hn line hmem

section Lines

variable {lines more : List String}

theorem AllUnbroken.append (h : AllUnbroken lines) (hmore : AllUnbroken more) :
    AllUnbroken (lines ++ more) :=
  List.forall_mem_append.2 ⟨h, hmore⟩

theorem unbroken_head {kind : String} (h : Unbroken kind) (depth : Int) :
    Unbroken (indentation depth ++ kind) :=
  (unbroken_indentation depth).append h

theorem AllUnbroken.behind_head (h : AllUnbroken more) (kind : String) (hkind : Unbroken kind)
    (depth : Int) : AllUnbroken ((indentation depth ++ kind) :: more) :=
  List.forall_mem_cons.2 ⟨unbroken_head hkind depth, h⟩

theorem AllUnbroken.behind_label (h : AllUnbroken more) (name : String) (hname : Unbroken name)
    (depth : Int) : AllUnbroken ((fieldIndentation depth ++ name ++ ":") :: more) :=
  List.forall_mem_cons.2 ⟨unbroken_label hname depth, h⟩

theorem AllUnbroken.behind_quoted (h : AllUnbroken more) (name : String) {s : String}
    (hname : Unbroken name) (depth : Int) :
    AllUnbroken ((fieldIndentation depth ++ name ++ ": " ++ quoted s) :: more) :=
  List.forall_mem_cons.2 ⟨unbroken_datum hname (unbroken_quoted s) depth, h⟩

end Lines

theorem IsExpression.allUnbroken {layer : Layer} {n : Node} (h : n.IsExpression layer)
    (depth : Int) : AllUnbroken (n.lines depth) := by
  induction h generalizing depth with
  | literal layer v =>
      rw [lines_literal]
      exact List.forall_mem_singleton.2 (unbroken_head v.unbroken_line depth)
  | reference _ _ =>
      rw [lines_reference]
      have hname : AllUnbroken [] := List.forall_mem_nil _
      exact (hname.behind_quoted "identifier" (by decide) depth).behind_head _ (by decide) depth
  | call _ _ _ ih =>
      rw [lines_call]
      have harguments := allUnbroken_listLines fun a ha => ih a ha (depth + 2)
      have hlist := harguments.behind_label "arguments" (by decide) depth
      exact (hlist.behind_quoted "identifier" (by decide) depth).behind_head _ (by decide) depth
  | operation _ hleft hright ihleft ihright =>
      rw [lines_operation _ _ hleft.isForm hright.isForm]
      have hright := (ihright (depth + 2)).behind_label "rhs" (by decide) depth
      have hleft := ((ihleft (depth + 2)).append hright).behind_label "lhs" (by decide) depth
      exact (hleft.behind_quoted "op" (by decide) depth).behind_head _ (by decide) depth

theorem allUnbroken_branch {condition : Node} {body : List Node} {layer : Layer}
    (hcondition : condition.IsExpression layer)
    {depth : Int} (hbody : ∀ s ∈ body, AllUnbroken (s.lines (depth + 2))) :
    AllUnbroken ((branch ⟨condition, body⟩).lines depth) := by
  rw [lines_branch _ hcondition.isForm]
  have hlist := (allUnbroken_listLines hbody).behind_label "body" (by decide) depth
  have hfields := (hcondition.allUnbroken (depth + 2)).append hlist
  exact (hfields.behind_label "condition" (by decide) depth).behind_head _ (by decide) depth

/-- The last field of a conditional says that there is no such branch, or lists its statements. -/
theorem allUnbroken_otherwise {otherwise : Option (List Node)} {depth : Int}
    (h : ∀ body ∈ otherwise, ∀ s ∈ body, AllUnbroken (s.lines (depth + 2))) :
    AllUnbroken (otherwiseLines depth otherwise) := by
  cases otherwise with
  | none => exact List.forall_mem_singleton.2 (unbroken_datum (by decide) (by decide) depth)
  | some body => exact (allUnbroken_listLines (h body rfl)).behind_label _ (by decide) depth

theorem IsStatement.allUnbroken {n : Node} (h : n.IsStatement) (depth : Int) :
    AllUnbroken (n.lines depth) := by
  induction h generalizing depth with
  | evaluation h =>
      rw [lines_evaluation _ h.isForm]
      have hvalue := (h.allUnbroken (depth + 2)).behind_label "value" (by decide) depth
      exact hvalue.behind_head _ (by decide) depth
  | definition _ h =>
      rw [lines_definition _ _ h.isForm]
      have hvalue := (h.allUnbroken (depth + 2)).behind_label "value" (by decide) depth
      exact (hvalue.behind_quoted "identifier" (by decide) depth).behind_head _ (by decide) depth
  | function _ hparameters _ ih =>
      rw [lines_function]
      have hnames : AllUnbroken (List.map (indentation (depth + 2) ++ ·) _) :=
        List.forall_mem_map.2 fun p hp => unbroken_head (hparameters p hp).unbroken (depth + 2)
      have hstatements := allUnbroken_listLines fun s hs => ih s hs (depth + 2)
      have hbody := hstatements.behind_label "body" (by decide) depth
      have hlists := (hnames.append hbody).behind_label "parameters" (by decide) depth
      exact (hlists.behind_quoted "identifier" (by decide) depth).behind_head _ (by decide) depth
  | giveBack h =>
      rw [lines_giveBack _ h.isForm]
      have hvalue := (h.allUnbroken (depth + 2)).behind_label "value" (by decide) depth
      exact hvalue.behind_head _ (by decide) depth
  | print h =>
      rw [lines_print]
      have hvalues := allUnbroken_listLines fun v hv => (h v hv).allUnbroken (depth + 2)
      exact (hvalues.behind_label "values" (by decide) depth).behind_head _ (by decide) depth
  | @conditional first others otherwise hconditions hbodies hotherwise ihbodies ihotherwise =>
      have hbranch (b : Branch Node) (hb : b ∈ first :: others) :
          AllUnbroken ((branch b).lines (depth + 2)) :=
        allUnbroken_branch (hconditions b hb) fun s hs => ihbodies b hb s hs _
      have hothers : AllUnbroken (listLines (depth + 2) (others.map .branch)) :=
        allUnbroken_listLines (List.forall_mem_map.2 fun b hb =>
          hbranch b (List.mem_cons_of_mem first hb))
      have hlast : AllUnbroken (otherwiseLines depth otherwise) :=
        allUnbroken_otherwise fun body hbody s hs => ihotherwise body hbody s hs _
      have hbehind := (hothers.append hlast).behind_label "else_ifs" (by decide) depth
      have hfields := (hbranch first List.mem_cons_self).append hbehind
      rw [lines_conditional]
      exact (hfields.behind_label "if_" (by decide) depth).behind_head _ (by decide) depth

/-! ## Texts of statements -/

/-- Statements with the same text are equal, if different numbers in them are written differently. -/
theorem pretty_injective {n n' : Node} (h : n.IsStatement) (h' : n'.IsStatement) {depth : Int}
    (hdepth : -3 ≤ depth)
    (hnumbers : ∀ x y, Within (.literal (.number x)) n → Within (.literal (.number y)) n' →
      technicalText x = technicalText y → x = y)
    (heq : n.pretty depth = n'.pretty depth) : n = n' := by
  have hlines : n.lines depth = n'.lines depth :=
    linesText_injective (h.allUnbroken depth) (h'.allUnbroken depth) heq
  have hread : n.ReadAt (IsStatementOf fun y => Within (.literal (.number y)) n') (Ends depth)
      depth := h.readAt hnumbers (fun _ => id) hdepth
  exact (hread ⟨h', fun _ => id⟩ (ends_nil depth) (ends_nil depth) (by rw [hlines])).1

/-! ## Depths at which programs are confused -/

theorem indentation_of_nonpos {depth : Int} (h : depth ≤ 0) : indentation depth = "" := by
  rw [indentation, Int.toNat_of_nonpos h]
  rfl

/-- Where not even what is in a list below a value is indented, an argument of a call is not told
    from a value behind the call. -/
theorem pretty_argument {depth : Int} (hdepth : depth ≤ -4) (name : String) (v : Value) :
    (print [call name [literal v]]).pretty depth =
      (print [call name [], literal v]).pretty depth := by
  have hlines : (print [call name [literal v]]).lines depth =
      (print [call name [], literal v]).lines depth := by
    simp [lines_print, listLines, lines_call, lines_literal,
      indentation_of_nonpos (show depth + 2 ≤ 0 by omega),
      indentation_of_nonpos (show depth + 2 + 2 ≤ 0 by omega)]
  exact congrArg linesText hlines

end Node

/-! ## Programs -/

/-- The program prints a call and null: null as an argument of the call, or behind the call. -/
def printsCall (argument : Bool) : Except SourceFault (List Node) → Bool
  | .ok [.print [.call name [.literal .null]]] => argument && name == "f"
  | .ok [.print [.call name [], .literal .null]] => !argument && name == "f"
  | _ => false

theorem eq_of_printsCall {argument : Bool} {r : Except SourceFault (List Node)}
    (h : printsCall argument r = true) :
    r = .ok [if argument then .print [.call "f" [.literal .null]]
      else .print [.call "f" [], .literal .null]] := by
  rw [printsCall.eq_def] at h
  split at h
  · rw [Bool.and_eq_true, beq_iff_eq] at h
    rw [h.1, h.2]
    rfl
  · rw [Bool.and_eq_true, beq_iff_eq, Bool.not_eq_true'] at h
    rw [h.1, h.2]
    rfl
  · cases h

/-- Statements that are read at the front of texts, whatever is left of these, are equal if they are
    printed alike at the same depth of -3 or more, as long as different numbers in them are written
    differently. -/
theorem statement_determined_by_pretty {limit limit' : Nat} {text text' rest rest' : Text}
    {program program' : List Node} (hread : Grammar.program limit text = .found program rest)
    (hread' : Grammar.program limit' text' = .found program' rest') {s s' : Node}
    (hs : s ∈ program) (hs' : s' ∈ program') {depth : Int} (hdepth : -3 ≤ depth)
    (hnumbers : ∀ x y, Node.Within (.literal (.number x)) s →
      Node.Within (.literal (.number y)) s' → technicalText x = technicalText y → x = y)
    (heq : s.pretty depth = s'.pretty depth) : s = s' :=
  Node.pretty_injective (Grammar.isStatement_of_program hread s hs)
    (Grammar.isStatement_of_program hread' s' hs') hdepth hnumbers heq

theorem not_within_printed_call (x : Float) :
    ¬ Node.Within (.literal (.number x)) (.print [.call "f" [], .literal .null]) := by
  intro h
  cases h with
  | under hchild h =>
      simp only [Node.children, List.mem_cons, List.not_mem_nil, or_false] at hchild
      rcases hchild with rfl | rfl <;> cases h with
      | under hchild _ => cases hchild

/-- Two spacings of a program, which are printed alike at the least depth. -/
theorem statement_determined_by_pretty_spaced :
    parseProgram Grammar.depthLimit "zeig führe f aus und nix an!".toList unnamed =
        .ok [.print [.call "f" [], .literal .null]] ∧
      parseProgram Grammar.depthLimit " zeig\tführe f aus  und\nnix an !".toList unnamed =
        .ok [.print [.call "f" [], .literal .null]] ∧
      Node.print [.call "f" [], .literal .null] = .print [.call "f" [], .literal .null] := by
  have hread : printsCall false (parseProgram Grammar.depthLimit
      "zeig führe f aus und nix an!".toList unnamed) = true := by decide +kernel
  have hread' : printsCall false (parseProgram Grammar.depthLimit
      " zeig\tführe f aus  und\nnix an !".toList unnamed) = true := by decide +kernel
  have hprogram := eq_of_printsCall hread
  have hprogram' := eq_of_printsCall hread'
  obtain ⟨rest, hfound, -⟩ := parseProgram_eq_ok.1 hprogram
  obtain ⟨rest', hfound', -⟩ := parseProgram_eq_ok.1 hprogram'
  exact ⟨hprogram, hprogram', statement_determined_by_pretty hfound hfound'
    List.mem_cons_self List.mem_cons_self (Int.le_refl (-3))
    (fun x _ hx _ _ => absurd hx (not_within_printed_call x)) rfl⟩

/-- At a depth of -4 a call with an argument is printed like a call without one and what is behind
    it. -/
theorem argument_confused_by_pretty :
    parseProgram Grammar.depthLimit "zeig führe f mit nix aus an!".toList unnamed =
        .ok [.print [.call "f" [.literal .null]]] ∧
      parseProgram Grammar.depthLimit "zeig führe f aus und nix an!".toList unnamed =
        .ok [.print [.call "f" [], .literal .null]] ∧
      (Node.print [.call "f" [.literal .null]]).pretty (-4) =
        (Node.print [.call "f" [], .literal .null]).pretty (-4) ∧
      Node.print [.call "f" [.literal .null]] ≠ .print [.call "f" [], .literal .null] := by
  have hargument : printsCall true (parseProgram Grammar.depthLimit
      "zeig führe f mit nix aus an!".toList unnamed) = true := by decide +kernel
  have hbehind : printsCall false (parseProgram Grammar.depthLimit
      "zeig führe f aus und nix an!".toList unnamed) = true := by decide +kernel
  exact ⟨eq_of_printsCall hargument, eq_of_printsCall hbehind,
    Node.pretty_argument (by decide) "f" .null, nofun⟩

end Klartext
