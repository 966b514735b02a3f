import Klartext.Proofs.Continued.Expression
import Klartext.Proofs.Depth.Grammar

set_option autoImplicit false

/-! # What a layer leaves of a text

A looser layer takes what a tighter one takes, and more if an operator follows: the forms of its own
begin with other words, so that none of them stands in the way. Between operands the layers take as
much as they can. The right operand of an operator is of the layer itself, and so what is left behind
an expression was left by the innermost right operand, where every operator was tried in vain. -/

namespace Klartext

open Reader Rules

/-! ## Texts as the rules space them -/

theorem Rules.Spelled.flush {w : Text} {ws : List Text} {u : Text} (h : Spelled (w :: ws) u)
    (hw : Text.IsWord w) (t : Text) : Text.Flush (u ++ t) := by
  obtain ⟨v, rfl⟩ := h.exists_word
  rw [List.append_assoc]
  exact hw.flush.append hw.ne_nil _

theorem Rules.Phrase.flush {s : String} {u : Text} (h : Phrase s u)
    (hs : Text.words s.toList ≠ []) (t : Text) : Text.Flush (u ++ t) := by
  obtain ⟨w, ws, hwords⟩ := List.exists_cons_of_ne_nil hs
  rw [Phrase, hwords] at h
  refine h.flush (Text.isWord_of_mem_words (t := s.toList) ?_) t
  rw [hwords]
  exact List.mem_cons_self

/-- No expression begins with whitespace. -/
theorem Rules.Derives.flush {layer : Layer} {node : Node} {u : Text} (h : Derives layer node u)
    (t : Text) : Text.Flush (u ++ t) := by
  induction h generalizing t with
  | number n =>
      obtain ⟨c, v, htext, hc⟩ := n.head
      rw [htext]
      exact Text.flush_cons (not_isBlank_of_isDigit hc)
  | string | reference | call | callWith | null => exact Text.flush_cons (by decide)
  | boolean b => cases b <;> exact Text.flush_cons (by decide)
  | @spoken op =>
      rename_i hphrase _ _ _ _ _ _ _
      rw [List.append_assoc]
      exact hphrase.flush (by cases op <;> decide) _
  | between =>
      rename_i ih _
      rw [List.append_assoc]
      exact ih _
  | looser _ _ ih => exact ih t

namespace Reader

theorem blanks1_gap {g t : Text} (hg : IsGap g) (ht : Text.Flush t) :
    blanks1 (g ++ t) = .found g t := by
  have hall : ∀ c ∈ g, isBlank c = true := List.all_eq_true.1 hg.blank
  have hne : g.isEmpty = false := by simpa using hg.ne_nil
  rw [blanks1, List.takeWhile_append_of_pos hall, List.dropWhile_append_of_pos hall,
    ht.takeWhile_eq, ht.dropWhile_eq, List.append_nil, hne]
  rfl

theorem inOrder_spelled {ws : List Text} (hws : ∀ w ∈ ws, Text.IsWord w) {u : Text}
    (h : Spelled ws u) (t : Text) : inOrder ws (u ++ t) = .found () t := by
  induction h with
  | nil => rfl
  | word w => exact (bind_found (literal_append w t)).trans rfl
  | @cons w v g u ws hgap hbehind ih =>
      have hbehind' : Text.Flush (u ++ t) := hbehind.flush (hws v (by simp)) t
      rw [List.append_assoc, List.append_assoc, inOrder, bind_found (literal_append w _),
        bind_found (blanks1_gap hgap hbehind')]
      · exact ih fun x hx => hws x (List.mem_cons_of_mem w hx)
      · exact List.cons_ne_nil v ws

/-- A phrase reads itself in any spacing. -/
theorem phrase_spelled {s : String} {u : Text} (h : Phrase s u) (t : Text) :
    phrase s (u ++ t) = .found () t :=
  inOrder_spelled (fun _ hw => Text.isWord_of_mem_words hw) h t

variable {α : Type} {readers : List (Reader α)} {t : Text}

/-- Where all alternatives together miss, each of them does. -/
theorem missed_of_firstOf (h : firstOf readers t = .missed) : ∀ r ∈ readers, r t = .missed := by
  induction readers with
  | nil => exact List.forall_mem_nil _
  | cons r others ih =>
      rw [firstOf, orElse_apply] at h
      split at h
      · rename_i hr
        exact List.forall_mem_cons.2 ⟨hr, ih h⟩
      · rename_i hr
        exact absurd h hr

end Reader

/-! ## Looser layers -/

/-- Reading broke off, or a value was found and not more was left than `rest`. -/
def Reading.LeavesWithin {α : Type} (rest : Text) (r : Reading α) : Prop :=
  (∃ failure, r = .broken failure) ∨ ∃ value rest', r = .found value rest' ∧ rest' <:+ rest

namespace Layer

/-- No layer has forms that begin like the expressions of a tighter layer. -/
theorem clash_ownWords {looser tighter : Layer} (h : looser.tightness < tighter.tightness) :
    clashAll looser.ownWords tighter.leads = true := by
  revert h
  cases looser <;> cases tighter <;> decide

theorem eq_of_tightness {layer layer' : Layer} (h : layer.tightness = layer'.tightness) :
    layer = layer' := by
  revert h
  cases layer <;> cases layer' <;> decide

/-- Below a layer that is not the tightest, one comes next. -/
theorem exists_next {layer tighter : Layer} (h : layer.tightness < tighter.tightness) :
    ∃ next : Layer, next.tightness = layer.tightness + 1 := by
  cases layer with
  | logical => exact ⟨.comparison, rfl⟩
  | comparison => exact ⟨.arithmetic, rfl⟩
  | arithmetic => exact ⟨.concat, rfl⟩
  | concat => exact ⟨.call, rfl⟩
  | call => exact ⟨.reference, rfl⟩
  | reference => exact ⟨.primitive, rfl⟩
  | primitive => cases tighter <;> simp [tightness] at h

end Layer

namespace Grammar

/-- A tail leaves what the right operand of its operator leaves, or it is empty and none of the
    operators is found where it stands. -/
theorem tail_eq_found {operators : List (String × Operator)} {right : Reader Node}
    {left node : Node} {t rest : Text} (h : tail operators right left t = .found node rest) :
    (rest = t ∧ ∀ o ∈ operators, operation right left o t = .missed) ∨
      ∃ u operand, u <:+ t ∧ right u = .found operand rest := by
  rw [tail_eq] at h
  rcases orElse_eq_found.1 h with hfound | ⟨hmissed, hnothing⟩
  · obtain ⟨earlier, reader, later, hsplit, -, hread⟩ := firstOf_eq_found.1 hfound
    obtain ⟨o, -, rfl⟩ := List.mem_map.1 (hsplit ▸ List.mem_append_right _ List.mem_cons_self)
    obtain ⟨_, t₁, hgap, hread⟩ := bind_eq_found.1 hread
    obtain ⟨_, t₂, hphrase, hread⟩ := bind_eq_found.1 hread
    obtain ⟨_, t₃, hgap', hread⟩ := bind_eq_found.1 hread
    obtain ⟨operand, t₄, hoperand, hread⟩ := bind_eq_found.1 hread
    cases hread
    have hsuffix : t₃ <:+ t := (reads_blanks1.suffix hgap').trans <|
      ((reads_phrase o.1).suffix hphrase).trans (reads_blanks1.suffix hgap)
    exact .inr ⟨t₃, operand, hsuffix, hoperand⟩
  · cases hnothing
    exact .inl ⟨rfl, fun o ho => missed_of_firstOf hmissed _ (List.mem_map_of_mem ho)⟩

theorem tail_ne_missed (operators : List (String × Operator)) (right : Reader Node) (left : Node)
    (t : Text) : tail operators right left t ≠ .missed := by
  intro h
  rw [tail_eq, orElse_apply] at h
  split at h
  · cases h
  · rename_i hne
    exact hne h

/-- Behind a left operand a tail is found always, if only an empty one. -/
theorem leavesWithin_tail {operators : List (String × Operator)} {right : Reader Node}
    (hright : ∀ {t node rest}, right t = .found node rest → rest <:+ t) (left : Node) (t : Text) :
    (tail operators right left t).LeavesWithin t := by
  cases htail : tail operators right left t with
  | missed => exact absurd htail (tail_ne_missed operators right left t)
  | broken failure => exact .inl ⟨failure, rfl⟩
  | found node rest =>
      refine .inr ⟨node, rest, rfl, ?_⟩
      rcases tail_eq_found htail with ⟨rfl, -⟩ | ⟨u, operand, hu, hoperand⟩
      · exact List.suffix_refl rest
      · exact (hright hoperand).trans hu

theorem leavesWithin_bind {p : Reader Node} {f : Node → Reader Node} {t rest : Text}
    (hp : (p t).LeavesWithin rest) (hf : ∀ node u, (f node u).LeavesWithin u) :
    ((p >>= f) t).LeavesWithin rest := by
  rcases hp with ⟨failure, hbroken⟩ | ⟨node, u, hfound, hu⟩
  · exact .inl ⟨failure, by rw [bind_apply, hbroken]⟩
  · rw [bind_found hfound]
    rcases hf node u with hbroken | ⟨node', rest', hfound', hrest'⟩
    · exact .inl hbroken
    · exact .inr ⟨node', rest', hfound', hrest'.trans hu⟩

/-- One step from a layer to the next looser one, on a text that begins like an expression of a
    tighter layer. -/
theorem leavesWithin_step {nested : Nested} (hnested : nested.Reads)
    {layer next tighter : Layer} (hnext : next.tightness = layer.tightness + 1)
    (hlayer : layer.tightness < tighter.tightness) {t rest : Text}
    (hbegins : ∃ ws ∈ tighter.leads, Begins ws t)
    (h : (expression nested next t).LeavesWithin rest) :
    (expression nested layer t).LeavesWithin rest := by
  -- the forms of the looser layer itself begin otherwise, so that they leave the text to the next one
  have hown {p q : Reader Node} (hp : Leads layer.ownWords p) (hq : (q t).LeavesWithin rest) :
      ((p <|> q) t).LeavesWithin rest := by
    have hmissed := hp.missed (Layer.clash_ownWords hlayer) hbegins []
    rw [List.append_nil] at hmissed
    rwa [orElse_of_missed hmissed]
  have hsuffix (layer : Layer) {t node rest}
      (h : nested.expression layer t = .found node rest) : rest <:+ t :=
    (hnested.expression layer).suffix h
  cases layer with
  | logical =>
      obtain rfl : next = .comparison := Layer.eq_of_tightness hnext
      exact leavesWithin_bind h fun left => leavesWithin_tail (hsuffix .logical) left
  | comparison =>
      obtain rfl : next = .arithmetic := Layer.eq_of_tightness hnext
      exact leavesWithin_bind h fun left => leavesWithin_tail (hsuffix .comparison) left
  | arithmetic =>
      obtain rfl : next = .concat := Layer.eq_of_tightness hnext
      exact hown (leads_arithmeticForms _) h
  | concat =>
      obtain rfl : next = .call := Layer.eq_of_tightness hnext
      exact hown (leads_spoken concatForm _) h
  | call =>
      obtain rfl : next = .reference := Layer.eq_of_tightness hnext
      exact hown leads_functionCall h
  | reference =>
      obtain rfl : next = .primitive := Layer.eq_of_tightness hnext
      exact hown (leads_phrase "/").andThen h
  | primitive => cases next <;> simp [Layer.tightness] at hnext

/-- Every looser layer takes at least as much as a layer takes, or it breaks off. -/
theorem leavesWithin_of_found {nested : Nested} (hnested : nested.Reads) {looser tighter : Layer}
    (h : looser.tightness ≤ tighter.tightness) {t rest : Text} {node : Node}
    (hfound : expression nested tighter t = .found node rest) :
    (expression nested looser t).LeavesWithin rest := by
  obtain ⟨distance, hdistance⟩ := Nat.exists_eq_add_of_le h
  induction distance generalizing looser with
  | zero =>
      obtain rfl := Layer.eq_of_tightness hdistance
      exact .inr ⟨node, rest, hfound, List.suffix_refl rest⟩
  | succ distance ih =>
      have hlt : looser.tightness < tighter.tightness := by omega
      obtain ⟨next, hnext⟩ := Layer.exists_next hlt
      exact leavesWithin_step hnested hnext hlt ((leads_expression nested tighter).begins hfound)
        (ih (by omega) (by omega))

/-! ## Operators that are left -/

/-- The text begins with an operator that stands between operands, in any spacing, and with a right
    operand of the operator's layer, as it is found within some depth of nesting. -/
def BeginsTail (op : Operator) (t : Text) : Prop :=
  ∃ gap words gap' u, t = gap ++ (words ++ (gap' ++ u)) ∧ IsGap gap ∧ Phrase op.phrase words ∧
    IsGap gap' ∧
    ∃ limit right rest, (within limit).expression op.family.layer u = .found right rest

/-- Where an operator and a right operand stand, they are found. -/
theorem BeginsTail.operation_found {op : Operator} {t : Text} (h : BeginsTail op t) (left : Node) :
    ∃ limit right rest,
      operation ((within limit).expression op.family.layer) left (op.phrase, op) t =
        .found (.operation op left right) rest := by
  obtain ⟨gap, words, gap', u, rfl, hgap, hwords, hgap', limit, right, rest, hright⟩ := h
  have hoperand : Text.Flush u := by
    obtain ⟨used, rfl, hused⟩ := ((reads_within limit).expression op.family.layer).found hright
    exact hused.flush rest
  have hwords' : Text.Flush (words ++ (gap' ++ u)) := hwords.flush (by cases op <;> decide) _
  refine ⟨limit, right, rest, ?_⟩
  rw [operation, bind_found (blanks1_gap hgap hwords'), bind_found (phrase_spelled hwords _),
    bind_found (blanks1_gap hgap' hoperand), bind_found hright]
  rfl

theorem deepens_operation {right right' : Reader Node} (h : Deepens right right') (left : Node)
    (o : String × Operator) : Deepens (operation right left o) (operation right' left o) :=
  deepens_bind fun _ => deepens_bind fun _ => deepens_bind fun _ => h.andThen

/-- An operation that is missed at one depth is found at no other one. -/
theorem not_beginsTail_of_missed {op : Operator} {limit : Nat} {left : Node} {t : Text}
    (h : operation ((within limit).expression op.family.layer) left (op.phrase, op) t = .missed) :
    ¬ BeginsTail op t := by
  intro htail
  obtain ⟨limit', right, rest, hfound⟩ := htail.operation_found left
  have hdeepens {a : Nat} (ha : a ≤ max limit limit') := deepens_operation
    ((deepens_within ha).expression op.family.layer) left (op.phrase, op) t
  rcases hdeepens (Nat.le_max_left _ _), hdeepens (Nat.le_max_right _ _) with
    ⟨hdeep | hsame, hdeep' | hsame'⟩
  · rw [h] at hdeep
    cases hdeep
  · rw [h] at hdeep
    cases hdeep
  · rw [hfound] at hdeep'
    cases hdeep'
  · rw [← hsame', hfound, h] at hsame
    cases hsame

/-- What a tail leaves was left by its right operand, or the tail is empty and none of its operators
    can be read where it stands. -/
theorem rest_of_tail {family : Operator.Family} {operators : List (String × Operator)}
    (hoperators : ∀ op : Operator, op.family = family → (op.phrase, op) ∈ operators) {limit : Nat}
    {left node : Node} {t rest : Text}
    (h : tail operators ((within limit).expression family.layer) left t = .found node rest) :
    (∃ u right, (within limit).expression family.layer u = .found right rest) ∨
      (rest = t ∧ ∀ op : Operator, op.family = family → ¬ BeginsTail op t) := by
  rcases tail_eq_found h with ⟨rfl, hmissed⟩ | ⟨u, right, -, hright⟩
  · refine .inr ⟨rfl, fun op hop => ?_⟩
    subst hop
    exact not_beginsTail_of_missed (hmissed _ (hoperators op rfl))
  · exact .inl ⟨u, right, hright⟩

theorem mem_comparisonOperators {op : Operator} (h : op.family = .comparison) :
    (op.phrase, op) ∈ comparisonOperators := by
  revert h
  cases op <;> decide

theorem mem_logicalOperators {op : Operator} (h : op.family = .logical) :
    (op.phrase, op) ∈ logicalOperators := by
  revert h
  cases op <;> decide

/-- Behind a comparison no operator of comparisons is left. -/
theorem not_beginsTail_of_comparison {limit : Nat} {t rest : Text} {node : Node}
    (h : (within limit).expression .comparison t = .found node rest) :
    ∀ op : Operator, op.family = .comparison → ¬ BeginsTail op rest := by
  induction limit generalizing t node with
  | zero => cases h
  | succ limit ih =>
      obtain ⟨left, u, -, htail⟩ := bind_eq_found.1 h
      rcases rest_of_tail (fun _ => mem_comparisonOperators) htail with ⟨v, right, hright⟩ | ⟨rfl, hnone⟩
      · exact ih hright
      · exact hnone

/-- Behind a logical expression no operator between operands is left. -/
theorem not_beginsTail_of_logical {limit : Nat} {t rest : Text} {node : Node}
    (h : (within limit).expression .logical t = .found node rest) :
    ∀ op : Operator, op.family.isSpoken = false → ¬ BeginsTail op rest := by
  induction limit generalizing t node with
  | zero => cases h
  | succ limit ih =>
      obtain ⟨left, u, hleft, htail⟩ := bind_eq_found.1 h
      rcases rest_of_tail (fun _ => mem_logicalOperators) htail with ⟨v, right, hright⟩ | ⟨rfl, hnone⟩
      · exact ih hright
      · -- the left operand is a comparison, which leaves no operator of its own
        intro op hop
        cases hfamily : op.family with
        | logical => exact hnone op hfamily
        | comparison =>
            have hcomparison : (within (limit + 1)).expression .comparison t = .found left rest :=
              hleft
            exact not_beginsTail_of_comparison hcomparison op hfamily
        | string | arithmetic =>
            rw [hfamily] at hop
            cases hop

/-! ## Layers nest and are greedy -/

/-- What a layer takes off a text, every looser layer takes too, with what it may find behind it,
    unless it breaks off; and a logical expression leaves no operator between operands with a right
    operand behind it. -/
theorem layers_nest_and_are_greedy (limit : Nat) (t : Text) :
    (∀ (tighter looser : Layer) (node : Node) (rest : Text),
      looser.tightness ≤ tighter.tightness →
      (within limit).expression tighter t = .found node rest →
      (∃ failure, (within limit).expression looser t = .broken failure) ∨
        ∃ node' rest', (within limit).expression looser t = .found node' rest' ∧
          rest' <:+ rest) ∧
    (∀ (node : Node) (rest : Text), (within limit).expression .logical t = .found node rest →
      ∀ op : Operator, op.family.isSpoken = false → ¬ BeginsTail op rest) := by
  refine ⟨fun tighter looser node rest h hfound => ?_, fun _ _ => not_beginsTail_of_logical⟩
  cases limit with
  | zero => cases hfound
  | succ limit => exact leavesWithin_of_found (reads_within limit) h hfound

/-- The looser layer takes the disjunction whole, and what follows the `und` that is left is no
    operand. -/
theorem layers_nest_at_a_disjunction :
    (∃ node' rest', (within 2).expression .logical "wahr oder falsch und!".toList =
        .found node' rest' ∧ rest' <:+ " oder falsch und!".toList) ∧
      ¬ BeginsTail .both " und!".toList := by
  have hprimitive : (within 2).expression .primitive "wahr oder falsch und!".toList =
      .found (.literal (.boolean true)) " oder falsch und!".toList := rfl
  have hlogical : (within 2).expression .logical "wahr oder falsch und!".toList =
      .found (.operation .either (.literal (.boolean true)) (.literal (.boolean false)))
        " und!".toList := rfl
  obtain ⟨hnest, hgreedy⟩ := layers_nest_and_are_greedy 2 "wahr oder falsch und!".toList
  refine ⟨(hnest .primitive .logical _ _ (by decide) hprimitive).resolve_left ?_,
    hgreedy _ _ hlogical .both rfl⟩
  rintro ⟨failure, hbroken⟩
  rw [hlogical] at hbroken
  cases hbroken

end Grammar

end Klartext
