import Klartext.Grammar.Statement
import Klartext.Proofs.Grammar.Expression
import Klartext.Proofs.Surface.Torn

set_option autoImplicit false

/-! # Written terms are read back

Every layer reads the text of its terms back, and no layer reads a torn term. Each of the two rests
on the other: the arguments of a call are told from one another because no torn argument is an item,
and a torn call is none because its arguments, up to where it was torn, are read back. So both are
one induction on how a term is layered. -/

namespace Klartext

open Reader Grammar Surface Enumeration Enumeration.Search

/-! ## Where nothing is read -/

namespace Grammar

variable {nested : Nested} {layer : Layer} {operand : Reader Node} {op : Operator}
  {o o' : Option Nat} {a : Node} {t : Text}

/-- No phrase of an operation stands where a text does not begin as they all do. -/
theorem phrase_missed_of_head (hspoken : op.family.isSpoken = true) {c : Char} (hc : c ≠ 'd')
    (t : Text) : phrase op.phrase (c :: t) = .missed := by
  have hfirst : ∃ w ws, Text.words op.phrase.toList = ('d' :: w) :: ws := by
    rcases op.eq_of_isSpoken hspoken with rfl | rfl | rfl | rfl | rfl <;> exact ⟨_, _, rfl⟩
  obtain ⟨w, ws, hwords⟩ := hfirst
  refine phrase_missed hwords fun hprefix => ?_
  exact hc (List.cons_prefix_cons.1 hprefix).1.symm

/-- No layer reads an item where none of the forms is one. -/
theorem noItem_expression (hlayer : layer.tightness ≤ Layer.reference.tightness)
    (hspoken : ∀ op : Operator, op.family.isSpoken = true →
      NoItem o (spoken (op.phrase, op) (nested.expression op.family.layer) t))
    (hcall : NoItem o (functionCall nested t)) (hreference : NoItem o (reference t)) :
    NoItem o (expression nested layer t) := by
  have hcallLayer : NoItem o (call nested t) := noItem_orElse hcall hreference
  have hconcatLayer : NoItem o (concat nested t) := noItem_orElse (hspoken .concat rfl) hcallLayer
  have harithmeticLayer : NoItem o (arithmetic nested t) := by
    refine noItem_orElse (noItem_firstOf ?_) hconcatLayer
    simp only [arithmeticForms, List.map_cons, List.map_nil, List.forall_mem_cons]
    exact ⟨hspoken .add rfl, hspoken .subtract rfl, hspoken .multiply rfl, hspoken .divide rfl,
      List.forall_mem_nil _⟩
  have hcomparisonLayer : NoItem o (comparison nested t) := noItem_bind harithmeticLayer
  cases layer with
  | logical => exact noItem_bind hcomparisonLayer
  | comparison => exact hcomparisonLayer
  | arithmetic => exact harithmeticLayer
  | concat => exact hconcatLayer
  | call => exact hcallLayer
  | reference => exact hreference
  | primitive => exact absurd hlayer (by decide)

/-- The phrases of two operations are told apart. -/
theorem phrase_missed_of_ne {op' : Operator} (hspoken : op.family.isSpoken = true)
    (hspoken' : op'.family.isSpoken = true) (hne : op' ≠ op) (t : Text) :
    phrase op'.phrase (op.phrase.toList ++ ' ' :: t) = .missed := by
  rcases op.eq_of_isSpoken hspoken with rfl | rfl | rfl | rfl | rfl <;>
    rcases op'.eq_of_isSpoken hspoken' with rfl | rfl | rfl | rfl | rfl <;>
      first | exact absurd rfl hne | rfl

/-- Where the phrase of an operation stands, no other form is read. -/
theorem noItem_operation (hspoken : op.family.isSpoken = true)
    (hlayer : layer.tightness ≤ Layer.reference.tightness)
    (h : NoItem o (spoken (op.phrase, op) (nested.expression op.family.layer)
      (op.phrase.toList ++ ' ' :: t))) :
    NoItem o (expression nested layer (op.phrase.toList ++ ' ' :: t)) := by
  obtain ⟨u, hu⟩ := op.phrase_of_isSpoken hspoken
  refine noItem_expression hlayer (fun op' hspoken' => ?_) (.inl (by rw [hu]; rfl))
    (.inl (by rw [hu]; rfl))
  by_cases heq : op' = op
  · rw [heq]
    exact h
  · exact .inl (spoken_missed (phrase_missed_of_ne hspoken hspoken' heq t))

/-! ### Operands -/

theorem noItem_left (hflush : Text.Flush t) (h : NoItem o (operand t)) :
    NoItem o (spoken (op.phrase, op) operand (op.phrase.toList ++ ' ' :: t)) := by
  rw [spoken, bind_found (phrase_append op.normalize_phrase _), bind_found (blanks1_space hflush)]
  exact noItem_bind h

/-- The left operand is read, but what stands behind it is no right operand. -/
theorem noItem_right {left right : Text} (hflushLeft : Text.Flush left) (hneLeft : left ≠ [])
    (hflush : Text.Flush right)
    (hleft : operand (left ++ (" und ".toList ++ right)) =
      .checked o a (" und ".toList ++ right))
    (hright : NoItem o' (operand right)) :
    NoItem (o.or o') (spoken (op.phrase, op) operand
      (op.phrase.toList ++ ' ' :: (left ++ (" und ".toList ++ right)))) := by
  have hund : " und ".toList ++ right = ' ' :: ("und".toList ++ ' ' :: right) := rfl
  have hflushUnd : Text.Flush ("und".toList ++ ' ' :: right) := Text.flush_cons (by decide)
  rw [spoken, bind_found (phrase_append op.normalize_phrase _),
    bind_found (blanks1_space (hflushLeft.append hneLeft _))]
  refine noItem_bind_checked hleft ?_
  rw [hund, bind_found (blanks1_space hflushUnd), bind_found (phrase_append rfl _),
    bind_found (blanks1_space hflush)]
  exact noItem_bind hright

/-- The left operand is read, but nothing stands behind it. -/
theorem noItem_between {left : Text} (hflush : Text.Flush left)
    (hleft : operand left = .checked o a []) :
    NoItem o (spoken (op.phrase, op) operand (op.phrase.toList ++ ' ' :: left)) := by
  rw [spoken, bind_found (phrase_append op.normalize_phrase _), bind_found (blanks1_space hflush)]
  exact noItem_bind_missed hleft rfl

/-- Every layer up to that of calls reads a call. -/
theorem expression_of_call (hlayer : layer.tightness ≤ Layer.call.tightness) {u : Text}
    (h : functionCall nested ("führe ".toList ++ t) = .checked o a u) (hu : layer.Ends u) :
    expression nested layer ("führe ".toList ++ t) = .checked o a u := by
  have hcall : call nested ("führe ".toList ++ t) = .checked o a u := orElse_of_checked h
  by_cases htight : layer.tightness ≤ Layer.concat.tightness
  · refine expression_of_concat htight ?_ ((orElse_of_missed (spoken_missed rfl)).trans hcall) hu
    simp only [arithmeticForms, List.forall_mem_cons]
    exact ⟨rfl, rfl, rfl, rfl, List.forall_mem_nil _⟩
  · cases layer with
    | call => exact hcall
    | reference => exact absurd hlayer (by decide)
    | primitive => exact absurd hlayer (by decide)
    | _ => exact absurd (by decide) htight

theorem noItem_call (hlayer : layer.tightness ≤ Layer.reference.tightness)
    (h : NoItem o (functionCall nested ("führe ".toList ++ t))) :
    NoItem o (expression nested layer ("führe ".toList ++ t)) := by
  refine noItem_expression hlayer (fun op hspoken => ?_) h (.inl rfl)
  exact .inl (spoken_missed (phrase_missed_of_head hspoken (by decide) _))

/-- Where no right operand is read, `und` is no operator, unless reading breaks off there. -/
theorem tail_of_noItem {right : Reader Node} (hflush : Text.Flush t) (h : NoItem o (right t)) :
    tail logicalOperators right a (" und ".toList ++ t) = .found a (" und ".toList ++ t) ∨
      NoItem o (tail logicalOperators right a (" und ".toList ++ t)) := by
  have hund : Text.Flush ("und".toList ++ ' ' :: t) := Text.flush_cons (by decide)
  have htext : " und ".toList ++ t = ' ' :: ("und".toList ++ ' ' :: t) := rfl
  have hfirst : NoItem o (firstOf (logicalOperators.map fun operator => (do
      let _ ← blanks1
      phrase operator.1
      let _ ← blanks1
      return .operation operator.2 a (← right) : Reader Node)) (" und ".toList ++ t)) := by
    refine noItem_firstOf ?_
    simp only [logicalOperators, List.map_cons, List.map_nil, List.forall_mem_cons]
    rw [htext]
    -- `und` is found without its operand, and `oder` is not found
    refine ⟨?_, .inl ?_, List.forall_mem_nil _⟩
    · rw [bind_found (blanks1_space hund), bind_found (phrase_append rfl _),
        bind_found (blanks1_space hflush)]
      exact noItem_bind h
    · rw [bind_found (blanks1_space hund)]
      exact bind_missed rfl
  rcases missed_or_broken hfirst with hmissed | ⟨e, hbroken⟩
  · exact .inl (orElse_of_missed hmissed)
  · refine .inr ?_
    rw [tail, orElse_apply, hbroken]
    rw [hbroken] at hfirst
    exact hfirst

end Grammar

/-! ## Calls -/

namespace Surface

namespace CallName

variable {nested : Nested} {o : Option Nat} {t u : Text}

theorem not_holds_mark (name : CallName) : ∀ s ∈ ["!".toList], Text.holds s name.text = false := by
  intro s hs
  rw [List.mem_singleton.1 hs]
  exact Text.holds_eq_false (by decide) (Text.absent_of_not_mem name.no_mark)

theorem not_holds_aus (name : CallName) :
    ∀ s ∈ [" aus".toList, "!".toList], Text.holds s name.text = false := by
  rw [List.forall_mem_cons]
  exact ⟨Text.holds_eq_false (by decide) (name.absent_aus (by simp)), name.not_holds_mark⟩

/-- A call without arguments is read up to the first `aus`. -/
theorem read_aus (name : CallName) (t : Text) :
    functionCall nested ("führe ".toList ++ (name.text ++ (" aus".toList ++ t))) =
      .found (.call (String.ofList name.text) []) t := by
  have hflush := Text.flush_of_normal name.normal name.ne_nil (" aus".toList ++ t)
  have hmit : nameUntil " mit ".toList [" aus".toList, "!".toList]
      (name.text ++ (" aus".toList ++ t)) = .missed := by
    refine nameUntil_excluded List.mem_cons_self ?_
    have haus : Text.Absent " mit ".toList " aus".toList t := by
      refine Text.absent_cons ?_ (Text.absent_of_not_mem (by decide))
      intro hprefix
      exact absurd (List.cons_prefix_cons.1 (List.cons_prefix_cons.1 hprefix).2).1 (by decide)
    exact (name.absent_mit (by simp)).append haus
  have hname := nameUntil_append (t := t) (by decide) name.ne_nil name.normal
    (name.absent_aus (by simp)) name.not_holds_mark
  rw [functionCall, phrase_blanks1 rfl rfl hflush, orElse_of_missed (bind_missed hmit),
    bind_found hname]
  rfl

/-- A call with arguments is read up to the end of their list. -/
theorem read_mit (name : CallName) {arguments : List Node}
    (h : listUntil " aus".toList (nested.expression .logical) nested.room t =
      .checked o arguments u) :
    functionCall nested ("führe ".toList ++ (name.text ++ (" mit ".toList ++ t))) =
      .checked o (.call (String.ofList name.text) arguments) u := by
  have hflush := Text.flush_of_normal name.normal name.ne_nil (" mit ".toList ++ t)
  have hname := nameUntil_append (t := t) (by decide) name.ne_nil name.normal
    (name.absent_mit (by simp)) name.not_holds_aus
  have hlist : (listUntil " aus".toList (nested.expression .logical) nested.room).orRefuse
      (argumentsRefusal name.text) t = .checked o arguments u := by
    rw [orRefuse, h]
    cases o <;> rfl
  rw [functionCall, phrase_blanks1 rfl rfl hflush]
  refine orElse_of_checked ?_
  rw [bind_found hname]
  exact bind_checked_pure hlist

theorem missed_name (name : CallName) :
    functionCall nested ("führe ".toList ++ name.text) = .missed := by
  have hflush := Text.flush_of_normal name.normal name.ne_nil []
  rw [List.append_nil] at hflush
  have hmit := nameUntil_absent (by decide) (name.absent_mit (t := []) (by simp))
    [" aus".toList, "!".toList]
  have haus := nameUntil_absent (by decide) (name.absent_aus (t := []) (by simp)) ["!".toList]
  rw [functionCall, phrase_blanks1 rfl rfl hflush, orElse_of_missed (bind_missed hmit)]
  exact bind_missed haus

/-- Where the arguments are no list, a call is refused. -/
theorem noItem_mit (name : CallName)
    (h : NoItem o (listUntil " aus".toList (nested.expression .logical) nested.room t)) :
    NoItem o (functionCall nested ("führe ".toList ++ (name.text ++ (" mit ".toList ++ t)))) := by
  have hflush := Text.flush_of_normal name.normal name.ne_nil (" mit ".toList ++ t)
  have hname := nameUntil_append (t := t) (by decide) name.ne_nil name.normal
    (name.absent_mit (by simp)) name.not_holds_aus
  obtain ⟨e, hrefused, hbroken⟩ := noItem_orRefuse h (argumentsRefusal name.text)
  rw [functionCall, phrase_blanks1 rfl rfl hflush, orElse_apply, bind_found hname, bind_apply,
    hrefused]
  exact noItem_broken hbroken

end CallName

/-! ## Items of a list -/

namespace Term

/-- A term is read back by its layer and by all looser ones, and no layer reads it where it is
    torn. -/
structure ReadsBack (layer : Layer) (x : Term) : Prop where
  read : ∀ {limit : Nat} {layer' : Layer} {t : Text}, x.depth < limit →
    layer'.tightness ≤ layer.tightness → layer'.Ends t →
    (within limit).expression layer' (x.text ++ t) = .checked x.overlong? x.node t
  torn : ∀ {limit : Nat} {layer' : Layer} {y : Text}, x.depth < limit →
    layer'.tightness ≤ Layer.reference.tightness → Torn x y →
    NoItem x.overlong? ((within limit).expression layer' y)

/-- A term in a list. -/
def entry (x : Term) : Entry Node := ⟨x.text, x.node, x.overlong?⟩

variable {x x' : Term} {xs : List Term} {limit : Nat} {ending : Text}

theorem flush_of_part {y : Text} (hy : Part (' ' :: ending) x.text y) : y ≠ [] ∧ Text.Flush y := by
  obtain ⟨z, w, htext, hne, _⟩ := hy
  exact ⟨hne, flush_of_isPrefix ⟨z, htext.symm⟩ x.opening.flush⟩

theorem not_und (x : Term) (u : Text) (c : Char) : x.text ≠ u ++ c :: "und".toList := by
  intro htext
  obtain ⟨v, d, hv, hd⟩ := x.closing
  have hconcat : (u ++ c :: "un".toList) ++ ['d'] = v ++ [d] := by
    rw [← hv, htext]
    simp
  exact (not_of_closes hd).2.2 (List.cons.inj (List.append_inj' hconcat rfl).2).1.symm

theorem lawful (h : x.ReadsBack .arithmetic) (hdepth : x.depth < limit)
    (hending : ending ∈ endings) :
    x.entry.Lawful ((within limit).expression .logical) (' ' :: ending) := by
  have hread {t : Text} (ht : Layer.logical.Ends t) :
      (within limit).expression .logical (x.text ++ t) = .checked x.overlong? x.node t :=
    h.read hdepth (Nat.zero_le _) ht
  obtain ⟨v, d, hlast, hclose⟩ := x.closing
  obtain ⟨hblank, hcomma, _⟩ := not_of_closes hclose
  refine ⟨?_, ⟨v, d, hlast, hblank, hcomma⟩, fun u c _ => x.not_und u c, ?_, ?_, ?_, ?_, ?_⟩
  · obtain ⟨c, u, htext, hc⟩ := x.opening
    refine ⟨c, u, htext, not_isBlank_of_opens hc, ?_⟩
    rintro rfl
    exact absurd hc (by decide)
  · exact fun w _ => (x.opening.append w).not_cut_before hending
  · intro w _ hprefix
    obtain ⟨⟨k, rfl⟩, _⟩ := exists_of_mem_endings hending
    exact absurd (List.cons_prefix_cons.1 (List.cons_prefix_cons.1 hprefix).2).1 (by decide)
  · have htrim : Text.trim x.text = x.text ++ [] := by
      rw [Text.trim_of_flush x.opening.flush, hlast, Text.trimEnd_concat hblank, List.append_nil]
    exact complete_of_checked htrim (hread (Layer.ends_of_mark _ (.inl rfl)))
  · intro y hy
    exact noItem_complete (Text.trim_of_flush (flush_of_part hy).2)
      (h.torn hdepth (by decide) (torn_of_part hending x y hy))
  · intro w
    have htrim : Text.trim (x.text ++ (", ".toList ++ w)) =
        x.text ++ ',' :: Text.trimEnd (' ' :: w) := by
      rw [Text.trim_of_flush (x.flush _)]
      exact Text.trimEnd_append_cons (by decide) x.text (' ' :: w)
    -- the comma is no fraction, since at most a space follows it
    have hhead : ∀ c ∈ (Text.trimEnd (' ' :: w)).head?, c = ' ' := by
      intro c hc
      obtain ⟨r, hr⟩ := Text.trimEnd_prefix (' ' :: w)
      cases htrimmed : Text.trimEnd (' ' :: w) with
      | nil => simp [htrimmed] at hc
      | cons e r' =>
          rw [htrimmed] at hr hc
          obtain rfl : e = c := by simpa using hc
          exact (List.cons.inj hr).1
    exact noItem_complete_rest htrim (hread (ends_comma hhead)) ⟨',', by simp, by decide⟩

/-- A term and a part of another one behind an `und` are no operation, nor is anything else. -/
theorem noItem_join (h : x.ReadsBack .arithmetic) (h' : x'.ReadsBack .arithmetic)
    (hdepth : x.depth < limit + 1) (hdepth' : x'.depth < limit) (hending : ending ∈ endings)
    {y : Text} (hy : Part (' ' :: ending) x'.text y) :
    NoItem (x.overlong?.or x'.overlong?)
      (((within (limit + 1)).expression .logical).complete (x.text ++ (" und ".toList ++ y))) := by
  obtain ⟨hne, hflush⟩ := flush_of_part hy
  have htorn := torn_of_part hending x' y hy
  have htrim : Text.trim (x.text ++ (" und ".toList ++ y)) =
      x.text ++ (" und ".toList ++ Text.trimEnd y) := by
    rw [Text.trim_of_flush (x.flush _), ← List.append_assoc, Text.trimEnd_append hne hflush,
      List.append_assoc]
  have hends : Layer.comparison.Ends (" und ".toList ++ Text.trimEnd y) :=
    comparison_ends_logical (rfl : Operator.both.family = .logical) (Text.trimEnd y)
  have hleft : (within (limit + 1)).expression .comparison
      (x.text ++ (" und ".toList ++ Text.trimEnd y)) =
      .checked x.overlong? x.node (" und ".toList ++ Text.trimEnd y) :=
    h.read hdepth (by decide) hends
  have hright : NoItem x'.overlong? ((within limit).expression .logical (Text.trimEnd y)) :=
    h'.torn hdepth' (by decide) htorn
  have hflushTorn : Text.Flush (Text.trimEnd y) := flush_of_isPrefix (Text.trimEnd_prefix y) hflush
  -- without a right operand the `und` is left over, and an item leaves nothing over
  rcases tail_of_noItem hflushTorn hright with hfound | hbroken
  · have hread : (within (limit + 1)).expression .logical
        (x.text ++ (" und ".toList ++ Text.trimEnd y)) =
        .checked x.overlong? x.node (" und ".toList ++ Text.trimEnd y) :=
      bind_checked_found hleft hfound
    refine (noItem_complete_rest htrim hread ⟨'u', by simp, by decide⟩).mono ?_
    intro count hcount
    rw [hcount, Option.some_or]
  · exact noItem_complete htrim (noItem_bind_checked hleft hbroken)

/-- Terms in a list keep to the rules. -/
theorem lawful_list (h : ∀ x ∈ xs, x.ReadsBack .arithmetic) (hne : xs ≠ [])
    (hdepth : listDepth xs ≤ limit) (hending : ending ∈ endings) :
    Lawful ((within limit).expression .logical) (' ' :: ending) (xs.map entry) := by
  rw [listDepth, Nat.max_le] at hdepth
  have hpos := List.length_pos_iff.2 hne
  have hlt : ∀ x ∈ xs, x.depth + min xs.length 2 ≤ limit := fun x hx =>
    Nat.le_trans (Nat.add_le_add_right (depth_le_depths hx) _) hdepth.2
  obtain ⟨limit, rfl⟩ : ∃ n, limit = n + 1 := ⟨limit - 1, by omega⟩
  refine ⟨.inl rfl, ?_, ?_⟩
  · intro e he
    obtain ⟨x, hx, rfl⟩ := List.mem_map.1 he
    have hx' := hlt x hx
    exact lawful (h x hx) (by omega) hending
  · intro e e' hsuffix y hy
    obtain ⟨x, hx, rfl⟩ := List.mem_map.1 (hsuffix.subset List.mem_cons_self)
    obtain ⟨x', hx', rfl⟩ := List.mem_map.1
      (hsuffix.subset (List.mem_cons_of_mem _ List.mem_cons_self))
    -- behind an `und` an item is tried one level deeper, which `listDepth` counts from two items on
    have htwo := hsuffix.length_le
    rw [List.length_map, List.length_cons, List.length_cons] at htwo
    have hlt' := hlt x hx
    have hlt'' := hlt x' hx'
    exact noItem_join (h x hx) (h x' hx') (by omega) (by omega) hending hy

theorem written_entry (xs : List Term) : written (xs.map entry) = enumeration (xs.map text) := by
  rw [written, List.map_map]
  rfl

/-- A list of terms is read back. -/
theorem read_list (h : ∀ x ∈ xs, x.ReadsBack .arithmetic) (hne : xs ≠ [])
    (hdepth : listDepth xs ≤ limit) (hending : ending ∈ endings) (t : Text) :
    listUntil (' ' :: ending) ((within limit).expression .logical) (within limit).room
        (enumeration (xs.map text) ++ (' ' :: ending ++ t)) =
      .checked (xs.findSome? overlong?) (xs.map node) t := by
  have hlength : (xs.map entry).length ≤ limit + 1 := by
    rw [List.length_map]
    exact Nat.le_succ_of_le (Nat.le_trans (Nat.le_max_left _ _) hdepth)
  have hread := listUntil_written (lawful_list h hne hdepth hending) (by simpa using hne) hlength t
  rw [written_entry, List.map_map, List.findSome?_map] at hread
  rw [within_room]
  exact hread

/-! ## All terms -/

theorem literal_readsBack (layer : Layer) (l : Literal) : ReadsBack layer (.literal l) := by
  refine ⟨fun {limit layer' t} hdepth _ ht => ?_, fun {limit layer' y} hdepth hlayer hy => ?_⟩
  · obtain ⟨limit, rfl⟩ := Nat.exists_eq_succ_of_ne_zero (Nat.ne_zero_of_lt hdepth)
    exact l.read_layer layer' (within limit) ht
  · obtain ⟨limit, rfl⟩ := Nat.exists_eq_succ_of_ne_zero (Nat.ne_zero_of_lt hdepth)
    cases hy with
    | @string s p hp =>
        have hstring : Grammar.string ('\"' :: p) = .missed := by
          have hread : Reader.between ['\"'] ('\"' :: p) = .missed := by
            simp [Reader.between, closing_of_prefix hp]
          exact bind_missed hread
        refine noItem_expression hlayer (fun op hspoken => ?_) (.inl rfl)
          (.inl ((orElse_of_missed hstring).trans rfl))
        exact .inl (spoken_missed (phrase_missed_of_head hspoken (by decide) _))

theorem reference_readsBack {layer : Layer} (name : SlashedName)
    (hlayer : layer.tightness ≤ Layer.reference.tightness) :
    ReadsBack layer (.reference name) := by
  refine ⟨fun {limit layer' t} hdepth hle ht => ?_, fun {limit layer' y} hdepth hlayer hy => ?_⟩
  · obtain ⟨limit, rfl⟩ := Nat.exists_eq_succ_of_ne_zero (Nat.ne_zero_of_lt hdepth)
    have htext : (reference name).text ++ t = '/' :: (name.text ++ '/' :: t) := by simp [text]
    rw [htext]
    exact name.read_layer (within limit) (Nat.le_trans hle hlayer) ht
  · obtain ⟨limit, rfl⟩ := Nat.exists_eq_succ_of_ne_zero (Nat.ne_zero_of_lt hdepth)
    cases hy with
    | @reference _ p hp =>
        have hslash : '/' ∉ p := fun hmem => name.no_slash (hp.subset hmem)
        have hname : nameUntil "/".toList ["!".toList] p = .missed :=
          nameUntil_absent (by decide) (Text.absent_of_not_mem hslash) _
        have hvariable : variableReference ('/' :: p) = .missed := by
          refine (bind_found (phrase_append (s := "/") rfl p)).trans ?_
          exact bind_missed hname
        refine noItem_expression hlayer (fun op hspoken => ?_) (.inl rfl)
          (.inl ((orElse_of_missed hvariable).trans rfl))
        exact .inl (spoken_missed (phrase_missed_of_head hspoken (by decide) _))

theorem call_readsBack {layer : Layer} (name : CallName)
    (hlayer : layer.tightness ≤ Layer.call.tightness) (h : ∀ x ∈ xs, x.ReadsBack .arithmetic) :
    ReadsBack layer (.call name xs) := by
  have haus : "aus".toList ∈ endings := List.mem_cons_self
  refine ⟨fun {limit layer' t} hdepth hle ht => ?_, fun {limit layer' y} hdepth hlayer hy => ?_⟩
  · obtain ⟨limit, rfl⟩ := Nat.exists_eq_succ_of_ne_zero (Nat.ne_zero_of_lt hdepth)
    cases xs with
    | nil =>
        rw [text_call_nil]
        exact expression_of_call (o := none) (Nat.le_trans hle hlayer) (name.read_aus t) ht
    | cons x xs =>
        have hlist := read_list h (List.cons_ne_nil x xs) (Nat.le_of_lt_succ hdepth) haus t
        rw [text_call_cons, texts_eq_map, overlong?, node, overlongs?_eq_findSome?, nodes_eq_map]
        exact expression_of_call (Nat.le_trans hle hlayer) (name.read_mit hlist) ht
  · obtain ⟨limit, rfl⟩ := Nat.exists_eq_succ_of_ne_zero (Nat.ne_zero_of_lt hdepth)
    cases hy with
    | name => exact noItem_call hlayer (.inl name.missed_name)
    | @arguments _ x xs p hp =>
        have hlength : ((x :: xs).map entry).length ≤ (within limit).room + 1 := by
          rw [within_room, List.length_map]
          exact Nat.le_succ_of_le (Nat.le_trans (Nat.le_max_left _ _) (Nat.le_of_lt_succ hdepth))
        -- the arguments are a list again, here without the `aus` that ends it
        rw [texts_eq_map, ← written_entry] at hp
        have hlist := listUntil_cutOff
          (lawful_list h (List.cons_ne_nil x xs) (Nat.le_of_lt_succ hdepth) haus) hlength hp
        rw [List.findSome?_map] at hlist
        rw [overlong?, overlongs?_eq_findSome?]
        exact noItem_call hlayer (name.noItem_mit hlist)

theorem operation_readsBack {layer : Layer} {op : Operator} {hspoken : op.family.isSpoken = true}
    {left right : Term} (hlayer : layer.tightness ≤ op.family.layer.tightness)
    (hleft : ReadsBack op.family.layer left) (hright : ReadsBack op.family.layer right) :
    ReadsBack layer (.operation op hspoken left right) := by
  obtain ⟨-, htight⟩ := leftLayer_of_isSpoken hspoken
  refine ⟨fun {limit layer' t} hdepth hle ht => ?_, fun {limit layer' y} hdepth hle hy => ?_⟩
  · obtain ⟨limit, rfl⟩ := Nat.exists_eq_succ_of_ne_zero (Nat.ne_zero_of_lt hdepth)
    rw [depth] at hdepth
    have hdeeper : left.depth < limit ∧ right.depth < limit := by omega
    have hlooser := Nat.le_trans hle hlayer
    rw [text_operation]
    refine expression_of_spoken hspoken hlooser ?_ ht
    exact spoken_of_operands op left.opening.flush left.text_ne_nil right.opening.flush
      right.text_ne_nil (hleft.read hdeeper.1 (Nat.le_refl _) (ends_space htight _))
      (hright.read hdeeper.2 (Nat.le_refl _) (ht.mono hlooser))
  · obtain ⟨limit, rfl⟩ := Nat.exists_eq_succ_of_ne_zero (Nat.ne_zero_of_lt hdepth)
    rw [depth] at hdepth
    have hdeeper : left.depth < limit ∧ right.depth < limit := by omega
    have hreference : op.family.layer.tightness ≤ Layer.reference.tightness := by
      cases op <;> decide
    -- what is torn before the right operand may break off at a number of the left one only
    have hmono {o : Option Nat} {r : Reading Node} (hr : NoItem o r) :
        NoItem (o.or right.overlong?) r := by
      refine hr.mono fun count hcount => ?_
      rw [hcount, Option.some_or]
    rw [overlong?]
    cases hy with
    | phrase =>
        refine noItem_expression hle (fun op hspoken => .inl ?_) (.inl rfl) (.inl rfl)
        rcases op.eq_of_isSpoken hspoken with rfl | rfl | rfl | rfl | rfl <;> rfl
    | left hy =>
        exact hmono (noItem_operation hspoken hle
          (noItem_left hy.opening.flush (hleft.torn hdeeper.1 hreference hy)))
    | between =>
        have hread := hleft.read (t := []) hdeeper.1 (Nat.le_refl _)
          (Layer.ends_of_mark _ (.inl rfl))
        rw [List.append_nil] at hread
        exact hmono (noItem_operation hspoken hle (noItem_between left.opening.flush hread))
    | right hy =>
        refine noItem_operation hspoken hle ?_
        exact noItem_right left.opening.flush left.text_ne_nil hy.opening.flush
          (hleft.read hdeeper.1 (Nat.le_refl _) (ends_space htight _))
          (hright.torn hdeeper.2 hreference hy)

theorem Layered.readsBack {layer : Layer} {x : Term} (h : Layered layer x) : ReadsBack layer x := by
  induction h with
  | literal layer l => exact literal_readsBack layer l
  | reference name hlayer => exact reference_readsBack name hlayer
  | call name hlayer _ ih => exact call_readsBack name hlayer ih
  | operation hspoken hlayer _ _ ihleft ihright => exact operation_readsBack hlayer ihleft ihright

/-- A list of terms is read back, as the arguments of a call and as what is printed: the terms in
    their order, with what stands behind the list left over, unless a number has too many digits
    behind its comma. -/
theorem read_lists (name : CallName) {xs : List Term} (hne : xs ≠ [])
    (hlayered : ∀ x ∈ xs, Layered .arithmetic x) {limit : Nat} (hdepth : listDepth xs < limit)
    {t : Text} (ht : t = [] ∨ ∃ u, t = '!' :: u) :
    (within limit).expression .logical ("führe ".toList ++ (name.text ++ (" mit ".toList ++
        (enumeration (xs.map text) ++ (" aus".toList ++ t))))) =
      .checked (xs.findSome? overlong?) (.call (String.ofList name.text) (xs.map node)) t ∧
    Grammar.print (within limit)
        ("zeig ".toList ++ (enumeration (xs.map text) ++ (" an".toList ++ t))) =
      .checked (xs.findSome? overlong?) (.print (xs.map node)) t := by
  have hreads : ∀ x ∈ xs, ReadsBack .arithmetic x := fun x hx => (hlayered x hx).readsBack
  constructor
  · obtain ⟨limit, rfl⟩ := Nat.exists_eq_succ_of_ne_zero (Nat.ne_zero_of_lt hdepth)
    have hlist := read_list hreads hne (Nat.le_of_lt_succ hdepth) List.mem_cons_self t
    exact expression_of_call (Nat.zero_le _) (name.read_mit hlist) (Layer.ends_of_mark .logical ht)
  · have hlist := read_list hreads hne (Nat.le_of_lt hdepth)
      (List.mem_cons_of_mem _ List.mem_cons_self) t
    have hflush : Text.Flush (enumeration (xs.map text) ++ (" an".toList ++ t)) := by
      cases xs with
      | nil => exact absurd rfl hne
      | cons x xs =>
          rw [← texts_eq_map]
          exact (x.opening_enumeration xs _).flush
    rw [Grammar.print, phrase_blanks1 rfl rfl hflush]
    exact bind_checked_pure hlist

/-- The name of a function that is called. -/
def calledF : CallName :=
  ⟨"f".toList, rfl, by decide, by decide, by decide, by decide, by decide, by decide⟩

/-- A product, a call without arguments and a call with two of them. Commas, `und` and `aus` stand
    inside of the terms, too. -/
def nestedCalls : List Term :=
  let x : SlashedName := ⟨"x, y und z".toList, rfl, by decide, by decide, by decide⟩
  [.operation .multiply rfl (.reference x) (.literal (.string "a und b aus, c an".toList)),
    .call calledF [], .call calledF [.literal (.boolean true), .reference x]]

theorem nestedCalls_layered : ∀ x ∈ nestedCalls, Layered .arithmetic x := by
  refine List.forall_mem_cons.2 ⟨?_, List.forall_mem_cons.2 ⟨?_, List.forall_mem_singleton.2 ?_⟩⟩
  · exact .operation rfl (by decide) (.reference _ (by decide)) (.literal _ _)
  · exact .call _ (by decide) (List.forall_mem_nil _)
  · refine .call _ (by decide) (List.forall_mem_cons.2 ⟨.literal _ _, ?_⟩)
    exact List.forall_mem_singleton.2 (.reference _ (by decide))

theorem read_lists_nestedCalls :
    nestedCalls ≠ [] ∧ listDepth nestedCalls < depthLimit ∧
    String.ofList (enumeration (nestedCalls.map text)) =
      "das Produkt aus /x, y und z/ und \"a und b aus, c an\", führe f aus und "
        ++ "führe f mit wahr und /x, y und z/ aus" ∧
    let nodes : List Node :=
      [.operation .multiply (.reference "x, y und z") (.literal (.string "a und b aus, c an")),
        .call "f" [], .call "f" [.literal (.boolean true), .reference "x, y und z"]]
    (within depthLimit).expression .logical ("führe ".toList ++ (calledF.text ++ (" mit ".toList ++
        (enumeration (nestedCalls.map text) ++ (" aus".toList ++ ['!']))))) =
      .found (.call "f" nodes) ['!'] ∧
    Grammar.print (within depthLimit)
        ("zeig ".toList ++ (enumeration (nestedCalls.map text) ++ (" an".toList ++ ['!']))) =
      .found (.print nodes) ['!'] := by
  have hne : nestedCalls ≠ [] := List.cons_ne_nil _ _
  have hdepth : listDepth nestedCalls < depthLimit := by decide
  exact ⟨hne, hdepth, by decide +kernel,
    read_lists calledF hne nestedCalls_layered hdepth (.inr ⟨[], rfl⟩)⟩

end Term

end Surface

end Klartext
