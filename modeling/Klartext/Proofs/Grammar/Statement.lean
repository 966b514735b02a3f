import Klartext.Proofs.Grammar.Item

set_option autoImplicit false

/-! # Written statements are read back

The forms of a statement are tried one after the other, so for each of them there is something to
show about all that come before it: that they miss. Most do at the first character. A definition is
told from the operations that begin with the same article by its name, in which no word begins like
theirs, and so is a definition from a function. A function without parameters is told from one with
parameters by the ` macht` that comes before any ` kriegt ` further on.

A statement is read back if the statements nested in it are (`Statement.ReadsBack`), whatever
follows it. -/

namespace Klartext

open Reader Grammar Surface Enumeration

namespace Grammar

variable {nested : Nested} {t u : Text} {o : Option Nat} {a : Node}

theorem statement_of_flush (ht : Text.Flush t) :
    statement nested t = firstOf ((forms nested).map closed) t :=
  bind_found (blanks_flush ht)

theorem closed_missed {form : Reader Node} (h : form t = .missed) : closed form t = .missed :=
  bind_missed h

theorem closed_checked {form : Reader Node} (h : form t = .checked o a ('!' :: u)) :
    closed form t = .checked o a u := by
  have hmark : phrase "!" ('!' :: u) = .found () u := phrase_append rfl u
  refine bind_checked_found h ?_
  rw [bind_found (blanks_flush (Text.flush_cons (by decide))), bind_found hmark]
  rfl

/-- What may follow an expression: a space and a word that begins no operator. -/
theorem ends_of_word {layer : Layer} {w : Text} (hw : w ∈ ["zurück".toList, "ist?".toList])
    (t : Text) : layer.Ends (' ' :: (w ++ t)) := by
  have hnumber : EndsNumber (' ' :: (w ++ t)) :=
    EndsNumber.cons (by decide) (by decide) (by decide)
  simp only [List.mem_cons, List.not_mem_nil, or_false] at hw
  -- each of the operators is missed at its first character or its second
  rcases hw with rfl | rfl
  all_goals
    refine ⟨hnumber, fun _ => ?_, fun _ => ?_⟩
    · refine noOperator_space (Text.flush_cons (by decide)) ?_
      simp only [comparisonOperators, List.forall_mem_cons]
      exact ⟨rfl, rfl, rfl, rfl, rfl, rfl, List.forall_mem_nil _⟩
    · refine noOperator_space (Text.flush_cons (by decide)) ?_
      simp only [logicalOperators, List.forall_mem_cons]
      exact ⟨rfl, rfl, List.forall_mem_nil _⟩

end Grammar

namespace Surface

/-! ## Definitions -/

section Articles

variable (article : Article) (name : PlainName) {t : Text}

/-- A phrase that goes on with a keyword behind the article misses where a name stands. -/
theorem article_missed (ht : EndsWord t) {k : Text} (hk : k ∈ keywords) {s : String}
    {others : List Text} (hwords : Text.words s.toList = article.text :: k :: others) :
    phrase s (article.text ++ ' ' :: (name.text ++ t)) = .missed := by
  have harticle : ∀ w ∈ [article.text], Text.IsWord w := by
    intro w hw
    have hmem : w ∈ Text.words s.toList := by
      rw [hwords]
      exact List.mem_cons.2 (.inl (List.mem_singleton.1 hw))
    exact Text.isWord_of_mem_words hmem
  rw [phrase, hwords]
  exact inOrder_append_missed (by simp) harticle (name.flush t) (name.not_prefix hk ht) others

/-- No operation begins with an article and a name. -/
theorem operation_missed (ht : EndsWord t) :
    ∀ form ∈ concatForm :: arithmeticForms,
      phrase form.1 (article.text ++ ' ' :: (name.text ++ t)) = .missed := by
  have hconcat : "Verknüpfung".toList ∈ keywords := by simp [keywords]
  have hadd : "Summe".toList ∈ keywords := by simp [keywords]
  have hsubtract : "Differenz".toList ∈ keywords := by simp [keywords]
  have hmultiply : "Produkt".toList ∈ keywords := by simp [keywords]
  have hdivide : "Quotient".toList ∈ keywords := by simp [keywords]
  simp only [arithmeticForms, concatForm, List.forall_mem_cons]
  cases article with
  | der =>
      exact ⟨rfl, rfl, rfl, rfl, article_missed .der name ht hdivide rfl, List.forall_mem_nil _⟩
  | die =>
      exact ⟨article_missed .die name ht hconcat rfl, article_missed .die name ht hadd rfl,
        article_missed .die name ht hsubtract rfl, rfl, rfl, List.forall_mem_nil _⟩
  | das =>
      exact ⟨rfl, rfl, rfl, article_missed .das name ht hmultiply rfl, rfl, List.forall_mem_nil _⟩

theorem evaluation_missed_definition (ht : EndsWord t) (limit : Nat) :
    evaluation (within (limit + 1)) (article.text ++ ' ' :: (name.text ++ t)) = .missed := by
  refine bind_missed (logical_missed (operation_missed article name ht) ?_ ?_ ?_)
  all_goals cases article <;> rfl

theorem function_missed_definition (ht : EndsWord t) (nested : Nested) :
    function nested (article.text ++ ' ' :: (name.text ++ t)) = .missed := by
  have hfunction : "Funktion".toList ∈ keywords := by simp [keywords]
  refine bind_missed ?_
  cases article with
  | der => rfl
  | die => exact article_missed .die name ht hfunction rfl
  | das => rfl

end Articles

theorem Article.read (article : Article) (t : Text) :
    longestOf articles (article.text ++ ' ' :: t) = .found article.text (' ' :: t) := by
  cases article <;> rfl

/-- No name holds an exclamation mark. -/
theorem PlainName.not_holds_mark (n : PlainName) :
    ∀ s ∈ ["!".toList], Text.holds s n.text = false := by
  intro s hs
  rw [List.mem_singleton.1 hs]
  exact Text.holds_eq_false (by decide) (Text.absent_of_not_mem (n.not_mem_of_mark (by decide)))

/-! ## Forms with one expression -/

section Simple

variable {limit : Nat} (hlimit : 0 < limit) (t : Text)
include hlimit

theorem Atom.read_closed (value : Atom) :
    (within limit).expression .logical (value.text ++ '!' :: t) =
      .checked value.overlong? value.node ('!' :: t) :=
  value.read hlimit (Layer.ends_of_mark .logical (.inr ⟨t, rfl⟩))

theorem definition_written (article : Article) (name : PlainName) (value : Atom) :
    definition (within limit)
        (article.text ++ ' ' :: (name.text ++ (" ist ".toList ++ (value.text ++ '!' :: t)))) =
      .checked value.overlong? (.definition (String.ofList name.text) value.node) ('!' :: t) := by
  have hist : "ist".toList ∈ keywords := by simp [keywords]
  have hname : nameUntil " ist".toList ["!".toList]
      (name.text ++ (" ist".toList ++ ' ' :: (value.text ++ '!' :: t))) =
      .found name.text (' ' :: (value.text ++ '!' :: t)) :=
    nameUntil_append (by decide) name.text_ne_nil name.normal
      (name.absent hist (by simp [EndsWord])) name.not_holds_mark
  refine (bind_found (article.read _)).trans ?_
  refine (bind_found (blanks1_space (name.flush _))).trans ?_
  refine (bind_found hname).trans ?_
  refine (bind_found (blanks1_space (value.flush _))).trans ?_
  exact bind_checked_pure (value.read_closed hlimit t)

theorem giveBack_written (value : Atom) :
    giveBack (within limit) ("gib ".toList ++ (value.text ++ (" zurück".toList ++ '!' :: t))) =
      .checked value.overlong? (.giveBack value.node) ('!' :: t) := by
  have hflush : Text.Flush ("zurück".toList ++ '!' :: t) := Text.flush_cons (by decide)
  have hvalue : (within limit).expression .logical (value.text ++ (" zurück".toList ++ '!' :: t)) =
      .checked value.overlong? value.node (" zurück".toList ++ '!' :: t) :=
    value.read hlimit (ends_of_word List.mem_cons_self ('!' :: t))
  rw [giveBack, phrase_blanks1 rfl rfl (value.flush _)]
  refine bind_checked_found hvalue ?_
  rw [blanks1_phrase rfl rfl hflush]
  rfl

end Simple

theorem print_written {limit : Nat} (first : Atom) {others : List Atom}
    (hlength : (first :: others).length ≤ limit) (t : Text) :
    print (within limit)
        ("zeig ".toList ++ (enumeration ((first :: others).map Atom.text) ++ (" an".toList ++ t))) =
      .checked ((first :: others).findSome? Atom.overlong?)
        (.print ((first :: others).map Atom.node)) t := by
  have hflush :
      Text.Flush (enumeration ((first :: others).map Atom.text) ++ (" an".toList ++ t)) := by
    rw [List.map_cons, enumeration, List.append_assoc]
    exact first.flush _
  rw [print, phrase_blanks1 rfl rfl hflush]
  exact bind_checked_pure (read_atoms (List.cons_ne_nil first others) hlength t)

/-! ## Blocks -/

namespace Statement

/-- A statement is read back, within every limit that its nesting stays below. -/
def ReadsBack (s : Statement) : Prop :=
  ∀ limit, s.depth < limit → ∀ t,
    (within limit).statement (s.form ++ '!' :: t) = .checked s.overlong? s.node t

/-- The phrases that close a block. -/
def closings : List String := ["und endet hier", "oder"]

/-- A statement begins neither with whitespace nor as a closing phrase does. -/
theorem head (s : Statement) : ∃ c u, s.form = c :: u ∧ isBlank c = false ∧ c ∉ ['u', 'o'] := by
  cases s with
  | evaluation value =>
      obtain ⟨c, u, htext, hc⟩ := value.opening
      refine ⟨c, u, htext, not_isBlank_of_opens hc, ?_⟩
      intro hmem
      have hnot : ∀ c ∈ ['u', 'o'], opens c = false :=
        List.forall_mem_cons.2 ⟨rfl, List.forall_mem_singleton.2 rfl⟩
      rw [hnot c hmem] at hc
      cases hc
  | definition article name value =>
      cases article <;> exact ⟨'d', _, rfl, by decide, by decide⟩
  | function name parameters body => exact ⟨'d', _, rfl, by decide, by decide⟩
  | giveBack value => exact ⟨'g', _, rfl, by decide, by decide⟩
  | print first others => exact ⟨'z', _, rfl, by decide, by decide⟩
  | conditional first others otherwise => exact ⟨'s', _, rfl, by decide, by decide⟩

theorem flush (s : Statement) (t : Text) : Text.Flush (s.form ++ t) := by
  obtain ⟨c, u, hform, hblank, _⟩ := s.head
  rw [hform]
  exact Text.flush_cons hblank

theorem closing_missed (s : Statement) {closing : String} (hclosing : closing ∈ closings)
    (t : Text) : phrase closing (s.form ++ t) = .missed := by
  obtain ⟨c, u, hform, _, hc⟩ := s.head
  simp only [List.mem_cons, List.not_mem_nil, or_false, not_or] at hc
  rw [hform]
  simp only [closings, List.mem_cons, List.not_mem_nil, or_false] at hclosing
  rcases hclosing with rfl | rfl
  · exact phrase_missed rfl fun h => hc.1 (List.cons_prefix_cons.1 h).1.symm
  · exact phrase_missed rfl fun h => hc.2 (List.cons_prefix_cons.1 h).1.symm

theorem closing_normal {closing : String} (hclosing : closing ∈ closings) :
    Text.normalize closing.toList = closing.toList := by
  simp only [closings, List.mem_cons, List.not_mem_nil, or_false] at hclosing
  rcases hclosing with rfl | rfl <;> rfl

theorem closing_flush {closing : String} (hclosing : closing ∈ closings) (t : Text) :
    Text.Flush (closing.toList ++ t) := by
  simp only [closings, List.mem_cons, List.not_mem_nil, or_false] at hclosing
  rcases hclosing with rfl | rfl <;> exact Text.flush_cons (by decide)

theorem length_le_block (ss : List Statement) : ss.length ≤ (block ss).length := by
  induction ss with
  | nil => exact Nat.zero_le _
  | cons s ss ih =>
      rw [block_cons]
      simp only [List.length_cons, List.length_append]
      omega

theorem go_written {closing : String} (hclosing : closing ∈ closings) {ss : List Statement}
    (hread : ∀ s ∈ ss, s.ReadsBack) {limit : Nat} (hdepth : depths ss < limit) {bound : Nat}
    (hbound : ss.length < bound) (t : Text) :
    manyUntil.go (within limit).statement closing bound
        (block ss ++ ' ' :: (closing.toList ++ t)) =
      .checked (overlongs? ss) (nodes ss) t := by
  induction ss generalizing bound with
  | nil =>
      obtain ⟨bound, rfl⟩ := Nat.exists_eq_succ_of_ne_zero (Nat.ne_zero_of_lt hbound)
      refine (bind_found (blanks_space (closing_flush hclosing t))).trans ?_
      exact orElse_of_checked (o := none) (bind_found (phrase_append (closing_normal hclosing) t))
  | cons s ss ih =>
      obtain ⟨bound, rfl⟩ := Nat.exists_eq_succ_of_ne_zero (Nat.ne_zero_of_lt hbound)
      rw [depths, Nat.max_lt] at hdepth
      have hrest := ih (fun s' hs' => hread s' (List.mem_cons_of_mem s hs')) hdepth.2
        (Nat.lt_of_succ_lt_succ hbound)
      rw [block_cons, List.cons_append, List.append_assoc, List.cons_append]
      refine (bind_found (blanks_space (s.flush _))).trans ?_
      refine (orElse_of_missed (bind_missed (s.closing_missed hclosing _))).trans ?_
      exact bind_checked (hread s List.mem_cons_self limit hdepth.1 _) (bind_checked_pure hrest)

/-- The statements of a block are read up to its closing phrase. -/
theorem manyUntil_written {closing : String} (hclosing : closing ∈ closings) {ss : List Statement}
    (hread : ∀ s ∈ ss, s.ReadsBack) {limit : Nat} (hdepth : depths ss < limit) (t : Text) :
    manyUntil (within limit).statement closing (block ss ++ ' ' :: (closing.toList ++ t)) =
      .checked (overlongs? ss) (nodes ss) t := by
  refine go_written hclosing hread hdepth ?_ t
  have hlength := length_le_block ss
  rw [List.length_append]
  omega

end Statement

/-! ## Functions -/

/-- The name and the parameters of a function are read up to the body. -/
theorem signature_written (name : PlainName) {ps : List PlainName} {room : Nat}
    (hlength : ps.length ≤ room + 1) (t : Text) :
    signature room (name.text ++ (Statement.parameterText ps ++ t)) =
      .found (name.text, ps.map PlainName.text) t := by
  have hkriegt : "kriegt".toList ∈ keywords := by simp [keywords]
  have hmacht : "macht".toList ∈ keywords := by simp [keywords]
  cases ps with
  | nil =>
      -- a ` kriegt ` further on comes too late
      have hbehind : Text.Absent " kriegt ".toList " macht".toList t := by
        refine Text.absent_cons (fun h => ?_) (Text.absent_of_not_mem (by decide))
        exact absurd (List.cons_prefix_cons.1 (List.cons_prefix_cons.1 h).2).1 (by decide)
      have habsent : Text.Absent " kriegt ".toList (name.text ++ " macht".toList) t :=
        ((name.absent hkriegt (by simp [EndsWord])).longer " ".toList).append hbehind
      have hmissed : nameUntil " kriegt ".toList [" macht".toList, "!".toList]
          (name.text ++ (" macht".toList ++ t)) = .missed :=
        nameUntil_excluded List.mem_cons_self habsent
      have hname : nameUntil " macht".toList ["!".toList] (name.text ++ (" macht".toList ++ t)) =
          .found name.text t :=
        nameUntil_append (by decide) name.text_ne_nil name.normal
          (name.absent hmacht (by simp [EndsWord])) name.not_holds_mark
      refine (orElse_of_missed (bind_missed hmissed)).trans ?_
      exact bind_found hname
  | cons first others =>
      have hexcluded : ∀ s ∈ [" macht".toList, "!".toList], Text.holds s name.text = false :=
        List.forall_mem_cons.2
          ⟨Text.holds_eq_false (by decide) (name.absent hmacht endsWord_nil), name.not_holds_mark⟩
      have hname : nameUntil " kriegt ".toList [" macht".toList, "!".toList]
          (name.text ++ (" kriegt ".toList ++
            (enumeration ((first :: others).map PlainName.text) ++ (" und macht".toList ++ t)))) =
          .found name.text
            (enumeration ((first :: others).map PlainName.text) ++ (" und macht".toList ++ t)) :=
        nameUntil_append (by decide) name.text_ne_nil name.normal
          ((name.absent hkriegt (by simp [EndsWord])).longer " ".toList) hexcluded
      have hparameters := read_parameters (List.cons_ne_nil first others) hlength t
      have htext : Statement.parameterText (first :: others) ++ t = " kriegt ".toList ++
          (enumeration ((first :: others).map PlainName.text) ++ (" und macht".toList ++ t)) :=
        (List.append_assoc _ _ t).trans (congrArg _ (List.append_assoc _ _ t))
      rw [htext]
      refine orElse_of_checked (o := none) ((bind_found hname).trans ?_)
      exact bind_found hparameters

theorem function_written (name : PlainName) {ps : List PlainName} {body : List Statement}
    {limit : Nat} (hlength : ps.length ≤ limit + 1) (hread : ∀ s ∈ body, s.ReadsBack)
    (hdepth : Statement.depths body < limit) (t : Text) :
    function (within limit) ("die Funktion ".toList ++ (name.text ++ (Statement.parameterText ps ++
        (Statement.block body ++ (" und endet hier".toList ++ t))))) =
      .checked (Statement.overlongs? body) (.function (String.ofList name.text)
        (ps.map fun p => String.ofList p.text) (Statement.nodes body)) t := by
  have hclosing : "und endet hier" ∈ Statement.closings := List.mem_cons_self
  have hroom : ps.length ≤ (within limit).room + 1 := by rwa [within_room]
  have hbody : manyUntil (within limit).statement "und endet hier"
      (Statement.block body ++ (" und endet hier".toList ++ t)) =
      .checked (Statement.overlongs? body) (Statement.nodes body) t :=
    Statement.manyUntil_written hclosing hread hdepth t
  rw [function, phrase_blanks1 rfl rfl (name.flush _),
    bind_found (signature_written name hroom _)]
  refine (bind_checked_pure hbody).trans ?_
  rw [List.map_map]
  rfl

/-! ## Conditionals -/

section Conditionals

variable {limit : Nat}

theorem clause_written (hlimit : 0 < limit) (condition : Atom) (t : Text) :
    clause (within limit) ("dass ".toList ++ (condition.text ++ (" ist?".toList ++ t))) =
      .checked condition.overlong? condition.node t := by
  have hword : "ist?".toList ∈ ["zurück".toList, "ist?".toList] :=
    List.mem_cons_of_mem _ List.mem_cons_self
  have hcondition : (within limit).expression .logical (condition.text ++ (" ist?".toList ++ t)) =
      .checked condition.overlong? condition.node (" ist".toList ++ '?' :: t) :=
    condition.read hlimit (ends_of_word hword t)
  have hist : Text.Flush ("ist".toList ++ '?' :: t) := Text.flush_cons (by decide)
  have hmark : phrase "?" ('?' :: t) = .found () t := phrase_append rfl t
  rw [clause, phrase_blanks1 rfl rfl (condition.flush _)]
  refine bind_checked_found hcondition ?_
  rw [blanks1_phrase rfl rfl hist, bind_found (blanks_flush (Text.flush_cons (by decide))),
    bind_found hmark]
  rfl

theorem body_written {ss : List Statement} (hread : ∀ s ∈ ss, s.ReadsBack)
    (hdepth : Statement.depths ss < limit) (t : Text) :
    body (within limit) (Statement.block ss ++ (" oder".toList ++ t)) =
      .checked (Statement.overlongs? ss) (Statement.nodes ss) t := by
  have hclosing : "oder" ∈ Statement.closings := by simp [Statement.closings]
  exact Statement.manyUntil_written hclosing hread hdepth t

theorem elseIf_written (hlimit : 0 < limit) {g : Guarded Statement}
    (hread : ∀ s ∈ g.body, s.ReadsBack) (hdepth : Statement.guardedDepth g < limit) (t : Text) :
    elseIf (within limit) (" doch, ".toList ++ (Statement.guarded g ++ t)) =
      .checked (Statement.guardedOverlong? g) (Statement.guardedNode g) t := by
  obtain ⟨condition, ss⟩ := g
  have hdoch (u : Text) : Text.Flush ("doch,".toList ++ u) := Text.flush_cons (by decide)
  have hdass (u : Text) : Text.Flush ("dass ".toList ++ u) := Text.flush_cons (by decide)
  have hspace : " doch, ".toList = " doch,".toList ++ [' '] := rfl
  rw [Statement.guarded_append, elseIf, hspace, List.append_assoc,
    blanks1_phrase rfl rfl (hdoch _), List.singleton_append, bind_found (blanks1_space (hdass _))]
  refine bind_checked (clause_written hlimit condition _) ?_
  exact bind_checked_pure (body_written hread hdepth t)

theorem length_lt_append {a : Text} (hne : a ≠ []) (b t : Text) :
    t.length < (a ++ (b ++ t)).length := by
  have hpos := List.length_pos_iff.2 hne
  rw [List.length_append, List.length_append]
  omega

theorem length_le_branches (gs : List (Guarded Statement)) :
    gs.length ≤ (Statement.branches gs).length := by
  induction gs with
  | nil => exact Nat.zero_le _
  | cons g gs ih => exact Nat.lt_of_le_of_lt ih (length_lt_append (by decide) _ _)

theorem upTo_branches (hlimit : 0 < limit) {gs : List (Guarded Statement)}
    (hread : ∀ g ∈ gs, ∀ s ∈ g.body, s.ReadsBack) (hdepth : Statement.branchDepths gs < limit)
    {bound : Nat} (hbound : gs.length ≤ bound) {t : Text}
    (hend : elseIf (within limit) t = .missed) :
    upTo (elseIf (within limit)) bound (Statement.branches gs ++ t) =
      .checked (Statement.branchesOverlong? gs) (Statement.branchNodes gs) t := by
  induction gs generalizing bound with
  | nil =>
      rw [Statement.branches_nil, List.nil_append, upTo_of_missed hend]
      rfl
  | cons g gs ih =>
      obtain ⟨bound, rfl⟩ : ∃ n, bound = n + 1 := ⟨bound - 1, by simp at hbound; omega⟩
      rw [Statement.branchDepths, Nat.max_lt] at hdepth
      have hfirst := elseIf_written hlimit (hread g List.mem_cons_self) hdepth.1
        (Statement.branches gs ++ t)
      have hrest := ih (fun g' hg' => hread g' (List.mem_cons_of_mem g hg')) hdepth.2
        (Nat.le_of_succ_le_succ hbound)
      rw [Statement.branches_cons, List.append_assoc, List.append_assoc]
      exact upTo_of_checked hfirst (length_lt_append (by decide) _ _) hrest

/-- An `else` branch is read up to its `oder`, and none where none stands. -/
theorem otherwise_written {ss : Option (List Statement)}
    (hread : ∀ body ∈ ss, ∀ s ∈ body, s.ReadsBack) (hdepth : Statement.otherwiseDepth ss < limit)
    (t : Text) :
    optional (otherwise (within limit)) (Statement.otherwiseText ss ++ '?' :: t) =
      .checked (Statement.otherwiseOverlong? ss) (Statement.otherwiseNodes ss) ('?' :: t) := by
  cases ss with
  | none => rfl
  | some ss =>
      have hnicht (u : Text) : Text.Flush ("nicht?".toList ++ u) := Text.flush_cons (by decide)
      have htext : Statement.otherwiseText (some ss) ++ '?' :: t =
          " nicht?".toList ++ (Statement.block ss ++ (" oder".toList ++ '?' :: t)) :=
        (List.append_assoc _ _ _).trans (congrArg _ (List.append_assoc _ _ _))
      rw [htext]
      refine optional_of_checked ?_
      rw [otherwise, blanks1_phrase rfl rfl (hnicht _)]
      exact body_written (hread ss rfl) hdepth ('?' :: t)

theorem elseIf_missed (ss : Option (List Statement)) (t : Text) :
    elseIf (within limit) (Statement.otherwiseText ss ++ '?' :: t) = .missed := by
  cases ss <;> rfl

theorem conditional_written (hlimit : 0 < limit) {first : Guarded Statement}
    {others : List (Guarded Statement)} {ss : Option (List Statement)}
    (hfirst : ∀ s ∈ first.body, s.ReadsBack) (hothers : ∀ g ∈ others, ∀ s ∈ g.body, s.ReadsBack)
    (hotherwise : ∀ body ∈ ss, ∀ s ∈ body, s.ReadsBack)
    (hdepth : (Statement.conditional first others ss).depth ≤ limit) (t : Text) :
    conditional (within limit) ("stimmt, ".toList ++ (Statement.guarded first ++
        (Statement.branches others ++ (Statement.otherwiseText ss ++ '?' :: t)))) =
      .checked (Statement.conditional first others ss).overlong?
        (Statement.conditional first others ss).node t := by
  rw [Statement.depth, Nat.succ_le_iff, Nat.max_lt, Nat.max_lt] at hdepth
  obtain ⟨hdepthFirst, hdepthOthers, hdepthOtherwise⟩ := hdepth
  obtain ⟨condition, body⟩ := first
  have hdass (u : Text) : Text.Flush ("dass ".toList ++ u) := Text.flush_cons (by decide)
  have hmark : phrase "?" ('?' :: t) = .found () t := phrase_append rfl t
  have hmany : many (elseIf (within limit))
      (Statement.branches others ++ (Statement.otherwiseText ss ++ '?' :: t)) =
      .checked (Statement.branchesOverlong? others) (Statement.branchNodes others)
        (Statement.otherwiseText ss ++ '?' :: t) := by
    refine upTo_branches hlimit hothers hdepthOthers ?_ (elseIf_missed ss t)
    have hlength := length_le_branches others
    rw [List.length_append]
    omega
  have hoverlong : (Statement.conditional ⟨condition, body⟩ others ss).overlong? =
      condition.overlong?.or ((Statement.overlongs? body).or
        ((Statement.branchesOverlong? others).or (Statement.otherwiseOverlong? ss))) :=
    Option.or_assoc
  have hnode : (Statement.conditional ⟨condition, body⟩ others ss).node =
      .conditional ⟨condition.node, Statement.nodes body⟩ (Statement.branchNodes others)
        (Statement.otherwiseNodes ss) := rfl
  -- the parts in their order; the number with too many digits is the first one among them
  rw [Statement.guarded_append, hoverlong, hnode, conditional, phrase_blanks1 rfl rfl (hdass _)]
  refine bind_checked (clause_written hlimit condition _) ?_
  refine bind_checked (body_written hfirst hdepthFirst _) ?_
  refine bind_checked hmany ?_
  refine bind_checked_found (otherwise_written hotherwise hdepthOtherwise t) ?_
  rw [bind_found hmark]
  rfl

end Conditionals

end Surface

end Klartext
