import Klartext.Proofs.Grammar.Statement

set_option autoImplicit false

/-! # Written programs are read back

Statement by statement, by induction on how statements are nested: a statement is read by the form
that it is written in, whatever follows it, once all forms that are tried before that one miss. -/

namespace Klartext

open Reader Grammar Surface

namespace Surface

namespace Statement

/-! ## From forms to statements -/

/-- A statement is read by its form if the forms before that one miss. -/
theorem read_of_form (s : Statement) {limit : Nat} (before : List (Reader Node))
    {after : List (Reader Node)} {reader : Reader Node}
    (hforms : forms (within limit) = before ++ reader :: after) {t : Text}
    (hbefore : ∀ r ∈ before, r (s.form ++ '!' :: t) = .missed) {o : Option Nat} {a : Node}
    (hread : reader (s.form ++ '!' :: t) = .checked o a ('!' :: t)) :
    (within (limit + 1)).statement (s.form ++ '!' :: t) = .checked o a t := by
  have hmissed : ∀ r ∈ before.map closed, r (s.form ++ '!' :: t) = .missed := by
    intro r hr
    obtain ⟨form, hform, rfl⟩ := List.mem_map.1 hr
    exact closed_missed (hbefore form hform)
  refine (statement_of_flush (s.flush _)).trans ?_
  rw [hforms, List.map_append, List.map_cons]
  exact firstOf_append_of_checked hmissed (closed_checked hread)

theorem depth_pos (s : Statement) : 0 < s.depth := by
  cases s with
  | function name parameters body =>
      rw [depth]
      omega
  | _ => exact Nat.succ_pos _

/-- A limit that the nesting of a statement stays below leaves room for expressions. -/
theorem exists_of_depth_lt {s : Statement} {limit : Nat} (h : s.depth < limit) :
    ∃ n, limit = n + 2 := by
  have hpos := s.depth_pos
  exact ⟨limit - 2, by omega⟩

theorem evaluation_readsBack (value : Atom) : (evaluation value).ReadsBack := by
  intro limit hdepth t
  obtain ⟨limit, rfl⟩ : ∃ n, limit = n + 2 := exists_of_depth_lt hdepth
  exact read_of_form (evaluation value) [] rfl (List.forall_mem_nil _)
    (bind_checked_pure (value.read_closed (Nat.succ_pos limit) t))

theorem definition_readsBack (article : Article) (name : PlainName) (value : Atom) :
    (definition article name value).ReadsBack := by
  intro limit hdepth t
  obtain ⟨limit, rfl⟩ : ∃ n, limit = n + 2 := exists_of_depth_lt hdepth
  refine read_of_form _ [Grammar.evaluation _, Grammar.conditional _, Grammar.function _] rfl ?_ ?_
  · have hends (u : Text) : EndsWord (" ist ".toList ++ u) := by simp [EndsWord]
    rw [form_definition, List.append_assoc, List.cons_append, List.append_assoc, List.append_assoc]
    simp only [List.forall_mem_cons]
    refine ⟨evaluation_missed_definition article name (hends _) limit, ?_,
      function_missed_definition article name (hends _) _, List.forall_mem_nil _⟩
    cases article <;> rfl
  · rw [form_definition, List.append_assoc, List.cons_append, List.append_assoc, List.append_assoc]
    exact definition_written (Nat.succ_pos limit) t article name value

theorem giveBack_readsBack (value : Atom) : (giveBack value).ReadsBack := by
  intro limit hdepth t
  obtain ⟨limit, rfl⟩ : ∃ n, limit = n + 2 := exists_of_depth_lt hdepth
  refine read_of_form _ [Grammar.evaluation _, Grammar.conditional _, Grammar.function _,
    Grammar.definition _] rfl ?_ ?_
  · simp only [List.forall_mem_cons]
    exact ⟨rfl, rfl, rfl, rfl, List.forall_mem_nil _⟩
  · rw [form_giveBack, List.append_assoc, List.append_assoc]
    exact giveBack_written (Nat.succ_pos limit) t value

theorem print_readsBack (first : Atom) (others : List Atom) : (print first others).ReadsBack := by
  intro limit hdepth t
  obtain ⟨limit, rfl⟩ : ∃ n, limit = n + 2 := exists_of_depth_lt hdepth
  refine read_of_form _ [Grammar.evaluation _, Grammar.conditional _, Grammar.function _,
    Grammar.definition _, Grammar.giveBack _] rfl ?_ ?_
  · simp only [List.forall_mem_cons]
    exact ⟨rfl, rfl, rfl, rfl, rfl, List.forall_mem_nil _⟩
  · rw [form_print, List.append_assoc, List.append_assoc]
    exact print_written first (Nat.le_of_lt_succ hdepth) _

theorem function_readsBack (name : PlainName) {parameters : List PlainName}
    {body : List Statement} (hbody : ∀ s ∈ body, s.ReadsBack) :
    (function name parameters body).ReadsBack := by
  intro limit hdepth t
  obtain ⟨limit, rfl⟩ : ∃ n, limit = n + 2 := exists_of_depth_lt hdepth
  rw [depth, Nat.max_lt] at hdepth
  refine read_of_form _ [Grammar.evaluation _, Grammar.conditional _] rfl ?_ ?_
  · simp only [List.forall_mem_cons]
    exact ⟨rfl, rfl, List.forall_mem_nil _⟩
  · rw [form_function, List.append_assoc, List.append_assoc, List.append_assoc, List.append_assoc]
    exact function_written name (Nat.le_of_lt hdepth.1) hbody (Nat.lt_of_succ_lt_succ hdepth.2) _

theorem conditional_readsBack {first : Guarded Statement} {others : List (Guarded Statement)}
    {otherwise : Option (List Statement)} (hfirst : ∀ s ∈ first.body, s.ReadsBack)
    (hothers : ∀ g ∈ others, ∀ s ∈ g.body, s.ReadsBack)
    (hotherwise : ∀ body ∈ otherwise, ∀ s ∈ body, s.ReadsBack) :
    (conditional first others otherwise).ReadsBack := by
  intro limit hdepth t
  obtain ⟨limit, rfl⟩ : ∃ n, limit = n + 2 := exists_of_depth_lt hdepth
  refine read_of_form _ [Grammar.evaluation _] rfl ?_ ?_
  · simp only [List.forall_mem_cons]
    exact ⟨rfl, List.forall_mem_nil _⟩
  · rw [form_conditional, List.append_assoc, List.append_assoc, List.append_assoc,
      List.append_assoc]
    exact conditional_written (Nat.succ_pos limit) hfirst hothers hotherwise
      (Nat.le_of_lt_succ hdepth) _

/-! ## All statements -/

mutual

theorem readsBack : (s : Statement) → s.ReadsBack
  | .evaluation value => evaluation_readsBack value
  | .definition article name value => definition_readsBack article name value
  | .function name _ body => function_readsBack name (block_readsBack body)
  | .giveBack value => giveBack_readsBack value
  | .print first others => print_readsBack first others
  | .conditional first others otherwise =>
    conditional_readsBack (guarded_readsBack first) (branches_readBack others)
      (otherwise_readsBack otherwise)

theorem block_readsBack : (ss : List Statement) → ∀ s ∈ ss, s.ReadsBack
  | [] => List.forall_mem_nil _
  | s :: ss => List.forall_mem_cons.2 ⟨readsBack s, block_readsBack ss⟩

theorem guarded_readsBack : (g : Guarded Statement) → ∀ s ∈ g.body, s.ReadsBack
  | ⟨_, body⟩ => block_readsBack body

theorem branches_readBack :
    (gs : List (Guarded Statement)) → ∀ g ∈ gs, ∀ s ∈ g.body, s.ReadsBack
  | [] => List.forall_mem_nil _
  | g :: gs => List.forall_mem_cons.2 ⟨guarded_readsBack g, branches_readBack gs⟩

theorem otherwise_readsBack :
    (otherwise : Option (List Statement)) → ∀ body ∈ otherwise, ∀ s ∈ body, s.ReadsBack
  | none => fun _ h => nomatch h
  | some ss => fun body h => by
    cases h
    exact block_readsBack ss

end

/-! ## Programs -/

/-- The first statement of a program stands at its front, the others form a block. -/
theorem program_cons (s : Statement) (ss : List Statement) :
    program (s :: ss) = s.form ++ '!' :: block ss := by
  induction ss generalizing s with
  | nil => rfl
  | cons s' ss ih =>
      have hne : (s' :: ss).map (fun s => s.form ++ ['!']) ≠ [] := List.cons_ne_nil _ _
      have hrest : program (s' :: ss) =
          Text.joinWith [' '] ((s' :: ss).map fun s => s.form ++ ['!']) := rfl
      rw [program, List.map_cons, Text.joinWith_cons hne, ← hrest, ih, block_cons]
      simp only [List.append_assoc, List.cons_append, List.nil_append]

/-- Whitespace before a statement is skipped. -/
theorem statement_space (s : Statement) (limit : Nat) (t : Text) :
    (within (limit + 1)).statement (' ' :: (s.form ++ t)) =
      (within (limit + 1)).statement (s.form ++ t) :=
  (bind_found (blanks_space (s.flush t))).trans (statement_of_flush (s.flush t)).symm

/-- One more statement before statements that are read back. -/
theorem upTo_cons {limit bound : Nat} {s : Statement} {ss : List Statement} {t : Text}
    (hfirst : (within limit).statement t = .checked s.overlong? s.node (block ss))
    (hlength : (block ss).length < t.length)
    (hrest : upTo (within limit).statement bound (block ss) =
      .checked (ss.findSome? overlong?) (ss.map node) []) :
    upTo (within limit).statement (bound + 1) t =
      .checked ((s :: ss).findSome? overlong?) ((s :: ss).map node) [] := by
  rw [upTo_of_checked hfirst hlength hrest, ← List.map_cons, List.findSome?_cons]
  cases s.overlong? <;> rfl

theorem upTo_block {limit : Nat} (hlimit : 1 < limit) {ss : List Statement}
    (hdepth : ∀ s ∈ ss, s.depth < limit) {bound : Nat} (hbound : ss.length ≤ bound) :
    upTo (within limit).statement bound (block ss) =
      .checked (ss.findSome? overlong?) (ss.map node) [] := by
  obtain ⟨limit, rfl⟩ : ∃ n, limit = n + 2 := ⟨limit - 2, by omega⟩
  induction ss generalizing bound with
  | nil => exact upTo_of_missed rfl bound
  | cons s ss ih =>
      obtain ⟨hs, hss⟩ := List.forall_mem_cons.1 hdepth
      cases bound with
      | zero => cases hbound
      | succ bound =>
          have hfirst := (statement_space s (limit + 1) _).trans (readsBack s _ hs (block ss))
          rw [block_cons]
          refine upTo_cons hfirst ?_ (ih (Nat.le_of_succ_le_succ hbound) hss)
          simp only [List.length_cons, List.length_append]
          omega

/-- A program of a single statement is read back. -/
theorem program_singleton {limit : Nat} (hlimit : 1 < limit) (s : Statement)
    (hdepth : s.depth < limit) :
    Grammar.program limit (program [s]) = .checked ([s].findSome? overlong?) [s.node] [] := by
  have hlength : (block []).length < (s.form ++ '!' :: block []).length := by
    rw [List.length_append]
    exact Nat.lt_add_left _ (Nat.lt_succ_self _)
  rw [program_cons, Grammar.program, many]
  exact upTo_cons (readsBack s limit hdepth (block [])) hlength
    (upTo_block hlimit (List.forall_mem_nil _) (Nat.zero_le _))

/-- A written program is read back: its statements in their order, with nothing left over, unless a
    number has too many digits behind its comma. An empty `nicht?` branch is told from none. -/
theorem read_program {limit : Nat} (hlimit : 1 < limit) {ss : List Statement}
    (hdepth : ∀ s ∈ ss, s.depth < limit) :
    Grammar.program limit (program ss) = .checked (ss.findSome? overlong?) (ss.map node) [] ∧
    ∀ first others,
      (conditional first others none).node ≠ (conditional first others (some [])).node := by
  refine ⟨?_, fun first others h => by cases h⟩
  cases ss with
  | nil => exact upTo_block hlimit hdepth (Nat.zero_le _)
  | cons s ss =>
      obtain ⟨hs, hss⟩ := List.forall_mem_cons.1 hdepth
      have hlength : (block ss).length < (s.form ++ '!' :: block ss).length := by
        simp only [List.length_cons, List.length_append]
        omega
      have hbound : ss.length ≤ (s.form ++ '!' :: block ss).length :=
        Nat.le_trans (length_le_block ss) (Nat.le_of_lt hlength)
      rw [Grammar.program, program_cons]
      exact upTo_cons (readsBack s limit hs (block ss)) hlength (upTo_block hlimit hss hbound)

/-- A function with two parameters and a conditional whose `nicht?` branch is empty. -/
def choice : Statement :=
  let x : PlainName := ⟨["x".toList], by decide, by decide⟩
  let y : PlainName := ⟨["der".toList, "Rest".toList], by decide, by decide⟩
  .function ⟨["Wahl".toList], by decide, by decide⟩ [x, y]
    [.conditional ⟨.reference x, [.print (.reference y) [.literal (.string "und, an".toList)]]⟩ []
      (some []),
      .giveBack (.literal .null)]

theorem read_program_choice :
    1 < depthLimit ∧ (∀ s ∈ [choice], s.depth < depthLimit) ∧
    String.ofList (program [choice]) =
      "die Funktion Wahl kriegt x und der Rest und macht stimmt, dass /x/ ist? "
        ++ "zeig /der Rest/ und \"und, an\" an! oder nicht? oder?! gib nix zurück! "
        ++ "und endet hier!" ∧
    Grammar.program depthLimit (program [choice]) =
      .found [.function "Wahl" ["x", "der Rest"]
        [.conditional
            ⟨.reference "x", [.print [.reference "der Rest", .literal (.string "und, an")]]⟩
            [] (some []),
          .giveBack (.literal .null)]] [] := by
  have hdepth : ∀ s ∈ [choice], s.depth < depthLimit := by decide
  exact ⟨by decide, hdepth, by decide +kernel, (read_program (by decide) hdepth).1⟩

end Statement

end Surface

end Klartext
