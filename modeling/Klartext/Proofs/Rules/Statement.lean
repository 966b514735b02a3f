import Klartext.Grammar.Nesting
import Klartext.Proofs.Rules.Expression

set_option autoImplicit false

/-! # Statements are read by the rules

What the forms of a statement take off a text, and then what statements and expressions take that
are nested to any depth: the knot is tied level by level, and so is the proof. -/

namespace Klartext

open Reader Rules

namespace Grammar

variable {nested : Nested}

/-! ## Blocks and conditions -/

/-- The statements of a block with the phrase that closes it. -/
theorem reads_block (h : nested.Reads) (closing : String) :
    Reads (fun nodes u => Sentence (.block closing nodes) u)
      (manyUntil nested.statement closing) := by
  refine h.statement.manyUntil (fun hblank hu => .done hblank hu) fun hblank hu hv => ?_
  obtain ⟨blank', u, rfl, hblank', hu⟩ := hu
  -- the whitespace before a statement and the whitespace of the block go together
  rw [List.append_assoc, ← List.append_assoc]
  exact .next (Text.isBlank_append.2 ⟨hblank, hblank'⟩) hu hv

theorem reads_clause (h : nested.Reads) : Reads Clause (clause nested) := by
  refine (reads_word rfl).bind fun _ dass hdass => reads_blanks1.bind fun _ gap hgap =>
    (h.expression .logical).bind fun condition t ht => reads_blanks1.bind fun _ gap' hgap' =>
    (reads_word rfl).bind fun _ ist hist => reads_blanks.bind fun _ blank hblank =>
    (reads_word rfl).bind fun _ mark hmark => reads_pure ?_
  rw [hdass, hist, hmark, List.append_nil]
  exact .mk hgap ht hgap' hblank

theorem reads_elseIf (h : nested.Reads) :
    Reads (fun branch u => ∃ gap gap' t, u = gap ++ ("doch,".toList ++ (gap' ++ t)) ∧ IsGap gap ∧
      IsGap gap' ∧ Sentence (.guarded branch) t) (elseIf nested) := by
  refine reads_blanks1.bind fun _ gap hgap => (reads_word rfl).bind fun _ doch hdoch =>
    reads_blanks1.bind fun _ gap' hgap' => (reads_clause h).bind fun condition t ht =>
    (reads_block h "oder").bind fun body u hu => reads_pure ?_
  rw [hdoch, List.append_nil]
  exact ⟨gap, gap', t ++ u, rfl, hgap, hgap', .guarded ht hu⟩

theorem reads_otherwise (h : nested.Reads) :
    Reads (fun body u => Sentence (.otherwise (some body)) u) (otherwise nested) := by
  refine reads_blanks1.bind fun _ gap hgap => (reads_word rfl).bind fun _ nicht hnicht =>
    (reads_block h "oder").mono fun body u hu => ?_
  rw [hnicht]
  exact .otherwise hgap hu

/-! ## Forms -/

theorem reads_evaluation (h : nested.Reads) :
    Reads (fun node u => Sentence (.form node) u) (evaluation nested) := by
  refine (h.expression .logical).bind fun value u hu => reads_pure ?_
  rw [List.append_nil]
  exact .evaluation hu

theorem reads_definition (h : nested.Reads) :
    Reads (fun node u => Sentence (.form node) u) (definition nested) := by
  refine (reads_longestOf articles).bind fun _ article harticle =>
    reads_blanks1.bind fun _ gap hgap => (reads_nameUntil _ (by decide)).bind fun name v hname =>
    reads_blanks1.bind fun _ gap' hgap' => (h.expression .logical).bind fun value t ht =>
    reads_pure ?_
  obtain ⟨raw, rfl, hname⟩ := hname
  rw [List.append_nil, List.append_assoc]
  exact .definition harticle hgap hname hgap' ht

theorem reads_signature (room : Nat) :
    Reads (fun parts u => Signature (String.ofList parts.1) (parts.2.map String.ofList) u)
      (signature room) := by
  refine Reads.orElse ?_ ?_
  · refine (reads_nameUntil _ (by decide)).bind fun name v hname =>
      (reads_listUntil reads_plainName _ _).bind fun names w hlist => reads_pure ?_
    obtain ⟨raw, rfl, hname⟩ := hname
    obtain ⟨list, rfl, items, rfl, hlisting, hitems⟩ := hlist
    rw [List.append_nil, List.append_assoc, List.map_map]
    exact .parameters hname hlisting hitems
  · refine (reads_nameUntil _ (by decide)).bind fun name v hname => reads_pure ?_
    obtain ⟨raw, rfl, hname⟩ := hname
    rw [List.append_nil]
    exact .bare hname

theorem reads_function (h : nested.Reads) :
    Reads (fun node u => Sentence (.form node) u) (function nested) := by
  refine (reads_phrase _).bind fun _ phrase hphrase => reads_blanks1.bind fun _ gap hgap =>
    (reads_signature nested.room).bind fun parts head hhead =>
    (reads_block h "und endet hier").bind fun body t ht => reads_pure ?_
  rw [List.append_nil]
  exact .function hphrase hgap hhead ht

theorem reads_giveBack (h : nested.Reads) :
    Reads (fun node u => Sentence (.form node) u) (giveBack nested) := by
  refine (reads_word rfl).bind fun _ gib hgib => reads_blanks1.bind fun _ gap hgap =>
    (h.expression .logical).bind fun value t ht => reads_blanks1.bind fun _ gap' hgap' =>
    (reads_word rfl).bind fun _ back hback => reads_pure ?_
  rw [hgib, hback, List.append_nil]
  exact .giveBack hgap ht hgap'

theorem reads_print (h : nested.Reads) :
    Reads (fun node u => Sentence (.form node) u) (print nested) := by
  refine (reads_word rfl).bind fun _ zeig hzeig => reads_blanks1.bind fun _ gap hgap =>
    (reads_listUntil (h.expression .logical) _ _).bind fun nodes u hlist => reads_pure ?_
  obtain ⟨list, rfl, items, rfl, hlisting, hitems⟩ := hlist
  rw [hzeig, List.append_nil]
  exact .print hgap hlisting hitems

theorem reads_conditional (h : nested.Reads) :
    Reads (fun node u => Sentence (.form node) u) (conditional nested) := by
  have hothers : Reads (fun branches u => Sentence (.branches branches) u)
      (many (elseIf nested)) := by
    refine (reads_elseIf h).many .noBranch fun hbranch hrest => ?_
    obtain ⟨gap, gap', t, rfl, hgap, hgap', hbranch⟩ := hbranch
    exact .branch hgap hgap' hbranch hrest
  have hlast : Reads (fun last u => Sentence (.otherwise last) u) (optional (otherwise nested)) :=
    reads_optional (reads_otherwise h) .noOtherwise
  refine (reads_word rfl).bind fun _ stimmt hstimmt => reads_blanks1.bind fun _ gap hgap =>
    (reads_clause h).bind fun condition t ht => (reads_block h "oder").bind fun body u hu =>
    hothers.bind fun others v hv => hlast.bind fun last w hw =>
    (reads_word rfl).bind fun _ mark hmark => reads_pure ?_
  rw [hstimmt, hmark, List.append_nil, ← List.append_assoc t]
  exact .conditional hgap (.guarded ht hu) hv hw

/-! ## Statements -/

theorem reads_closed {form : Reader Node}
    (h : Reads (fun node u => Sentence (.form node) u) form) :
    Reads (fun node u => Sentence (.statement node) u) (closed form) := by
  refine h.bind fun node t ht => reads_blanks.bind fun _ blank hblank =>
    (reads_word rfl).bind fun _ mark hmark => reads_pure ?_
  rw [hmark, List.append_nil]
  exact .closed ht hblank

/-- A statement without whitespace before it. -/
theorem reads_closedForms (h : nested.Reads) :
    Reads (fun node u => Sentence (.statement node) u)
      (firstOf ((forms nested).map closed)) := by
  refine reads_firstOf fun reader hreader => ?_
  obtain ⟨form, hform, rfl⟩ := List.mem_map.1 hreader
  refine reads_closed ?_
  simp only [forms, List.mem_cons, List.not_mem_nil, or_false] at hform
  rcases hform with rfl | rfl | rfl | rfl | rfl | rfl
  · exact reads_evaluation h
  · exact reads_conditional h
  · exact reads_function h
  · exact reads_definition h
  · exact reads_giveBack h
  · exact reads_print h

theorem reads_statement (h : nested.Reads) :
    Reads (fun node u => ∃ blank v, u = blank ++ v ∧ Text.isBlank blank = true ∧
      Sentence (.statement node) v) (statement nested) :=
  reads_blanks.bind fun _ blank hblank => (reads_closedForms h).mono fun _ v hv =>
    ⟨blank, v, rfl, hblank, hv⟩

/-! ## Nesting -/

/-- At every depth the rules are obeyed. -/
theorem reads_within (limit : Nat) : (within limit).Reads := by
  induction limit with
  | zero => exact ⟨fun _ => ⟨nofun, nofun⟩, ⟨nofun, nofun⟩⟩
  | succ limit ih => exact ⟨reads_expression ih, reads_statement ih⟩

/-- What is taken off a text for a statement ends in an exclamation mark. -/
theorem exists_mark_of_statement {limit : Nat} {t rest : Text} {node : Node}
    (h : (within limit).statement t = .found node rest) : ∃ u, t = (u ++ ['!']) ++ rest := by
  obtain ⟨used, rfl, blank, v, rfl, -, hv⟩ := (reads_within limit).statement.found h
  obtain ⟨u, rfl⟩ := hv.mark
  exact ⟨blank ++ u, by rw [List.append_assoc blank u]⟩

theorem length_lt_of_statement {limit : Nat} {t rest : Text} {node : Node}
    (h : (within limit).statement t = .found node rest) : rest.length < t.length := by
  obtain ⟨u, rfl⟩ := exists_mark_of_statement h
  simp only [List.length_append, List.length_singleton]
  omega

end Grammar

end Klartext
