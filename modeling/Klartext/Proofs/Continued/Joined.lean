import Klartext.Proofs.Continued.Program
import Klartext.Proofs.Evaluation.Pieces
import Klartext.Proofs.Evaluation.Traced

set_option autoImplicit false

/-! # One program behind another

Two programs, the second on the lines behind the first, are one program with the statements of both,
and running it is running the one after the other. There are two exceptions. A list of parameters in
the first may be tried up to an end in the second and be too long for that. And a definition in the
first may give way to another form: its name may hold the beginning of a spoken operation or of a
function, and of a text that is closed in the second. -/

namespace Klartext

open Reader Rules

/-! ## Values one after the other -/

namespace Reader

variable {α : Type} {p : Reader α} {t rest : Text} {as : List α}

/-- Values that were found are found again with more behind the text, and reading goes on where they
    end, unless one of them meets a hazard. -/
theorem many_readsOn {H : Hazards} (hp : ∀ u, Reaches p t u → SteadyAt H (fun _ => True) p u)
    (h : many p t = .found as rest) (more : Text) :
    many p (t ++ more) = (do return as ++ (← many p)) (rest ++ more) ∨
      H.Met more (many p (t ++ more)) := by
  induction as generalizing t with
  | nil =>
      obtain ⟨rfl, -⟩ := many_eq_nil h
      left
      rw [bind_apply]
      cases many p (rest ++ more) <;> rfl
  | cons a as ih =>
      obtain ⟨u, hpt, hprogress, hothers⟩ := exists_of_many_cons h
      rcases (hp t .refl).readsOn hpt trivial more with hmore | hmet
      · have hprogress' : (u ++ more).length < (t ++ more).length := by
          rw [List.length_append, List.length_append]
          omega
        -- the value in front is the same, so that it is left to the others what the whole comes to
        rw [many_of_found hmore hprogress', bind_apply]
        rcases ih (fun v hv => hp v (.head hpt hv)) hothers with hbehind | hmet
        · left
          rw [hbehind, bind_apply, bind_apply]
          cases many p (rest ++ more) <;> rfl
        · exact .inr (hmet.imp fun hdeep => by rw [hdeep])
      · exact .inr (hmet.imp many_of_broken)

end Reader

/-! ## Programs -/

namespace Grammar

variable {limit : Nat}

/-- Whitespace in front of a program changes nothing about its statements. -/
theorem program_behind_blank {blank t rest : Text} {ss : List Node}
    (hblank : Text.isBlank blank = true) (h : program limit t = .found ss rest)
    (hrest : Text.isBlank rest = true) :
    ∃ rest', program limit (blank ++ t) = .found ss rest' ∧ Text.isBlank rest' = true := by
  cases ss with
  | nil =>
      obtain ⟨rfl, hmissed | ⟨node, u, hfound, hle⟩⟩ := many_eq_nil h
      · have hmissed' := (statement_behind_blank hblank rest).trans hmissed
        exact ⟨blank ++ rest, many_of_missed hmissed', Text.isBlank_append.2 ⟨hblank, hrest⟩⟩
      · exact absurd (length_lt_of_statement hfound) (Nat.not_lt_of_le hle)
  | cons s ss =>
      obtain ⟨u, hfound, hprogress, hothers⟩ := exists_of_many_cons h
      have hprogress' : u.length < (blank ++ t).length := by
        rw [List.length_append]
        omega
      refine ⟨rest, ?_, hrest⟩
      rw [program, many_of_found ((statement_behind_blank hblank t).trans hfound) hprogress',
        bind_found hothers]
      rfl

/-- Where a statement of a program can be read, it is read on, unless something may happen to a
    statement of the program. -/
theorem steadyAt_of_reaches {t u : Text} (h : Reaches (within limit).statement t u) :
    SteadyAt (hazards (StatementAt limit t)) (fun _ => True) (within limit).statement u := by
  cases limit with
  | zero => exact ⟨nofun, nofun⟩
  | succ depth =>
      refine (steadyAt_statement depth u).weaken ?_ ?_
      · rintro more ⟨inner, w, hinside, hlong⟩
        exact ⟨inner, w, ⟨depth, u, rfl, h, hinside⟩, hlong⟩
      · rintro more ⟨inner, w, hinside, hgives⟩
        exact ⟨inner, w, ⟨depth, u, rfl, h, hinside⟩, hgives⟩

/-- The statements of two programs, the second on the lines behind the first, are found one after the
    other, unless something happens to a statement of the first. -/
theorem program_joined {t₁ t₂ rest₁ rest₂ : Text} {p q : List Node}
    (h₁ : program limit t₁ = .found p rest₁) (hrest₁ : Text.isBlank rest₁ = true)
    (h₂ : program limit t₂ = .found q rest₂) (hrest₂ : Text.isBlank rest₂ = true) :
    (∃ rest, program limit (t₁ ++ '\n' :: t₂) = .found (p ++ q) rest ∧
        Text.isBlank rest = true) ∨
      (hazards (StatementAt limit t₁)).Met ('\n' :: t₂) (program limit (t₁ ++ '\n' :: t₂)) := by
  rcases many_readsOn (fun _ => steadyAt_of_reaches) h₁ ('\n' :: t₂) with hbehind | hmet
  · have hblank : Text.isBlank (rest₁ ++ ['\n']) = true :=
      Text.isBlank_append.2 ⟨hrest₁, rfl⟩
    obtain ⟨rest, hfound, hrest⟩ := program_behind_blank hblank h₂ hrest₂
    rw [List.append_assoc, List.singleton_append] at hfound
    refine .inl ⟨rest, ?_, hrest⟩
    rw [program, hbehind]
    exact bind_found hfound
  · exact .inr hmet

end Grammar

/-! ## Sessions -/

namespace Session

/-- The sessions are the same but for what was traced, and the same where nothing is traced. -/
structure Alike (s s' : Session) : Prop where
  traced : s.traced = s'.traced
  limits : s.limits = s'.limits
  machine : s.machine.Agrees s'.machine
  untraced : s.traced = false → s.machine = s'.machine

theorem Alike.refl (s : Session) : s.Alike s := ⟨rfl, rfl, .refl _, fun _ => rfl⟩

theorem Alike.symm {s s' : Session} (h : s.Alike s') : s'.Alike s :=
  ⟨h.traced.symm, h.limits.symm, h.machine.symm, fun hs' => (h.untraced (h.traced.trans hs')).symm⟩

theorem Alike.trans {s s' s'' : Session} (h : s.Alike s') (h' : s'.Alike s'') : s.Alike s'' :=
  ⟨h.traced.trans h'.traced, h.limits.trans h'.limits, h.machine.trans h'.machine,
    fun hs => (h.untraced hs).trans (h'.untraced (h.traced.symm.trans hs))⟩

theorem alike_recordParsed (s : Session) (program : List Node) (filename : String) :
    s.Alike (s.recordParsed program filename) := by
  rcases s with ⟨m, _ | _, limits⟩
  · exact .refl _
  · exact ⟨rfl, rfl, ((parallel_recordParsed m limits program filename).agrees (.refl m)).symm,
      nofun⟩

/-- Sessions that are alike run a program alike. -/
theorem Alike.interpret {s s' : Session} (h : s.Alike s') (program : List Node) :
    (s.interpret program).1 = (s'.interpret program).1 ∧
      (s.interpret program).2.Alike (s'.interpret program).2 := by
  rcases s with ⟨m, traced, limits⟩
  rcases s' with ⟨m', _, _⟩
  obtain ⟨rfl, rfl, hm, huntraced⟩ := h
  cases traced with
  | false =>
      obtain rfl : m = m' := huntraced rfl
      exact ⟨rfl, .refl _⟩
  | true =>
      -- both do what the second one does when it is not traced
      obtain ⟨houtcome, hparallel⟩ := untraced_interpretTo hm limits .willing program
      obtain ⟨houtcome', hparallel'⟩ := untraced_interpretTo (.refl m') limits .willing program
      simp only [interpretTo_willing] at houtcome houtcome' hparallel hparallel'
      exact ⟨houtcome.trans houtcome'.symm, rfl, rfl,
        (hparallel.agrees hm).trans (hparallel'.agrees (.refl m')).symm, nofun⟩

/-- A session runs `a` and, on the lines behind it, `b` as it runs the one after the other. An error
    in `a` stops both and leaves the same behind. Otherwise the session comes to be what it is after
    running `b` where `a` ended, and the outcome is that of `b`, or that of `a` if there are no
    statements `q` in `b`. -/
def RunsJoined (s : Session) (a b : String) (q : List Node) : Prop :=
  ∃ first between outcome joined,
    s.run a = .ok (first, between) ∧ s.run (a ++ "\n" ++ b) = .ok (outcome, joined) ∧
    ((∃ value second after, first = .finished value ∧ between.run b = .ok (second, after) ∧
        outcome = (if q.isEmpty then .finished value else second) ∧ joined.Alike after) ∨
      ∃ e, first = .stopped e ∧ outcome = .stopped e ∧ joined.Alike between)

theorem runsJoined {s : Session} {a b : String} {p q : List Node}
    (ha : parseProgram s.limits.source a.toList unnamed = .ok p)
    (hb : parseProgram s.limits.source b.toList unnamed = .ok q)
    (hjoined : parseProgram s.limits.source (a ++ "\n" ++ b).toList unnamed = .ok (p ++ q)) :
    s.RunsJoined a b q := by
  -- the one run and the other begin alike, with the number of statements on record or without
  have hstart : (s.recordParsed (p ++ q) unnamed).Alike (s.recordParsed p unnamed) :=
    (s.alike_recordParsed (p ++ q) unnamed).symm.trans (s.alike_recordParsed p unnamed)
  obtain ⟨houtcome, hafter⟩ := hstart.interpret (p ++ q)
  rcases interpret_cases (s.recordParsed p unnamed) p with ⟨value, between, hp⟩ | ⟨e, between, hp⟩
  · have hlimits : between.limits = s.limits :=
      (congrArg (fun result => result.2.limits) hp).symm.trans
        (s.alike_recordParsed p unnamed).limits.symm
    rw [← hlimits] at hb
    obtain ⟨hsecond, halike⟩ := (between.alike_recordParsed q unnamed).interpret q
    rw [interpret_append_of_finished hp] at houtcome hafter
    refine ⟨.finished value, between, _, _, by rw [run_of_parseProgram ha, hp],
      run_of_parseProgram hjoined, .inl ⟨value, _, _, rfl, run_of_parseProgram hb, ?_, ?_⟩⟩
    · cases q with
      | nil => exact houtcome
      | cons n rest => exact houtcome.trans hsecond
    · cases q with
      | nil => exact hafter.trans halike
      | cons n rest => exact hafter.trans halike
  · rw [interpret_append_of_stopped hp] at houtcome hafter
    exact ⟨.stopped e, between, _, _, by rw [run_of_parseProgram ha, hp],
      run_of_parseProgram hjoined, .inr ⟨e, rfl, houtcome, hafter⟩⟩

end Session

/-! ## One source text behind another -/

theorem toList_joined (a b : String) : (a ++ "\n" ++ b).toList = a.toList ++ '\n' :: b.toList := by
  rw [String.toList_append, String.toList_append, List.append_assoc]
  rfl

/-- Two source texts that can be read, the second on the lines behind the first, are read as the
    statements of the one followed by those of the other, and a session runs them as it runs the one
    after the other. Otherwise there is a statement in the first of which one of two things is true.
    It begins as a function with parameters does, without a list of them, and an end for the list in
    the second text has too many separators before it, so that the whole is refused as nested too
    deeply. Or it is a definition that gives way to a form that is tried before it. -/
theorem sources_joined {limit : Nat} {a b filename : String} {p q : List Node}
    (ha : parseProgram limit a.toList filename = .ok p)
    (hb : parseProgram limit b.toList filename = .ok q) :
    (parseProgram limit (a ++ "\n" ++ b).toList filename = .ok (p ++ q) ∧
      ∀ s : Session, s.limits.source = limit → s.RunsJoined a b q) ∨
    (parseProgram limit (a ++ "\n" ++ b).toList filename = .error (.rejected
        ((Refusal.nesting (a ++ "\n" ++ b).toList).locate (a ++ "\n" ++ b).toList filename)) ∧
      ∃ depth u, Grammar.StatementAt limit a.toList depth u ∧
        Grammar.Overlong (Grammar.within depth).room (u.dropWhile isBlank) ('\n' :: b.toList)) ∨
    ∃ depth u, Grammar.StatementAt limit a.toList depth u ∧
      Grammar.GivesWay depth u ('\n' :: b.toList) := by
  obtain ⟨rest₁, hfirst, hrest₁⟩ := parseProgram_eq_ok.1 ha
  obtain ⟨rest₂, hsecond, hrest₂⟩ := parseProgram_eq_ok.1 hb
  rcases Grammar.program_joined hfirst hrest₁ hsecond hrest₂ with
    ⟨rest, hjoined, hrest⟩ | ⟨hdeep, hlong⟩ | hgives
  · rw [← toList_joined] at hjoined
    refine .inl ⟨parseProgram_eq_ok.2 ⟨rest, hjoined, hrest⟩, fun s hs => ?_⟩
    subst hs
    -- under which name a text is read makes no difference to its statements
    exact Session.runsJoined (parseProgram_eq_ok.2 ⟨rest₁, hfirst, hrest₁⟩)
      (parseProgram_eq_ok.2 ⟨rest₂, hsecond, hrest₂⟩) (parseProgram_eq_ok.2 ⟨rest, hjoined, hrest⟩)
  · rw [← toList_joined] at hdeep
    refine .inr (.inl ⟨?_, hlong⟩)
    rw [parseProgram, hdeep]
    rfl
  · exact .inr (.inr hgives)

/-- Nothing gives way in a text in which characters of all the misleading words are missing. -/
theorem not_givesWay {limit depth : Nat} {t u more : Text}
    (h : Grammar.misleading.all (fun ws => ws.flatten.any fun c => !t.contains c) = true)
    (hplace : Grammar.StatementAt limit t depth u) : ¬ Grammar.GivesWay depth u more := by
  intro hgives
  obtain ⟨ws, hws, blank, words, v, rfl, -, hwords⟩ := hgives.begins
  obtain ⟨c, hc, hmissing⟩ := List.any_eq_true.1 (List.all_eq_true.1 h ws hws)
  rw [Bool.not_eq_true', List.contains_eq_mem, decide_eq_false_iff_not] at hmissing
  exact hmissing (hplace.suffix.subset (by simp [hwords.subset hc]))

/-- A text is read as the definition of a variable by a string. -/
def defines (name value : String) : Except SourceFault (List Node) → Bool
  | .ok [.definition x (.literal (.string v))] => x == name && v == value
  | _ => false

theorem eq_of_defines {name value : String} {r : Except SourceFault (List Node)}
    (h : defines name value r = true) :
    r = .ok [.definition name (.literal (.string value))] := by
  unfold defines at h
  split at h
  · rw [Bool.and_eq_true, beq_iff_eq, beq_iff_eq] at h
    rw [h.1, h.2]
  · cases h

theorem sources_joined_definitions :
    let a := "der Wert ist \"a\"!"
    let b := "der Wert ist \"b\"!"
    let p : List Node := [.definition "Wert" (.literal (.string "a"))]
    let q : List Node := [.definition "Wert" (.literal (.string "b"))]
    parseProgram Grammar.depthLimit a.toList unnamed = .ok p ∧
      parseProgram Grammar.depthLimit b.toList unnamed = .ok q ∧
      parseProgram Grammar.depthLimit (a ++ "\n" ++ b).toList unnamed = .ok (p ++ q) ∧
      (Session.start [] false).RunsJoined a b q := by
  intro a b p q
  have ha : parseProgram Grammar.depthLimit a.toList unnamed = .ok p :=
    eq_of_defines (by decide +kernel)
  have hb : parseProgram Grammar.depthLimit b.toList unnamed = .ok q :=
    eq_of_defines (by decide +kernel)
  have hread : (parseProgram Grammar.depthLimit (a ++ "\n" ++ b).toList unnamed).isOk = true := by
    decide +kernel
  rcases sources_joined ha hb with ⟨hjoined, hruns⟩ | ⟨hdeep, -⟩ | ⟨depth, u, hplace, hgives⟩
  · exact ⟨ha, hb, hjoined, hruns _ rfl⟩
  · rw [hdeep] at hread
    cases hread
  · exact absurd hgives (not_givesWay (by decide +kernel) hplace)

theorem exists_of_isOk {r : Except SourceFault (List Node)} (h : r.isOk = true) :
    ∃ ss, r = .ok ss := by
  cases r with
  | ok ss => exact ⟨ss, rfl⟩
  | error fault => cases h

/-- Two texts that can be read each for itself, and not the one behind the other. What stands before
    `ist` in the first is the name of a variable; with the quotation mark of the second it is a sum of
    a string, and there is no other operand. -/
theorem sources_not_joined :
    let a := "die Summe von \"a ist 5!"
    let b := "\" und 1!\"!"
    (∃ p, parseProgram Grammar.depthLimit a.toList unnamed = .ok p) ∧
      (∃ q, parseProgram Grammar.depthLimit b.toList unnamed = .ok q) ∧
      ∀ ss, parseProgram Grammar.depthLimit (a ++ "\n" ++ b).toList unnamed ≠ .ok ss := by
  intro a b
  have hread : (parseProgram Grammar.depthLimit a.toList unnamed).isOk = true ∧
      (parseProgram Grammar.depthLimit b.toList unnamed).isOk = true ∧
      (parseProgram Grammar.depthLimit (a ++ "\n" ++ b).toList unnamed).isOk = false := by
    decide +kernel
  obtain ⟨ha, hb, hjoined⟩ := hread
  refine ⟨exists_of_isOk ha, exists_of_isOk hb, fun ss hss => ?_⟩
  rw [hss] at hjoined
  cases hjoined

end Klartext
