import Klartext.Proofs.Depth.Grammar
import Klartext.Proofs.Grammar.Statement

set_option autoImplicit false

/-! # Names of parameters

A parameter can be named by all that is no comma, no exclamation mark and no word `und`, keywords
included. In a list of such names ` und ` stands only before the last one, so this is the only place
before its end at which ` und macht` can stand, and it stands there if the last name begins with
`macht`. Of three names or more what stands before is no list, because a list of two or more has an
` und `; but of two names it is the first one, which then is taken for the whole list. -/

namespace Klartext

open Reader Grammar Enumeration Enumeration.Search

theorem Text.mem_trim {t : Text} {c : Char} (hc : c ∈ t) (hblank : Klartext.isBlank c = false) :
    c ∈ Text.trim t := by
  obtain ⟨l, r, ht, hl, hr⟩ := Text.exists_trim t
  have hnot {u : Text} (hu : Text.isBlank u = true) : c ∉ u := by
    intro hmem
    rw [List.all_eq_true.1 hu c hmem] at hblank
    cases hblank
  rw [ht] at hc
  rcases List.mem_append.1 hc with h | h
  · exact absurd h (hnot hl)
  · exact (List.mem_append.1 h).resolve_right (hnot hr)

/-! ## Lists that end at the first terminator that fits -/

namespace Enumeration

variable {α : Type} {item : Reader α} {room depth : Nat}

/-- A list is read up to a terminator if no list ends at one before. -/
theorem listUntil_of_first {terminator a t : Text} {values : List α} (hne : terminator ≠ [])
    (hbefore : ∀ n < a.length, terminator <+: (a ++ (terminator ++ t)).drop n →
      Yields none depth (· = none) (itemsOf item room (a.take n)))
    (hlist : Yields none depth (· = some values) (itemsOf item room a)) :
    listUntil terminator item room (a ++ (terminator ++ t)) = .found values t := by
  obtain ⟨before, after, hoccurrences, hplaces⟩ := Text.occurrencesFrom_append hne 0 a t
  rw [Nat.zero_add] at hoccurrences
  have hsearch : Yields none depth (· = some (values, a.length))
      (firstSome (listAt item room (a ++ (terminator ++ t)))
        (Text.occurrences terminator (a ++ (terminator ++ t)))) := by
    rw [Text.occurrences, hoccurrences]
    refine yields_firstSome_append ?_ ?_ ?_
    · rintro _ rfl hnone
      cases hnone
    · intro i hi
      obtain ⟨n, rfl, hn, hprefix⟩ := hplaces i hi
      rw [Nat.zero_add, listAt, List.take_append_of_le_length (Nat.le_of_lt hn)]
      refine (hbefore n hn hprefix).bind ?_
      rintro _ rfl
      exact yields_pure rfl
    · rw [listAt, List.take_left]
      refine hlist.bind ?_
      rintro _ rfl
      exact yields_pure rfl
  rw [listUntil_eq]
  rcases hsearch .none with ⟨_, progress, hrun, -, rfl⟩ | ⟨_, hcount, -⟩
  · rw [hrun]
    simp only
    rw [← List.drop_drop, List.drop_left, List.drop_left]
  · cases hcount

/-- No ` und ` begins in a text, whatever of it goes on in the one behind it. -/
def Unjoined (a b : Text) : Prop := Text.Nowhere (joinLength · ≠ 0) a b

theorem joins_of_unjoined {a : Text} (h : Unjoined a []) : joins a = [] := by
  refine List.eq_nil_iff_forall_not_mem.2 fun s hs => ?_
  obtain ⟨n, -, hn, hmatch, -⟩ := Text.mem_matchesFrom hs
  refine h (a.drop n) ?_ (List.drop_suffix n a) (by rwa [List.append_nil])
  simpa using hn

/-- A text with a comma and without ` und ` is no list of names. -/
theorem itemsOf_comma {a : Text} (hunjoined : Unjoined a []) (hcomma : ',' ∈ a) :
    Yields none depth (· = none) (itemsOf plainName room a) := by
  have hmissed : plainName.complete a = .missed :=
    complete_missed rfl (Surface.PlainName.plainName_comma (Text.mem_trim hcomma (by decide)))
  have hslice : Text.slice a 0 a.length = a := by simp [Text.slice]
  have hitems : itemsOf plainName room a = pure none := by
    simp [itemsOf_eq, items, joins_of_unjoined hunjoined, firstSome, hslice, hmissed, item?]
  rw [hitems]
  exact yields_pure rfl

end Enumeration

/-! ## Names -/

/-- A name as a parameter can have it. -/
structure ParameterName where
  text : Text
  normal : Text.normalize text = text
  ne_nil : text ≠ []
  no_comma : ',' ∉ text
  no_mark : '!' ∉ text
  no_und : "und".toList ∉ Text.words text

/-- A name as a function can have it that gets parameters. -/
structure FunctionName where
  text : Text
  normal : Text.normalize text = text
  ne_nil : text ≠ []
  no_mark : '!' ∉ text
  no_keyword : ∀ w ∈ Text.words text, ¬ "kriegt".toList <+: w ∧ ¬ "macht".toList <+: w

namespace ParameterName

variable (p : ParameterName)

theorem mem_of_word {w : Text} (hw : w ∈ Text.words p.text) {c : Char} (hc : c ∈ w) :
    c ∈ p.text := by
  rw [← p.normal, Text.normalize]
  exact Text.mem_joinWith_of_mem hw hc

/-- A list is cut neither in a name nor at the space before it. -/
theorem uncut {t : Text} (ht : ∀ c ∈ t.head?, c = ' ' ∨ c = ',') :
    Uncut "!".toList (' ' :: p.text) t := by
  refine uncut_of_normal p.normal p.ne_nil p.no_comma fun w hw u hu => ⟨?_, ?_⟩
  · intro b hb hund
    have hends : ∀ c ∈ (u ++ t).head?, c ∉ "und".toList := by
      refine Text.forall_head_append (fun c hc => ?_) fun c hc => ?_
      · rw [hu c hc]
        decide
      · rcases ht c hc with rfl | rfl <;> decide
    have hword := (Text.isWord_of_mem_words hw).eq_of_isPrefix hends hb hund
    exact p.no_und (hword ▸ hw)
  · intro hmark
    cases w with
    | nil => exact (Text.isWord_of_mem_words hw).ne_nil rfl
    | cons c w =>
        obtain rfl := (List.cons_prefix_cons.1 hmark).1
        exact p.no_mark (p.mem_of_word hw List.mem_cons_self)

/-- No ` und ` begins in a name or at the space before it. -/
theorem unjoined {t : Text} (ht : ∀ c ∈ t.head?, c = ' ' ∨ c = ',') :
    Unjoined (' ' :: p.text) t :=
  fun u hne hu hjoin => p.uncut ht u hne hu (.inr (.inl hjoin))

/-- A name as an item of a list. -/
def entry : Entry Text := ⟨p.text, p.text, none⟩

theorem plainName_read : plainName p.text = .found p.text [] := by
  have hund : ['u', 'n', 'd'] ∉ Text.words p.text := p.no_und
  simp [plainName, p.normal, p.ne_nil, p.no_comma, p.no_mark, hund]

theorem follows_head {t : Text} (h : Follows t) : ∀ c ∈ t.head?, c = ' ' ∨ c = ',' := by
  obtain ⟨c, u, rfl, hc⟩ := h
  intro d hd
  obtain rfl : c = d := by simpa using hd
  exact hc.symm

theorem not_und (u : Text) (c : Char) (hc : isBlank c = true) : p.text ≠ u ++ c :: "und".toList := by
  intro htext
  refine p.no_und ?_
  rw [htext, Text.words_append_blank hc]
  exact List.mem_append_right _ List.mem_cons_self

theorem not_part (y : Text) : ¬ Part (' ' :: "!".toList) p.text y :=
  not_part_of_uncut (fun _ hw => (p.uncut (follows_head hw)).tail) y

/-- The names keep to the rules for items of a list, as long as its terminator is none that can stand in
    them. -/
theorem lawful : p.entry.Lawful plainName (' ' :: "!".toList) := by
  have hflush := Text.flush_of_normal p.normal p.ne_nil
  obtain ⟨u, d, hlast, hblank⟩ := Text.last_of_normal p.normal p.ne_nil
  refine ⟨?_, ?_, p.not_und, ?_, ?_, ?_, fun y hy => absurd hy (p.not_part y), ?_⟩
  · obtain ⟨c, v, htext⟩ := List.exists_cons_of_ne_nil p.ne_nil
    refine ⟨c, v, htext, hflush [] c (by rw [htext]; rfl), ?_⟩
    rintro rfl
    exact p.no_comma (htext ▸ List.mem_cons_self)
  · refine ⟨u, d, hlast, hblank, ?_⟩
    rintro rfl
    exact p.no_comma (hlast ▸ List.mem_append_right u List.mem_cons_self)
  · exact fun w hw => (p.uncut (follows_head hw)).head
  · intro w _ hprefix
    exact absurd (List.cons_prefix_cons.1 (List.cons_prefix_cons.1 hprefix).2).1 (by decide)
  · have htrim : Text.trim p.text = p.text := by
      have hstart := hflush []
      rw [List.append_nil] at hstart
      rw [Text.trim_of_flush hstart, hlast, Text.trimEnd_concat hblank]
    exact complete_of_checked (o := none) htrim p.plainName_read
  · intro w
    have hcomma : ',' ∈ p.text ++ (", ".toList ++ w) := by simp
    exact .inl (complete_missed rfl
      (Surface.PlainName.plainName_comma (Text.mem_trim hcomma (by decide))))

theorem lawful_list (ps : List ParameterName) :
    Lawful plainName (' ' :: "!".toList) (ps.map entry) := by
  refine ⟨.inl rfl, ?_, ?_⟩
  · intro x hx
    obtain ⟨p, -, rfl⟩ := List.mem_map.1 hx
    exact p.lawful
  · intro x x' hsuffix y hy
    obtain ⟨p, -, rfl⟩ := List.mem_map.1
      (hsuffix.subset (List.mem_cons_of_mem _ List.mem_cons_self))
    exact absurd hy (p.not_part y)

end ParameterName

/-! ## Lists of names -/

open ParameterName

/-- The text of a list of names without the last of them. -/
def commas (ps : List ParameterName) : Text := Text.joinWith ", ".toList (ps.map ParameterName.text)

section Lists

variable {front : List ParameterName} (last : ParameterName)

/-- What a list of names consists of: itself, as it is written. -/
theorem itemsOf_names {ps : List ParameterName} (hne : ps ≠ []) {room : Nat}
    (hlength : ps.length ≤ room + 1) :
    Yields none (ps.length - 1) (· = some (ps.map ParameterName.text))
      (itemsOf plainName room (enumeration (ps.map ParameterName.text))) := by
  have hnone : ps.findSome? (Entry.overlong? ∘ entry) = none := by simp [entry]
  have hitems := itemsOf_written (lawful_list ps) (by simpa using hne) (by rwa [List.length_map])
  rw [List.findSome?_map, hnone, List.length_map, written, List.map_map, List.map_map] at hitems
  exact hitems.mono (Nat.le_refl _) fun _ hr => hr.2

theorem commas_cons (p : ParameterName) (hne : front ≠ []) :
    commas (p :: front) = p.text ++ (", ".toList ++ commas front) := by
  rw [commas, List.map_cons, Text.joinWith_cons (by simpa using hne)]
  rfl

theorem enumeration_concat (hne : front ≠ []) :
    enumeration ((front ++ [last]).map ParameterName.text) =
      commas front ++ (" und ".toList ++ last.text) := by
  induction front with
  | nil => exact absurd rfl hne
  | cons p front ih =>
      cases front with
      | nil => simp [enumeration, glue, commas, Text.joinWith]
      | cons q front =>
          have hglue : glue (((q :: front) ++ [last]).map ParameterName.text) = ", ".toList := by
            cases front <;> rfl
          rw [List.cons_append, List.map_cons, enumeration, hglue, ih (List.cons_ne_nil q front),
            commas_cons p (List.cons_ne_nil q front), List.append_assoc, List.append_assoc]

/-- No ` und ` begins in front of the last name but the one before it. -/
theorem unjoined_commas (hne : front ≠ []) {t : Text} (ht : ∀ c ∈ t.head?, c = ' ' ∨ c = ',') :
    Unjoined (' ' :: commas front) t := by
  induction front with
  | nil => exact absurd rfl hne
  | cons p front ih =>
      cases front with
      | nil => exact p.unjoined ht
      | cons q front =>
          have hrest : Unjoined (", ".toList ++ commas (q :: front)) t :=
            Text.nowhere_cons (fun h => h rfl) (ih (List.cons_ne_nil q front))
          rw [commas_cons p (List.cons_ne_nil q front)]
          exact (p.unjoined (by simp)).append hrest

variable {last} in
/-- Before the end of a list ` und macht` can only stand where the last name begins with `macht`. -/
theorem terminator_at (hne : front ≠ []) {t : Text} {n : Nat}
    (hn : n < (commas front ++ (" und ".toList ++ last.text)).length)
    (h : " und macht".toList <+:
      (commas front ++ (" und ".toList ++ last.text) ++ (" und macht".toList ++ t)).drop n) :
    n = (commas front).length ∧ "macht".toList <+: last.text := by
  have hmatch : joinLength
      ((commas front ++ (" und ".toList ++ last.text) ++ (" und macht".toList ++ t)).drop n) ≠ 0 :=
    joinLength_mono h (by decide)
  have hlast : Unjoined (' ' :: last.text) (" und macht".toList ++ t) := last.unjoined (by simp)
  have hbehind : Unjoined ("und ".toList ++ last.text) (" und macht".toList ++ t) :=
    Text.nowhere_cons (fun h => h rfl) <| Text.nowhere_cons (fun h => h rfl) <|
      Text.nowhere_cons (fun h => h rfl) hlast
  -- in front of the last ` und ` none begins, and behind its first character none begins either
  rcases Nat.lt_trichotomy n (commas front).length with hlt | rfl | hgt
  · have hfront : Unjoined (commas front)
        (" und ".toList ++ last.text ++ (" und macht".toList ++ t)) :=
      (unjoined_commas hne (by simp)).tail
    rw [List.append_assoc, List.drop_append_of_le_length (Nat.le_of_lt hlt)] at hmatch
    exact absurd hmatch (hfront _ (by simpa using hlt) (List.drop_suffix _ _))
  · rw [List.append_assoc, List.drop_left, List.append_assoc] at h
    have hmacht : "macht".toList <+: last.text ++ (" und macht".toList ++ t) :=
      (List.prefix_append_right_inj " und ".toList).1 h
    exact ⟨rfl, Text.prefix_of_prefix_append (by simp) hmacht⟩
  · obtain ⟨k, rfl⟩ : ∃ k, n = (commas front).length + (k + 1) :=
      ⟨n - (commas front).length - 1, by omega⟩
    have hk : k < ("und ".toList ++ last.text).length := by
      have hlonger : " und ".toList.length = "und ".toList.length + 1 := rfl
      simp only [List.length_append] at hn ⊢
      omega
    rw [List.append_assoc, List.drop_length_add_append] at hmatch
    have hmatch : joinLength
        (("und ".toList ++ last.text ++ (" und macht".toList ++ t)).drop k) ≠ 0 := hmatch
    rw [List.drop_append_of_le_length (Nat.le_of_lt hk)] at hmatch
    exact absurd hmatch (hbehind _ (by simpa using hk) (List.drop_suffix _ _))

end Lists

/-- The list of two names of which the second begins like the end of the list. -/
def EndsEarly (ps : List ParameterName) : Prop := ∃ a b, ps = [a, b] ∧ "macht".toList <+: b.text

section Parameters

variable {ps : List ParameterName} {room : Nat}

/-- A list of names is read back. -/
theorem listUntil_names (hne : ps ≠ []) (hlength : ps.length ≤ room + 1) (hfits : ¬ EndsEarly ps)
    (t : Text) :
    listUntil " und macht".toList plainName room
        (enumeration (ps.map ParameterName.text) ++ (" und macht".toList ++ t)) =
      .found (ps.map ParameterName.text) t := by
  refine listUntil_of_first (by decide) (fun n hn hprefix => ?_) (itemsOf_names hne hlength)
  obtain ⟨front, last, rfl⟩ := (List.eq_nil_or_concat ps).resolve_left hne
  rw [List.concat_eq_append] at *
  match front with
  | [] =>
      -- nothing but the one name stands before the terminator
      have hone : enumeration (([] ++ [last]).map ParameterName.text) = last.text := by
        simp [enumeration, glue]
      have hmatch := joinLength_mono hprefix (by decide)
      rw [hone] at hn hmatch
      rw [List.drop_append_of_le_length (Nat.le_of_lt hn)] at hmatch
      have hlast : Unjoined last.text (" und macht".toList ++ t) := (last.unjoined (by simp)).tail
      exact absurd hmatch (hlast _ (by simpa using hn) (List.drop_suffix _ _))
  | a :: front =>
      rw [enumeration_concat last (List.cons_ne_nil a front)] at hn hprefix ⊢
      obtain ⟨rfl, hmacht⟩ := terminator_at (List.cons_ne_nil a front) hn hprefix
      rw [List.take_left]
      cases front with
      | nil => exact absurd ⟨a, last, rfl, hmacht⟩ hfits
      | cons b front =>
          refine itemsOf_comma (unjoined_commas (List.cons_ne_nil _ _) (by simp)).tail ?_
          rw [commas_cons a (List.cons_ne_nil b front)]
          exact List.mem_append_right _ List.mem_cons_self

/-- Of two names of which the second begins with `macht` only the first one is read. -/
theorem listUntil_misread {a b : ParameterName} {v : Text} (hb : b.text = "macht".toList ++ v)
    (t : Text) :
    listUntil " und macht".toList plainName room
        (enumeration ([a, b].map ParameterName.text) ++ (" und macht".toList ++ t)) =
      .found [a.text] (v ++ (" und macht".toList ++ t)) := by
  have hone : ¬ EndsEarly [a] := by
    rintro ⟨a', b', hpair, -⟩
    cases hpair
  have htext : enumeration ([a, b].map ParameterName.text) ++ (" und macht".toList ++ t) =
      enumeration ([a].map ParameterName.text) ++
        (" und macht".toList ++ (v ++ (" und macht".toList ++ t))) := by
    simp [enumeration, glue, hb]
  rw [htext]
  exact listUntil_names (List.cons_ne_nil a []) (Nat.le_add_left 1 room) hone _

end Parameters

/-! ## Functions -/

section Functions

variable (name : FunctionName)

/-- The text of a function: its name, its parameters, and its body with what closes it. -/
def functionText (ps : List ParameterName) (body : Text) : Text :=
  "die Funktion ".toList ++ (name.text ++ (" kriegt ".toList ++
    (enumeration (ps.map ParameterName.text) ++ (" und macht".toList ++ body))))

theorem FunctionName.read (t : Text) :
    nameUntil " kriegt ".toList [" macht".toList, "!".toList]
        (name.text ++ (" kriegt ".toList ++ t)) = .found name.text t := by
  have habsent {k : Text} (hk : ∀ w ∈ Text.words name.text, ¬ k <+: w) (hspace : ' ' ∉ k) {u : Text}
      (hu : ∀ c ∈ u.head?, c = ' ') : Text.Absent (' ' :: k) name.text u := by
    refine Text.absent_of_normal name.normal name.ne_nil fun w hw v hv hprefix => ?_
    have hends : ∀ c ∈ (v ++ u).head?, c ∉ k := by
      refine Text.forall_head_append (fun c hc => ?_) fun c hc => ?_
      · rwa [hv c hc]
      · rwa [hu c hc]
    exact hk w hw (Text.prefix_of_prefix_append hends hprefix)
  refine nameUntil_append (by decide) name.ne_nil name.normal ?_ ?_
  · exact (habsent (fun w hw => (name.no_keyword w hw).1) (by decide) (by simp)).longer " ".toList
  · refine List.forall_mem_cons.2 ⟨Text.holds_eq_false (by decide) ?_, ?_⟩
    · exact habsent (fun w hw => (name.no_keyword w hw).2) (by decide) (by simp)
    · refine List.forall_mem_singleton.2 (Text.holds_eq_false (by decide) ?_)
      exact Text.absent_of_not_mem name.no_mark

variable {ps : List ParameterName}

/-- A function begins with its name and its parameters, wherever the list of these ends. -/
theorem function_of_list (nested : Nested) {names : List Text} {t u : Text}
    (hnames : listUntil " und macht".toList plainName nested.room t = .found names u) :
    function nested ("die Funktion ".toList ++ (name.text ++ (" kriegt ".toList ++ t))) =
      (do
        let body ← manyUntil nested.statement "und endet hier"
        return .function (String.ofList name.text) (names.map String.ofList) body : Reader Node) u := by
  have hsignature : signature nested.room (name.text ++ (" kriegt ".toList ++ t)) =
      .found (name.text, names) u := by
    refine orElse_of_checked (o := none) ((bind_found (name.read _)).trans ?_)
    exact bind_found hnames
  rw [function, phrase_blanks1 rfl rfl (Text.flush_of_normal name.normal name.ne_nil _),
    bind_found hsignature]

/-- A body that is empty. -/
theorem manyUntil_empty {α : Type} {p : Reader α} :
    manyUntil p "und endet hier" " und endet hier".toList = .found [] [] := by
  have hclosing : phrase "und endet hier" "und endet hier".toList = .found () [] := by
    have happend := phrase_append (s := "und endet hier") rfl []
    rwa [List.append_nil] at happend
  refine (bind_found (blanks_space (Text.flush_cons (by decide)))).trans ?_
  exact orElse_of_checked (o := none) (bind_found hclosing)

/-- Where the list is not too long for the levels, the function is read with all of its parameters. -/
theorem function_of_names (nested : Nested) {body : Text} (hne : ps ≠ [])
    (hlength : ps.length ≤ nested.room + 1) (hfits : ¬ EndsEarly ps)
    (hbody : manyUntil nested.statement "und endet hier" body = .found [] []) :
    function nested (functionText name ps body) =
      .found (.function (String.ofList name.text) (ps.map fun p => String.ofList p.text) []) [] := by
  refine (function_of_list name nested (listUntil_names hne hlength hfits body)).trans ?_
  rw [bind_found hbody, List.map_map]
  rfl

/-- A function with parameters that are named by the rules for names is read with exactly these, unless
    it has exactly two and the second begins with `macht`: then, if it is a function at all, it has the
    first one as its only parameter. The only list on which reading breaks off is one that is longer than
    the levels that can be followed. -/
theorem function_with_parameters (limit : Nat) (hne : ps ≠ []) :
    (¬ EndsEarly ps →
      function (within limit) (functionText name ps " und endet hier".toList) =
          .found (.function (String.ofList name.text) (ps.map fun p => String.ofList p.text) []) [] ∨
        limit + 1 < ps.length ∧
          function (within limit) (functionText name ps " und endet hier".toList) =
            .broken .tooDeep) ∧
    (EndsEarly ps → ∀ (node : Node) (rest : Text),
      function (within limit) (functionText name ps " und endet hier".toList) = .found node rest →
        ∃ (a b : ParameterName) (body : List Node), ps = [a, b] ∧
          node = .function (String.ofList name.text) [String.ofList a.text] body) := by
  have hbody (nested : Nested) :
      manyUntil nested.statement "und endet hier" " und endet hier".toList = .found [] [] :=
    manyUntil_empty
  obtain ⟨closing, hclosing⟩ : ∃ closing, " und endet hier".toList = closing := ⟨_, rfl⟩
  rw [hclosing] at hbody ⊢
  have hread (levels : Nat) (hlevels : ps.length ≤ levels + 1) (hfits : ¬ EndsEarly ps) :=
    function_of_names name (within levels) hne (by rwa [Surface.within_room]) hfits (hbody _)
  constructor
  · intro hfits
    rcases Nat.lt_or_ge (limit + 1) ps.length with hlong | hshort
    · -- with enough levels the list is read, and fewer can only break off
      have hdeepens := deepens_function (deepens_within (Nat.le_of_succ_le (Nat.le_of_lt hlong)))
      rcases hdeepens (functionText name ps closing) with hbroken | hsame
      · exact .inr ⟨hlong, hbroken⟩
      · exact .inl (hsame.trans (hread ps.length (Nat.le_succ _) hfits))
    · exact .inl (hread limit hshort hfits)
  · rintro ⟨a, b, rfl, v, hb⟩ node rest hfound
    have hlist := function_of_list name (within limit) (listUntil_misread (a := a) hb.symm closing)
    obtain ⟨body, t, -, hnode⟩ := bind_eq_found.1 (hlist.symm.trans hfound)
    cases hnode
    exact ⟨a, b, body, rfl, rfl⟩

/-- Parameters that are named by keywords. -/
theorem function_with_parameters_keywords :
    let name : FunctionName :=
      ⟨"Summe von".toList, by decide, by decide, by decide, by decide⟩
    let first : ParameterName :=
      ⟨"macht aus".toList, by decide, by decide, by decide, by decide, by decide⟩
    let second : ParameterName :=
      ⟨"kriegt unda".toList, by decide, by decide, by decide, by decide, by decide⟩
    let text := functionText name [first, second] " und endet hier".toList
    text = "die Funktion Summe von kriegt macht aus und kriegt unda und macht und endet hier".toList ∧
      [first, second] ≠ [] ∧ ¬ EndsEarly [first, second] ∧
      function (within 1) text = .found (.function (String.ofList name.text)
        [String.ofList first.text, String.ofList second.text] []) [] := by
  intro name first second text
  have hne : [first, second] ≠ [] := List.cons_ne_nil _ _
  have hfits : ¬ EndsEarly [first, second] := by
    rintro ⟨a, b, hpair, hmacht⟩
    cases hpair
    exact absurd hmacht (by decide)
  refine ⟨by decide, hne, hfits, ?_⟩
  rcases (function_with_parameters name 1 hne).1 hfits with hfound | ⟨hlong, -⟩
  · exact hfound
  · exact absurd hlong (by decide)

/-- A second parameter that begins with `macht` keeps the function from being read. -/
theorem function_misread :
    function (within depthLimit)
      "die Funktion f kriegt a und machtvoll und macht und endet hier".toList = .missed := by
  have hlist : listUntil " und macht".toList plainName 2
      "a und machtvoll und macht und endet hier".toList =
      .found ["a".toList] "voll und macht und endet hier".toList := by rfl
  have hbody : manyUntil (within 2).statement "und endet hier"
      "voll und macht und endet hier".toList = .missed := by rfl
  have hshallow : function (within 2)
      "die Funktion f kriegt a und machtvoll und macht und endet hier".toList = .missed := by
    let name : FunctionName := ⟨"f".toList, by decide, by decide, by decide, by decide⟩
    exact (function_of_list name (within 2) hlist).trans (bind_missed hbody)
  have hdeepens := deepens_function (deepens_within (show 2 ≤ depthLimit by decide))
  rcases hdeepens "die Funktion f kriegt a und machtvoll und macht und endet hier".toList with
    hbroken | hsame
  · rw [hshallow] at hbroken
    cases hbroken
  · exact hsame.symm.trans hshallow

end Functions

end Klartext
