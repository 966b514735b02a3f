import Klartext.Proofs.Rules.Statement
import Klartext.Source

set_option autoImplicit false

/-! # Lines, columns and what stands there

Where a text is cut in two, the cut falls into one of its lines: the whole lines before it and the
beginning of this one make up what stands before the cut. All that is said about a place in a text is
read off there: its line and its column are counted from what stands before it, and what is shown of it
stands behind it (`Place.exists_line`).

What no statement can be read from is located this way, at its first character that is not
whitespace. -/

namespace Klartext

namespace Place

/-- The characters of some lines, with the line feed behind each of them. -/
def extent : List Text → Nat
  | [] => 0
  | text :: below => text.length + 1 + extent below

theorem extent_lines (t : Text) : extent (lines t) = t.length + 1 := by
  induction t with
  | nil => rfl
  | cons c t ih =>
      by_cases hc : c = '\n'
      · subst hc
        rw [lines, Text.splitOn_separator, extent, ← lines, ih, List.length_nil, List.length_cons]
        omega
      · obtain ⟨text, below, hlines⟩ := List.exists_cons_of_ne_nil (Text.splitOn_ne_nil '\n' t)
        rw [lines, hlines, extent] at ih
        rw [lines, Text.splitOn_other hc hlines, extent, List.length_cons, List.length_cons]
        omega

/-! ## The line of a place -/

/-- The line that a text ends in: it is the whole text, or a line feed stands before it. -/
theorem exists_beginning (t : Text) :
    ∃ beginning, '\n' ∉ beginning ∧ (t = beginning ∨ ∃ u, t = u ++ '\n' :: beginning) := by
  induction t with
  | nil => exact ⟨[], List.not_mem_nil, .inl rfl⟩
  | cons c t ih =>
      obtain ⟨beginning, hfree, rfl | ⟨u, rfl⟩⟩ := ih
      · by_cases hc : c = '\n'
        · subst hc
          exact ⟨t, hfree, .inr ⟨[], rfl⟩⟩
        · exact ⟨c :: t, by simpa [Ne.symm hc] using hfree, .inl rfl⟩
      · exact ⟨beginning, hfree, .inr ⟨c :: u, rfl⟩⟩

theorem ne_of_not_mem {t : Text} (h : '\n' ∉ t) : ∀ c ∈ t, (c != '\n') = true := by
  intro c hc
  simp only [bne_iff_ne]
  rintro rfl
  exact h hc

/-- A place falls into a line: the lines above it and the beginning of the line stand before it, and
    the line goes on with what stands behind it up to the next line feed. The line and the column are
    counted by what stands before. -/
theorem exists_line (used behind : Text) :
    ∃ above beginning below,
      lines (used ++ behind) =
        above ++ (beginning ++ behind.takeWhile (· != '\n')) :: below ∧
      used.length = extent above + beginning.length ∧
      lineAt (used ++ behind) used.length = above.length + 1 ∧
      columnAt (used ++ behind) used.length = beginning.length + 1 := by
  obtain ⟨beginning, hfree, hused⟩ := exists_beginning used
  have hne := ne_of_not_mem hfree
  have hhead := Text.head?_splitOn '\n' (beginning ++ behind)
  rw [List.takeWhile_append_of_pos hne] at hhead
  obtain ⟨below, hbelow⟩ := List.head?_eq_some_iff.1 hhead
  rw [lineAt, columnAt, List.take_left]
  -- either the place is in the first line, or the lines above it are those of `u`
  rcases hused with rfl | ⟨u, rfl⟩
  · refine ⟨[], used, below, hbelow, (Nat.zero_add _).symm, ?_, ?_⟩
    · rw [List.count_eq_zero.2 hfree]
      rfl
    · rw [← List.append_nil used.reverse, List.takeWhile_append_of_pos (by simpa using hne),
        List.takeWhile_nil, List.append_nil, List.length_reverse]
  · refine ⟨lines u, beginning, below, ?_, ?_, ?_, ?_⟩
    · rw [← hbelow, List.append_assoc, List.cons_append]
      exact Text.splitOn_append '\n' u _
    · rw [extent_lines, List.length_append, List.length_cons]
      omega
    · rw [lines, Text.length_splitOn, List.count_append, List.count_cons_self,
        List.count_eq_zero.2 hfree, Nat.zero_add]
    · have hreverse : (u ++ '\n' :: beginning).reverse = beginning.reverse ++ '\n' :: u.reverse := by
        simp
      rw [hreverse, List.takeWhile_append_of_pos (by simpa using hne),
        List.takeWhile_cons_of_neg (by simp), List.append_nil, List.length_reverse]

/-! ## Places with ink -/

/-- The line and the column lead back to the offset: the lines above and the columns before make it up.
    The column is one of the line, and `text` is this line. -/
structure Inverts (source : Text) (offset line column : Nat) (text : Text) : Prop where
  line_pos : 1 ≤ line
  line_eq : (lines source)[line - 1]? = some text
  offset_eq : offset = extent ((lines source).take (line - 1)) + (column - 1)
  column_pos : 1 ≤ column
  column_le : column ≤ text.length

/-- A piece of a line from a column on has up to twenty-one characters. -/
theorem pieceAt_succ (text : Text) (n : Nat) :
    pieceAt text ((n + 1 : Nat) : Int) = (text.drop n).take 21 := by
  have hstart : (((n + 1 : Nat) : Int) - 1).toNat = n := by omega
  have hstop : ¬ ((n + 1 : Nat) : Int) + 20 < 0 := by omega
  have hsize : (((n + 1 : Nat) : Int) + 20).toNat - n = 21 := by omega
  simp only [pieceAt, if_neg hstop]
  rw [Text.slice, hstart, hsize]

theorem trimEnd_take_cons {c : Char} (hink : isBlank c = false) (t : Text) (n : Nat) :
    Text.trimEnd ((c :: t).take (n + 1)) = c :: Text.trimEnd (t.take n) :=
  Text.trimEnd_append_cons hink [] (t.take n)

/-- From a character on that is not whitespace, the line is shown without the whitespace at its end. -/
theorem found_of_line {source beginning ending : Text} {c : Char} {line : Nat}
    (hline : (lines source)[line]? = some (beginning ++ c :: ending)) (hink : isBlank c = false) :
    found source ((line + 1 : Nat) : Int) ((beginning.length + 1 : Nat) : Int) =
      s!"'{String.ofList (Text.trimEnd ((c :: ending).take 21))}'" := by
  have hthere : line? source ((line + 1 : Nat) : Int) = some (beginning ++ c :: ending) := by
    rw [line?, if_pos (by omega), show (((line + 1 : Nat) : Int) - 1).toNat = line by omega, hline]
  have hwithin : ((beginning.length + 1 : Nat) : Int) ≤ (beginning ++ c :: ending).length := by
    rw [List.length_append, List.length_cons]
    omega
  have hflush : Text.Flush ((c :: ending).take 21) := Text.flush_cons hink
  have hpiece : Text.trim (pieceAt (beginning ++ c :: ending) ((beginning.length + 1 : Nat) : Int)) =
      Text.trimEnd ((c :: ending).take 21) := by
    rw [pieceAt_succ, List.drop_left, Text.trim_of_flush hflush]
  have hne : (Text.trimEnd ((c :: ending).take 21)).isEmpty = false := by
    rw [trimEnd_take_cons hink]
    rfl
  rw [found, hthere]
  simp only [if_pos hwithin, hpiece, hne, Bool.false_eq_true, if_false]

/-- At a place where something stands that is not whitespace, the line and the column lead back to the
    offset, and what is shown is the line from there on, up to twenty-one characters of it. -/
theorem place_of_ink {used behind source : Text} {c : Char} {line column : Nat}
    (hsource : source = used ++ c :: behind) (hink : isBlank c = false)
    (hline : lineAt source used.length = line) (hcolumn : columnAt source used.length = column) :
    ∃ text piece : Text, Inverts source used.length line column text ∧
      text[column - 1]? = some c ∧
      piece = Text.trimEnd ((text.drop (column - 1)).take 21) ∧
      piece ≠ [] ∧ piece.length ≤ 21 ∧ piece <+: c :: behind ∧
      found source line column = s!"'{String.ofList piece}'" := by
  obtain ⟨above, beginning, below, hlines, hused, habove, hbefore⟩ := exists_line used (c :: behind)
  rw [← hsource] at hlines habove hbefore
  obtain rfl : line = above.length + 1 := hline.symm.trans habove
  obtain rfl : column = beginning.length + 1 := hcolumn.symm.trans hbefore
  -- what is not whitespace is no line feed, and thus belongs to the line of its place
  have hfeed : c ≠ '\n' := by
    rintro rfl
    cases hink
  rw [List.takeWhile_cons_of_pos (by simpa using hfeed)] at hlines
  obtain ⟨ending, hending⟩ : ∃ ending, behind.takeWhile (· != '\n') = ending := ⟨_, rfl⟩
  have hprefix : ending <+: behind := hending ▸ List.takeWhile_prefix _
  rw [hending] at hlines
  have hdrop : (beginning ++ c :: ending).drop beginning.length = c :: ending := List.drop_left
  have hthere : (lines source)[above.length]? = some (beginning ++ c :: ending) := by
    rw [hlines, List.getElem?_append_right (Nat.le_refl _), Nat.sub_self]
    rfl
  have hpiece : Text.trimEnd ((c :: ending).take 21) <+: (c :: ending).take 21 :=
    Text.trimEnd_prefix _
  simp only [Nat.add_sub_cancel]
  refine ⟨beginning ++ c :: ending, Text.trimEnd ((c :: ending).take 21),
    ⟨Nat.le_add_left 1 _, hthere, ?_, Nat.le_add_left 1 _, ?_⟩, ?_, by rw [hdrop], ?_, ?_, ?_,
    found_of_line hthere hink⟩
  · simp only [Nat.add_sub_cancel]
    rw [hlines, List.take_left, hused]
  · rw [List.length_append, List.length_cons]
    omega
  · rw [← List.head?_drop, hdrop]
    rfl
  · rw [trimEnd_take_cons hink]
    exact List.cons_ne_nil _ _
  · exact Nat.le_trans hpiece.length_le (List.length_take_le 21 _)
  · exact (hpiece.trans (List.take_prefix 21 _)).trans (List.cons_prefix_cons.2 ⟨rfl, hprefix⟩)

/-- What ends the source is located where it begins. -/
theorem offsetOf_append (used behind : Text) : offsetOf (used ++ behind) behind = used.length := by
  have hsuffix : behind.isSuffixOf (used ++ behind) = true :=
    List.isSuffixOf_iff_suffix.2 (List.suffix_append used behind)
  rw [offsetOf, if_pos hsuffix, List.length_append, Nat.add_sub_cancel]

end Place

/-! ## What no statement can be read from -/

/-- What is said about a refusal that is located at an offset. -/
def Refusal.siteAt (r : Refusal) (source : Text) (filename : String) (offset : Nat) : Site where
  filename := filename
  offset := offset
  line := Place.lineAt source offset
  column := Place.columnAt source offset
  found := some (Place.found source (Place.lineAt source offset) (Place.columnAt source offset))
  context :=
    some (Place.context source (Place.lineAt source offset) (Place.columnAt source offset) 2)
  hints := hints r.rest

theorem Refusal.locate_eq {r : Refusal} {source : Text} {offset : Nat}
    (h : Place.offsetOf source r.rest = offset) (filename : String) :
    r.locate source filename = ⟨r, some (r.siteAt source filename offset)⟩ := by
  subst h
  rfl

theorem Grammar.suffix_of_program {limit : Nat} {source rest : Text} {statements : List Node}
    (h : Grammar.program limit source = .found statements rest) : rest <:+ source := by
  have hmany : Reader.Reads (fun _ _ => True) (Reader.many (Grammar.within limit).statement) :=
    (Grammar.reads_within limit).statement.many trivial fun _ _ => trivial
  obtain ⟨used, rfl, -⟩ := hmany.found h
  exact List.suffix_append used rest

/-- What is left of a program and is not only whitespace is located at its first character that is
    not whitespace. What the message says about this place holds: the rest is the source from there
    on, the line and the column lead back to the offset, and what is shown is what stands there. -/
theorem parseProgram_unread {limit : Nat} {source rest : Text} {statements : List Node}
    (hread : Grammar.program limit source = .found statements rest)
    (hink : Text.isBlank rest = false) (filename : String) :
    ∃ (used blank behind text piece : Text) (c : Char) (site : Site) (offset line column : Nat),
      source = used ++ rest ∧ rest = blank ++ c :: behind ∧ Text.isBlank blank = true ∧
      isBlank c = false ∧ offset = used.length + blank.length ∧
      parseProgram limit source filename = .error (.rejected
        ⟨⟨"Could not parse statement", c :: behind, ["a statement closed by '!'"]⟩, some site⟩) ∧
      source.drop offset = c :: behind ∧
      site.offset = offset ∧ site.line = line ∧ site.column = column ∧
      Place.Inverts source offset line column text ∧ text[column - 1]? = some c ∧
      piece = Text.trimEnd ((text.drop (column - 1)).take 21) ∧
      piece ≠ [] ∧ piece.length ≤ 21 ∧ piece <+: c :: behind ∧
      site.found = some s!"'{String.ofList piece}'" := by
  obtain ⟨used, rfl⟩ := Grammar.suffix_of_program hread
  obtain ⟨blank, c, behind, hsplit, hblank, hc, hunread⟩ := Text.exists_trimStart hink
  have hsource : used ++ rest = (used ++ blank) ++ c :: behind := by
    rw [List.append_assoc, ← hsplit]
  obtain ⟨text, piece, hinverts, hchar, hpiece, hne, hlength, hprefix, hfound⟩ :=
    Place.place_of_ink hsource hc rfl rfl
  have hrefusal : Refusal.statement rest =
      ⟨"Could not parse statement", c :: behind, ["a statement closed by '!'"]⟩ := by
    rw [Refusal.statement, hunread]
  have hoffset : Place.offsetOf (used ++ rest) (Refusal.statement rest).rest =
      (used ++ blank).length := by
    rw [hrefusal, hsource, Place.offsetOf_append]
  refine ⟨used, blank, behind, text, piece, c,
    (Refusal.statement rest).siteAt (used ++ rest) filename (used ++ blank).length, _, _, _, rfl,
    hsplit, hblank, hc, List.length_append, ?_, ?_, rfl, rfl, rfl, hinverts, hchar, hpiece, hne,
    hlength, hprefix, congrArg some hfound⟩
  · rw [parseProgram, hread]
    simp only [hink, Bool.false_eq_true, if_false]
    rw [Refusal.locate_eq hoffset, ← hrefusal]
  · rw [hsource, List.drop_left]

/-- A statement behind a line feed and two spaces that nothing ends. -/
theorem parseProgram_unread_indented :
    let source := "nix!\n  was".toList
    let rest := "\n  was".toList
    Grammar.program 2 source = .found [.evaluation (.literal .null)] rest ∧
      Text.isBlank rest = false ∧
      ∃ (site : Site) (line column : Nat) (text : Text),
        parseProgram 2 source unnamed =
          .error (.rejected ⟨Refusal.statement rest, some site⟩) ∧
        site.offset = 7 ∧ site.line = line ∧ site.column = column ∧
        Place.Inverts source 7 line column text ∧ text[column - 1]? = some 'w' := by
  intro source rest
  have hread : Grammar.program 2 source = .found [.evaluation (.literal .null)] rest := by rfl
  have hink : Text.isBlank rest = false := by decide
  obtain ⟨used, blank, behind, text, piece, c, site, offset, line, column, hsource, hrest, -, -,
    hoffset, hrejected, hdrop, hsite, hline, hcolumn, hinverts, hchar, -⟩ :=
    parseProgram_unread hread hink unnamed
  have hlocated : parseProgram 2 source unnamed = .error (.rejected
      ⟨⟨"Could not parse statement", "was".toList, ["a statement closed by '!'"]⟩,
        some ((Refusal.statement rest).siteAt source unnamed 7)⟩) := by rfl
  rw [hlocated] at hrejected
  cases hrejected
  obtain rfl : offset = 7 := Int.ofNat_inj.1 hsite.symm
  exact ⟨hread, hink, _, line, column, text, hlocated, rfl, hline, hcolumn, hinverts, hchar⟩

end Klartext
