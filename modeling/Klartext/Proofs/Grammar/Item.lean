import Klartext.Proofs.Grammar.Term
import Klartext.Proofs.Surface.Statement

set_option autoImplicit false

/-! # Items of lists

The parameters of a function keep to the rules under which a list is read back
(`Enumeration.Lawful`): a name is never cut, since the words at which a list is cut do not stand in
it. The atoms of a printed list are terms. -/

namespace Klartext

open Reader Grammar Surface Enumeration Enumeration.Search

/-! ## Names in a list -/

namespace Surface

theorem endsWord_of_follows {t : Text} (h : Follows t) : EndsWord t := by
  obtain ⟨c, u, rfl, hc⟩ := h
  intro d hd
  obtain rfl : c = d := by simpa using hd
  rcases hc with rfl | rfl
  · exact .inr (by decide)
  · exact .inl rfl

namespace PlainName

variable {ending k : Text}

/-- A list is cut neither in a name nor at the space before it. -/
theorem uncut (n : PlainName) (hk : k ∈ keywords) (hending : k <+: ending) {t : Text}
    (ht : EndsWord t) : Uncut ending (' ' :: n.text) t := by
  refine uncut_of_normal n.normal n.text_ne_nil (n.not_mem_of_mark (by decide)) fun w hw u hu => ?_
  have hends := ht.behind hu
  constructor
  · intro b _ hund
    exact PlainWord.not_prefix (n.plain_of_mem hw) (by simp [keywords]) hends
      ((List.prefix_append "und".toList [b]).trans hund)
  · intro h
    exact PlainWord.not_prefix (n.plain_of_mem hw) hk hends (hending.trans h)

theorem not_part (n : PlainName) (hk : k ∈ keywords) (hending : k <+: ending) (y : Text) :
    ¬ Part (' ' :: ending) n.text y :=
  not_part_of_uncut (fun _ hw => (n.uncut hk hending (endsWord_of_follows hw)).tail) y

/-- No name ends with the word `und`. -/
theorem not_und (n : PlainName) (u : Text) (c : Char) (hc : isBlank c = true) :
    n.text ≠ u ++ c :: "und".toList := by
  intro htext
  obtain rfl := Text.eq_space_of_normal n.normal (by simp [htext]) hc
  have habsent : Text.Absent (' ' :: "und".toList) n.text [] :=
    n.absent (by simp [keywords]) endsWord_nil
  exact habsent _ (List.cons_ne_nil _ _) ⟨u, htext.symm⟩ (List.prefix_append _ _)

/-- A parameter in a list. -/
def entry (n : PlainName) : Entry Text := ⟨n.text, n.text, none⟩

theorem plainName_read (n : PlainName) : plainName n.text = .found n.text [] := by
  have hcomma : ',' ∉ n.text := n.not_mem_of_mark (by decide)
  have hmark : '!' ∉ n.text := n.not_mem_of_mark (by decide)
  have hund : ['u', 'n', 'd'] ∉ Text.words n.text := by
    intro hmem
    exact (n.plain_of_mem hmem).not_keyword "und".toList (by simp [keywords]) (List.prefix_refl _)
  simp [plainName, n.normal, n.text_ne_nil, hcomma, hmark, hund]

theorem plainName_comma {t : Text} (h : ',' ∈ t) : plainName t = .missed := by
  have hcomma : ',' ∈ Text.normalize t := Text.mem_normalize h (by decide)
  simp [plainName, hcomma]

theorem lawful (n : PlainName) : n.entry.Lawful plainName (' ' :: "und macht".toList) := by
  have hk : "und".toList ∈ keywords := by simp [keywords]
  have hending : "und".toList <+: "und macht".toList := ⟨" macht".toList, rfl⟩
  obtain ⟨u, d, hlast, hblank, hmark⟩ := n.last
  refine ⟨?_, ?_, n.not_und, ?_, ?_, ?_, ?_, ?_⟩
  · obtain ⟨c, u, htext, hblank, hmark⟩ := n.head
    exact ⟨c, u, htext, hblank, fun h => hmark (h ▸ by decide)⟩
  · exact ⟨u, d, hlast, hblank, fun h => hmark (h ▸ by decide)⟩
  · exact fun w hw => (n.uncut hk hending (endsWord_of_follows hw)).head
  · intro w hw hprefix
    have hmacht : "macht".toList <+: n.text ++ w :=
      (List.prefix_append_right_inj " und ".toList).1 hprefix
    exact n.not_prefix (by simp [keywords]) (endsWord_of_follows hw) hmacht
  · have hflush := n.flush []
    rw [List.append_nil] at hflush
    have htrim : Text.trim n.text = n.text := by
      rw [Text.trim_of_flush hflush, hlast, Text.trimEnd_concat hblank]
    exact complete_of_checked (o := none) htrim n.plainName_read
  · exact fun y hy => absurd hy (n.not_part hk hending y)
  · intro w
    have htrim : Text.trim (n.text ++ (", ".toList ++ w)) =
        n.text ++ ',' :: Text.trimEnd (' ' :: w) := by
      rw [Text.trim_of_flush (n.flush _)]
      exact Text.trimEnd_append_cons (by decide) n.text (' ' :: w)
    exact .inl (complete_missed htrim (plainName_comma (by simp)))

end PlainName

theorem PlainName.lawful_list (ps : List PlainName) :
    Lawful plainName (' ' :: "und macht".toList) (ps.map PlainName.entry) := by
  refine ⟨.inl rfl, ?_, ?_⟩
  · intro x hx
    obtain ⟨n, _, rfl⟩ := List.mem_map.1 hx
    exact n.lawful
  · intro x x' hsuffix y hy
    obtain ⟨n, _, rfl⟩ := List.mem_map.1
      (hsuffix.subset (List.mem_cons_of_mem _ List.mem_cons_self))
    have hk : "und".toList ∈ keywords := by simp [keywords]
    exact absurd hy (n.not_part hk ⟨" macht".toList, rfl⟩ y)

/-- A list of parameters is read back. -/
theorem read_parameters {ps : List PlainName} (hne : ps ≠ []) {room : Nat}
    (hlength : ps.length ≤ room + 1) (t : Text) :
    listUntil " und macht".toList plainName room
        (enumeration (ps.map PlainName.text) ++ (" und macht".toList ++ t)) =
      .found (ps.map PlainName.text) t := by
  have hread := listUntil_written (PlainName.lawful_list ps) (by simpa using hne)
    (by rwa [List.length_map]) t
  have hnone : ps.findSome? (Entry.overlong? ∘ PlainName.entry) = none := by
    simp [PlainName.entry]
  rw [written, List.map_map, List.map_map, List.findSome?_map, hnone] at hread
  exact hread

/-! ## Atoms in a list -/

namespace Atom

theorem read (a : Atom) {limit : Nat} (hlimit : 0 < limit) {t : Text} (ht : Layer.logical.Ends t) :
    (within limit).expression .logical (a.text ++ t) = .checked a.overlong? a.node t :=
  (a.layered (by decide)).read (by rwa [a.depth_eq]) ht

theorem opening (a : Atom) : Opening a.text := a.expression.opening

theorem flush (a : Atom) (t : Text) : Text.Flush (a.text ++ t) := (a.opening.append t).flush

/-- An atom as a term. -/
def term : Atom → Term
  | .literal l => .literal l
  | .reference name => .reference name.slashed

theorem text_term (a : Atom) : a.term.text = a.text := by cases a <;> rfl

theorem node_term (a : Atom) : a.term.node = a.node := by cases a <;> rfl

theorem overlong?_term (a : Atom) : a.term.overlong? = a.overlong? := by cases a <;> rfl

theorem term_readsBack (a : Atom) : a.term.ReadsBack .arithmetic := by
  cases a with
  | literal l => exact Term.literal_readsBack _ l
  | reference name => exact Term.reference_readsBack _ (by decide)

theorem depths_term (xs : List Atom) : Term.depths (xs.map term) = 0 := by
  induction xs with
  | nil => rfl
  | cons a xs ih =>
      rw [List.map_cons, Term.depths, ih]
      cases a <;> rfl

end Atom

/-- A list of atoms is read back. -/
theorem read_atoms {xs : List Atom} (hne : xs ≠ []) {limit : Nat} (hlength : xs.length ≤ limit)
    (t : Text) :
    listUntil " an".toList ((within limit).expression .logical) (within limit).room
        (enumeration (xs.map Atom.text) ++ (" an".toList ++ t)) =
      .checked (xs.findSome? Atom.overlong?) (xs.map Atom.node) t := by
  have hdepth : Term.listDepth (xs.map Atom.term) ≤ limit := by
    rw [Term.listDepth, Atom.depths_term, List.length_map]
    omega
  have hreads : ∀ x ∈ xs.map Atom.term, x.ReadsBack .arithmetic := by
    intro x hx
    obtain ⟨a, _, rfl⟩ := List.mem_map.1 hx
    exact a.term_readsBack
  have hread := Term.read_list hreads (by simpa using hne) hdepth
    (List.mem_cons_of_mem _ List.mem_cons_self) t
  rw [List.map_map, List.map_map, List.findSome?_map] at hread
  rw [← funext Atom.text_term, ← funext Atom.node_term, ← funext Atom.overlong?_term]
  exact hread

end Surface

end Klartext
