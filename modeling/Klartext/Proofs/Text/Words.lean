import Klartext.Text.Blank

set_option autoImplicit false

/-! # Words and normal forms

A word is a run of characters none of which is whitespace. Words joined by single spaces are in
normal form, and cutting such a text into its words gives them back. -/

namespace Klartext

theorem not_isBlank_of_isDigit {c : Char} (h : c.isDigit = true) : isBlank c = false := by
  have hrange : 48 ≤ c.toNat ∧ c.toNat ≤ 57 := by
    simpa [Char.isDigit, UInt32.le_iff_toNat_le] using h
  simp only [isBlank, Bool.or_eq_false_iff, Bool.and_eq_false_iff, decide_eq_false_iff_not,
    beq_eq_false_iff_ne]
  omega

namespace Text

theorem isBlank_append {t u : Text} :
    isBlank (t ++ u) = true ↔ isBlank t = true ∧ isBlank u = true := by
  rw [isBlank, List.all_append, Bool.and_eq_true]
  rfl

/-- A run of characters, at least one, none of which is whitespace. -/
structure IsWord (w : Text) : Prop where
  ne_nil : w ≠ []
  not_blank : ∀ c ∈ w, Klartext.isBlank c = false

theorem isBlank_cons {c : Char} {t : Text} :
    isBlank (c :: t) = true ↔ Klartext.isBlank c = true ∧ isBlank t = true := by
  rw [isBlank, List.all_cons, Bool.and_eq_true]
  rfl

theorem not_blank_of_all {t : Text} (h : (t.all fun c => !Klartext.isBlank c) = true) :
    ∀ c ∈ t, Klartext.isBlank c = false := by
  simpa using h

/-- The text does not begin with whitespace. -/
def Flush (t : Text) : Prop := ∀ c ∈ t.head?, Klartext.isBlank c = false

theorem flush_nil : Flush [] := by simp [Flush]

theorem flush_cons {c : Char} {t : Text} (h : Klartext.isBlank c = false) : Flush (c :: t) := by
  simpa [Flush] using h

theorem Flush.takeWhile_eq {t : Text} (h : Flush t) : t.takeWhile Klartext.isBlank = [] := by
  cases t with
  | nil => rfl
  | cons c t => simp [h c (by simp)]

theorem Flush.dropWhile_eq {t : Text} (h : Flush t) : t.dropWhile Klartext.isBlank = t := by
  cases t with
  | nil => rfl
  | cons c t => simp [h c (by simp)]

theorem Flush.append {t : Text} (h : Flush t) (ht : t ≠ []) (u : Text) : Flush (t ++ u) := by
  cases t with
  | nil => exact absurd rfl ht
  | cons c t => exact flush_cons (h c (by simp))

theorem flush_dropWhile (t : Text) : Flush (t.dropWhile Klartext.isBlank) := by
  intro c hc
  have hhead := List.head?_dropWhile_not Klartext.isBlank t
  rw [hc] at hhead
  exact hhead

theorem IsWord.flush {w : Text} (h : IsWord w) : Flush w := by
  intro c hc
  exact h.not_blank c (List.mem_of_mem_head? hc)

/-! ## Trimming -/

theorem trimEnd_append_cons {c : Char} (hc : Klartext.isBlank c = false) (a t : Text) :
    trimEnd (a ++ c :: t) = a ++ c :: trimEnd t := by
  have hreverse : (a ++ c :: t).reverse = t.reverse ++ c :: a.reverse := by simp
  rw [trimEnd, trimEnd, hreverse, List.dropWhile_append]
  split
  · rename_i hempty
    rw [List.isEmpty_iff.1 hempty, List.dropWhile_cons_of_neg (by simp [hc])]
    simp
  · simp

/-- Nothing in front of a text that does not begin with whitespace is trimmed. -/
theorem trimEnd_append {t : Text} (hne : t ≠ []) (hflush : Flush t) (a : Text) :
    trimEnd (a ++ t) = a ++ trimEnd t := by
  cases t with
  | nil => exact absurd rfl hne
  | cons c t =>
      have hc : Klartext.isBlank c = false := hflush c (by simp)
      rw [trimEnd_append_cons hc, ← List.nil_append (c :: t), trimEnd_append_cons hc,
        List.nil_append]

theorem trimEnd_concat {c : Char} (hc : Klartext.isBlank c = false) (a : Text) :
    trimEnd (a ++ [c]) = a ++ [c] :=
  trimEnd_append_cons hc a []

theorem trimEnd_prefix (t : Text) : trimEnd t <+: t := by
  have hsuffix := List.dropWhile_suffix Klartext.isBlank (l := t.reverse)
  rw [← List.reverse_prefix, List.reverse_reverse] at hsuffix
  exact hsuffix

theorem trim_of_flush {t : Text} (h : Flush t) : trim t = trimEnd t := by
  rw [trim, trimStart, h.dropWhile_eq]

/-- What is trimmed off a text is whitespace. -/
theorem exists_trim (t : Text) :
    ∃ l r, t = l ++ (trim t ++ r) ∧ isBlank l = true ∧ isBlank r = true := by
  refine ⟨t.takeWhile Klartext.isBlank, ((trimStart t).reverse.takeWhile Klartext.isBlank).reverse,
    ?_, List.all_takeWhile, ?_⟩
  · have hend : trimStart t =
        trim t ++ ((trimStart t).reverse.takeWhile Klartext.isBlank).reverse := by
      rw [trim, trimEnd, ← List.reverse_append, List.takeWhile_append_dropWhile,
        List.reverse_reverse]
    rw [← hend, trimStart, List.takeWhile_append_dropWhile]
  · rw [isBlank, List.all_reverse]
    exact List.all_takeWhile

/-- What is not only whitespace begins, behind whitespace, with a character that is none. -/
theorem exists_trimStart {t : Text} (h : isBlank t = false) :
    ∃ blank c behind, t = blank ++ c :: behind ∧ isBlank blank = true ∧
      Klartext.isBlank c = false ∧ trimStart t = c :: behind := by
  have hsplit : t = t.takeWhile Klartext.isBlank ++ trimStart t :=
    List.takeWhile_append_dropWhile.symm
  have hblank : isBlank (t.takeWhile Klartext.isBlank) = true := List.all_takeWhile
  cases hstart : trimStart t with
  | nil =>
      rw [hstart, List.append_nil] at hsplit
      rw [hsplit, hblank] at h
      cases h
  | cons c behind =>
      have hflush : Flush (trimStart t) := flush_dropWhile t
      rw [hstart] at hsplit hflush
      exact ⟨_, c, behind, hsplit, hblank, hflush c rfl, rfl⟩

/-! ## Cutting into words -/

theorem words_cons (c : Char) (t : Text) :
    words (c :: t) =
      if Klartext.isBlank c then words t
      else match t with
        | [] => [[c]]
        | next :: _ =>
          if Klartext.isBlank next then [c] :: words t
          else match words t with
            | [] => [[c]]
            | word :: others => (c :: word) :: others := rfl

theorem words_cons_blank {c : Char} (h : Klartext.isBlank c = true) (t : Text) :
    words (c :: t) = words t := by
  rw [words_cons, if_pos h]

/-- A character by itself is a word where nothing or whitespace follows. -/
theorem words_single {c : Char} (hc : Klartext.isBlank c = false) {t : Text}
    (ht : t = [] ∨ ∃ d u, t = d :: u ∧ Klartext.isBlank d = true) :
    words (c :: t) = [c] :: words t := by
  rw [words_cons]
  simp only [hc, Bool.false_eq_true, if_false]
  rcases ht with rfl | ⟨d, u, rfl, hd⟩
  · rfl
  · simp only [hd, if_true]

/-- A word at the front of a text, with whitespace or nothing behind it. -/
theorem words_word_append {w t : Text} (hw : IsWord w)
    (ht : t = [] ∨ ∃ c u, t = c :: u ∧ Klartext.isBlank c = true) :
    words (w ++ t) = w :: words t := by
  obtain ⟨hne, hblank⟩ := hw
  induction w with
  | nil => exact absurd rfl hne
  | cons c w ih =>
      have hc : Klartext.isBlank c = false := hblank c List.mem_cons_self
      cases w with
      | nil => exact words_single hc ht
      | cons d w =>
          have hd : Klartext.isBlank d = false := hblank d (by simp)
          have hrest := ih (by simp) fun x hx => hblank x (List.mem_cons_of_mem _ hx)
          rw [List.cons_append] at hrest
          rw [List.cons_append, List.cons_append, words_cons, hrest]
          simp only [hc, hd, Bool.false_eq_true, if_false]

theorem words_word {w : Text} (hw : IsWord w) : words w = [w] := by
  have happend := words_word_append hw (.inl rfl)
  rwa [List.append_nil] at happend

theorem words_word_space {w : Text} (hw : IsWord w) (t : Text) :
    words (w ++ ' ' :: t) = w :: words t := by
  rw [words_word_append hw (.inr ⟨' ', t, rfl, by decide⟩), words_cons_blank (by decide)]

/-- All words of a text are words. -/
theorem isWord_of_mem_words {w t : Text} (h : w ∈ words t) : IsWord w := by
  fun_induction words t generalizing w with
  | case1 => cases h
  | case2 c rest hc ih => exact ih h
  | case3 c hc =>
      rw [List.mem_singleton.1 h]
      exact ⟨by simp, by simpa using hc⟩
  | case4 c hc next rest hnext ih =>
      rcases List.mem_cons.1 h with rfl | hrest
      · exact ⟨by simp, by simpa using hc⟩
      · exact ih hrest
  | case5 c hc next rest hnext hwords ih =>
      rw [hwords] at h
      rw [List.mem_singleton.1 h]
      exact ⟨by simp, by simpa using hc⟩
  | case6 c hc next rest hnext word others hwords ih =>
      rw [hwords] at h ih
      rcases List.mem_cons.1 h with rfl | hrest
      · refine ⟨by simp, ?_⟩
        intro x hx
        rcases List.mem_cons.1 hx with rfl | hx
        · simpa using hc
        · exact (ih List.mem_cons_self).not_blank x hx
      · exact ih (List.mem_cons_of_mem _ hrest)

/-- What is not whitespace stands in a word. -/
theorem exists_mem_words {t : Text} {c : Char} (hc : c ∈ t) (hblank : Klartext.isBlank c = false) :
    ∃ w ∈ words t, c ∈ w := by
  fun_induction words t with
  | case1 => cases hc
  | case2 d rest hd ih =>
      rcases List.mem_cons.1 hc with rfl | hc
      · simp [hd] at hblank
      · exact ih hc
  | case3 d hd => exact ⟨[d], by simp, hc⟩
  | case4 d hd next rest hnext ih =>
      rcases List.mem_cons.1 hc with rfl | hc
      · exact ⟨[c], List.mem_cons_self, List.mem_cons_self⟩
      · obtain ⟨w, hw, hcw⟩ := ih hc
        exact ⟨w, List.mem_cons_of_mem _ hw, hcw⟩
  | case5 d hd next rest hnext hwords ih =>
      rw [hwords] at ih ⊢
      rcases List.mem_cons.1 hc with rfl | hc
      · exact ⟨[c], List.mem_cons_self, List.mem_cons_self⟩
      · obtain ⟨w, hw, _⟩ := ih hc
        cases hw
  | case6 d hd next rest hnext word others hwords ih =>
      rw [hwords] at ih ⊢
      rcases List.mem_cons.1 hc with rfl | hc
      · exact ⟨c :: word, List.mem_cons_self, List.mem_cons_self⟩
      · obtain ⟨w, hw, hcw⟩ := ih hc
        rcases List.mem_cons.1 hw with rfl | hw
        · exact ⟨d :: w, List.mem_cons_self, List.mem_cons_of_mem d hcw⟩
        · exact ⟨w, List.mem_cons_of_mem _ hw, hcw⟩

theorem words_ne_nil {c : Char} {t : Text} (hc : c ∈ t) (hblank : Klartext.isBlank c = false) :
    words t ≠ [] := by
  obtain ⟨w, hw, -⟩ := exists_mem_words hc hblank
  exact List.ne_nil_of_mem hw

/-- Whitespace parts the words before it from those behind it. -/
theorem words_append_blank {b : Char} (hb : Klartext.isBlank b = true) (a t : Text) :
    words (a ++ b :: t) = words a ++ words t := by
  fun_induction words a with
  | case1 => exact words_cons_blank hb t
  | case2 c rest hc ih => rw [List.cons_append, words_cons_blank hc, ih]
  | case3 c hc =>
      rw [List.cons_append, List.nil_append, words_single (by simpa using hc) (.inr ⟨b, t, rfl, hb⟩),
        words_cons_blank hb]
      rfl
  | case4 c hc next rest hnext ih =>
      rw [List.cons_append, List.cons_append,
        words_single (by simpa using hc) (.inr ⟨next, rest ++ b :: t, rfl, hnext⟩), ← List.cons_append,
        ih, List.cons_append]
  | case5 c hc next rest hnext hwords ih =>
      exact absurd hwords (words_ne_nil List.mem_cons_self (by simpa using hnext))
  | case6 c hc next rest hnext word others hwords ih =>
      rw [hwords] at ih
      rw [List.cons_append] at ih ⊢
      rw [List.cons_append, words_cons, if_neg hc]
      simp only [if_neg hnext, ih, hwords]
      rfl

theorem words_blank_append {b : Text} (hb : isBlank b = true) (t : Text) : words (b ++ t) = words t := by
  induction b with
  | nil => rfl
  | cons c b ih =>
      obtain ⟨hc, hb⟩ := isBlank_cons.1 hb
      rw [List.cons_append, words_cons_blank hc, ih hb]

/-- The last word of a text that ends in a word ends in this word. -/
theorem exists_words_append (a : Text) {w : Text} (hw : IsWord w) :
    ∃ front u, words (a ++ w) = front ++ [u ++ w] := by
  induction a with
  | nil => exact ⟨[], [], words_word hw⟩
  | cons c a ih =>
      obtain ⟨front, u, hwords⟩ := ih
      rw [List.cons_append, words_cons]
      split
      · exact ⟨front, u, hwords⟩
      · cases haw : a ++ w with
        | nil => exact absurd (List.append_eq_nil_iff.1 haw).2 hw.ne_nil
        | cons d t =>
            rw [haw] at hwords
            simp only [hwords]
            -- the character is a word by itself, or it joins the first word of the rest
            split
            · exact ⟨[c] :: front, u, rfl⟩
            · cases front with
              | nil => exact ⟨[], c :: u, rfl⟩
              | cons word front => exact ⟨(c :: word) :: front, u, rfl⟩

/-! ## Joining words -/

theorem joinWith_cons {separator t : Text} {others : List Text} (h : others ≠ []) :
    joinWith separator (t :: others) = t ++ (separator ++ joinWith separator others) := by
  cases others with
  | nil => exact absurd rfl h
  | cons u others => simp [joinWith]

theorem joinWith_append {separator : Text} {ts us : List Text} (ht : ts ≠ []) (hu : us ≠ []) :
    joinWith separator (ts ++ us) = joinWith separator ts ++ (separator ++ joinWith separator us) := by
  induction ts with
  | nil => exact absurd rfl ht
  | cons t ts ih =>
      by_cases hne : ts = []
      · subst hne
        exact joinWith_cons hu
      · rw [List.cons_append, joinWith_cons (List.append_ne_nil_of_left_ne_nil hne us), ih hne,
          joinWith_cons hne]
        simp only [List.append_assoc]

/-- Joined texts end in the last of them, joined; the first of these may stand there with more text
    in front of it. -/
theorem exists_joinWith_append (separator : Text) (front : List Text) (u t : Text) (ts : List Text) :
    ∃ before, joinWith separator (front ++ (u ++ t) :: ts) = before ++ joinWith separator (t :: ts) := by
  have hfirst : joinWith separator ((u ++ t) :: ts) = u ++ joinWith separator (t :: ts) := by
    by_cases hts : ts = []
    · subst hts
      rfl
    · rw [joinWith_cons hts, joinWith_cons hts, List.append_assoc]
  by_cases hfront : front = []
  · exact ⟨u, by rw [hfront, List.nil_append, hfirst]⟩
  · refine ⟨joinWith separator front ++ (separator ++ u), ?_⟩
    rw [joinWith_append hfront (List.cons_ne_nil _ _), hfirst]
    simp only [List.append_assoc]

theorem mem_joinWith {separator : Text} {ws : List Text} {c : Char}
    (h : c ∈ joinWith separator ws) : c ∈ separator ∨ ∃ w ∈ ws, c ∈ w := by
  induction ws with
  | nil => simp [joinWith] at h
  | cons w ws ih =>
      by_cases hne : ws = []
      · subst hne
        exact .inr ⟨w, by simp, h⟩
      · rw [joinWith_cons hne, List.mem_append, List.mem_append] at h
        rcases h with hw | hseparator | hws
        · exact .inr ⟨w, by simp, hw⟩
        · exact .inl hseparator
        · rcases ih hws with hseparator | ⟨w', hw', hc⟩
          · exact .inl hseparator
          · exact .inr ⟨w', List.mem_cons_of_mem w hw', hc⟩

theorem mem_joinWith_of_mem {separator w : Text} {ws : List Text} {c : Char} (hw : w ∈ ws)
    (hc : c ∈ w) : c ∈ joinWith separator ws := by
  induction ws with
  | nil => cases hw
  | cons v ws ih =>
      by_cases hne : ws = []
      · subst hne
        rw [List.mem_singleton.1 hw] at hc
        exact hc
      · rw [joinWith_cons hne, List.mem_append, List.mem_append]
        rcases List.mem_cons.1 hw with rfl | hw
        · exact .inl hc
        · exact .inr (.inr (ih hw))

/-- Joined texts end as the last of them does. -/
theorem joinWith_last {separator : Text} {ws : List Text} (hne : ws ≠ []) {P : Char → Prop}
    (hws : ∀ w ∈ ws, ∃ u c, w = u ++ [c] ∧ P c) :
    ∃ u c, joinWith separator ws = u ++ [c] ∧ P c := by
  induction ws with
  | nil => exact absurd rfl hne
  | cons w ws ih =>
      by_cases hlast : ws = []
      · subst hlast
        exact hws w (by simp)
      · obtain ⟨u, c, hu, hc⟩ := ih hlast fun w' hw' => hws w' (List.mem_cons_of_mem w hw')
        rw [joinWith_cons hlast, hu]
        exact ⟨w ++ (separator ++ u), c, by simp, hc⟩

theorem exists_concat {t : Text} (hne : t ≠ []) {P : Char → Prop} (h : ∀ c ∈ t, P c) :
    ∃ u c, t = u ++ [c] ∧ P c :=
  ⟨t.dropLast, t.getLast hne, (List.dropLast_concat_getLast hne).symm,
    h _ (List.getLast_mem hne)⟩

theorem joinWith_ne_nil {w : Text} (hw : IsWord w) (ws : List Text) :
    joinWith [' '] (w :: ws) ≠ [] := by
  cases ws with
  | nil => exact hw.ne_nil
  | cons w' ws => simp [joinWith]

theorem flush_joinWith {w : Text} (hw : IsWord w) (ws : List Text) :
    Flush (joinWith [' '] (w :: ws)) := by
  cases ws with
  | nil => exact hw.flush
  | cons w' ws =>
      rw [joinWith_cons (by simp)]
      exact hw.flush.append hw.ne_nil _

theorem words_joinWith {ws : List Text} (h : ∀ w ∈ ws, IsWord w) :
    words (joinWith [' '] ws) = ws := by
  induction ws with
  | nil => rfl
  | cons w ws ih =>
      have hw : IsWord w := h w List.mem_cons_self
      have hws := ih fun x hx => h x (List.mem_cons_of_mem _ hx)
      by_cases hne : ws = []
      · subst hne
        exact words_word hw
      · rw [joinWith_cons hne, List.singleton_append, words_word_space hw, hws]

/-- Words joined by single spaces are in normal form. -/
theorem normalize_joinWith {ws : List Text} (h : ∀ w ∈ ws, IsWord w) :
    normalize (joinWith [' '] ws) = joinWith [' '] ws := by
  rw [normalize, words_joinWith h]

theorem words_normalize (t : Text) : words (normalize t) = words t :=
  words_joinWith fun _ hw => isWord_of_mem_words hw

theorem normalize_normalize (t : Text) : normalize (normalize t) = normalize t :=
  normalize_joinWith fun _ hw => isWord_of_mem_words hw

/-- Texts have the same normal form if they have the same words. -/
theorem normalize_eq_iff {t u : Text} : normalize t = normalize u ↔ words t = words u := by
  constructor
  · intro h
    rw [← words_normalize t, h, words_normalize]
  · intro h
    rw [normalize, normalize, h]

/-- The normal form keeps what is not whitespace. -/
theorem mem_normalize {t : Text} {c : Char} (hc : c ∈ t) (hblank : Klartext.isBlank c = false) :
    c ∈ normalize t := by
  obtain ⟨w, hw, hcw⟩ := exists_mem_words hc hblank
  exact mem_joinWith_of_mem hw hcw

/-! ## Where a word begins -/

theorem forall_head_append {P : Char → Prop} {u t : Text} (hu : ∀ c ∈ u.head?, P c)
    (ht : ∀ c ∈ t.head?, P c) : ∀ c ∈ (u ++ t).head?, P c := by
  cases u with
  | nil => exact ht
  | cons d u => exact hu

theorem prefix_of_prefix_append {k w u : Text} (hu : ∀ c ∈ u.head?, c ∉ k) (h : k <+: w ++ u) :
    k <+: w := by
  rcases Nat.le_or_ge k.length w.length with hle | hle
  · exact List.prefix_of_prefix_length_le h (List.prefix_append w u) hle
  · obtain ⟨r, rfl⟩ := List.prefix_of_prefix_length_le (List.prefix_append w u) h hle
    cases r with
    | nil => simp
    | cons c r =>
        obtain ⟨v, hv⟩ := (List.prefix_append_right_inj w).1 h
        exact absurd (by simp) (hu c (by simp [← hv]))

/-- A word that begins a text up to whitespace is the word at its front. -/
theorem IsWord.eq_of_isPrefix {k w u : Text} {b : Char} (hw : IsWord w)
    (hu : ∀ c ∈ u.head?, c ∉ k) (hb : Klartext.isBlank b = true) (h : k ++ [b] <+: w ++ u) :
    w = k := by
  obtain ⟨r, rfl⟩ := prefix_of_prefix_append hu ((List.prefix_append k [b]).trans h)
  cases r with
  | nil => exact List.append_nil k
  | cons c r =>
      rw [List.append_assoc, List.prefix_append_right_inj] at h
      obtain rfl := (List.cons_prefix_cons.1 h).1
      simp [hw.not_blank b (by simp)] at hb

theorem suffix_of_not_mem {c : Char} {w u v : Text} (hc : c ∉ w) (h : c :: v <:+ w ++ u) :
    c :: v <:+ u := by
  induction w with
  | nil => exact h
  | cons d w ih =>
      rcases List.suffix_cons_iff.1 h with heq | h
      · exact absurd (by rw [(List.cons.inj heq).1]; exact List.mem_cons_self) hc
      · exact ih (fun hmem => hc (List.mem_cons_of_mem d hmem)) h

/-- Words joined by spaces are the first of them and, behind a space, what is left. -/
theorem joinWith_eq_append {ws : List Text} (hne : ws ≠ []) :
    ∃ w ∈ ws, ∃ u, joinWith [' '] ws = w ++ u ∧ ∀ c ∈ u.head?, c = ' ' := by
  match ws with
  | [] => exact absurd rfl hne
  | [w] => exact ⟨w, List.mem_cons_self, [], (List.append_nil w).symm, by simp⟩
  | w :: w' :: ws =>
      refine ⟨w, List.mem_cons_self, ' ' :: joinWith [' '] (w' :: ws), ?_, by simp⟩
      simp [joinWith]

/-- Behind a space in joined words stands one of the words. -/
theorem suffix_joinWith {ws : List Text} (hws : ∀ w ∈ ws, IsWord w) {v : Text}
    (h : ' ' :: v <:+ joinWith [' '] ws) :
    ∃ w ∈ ws, ∃ u, v = w ++ u ∧ ∀ c ∈ u.head?, c = ' ' := by
  induction ws with
  | nil => exact absurd (List.suffix_nil.1 h) (by simp)
  | cons w ws ih =>
      have hspace : ' ' ∉ w := fun hmem =>
        absurd ((hws w List.mem_cons_self).not_blank ' ' hmem) (by decide)
      by_cases hne : ws = []
      · subst hne
        exact absurd (h.subset List.mem_cons_self) hspace
      · rw [joinWith_cons hne] at h
        rcases List.suffix_cons_iff.1 (suffix_of_not_mem hspace h) with heq | h
        · obtain ⟨w', hw', u, hu⟩ := joinWith_eq_append hne
          exact ⟨w', List.mem_cons_of_mem w hw', u, (List.cons.inj heq).2.trans hu.1, hu.2⟩
        · obtain ⟨w', hw', hv⟩ := ih (fun x hx => hws x (List.mem_cons_of_mem w hx)) h
          exact ⟨w', List.mem_cons_of_mem w hw', hv⟩

/-! ## Texts in normal form -/

section Normal

variable {n : Text} (hn : normalize n = n)
include hn

theorem eq_space_of_normal {c : Char} (h : c ∈ n) (hblank : Klartext.isBlank c = true) :
    c = ' ' := by
  rw [← hn] at h
  rcases mem_joinWith h with hspace | ⟨w, hw, hmem⟩
  · exact List.mem_singleton.1 hspace
  · rw [(isWord_of_mem_words hw).not_blank c hmem] at hblank
    cases hblank

theorem words_ne_nil_of_normal (hne : n ≠ []) : words n ≠ [] := by
  intro hwords
  rw [normalize, hwords] at hn
  exact hne hn.symm

/-- A text in normal form begins with one of its words, and so does what stands behind a space in
    it. -/
theorem exists_word_of_normal (hne : n ≠ []) {v : Text} (h : ' ' :: v <:+ ' ' :: n) :
    ∃ w ∈ words n, ∃ u, v = w ++ u ∧ ∀ c ∈ u.head?, c = ' ' := by
  have htext : n = joinWith [' '] (words n) := hn.symm
  rcases List.suffix_cons_iff.1 h with heq | h
  · rw [(List.cons.inj heq).2]
    obtain ⟨w, hw, u, hu⟩ := joinWith_eq_append (words_ne_nil_of_normal hn hne)
    exact ⟨w, hw, u, htext.trans hu.1, hu.2⟩
  · rw [htext] at h
    exact suffix_joinWith (fun _ => isWord_of_mem_words) h

theorem flush_of_normal (hne : n ≠ []) (t : Text) : Flush (n ++ t) := by
  obtain ⟨w, hw, u, htext, _⟩ := exists_word_of_normal hn hne (List.suffix_refl _)
  rw [htext, List.append_assoc]
  exact (isWord_of_mem_words hw).flush.append (isWord_of_mem_words hw).ne_nil _

theorem last_of_normal (hne : n ≠ []) : ∃ u c, n = u ++ [c] ∧ Klartext.isBlank c = false := by
  have htext : n = joinWith [' '] (words n) := hn.symm
  rw [htext]
  exact joinWith_last (words_ne_nil_of_normal hn hne) fun w hw =>
    exists_concat (isWord_of_mem_words hw).ne_nil (isWord_of_mem_words hw).not_blank

end Normal

end Text

end Klartext
