import Klartext.Proofs.Enumeration.Written
import Klartext.Proofs.Rules.Words

set_option autoImplicit false

/-! # What lists take

The search for the items of a list tries pieces of a text at any two offsets. What it comes upon is
a list all the same: the pieces that it puts together, with the separators and the join between
them, are all of the text in front of the terminator, in its order. -/

namespace Klartext

open Reader Rules

/-! ## Stretches of a text -/

namespace Text

theorem slice_isInfix (t : Text) (i j : Nat) : slice t i j <:+: t :=
  (List.take_prefix (j - i) (t.drop i)).isInfix.trans (List.drop_suffix i t).isInfix

theorem slice_zero_length (t : Text) : slice t 0 t.length = t := by
  rw [slice, List.drop_zero, Nat.sub_zero, List.take_length]

theorem slice_append {t : Text} {i j k : Nat} (hij : i ≤ j) (hjk : j ≤ k) :
    slice t i k = slice t i j ++ slice t j k := by
  have hk : k - i = (j - i) + (k - j) := by omega
  have hj : t.drop j = (t.drop i).drop (j - i) := by rw [List.drop_drop, Nat.add_sub_cancel' hij]
  rw [slice, slice, slice, hk, hj, List.take_add]

/-- What stands at an occurrence of a literal, cut into the text before it and the rest. -/
theorem eq_of_mem_occurrences {needle t : Text} {i : Nat} (h : i ∈ occurrences needle t) :
    t = t.take i ++ (needle ++ t.drop (i + needle.length)) := by
  obtain ⟨n, -, hn, rest, hrest⟩ := mem_occurrencesFrom.1 h
  rw [Nat.zero_add] at hn
  subst hn
  rw [← List.drop_drop, ← hrest, List.drop_left, hrest, List.take_append_drop]

/-! ## Matches in order -/

theorem le_start_of_mem_matchesFrom {length : Text → Nat} {skip offset : Nat} {t : Text} {s : Span}
    (h : s ∈ matchesFrom length skip offset t) : offset + skip ≤ s.start := by
  induction t generalizing skip offset with
  | nil => cases h
  | cons c t ih =>
      cases skip with
      | succ skip =>
          have hle := ih h
          omega
      | zero =>
          rw [matchesFrom] at h
          split at h
          · have hle := ih h
            omega
          · rcases List.mem_cons.1 h with rfl | h
            · exact Nat.le_refl _
            · have hle := ih h
              omega

/-- Each match ends before the next one begins. -/
theorem pairwise_matchesFrom (length : Text → Nat) (skip offset : Nat) (t : Text) :
    (matchesFrom length skip offset t).Pairwise fun s s' => s.stop ≤ s'.start := by
  induction t generalizing skip offset with
  | nil => exact List.Pairwise.nil
  | cons c t ih =>
      cases skip with
      | succ skip => exact ih skip (offset + 1)
      | zero =>
          rw [matchesFrom]
          split
          · exact ih 0 (offset + 1)
          · rename_i n _
            refine List.pairwise_cons.2 ⟨fun s hs => ?_, ih n (offset + 1)⟩
            have hle := le_start_of_mem_matchesFrom hs
            simp only
            omega

/-- A match that lies within the text, and of which `P` holds. -/
structure Stretch (P : Text → Prop) (t : Text) (s : Span) : Prop where
  holds : P (slice t s.start s.stop)
  le_stop : s.start ≤ s.stop
  stop_le : s.stop ≤ t.length

theorem stretch_of_mem_matchesOf {length : Text → Nat} {P : Text → Prop}
    (hlength : ∀ t, length t ≠ 0 → ∃ s u, t = s ++ u ∧ P s ∧ length t = s.length)
    {t : Text} {s : Span} (h : s ∈ matchesOf length t) : Stretch P t s := by
  obtain ⟨n, hstart, hn, hmatch, hstop⟩ := mem_matchesFrom h
  rw [Nat.zero_add] at hstart
  obtain ⟨u, v, huv, hP, hu⟩ := hlength _ hmatch
  have hsize := congrArg List.length huv
  rw [List.length_drop, List.length_append] at hsize
  refine ⟨?_, by omega, by omega⟩
  rw [slice, hstop, hstart, Nat.add_sub_cancel_left, hu, huv, List.take_left]
  exact hP

end Text

namespace Enumeration

/-! ## Separators and joins -/

theorem isComma_of_separatorLength (t : Text) (h : separatorLength t ≠ 0) :
    ∃ s u, t = s ++ u ∧ IsComma s ∧ separatorLength t = s.length := by
  obtain ⟨b, u, rfl, hb⟩ := separatorLength_ne_zero.1 h
  refine ⟨',' :: b :: u.takeWhile isBlank, u.dropWhile isBlank, ?_,
    ⟨b :: u.takeWhile isBlank, rfl, List.cons_ne_nil b _, ?_⟩, ?_⟩
  · rw [List.cons_append, List.cons_append, List.takeWhile_append_dropWhile]
  · rw [Text.isBlank, List.all_cons, hb, Bool.true_and]
    exact List.all_takeWhile
  · simp [separatorLength, hb]

theorem isUnd_of_joinLength (t : Text) (h : joinLength t ≠ 0) :
    ∃ s u, t = s ++ u ∧ IsUnd s ∧ joinLength t = s.length := by
  obtain ⟨before, after, u, rfl, hbefore, hblank, hafter, hblank', hu⟩ := joinLength_ne_zero h
  refine ⟨before ++ ("und".toList ++ after), u, by simp, ⟨before, after, rfl,
    ⟨hbefore, List.all_eq_true.2 hblank⟩, ⟨hafter, List.all_eq_true.2 hblank'⟩⟩, ?_⟩
  rw [joinLength_eq hbefore hblank hafter hblank' hu]
  simp
  omega

theorem stretch_separator {t : Text} {s : Span} (h : s ∈ separators t) :
    Text.Stretch IsComma t s :=
  Text.stretch_of_mem_matchesOf isComma_of_separatorLength h

theorem stretch_join {t : Text} {s : Span} (h : s ∈ joins t) : Text.Stretch IsUnd t s :=
  Text.stretch_of_mem_matchesOf isUnd_of_joinLength h

/-! ## What a search gives -/

namespace Search

/-- What the search comes to is as `Q` says, and where it ends at too many digits, `E` holds of
    their number. -/
structure Gives {β : Type} (E : Nat → Prop) (Q : β → Prop) (s : Search β) : Prop where
  ok : ∀ {before after : Progress} {b : β}, s before = .ok (b, after) → Q b
  error : ∀ {before : Progress} {count : Nat}, s before = .error (.tooManyDigits count) → E count

variable {β γ : Type} {E : Nat → Prop} {Q : β → Prop} {R : γ → Prop} {s : Search β}

theorem gives_pure {b : β} (h : Q b) : Gives E Q (pure b : Search β) := by
  refine ⟨fun hrun => ?_, fun hrun => by cases hrun⟩
  cases hrun
  exact h

/-- Nothing was found, so that nothing is said of it. -/
theorem gives_none {P : γ → Prop} : Gives E (fun r => ∀ c ∈ r, P c) (pure none) :=
  gives_pure fun _ hc => absurd hc (Option.not_mem_none _)

theorem Gives.bind {f : β → Search γ} (hs : Gives E Q s) (hf : ∀ b, Q b → Gives E R (f b)) :
    Gives E R (s >>= f) := by
  have hrun (before : Progress) :
      (s >>= f) before = (s before >>= fun parts => f parts.1 parts.2) := rfl
  refine ⟨fun {before after c} h => ?_, fun {before count} h => ?_⟩ <;> rw [hrun] at h
  · cases hb : s before with
    | error e => rw [hb] at h; cases h
    | ok parts => rw [hb] at h; exact (hf parts.1 (hs.ok hb)).ok h
  · cases hb : s before with
    | error e => rw [hb] at h; cases h; exact hs.error hb
    | ok parts => rw [hb] at h; exact (hf parts.1 (hs.ok hb)).error h

/-- A search that goes on with what another one found, or without it. -/
theorem Gives.elim {s : Search (Option β)} {P : β → Prop} {f : Option β → Search γ}
    (hs : Gives E (fun r => ∀ b ∈ r, P b) s) (hnone : Gives E R (f none))
    (hsome : ∀ b, P b → Gives E R (f (some b))) : Gives E R (s >>= f) := by
  refine hs.bind fun r hr => ?_
  cases r with
  | none => exact hnone
  | some b => exact hsome b (hr b rfl)

theorem gives_some {P : γ → Prop} {c : γ} (h : P c) :
    Gives E (fun r => ∀ c ∈ r, P c) (pure (some c)) :=
  gives_pure fun _ hc => Option.mem_some.1 hc ▸ h

theorem gives_firstSome {f : β → Search (Option γ)} {P : γ → Prop} {bs : List β}
    (h : ∀ b ∈ bs, Gives E (fun r => ∀ c ∈ r, P c) (f b)) :
    Gives E (fun r => ∀ c ∈ r, P c) (firstSome f bs) := by
  induction bs with
  | nil => exact gives_none
  | cons b bs ih =>
      exact (h b List.mem_cons_self).elim (ih fun c hc => h c (List.mem_cons_of_mem b hc))
        fun c hc => gives_some hc

theorem gives_item? {α : Type} {P : α → Prop} {r : Reading α}
    (hfound : ∀ {a rest}, r = .found a rest → P a)
    (hbroken : ∀ {count}, r = .broken (.tooManyDigits count) → E count) :
    Gives E (fun r => ∀ a ∈ r, P a) (item? r) := by
  match r with
  | .found a rest => exact gives_some (hfound rfl)
  | .missed => exact gives_none
  | .broken (.refused refusal) =>
      refine ⟨fun hrun => ?_, fun hrun => by cases hrun⟩
      cases hrun
      exact nofun
  | .broken .tooDeep => exact ⟨nofun, nofun⟩
  | .broken (.tooManyDigits count) =>
      refine ⟨nofun, fun hrun => ?_⟩
      cases hrun
      exact hbroken rfl

theorem Gives.resume {P : Option γ → Prop} {t : Search (Option γ)} (h : Gives E P t) (room : Nat) :
    Gives E P (resume room (t.run .none)) := by
  refine ⟨fun {before after r} hrun => ?_, fun {before count} hrun => ?_⟩ <;>
    rw [StateT.run] at hrun
  · cases ht : t .none with
    | error e => rw [ht] at hrun; cases hrun
    | ok findings =>
        rw [ht] at hrun
        simp only [Enumeration.resume] at hrun
        split at hrun
        · cases hrun
        · cases hrun
          exact h.ok ht
  · cases ht : t .none with
    | error e => rw [ht] at hrun; cases hrun; exact h.error ht
    | ok findings =>
        rw [ht] at hrun
        simp only [Enumeration.resume] at hrun
        split at hrun <;> cases hrun

end Search

open Search

/-! ## Pieces put together -/

section Items

variable {α : Type} {D : α → Text → Prop} {E : Nat → Prop} {content : Text}
  {piece : Nat → Nat → Search (Option α)} {room : Nat}

/-- A value whose text is a piece with whitespace around it. -/
def Cutout (D : α → Text → Prop) (piece : Text) (a : α) : Prop := ∃ u, Padded u piece ∧ D a u

/-- Values whose texts are put together to `whole` as `Whole` says. -/
def Gathered (D : α → Text → Prop) (Whole : List Text → Text → Prop) (whole : Text)
    (as : List α) : Prop :=
  ∃ items : List (α × Text), as = items.map Prod.fst ∧ Whole (items.map Prod.snd) whole ∧
    ∀ item ∈ items, D item.1 item.2

theorem gathered_one {p : Text} {a : α} (h : Cutout D p a) : Gathered D Row p [a] := by
  obtain ⟨u, hu, hD⟩ := h
  exact ⟨[(a, u)], rfl, .one hu, List.forall_mem_singleton.2 hD⟩

theorem Gathered.row {p s u : Text} {a : α} {as : List α} (ha : Cutout D p a) (hs : IsComma s)
    (h : Gathered D Row u as) : Gathered D Row (p ++ (s ++ u)) (a :: as) := by
  obtain ⟨t, ht, hD⟩ := ha
  obtain ⟨items, rfl, hitems, hDs⟩ := h
  exact ⟨(a, t) :: items, rfl, .cons ht hs hitems, List.forall_mem_cons.2 ⟨hD, hDs⟩⟩

theorem Gathered.listing {p j q : Text} {as : List α} {a : α} (h : Gathered D Row p as)
    (hj : IsUnd j) (ha : Cutout D q a) : Gathered D Listing (p ++ (j ++ q)) (as ++ [a]) := by
  obtain ⟨t, ht, hD⟩ := ha
  obtain ⟨items, rfl, hitems, hDs⟩ := h
  refine ⟨items ++ [(a, t)], by simp, ?_, ?_⟩
  · rw [List.map_append]
    exact .joined hitems hj ht
  · exact List.forall_mem_append.2 ⟨hDs, List.forall_mem_singleton.2 hD⟩

/-- The items up to an `und` and the one behind it are all of the text. -/
theorem gathered_join {join : Span} (hjoin : Text.Stretch IsUnd content join) {as : List α} {a : α}
    (has : Gathered D Row (Text.slice content 0 join.start) as)
    (ha : Cutout D (Text.slice content join.stop content.length) a) :
    Gathered D Listing content (as ++ [a]) := by
  have hlist := has.listing hjoin.holds ha
  rwa [← Text.slice_append hjoin.le_stop hjoin.stop_le,
    ← Text.slice_append (Nat.zero_le _) (Nat.le_trans hjoin.le_stop hjoin.stop_le),
    Text.slice_zero_length] at hlist

variable (hpiece : ∀ i j,
  Gives E (fun r => ∀ a ∈ r, Cutout D (Text.slice content i j) a) (piece i j))
include hpiece

/-- Items with separators between them are all of the text between two offsets. -/
theorem heads_gives {stop : Nat} {seps : List Span}
    (hseps : ∀ s ∈ seps, Text.Stretch IsComma content s ∧ s.stop ≤ stop)
    (horder : seps.Pairwise fun s s' => s.stop ≤ s'.start) (least : Nat) {start : Nat}
    (hstart : ∀ s ∈ seps, start ≤ s.start) :
    Gives E (fun r => ∀ as ∈ r, Gathered D Row (Text.slice content start stop) as)
      (heads piece room stop least start (tailsOf piece room stop seps)) := by
  induction seps generalizing start least with
  | nil =>
      simp only [tailsOf, heads]
      split
      · exact (hpiece start stop).elim gives_none fun a ha => gives_some (gathered_one ha)
      · exact gives_none
  | cons s seps ih =>
      obtain ⟨⟨hs, hstop⟩, hseps⟩ := List.forall_mem_cons.1 hseps
      obtain ⟨hbehind, horder⟩ := List.pairwise_cons.1 horder
      obtain ⟨hle, hstart⟩ := List.forall_mem_cons.1 hstart
      simp only [tailsOf, heads]
      -- without `s` the piece goes on up to a later separator
      have hwithout := ih hseps horder least hstart
      refine (hpiece start s.start).elim hwithout fun a ha => ?_
      refine ((ih hseps horder 1 hbehind).resume room).elim hwithout fun others hothers => ?_
      refine gives_some ?_
      rw [Text.slice_append hle (Nat.le_trans hs.le_stop hstop), Text.slice_append hs.le_stop hstop]
      exact hothers.row ha hs.holds

theorem threeAt_gives {seps : List Span} (hseps : ∀ s ∈ seps, Text.Stretch IsComma content s)
    (horder : seps.Pairwise fun s s' => s.stop ≤ s'.start) {join : Span}
    (hjoin : Text.Stretch IsUnd content join) :
    Gives E (fun r => ∀ as ∈ r, Gathered D Listing content as)
      (threeAt piece room seps content.length join) := by
  have hbefore : ∀ s ∈ seps.filter fun s => s.stop ≤ join.start,
      Text.Stretch IsComma content s ∧ s.stop ≤ join.start := by
    intro s hs
    obtain ⟨hs, hstop⟩ := List.mem_filter.1 hs
    exact ⟨hseps s hs, by simpa using hstop⟩
  refine (heads_gives hpiece hbefore (horder.filter _) 2 fun s _ => Nat.zero_le _).elim gives_none
    fun others hothers => ?_
  refine (hpiece join.stop content.length).elim gives_none fun a ha => gives_some ?_
  exact gathered_join hjoin hothers ha

theorem twoAt_gives {join : Span} (hjoin : Text.Stretch IsUnd content join) :
    Gives E (fun r => ∀ as ∈ r, Gathered D Listing content as)
      (twoAt piece content.length join) := by
  refine (hpiece 0 join.start).elim gives_none fun a ha => ?_
  refine (hpiece join.stop content.length).elim gives_none fun b hb => gives_some ?_
  exact gathered_join hjoin (gathered_one ha) hb

theorem oneAt_gives :
    Gives E (fun r => ∀ as ∈ r, Gathered D Listing content as) (oneAt piece content.length) := by
  refine (hpiece 0 content.length).elim gives_none fun a ha => gives_some ?_
  obtain ⟨u, hu, hD⟩ := ha
  rw [Text.slice_zero_length] at hu
  exact ⟨[(a, u)], rfl, .one hu, List.forall_mem_singleton.2 hD⟩

end Items

/-- What is found in a text are the items of a list that is the whole text. -/
theorem itemsOf_gives {α : Type} {D : α → Text → Prop} {item : Reader α} (h : Reads D item)
    (room : Nat) (content : Text) :
    Gives (LongFraction · content) (fun r => ∀ as ∈ r, Gathered D Listing content as)
      (itemsOf item room content) := by
  have hpiece (i j : Nat) : Gives (LongFraction · content)
      (fun r => ∀ a ∈ r, Cutout D (Text.slice content i j) a)
      (item? (item.complete (Text.slice content i j))) :=
    gives_item? (fun hread => h.complete hread)
      fun hread => (h.complete_broken hread).mono (Text.slice_isInfix content i j)
  have hseps : ∀ s ∈ separators content, Text.Stretch IsComma content s :=
    fun s hs => stretch_separator hs
  have horder : (separators content).Pairwise fun s s' => s.stop ≤ s'.start :=
    Text.pairwise_matchesFrom separatorLength 0 0 content
  rw [itemsOf_eq, items_eq]
  refine (gives_firstSome fun join hjoin =>
    threeAt_gives hpiece hseps horder (stretch_join ?_)).elim ?_ fun _ hfound => gives_some hfound
  · split at hjoin
    · cases hjoin
    · exact hjoin
  · exact (gives_firstSome fun join hjoin => twoAt_gives hpiece (stretch_join hjoin)).elim
      (oneAt_gives hpiece) fun _ hfound => gives_some hfound

end Enumeration

namespace Reader

open Enumeration

/-- A list is taken with its terminator, and all of the text before the terminator is the list. -/
theorem reads_listUntil {α : Type} {D : α → Text → Prop} {item : Reader α} (h : Reads D item)
    (terminator : Text) (room : Nat) :
    Reads (fun as u => ∃ list, u = list ++ terminator ∧ Gathered D Listing list as)
      (listUntil terminator item room) := by
  have hsearch (t : Text) : Search.Gives (LongFraction · t)
      (fun r => ∀ c ∈ r, t = t.take c.2 ++ (terminator ++ t.drop (c.2 + terminator.length)) ∧
        Gathered D Listing (t.take c.2) c.1)
      (firstSome (listAt item room t) (Text.occurrences terminator t)) := by
    refine Search.gives_firstSome fun index hindex => ?_
    have hitems := itemsOf_gives h room (t.take index)
    -- what stands in the list stands in the text, and so does a fraction that is too long
    have hlonger : Search.Gives (LongFraction · t)
        (fun r => ∀ as ∈ r, Gathered D Listing (t.take index) as)
        (itemsOf item room (t.take index)) :=
      ⟨hitems.ok, fun hrun => (hitems.error hrun).mono (List.take_prefix index t).isInfix⟩
    exact hlonger.elim Search.gives_none fun found hfound =>
      Search.gives_some ⟨Text.eq_of_mem_occurrences hindex, hfound⟩
  refine ⟨fun {t as rest} hread => ?_, fun {t count} hread => ?_⟩ <;> rw [listUntil_eq] at hread
  · split at hread
    · rename_i found index _ hrun
      cases hread
      obtain ⟨ht, hlist⟩ := (hsearch t).ok hrun _ rfl
      refine ⟨t.take index ++ terminator, ?_, t.take index, rfl, hlist⟩
      rwa [List.append_assoc]
    · cases hread
    · cases hread
    · cases hread
  · split at hread
    · cases hread
    · cases hread
    · cases hread
    · rename_i e hrun
      cases hread
      exact (hsearch t).error hrun

/-- Values up to a closing phrase, each with whitespace before it or none. -/
theorem Reads.manyUntil {α : Type} {D : α → Text → Prop} {L : List α → Text → Prop} {p : Reader α}
    (h : Reads D p) {closing : String}
    (hnil : ∀ {blank u}, Text.isBlank blank = true → Phrase closing u → L [] (blank ++ u))
    (hcons : ∀ {blank a as u v}, Text.isBlank blank = true → D a u → L as v →
      L (a :: as) (blank ++ (u ++ v))) : Reads L (manyUntil p closing) := by
  have hgo (bound : Nat) : Reads L (manyUntil.go p closing bound) := by
    induction bound with
    | zero => exact reads_miss
    | succ bound ih =>
        refine reads_blanks.bind fun _ blank hblank => Reads.orElse ?_ ?_
        · refine (reads_phrase closing).bind fun _ u hu => reads_pure ?_
          rw [List.append_nil]
          exact hnil hblank hu
        · refine h.bind fun a u hu => ih.bind fun as v hv => reads_pure ?_
          rw [List.append_nil]
          exact hcons hblank hu hv
  exact ⟨fun hread => (hgo _).found hread, fun hread => (hgo _).broken hread⟩

end Reader

end Klartext
