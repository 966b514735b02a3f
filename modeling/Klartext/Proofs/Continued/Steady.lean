import Klartext.Proofs.Continued.Lead
import Klartext.Proofs.Continued.Mark

set_option autoImplicit false

/-! # Readers that keep what they found

A reader is *steady* if it finds the same where more stands behind the text, provided that what is
behind the value begins as it should. Expressions are read so. Of statements it holds text by text
only, and with two reservations that are a matter of the text: `SteadyAt` leaves open which they
are. -/

namespace Klartext

open Reader Rules

namespace Reader

variable {α β : Type} {F G : Text → Prop} {K L M : List (List Text)} {p q : Reader α}
  {f : α → Reader β}

/-! ## Steadiness -/

/-- With more behind the text the reader finds what it found without, where `F` holds of what is
    behind the value. -/
structure Steady (F : Text → Prop) (p : Reader α) : Prop where
  suffix : ∀ {t : Text} {a : α} {rest : Text}, p t = .found a rest → rest <:+ t
  readsOn : ∀ {t : Text} {a : α} {rest : Text}, p t = .found a rest → F rest →
    ∀ more, p (t ++ more) = .found a (rest ++ more)

/-- There is an exclamation mark in the text. -/
def Marked (t : Text) : Prop := '!' ∈ t

/-- There is an exclamation mark in the text, and the text begins with one of the lists of words. -/
structure Follows (K : List (List Text)) (t : Text) : Prop where
  mark : Marked t
  begins : ∃ ws ∈ K, Begins ws t

theorem Marked.mono {u t : Text} (h : Marked u) (hsuffix : u <:+ t) : Marked t :=
  hsuffix.subset h

theorem Follows.mono {t : Text} (h : Follows K t) (hKL : ∀ ws ∈ K, ws ∈ L) : Follows L t := by
  obtain ⟨hmark, ws, hws, hbegins⟩ := h
  exact ⟨hmark, ws, hKL ws hws, hbegins⟩

theorem StopsAtMark.steady (h : StopsAtMark p) : Steady Marked p := by
  refine ⟨h.suffix, fun hp hmark more => ?_⟩
  have hmarked := (show Marked _ from hmark).mono (h.suffix hp)
  rw [h.longer hmarked more, hp]
  rfl

theorem steady_pure (a : α) : Steady F (pure a : Reader α) := by
  refine ⟨fun hp => ?_, fun hp _ more => ?_⟩ <;> cases hp
  · exact List.suffix_refl _
  · rfl

/-- The second reader goes on where the first one stopped, and what it finds there is what the first
    one asks of the text behind it. -/
theorem Steady.bind (hp : Steady G p) (hf : ∀ a, Steady F (f a))
    (hG : ∀ {a u b rest}, f a u = .found b rest → F rest → G u) : Steady F (p >>= f) := by
  refine ⟨fun h => ?_, fun h hF more => ?_⟩
  · obtain ⟨a, u, hpt, hread⟩ := bind_eq_found.1 h
    exact ((hf a).suffix hread).trans (hp.suffix hpt)
  · obtain ⟨a, u, hpt, hread⟩ := bind_eq_found.1 h
    rw [bind_found (hp.readsOn hpt (hG hread hF) more)]
    exact (hf a).readsOn hread hF more

/-- What is made of the value changes nothing about the text. -/
theorem Steady.map {g : α → β} (hp : Steady F p) : Steady F (p >>= fun a => pure (g a)) :=
  hp.bind (fun _ => steady_pure _) fun hread hrest => by
    cases hread
    exact hrest

theorem Steady.andThen (hp : Steady Marked p) (hf : ∀ a, Steady F (f a))
    (hF : ∀ t, F t → Marked t) : Steady F (p >>= f) :=
  hp.bind hf fun hread hrest => (hF _ hrest).mono ((hf _).suffix hread)

/-- The first reader asks for words behind its value, and the second one begins with them. -/
theorem Steady.before (hp : Steady (Follows K) p) (hf : ∀ a, Steady F (f a))
    (hstarts : ∀ a, Starts K (f a)) (hF : ∀ t, F t → Marked t) : Steady F (p >>= f) :=
  hp.bind hf fun hread hrest =>
    ⟨(hF _ hrest).mono ((hf _).suffix hread), (hstarts _).begins hread⟩

theorem StopsAtMark.andThen (hp : StopsAtMark p) (hf : ∀ a, Steady Marked (f a)) :
    Steady Marked (p >>= f) :=
  hp.steady.andThen hf fun _ => id

theorem Steady.orRefuse (hp : Steady F p) (refusal : Text → Refusal) :
    Steady F (p.orRefuse refusal) := by
  have hfound {t : Text} {a : α} {rest : Text} :
      p.orRefuse refusal t = .found a rest ↔ p t = .found a rest := by
    rw [Reader.orRefuse]
    cases p t <;> simp
  exact ⟨fun h => hp.suffix (hfound.1 h), fun h hF more =>
    hfound.2 (hp.readsOn (hfound.1 h) hF more)⟩

/-! ## Alternatives -/

/-- Where the first reader misses and the second one finds something, the first one misses also with
    more behind the text. -/
structure Apart (F : Text → Prop) (p q : Reader α) : Prop where
  missed : ∀ {t : Text} {a : α} {rest : Text}, p t = .missed → q t = .found a rest → F rest →
    ∀ more, p (t ++ more) = .missed

theorem apart_of_leads (hp : Leads L p) (hq : Starts M q) (h : clashAll L M = true) :
    Apart F p q :=
  ⟨fun _ hqt _ more => hp.missed h (hq.begins hqt) more⟩

/-- What is expected behind an alternative that takes nothing does not begin as the other one. -/
theorem apart_pure (hp : Leads L p) (h : clashAll L K = true) (a : α) :
    Apart (Follows K) p (pure a) := by
  refine ⟨fun _ hqt hrest more => ?_⟩
  cases hqt
  exact hp.missed h hrest.begins more

/-- In a text with an exclamation mark, what the reader misses it misses when more stands behind
    it. -/
structure Settled (p : Reader α) : Prop where
  missed : ∀ {t : Text}, Marked t → p t = .missed → ∀ more, p (t ++ more) = .missed

theorem StopsAtMark.settled (h : StopsAtMark p) : Settled p := by
  refine ⟨fun hmark hp more => ?_⟩
  rw [h.longer hmark more, hp]
  rfl

theorem settled_orRefuse (p : Reader α) (refusal : Text → Refusal) :
    Settled (p.orRefuse refusal) := by
  refine ⟨fun {t} _ hmissed => ?_⟩
  rw [Reader.orRefuse] at hmissed
  split at hmissed
  · cases hmissed
  · rename_i hp
    exact absurd hmissed hp

theorem StopsAtMark.bind_settled (hp : StopsAtMark p) (hf : ∀ a, Settled (f a)) :
    Settled (p >>= f) := by
  refine ⟨fun {t} hmark hmissed more => ?_⟩
  rw [bind_apply] at hmissed ⊢
  rw [hp.longer hmark more]
  cases hpt : p t with
  | found a u =>
      rw [hpt] at hmissed
      exact (hf a).missed (hp.mark hmark hpt) hmissed more
  | missed => rfl
  | broken e => rw [hpt] at hmissed; cases hmissed

theorem Settled.map {g : α → β} (hp : Settled p) : Settled (p >>= fun a => pure (g a)) := by
  refine ⟨fun {t} hmark hmissed more => bind_missed (hp.missed hmark ?_ more)⟩
  rw [bind_apply] at hmissed
  split at hmissed
  · cases hmissed
  · assumption
  · cases hmissed

theorem Settled.apart (hp : Settled p) (hq : Steady F q) (hF : ∀ t, F t → Marked t) :
    Apart F p q :=
  ⟨fun hmissed hqt hrest more => hp.missed ((hF _ hrest).mono (hq.suffix hqt)) hmissed more⟩

theorem Steady.orElse (hp : Steady F p) (hq : Steady F q) (hapart : Apart F p q) :
    Steady F (p <|> q) := by
  refine ⟨fun h => ?_, fun {t a rest} h hF more => ?_⟩
  · rcases orElse_eq_found.1 h with hpt | ⟨-, hqt⟩
    · exact hp.suffix hpt
    · exact hq.suffix hqt
  · rcases orElse_eq_found.1 h with hpt | ⟨hpt, hqt⟩
    · exact orElse_eq_found.2 (.inl (hp.readsOn hpt hF more))
    · exact orElse_eq_found.2 (.inr ⟨hapart.missed hpt hqt hF more, hq.readsOn hqt hF more⟩)

theorem Apart.orElse {r : Reader α} (hq : Apart F p q) (hr : Apart F p r) :
    Apart F p (q <|> r) := by
  refine ⟨fun {t a rest} hmissed hqt hrest more => ?_⟩
  rcases orElse_eq_found.1 hqt with hqt | ⟨-, hrt⟩
  · exact hq.missed hmissed hqt hrest more
  · exact hr.missed hmissed hrt hrest more

theorem apart_firstOf {readers : List (Reader α)} (h : ∀ r ∈ readers, Apart F p r) :
    Apart F p (firstOf readers) := by
  induction readers with
  | nil => exact ⟨fun _ hq => by cases hq⟩
  | cons r others ih =>
      exact (h r List.mem_cons_self).orElse (ih fun s hs => h s (List.mem_cons_of_mem r hs))

theorem steady_firstOf {readers : List (Reader α)} (h : ∀ r ∈ readers, Steady F r)
    (hapart : readers.Pairwise (Apart F)) : Steady F (firstOf readers) := by
  induction readers with
  | nil => exact ⟨fun hp => (by cases hp), fun hp => by cases hp⟩
  | cons r others ih =>
      obtain ⟨hr, hothers⟩ := List.forall_mem_cons.1 h
      obtain ⟨hfirst, hrest⟩ := List.pairwise_cons.1 hapart
      exact hr.orElse (ih hothers hrest) (apart_firstOf hfirst)

/-! ## Steadiness at a text -/

/-- What keeps a reader from finding again what it found, each as a property of the text that stands
    behind: what could not be a list before is one now that may be too long, or anything else may
    become of the text. -/
structure Hazards where
  overlong : Text → Prop
  overtaken : Text → Prop

/-- With `more` behind the text it comes to one of the hazards. If that is a list that is too long,
    reading breaks off as it does at a text that is nested too deeply. -/
def Hazards.Met (H : Hazards) (more : Text) (r : Reading α) : Prop :=
  (r = .broken .tooDeep ∧ H.overlong more) ∨ H.overtaken more

/-- At a text, the reader finds with more behind it what it found without, or it meets a hazard. -/
structure SteadyAt (H : Hazards) (F : Text → Prop) (p : Reader α) (t : Text) : Prop where
  suffix : ∀ {a : α} {rest : Text}, p t = .found a rest → rest <:+ t
  readsOn : ∀ {a : α} {rest : Text}, p t = .found a rest → F rest →
    ∀ more, p (t ++ more) = .found a (rest ++ more) ∨ H.Met more (p (t ++ more))

variable {H : Hazards} {t more : Text}

theorem Hazards.Met.imp {r : Reading α} {r' : Reading β} (h : H.Met more r)
    (hdeep : r = .broken .tooDeep → r' = .broken .tooDeep) : H.Met more r' :=
  h.imp_left fun ⟨hr, hover⟩ => ⟨hdeep hr, hover⟩

theorem Hazards.Met.bind (h : H.Met more (p t)) : H.Met more ((p >>= f) t) :=
  h.imp fun hdeep => by rw [bind_apply, hdeep]

theorem Hazards.Met.orElse (h : H.Met more (p t)) : H.Met more ((p <|> q) t) :=
  h.imp fun hdeep => by rw [orElse_apply, hdeep]

theorem Steady.at (h : Steady F p) (t : Text) : SteadyAt H F p t :=
  ⟨h.suffix, fun hp hF more => .inl (h.readsOn hp hF more)⟩

theorem SteadyAt.mono (h : SteadyAt H F p t) (hGF : ∀ t, G t → F t) : SteadyAt H G p t :=
  ⟨h.suffix, fun hp hG => h.readsOn hp (hGF _ hG)⟩

theorem SteadyAt.weaken {H' : Hazards} (h : SteadyAt H F p t)
    (hover : ∀ {more}, H.overlong more → H'.overlong more)
    (hovertaken : ∀ {more}, H.overtaken more → H'.overtaken more) : SteadyAt H' F p t :=
  ⟨h.suffix, fun hp hF more => (h.readsOn hp hF more).imp_right fun hmet =>
    Or.imp (fun ⟨hr, hlong⟩ => ⟨hr, hover hlong⟩) hovertaken hmet⟩

theorem SteadyAt.bind (hp : SteadyAt H G p t)
    (hf : ∀ {a u}, p t = .found a u → SteadyAt H F (f a) u)
    (hG : ∀ {a u b rest}, p t = .found a u → f a u = .found b rest → F rest → G u) :
    SteadyAt H F (p >>= f) t := by
  refine ⟨fun h => ?_, fun h hF more => ?_⟩
  · obtain ⟨a, u, hpt, hread⟩ := bind_eq_found.1 h
    exact ((hf hpt).suffix hread).trans (hp.suffix hpt)
  · obtain ⟨a, u, hpt, hread⟩ := bind_eq_found.1 h
    rcases hp.readsOn hpt (hG hpt hread hF) more with hmore | hmet
    · rw [bind_found hmore]
      exact (hf hpt).readsOn hread hF more
    · exact .inr hmet.bind

theorem SteadyAt.map {g : α → β} (hp : SteadyAt H F p t) :
    SteadyAt H F (p >>= fun a => pure (g a)) t :=
  hp.bind (fun _ => (steady_pure _).at _) fun _ hread hrest => by
    cases hread
    exact hrest

theorem SteadyAt.andThen (hp : SteadyAt H Marked p t)
    (hf : ∀ {a u}, p t = .found a u → SteadyAt H Marked (f a) u) :
    SteadyAt H Marked (p >>= f) t :=
  hp.bind hf fun hpt hread hrest => hrest.mono ((hf hpt).suffix hread)

theorem SteadyAt.before (hp : SteadyAt H (Follows K) p t)
    (hf : ∀ {a u}, p t = .found a u → SteadyAt H Marked (f a) u) (hstarts : ∀ a, Starts K (f a)) :
    SteadyAt H Marked (p >>= f) t :=
  hp.bind hf fun hpt hread hrest =>
    ⟨hrest.mono ((hf hpt).suffix hread), (hstarts _).begins hread⟩

theorem SteadyAt.orElse (hp : SteadyAt H F p t) (hq : SteadyAt H F q t)
    (hapart : ∀ {a rest}, p t = .missed → q t = .found a rest → F rest →
      ∀ more, p (t ++ more) = .missed ∨ H.Met more (p (t ++ more))) :
    SteadyAt H F (p <|> q) t := by
  refine ⟨fun h => ?_, fun {a rest} h hF more => ?_⟩
  · rcases orElse_eq_found.1 h with hpt | ⟨-, hqt⟩
    · exact hp.suffix hpt
    · exact hq.suffix hqt
  · rcases orElse_eq_found.1 h with hpt | ⟨hpt, hqt⟩
    · exact (hp.readsOn hpt hF more).imp (fun hmore => orElse_eq_found.2 (.inl hmore)) .orElse
    · rcases hapart hpt hqt hF more with hmissed | hmet
      · rw [orElse_of_missed hmissed]
        exact hq.readsOn hqt hF more
      · exact .inr hmet.orElse

theorem SteadyAt.optional (hp : SteadyAt H (Follows K) p t) (hlead : Leads L p)
    (h : clashAll L K = true) : SteadyAt H (Follows K) (optional p) t :=
  hp.map.orElse ((steady_pure none).at t) fun hmissed hnothing hrest more =>
    .inl ((apart_pure hlead.andThen h none).missed hmissed hnothing hrest more)

end Reader

end Klartext
