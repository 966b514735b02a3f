import Klartext.Proofs.Contract.Extractor
import Klartext.Proofs.Rules.Words

set_option autoImplicit false

/-! # Extractors of words

The small extractors: whitespace, literals and phrases, digits, names up to a terminator, and text
between quotation marks. Each puts the text back by itself where it has no value. -/

namespace Klartext

open Reader (Reads)

namespace Extractor

variable {α : Type}

/-- Where a reader misses, it has taken nothing. -/
theorem reports_of_reads {D : α → Text → Prop} {q : Reader α} (h : Reads D q) :
    Reports q.report q := by
  refine reports_report fun {t rest a} hq => ?_
  obtain ⟨used, rfl, -⟩ := h.found hq
  exact List.suffix_append used rest

/-! ## Elements

They match the front of a text or they do not; what they would have taken is their own affair. -/

/-- A literal at the front of the text. -/
def token (s : Text) : Extractor Text := (Reader.literal s).report

/-- The longest of several literals that stands at the front of the text. -/
def oneOf (literals : List Text) : Extractor Text := (Reader.longestOf literals).report

/-- The text between two boundaries. -/
def enclosed (boundary : Text) : Extractor Text := (Reader.between boundary).report

theorem reports_token (s : Text) : Reports (token s) (Reader.literal s) :=
  reports_of_reads (Reader.reads_literal s)

theorem reports_oneOf (literals : List Text) : Reports (oneOf literals) (Reader.longestOf literals) :=
  reports_of_reads (Reader.reads_longestOf literals)

theorem reports_enclosed : Reports (enclosed ['\"']) (Reader.between ['\"']) :=
  reports_of_reads Reader.reads_between

/-! ## Whitespace and phrases -/

/-- Whitespace, possibly none. -/
def whitespace : Extractor Text := fun t =>
  return (some (t.takeWhile isBlank), t.dropWhile isBlank)

/-- Whitespace, at least one character of it. -/
def whitespace1 : Extractor Text := fun t => do
  let (some kept, rest) ← whitespace t | return (none, t)
  if kept.isEmpty then return (none, t) else return (some kept, rest)

/-- Takes words one after the other off what is left of the whole text, with whitespace before each
    but the first. -/
def wordsFrom (whole : Text) : List Text → Extractor Unit
  | [], rest => return (some (), rest)
  | [word], rest => do
    let (some _, rest) ← token word rest | return (none, whole)
    return (some (), rest)
  | word :: others, rest => do
    let (some _, rest) ← token word rest | return (none, whole)
    let (some _, rest) ← whitespace1 rest | return (none, whole)
    wordsFrom whole others rest

/-- The words of a phrase, in any spacing. -/
def phrase (s : String) : Extractor Unit := fun t => wordsFrom t (Text.words s.toList) t

theorem reports_whitespace : Reports whitespace Reader.blanks :=
  fun _ => .found (List.dropWhile_suffix isBlank)

theorem reports_whitespace1 : Reports whitespace1 Reader.blanks1 := by
  intro t
  rw [Reader.blanks1]
  show Answers t (if (t.takeWhile isBlank).isEmpty then .ok (none, t)
    else .ok (some (t.takeWhile isBlank), t.dropWhile isBlank)) _
  split
  · exact .missed
  · exact .found (List.dropWhile_suffix isBlank)

theorem answers_wordsFrom (ws : List Text) {whole rest : Text} (hrest : rest <:+ whole) :
    Answers whole (wordsFrom whole ws rest) (Reader.inOrder ws rest) := by
  induction ws generalizing rest with
  | nil => exact .found hrest
  | cons word others ih =>
      cases others with
      | nil =>
          rw [wordsFrom, Reader.inOrder, Reader.bind_apply]
          exact (reports_token word).elim (fun _ _ hnext => .found (hnext.trans hrest)) .missed
            .broken
      | cons next others =>
          show Answers whole (token word rest >>= _) ((Reader.literal word >>= _) rest)
          rw [Reader.bind_apply]
          refine (reports_token word).elim (fun _ behind hword => ?_) .missed .broken
          show Answers whole (whitespace1 behind >>= _) ((Reader.blanks1 >>= _) behind)
          rw [Reader.bind_apply]
          refine reports_whitespace1.elim (fun _ _ hgap => ?_) .missed .broken
          exact ih (hgap.trans (hword.trans hrest))

theorem reports_phrase (s : String) : Reports (phrase s) (Reader.phrase s) :=
  fun _ => answers_wordsFrom _ List.suffix_rfl

theorem phrase_ne_error (s : String) (t : Text) (e : Failure) : phrase s t ≠ .error e := by
  have hreader := Reader.neverBreaks_phrase s t e
  rw [← (reports_phrase s).reader_eq, reader] at hreader
  rintro hphrase
  rw [hphrase] at hreader
  exact hreader rfl

/-! ## Digits -/

/-- A run of digits in groups divided by points. A run that ends in a point is none. -/
def digits : Extractor Text := fun t =>
  let run := Reader.digitRun (some '.') false 0 t
  if run.digits.isEmpty || run.unfinished then return (none, t)
  else return (some run.digits, run.rest)

theorem reports_digits : Reports digits (Reader.digits (some '.')) := by
  have hreport : digits = (Reader.digits (some '.')).report := by
    funext t
    rw [digits, Reader.report, Reader.digits]
    split <;> rfl
  rw [hreport]
  exact reports_of_reads Reader.reads_digits

/-! ## Names -/

/-- The text up to the first terminator, which is taken too. It may hold none of `excluded`. -/
def textUntil (terminator : Text) (excluded : List Text) : Extractor Text := fun t =>
  match Text.splitFirst? terminator t with
  | none => return (none, t)
  | some (head, rest) =>
    if excluded.any fun s => Text.holds s head then return (none, t) else return (some head, rest)

/-- The name, in normal form and not empty, up to the first terminator. -/
def nameUntil (terminator : Text) (excluded : List Text) : Extractor Text := fun t => do
  let (some raw, rest) ← textUntil terminator excluded t | return (none, t)
  let name := Text.normalize raw
  if name.isEmpty then return (none, t) else return (some name, rest)

/-- A whole text as a plain name, of which nothing is left. -/
def plainName : Extractor Text := fun t =>
  let name := Text.normalize t
  if name.isEmpty || name.contains ',' || name.contains '!'
      || (Text.words name).contains ['u', 'n', 'd'] then return (none, t)
  else return (some name, [])

theorem reports_textUntil (terminator : Text) (excluded : List Text) :
    Reports (textUntil terminator excluded) (Reader.textUntil terminator excluded) := by
  intro t
  rw [textUntil, Reader.textUntil]
  cases hsplit : Text.splitFirst? terminator t with
  | none => exact .missed
  | some parts =>
      simp only
      split
      · exact .missed
      · rw [Text.splitFirst?_eq_some hsplit]
        exact .found ((List.suffix_append _ _).trans (List.suffix_append _ _))

theorem reports_nameUntil (terminator : Text) (excluded : List Text) :
    Reports (nameUntil terminator excluded) (Reader.nameUntil terminator excluded) := by
  intro t
  rw [nameUntil, Reader.nameUntil, Reader.bind_apply]
  refine (reports_textUntil terminator excluded).elim (fun raw rest hrest => ?_) .missed .broken
  show Answers t
    (if (Text.normalize raw).isEmpty then .ok (none, t) else .ok (some (Text.normalize raw), rest))
    ((if (Text.normalize raw).isEmpty then Reader.miss else pure (Text.normalize raw)) rest)
  split
  · exact .missed
  · exact .found hrest

theorem reports_plainName : Reports plainName Reader.plainName := by
  intro t
  rw [plainName, Reader.plainName]
  split
  · exact .missed
  · exact .found List.nil_suffix

end Extractor

end Klartext
