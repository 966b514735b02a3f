import Klartext.Reader.Basic

set_option autoImplicit false

/-! # Readers of words

The small readers from which the grammar is built: whitespace, literals and phrases, digits, names
up to a terminator, and text between quotation marks. -/

namespace Klartext

namespace Reader

variable {α : Type}

/-! ## Single characters -/

/-- What a scan does with a character. -/
inductive Verdict where
  | keep
  | skip
  | stop
  deriving Repr, DecidableEq

/-- The characters from index `index` on up to the first one that stops the scan, those it skips
    left out, and the rest. -/
def scanFrom (judge : Char → Nat → Verdict) (index : Nat) : Text → Text × Text
  | [] => ([], [])
  | c :: t =>
    match judge c index with
    | .stop => ([], c :: t)
    | .skip => scanFrom judge (index + 1) t
    | .keep =>
      let others := scanFrom judge (index + 1) t
      (c :: others.1, others.2)

/-- The characters up to the first one that stops the scan. -/
def scan (judge : Char → Nat → Verdict) : Reader Text := fun t =>
  let parts := scanFrom judge 0 t
  .found parts.1 parts.2

/-- A scan that keeps at least one character. -/
def scan1 (judge : Char → Nat → Verdict) : Reader Text := fun t =>
  let parts := scanFrom judge 0 t
  if parts.1.isEmpty then .missed else .found parts.1 parts.2

/-- Whitespace, possibly none. -/
def blanks : Reader Text := fun t => .found (t.takeWhile isBlank) (t.dropWhile isBlank)

/-- Whitespace, at least one character of it. -/
def blanks1 : Reader Text := fun t =>
  if (t.takeWhile isBlank).isEmpty then .missed
  else .found (t.takeWhile isBlank) (t.dropWhile isBlank)

/-! ## Literals -/

/-- A literal at the front of the text. -/
def literal (s : Text) : Reader Text := fun t =>
  if s.isPrefixOf t then .found s (t.drop s.length) else .missed

/-- The longest of several literals that stands at the front of the text. -/
def longestOf (literals : List Text) : Reader Text := fun t =>
  let hits := literals.filter fun s => s.isPrefixOf t
  let longest := hits.foldl
    (fun best s => match best with
      | none => some s
      | some b => if b.length < s.length then some s else best) none
  match longest with
  | some s => .found s (t.drop s.length)
  | none => .missed

/-- Words one after the other, with whitespace before each but the first. -/
def inOrder : List Text → Reader Unit
  | [] => pure ()
  | [word] => do
    let _ ← literal word
  | word :: others => do
    let _ ← literal word
    let _ ← blanks1
    inOrder others

/-- The words of a phrase, in any spacing. -/
def phrase (s : String) : Reader Unit := inOrder (Text.words s.toList)

/-! ## Digits -/

/-- The front of a text that a run of grouped digits takes. -/
structure DigitRun where
  digits : Text
  /-- The last character taken is a separator. -/
  unfinished : Bool
  rest : Text

/-- Takes digits and single separators off a text, of which `index` characters are taken already,
    the last of them a separator if `unfinished`. A separator neither opens the run nor follows
    another one. -/
def digitRun (separator : Option Char) (unfinished : Bool) (index : Nat) : Text → DigitRun
  | [] => ⟨[], unfinished, []⟩
  | c :: t =>
    if some c = separator then
      if index = 0 || unfinished then ⟨[], unfinished, c :: t⟩
      else digitRun separator true (index + 1) t
    else if c.isDigit then
      let others := digitRun separator false (index + 1) t
      { others with digits := c :: others.digits }
    else ⟨[], unfinished, c :: t⟩

/-- A run of ASCII digits, which a separator may divide into groups. The separator is dropped; it
    neither opens nor closes the run and is not doubled. -/
def digits (separator : Option Char) : Reader Text := fun t =>
  let run := digitRun separator false 0 t
  if run.digits.isEmpty || run.unfinished then .missed else .found run.digits run.rest

/-- The most digits that are converted to a whole number. -/
def digitLimit : Nat := 4300

/-- The whole number that digits denote, unless there are too many of them. -/
def wholeNumber (digits : Text) : Reader Nat :=
  if digitLimit < digits.length then breakOff (.tooManyDigits digits.length)
  else pure (digits.foldl (fun n c => 10 * n + (c.toNat - '0'.toNat)) 0)

/-- A whole number, its digits in groups divided by points. -/
def number : Reader Nat := do
  wholeNumber (← digits (some '.'))

/-! ## Names -/

/-- The text up to the first `terminator`, which is taken too. It may hold none of `excluded`. -/
def textUntil (terminator : Text) (excluded : List Text) : Reader Text := fun t =>
  match Text.splitFirst? terminator t with
  | none => .missed
  | some (head, rest) =>
    if excluded.any fun s => Text.holds s head then .missed else .found head rest

/-- The name, in normal form and not empty, up to the first `terminator`. -/
def nameUntil (terminator : Text) (excluded : List Text) : Reader Text := do
  let raw ← textUntil terminator excluded
  let name := Text.normalize raw
  if name.isEmpty then miss else pure name

/-- A whole text as a plain name: not empty, without comma and exclamation mark, and none of its
    words is `und`. -/
def plainName : Reader Text := fun t =>
  let name := Text.normalize t
  if name.isEmpty || name.contains ',' || name.contains '!'
      || (Text.words name).contains ['u', 'n', 'd'] then .missed
  else .found name []

/-! ## Enclosed text -/

/-- The raw text up to a closing `boundary`, and the rest behind it. The first `owed` characters
    belong to the text whatever they are.

    At each character these are tried in order, each with all that may follow it: a backslash with
    the character behind it; a proper beginning of the boundary that the rest of the boundary does
    not follow, the longest first; a character that neither is a backslash nor begins the boundary;
    the boundary itself, which closes the text. -/
def closing (boundary : Text) : (owed : Nat) → Text → Option (Text × Text)
  | _, [] => none
  | owed + 1, c :: t => (closing boundary owed t).map fun parts => (c :: parts.1, parts.2)
  | 0, c :: t =>
    (if c == '\\' then (closing boundary 1 t).map fun parts => (c :: parts.1, parts.2) else none)
    <|> ((List.range (boundary.length - 1)).reverse.findSome? fun n =>
      if (boundary.take (n + 1)).isPrefixOf (c :: t)
          && !(boundary.drop (n + 1)).isPrefixOf (t.drop n) then
        (closing boundary n t).map fun parts => (c :: parts.1, parts.2)
      else none)
    <|> (if c != '\\' && some c != boundary.head? then
      (closing boundary 0 t).map fun parts => (c :: parts.1, parts.2) else none)
    <|> (if boundary.isPrefixOf (c :: t) then some ([], (c :: t).drop boundary.length) else none)

/-- Text without its escapes: a backslash stands for the character behind it. -/
def unescape : Text → Text
  | [] => []
  | ['\\'] => ['\\']
  | '\\' :: c :: t => c :: unescape t
  | c :: t => c :: unescape t

/-- The text between two boundaries. Inside, a backslash makes the character behind it plain. -/
def between (boundary : Text) : Reader Text := fun t =>
  if boundary.isPrefixOf t then
    match closing boundary 0 (t.drop boundary.length) with
    | some (raw, rest) => .found (unescape raw) rest
    | none => .missed
  else .missed

/-- The text between two boundaries, of which whitespace at the ends does not count. There is none
    for an empty boundary. -/
def enclosed? (boundary : Text) : Option (Reader Text) :=
  if boundary.trim.isEmpty then none else some (between boundary.trim)

end Reader

end Klartext
