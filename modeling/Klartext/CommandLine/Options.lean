import Klartext.Text.Search
import Klartext.Text.Quoted
import Klartext.Text.DecimalDigit

set_option autoImplicit false

/-! # Command line options

The arguments are an optional script and five options, in any order. A long option may be cut short
as long as it stays the only one that begins so, single-letter options may be written in one word,
and everything behind a double dash is no option. No option takes a value, so a value attached to
one is misuse. -/

namespace Klartext

/-- The options. -/
inductive Flag where
  | help
  | interactive
  | parse
  | debug
  | version
  deriving Repr, DecidableEq

namespace Flag

/-- The spellings of all options. -/
def spellings : List (String × Flag) :=
  [("-h", .help), ("--help", .help), ("-i", .interactive), ("--interactive", .interactive),
    ("--parse", .parse), ("--debug", .debug), ("--version", .version)]

/-- The option of a spelling. -/
def ofSpelling? (s : String) : Option Flag := spellings.lookup s

/-- All spellings of an option, as messages name it. -/
def label (flag : Flag) : String :=
  "/".intercalate ((spellings.filter fun entry => entry.2 == flag).map Prod.fst)

end Flag

/-- What the command line asks for besides help and version. -/
structure Options where
  script : Option String
  interactive : Bool
  parse : Bool
  debug : Bool
  deriving Repr, DecidableEq

/-- What the command line asks for. -/
inductive Request where
  | perform (options : Options)
  | help
  | version
  | misuse (message : String)
  deriving Repr, DecidableEq

/-- The part that an argument has. -/
inductive Argument where
  | word (text : String)
  | divider
  /-- An option in one of its spellings, with what is attached to it. -/
  | option (flag : Flag) (spelling : String) (attached : Option Text)
  /-- Looks like an option and is none. -/
  | unknown (text : String)

namespace Argument

/-- The text of an argument that is no option, and the spelling of one that is. -/
def text : Argument → String
  | .word s => s
  | .divider => "--"
  | .option _ spelling _ => spelling
  | .unknown s => s

/-- A minus sign and a number, possibly with a line feed behind it. -/
def isNegativeNumber (t : Text) : Bool :=
  match if t.getLast? == some '\n' then t.dropLast else t with
  | '-' :: number =>
    match number.dropWhile isDecimalDigit with
    | [] => !number.isEmpty
    | '.' :: fraction => !fraction.isEmpty && fraction.all isDecimalDigit
    | _ => false
  | _ => false

/-- The options that an argument may be short for: a long one by its beginning, a single-letter one
    by its letter. What follows an equals sign is attached to a long option, what follows the
    letter to a single-letter one. -/
def candidates (t : Text) : List Argument :=
  match t with
  | '-' :: '-' :: _ =>
    let (beginning, attached) :=
      match Text.splitFirst? ['='] t with
      | some (before, after) => (before, some after)
      | none => (t, none)
    (Flag.spellings.filter fun entry => beginning.isPrefixOf entry.1.toList).map
      fun entry => .option entry.2 entry.1 attached
  | '-' :: letter :: attached =>
    (Flag.spellings.filter fun entry => entry.1.toList == ['-', letter]).map
      fun entry => .option entry.2 entry.1 (some attached)
  | _ => []

/-- The option that is written out before an equals sign. -/
def assigned? (t : Text) : Option Argument :=
  match Text.splitFirst? ['='] t with
  | none => none
  | some (before, after) =>
    (Flag.ofSpelling? (String.ofList before)).map fun flag =>
      .option flag (String.ofList before) (some after)

/-- The part that an argument before a double dash has; an ambiguous option is misuse. -/
def classify (s : String) : Except String Argument :=
  let t := s.toList
  if t.head? != some '-' || t.length = 1 then .ok (.word s)
  else match Flag.ofSpelling? s with
    | some flag => .ok (.option flag s none)
    | none =>
      match assigned? t with
      | some argument => .ok argument
      | none =>
        match candidates t with
        | [argument] => .ok argument
        | [] => if isNegativeNumber t || t.contains ' ' then .ok (.word s) else .ok (.unknown s)
        | several =>
          let names := ", ".intercalate (several.map text)
          .error s!"ambiguous option: {s} could match {names}"

/-- The parts of all arguments. -/
def classifyAll : List String → Except String (List Argument)
  | [] => .ok []
  | s :: rest =>
    if s == "--" then .ok (.divider :: rest.map .word)
    else do
      let argument ← classify s
      return argument :: (← classifyAll rest)

/-- The misuse of attaching something to an option. -/
def ignored (flag : Flag) (attached : Text) : Except String (List Flag) :=
  let value := quoted (String.ofList attached)
  .error s!"argument {flag.label}: ignored explicit argument {value}"

/-- A single-letter option and the ones that the letters attached to it are. -/
def lettered (flag : Flag) : (attached : Text) → Except String (List Flag)
  | [] => .ok [flag]
  | letter :: attached =>
    match Flag.ofSpelling? (String.ofList ['-', letter]) with
    | none => ignored flag (letter :: attached)
    | some next => (lettered next attached).map (flag :: ·)

/-- The options of an argument with what is attached to it. Letters attached to a single-letter
    option are further ones, even behind an equals sign; everything else attached is misuse, and so
    is an equals sign with nothing behind it. -/
def flags (flag : Flag) (spelling : String) : (attached : Option Text) → Except String (List Flag)
  | none => .ok [flag]
  | some [] => ignored flag []
  | some attached =>
    if "--".toList.isPrefixOf spelling.toList then ignored flag attached else lettered flag attached

end Argument

namespace Options

/-- No script and no option. -/
def none : Options := ⟨.none, false, false, false⟩

/-- The options with one more of them, or the request that the option is. -/
def withFlag (o : Options) : Flag → Except Request Options
  | .help => .error .help
  | .version => .error .version
  | .interactive => .ok { o with interactive := true }
  | .parse => .ok { o with parse := true }
  | .debug => .ok { o with debug := true }

/-- The options with several more, in order. -/
def withFlags (o : Options) : List Flag → Except Request Options
  | [] => .ok o
  | flag :: rest => do
    withFlags (← o.withFlag flag) rest

/-- The options of arguments and the arguments left over. The script is the first word, and a
    double dash next to it belongs to it; `scriptOpen` says that it is still to come. All arguments
    behind a double dash are words. -/
def collect (o : Options) (scriptOpen : Bool) (extras : List String) :
    List Argument → Except Request (Options × List String)
  | [] => .ok (o, extras)
  | .option flag spelling attached :: rest =>
    match Argument.flags flag spelling attached with
    | .error message => .error (.misuse message)
    | .ok flags =>
      match o.withFlags flags with
      | .error request => .error request
      | .ok o => collect o scriptOpen extras rest
  | .unknown s :: rest => collect o scriptOpen (extras ++ [s]) rest
  | .divider :: rest =>
    if scriptOpen then
      match rest with
      | .word s :: others =>
        .ok ({ o with script := some s }, extras ++ others.map Argument.text)
      | others => .ok (o, extras ++ others.map Argument.text)
    else collect o false (extras ++ ["--"]) rest
  | .word s :: rest =>
    if scriptOpen then
      match rest with
      | .divider :: others =>
        .ok ({ o with script := some s }, extras ++ others.map Argument.text)
      | _ => collect { o with script := some s } false extras rest
    else collect o false (extras ++ [s]) rest

end Options

/-- What the arguments of a command line ask for. -/
def Request.ofArguments (arguments : List String) : Request :=
  match Argument.classifyAll arguments with
  | .error message => .misuse message
  | .ok parts =>
    match Options.none.collect true [] parts with
    | .error request => request
    | .ok (options, []) => .perform options
    | .ok (_, extras) =>
      let names := " ".intercalate extras
      .misuse s!"unrecognized arguments: {names}"

end Klartext
