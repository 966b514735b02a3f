import Klartext.CommandLine.Options
import Klartext.CommandLine.Script
import Klartext.CommandLine.Dialogue

set_option autoImplicit false

/-! # The command

Everything the command does as one function: from its arguments, the content of the script file
and its input to what it writes and how it ends. -/

namespace Klartext

namespace Command

/-- The summary of the arguments. -/
def usage : String := "usage: klartext [-h] [-i] [--parse] [--debug] [--version] [script]"

/-- What the option for help shows. -/
def helpLines : List String :=
  [usage,
    "",
    "Klartext - a scripting language written in German sentences",
    "",
    "positional arguments:",
    "  script             Klartext script file to execute",
    "",
    "options:",
    "  -h, --help         show this help message and exit",
    "  -i, --interactive  Start interactive mode",
    "  --parse            Parse file and show the syntax tree (for debugging)",
    "  --debug            Enable debug output for all stages",
    "  --version          show program's version number and exit",
    "",
    "Examples:",
    "  klartext script.klar            # Run a Klartext script",
    "  klartext -i                     # Interactive mode",
    "  klartext --parse script.klar    # Parse and show the syntax tree",
    "  klartext --debug script.klar    # Run with debug output",
    "  klartext -i --debug             # Interactive mode with debug",
    "        "]

/-- What is shown when the command is started without a script and without options. -/
def introduction : List String :=
  let functions := ", ".intercalate builtinNames
  ["Klartext Programming Language",
    Script.rule '=' 50,
    "Programs are German sentences:",
    "• Statements end with '!'",
    "• Variables: der Name ist \"Welt\"!",
    "• Functions with closures and recursion",
    "• Conditionals: stimmt, dass ... ist? ... oder?!",
    s!"• Built-in functions: {functions}",
    "",
    "Starting interactive mode...",
    "Use 'klartext --help' for command line options",
    ""]

/-- The transcript of misuse of the arguments. -/
def misuse (message : String) : Transcript :=
  ⟨"", outputLines [usage, s!"klartext: error: {message}"], .exit 2⟩

/-- The script that the options name; an empty name is none. -/
def script? (o : Options) : Option String := o.script.filter fun path => !path.isEmpty

/-- Does what the options say. `content` is what stands under a path, and `editing` says that the
    lines of the interactive mode can be edited. -/
def perform (o : Options) (content : String → FileContent) (input : List String)
    (editing : Bool) : Transcript :=
  match script? o with
  | some path =>
    match content path with
    | .missing => .failure (outputLines [s!"Error: Script file '{path}' does not exist"])
    | found =>
      if o.parse then Script.showTree path found o.debug else Script.run path found o.debug input
  | none =>
    let conversation := Dialogue.run editing o.debug input
    if o.interactive then conversation else conversation.after (outputLines introduction)

/-- Does what the arguments ask for. -/
def run (arguments : List String) (content : String → FileContent) (input : List String)
    (editing : Bool) : Transcript :=
  match Request.ofArguments arguments with
  | .help => .success (outputLines helpLines)
  | .version => .success (outputLines [versionText])
  | .misuse message => misuse message
  | .perform o => perform o content input editing

end Command

end Klartext
