import Klartext.Source
import Klartext.Text.Decoding

set_option autoImplicit false

/-! # Source files

A source file is read as text before its statements are. That there is no such file, and that its
bytes are no text, are rejections like any other, but they have no place in a source. -/

namespace Klartext

/-- What stands under a path. -/
inductive FileContent where
  | missing
  | directory
  | bytes (content : List UInt8)

/-- The text of a file. -/
def readSource (path : String) : FileContent → Except SourceFault Text
  | .missing => .error (.rejected (.unlocated s!"File not found: {path}"))
  | .directory => .error (.directory path)
  | .bytes content =>
    match decodeBytes content with
    | .ok text => .ok text.unifyLineEnds
    | .error fault =>
      .error (.rejected (.unlocated s!"Cannot decode file {path}: {fault.message}"))

/-- The statements of a source file. -/
def parseFile (limit : Nat) (path : String) (content : FileContent) :
    Except SourceFault (List Node) := do
  parseProgram limit (← readSource path content) path

end Klartext
