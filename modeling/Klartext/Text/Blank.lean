set_option autoImplicit false

/-! # Text and whitespace

Source text is a list of code points. This file fixes which code points count as whitespace and
what follows from that: trimming, the words of a text, and the *normal form* in which every name
is stored and looked up (its words joined by single spaces). -/

namespace Klartext

/-- Text as the readers see it: a list of Unicode code points. -/
abbrev Text := List Char

/-- The twenty-nine code points that count as whitespace: the ASCII controls 9 to 13 and 28 to 31,
    the space, next line, no-break space, and the Unicode space, line and paragraph separators. -/
def isBlank (c : Char) : Bool :=
  let n := c.toNat
  (9 ≤ n && n ≤ 13) || (28 ≤ n && n ≤ 32) || n == 0x85 || n == 0xA0 || n == 0x1680
    || (0x2000 ≤ n && n ≤ 0x200A) || n == 0x2028 || n == 0x2029 || n == 0x202F || n == 0x205F
    || n == 0x3000

namespace Text

/-- All characters are whitespace. -/
def isBlank (t : Text) : Bool := t.all Klartext.isBlank

/-- The text without its leading whitespace. -/
def trimStart (t : Text) : Text := t.dropWhile Klartext.isBlank

/-- The text without its trailing whitespace. -/
def trimEnd (t : Text) : Text := (t.reverse.dropWhile Klartext.isBlank).reverse

/-- The text without whitespace at either end. -/
def trim (t : Text) : Text := trimEnd (trimStart t)

/-- The maximal runs of non-whitespace characters, in order. -/
def words : Text → List Text
  | [] => []
  | c :: rest =>
    if Klartext.isBlank c then words rest
    else match rest with
      | [] => [[c]]
      | next :: _ =>
        if Klartext.isBlank next then [c] :: words rest
        else match words rest with
          | [] => [[c]]
          | word :: others => (c :: word) :: others

/-- Texts joined by a separator. -/
def joinWith (separator : Text) : List Text → Text
  | [] => []
  | [t] => t
  | t :: others => t ++ separator ++ joinWith separator others

/-- The normal form of a name: its words joined by single spaces. -/
def normalize (t : Text) : Text := joinWith [' '] (words t)

end Text

/-- The normal form of a name given as a string. -/
def normalizeName (name : String) : String := String.ofList (Text.normalize name.toList)

end Klartext
