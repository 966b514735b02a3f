import Klartext.Proofs.Surface.Expression

set_option autoImplicit false

/-! # The grammar as a relation

Which texts the grammar allows for a syntax tree, without regard to how they are read. Phrases are
spaced freely, a name is any text whose normal form is stored, items of lists may have whitespace
around them, and a string may have a backslash before any character.

`Derives layer node text` says that the whole text is an expression of the layer that means the
node, and `Sentence part text` says the same of statements and of what they are built from. -/

namespace Klartext

open Surface

namespace Rules

/-! ## Words -/

/-- Whitespace, at least one character of it. -/
structure IsGap (t : Text) : Prop where
  ne_nil : t ≠ []
  blank : Text.isBlank t = true

/-- Words one after the other, with a gap before each but the first. -/
inductive Spelled : List Text → Text → Prop where
  | nil : Spelled [] []
  | word (w : Text) : Spelled [w] w
  | cons {w v g t : Text} {ws : List Text} (hgap : IsGap g) (h : Spelled (v :: ws) t) :
      Spelled (w :: v :: ws) (w ++ (g ++ t))

/-- A phrase in any spacing. -/
def Phrase (s : String) (t : Text) : Prop := Spelled (Text.words s.toList) t

/-- A text that stands for a name: it holds no exclamation mark, and its normal form, which is not
    empty, is the name. -/
structure Names (raw : Text) (name : String) : Prop where
  no_mark : '!' ∉ raw
  ne_nil : Text.normalize raw ≠ []
  name_eq : name = String.ofList (Text.normalize raw)

/-- A text that stands for a name in a list of names: it holds no comma either, and none of its
    words is `und`. -/
structure ListsName (raw : Text) (name : Text) : Prop where
  names : Names raw (String.ofList name)
  no_comma : ',' ∉ raw
  no_und : "und".toList ∉ Text.words raw

/-- The text between two quotation marks, and what it stands for: a backslash stands for the
    character behind it. -/
inductive Quoted : Text → Text → Prop where
  | nil : Quoted [] []
  | plain {c : Char} {raw content : Text} (hmark : c ≠ '\"') (hbackslash : c ≠ '\\')
      (h : Quoted raw content) : Quoted (c :: raw) (c :: content)
  | escaped (c : Char) {raw content : Text} (h : Quoted raw content) :
      Quoted ('\\' :: c :: raw) (c :: content)

/-! ## Lists -/

/-- An item with whitespace around it or none. -/
def Padded (t p : Text) : Prop :=
  ∃ l r, p = l ++ (t ++ r) ∧ Text.isBlank l = true ∧ Text.isBlank r = true

/-- A comma and the gap behind it. -/
def IsComma (s : Text) : Prop := ∃ g, s = ',' :: g ∧ IsGap g

/-- The word `und` between two gaps. -/
def IsUnd (s : Text) : Prop := ∃ g g', s = g ++ ("und".toList ++ g') ∧ IsGap g ∧ IsGap g'

/-- Items with commas between them. -/
inductive Row : List Text → Text → Prop where
  | one {t p : Text} (h : Padded t p) : Row [t] p
  | cons {t p s u : Text} {ts : List Text} (h : Padded t p) (hs : IsComma s) (hrow : Row ts u) :
      Row (t :: ts) (p ++ (s ++ u))

/-- The items of a list and its text: `a`, `a und b` or `a, b und c`. -/
inductive Listing : List Text → Text → Prop where
  | one {t p : Text} (h : Padded t p) : Listing [t] p
  | joined {t p j q : Text} {ts : List Text} (hrow : Row ts p) (hj : IsUnd j) (h : Padded t q) :
      Listing (ts ++ [t]) (p ++ (j ++ q))

/-! ## Expressions -/

/-- The texts of the expressions of a layer. -/
inductive Derives : Layer → Node → Text → Prop where
  | number (n : Numeral) : Derives .primitive (.literal (.number n.value)) n.text
  | string {raw content : Text} (h : Quoted raw content) :
      Derives .primitive (.literal (.string (String.ofList content))) ('\"' :: (raw ++ ['\"']))
  | boolean (b : Bool) : Derives .primitive (.literal (.boolean b)) (Literal.boolean b).text
  | null : Derives .primitive (.literal .null) Literal.null.text
  | reference {raw : Text} {name : String} (hname : Names raw name) :
      Derives .reference (.reference name) ('/' :: (raw ++ ['/']))
  | call {gap raw : Text} {name : String} (hgap : IsGap gap) (hname : Names raw name) :
      Derives .call (.call name []) ("führe".toList ++ (gap ++ (raw ++ " aus".toList)))
  | callWith {gap raw list : Text} {name : String} {items : List (Node × Text)} (hgap : IsGap gap)
      (hname : Names raw name) (hlist : Listing (items.map Prod.snd) list)
      (hitems : ∀ item ∈ items, Derives .logical item.1 item.2) :
      Derives .call (.call name (items.map Prod.fst))
        ("führe".toList ++ (gap ++ (raw ++ (" mit ".toList ++ (list ++ " aus".toList)))))
  /-- The words of the operator stand before the operands, which are of its own layer. -/
  | spoken {op : Operator} {left right : Node} {phrase gap l gap' gap'' r : Text}
      (hop : op.family.isSpoken = true) (hphrase : Phrase op.phrase phrase) (hgap : IsGap gap)
      (hleft : Derives op.family.leftLayer left l) (hgap' : IsGap gap') (hgap'' : IsGap gap'')
      (hright : Derives op.family.layer right r) :
      Derives op.family.layer (.operation op left right)
        (phrase ++ (gap ++ (l ++ (gap' ++ ("und".toList ++ (gap'' ++ r))))))
  /-- The words of the operator stand between the operands, of which the left one is of a tighter
      layer. -/
  | between {op : Operator} {left right : Node} {l gap phrase gap' r : Text}
      (hop : op.family.isSpoken = false) (hleft : Derives op.family.leftLayer left l)
      (hgap : IsGap gap) (hphrase : Phrase op.phrase phrase) (hgap' : IsGap gap')
      (hright : Derives op.family.layer right r) :
      Derives op.family.layer (.operation op left right)
        (l ++ (gap ++ (phrase ++ (gap' ++ r))))
  /-- What belongs to a layer belongs to every looser one. -/
  | looser {layer tighter : Layer} {node : Node} {t : Text}
      (hlayer : layer.tightness ≤ tighter.tightness) (h : Derives tighter node t) :
      Derives layer node t

/-! ## Statements -/

/-- What statements are built from, apart from expressions. -/
inductive Part where
  /-- A statement without the exclamation mark that closes it. -/
  | form (node : Node)
  | statement (node : Node)
  /-- Statements up to a closing phrase, which belongs to them. -/
  | block (closing : String) (nodes : List Node)
  /-- A condition and the statements under it. -/
  | guarded (branch : Branch Node)
  | branches (branches : List (Branch Node))
  | otherwise (nodes : Option (List Node))

/-- The head of a function: its name and parameters, up to its body. -/
inductive Signature : String → List String → Text → Prop where
  | bare {raw : Text} {name : String} (hname : Names raw name) :
      Signature name [] (raw ++ " macht".toList)
  | parameters {raw list : Text} {name : String} {items : List (Text × Text)}
      (hname : Names raw name) (hlist : Listing (items.map Prod.snd) list)
      (hitems : ∀ item ∈ items, ListsName item.2 item.1) :
      Signature name (items.map fun item => String.ofList item.1)
        (raw ++ (" kriegt ".toList ++ (list ++ " und macht".toList)))

/-- A condition: `dass E ist?`. -/
inductive Clause : Node → Text → Prop where
  | mk {condition : Node} {gap t gap' blank : Text} (hgap : IsGap gap)
      (h : Derives .logical condition t) (hgap' : IsGap gap') (hblank : Text.isBlank blank = true) :
      Clause condition
        ("dass".toList ++ (gap ++ (t ++ (gap' ++ ("ist".toList ++ (blank ++ "?".toList))))))

/-- The texts of statements and of their parts. -/
inductive Sentence : Part → Text → Prop where
  | evaluation {value : Node} {t : Text} (h : Derives .logical value t) :
      Sentence (.form (.evaluation value)) t
  | definition {article gap raw gap' t : Text} {name : String} {value : Node}
      (harticle : article ∈ ["der".toList, "die".toList, "das".toList]) (hgap : IsGap gap)
      (hname : Names raw name) (hgap' : IsGap gap') (h : Derives .logical value t) :
      Sentence (.form (.definition name value))
        (article ++ (gap ++ (raw ++ (" ist".toList ++ (gap' ++ t)))))
  | function {phrase gap head t : Text} {name : String} {parameters : List String}
      {body : List Node} (hphrase : Phrase "die Funktion" phrase) (hgap : IsGap gap)
      (hhead : Signature name parameters head) (hbody : Sentence (.block "und endet hier" body) t) :
      Sentence (.form (.function name parameters body)) (phrase ++ (gap ++ (head ++ t)))
  | giveBack {gap t gap' : Text} {value : Node} (hgap : IsGap gap) (h : Derives .logical value t)
      (hgap' : IsGap gap') :
      Sentence (.form (.giveBack value))
        ("gib".toList ++ (gap ++ (t ++ (gap' ++ "zurück".toList))))
  | print {gap list : Text} {items : List (Node × Text)} (hgap : IsGap gap)
      (hlist : Listing (items.map Prod.snd) list)
      (hitems : ∀ item ∈ items, Derives .logical item.1 item.2) :
      Sentence (.form (.print (items.map Prod.fst)))
        ("zeig".toList ++ (gap ++ (list ++ " an".toList)))
  | conditional {gap t u v : Text} {first : Branch Node} {others : List (Branch Node)}
      {otherwise : Option (List Node)} (hgap : IsGap gap) (hfirst : Sentence (.guarded first) t)
      (hothers : Sentence (.branches others) u) (hotherwise : Sentence (.otherwise otherwise) v) :
      Sentence (.form (.conditional first others otherwise))
        ("stimmt,".toList ++ (gap ++ (t ++ (u ++ (v ++ "?".toList)))))
  /-- A statement is closed by an exclamation mark with whitespace before it or none. -/
  | closed {node : Node} {t blank : Text} (h : Sentence (.form node) t)
      (hblank : Text.isBlank blank = true) :
      Sentence (.statement node) (t ++ (blank ++ "!".toList))
  | done {closing : String} {blank t : Text} (hblank : Text.isBlank blank = true)
      (h : Phrase closing t) : Sentence (.block closing []) (blank ++ t)
  | next {closing : String} {node : Node} {nodes : List Node} {blank t u : Text}
      (hblank : Text.isBlank blank = true) (h : Sentence (.statement node) t)
      (hrest : Sentence (.block closing nodes) u) :
      Sentence (.block closing (node :: nodes)) (blank ++ (t ++ u))
  | guarded {condition : Node} {body : List Node} {t u : Text} (h : Clause condition t)
      (hbody : Sentence (.block "oder" body) u) : Sentence (.guarded ⟨condition, body⟩) (t ++ u)
  | noBranch : Sentence (.branches []) []
  | branch {gap gap' t u : Text} {first : Branch Node} {others : List (Branch Node)}
      (hgap : IsGap gap) (hgap' : IsGap gap') (hfirst : Sentence (.guarded first) t)
      (hothers : Sentence (.branches others) u) :
      Sentence (.branches (first :: others)) ((gap ++ ("doch,".toList ++ (gap' ++ t))) ++ u)
  | noOtherwise : Sentence (.otherwise none) []
  | otherwise {gap t : Text} {body : List Node} (hgap : IsGap gap)
      (h : Sentence (.block "oder" body) t) :
      Sentence (.otherwise (some body)) (gap ++ ("nicht?".toList ++ t))

/-- The exclamation mark of a statement is its last character. -/
theorem Sentence.mark {node : Node} {t : Text} (h : Sentence (.statement node) t) :
    ∃ u, t = u ++ ['!'] := by
  cases h with
  | @closed _ t blank => exact ⟨t ++ blank, (List.append_assoc ..).symm⟩

end Rules

end Klartext
