/-
  Swimlane — the grammar of XML documents.

  The grammar says which texts are documents, and for which trees they stand.
  It is the one of XML without comments, processing instructions, document
  types and character references: a declaration, one root, nested tags, values
  in double quotes and the five entities that every reader knows.  White space
  between tags stands for nothing.

  * `Spells`: how a text is written; `Attributes`: how attributes are.
  * `Content ts cs`: the characters `cs` stand for the trees `ts`.
  * `Declared t`: the qualifiers of all names in `t` are declared at its root.
  * `IsDocument t xml`: the text `xml` is a document with the root `t`.
-/
import Mathlib.Data.List.Nodup
import Swimlane.Xml.Element

namespace Swimlane.Xml

/-- What a document is about, apart from how it is written. -/
inductive Tree where
  | text (content : String)
  | node (tag : String) (attributes : List Attribute) (children : List Tree)

/-! ## Characters and names -/

/-- White space. -/
def isSpace (c : Char) : Bool := c = ' ' || c = '\t' || c = '\r' || c = '\n'

def White (cs : List Char) : Prop := ∀ c ∈ cs, isSpace c = true

instance (cs : List Char) : Decidable (White cs) := List.decidableBAll _ cs

/-- The characters with which a name can begin, as ranges. -/
def nameStarts : List (ℕ × ℕ) :=
  [(0x3A, 0x3A), (0x41, 0x5A), (0x5F, 0x5F), (0x61, 0x7A), (0xC0, 0xD6), (0xD8, 0xF6),
   (0xF8, 0x2FF), (0x370, 0x37D), (0x37F, 0x1FFF), (0x200C, 0x200D), (0x2070, 0x218F),
   (0x2C00, 0x2FEF), (0x3001, 0xD7FF), (0xF900, 0xFDCF), (0xFDF0, 0xFFFD), (0x10000, 0xEFFFF)]

/-- What else can stand in a name, as ranges. -/
def nameExtras : List (ℕ × ℕ) :=
  [(0x2D, 0x2E), (0x30, 0x39), (0xB7, 0xB7), (0x300, 0x36F), (0x203F, 0x2040)]

def inRanges (ranges : List (ℕ × ℕ)) (c : Char) : Bool :=
  ranges.any fun r => r.1 ≤ c.toNat && c.toNat ≤ r.2

def isNameStart (c : Char) : Bool := inRanges nameStarts c

def isNameChar (c : Char) : Bool := isNameStart c || inRanges nameExtras c

/-- Whether the characters are a name. -/
def isName : List Char → Bool
  | [] => false
  | c :: cs => isNameStart c && cs.all isNameChar

/-! ## Texts -/

/-- The characters that have a name. -/
def entities : List (Char × List Char) :=
  [('&', ['a', 'm', 'p']), ('<', ['l', 't']), ('>', ['g', 't']), ('"', ['q', 'u', 'o', 't']),
   ('\x27', ['a', 'p', 'o', 's'])]

/-- How a text is written that goes up to the character `stop`. -/
inductive Spells (stop : Char) : List Char → List Char → Prop
  | nil : Spells stop [] []
  /-- A character that stands for itself. -/
  | plain {c : Char} {s raw : List Char} (lt : c ≠ '<') (amp : c ≠ '&') (stops : c ≠ stop)
      (rest : Spells stop s raw) : Spells stop (c :: s) (c :: raw)
  /-- A character that is called by its name. -/
  | entity {c : Char} {name s raw : List Char} (known : (c, name) ∈ entities)
      (rest : Spells stop s raw) : Spells stop (c :: s) ('&' :: (name ++ ';' :: raw))

/-- How the attributes of a tag are written, each after white space. -/
inductive Attributes : List Attribute → List Char → Prop
  | nil : Attributes [] []
  | cons {name value : String} {gap before after raw cs : List Char} {as : List Attribute}
      (apart : gap ≠ []) (gap_white : White gap) (named : isName name.toList = true)
      (before_white : White before) (after_white : White after)
      (written : Spells '"' value.toList raw) (rest : Attributes as cs) :
      Attributes ((name, value) :: as)
        (gap ++ (name.toList ++ (before ++ '=' :: (after ++ '"' :: (raw ++ '"' :: cs)))))

/-! ## Tags -/

/-- What stands in a tag: its name and attributes with different names. -/
inductive Inscription : String → List Attribute → List Char → Prop
  | intro {tag : String} {attributes : List Attribute} {cs gap : List Char}
      (named : isName tag.toList = true) (written : Attributes attributes cs)
      (distinct : (attributes.map Prod.fst).Nodup) (gap_white : White gap) :
      Inscription tag attributes (tag.toList ++ (cs ++ gap))

/-- No text stands here: it is the end, or a tag begins. -/
def AtTag (cs : List Char) : Prop := ∀ c ∈ cs.head?, c = '<'

/-- The trees for which a text stands; there are none if it is white. -/
def textTrees (s : String) : List Tree := if White s.toList then [] else [.text s]

/-- The characters stand for the trees, one after the other. -/
inductive Content : List Tree → List Char → Prop
  | nil : Content [] []
  /-- A text up to the next tag. -/
  | run {s : String} {raw rest : List Char} {ts : List Tree} (written : Spells '<' s.toList raw)
      (nonempty : raw ≠ []) (noClose : ¬ [']', ']', '>'] <:+: raw) (whole : AtTag rest)
      (after : Content ts rest) : Content (textTrees s ++ ts) (raw ++ rest)
  /-- An empty tag. -/
  | empty {tag : String} {attributes : List Attribute} {cs rest : List Char} {ts : List Tree}
      (inscribed : Inscription tag attributes cs) (after : Content ts rest) :
      Content (.node tag attributes [] :: ts) ('<' :: (cs ++ '/' :: '>' :: rest))
  /-- A start tag and an end tag with the same name, and what is between them. -/
  | element {tag : String} {attributes : List Attribute} {cs inner gap rest : List Char}
      {children ts : List Tree} (inscribed : Inscription tag attributes cs)
      (between : Content children inner) (gap_white : White gap) (after : Content ts rest) :
      Content (.node tag attributes children :: ts)
        ('<' :: (cs ++ '>' :: (inner ++ '<' :: '/' :: (tag.toList ++ (gap ++ '>' :: rest)))))

/-! ## Documents -/

mutual

/-- All names in a tree, of tags and attributes. -/
def Tree.names : Tree → List String
  | .text _ => []
  | .node tag attributes children => tag :: (attributes.map Prod.fst ++ namesOf children)

/-- All names in a list of trees. -/
def namesOf : List Tree → List String
  | [] => []
  | t :: ts => t.names ++ namesOf ts

end

/-- What stands before the colon of a name. -/
def qualifier? (name : String) : Option (List Char) :=
  if ':' ∈ name.toList then some (name.toList.takeWhile fun c => c ≠ ':') else none

/-- Whether attributes with these names declare the qualifier of a name. -/
def declares (attributes : List String) (name : String) : Bool :=
  match qualifier? name with
  | none => true
  | some q => q = "xmlns".toList || attributes.contains (String.ofList ("xmlns:".toList ++ q))

/-- The root declares the qualifiers of all names. -/
def Declared : Tree → Prop
  | .text _ => False
  | .node tag attributes children =>
    ∀ name ∈ (Tree.node tag attributes children).names,
      declares (attributes.map Prod.fst) name = true

/-- The version of the grammar and the encoding of documents. -/
def versions : List Attribute := [("version", "1.0"), ("encoding", "UTF-8")]

/-- With what a document begins. -/
inductive Declaration : List Char → Prop
  | intro {cs gap : List Char} (gap_white : White gap) (written : Attributes versions cs) :
      Declaration ("<?xml".toList ++ (cs ++ (gap ++ "?>".toList)))

/-- The text is a document with the given root. -/
inductive IsDocument : Tree → String → Prop
  | intro {t : Tree} {opening body : List Char} (opens : Declaration opening)
      (rooted : Content [t] body) (declared : Declared t) :
      IsDocument t (String.ofList (opening ++ body))

end Swimlane.Xml
