import CodeIndex.Syntax.Source

/-!
Syntax trees as a grammar builds them: every node has a kind, a place in the text and perhaps a role in its
parent; named nodes are those that the grammar gives a name, the others are mere tokens.
-/

namespace CodeIndex.Syntax

/-- The roles that this library asks for. -/
inductive Field where
  | name
  | type
  | definition
  | body
  | argument
  | moduleName
  | source
  | declaration
  | path
  deriving DecidableEq, Repr

inductive Node where
  | mk (kind : String) (named : Bool) (field : Option Field) (start stop : Nat) (children : List Node)

namespace Node

def kind : Node → String
  | mk k .. => k

def named : Node → Bool
  | mk _ n .. => n

def field : Node → Option Field
  | mk _ _ f .. => f

def start : Node → Nat
  | mk _ _ _ s .. => s

def stop : Node → Nat
  | mk _ _ _ _ e _ => e

def children : Node → List Node
  | mk _ _ _ _ _ cs => cs

def namedChildren (n : Node) : List Node := n.children.filter named

def firstNamed? (n : Node) : Option Node := n.namedChildren.head?

/-- The first child in that role. -/
def child? (n : Node) (f : Field) : Option Node := n.children.find? (·.field == some f)

def childrenIn (n : Node) (f : Field) : List Node := n.children.filter (·.field == some f)

def text (src : Source) (n : Node) : String := src.slice n.start n.stop

def startRow (src : Source) (n : Node) : Nat := src.row n.start

def endRow (src : Source) (n : Node) : Nat := src.row n.stop

/-- The tree of a text that the grammar could make nothing of. -/
def isError (n : Node) : Bool := n.kind == "ERROR"

mutual

/-- The named nodes of a kind below `n`; what lies below such a node is not searched. -/
def ofKind (kind : String) : Node → List Node
  | mk _ _ _ _ _ cs => ofKindIn kind cs

def ofKindIn (kind : String) : List Node → List Node
  | [] => []
  | c :: rest =>
    (if c.named then if c.kind == kind then [c] else ofKind kind c else []) ++ ofKindIn kind rest

end

end Node

end CodeIndex.Syntax
