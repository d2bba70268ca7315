/-!
# Concrete syntax trees

What a parser hands over: a tree whose nodes carry the grammar's name for their type, the bytes
they cover, the field they fill in their parent, and whether the grammar names them. Tokens such
as operators and brackets are unnamed.
-/

namespace GuardClause

/-- What a parser says about one node. -/
structure Label where
  /-- The grammar's name for the kind of node. -/
  type : String
  /-- The first byte covered. -/
  startByte : Int
  /-- The byte after the last one covered. -/
  stopByte : Int
  /-- The field of the parent that the node fills. -/
  field : Option String
  /-- Whether the grammar names the node. -/
  named : Bool
deriving DecidableEq, Repr

/-- A concrete syntax tree. -/
inductive Concrete where
  | node (label : Label) (children : List Concrete)

/-- What a parser answers: a tree, unless it finds no root, and whether the text is in error. -/
structure Parsed where
  root : Option Concrete
  hasError : Bool

namespace Concrete

def label : Concrete → Label
  | node l _ => l

def children : Concrete → List Concrete
  | node _ cs => cs

/-- The subtrees below the root whose roots are named. -/
def namedChildren (t : Concrete) : List Concrete := t.children.filter (·.label.named)

/-- The first subtree, named or not, that fills a field of the root. -/
def childInField? (t : Concrete) (field : String) : Option Concrete :=
  t.children.find? (·.label.field = some field)

mutual

/-- The number of nodes that are reached from the root through named children. -/
def size : Concrete → Nat
  | node _ cs => sizeNamed cs + 1

/-- The number of nodes of the named trees of a list. -/
def sizeNamed : List Concrete → Nat
  | [] => 0
  | t :: rest => (if t.label.named then t.size else 0) + sizeNamed rest

end

end Concrete

end GuardClause
