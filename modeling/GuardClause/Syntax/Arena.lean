import GuardClause.Buffer
import GuardClause.Syntax.Kind
import GuardClause.Table
import GuardClause.Validation.Complaint

/-!
# Arenas: syntax trees by index

The refactorings work on a syntax tree laid out as a sequence of nodes that refer to each other by
position. An arena may come from anywhere, so a link may lead nowhere: following it is then a
fault. `Arena.fetch` is the only way from a link to a node.

A `Fault` says why a refactoring cannot be carried out: a node is not what the refactoring was
asked to work on (its `Shape`), or the fault lies in the arena itself.
-/

namespace GuardClause

/-- A node that has the wrong shape for a refactoring. -/
inductive Shape where
  | noCondition (start : Int)
  | notIfElse (start : Int)
  | notBlock (type : String) (start : Int)
  | notConditional (type : String)
  /-- A conditional expression that lacks one of its parts. -/
  | incomplete (start : Int)
deriving DecidableEq, Repr

def Shape.message : Shape → String
  | noCondition start => "if-statement at offset " ++ toString start ++ " has no condition"
  | notIfElse start => "if-statement at offset " ++ toString start ++ " is not an if/else"
  | notBlock type start =>
      "Expected a block, got '" ++ type ++ "' at offset " ++ toString start
  | notConditional type => "Expected a conditional expression, got '" ++ type ++ "'"
  | incomplete start => "Incomplete conditional expression at offset " ++ toString start

/-- Why a refactoring cannot be carried out. -/
inductive Fault where
  | shape (s : Shape)
  /-- A link leads outside the arena. -/
  | danglingLink
  | circularLinks
  /-- A result would not be a valid range. -/
  | invalid (complaints : List Complaint)
deriving DecidableEq, Repr

def Fault.message : Fault → String
  | shape s => s.message
  | danglingLink => "list index out of range"
  | circularLinks => "the links of the syntax tree run in a circle"
  | invalid complaints => String.intercalate "\n" (complaints.map (·.defect.message))

/-! ## Nodes and arenas -/

/-- One node of an arena. -/
structure Node where
  /-- The node's own place in the arena. -/
  index : Nat
  kind : Kind
  /-- The grammar's name for the kind of node. -/
  type : String
  /-- The offset of the first character covered. -/
  start : Int
  /-- The offset after the last character covered. -/
  stop : Int
  parent : Option Int
  children : List Int
  /-- Which child plays which role: condition, consequence, alternative or operand. -/
  roles : Table Int
deriving DecidableEq, Repr

/-- The parts that children play in the nodes that the refactorings read. -/
inductive Role where
  | condition
  | consequence
  | alternative
  | operand
deriving DecidableEq, Repr

def Role.name : Role → String
  | condition => "condition"
  | consequence => "consequence"
  | alternative => "alternative"
  | operand => "operand"

/-- Whether an offset lies in the stretch that the node covers. -/
def Node.covers (n : Node) (offset : Int) : Bool := n.start ≤ offset && offset < n.stop

/-- The syntax of one buffer, as nodes that refer to each other by position. -/
structure Arena where
  language : String
  buffer : Buffer
  nodes : Array Node
  root : Int

namespace Arena

/-- The node that a link leads to; a negative link counts from the end. -/
def node? (a : Arena) (link : Int) : Option Node := do
  let place ← place? a.nodes.size link
  a.nodes[place]?

/-- The node that a link leads to. A link that leads nowhere is a fault. -/
def fetch (a : Arena) (link : Int) : Except Fault Node :=
  match a.node? link with
  | some n => .ok n
  | none => .error .danglingLink

def parentOf (a : Arena) (n : Node) : Except Fault (Option Node) :=
  match n.parent with
  | none => .ok none
  | some link => some <$> a.fetch link

def childrenOf (a : Arena) (n : Node) : Except Fault (List Node) := n.children.mapM a.fetch

/-- The child that the named role refers to, if there is one. -/
def named (a : Arena) (n : Node) (role : String) : Except Fault (Option Node) :=
  match n.roles.get? role with
  | none => .ok none
  | some link => some <$> a.fetch link

/-- The child in a role, if there is one. -/
def inRole (a : Arena) (n : Node) (role : Role) : Except Fault (Option Node) :=
  a.named n role.name

def textOf (a : Arena) (n : Node) : Text := a.buffer.text.slice n.start n.stop

/-- The number of steps after which a walk that meets no node twice has ended. -/
def bound (a : Arena) : Nat := a.nodes.size

end Arena

end GuardClause
