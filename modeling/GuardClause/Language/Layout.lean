import GuardClause.Language.Grammar
import GuardClause.Syntax.Arena
import GuardClause.Text.Utf8

/-!
# From concrete syntax to an arena

The nodes of a concrete syntax tree that are reached from the root through named children are
numbered in pre-order: a node comes before its descendants and those before its later siblings.
`Concrete.placed` assigns the numbers, parents and children, and needs nothing but the tree.
`Grammar.nodeAt` then reads each numbered node by itself: its kind, its roles and its offsets.
-/

namespace GuardClause

/-- A named node of a concrete syntax tree with its number and those of its parent and of its
named children. -/
structure Placed where
  index : Nat
  parent : Option Nat
  children : List Nat
  tree : Concrete

/-- The numbers of the named trees of a list, when the first one has number `i`. -/
def childIndices (i : Nat) : List Concrete → List Nat
  | [] => []
  | t :: rest =>
      if t.label.named then i :: childIndices (i + t.size) rest else childIndices i rest

mutual

/-- The nodes of a tree in pre-order, when the root has number `i`. -/
def Concrete.placed (parent : Option Nat) (i : Nat) : Concrete → List Placed
  | .node l cs =>
      ⟨i, parent, childIndices (i + 1) cs, .node l cs⟩ :: Concrete.placedList i (i + 1) cs

/-- The nodes of the named trees of a list in pre-order, when the first root has number `i`. -/
def Concrete.placedList (parent : Nat) (i : Nat) : List Concrete → List Placed
  | [] => []
  | t :: rest =>
      if t.label.named then
        Concrete.placed (some parent) i t ++ Concrete.placedList parent (i + t.size) rest
      else Concrete.placedList parent i rest

end

namespace Grammar

/-- The number of the child that fills a field, provided that the first child to fill it is
named. -/
def childInField? (p : Placed) (field : String) : Option Nat :=
  let fills := fun (t : Concrete) => decide (t.label.field = some field)
  match p.tree.children.find? fills with
  | some first =>
      if first.label.named then
        ((p.tree.namedChildren.zip p.children).find? fun e => fills e.1).map (·.2)
      else none
  | none => none

/-- The roles of a node, by the fields that hold them. -/
def rolesOf (p : Placed) (fields : Table String) : Table Int :=
  fields.filterMap fun f => (childInField? p f.2).map fun i => (f.1, (i : Int))

/-- The operand of a wrapper: its first child that is not a comment. All children are looked
at. -/
def wrappedChild (g : Grammar) (p : Placed) : Except ReadFault (Option Nat) := do
  let kinds ← p.tree.namedChildren.mapM g.kindOf
  pure (((kinds.zip p.children).find? fun e => e.1 ≠ .comment).map (·.2))

/-- The roles of a node, in which the operand of a wrapper takes precedence. -/
def rolesAt (g : Grammar) (p : Placed) (kind : Kind) : Except ReadFault (Table Int) := do
  let roles := rolesOf p (← g.roleFields p.tree kind)
  if kind.isWrapper then
    match ← g.wrappedChild p with
    | some i => pure (roles.put "operand" i)
    | none => pure roles
  else pure roles

/-- The character offset of a byte offset. -/
def offsetAt (map : ByteMap) (byte : Int) : Except ReadFault Int :=
  match map.charOffset? byte with
  | some o => .ok o
  | none => .error .offsetOutside

/-- The node of an arena that a numbered node becomes. -/
def nodeAt (g : Grammar) (map : ByteMap) (p : Placed) : Except ReadFault Node := do
  let kind ← g.kindOf p.tree
  let roles ← g.rolesAt p kind
  let start ← offsetAt map p.tree.label.startByte
  let stop ← offsetAt map p.tree.label.stopByte
  pure {
    index := p.index, kind := kind, type := p.tree.label.type, start := start, stop := stop
    parent := p.parent.map Int.ofNat, children := p.children.map Int.ofNat, roles := roles }

/-- The nodes of a concrete syntax tree over a text. -/
def nodesOf (g : Grammar) (text : Text) (root : Concrete) : Except ReadFault (List Node) :=
  (root.placed none 0).mapM (g.nodeAt (ByteMap.ofText text))

end Grammar

end GuardClause
