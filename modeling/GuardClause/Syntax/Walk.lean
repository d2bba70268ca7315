import GuardClause.Syntax.Arena

/-!
# Walks through an arena

From an offset down to the innermost node (`Arena.resolve`), from a node up to an ancestor
(`Arena.findEnclosing`), and through parentheses (`Arena.unwrap`). A walk that meets no node twice
takes at most as many steps as the arena has nodes. Longer walks go round in circles, so every
walk stops there with a fault.
-/

namespace GuardClause.Arena

/-- The descent from a node to the innermost node that covers an offset, taking the first child
that does at every step. -/
def descend (a : Arena) (offset : Int) : Nat → Node → Except Fault Node
  | 0, _ => .error .circularLinks
  | fuel + 1, n => do
      let children ← a.childrenOf n
      match children.find? (·.covers offset) with
      | none => pure n
      | some child => descend a offset fuel child

/-- The innermost node that covers an offset, or the root if none of its children does. -/
def resolve (a : Arena) (offset : Int) : Except Fault Node := do
  a.descend offset a.bound (← a.fetch a.root)

/-- The innermost node at a line and a column. -/
def resolvePosition (a : Arena) (line column : Int) : Except Fault Node :=
  a.resolve (a.buffer.offsetOf line column)

/-- The climb from a node to the nearest one with a property, itself included. It ends at the
node without a parent, which is never the answer. -/
def climb (a : Arena) (p : Node → Bool) : Nat → Node → Except Fault (Option Node)
  | 0, _ => .error .circularLinks
  | fuel + 1, n =>
      match n.parent with
      | none => pure none
      | some link =>
          if p n then pure (some n)
          else do climb a p fuel (← a.fetch link)

/-- The nearest node with a property among a node and its ancestors, the root excepted. -/
def findEnclosing (a : Arena) (p : Node → Bool) (n : Node) : Except Fault (Option Node) :=
  a.climb p (a.bound + 1) n

/-- A node without the parentheses around it, at most `fuel` of them. -/
def unwrapFuel (a : Arena) : Nat → Node → Except Fault Node
  | 0, _ => .error .circularLinks
  | fuel + 1, n =>
      if n.kind = .parenthesized then do
        match ← a.inRole n .operand with
        | none => pure n
        | some inner => unwrapFuel a fuel inner
      else pure n

/-- A node without the parentheses around it. -/
def unwrap (a : Arena) (n : Node) : Except Fault Node := a.unwrapFuel (a.bound + 1) n

def isIf (n : Node) : Bool := n.kind = .ifStatement

def isConditional (n : Node) : Bool := n.kind = .conditional

end GuardClause.Arena
