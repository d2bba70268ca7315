import GuardClause.Syntax.Arena
import GuardClause.Validation.Reader

/-!
# Nodes as values

The written form of a node leaves its index out, because nodes are listed in order. `Node.ofValue`
reads a node at a place of such a list and complains about a kind that is unknown and about links
and offsets that are no integers.
-/

namespace GuardClause.Node

def toValue (n : Node) : Value :=
  .record [("kind", .text n.kind.name), ("node_type", .text n.type), ("start", .int n.start),
    ("end", .int n.stop),
    ("parent", match n.parent with
      | some link => .int link
      | none => .null),
    ("children", .list (n.children.map .int)),
    ("fields", .record (n.roles.map fun r => (r.1, .int r.2)))]

def kindChoices : List (String × Kind) := Kind.all.map fun k => (k.name, k)

def ofValue (index : Nat) : Value → Checked Node :=
  Reader.record fun r =>
    (Reader.both (Reader.required (Reader.choice kindChoices) "kind" r)
      (Reader.both (Reader.required Reader.text "node_type" r)
        (Reader.both (Reader.required Reader.integer "start" r)
          (Reader.both (Reader.required Reader.integer "end" r)
            (Reader.both
              (Reader.withDefault none (Reader.optional Reader.integer) "parent" r)
              (Reader.both
                (Reader.withDefault [] (Reader.items Reader.integer) "children" r)
                (Reader.withDefault [] (Reader.fields Reader.integer) "fields" r))))))).map
      fun (kind, type, start, stop, parent, children, roles) =>
        { index, kind, type, start, stop, parent, children, roles }

/-- Reads a list of nodes, up to the first one about which there are complaints. -/
def listOfValues (index : Nat) : List Value → Checked (List Node)
  | [] => .ok []
  | v :: rest => do
      let n ← ofValue index v
      let ns ← listOfValues (index + 1) rest
      pure (n :: ns)

end GuardClause.Node
