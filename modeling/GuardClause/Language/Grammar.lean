import GuardClause.Syntax.Concrete
import GuardClause.Syntax.Kind
import GuardClause.Table

/-!
# Grammars

A grammar says how the nodes of one language's concrete syntax are to be read: which node types
are of which kind, which fields hold the parts that the refactorings look at, and what a negation
looks like. `GrammarSettings` is a grammar as users write it, with kinds given by name;
`Grammar.ofSettings` checks the names, and `Grammar.settings` is the way back.
-/

namespace GuardClause

/-- How a negation looks: a node of some type whose operator field holds the operator. -/
structure NegationRule where
  type : Option String := none
  operatorField : Option String := none
  operator : Option String := none
  operandField : Option String := none
deriving DecidableEq, Repr

/-- A grammar as users write it. -/
structure GrammarSettings where
  name : Option String := none
  extensions : List String := []
  /-- The names of the kinds of node types. -/
  kinds : Table String := []
  /-- For a node type, the fields that hold its parts, by role. -/
  roles : Table (Table String) := []
  negation : NegationRule := {}
deriving DecidableEq, Repr

/-- How the concrete syntax of a language is read. -/
structure Grammar where
  /-- The name of the language. Nothing can be read without one. -/
  name : Option String
  extensions : List String
  kinds : Table Kind
  roles : Table (Table String)
  negation : NegationRule
deriving DecidableEq, Repr

/-- A name that is not the name of a kind. -/
structure UnknownKind where
  name : String
deriving DecidableEq, Repr

/-- The kinds of node types, unless one is unknown. -/
def kindTable : Table String → Except UnknownKind (Table Kind)
  | [] => .ok []
  | (type, name) :: rest =>
      match Kind.ofName? name with
      | none => .error ⟨name⟩
      | some k => (kindTable rest).map fun t => (type, k) :: t

/-- The grammar that users wrote, unless they named an unknown kind. -/
def Grammar.ofSettings (s : GrammarSettings) : Except UnknownKind Grammar := do
  pure ⟨s.name, s.extensions, ← kindTable s.kinds, s.roles, s.negation⟩

/-- The names of the kinds of node types. -/
def kindNames (kinds : Table Kind) : Table String := kinds.map fun e => (e.1, e.2.name)

theorem kindTable_kindNames (kinds : Table Kind) : kindTable (kindNames kinds) = .ok kinds := by
  induction kinds with
  | nil => rfl
  | cons e kinds ih =>
      obtain ⟨type, k⟩ := e
      have hcons : kindNames ((type, k) :: kinds) = (type, k.name) :: kindNames kinds := rfl
      rw [hcons, kindTable, Kind.ofName?_name, ih]
      rfl

/-- A grammar as users would write it. -/
def Grammar.settings (g : Grammar) : GrammarSettings :=
  ⟨g.name, g.extensions, kindNames g.kinds, g.roles, g.negation⟩

/-- A grammar is read back from its settings. -/
theorem Grammar.ofSettings_settings (g : Grammar) : Grammar.ofSettings g.settings = .ok g := by
  unfold Grammar.ofSettings Grammar.settings
  rw [kindTable_kindNames]
  rfl

/-- A setting of the negation rule. -/
inductive NegationSetting where
  | operatorField
  | operator
  | operandField
deriving DecidableEq, Repr

/-- The name of a setting of the negation rule. -/
def NegationSetting.name : NegationSetting → String
  | operatorField => "operator_field"
  | operator => "operator"
  | operandField => "operand_field"

/-- Why a concrete syntax tree cannot be read. -/
inductive ReadFault where
  | noRoot
  /-- A setting of the negation rule is needed and absent. -/
  | absent (setting : NegationSetting)
  /-- An offset lies behind the end of the text. -/
  | offsetOutside
deriving DecidableEq, Repr

namespace Grammar

def hasSuffix (suffix s : String) : Bool := suffix.toList.isSuffixOf s.toList

/-- The kind of a node type that the grammar does not list, told by the ending of its name. -/
def kindByEnding (type : String) : Kind :=
  if hasSuffix "_statement" type || hasSuffix "_declaration" type then .statement
  else if hasSuffix "_expression" type then .expression
  else .other

/-- A setting that is needed. -/
def need (setting : NegationSetting) : Option String → Except ReadFault String
  | some s => .ok s
  | none => .error (.absent setting)

/-- The kind of the root of a concrete syntax tree. Nodes of the type of negations are negations
or plain expressions, whatever the grammar lists for them. -/
def kindOf (g : Grammar) (t : Concrete) : Except ReadFault Kind :=
  let type := t.label.type
  if g.negation.type = some type then do
    let field ← need .operatorField g.negation.operatorField
    match t.childInField? field with
    | none => pure .expression
    | some token =>
        let operator ← need .operator g.negation.operator
        pure (if token.label.type = operator then .negation else .expression)
  else
    match g.kinds.get? type with
    | some k => .ok k
    | none => .ok (kindByEnding type)

/-- The fields that hold the parts of a node, by role. -/
def roleFields (g : Grammar) (t : Concrete) : Kind → Except ReadFault (Table String)
  | .negation => do
      let field ← need .operandField g.negation.operandField
      pure [("operand", field)]
  | _ => .ok ((g.roles.get? t.label.type).getD [])

end Grammar

end GuardClause
