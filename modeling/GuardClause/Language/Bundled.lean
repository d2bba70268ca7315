import GuardClause.Language.Grammar
import GuardClause.Language.Shelf

/-!
# The languages that come with the library

TypeScript, which covers JavaScript too, and Java, with their grammars, the registry that holds
them, and what is logged while it is filled.
-/

namespace GuardClause

/-- A language that comes with the library. -/
inductive Bundled where
  | typescript
  | java
deriving DecidableEq, Repr

namespace Bundled

/-- The languages in the order in which they are registered. -/
def all : List Bundled := [typescript, java]

/-- The name by which users ask for a language. -/
def name : Bundled → String
  | typescript => "typescript"
  | java => "java"

/-- The name of a language in prose. -/
def title : Bundled → String
  | typescript => "TypeScript"
  | java => "Java"

/-- The name under which a language logs. -/
def logger (b : Bundled) : String := "plugins." ++ b.name ++ ".plugin"

/-- What is logged when the grammar of a language has been set up. -/
def setupLog (b : Bundled) : List Log.Record :=
  [Log.Record.plain .info b.logger (b.title ++ " plugin initialized successfully")]

/-- The parts of if-statements and of conditional expressions, which both languages keep in fields
of the same names. -/
def commonRoles : Table (Table String) :=
  let parts := [("condition", "condition"), ("consequence", "consequence"),
    ("alternative", "alternative")]
  [("if_statement", parts), ("ternary_expression", parts)]

/-- How the concrete syntax of a language is read. -/
def grammar : Bundled → Grammar
  | typescript => {
      name := some "typescript"
      extensions := [".ts", ".mts", ".cts", ".js", ".mjs", ".cjs"]
      kinds := [("program", .program), ("if_statement", .ifStatement),
        ("else_clause", .elseClause), ("statement_block", .block),
        ("return_statement", .returnStatement), ("ternary_expression", .conditional),
        ("parenthesized_expression", .parenthesized), ("switch_case", .switchCase),
        ("switch_default", .switchCase), ("comment", .comment)]
      roles := commonRoles
      negation := ⟨some "unary_expression", some "operator", some "!", some "argument"⟩ }
  | java => {
      name := some "java"
      extensions := [".java"]
      kinds := [("program", .program), ("if_statement", .ifStatement), ("block", .block),
        ("constructor_body", .block), ("return_statement", .returnStatement),
        ("ternary_expression", .conditional), ("parenthesized_expression", .parenthesized),
        ("switch_block_statement_group", .switchCase), ("line_comment", .comment),
        ("block_comment", .comment)]
      roles := commonRoles
      negation := ⟨some "unary_expression", some "operator", some "!", some "operand"⟩ }

/-- The grammar of a language as its configuration has it, with kinds given by name. -/
def settings (b : Bundled) : GrammarSettings := b.grammar.settings

def registration (b : Bundled) : Registration Grammar :=
  ⟨b.name, b.grammar.extensions, b.grammar⟩

end Bundled

/-- The registration of a grammar, which needs a name. -/
def Grammar.registration? (g : Grammar) : Option (Registration Grammar) :=
  g.name.map fun name => ⟨name, g.extensions, g⟩

theorem Bundled.registration?_grammar (b : Bundled) :
    b.grammar.registration? = some b.registration := by
  cases b <;> rfl

/-! ## The registry of the bundled languages -/

namespace Registry

def bundled : Registry Grammar := (Bundled.all.map Bundled.registration).foldl register empty

/-- What is logged while a registry is filled with bundled languages whose configurations lie in
a folder. -/
def fillLog (folder : String) : Registry Grammar → List Bundled → List Log.Record
  | _, [] => []
  | r, b :: rest =>
      Config.loadedLog (Config.pathIn folder b.name)
        ++ b.setupLog
        ++ r.registerLog b.registration
        ++ fillLog folder (r.register b.registration) rest

/-- What is logged while the registry of the bundled languages is made. -/
def bundledLog (folder : String) : List Log.Record := fillLog folder empty Bundled.all

end Registry

end GuardClause
