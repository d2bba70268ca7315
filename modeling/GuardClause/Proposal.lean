import GuardClause.Code.Layout
import GuardClause.Conditional.Refactoring
import GuardClause.Edit
import GuardClause.Log.Record

/-!
# Proposals

Given a cursor, `Arena.propose` offers the refactorings that apply to the code around it, in a
fixed order. A refactoring that does not apply is refused without fault; a `Refusal` says why. A
survey keeps the refusals that came before a fault, because they are logged.
-/

namespace GuardClause

/-- Why a refactoring does not apply at a cursor. -/
inductive Refusal where
  | noIf (offset : Int)
  /-- The if-statement that starts at the offset cannot be flattened. -/
  | notFlattenable (start : Int)
  | noConditional (offset : Int)
deriving DecidableEq, Repr

namespace Refusal

def message : Refusal → String
  | noIf offset => "No if-statement encloses offset " ++ toString offset
  | notFlattenable start =>
      "if-statement at offset " ++ toString start ++ " is not a flattenable if/else"
  | noConditional offset => "No conditional expression encloses offset " ++ toString offset

def record (r : Refusal) : Log.Record :=
  Log.Record.plain .debug "flipper.engine.handlers" r.message

end Refusal

/-- What a refactoring says about a cursor: a refusal, or an edit. -/
abbrev Answer := Except Refusal Edit

/-- The answers of several refactorings, as far as they came before a fault. -/
structure Survey where
  refusals : List Refusal
  outcome : Except Fault (List Edit)

namespace Arena

/-- The range that a node covers. Its places are moved into the buffer; its offsets stay as they
are and must not be negative. -/
def rangeOf (a : Arena) (n : Node) : Except Fault Range :=
  let complaints :=
    (if n.start < 0 then [⟨[.field "start_offset"], .negative⟩] else []) ++
      (if n.stop < 0 then [⟨[.field "end_offset"], .negative⟩] else [])
  if complaints.isEmpty then
    .ok ⟨a.buffer.positionOf n.start, a.buffer.positionOf n.stop, n.start.toNat, n.stop.toNat⟩
  else .error (.invalid complaints)

/-- The edit that puts a replacement into the buffer. -/
def editOf (a : Arena) (width : Int) (kind : EditKind) (r : Replacement) : Except Fault Edit := do
  let range ← a.rangeOf r.target
  let base := a.buffer.lineIndent r.target.start
  pure ⟨kind, kind.title, range, Stmt.printAll a.buffer width base r.statements⟩

/-- The if-statement around an offset that can be flattened. Only the innermost one counts. -/
def flattenableAt (a : Arena) (offset : Int) : Except Fault (Except Refusal Node) := do
  match ← a.findEnclosing isIf (← a.resolve offset) with
  | none => pure (.error (.noIf offset))
  | some n =>
      if ← a.canFlatten n then pure (.ok n) else pure (.error (.notFlattenable n.start))

/-- The innermost conditional expression around an offset. -/
def conditionalAt (a : Arena) (offset : Int) : Except Fault (Except Refusal Node) := do
  match ← a.findEnclosing isConditional (← a.resolve offset) with
  | none => pure (.error (.noConditional offset))
  | some n => pure (.ok n)

/-- The node that a refactoring works on. -/
def targetOf (a : Arena) (offset : Int) : EditKind → Except Fault (Except Refusal Node)
  | .simplify | .invertAndSimplify => a.flattenableAt offset
  | .convertTernary => a.conditionalAt offset

/-- What a refactoring does to a node. -/
def replace (a : Arena) (n : Node) : EditKind → Except Fault Replacement
  | .simplify => a.simplify n
  | .invertAndSimplify => a.invertAndSimplify n
  | .convertTernary => a.expandConditional n

/-- The answer of one refactoring. -/
def answer (a : Arena) (offset width : Int) (kind : EditKind) : Except Fault Answer := do
  match ← a.targetOf offset kind with
  | .error refusal => pure (.error refusal)
  | .ok n => .ok <$> a.editOf width kind (← a.replace n kind)

/-- The edits that one refactoring offers: one or none. -/
def offer (a : Arena) (offset width : Int) (kind : EditKind) : Except Fault (List Edit) := do
  match ← a.answer offset width kind with
  | .ok edit => pure [edit]
  | .error _ => pure []

/-- The answers of refactorings one after another, until one faults. -/
def surveyOf (a : Arena) (offset width : Int) : List EditKind → Survey
  | [] => ⟨[], .ok []⟩
  | kind :: rest =>
      match a.answer offset width kind with
      | .error fault => ⟨[], .error fault⟩
      | .ok (.error refusal) =>
          let s := surveyOf a offset width rest
          { s with refusals := refusal :: s.refusals }
      | .ok (.ok edit) =>
          let s := surveyOf a offset width rest
          { s with outcome := s.outcome.map (edit :: ·) }

def survey (a : Arena) (offset width : Int) : Survey := a.surveyOf offset width EditKind.all

/-- The edits that all refactorings offer at an offset, in a fixed order. -/
def propose (a : Arena) (offset width : Int) : Except Fault (List Edit) :=
  (a.survey offset width).outcome

end Arena

end GuardClause
