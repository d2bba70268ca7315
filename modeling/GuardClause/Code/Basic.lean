import GuardClause.Syntax.Kind
import GuardClause.Text.Slice

/-!
# Code made by a refactoring

A refactoring builds statements and expressions afresh. What it takes over from the buffer it
takes over as fragments, whole stretches of text; what it adds are negations, returns, blocks and
if-statements.
-/

namespace GuardClause

/-- A stretch of text taken over from the buffer, with the type and the kind of its node. Lines
after the first are relative to the indentation of the line where the stretch began. -/
structure Fragment where
  text : Text
  type : String := ""
  kind : Kind := .other
deriving DecidableEq, Repr

/-- An expression: a fragment under any number of negations. -/
inductive Expr where
  | fragment (f : Fragment)
  | not (operand : Expr)
deriving DecidableEq, Repr

/-- A statement. An if-statement has one block or two. -/
inductive Stmt where
  | fragment (f : Fragment)
  | ret (value : Option Expr)
  | block (body : List Stmt)
  | ifThen (condition : Expr) (body : List Stmt)
  | ifElse (condition : Expr) (body otherwise : List Stmt)
deriving Repr

namespace Stmt

mutual

def same : Stmt → Stmt → Bool
  | fragment f, fragment g => f = g
  | ret v, ret w => v = w
  | block b, block c => sameList b c
  | ifThen c b, ifThen d e => c = d && sameList b e
  | ifElse c b o, ifElse d e p => c = d && sameList b e && sameList o p
  | _, _ => false

def sameList : List Stmt → List Stmt → Bool
  | [], [] => true
  | s :: ss, t :: ts => same s t && sameList ss ts
  | _, _ => false

end

mutual

theorem eq_of_same : ∀ {s t : Stmt}, same s t = true → s = t
  | fragment _, fragment _, h => by simp_all [same]
  | ret _, ret _, h => by simp_all [same]
  | block _, block _, h => by
      rw [same] at h
      rw [eq_of_sameList h]
  | ifThen _ _, ifThen _ _, h => by
      simp only [same, Bool.and_eq_true, decide_eq_true_eq] at h
      rw [h.1, eq_of_sameList h.2]
  | ifElse _ _ _, ifElse _ _ _, h => by
      simp only [same, Bool.and_eq_true, decide_eq_true_eq] at h
      rw [h.1.1, eq_of_sameList h.1.2, eq_of_sameList h.2]

theorem eq_of_sameList : ∀ {ss ts : List Stmt}, sameList ss ts = true → ss = ts
  | [], [], _ => rfl
  | _ :: _, _ :: _, h => by
      simp only [sameList, Bool.and_eq_true] at h
      rw [eq_of_same h.1, eq_of_sameList h.2]

end

mutual

theorem same_self : ∀ s : Stmt, same s s = true
  | fragment _ => by simp [same]
  | ret _ => by simp [same]
  | block b => by simp [same, sameList_self b]
  | ifThen _ b => by simp [same, sameList_self b]
  | ifElse _ b o => by simp [same, sameList_self b, sameList_self o]

theorem sameList_self : ∀ ss : List Stmt, sameList ss ss = true
  | [] => rfl
  | s :: ss => by simp [sameList, same_self s, sameList_self ss]

end

instance : DecidableEq Stmt := fun s t =>
  if h : same s t then isTrue (eq_of_same h)
  else isFalse fun e => h (e ▸ same_self s)

end Stmt

end GuardClause
