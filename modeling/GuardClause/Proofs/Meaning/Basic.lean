import GuardClause.Code.Basic
import Mathlib

/-!
# What code means

The refactorings never look inside a fragment, so a fragment may mean anything: a `Meaning` gives
what every fragment does as a statement and what it yields as an expression, over any states and
any values. The code that a refactoring builds then has a meaning of its own, by recursion over
what it is made of (`Expr.value`, `Stmt.run`).

A statement ends normally, returns, or ends abruptly in some other way, and whatever follows it
runs only if it ended normally (`andThen`). At the end of a body, ending normally and returning
nothing are the same thing; `settle` says so.
-/

namespace GuardClause

/-- How a statement ends. -/
inductive Outcome (ν τ : Type) where
  /-- What follows runs. -/
  | normal
  | returned (value : Option ν)
  /-- What follows does not run, for a reason other than a return. -/
  | abrupt (tag : τ)

/-- What fragments do over states `σ`, with values `ν` and ways `τ` of ending abruptly. -/
structure Meaning (σ ν τ : Type) where
  /-- What a fragment does as a statement. -/
  exec : Fragment → σ → σ × Outcome ν τ
  /-- What a fragment yields as an expression. -/
  eval : Fragment → σ → σ × ν
  truthy : ν → Bool
  negate : ν → ν
  truthy_negate : ∀ v, truthy (negate v) = !truthy v
  exec_returns : ∀ f s, f.kind = .returnStatement → (exec f s).2 ≠ .normal

variable {σ ν τ : Type}

/-- A result, followed by what runs if it is normal. -/
def andThen (r : σ × Outcome ν τ) (next : σ → σ × Outcome ν τ) : σ × Outcome ν τ :=
  match r.2 with
  | .normal => next r.1
  | _ => r

/-- A result at the end of a body, where running off the end returns nothing. -/
def settle (r : σ × Outcome ν τ) : σ × Outcome ν τ := andThen r fun s => (s, .returned none)

@[simp] theorem normal_andThen (s : σ) (next : σ → σ × Outcome ν τ) :
    andThen (s, .normal) next = next s := rfl

@[simp] theorem returned_andThen (s : σ) (v : Option ν) (next : σ → σ × Outcome ν τ) :
    andThen (s, .returned v) next = (s, .returned v) := rfl

theorem andThen_of_ne_normal {r : σ × Outcome ν τ} (h : r.2 ≠ .normal)
    (next : σ → σ × Outcome ν τ) : andThen r next = r := by
  unfold andThen
  split
  · rename_i hr
    exact absurd hr h
  · rfl

theorem andThen_of_eq_normal {r : σ × Outcome ν τ} (h : r.2 = .normal)
    (next : σ → σ × Outcome ν τ) : andThen r next = next r.1 := by
  unfold andThen
  rw [h]

theorem andThen_assoc (r : σ × Outcome ν τ) (f g : σ → σ × Outcome ν τ) :
    andThen (andThen r f) g = andThen r fun s => andThen (f s) g := by
  by_cases h : r.2 = .normal
  · rw [andThen_of_eq_normal h, andThen_of_eq_normal h]
  · rw [andThen_of_ne_normal h, andThen_of_ne_normal h, andThen_of_ne_normal h]

theorem andThen_normal (r : σ × Outcome ν τ) : andThen r (fun s => (s, .normal)) = r := by
  by_cases h : r.2 = .normal
  · rw [andThen_of_eq_normal h]
    exact Prod.ext rfl h.symm
  · exact andThen_of_ne_normal h _

theorem settle_fst (r : σ × Outcome ν τ) : (settle r).1 = r.1 := by
  by_cases h : r.2 = .normal
  · rw [settle, andThen_of_eq_normal h]
  · rw [settle, andThen_of_ne_normal h]

theorem settle_ne_normal (r : σ × Outcome ν τ) : (settle r).2 ≠ .normal := by
  intro h
  by_cases hr : r.2 = .normal
  · rw [settle, andThen_of_eq_normal hr] at h
    cases h
  · rw [settle, andThen_of_ne_normal hr] at h
    exact hr h

theorem settle_settle (r : σ × Outcome ν τ) : settle (settle r) = settle r := by
  -- The first return at the end is not followed by the second one.
  simp only [settle, andThen_assoc, returned_andThen]

/-- The result of an expression that yields a value and then chooses. -/
def choose (I : Meaning σ ν τ) (r : σ × ν) (yes no : σ → σ × Outcome ν τ) : σ × Outcome ν τ :=
  if I.truthy r.2 then yes r.1 else no r.1

theorem choose_of_truthy {I : Meaning σ ν τ} {r : σ × ν} (h : I.truthy r.2 = true)
    (yes no : σ → σ × Outcome ν τ) : choose I r yes no = yes r.1 :=
  if_pos h

theorem choose_of_not_truthy {I : Meaning σ ν τ} {r : σ × ν} (h : I.truthy r.2 = false)
    (yes no : σ → σ × Outcome ν τ) : choose I r yes no = no r.1 := by
  unfold choose
  rw [if_neg (by simp [h])]

theorem andThen_choose (I : Meaning σ ν τ) (r : σ × ν) (yes no next : σ → σ × Outcome ν τ) :
    andThen (choose I r yes no) next =
      choose I r (fun s => andThen (yes s) next) fun s => andThen (no s) next := by
  unfold choose
  split <;> rfl

/-- What an expression yields. -/
def Expr.value (I : Meaning σ ν τ) : Expr → σ → σ × ν
  | .fragment f, s => I.eval f s
  | .not e, s => ((e.value I s).1, I.negate (e.value I s).2)

namespace Stmt

mutual

/-- What a statement does. -/
def run (I : Meaning σ ν τ) : Stmt → σ → σ × Outcome ν τ
  | fragment f, s => I.exec f s
  | ret none, s => (s, .returned none)
  | ret (some e), s => ((e.value I s).1, .returned (some (e.value I s).2))
  | block body, s => runAll I body s
  | ifThen c body, s => choose I (c.value I s) (runAll I body) fun s' => (s', .normal)
  | ifElse c body otherwise, s => choose I (c.value I s) (runAll I body) (runAll I otherwise)

/-- What statements do one after another. -/
def runAll (I : Meaning σ ν τ) : List Stmt → σ → σ × Outcome ν τ
  | [], s => (s, .normal)
  | st :: rest, s => andThen (run I st s) (runAll I rest)

end

theorem runAll_append (I : Meaning σ ν τ) (ss ts : List Stmt) (s : σ) :
    runAll I (ss ++ ts) s = andThen (runAll I ss s) (runAll I ts) := by
  induction ss generalizing s with
  | nil =>
      rw [List.nil_append, runAll, normal_andThen]
  | cons st ss ih =>
      have hrest : runAll I (ss ++ ts) = fun s' => andThen (runAll I ss s') (runAll I ts) := by
        ext1 s'
        exact ih s'
      rw [List.cons_append, runAll, runAll, andThen_assoc, hrest]

theorem runAll_singleton (I : Meaning σ ν τ) (st : Stmt) (s : σ) :
    runAll I [st] s = run I st s := by
  rw [runAll]
  exact andThen_normal _

end Stmt

namespace Meaning

/-- What the statements of the buffer do one after another. -/
def execAll (I : Meaning σ ν τ) : List Fragment → σ → σ × Outcome ν τ
  | [], s => (s, .normal)
  | f :: rest, s => andThen (I.exec f s) (execAll I rest)

/-- A fragment under `k` negations. -/
def under (I : Meaning σ ν τ) (k : Nat) (r : σ × ν) : σ × ν := (r.1, I.negate^[k] r.2)

variable {I : Meaning σ ν τ}

theorem runAll_fragments (fs : List Fragment) :
    Stmt.runAll I (fs.map .fragment) = I.execAll fs := by
  ext1 s
  induction fs generalizing s with
  | nil => rfl
  | cons f fs ih =>
      have hrest : Stmt.runAll I (fs.map .fragment) = I.execAll fs := by
        ext1 s'
        exact ih s'
      rw [List.map_cons, Stmt.runAll, Stmt.run, execAll, hrest]

/-- Statements among which one returns never end normally. -/
theorem execAll_ne_normal {fs : List Fragment} (h : ∃ f ∈ fs, f.kind = .returnStatement) (s : σ) :
    (I.execAll fs s).2 ≠ .normal := by
  induction fs generalizing s with
  | nil => exact absurd h (by simp)
  | cons f fs ih =>
      rw [execAll]
      by_cases hf : (I.exec f s).2 = .normal
      · rw [andThen_of_eq_normal hf]
        obtain ⟨g, hg, hk⟩ := h
        rcases List.mem_cons.mp hg with rfl | hg
        · exact absurd hf (I.exec_returns g s hk)
        · exact ih ⟨g, hg, hk⟩ _
      · rwa [andThen_of_ne_normal hf]

theorem under_succ (k : Nat) (r : σ × ν) :
    I.under (k + 1) r = ((I.under k r).1, I.negate (I.under k r).2) := by
  rw [under, under, Function.iterate_succ_apply']

end Meaning

end GuardClause
