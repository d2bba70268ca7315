import GuardClause.Proofs.Edits.Offers

/-!
# What is copied

A refactoring builds its statements from fragments, and every fragment is the copy of a node of the
arena, whichever way the statements are put together (`copies_of_replace`).
-/

namespace GuardClause

/-- The fragment under the negations of an expression. -/
def Expr.core : Expr → Fragment
  | .fragment f => f
  | .not operand => core operand

theorem Expr.core_invert (e : Expr) : e.invert.core = e.core := by
  cases e <;> rfl

namespace Stmt

mutual

/-- The fragments of a statement, in the order in which they are written. -/
def fragments : Stmt → List Fragment
  | fragment f => [f]
  | ret none => []
  | ret (some e) => [e.core]
  | block body => fragmentsAll body
  | ifThen condition body => condition.core :: fragmentsAll body
  | ifElse condition body otherwise =>
      condition.core :: (fragmentsAll body ++ fragmentsAll otherwise)

def fragmentsAll : List Stmt → List Fragment
  | [] => []
  | s :: rest => fragments s ++ fragmentsAll rest

end

theorem fragmentsAll_append (ss ts : List Stmt) :
    fragmentsAll (ss ++ ts) = fragmentsAll ss ++ fragmentsAll ts := by
  induction ss with
  | nil => rfl
  | cons s ss ih => rw [List.cons_append, fragmentsAll, ih, fragmentsAll, List.append_assoc]

theorem fragmentsAll_map_fragment (fs : List Fragment) :
    fragmentsAll (fs.map .fragment) = fs := by
  induction fs with
  | nil => rfl
  | cons f fs ih => rw [List.map_cons, fragmentsAll, ih, fragments, List.singleton_append]

end Stmt

namespace Arena

/-- Every fragment is the copy of a node. -/
def Copies (a : Arena) (fs : List Fragment) : Prop := ∀ f ∈ fs, ∃ m ∈ a.nodes, f = a.fragmentOf m

/-- A node is copied into statements. -/
def Copied (a : Arena) (ss : List Stmt) (m : Node) : Prop :=
  m ∈ a.nodes ∧ a.fragmentOf m ∈ Stmt.fragmentsAll ss

variable {a : Arena} {n m : Node} {e : Expr} {s : Stmt} {ss : List Stmt} {fs gs : List Fragment}

theorem Copies.append (h : a.Copies fs) (h' : a.Copies gs) : a.Copies (fs ++ gs) :=
  List.forall_mem_append.mpr ⟨h, h'⟩

theorem Copies.cons {f : Fragment} (h : ∃ m ∈ a.nodes, f = a.fragmentOf m) (h' : a.Copies fs) :
    a.Copies (f :: fs) :=
  List.forall_mem_cons.mpr ⟨h, h'⟩

theorem mem_of_inRole {role : Role} (h : a.inRole n role = .ok (some m)) : m ∈ a.nodes := by
  unfold inRole named at h
  split at h
  · cases h
  · obtain ⟨k, hk, hkm⟩ := map_eq_ok.mp h
    obtain rfl := Option.some.inj hkm
    exact mem_of_fetch hk

theorem exists_core_of_expressionFuel {fuel : Nat} (hn : n ∈ a.nodes)
    (h : a.expressionFuel fuel n = .ok e) : ∃ m ∈ a.nodes, e.core = a.fragmentOf m := by
  induction fuel generalizing n e with
  | zero => cases h
  | succ fuel ih =>
      rw [expressionFuel] at h
      split at h
      · obtain ⟨operand, hop, h⟩ := bind_eq_ok.mp h
        cases operand with
        | none =>
            obtain rfl := Except.ok.inj h
            exact ⟨n, hn, rfl⟩
        | some operand =>
            obtain ⟨inner, hinner, rfl⟩ := map_eq_ok.mp h
            obtain ⟨m, hm, hcore⟩ := ih (mem_of_inRole hop) hinner
            exact ⟨m, hm, hcore⟩
      · obtain rfl := Except.ok.inj h
        exact ⟨n, hn, rfl⟩

theorem exists_core_of_conditionOf (h : a.conditionOf n = .ok e) :
    ∃ m ∈ a.nodes, e.core = a.fragmentOf m := by
  obtain ⟨c, hc, h⟩ := bind_eq_ok.mp h
  cases c with
  | none => cases h
  | some c =>
      dsimp only at h
      split at h
      · obtain ⟨inner, hinner, h⟩ := bind_eq_ok.mp h
        cases inner with
        | none => exact exists_core_of_expressionFuel (mem_of_inRole hc) h
        | some inner => exact exists_core_of_expressionFuel (mem_of_inRole hinner) h
      · exact exists_core_of_expressionFuel (mem_of_inRole hc) h

theorem copies_of_extract {addReturn : Bool} (h : a.extract addReturn n = .ok ss) :
    a.Copies (Stmt.fragmentsAll ss) := by
  rw [extract] at h
  split at h
  · obtain ⟨ms, hms, h⟩ := bind_eq_ok.mp h
    have hcopied : a.Copies (Stmt.fragmentsAll (ms.map fun c => .fragment (a.fragmentOf c))) := by
      rw [← Function.comp_def, ← List.map_map, Stmt.fragmentsAll_map_fragment]
      intro f hf
      obtain ⟨m, hm, rfl⟩ := List.mem_map.mp hf
      exact ⟨m, mem_of_childrenOf hms hm, rfl⟩
    dsimp only at h
    split at h
    · -- The return at the end holds no fragment.
      obtain rfl := Except.ok.inj h
      rw [Stmt.fragmentsAll_append]
      exact hcopied.append (List.forall_mem_nil _)
    · obtain rfl := Except.ok.inj h
      exact hcopied
  · cases h

theorem copies_of_expandFuel {fuel : Nat} (hn : n ∈ a.nodes) (h : a.expandFuel fuel n = .ok s) :
    a.Copies s.fragments := by
  induction fuel generalizing n s with
  | zero => cases h
  | succ fuel ih =>
      obtain ⟨q, -, h⟩ := bind_eq_ok.mp h
      split at h
      · obtain ⟨c, hc, h⟩ := bind_eq_ok.mp h
        obtain ⟨t, ht, h⟩ := bind_eq_ok.mp h
        obtain ⟨e, he, h⟩ := bind_eq_ok.mp h
        split at h
        · obtain ⟨condition, hcondition, h⟩ := bind_eq_ok.mp h
          obtain ⟨yes, hyes, h⟩ := bind_eq_ok.mp h
          obtain ⟨no, hno, h⟩ := bind_eq_ok.mp h
          obtain rfl := Except.ok.inj h
          have hcore := exists_core_of_expressionFuel (mem_of_inRole hc) hcondition
          have hyesall := ih (mem_of_inRole ht) hyes
          have hnoall := ih (mem_of_inRole he) hno
          simp only [Stmt.fragments, Stmt.fragmentsAll, List.append_nil]
          exact .cons hcore (hyesall.append hnoall)
        · cases h
      · obtain ⟨value, hvalue, h⟩ := bind_eq_ok.mp h
        obtain rfl := Except.ok.inj h
        exact .cons (exists_core_of_expressionFuel hn hvalue) (List.forall_mem_nil _)

/-- What takes the place of a node is made of copies. -/
theorem copies_of_replace {kind : EditKind} {r : Replacement} (hn : n ∈ a.nodes)
    (h : a.replace n kind = .ok r) : a.Copies (Stmt.fragmentsAll r.statements) := by
  cases kind with
  | simplify =>
      obtain ⟨bs, -, h⟩ := bind_eq_ok.mp h
      obtain ⟨guarded, hguarded, h⟩ := bind_eq_ok.mp h
      obtain ⟨rest, hrest, h⟩ := bind_eq_ok.mp h
      obtain ⟨c, hc, h⟩ := bind_eq_ok.mp h
      obtain rfl := Except.ok.inj h
      have hguard : a.Copies (Stmt.ifThen c guarded).fragments :=
        .cons (exists_core_of_conditionOf hc) (copies_of_extract hguarded)
      exact hguard.append (copies_of_extract hrest)
  | invertAndSimplify =>
      obtain ⟨bs, -, h⟩ := bind_eq_ok.mp h
      obtain ⟨rest, hrest, h⟩ := bind_eq_ok.mp h
      obtain ⟨guarded, hguarded, h⟩ := bind_eq_ok.mp h
      obtain ⟨c, hc, h⟩ := bind_eq_ok.mp h
      obtain rfl := Except.ok.inj h
      have hcore := exists_core_of_conditionOf hc
      rw [← Expr.core_invert] at hcore
      have hguard : a.Copies (Stmt.ifThen c.invert guarded).fragments :=
        .cons hcore (copies_of_extract hguarded)
      exact hguard.append (copies_of_extract hrest)
  | convertTernary =>
      rw [replace, expandConditional] at h
      split at h
      · obtain ⟨s, hs, h⟩ := bind_eq_ok.mp h
        obtain rfl := Except.ok.inj h
        exact (copies_of_expandFuel hn hs).append (List.forall_mem_nil _)
      · cases h

end Arena

end GuardClause
