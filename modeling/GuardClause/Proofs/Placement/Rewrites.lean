import GuardClause.Proofs.Placement.Arenas

/-!
# The same replacements in a larger buffer

A fragment is the text of a node, relative to the indentation of the line where the node starts.
Both are the same in the larger buffer (`fragmentOf_eq`), and so is everything that refactorings
build from fragments.
-/

namespace GuardClause.Arena.Twins

variable {before after : Text} {a a' : Arena} {n n' : Node}

/-! ## What is taken over -/

theorem fragmentOf_eq (h : a.Twins before after a') (hn : a.PairsBelow before.length n n') :
    a'.fragmentOf n' = a.fragmentOf n := by
  obtain ⟨hstart, hstop⟩ := h.inside n hn.mem
  have htext : a'.textOf n' = a.textOf n := by
    rw [textOf, textOf, hn.start_eq, hn.stop_eq, h.buffer.slice_eq hstart hstop]
  have hindent : a'.buffer.lineIndent n'.start = a.buffer.lineIndent n.start := by
    rw [hn.start_eq, h.buffer.lineIndent_eq hstart]
  rw [fragmentOf, fragmentOf, htext, hindent, hn.moved.type_eq, hn.moved.kind_eq]

theorem extract (h : a.Twins before after a') (hn : a.PairsBelow before.length n n')
    (addReturn : Bool) : Alike Eq (a.extract addReturn n) (a'.extract addReturn n') := by
  rw [Arena.extract, Arena.extract, hn.moved.kind_eq]
  split
  · refine (h.childrenOf hn.toPairs).bind ?_
    intro ms ms' hms
    have hstatements : ms.map (fun c => Stmt.fragment (a.fragmentOf c)) =
        ms'.map fun c => Stmt.fragment (a'.fragmentOf c) :=
      map_eq_map_of_forall₂ hms fun _ _ hm => by rw [h.fragmentOf_eq hm]
    have hkinds : ms.map Node.kind = ms'.map Node.kind :=
      map_eq_map_of_forall₂ hms fun _ _ hm => hm.moved.kind_eq.symm
    have hreturns : ms.any (·.kind = .returnStatement) = ms'.any (·.kind = .returnStatement) := by
      have hany := congrArg (List.any · (· = Kind.returnStatement)) hkinds
      simpa only [List.any_map, Function.comp_def] using hany
    dsimp only
    rw [hstatements, hreturns]
    split
    · exact .pure rfl
    · exact .pure rfl
  · exact .error _ _

theorem expressionFuel (h : a.Twins before after a') (hn : a.PairsBelow before.length n n')
    (fuel : Nat) : Alike Eq (a.expressionFuel fuel n) (a'.expressionFuel fuel n') := by
  induction fuel generalizing n n' with
  | zero => exact .error _ _
  | succ fuel ih =>
      rw [Arena.expressionFuel, Arena.expressionFuel, hn.moved.kind_eq, h.fragmentOf_eq hn]
      split
      · refine (h.inRole hn.toPairs .operand).bind ?_
        intro o o' ho
        cases ho with
        | none => exact .pure rfl
        | some hm => exact (ih hm).map fun _ _ heq => congrArg Expr.not heq
      · exact .pure rfl

theorem expressionOf (h : a.Twins before after a') (hn : a.PairsBelow before.length n n') :
    Alike Eq (a.expressionOf n) (a'.expressionOf n') := by
  rw [Arena.expressionOf, Arena.expressionOf, h.bound_eq]
  exact h.expressionFuel hn _

/-! ## Flattening -/

theorem conditionOf (h : a.Twins before after a') (hn : a.PairsBelow before.length n n') :
    Alike Eq (a.conditionOf n) (a'.conditionOf n') := by
  refine (h.inRole hn.toPairs .condition).bind ?_
  intro o o' ho
  cases ho with
  | none => exact .error _ _
  | some hc =>
      dsimp only
      rw [hc.moved.kind_eq]
      split
      · refine (h.inRole hc.toPairs .operand).bind ?_
        intro o o' ho
        cases ho with
        | none => exact h.expressionOf hc
        | some hm => exact h.expressionOf hm
      · exact h.expressionOf hc

theorem branches (h : a.Twins before after a') (hn : a.PairsBelow before.length n n') :
    Alike (fun p p' => a.PairsBelow before.length p.1 p'.1 ∧ a.PairsBelow before.length p.2 p'.2)
      (a.branches n) (a'.branches n') := by
  refine (h.inRole hn.toPairs .consequence).bind ?_
  intro t t' ht
  refine (h.elseBranch hn.toPairs).bind ?_
  intro e e' he
  cases ht with
  | none => exact .error _ _
  | some ht =>
      cases he with
      | none => exact .error _ _
      | some he => exact .pure ⟨ht, he⟩

theorem simplify (h : a.Twins before after a') (hn : a.PairsBelow before.length n n') :
    Alike (a.PairsReplacement before.length) (a.simplify n) (a'.simplify n') := by
  refine (h.branches hn).bind ?_
  rintro ⟨t, e⟩ ⟨t', e'⟩ ⟨ht, he⟩
  refine (h.extract ht true).bind ?_
  rintro guarded _ rfl
  refine (h.extract he false).bind ?_
  rintro rest _ rfl
  refine (h.conditionOf hn).bind ?_
  rintro condition _ rfl
  exact .pure ⟨hn, rfl⟩

theorem invertAndSimplify (h : a.Twins before after a') (hn : a.PairsBelow before.length n n') :
    Alike (a.PairsReplacement before.length) (a.invertAndSimplify n)
      (a'.invertAndSimplify n') := by
  refine (h.branches hn).bind ?_
  rintro ⟨t, e⟩ ⟨t', e'⟩ ⟨ht, he⟩
  refine (h.extract ht false).bind ?_
  rintro rest _ rfl
  refine (h.extract he true).bind ?_
  rintro guarded _ rfl
  refine (h.conditionOf hn).bind ?_
  rintro condition _ rfl
  exact .pure ⟨hn, rfl⟩

/-! ## Expanding -/

theorem unwrapFuel (h : a.Twins before after a') (hn : a.PairsBelow before.length n n')
    (fuel : Nat) :
    Alike (a.PairsBelow before.length) (a.unwrapFuel fuel n) (a'.unwrapFuel fuel n') := by
  induction fuel generalizing n n' with
  | zero => exact .error _ _
  | succ fuel ih =>
      rw [Arena.unwrapFuel, Arena.unwrapFuel, hn.moved.kind_eq]
      split
      · refine (h.inRole hn.toPairs .operand).bind ?_
        intro o o' ho
        cases ho with
        | none => exact .pure hn
        | some hm => exact ih hm
      · exact .pure hn

theorem unwrap (h : a.Twins before after a') (hn : a.PairsBelow before.length n n') :
    Alike (a.PairsBelow before.length) (a.unwrap n) (a'.unwrap n') := by
  rw [Arena.unwrap, Arena.unwrap, h.bound_eq]
  exact h.unwrapFuel hn _

theorem expandFuel (h : a.Twins before after a') (hn : a.PairsBelow before.length n n')
    (fuel : Nat) : Alike Eq (a.expandFuel fuel n) (a'.expandFuel fuel n') := by
  induction fuel generalizing n n' with
  | zero => exact .error _ _
  | succ fuel ih =>
      rw [Arena.expandFuel, Arena.expandFuel]
      refine (h.unwrap hn).bind ?_
      intro q q' hq
      rw [hq.moved.kind_eq]
      split
      · refine (h.inRole hq.toPairs .condition).bind ?_
        intro c c' hc
        refine (h.inRole hq.toPairs .consequence).bind ?_
        intro t t' ht
        refine (h.inRole hq.toPairs .alternative).bind ?_
        intro f f' hf
        cases hc with
        | none => exact .error _ _
        | some hc =>
            cases ht with
            | none => exact .error _ _
            | some ht =>
                cases hf with
                | none => exact .error _ _
                | some hf =>
                    -- All three parts are there.
                    refine (h.expressionOf hc).bind ?_
                    rintro condition _ rfl
                    refine (ih ht).bind ?_
                    rintro whenTrue _ rfl
                    refine (ih hf).bind ?_
                    rintro whenFalse _ rfl
                    exact .pure rfl
      · refine (h.expressionOf hn).bind ?_
        rintro value _ rfl
        exact .pure rfl

theorem expandConditional (h : a.Twins before after a') (hn : a.PairsBelow before.length n n') :
    Alike (a.PairsReplacement before.length) (a.expandConditional n)
      (a'.expandConditional n') := by
  rw [Arena.expandConditional, Arena.expandConditional, hn.moved.kind_eq, expand, expand,
    h.bound_eq]
  split
  · refine (h.expandFuel hn _).bind ?_
    rintro statement _ rfl
    exact .pure ⟨hn, rfl⟩
  · exact .error _ _

end GuardClause.Arena.Twins
