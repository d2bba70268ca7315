import GuardClause.Proofs.Steps
import GuardClause.Proposal

/-!
# What is offered

An edit on offer is made in three steps: a node is found around the cursor, it is replaced by
statements, and these are printed into the range of the node (`offer_eq_ok`). What all refactorings
offer is what each of them offers, one after another (`propose_eq_ok`). In any arena, linked well or
not, every node that is found is a node of the arena (`mem_of_targetOf`).
-/

namespace GuardClause.Arena

variable {a : Arena} {n m : Node} {ms : List Node} {link offset width : Int} {kind : EditKind}

/-! ## Nodes that are found -/

theorem mem_of_fetch (h : a.fetch link = .ok n) : n ∈ a.nodes := by
  unfold fetch at h
  split at h
  · rename_i m hm
    obtain rfl := Except.ok.inj h
    obtain ⟨place, -, hget⟩ := Option.bind_eq_some_iff.mp hm
    exact Array.mem_of_getElem? hget
  · cases h

theorem mem_of_childrenOf (h : a.childrenOf n = .ok ms) (hm : m ∈ ms) : m ∈ a.nodes := by
  obtain ⟨link, -, hlink⟩ := exists_of_mapM_eq_ok h hm
  exact mem_of_fetch hlink

theorem mem_of_descend {fuel : Nat} (hn : n ∈ a.nodes) (h : a.descend offset fuel n = .ok m) :
    m ∈ a.nodes := by
  induction fuel generalizing n with
  | zero => cases h
  | succ fuel ih =>
      obtain ⟨ms, hms, h⟩ := bind_eq_ok.mp h
      split at h
      · obtain rfl := Except.ok.inj h
        exact hn
      · rename_i child hchild
        exact ih (mem_of_childrenOf hms (List.mem_of_find?_eq_some hchild)) h

theorem mem_of_resolve (h : a.resolve offset = .ok n) : n ∈ a.nodes := by
  obtain ⟨root, hroot, h⟩ := bind_eq_ok.mp h
  exact mem_of_descend (mem_of_fetch hroot) h

theorem mem_of_climb {p : Node → Bool} {fuel : Nat} (hn : n ∈ a.nodes)
    (h : a.climb p fuel n = .ok (some m)) : m ∈ a.nodes := by
  induction fuel generalizing n with
  | zero => cases h
  | succ fuel ih =>
      rw [climb] at h
      split at h
      · cases h
      · split at h
        · obtain rfl := Option.some.inj (Except.ok.inj h)
          exact hn
        · obtain ⟨parent, hparent, h⟩ := bind_eq_ok.mp h
          exact ih (mem_of_fetch hparent) h

theorem holds_of_climb {p : Node → Bool} {fuel : Nat} (h : a.climb p fuel n = .ok (some m)) :
    p m = true := by
  induction fuel generalizing n with
  | zero => cases h
  | succ fuel ih =>
      rw [climb] at h
      split at h
      · cases h
      · split at h
        · rename_i hp
          obtain rfl := Option.some.inj (Except.ok.inj h)
          exact hp
        · obtain ⟨parent, -, h⟩ := bind_eq_ok.mp h
          exact ih h

/-- The nearest node with a property around an offset, the root excepted. -/
def around (a : Arena) (p : Node → Bool) (offset : Int) : Except Fault (Option Node) := do
  a.findEnclosing p (← a.resolve offset)

theorem mem_of_around {p : Node → Bool} (h : a.around p offset = .ok (some n)) : n ∈ a.nodes := by
  obtain ⟨r, hr, h⟩ := bind_eq_ok.mp h
  exact mem_of_climb (mem_of_resolve hr) h

theorem holds_of_around {p : Node → Bool} (h : a.around p offset = .ok (some n)) : p n = true := by
  obtain ⟨r, -, h⟩ := bind_eq_ok.mp h
  exact holds_of_climb h

theorem flattenableAt_eq (a : Arena) (offset : Int) :
    a.flattenableAt offset = (do
      match ← a.around isIf offset with
      | none => pure (.error (.noIf offset))
      | some n =>
          if ← a.canFlatten n then pure (.ok n) else pure (.error (.notFlattenable n.start))) := by
  rw [flattenableAt, around]
  cases a.resolve offset <;> rfl

theorem conditionalAt_eq (a : Arena) (offset : Int) :
    a.conditionalAt offset = (do
      match ← a.around isConditional offset with
      | none => pure (.error (.noConditional offset))
      | some n => pure (.ok n)) := by
  rw [conditionalAt, around]
  cases a.resolve offset <;> rfl

theorem flattenableAt_eq_ok_ok :
    a.flattenableAt offset = .ok (.ok n) ↔
      a.around isIf offset = .ok (some n) ∧ a.canFlatten n = .ok true := by
  rw [flattenableAt_eq, bind_eq_ok]
  constructor
  · rintro ⟨found, hfound, h⟩
    cases found with
    | none => cases h
    | some m =>
        obtain ⟨can, hcan, h⟩ := bind_eq_ok.mp h
        cases can with
        | false => cases h
        | true =>
            obtain rfl := Except.ok.inj (Except.ok.inj h)
            exact ⟨hfound, hcan⟩
  · rintro ⟨hfound, hcan⟩
    exact ⟨_, hfound, bind_eq_ok.mpr ⟨_, hcan, rfl⟩⟩

theorem conditionalAt_eq_ok_ok :
    a.conditionalAt offset = .ok (.ok n) ↔ a.around isConditional offset = .ok (some n) := by
  rw [conditionalAt_eq, bind_eq_ok]
  constructor
  · rintro ⟨found, hfound, h⟩
    cases found with
    | none => cases h
    | some m =>
        obtain rfl := Except.ok.inj (Except.ok.inj h)
        exact hfound
  · intro hfound
    exact ⟨_, hfound, rfl⟩

theorem flattenableAt_of_none (h : a.around isIf offset = .ok none) :
    a.flattenableAt offset = .ok (.error (.noIf offset)) := by
  rw [flattenableAt_eq]
  exact bind_eq_ok.mpr ⟨none, h, rfl⟩

theorem flattenableAt_of_not (h : a.around isIf offset = .ok (some n))
    (hcan : a.canFlatten n = .ok false) :
    a.flattenableAt offset = .ok (.error (.notFlattenable n.start)) := by
  rw [flattenableAt_eq]
  exact bind_eq_ok.mpr ⟨some n, h, bind_eq_ok.mpr ⟨false, hcan, rfl⟩⟩

theorem conditionalAt_of_none (h : a.around isConditional offset = .ok none) :
    a.conditionalAt offset = .ok (.error (.noConditional offset)) := by
  rw [conditionalAt_eq]
  exact bind_eq_ok.mpr ⟨none, h, rfl⟩

theorem mem_of_targetOf (h : a.targetOf offset kind = .ok (.ok n)) : n ∈ a.nodes := by
  cases kind with
  | simplify | invertAndSimplify => exact mem_of_around (flattenableAt_eq_ok_ok.mp h).1
  | convertTernary => exact mem_of_around (conditionalAt_eq_ok_ok.mp h)

/-! ## Edits -/

theorem target_of_replace {r : Replacement} (h : a.replace n kind = .ok r) : r.target = n := by
  cases kind with
  | simplify | invertAndSimplify =>
      obtain ⟨bs, -, h⟩ := bind_eq_ok.mp h
      obtain ⟨ss, -, h⟩ := bind_eq_ok.mp h
      obtain ⟨ts, -, h⟩ := bind_eq_ok.mp h
      obtain ⟨c, -, h⟩ := bind_eq_ok.mp h
      exact (Except.ok.inj h) ▸ rfl
  | convertTernary =>
      rw [replace, expandConditional] at h
      split at h
      · obtain ⟨s, -, h⟩ := bind_eq_ok.mp h
        exact (Except.ok.inj h) ▸ rfl
      · cases h

/-- A node has a range exactly when its offsets are not negative. -/
theorem rangeOf_eq_ok {r : Range} :
    a.rangeOf n = .ok r ↔ 0 ≤ n.start ∧ 0 ≤ n.stop ∧
      r = ⟨a.buffer.positionOf n.start, a.buffer.positionOf n.stop, n.start.toNat,
        n.stop.toNat⟩ := by
  unfold rangeOf
  by_cases hstart : n.start < 0
  · simp [hstart]
  · by_cases hstop : n.stop < 0
    · simp [hstop]
    · simp [hstart, hstop, Int.not_lt.mp hstart, Int.not_lt.mp hstop, eq_comm]

/-- The edit that replaces the range of a node by statements. -/
structure Replaces (a : Arena) (width : Int) (kind : EditKind) (n : Node) (ss : List Stmt)
    (e : Edit) : Prop where
  kind_eq : e.kind = kind
  title_eq : e.title = kind.title
  range_eq : a.rangeOf n = .ok e.range
  newText_eq : e.newText = Stmt.printAll a.buffer width (a.buffer.lineIndent n.start) ss

theorem editOf_eq_ok {r : Replacement} {e : Edit} :
    a.editOf width kind r = .ok e ↔ a.Replaces width kind r.target r.statements e := by
  constructor
  · intro h
    obtain ⟨range, hrange, h⟩ := bind_eq_ok.mp h
    obtain rfl := Except.ok.inj h
    exact ⟨rfl, rfl, hrange, rfl⟩
  · intro h
    refine bind_eq_ok.mpr ⟨e.range, h.range_eq, ?_⟩
    dsimp only
    rw [← h.newText_eq, ← h.title_eq, ← h.kind_eq]
    rfl

/-- A node with offsets that are not negative can be replaced by an edit. -/
theorem exists_editOf {r : Replacement} (hstart : 0 ≤ r.target.start) (hstop : 0 ≤ r.target.stop)
    (width : Int) (kind : EditKind) : ∃ e, a.editOf width kind r = .ok e :=
  ⟨_, bind_eq_ok.mpr ⟨_, rangeOf_eq_ok.mpr ⟨hstart, hstop, rfl⟩, rfl⟩⟩

theorem offer_eq_ok {es : List Edit} :
    a.offer offset width kind = .ok es ↔
      (∃ refusal, a.targetOf offset kind = .ok (.error refusal) ∧ es = []) ∨
        ∃ n r e, a.targetOf offset kind = .ok (.ok n) ∧ a.replace n kind = .ok r ∧
          a.editOf width kind r = .ok e ∧ es = [e] := by
  constructor
  · intro h
    obtain ⟨reply, hreply, h⟩ := bind_eq_ok.mp h
    obtain ⟨found, hfound, hreply⟩ := bind_eq_ok.mp hreply
    cases found with
    | error refusal =>
        obtain rfl := Except.ok.inj hreply
        obtain rfl := Except.ok.inj h
        exact Or.inl ⟨refusal, hfound, rfl⟩
    | ok n =>
        obtain ⟨r, hr, hreply⟩ := bind_eq_ok.mp hreply
        obtain ⟨e, he, rfl⟩ := map_eq_ok.mp hreply
        obtain rfl := Except.ok.inj h
        exact Or.inr ⟨n, r, e, hfound, hr, he, rfl⟩
  · rintro (⟨refusal, hfound, rfl⟩ | ⟨n, r, e, hfound, hr, he, rfl⟩)
    · exact bind_eq_ok.mpr ⟨_, bind_eq_ok.mpr ⟨_, hfound, rfl⟩, rfl⟩
    · refine bind_eq_ok.mpr ⟨.ok e, bind_eq_ok.mpr ⟨_, hfound, ?_⟩, rfl⟩
      exact bind_eq_ok.mpr ⟨r, hr, map_eq_ok.mpr ⟨e, he, rfl⟩⟩

theorem offer_of_refusal {refusal : Refusal}
    (h : a.targetOf offset kind = .ok (.error refusal)) : a.offer offset width kind = .ok [] :=
  offer_eq_ok.mpr (Or.inl ⟨refusal, h, rfl⟩)

/-! ## All refactorings -/

theorem outcome_surveyOf (a : Arena) (offset width : Int) (kinds : List EditKind) :
    (a.surveyOf offset width kinds).outcome =
      List.flatten <$> kinds.mapM (a.offer offset width) := by
  induction kinds with
  | nil => rfl
  | cons kind kinds ih =>
      rw [surveyOf, List.mapM_cons, offer]
      rcases a.answer offset width kind with fault | refusal | edit
      · rfl
      · dsimp only
        rw [ih]
        cases kinds.mapM (a.offer offset width) <;> rfl
      · dsimp only
        rw [ih]
        cases kinds.mapM (a.offer offset width) <;> rfl

/-- All refactorings are asked one after another. -/
theorem propose_eq (a : Arena) (offset width : Int) :
    a.propose offset width = (do
      let xs ← a.offer offset width .simplify
      let ys ← a.offer offset width .invertAndSimplify
      let zs ← a.offer offset width .convertTernary
      pure (xs ++ ys ++ zs)) := by
  rw [propose, survey, outcome_surveyOf, EditKind.all]
  simp only [List.mapM_cons, List.mapM_nil]
  cases a.offer offset width .simplify with
  | error => rfl
  | ok xs =>
      cases a.offer offset width .invertAndSimplify with
      | error => rfl
      | ok ys =>
          cases a.offer offset width .convertTernary with
          | error => rfl
          | ok zs =>
              refine congrArg Except.ok ?_
              simp

/-- All refactorings offer what each of them does, in order. -/
theorem propose_eq_ok {es : List Edit} :
    a.propose offset width = .ok es ↔
      ∃ xs ys zs, a.offer offset width .simplify = .ok xs ∧
        a.offer offset width .invertAndSimplify = .ok ys ∧
        a.offer offset width .convertTernary = .ok zs ∧ es = xs ++ ys ++ zs := by
  rw [propose_eq]
  constructor
  · intro h
    obtain ⟨xs, hx, h⟩ := bind_eq_ok.mp h
    obtain ⟨ys, hy, h⟩ := bind_eq_ok.mp h
    obtain ⟨zs, hz, h⟩ := bind_eq_ok.mp h
    exact ⟨xs, ys, zs, hx, hy, hz, (Except.ok.inj h).symm⟩
  · rintro ⟨xs, ys, zs, hx, hy, hz, rfl⟩
    exact bind_eq_ok.mpr ⟨xs, hx, bind_eq_ok.mpr ⟨ys, hy, bind_eq_ok.mpr ⟨zs, hz, rfl⟩⟩⟩

/-- Every edit on offer replaces a node of the arena. -/
theorem of_mem_propose {es : List Edit} (h : a.propose offset width = .ok es) {e : Edit}
    (he : e ∈ es) : ∃ kind n r, a.targetOf offset kind = .ok (.ok n) ∧ a.replace n kind = .ok r ∧
      a.Replaces width kind n r.statements e := by
  obtain ⟨xs, ys, zs, hx, hy, hz, rfl⟩ := propose_eq_ok.mp h
  obtain ⟨kind, ws, hw, he⟩ : ∃ kind ws, a.offer offset width kind = .ok ws ∧ e ∈ ws := by
    rcases List.mem_append.mp he with he | he
    · rcases List.mem_append.mp he with he | he
      · exact ⟨_, _, hx, he⟩
      · exact ⟨_, _, hy, he⟩
    · exact ⟨_, _, hz, he⟩
  rcases offer_eq_ok.mp hw with ⟨refusal, -, rfl⟩ | ⟨n, r, e', hn, hr, he', rfl⟩
  · exact absurd he List.not_mem_nil
  · obtain rfl := List.mem_singleton.mp he
    exact ⟨kind, n, r, hn, hr, target_of_replace hr ▸ editOf_eq_ok.mp he'⟩

end GuardClause.Arena
