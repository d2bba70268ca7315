import GuardClause.Conditional.Refactoring
import GuardClause.Proofs.Meaning.Operand

/-!
# What an if/else of the buffer means

An if/else is read off an arena without regard to what a refactoring makes of it: the fragment that
it tests, under so many negations, and the statements of its two blocks (`Arena.ShowsIfElse`). Its
meaning follows (`IfElse.run`). The parentheses that belong to the statement mean nothing, and so
does the clause around the second block.

Every if-statement of a parsed arena that can be flattened and has a condition shows exactly one
if/else (`exists_showsIfElse`, `ShowsIfElse.unique`).
-/

namespace GuardClause

variable {σ ν τ : Type}

/-- An if-statement with two branches. -/
structure IfElse where
  /-- The number of negations before the fragment that is tested. -/
  negations : Nat
  tested : Fragment
  /-- The statements that run when the condition holds. -/
  whenTrue : List Node
  /-- The statements that run when the condition fails. -/
  whenFalse : List Node

namespace Arena

/-- Node `c` is what an if-statement tests. -/
inductive Tests (a : Arena) (n : Node) : Node → Prop where
  | parenthesized {p c : Node} (h : a.inRole n .condition = .ok (some p))
      (hop : a.Operand .parenthesized p c) : Tests a n c
  | bare {c : Node} (h : a.inRole n .condition = .ok (some c))
      (hnone : c.kind = .parenthesized → a.inRole c .operand = .ok none) : Tests a n c

/-- Node `b` is what runs when the condition of an if-statement fails. -/
inductive Otherwise (a : Arena) (n : Node) : Node → Prop where
  | clause {e b : Node} (h : a.inRole n .alternative = .ok (some e))
      (hop : a.Operand .elseClause e b) : Otherwise a n b
  | bare {b : Node} (h : a.inRole n .alternative = .ok (some b))
      (hkind : b.kind ≠ .elseClause) : Otherwise a n b

/-- Node `b` is a block of certain statements. -/
def HasBody (a : Arena) (b : Node) (ms : List Node) : Prop :=
  b.kind = .block ∧ a.childrenOf b = .ok ms

/-- A node is a certain if/else. -/
structure ShowsIfElse (a : Arena) (n : Node) (d : IfElse) : Prop where
  tested : ∃ c, a.Tests n c ∧ a.Negated c d.negations d.tested
  whenTrue : ∃ b, a.inRole n .consequence = .ok (some b) ∧ a.HasBody b d.whenTrue
  whenFalse : ∃ b, a.Otherwise n b ∧ a.HasBody b d.whenFalse

/-- What statements of the buffer do one after another. -/
def runNodes (a : Arena) (I : Meaning σ ν τ) (ms : List Node) : σ → σ × Outcome ν τ :=
  I.execAll (ms.map a.fragmentOf)

end Arena

/-- What an if/else does: it tests its condition once and then runs the branch that the condition
selects. -/
def IfElse.run (d : IfElse) (a : Arena) (I : Meaning σ ν τ) (s : σ) : σ × Outcome ν τ :=
  choose I (I.under d.negations (I.eval d.tested s)) (a.runNodes I d.whenTrue)
    (a.runNodes I d.whenFalse)

namespace Arena

variable {a : Arena} {n b c c' : Node} {ms ms' : List Node} {d d' : IfElse}

/-! ## The parts are what the refactorings find -/

theorem Tests.unique (h : a.Tests n c) (h' : a.Tests n c') : c = c' := by
  rcases h with ⟨hp, hop⟩ | ⟨hp, hnone⟩
  · rcases h' with ⟨hp', hop'⟩ | ⟨hp', hnone'⟩
    · obtain rfl := inRole_unique hp hp'
      exact hop.unique hop'
    · obtain rfl := inRole_unique hp hp'
      exact absurd (hnone' hop.1) hop.ne_none
  · rcases h' with ⟨hp', hop'⟩ | ⟨hp', -⟩
    · obtain rfl := inRole_unique hp hp'
      exact absurd (hnone hop'.1) hop'.ne_none
    · exact inRole_unique hp hp'

theorem elseBranch_eq_ok_some : a.elseBranch n = .ok (some b) ↔ a.Otherwise n b := by
  constructor
  · intro h
    obtain ⟨e, he, h⟩ := bind_eq_ok.mp h
    cases e with
    | none => cases h
    | some e =>
        dsimp only at h
        by_cases hkind : e.kind = .elseClause
        · rw [if_pos hkind] at h
          exact .clause he ⟨hkind, h⟩
        · rw [if_neg hkind] at h
          obtain rfl := Option.some.inj (Except.ok.inj h)
          exact .bare he hkind
  · rintro (⟨he, hop⟩ | ⟨he, hkind⟩)
    · refine bind_eq_ok.mpr ⟨_, he, ?_⟩
      dsimp only
      rw [if_pos hop.1]
      exact hop.2
    · refine bind_eq_ok.mpr ⟨_, he, ?_⟩
      dsimp only
      rw [if_neg hkind]
      rfl

theorem Otherwise.unique {b' : Node} (h : a.Otherwise n b) (h' : a.Otherwise n b') : b = b' := by
  have heq := (elseBranch_eq_ok_some.mpr h).symm.trans (elseBranch_eq_ok_some.mpr h')
  exact Option.some.inj (Except.ok.inj heq)

theorem HasBody.unique (h : a.HasBody b ms) (h' : a.HasBody b ms') : ms = ms' :=
  Except.ok.inj (h.2.symm.trans h'.2)

/-- A node shows at most one if/else. -/
theorem ShowsIfElse.unique (h : a.ShowsIfElse n d) (h' : a.ShowsIfElse n d') : d = d' := by
  obtain ⟨c, hc, hneg⟩ := h.tested
  obtain ⟨c', hc', hneg'⟩ := h'.tested
  obtain rfl := hc.unique hc'
  obtain ⟨hk, hf⟩ := hneg.unique hneg'
  obtain ⟨b, hb, hbody⟩ := h.whenTrue
  obtain ⟨b', hb', hbody'⟩ := h'.whenTrue
  obtain rfl := inRole_unique hb hb'
  have ht := hbody.unique hbody'
  obtain ⟨e, he, hebody⟩ := h.whenFalse
  obtain ⟨e', he', hebody'⟩ := h'.whenFalse
  obtain rfl := he.unique he'
  have hf' := hebody.unique hebody'
  cases d
  cases d'
  simp_all

theorem conditionOf_eq (hw : a.WellLinked) (hn : n ∈ a.nodes) {k : Nat} {f : Fragment}
    (h : a.Tests n c) (hneg : a.Negated c k f) : a.conditionOf n = .ok (Expr.negations k f) := by
  rcases h with ⟨hp, hop⟩ | ⟨hp, hnone⟩
  · obtain ⟨hpm, -⟩ := hw.of_inRole hn hp
    obtain ⟨hcm, -⟩ := hw.of_inRole hpm hop.2
    refine bind_eq_ok.mpr ⟨_, hp, ?_⟩
    dsimp only
    rw [if_pos hop.1]
    exact bind_eq_ok.mpr ⟨_, hop.2, hw.expressionOf_eq hcm hneg⟩
  · obtain ⟨hcm, -⟩ := hw.of_inRole hn hp
    have hexpr := hw.expressionOf_eq hcm hneg
    refine bind_eq_ok.mpr ⟨_, hp, ?_⟩
    dsimp only
    by_cases hkind : c.kind = .parenthesized
    · rw [if_pos hkind]
      exact bind_eq_ok.mpr ⟨_, hnone hkind, hexpr⟩
    · rw [if_neg hkind]
      exact hexpr

/-! ## If-statements that can be flattened -/

theorem WellLinked.exists_tests (hw : a.WellLinked) (hn : n ∈ a.nodes)
    (hc : a.inRole n .condition = .ok (some c)) : ∃ m ∈ a.nodes, a.Tests n m := by
  obtain ⟨hcm, -⟩ := hw.of_inRole hn hc
  rcases hw.operand_cases hcm .parenthesized with ⟨m, hm, hop, -⟩ | hnone
  · exact ⟨m, hm, .parenthesized hc hop⟩
  · exact ⟨c, hcm, .bare hc hnone⟩

theorem WellLinked.of_otherwise (hw : a.WellLinked) (hn : n ∈ a.nodes) (h : a.Otherwise n b) :
    b ∈ a.nodes := by
  rcases h with ⟨he, hop⟩ | ⟨hb, -⟩
  · exact (hw.of_inRole (hw.of_inRole hn he).1 hop.2).1
  · exact (hw.of_inRole hn hb).1

theorem isIfElse_of_canFlatten (h : a.canFlatten n = .ok true) : a.isIfElse n = .ok true := by
  obtain ⟨r, hr, h⟩ := bind_eq_ok.mp h
  cases r with
  | true => exact hr
  | false => cases h

/-- An if/else has two blocks. -/
theorem blocks_of_isIfElse (h : a.isIfElse n = .ok true) :
    (∃ t, a.inRole n .consequence = .ok (some t) ∧ t.kind = .block) ∧
      ∃ e, a.Otherwise n e ∧ e.kind = .block := by
  unfold isIfElse at h
  split at h
  · obtain ⟨t, ht, h⟩ := bind_eq_ok.mp h
    obtain ⟨e, he, h⟩ := bind_eq_ok.mp h
    have hblocks : isBlock t = true ∧ isBlock e = true := by
      simpa using Except.ok.inj h
    cases t with
    | none => cases hblocks.1
    | some t =>
        cases e with
        | none => cases hblocks.2
        | some e =>
            refine ⟨⟨t, ht, ?_⟩, e, elseBranch_eq_ok_some.mp he, ?_⟩
            · simpa [isBlock] using hblocks.1
            · simpa [isBlock] using hblocks.2
  · cases h

/-- An if-statement that can be flattened and has a condition shows an if/else. -/
theorem exists_showsIfElse (hw : a.WellLinked) (hn : n ∈ a.nodes)
    (hcan : a.canFlatten n = .ok true) (hc : a.inRole n .condition = .ok (some c)) :
    ∃ d, a.ShowsIfElse n d := by
  obtain ⟨⟨t, ht, htk⟩, e, he, hek⟩ := blocks_of_isIfElse (isIfElse_of_canFlatten hcan)
  obtain ⟨m, hm, htests⟩ := hw.exists_tests hn hc
  obtain ⟨k, f, hneg⟩ := hw.exists_negated hm
  obtain ⟨ts, hts, -⟩ := hw.exists_childrenOf (hw.of_inRole hn ht).1
  obtain ⟨es, hes, -⟩ := hw.exists_childrenOf (hw.of_otherwise hn he)
  exact ⟨⟨k, f, ts, es⟩, ⟨m, htests, hneg⟩, ⟨t, ht, htk, hts⟩, e, he, hek, hes⟩

end Arena

end GuardClause
