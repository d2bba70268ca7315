import GuardClause.Proofs.Cursor.Nearest
import GuardClause.Proofs.Cursor.Targets
import GuardClause.Proofs.Layout.Offsets

/-!
# When the refactorings fail

Whether a refactoring applies is checked before it is carried out, but the check does not look at
everything that is needed then: an if-statement may pass it without a condition, and a conditional
expression may lack a part, itself or further down in its branches. In the arena of a parsed text
nothing else can go wrong (`WellLinked.propose_cases`), and both do go wrong whenever they can.
-/

namespace GuardClause

namespace Arena

/-- The nearest if-statement around node `r` can be flattened and has no condition. -/
def LacksCondition (a : Arena) (r n : Node) : Prop :=
  a.Nearest isIf r n ∧ a.canFlatten n = .ok true ∧ a.inRole n .condition = .ok none

/-- A conditional expression lacks a part, and it is the nearest one around node `r` or is reached
from that one through branches. -/
def LacksPart (a : Arena) (r q : Node) : Prop :=
  ∃ n, a.Nearest isConditional r n ∧ a.Nested n q ∧ ¬ a.Complete q

variable {a : Arena} {n p q r b : Node} {offset width : Int} {kind : EditKind}

/-! ## Expanding -/

/-- What is reached from a node is the conditional expression that the node encloses, or reached
from one of its branches. -/
theorem Nested.cases_of_encloses (h : a.Nested n p) (hq : a.Encloses n q) :
    p = q ∨ (∃ b, a.inRole q .consequence = .ok (some b) ∧ a.Nested b p) ∨
      ∃ b, a.inRole q .alternative = .ok (some b) ∧ a.Nested b p := by
  cases h with
  | here hp => exact Or.inl (hp.unique hq)
  | whenTrue hq' hb below =>
      obtain rfl := hq'.unique hq
      exact Or.inr (Or.inl ⟨_, hb, below⟩)
  | whenFalse hq' hb below =>
      obtain rfl := hq'.unique hq
      exact Or.inr (Or.inr ⟨_, hb, below⟩)

theorem Nested.exists_encloses (h : a.Nested n p) : ∃ q, a.Encloses n q := by
  cases h with
  | here hq | whenTrue hq | whenFalse hq => exact ⟨_, hq⟩

/-- A conditional expression that lacks a part is not expanded. -/
theorem WellLinked.expandFuel_of_not_complete (hw : a.WellLinked) (hn : n ∈ a.nodes)
    (hunwrap : a.unwrap n = .ok q) (hq : a.Encloses n q) (hlack : ¬ a.Complete q) (fuel : Nat) :
    a.expandFuel (fuel + 1) n = .error (.shape (.incomplete q.start)) := by
  have hqm := (hq.mem_and_le hw hn).1
  obtain ⟨c, hc⟩ := hw.exists_inRole hqm .condition
  obtain ⟨t, ht⟩ := hw.exists_inRole hqm .consequence
  obtain ⟨e, he⟩ := hw.exists_inRole hqm .alternative
  refine bind_eq_error.mpr (Or.inr ⟨q, hunwrap, ?_⟩)
  rw [if_pos hq.kind_eq]
  refine bind_eq_error.mpr (Or.inr ⟨c, hc, ?_⟩)
  refine bind_eq_error.mpr (Or.inr ⟨t, ht, ?_⟩)
  refine bind_eq_error.mpr (Or.inr ⟨e, he, ?_⟩)
  split
  · rename_i c t e
    exact absurd ⟨⟨c, hc⟩, ⟨t, ht⟩, ⟨e, he⟩⟩ hlack
  · rfl

/-- A complete conditional expression is expanded branch by branch. -/
theorem WellLinked.expandFuel_of_complete (hw : a.WellLinked) (hn : n ∈ a.nodes)
    (hunwrap : a.unwrap n = .ok q) (hq : a.Encloses n q) (hcomplete : a.Complete q) :
    ∃ x t e, a.inRole q .consequence = .ok (some t) ∧ a.inRole q .alternative = .ok (some e) ∧
      ∀ fuel, a.expandFuel (fuel + 1) n = (do
        let yes ← a.expandFuel fuel t
        let no ← a.expandFuel fuel e
        pure (.ifElse x [yes] [no])) := by
  obtain ⟨⟨c, hc⟩, ⟨t, ht⟩, ⟨e, he⟩⟩ := hcomplete
  obtain ⟨hcm, -⟩ := hw.of_inRole (hq.mem_and_le hw hn).1 hc
  obtain ⟨k, f, hneg⟩ := hw.exists_negated hcm
  refine ⟨.negations k f, t, e, ht, he, ?_⟩
  intro fuel
  rw [expandFuel, hunwrap]
  show (if q.kind = .conditional then _ else _) = _
  rw [if_pos hq.kind_eq, hc, ht, he]
  show (a.expressionOf c >>= _) = _
  rw [hw.expressionOf_eq hcm hneg]
  rfl

/-- A node is not expanded when a conditional expression that is reached from it lacks a part. -/
theorem WellLinked.exists_expandFuel_error (hw : a.WellLinked) (hn : n ∈ a.nodes)
    (hlack : ∃ p, a.Nested n p ∧ ¬ a.Complete p) {fuel : Nat} (hfuel : a.bound - n.index < fuel) :
    ∃ p, a.Nested n p ∧ ¬ a.Complete p ∧
      a.expandFuel fuel n = .error (.shape (.incomplete p.start)) := by
  induction fuel generalizing n with
  | zero => exact absurd hfuel (Nat.not_lt_zero _)
  | succ fuel ih =>
      obtain ⟨p, hnp, hp⟩ := hlack
      rcases hw.unwrap_cases hn with ⟨q, hunwrap, hq⟩ | ⟨-, -, -, hnone⟩
      · by_cases hcomplete : a.Complete q
        · obtain ⟨x, t, e, ht, he, hexpand⟩ :=
            hw.expandFuel_of_complete hn hunwrap hq hcomplete
          obtain ⟨hqm, hle⟩ := hq.mem_and_le hw hn
          obtain ⟨htm, htlt⟩ := hw.of_inRole hqm ht
          obtain ⟨hem, helt⟩ := hw.of_inRole hqm he
          -- Both branches are later nodes, so one step less is enough for them.
          have htbound := hw.index_lt_bound htm
          have hebound := hw.index_lt_bound hem
          by_cases hlack : ∃ p, a.Nested t p ∧ ¬ a.Complete p
          · obtain ⟨p', htp, hp', herror⟩ := ih htm hlack (by omega)
            refine ⟨p', .whenTrue hq ht htp, hp', (hexpand fuel).trans ?_⟩
            exact bind_eq_error.mpr (Or.inl herror)
          · -- The first branch is built, so the second one has to fail.
            have hall : ∀ p, a.Nested t p → a.Complete p := by
              intro p' hp'
              by_contra hno
              exact hlack ⟨p', hp', hno⟩
            have hebad : ∃ p, a.Nested e p ∧ ¬ a.Complete p := by
              rcases hnp.cases_of_encloses hq with rfl | ⟨b, hb, hbp⟩ | ⟨b, hb, hbp⟩
              · exact absurd hcomplete hp
              · obtain rfl := inRole_unique hb ht
                exact absurd (hall p hbp) hp
              · obtain rfl := inRole_unique hb he
                exact ⟨p, hbp, hp⟩
            have htfuel : a.bound - t.index < fuel := by omega
            obtain ⟨yes, hyes, -⟩ := hw.exists_expandFuel htm hall htfuel
            obtain ⟨p', hep, hp', herror⟩ := ih hem hebad (by omega)
            refine ⟨p', .whenFalse hq he hep, hp', (hexpand fuel).trans ?_⟩
            exact bind_eq_error.mpr (Or.inr ⟨yes, hyes, bind_eq_error.mpr (Or.inl herror)⟩)
        · exact ⟨q, .here hq, hcomplete,
            hw.expandFuel_of_not_complete hn hunwrap hq hcomplete fuel⟩
      · obtain ⟨q, hq⟩ := hnp.exists_encloses
        exact absurd hq (hnone q)

theorem WellLinked.exists_expandConditional_error (hw : a.WellLinked) (hn : n ∈ a.nodes)
    (hkind : n.kind = .conditional) (hlack : ∃ p, a.Nested n p ∧ ¬ a.Complete p) :
    ∃ p, a.Nested n p ∧ ¬ a.Complete p ∧
      a.expandConditional n = .error (.shape (.incomplete p.start)) := by
  have hfuel : a.bound - n.index < a.bound + 1 := by omega
  obtain ⟨p, hnp, hp, herror⟩ := hw.exists_expandFuel_error hn hlack hfuel
  refine ⟨p, hnp, hp, ?_⟩
  rw [expandConditional, if_pos hkind]
  exact bind_eq_error.mpr (Or.inl herror)

/-! ## Flattening -/

theorem conditionOf_of_none (h : a.inRole n .condition = .ok none) :
    a.conditionOf n = .error (.shape (.noCondition n.start)) :=
  bind_eq_error.mpr (Or.inr ⟨none, h, rfl⟩)

/-- An if-statement without a condition is not flattened; its branches are looked at first. -/
theorem WellLinked.flatten_of_none (hw : a.WellLinked) (hn : n ∈ a.nodes) (h : a.Flattenable n)
    (hnone : a.inRole n .condition = .ok none) (way : Flattening) :
    a.flatten way n = .error (.shape (.noCondition n.start)) := by
  obtain ⟨t, ht, htk⟩ := h.whenTrue
  obtain ⟨e, he, hek⟩ := h.whenFalse
  obtain ⟨ts, hts, -⟩ := hw.exists_childrenOf (hw.of_inRole hn ht).1
  obtain ⟨es, hes, -⟩ := hw.exists_childrenOf (hw.of_otherwise hn he)
  have hbranches := branches_eq ht he
  have hcond := conditionOf_of_none hnone
  cases way with
  | plain =>
      refine bind_eq_error.mpr (Or.inr ⟨_, hbranches, ?_⟩)
      refine bind_eq_error.mpr (Or.inr ⟨_, extract_true_eq ⟨htk, hts⟩, ?_⟩)
      refine bind_eq_error.mpr (Or.inr ⟨_, extract_false_eq ⟨hek, hes⟩, ?_⟩)
      exact bind_eq_error.mpr (Or.inl hcond)
  | inverted =>
      refine bind_eq_error.mpr (Or.inr ⟨_, hbranches, ?_⟩)
      refine bind_eq_error.mpr (Or.inr ⟨_, extract_false_eq ⟨htk, hts⟩, ?_⟩)
      refine bind_eq_error.mpr (Or.inr ⟨_, extract_true_eq ⟨hek, hes⟩, ?_⟩)
      exact bind_eq_error.mpr (Or.inl hcond)

theorem Flattenable.complete (h : a.Flattenable n) {c : Node}
    (hc : a.inRole n .condition = .ok (some c)) : a.Complete n := by
  obtain ⟨t, ht, -⟩ := h.whenTrue
  obtain ⟨e, he, -⟩ := h.whenFalse
  refine ⟨⟨c, hc⟩, ⟨t, ht⟩, ?_⟩
  rcases he with ⟨he, -⟩ | ⟨he, -⟩
  · exact ⟨_, he⟩
  · exact ⟨_, he⟩

/-! ## One refactoring -/

theorem offer_of_replace_error {f : Fault} (hfound : a.targetOf offset kind = .ok (.ok n))
    (h : a.replace n kind = .error f) : a.offer offset width kind = .error f := by
  refine bind_eq_error.mpr (Or.inl (bind_eq_error.mpr (Or.inr ⟨.ok n, hfound, ?_⟩)))
  exact bind_eq_error.mpr (Or.inl h)

/-- No node begins or ends before the text. -/
def SpansNonneg (a : Arena) : Prop := ∀ n ∈ a.nodes, 0 ≤ n.start ∧ 0 ≤ n.stop

/-- Flattening fails for want of a condition, and otherwise there is an answer. -/
theorem WellLinked.offer_flatten_cases (hw : a.WellLinked) (hspan : a.SpansNonneg)
    (hr : r ∈ a.nodes) (hres : a.resolve offset = .ok r) (width : Int)
    (hkind : kind = .simplify ∨ kind = .invertAndSimplify) :
    (∃ n, a.LacksCondition r n ∧
        a.offer offset width kind = .error (.shape (.noCondition n.start))) ∨
      (∀ n, ¬ a.LacksCondition r n) ∧ ∃ es, a.offer offset width kind = .ok es := by
  have htarget : a.targetOf offset kind = a.flattenableAt offset := by
    rcases hkind with rfl | rfl <;> rfl
  rcases hw.around_cases isIf hr hres with ⟨n, hfound, hnear⟩ | ⟨hfound, hnone⟩
  · rcases hw.canFlatten_cases hnear.mem with ⟨hcan, hflat⟩ | ⟨hcan, -⟩
    · have hmatch := htarget.trans (flattenableAt_eq_ok_ok.mpr ⟨hfound, hcan⟩)
      rcases hw.inRole_cases hnear.mem .condition with hcond | ⟨c, -, hcond, -⟩
      · refine Or.inl ⟨n, ⟨hnear, hcan, hcond⟩, offer_of_replace_error hmatch ?_⟩
        rcases hkind with rfl | rfl
        · exact hw.flatten_of_none hnear.mem hflat hcond .plain
        · exact hw.flatten_of_none hnear.mem hflat hcond .inverted
      · obtain ⟨s, hs⟩ :=
          hw.exists_replace_flattenable hnear.mem hflat (hflat.complete hcond) hkind
        obtain ⟨e, he, -⟩ : a.OffersOne offset width kind n :=
          offersOne hmatch hs (hspan n hnear.mem)
        refine Or.inr ⟨?_, [e], he⟩
        rintro m ⟨hm, -, hlack⟩
        obtain rfl := hm.unique hw hnear
        cases hlack.symm.trans hcond
    · refine Or.inr ⟨?_, [], offer_of_refusal (htarget.trans (flattenableAt_of_not hfound hcan))⟩
      rintro m ⟨hm, hcan', -⟩
      obtain rfl := hm.unique hw hnear
      cases hcan'.symm.trans hcan
  · refine Or.inr ⟨?_, [], offer_of_refusal (htarget.trans (flattenableAt_of_none hfound))⟩
    rintro m ⟨hm, -⟩
    exact hnone m hm

/-- Expanding fails for want of a part, and otherwise there is an answer. -/
theorem WellLinked.offer_expand_cases (hw : a.WellLinked) (hspan : a.SpansNonneg)
    (hr : r ∈ a.nodes) (hres : a.resolve offset = .ok r) (width : Int) :
    (∃ q, a.LacksPart r q ∧
        a.offer offset width .convertTernary = .error (.shape (.incomplete q.start))) ∨
      (∀ q, ¬ a.LacksPart r q) ∧ ∃ es, a.offer offset width .convertTernary = .ok es := by
  rcases hw.around_cases isConditional hr hres with ⟨n, hfound, hnear⟩ | ⟨hfound, hnone⟩
  · have hmatch : a.targetOf offset .convertTernary = .ok (.ok n) :=
      conditionalAt_eq_ok_ok.mpr hfound
    have hkind : n.kind = .conditional := by simpa [isConditional] using hnear.holds
    by_cases hlack : ∃ q, a.Nested n q ∧ ¬ a.Complete q
    · obtain ⟨q, hnq, hq, herror⟩ := hw.exists_expandConditional_error hnear.mem hkind hlack
      exact Or.inl ⟨q, ⟨n, hnear, hnq, hq⟩, offer_of_replace_error hmatch herror⟩
    · have hcomplete : ∀ q, a.Nested n q → a.Complete q := by
        intro q hq
        by_contra hno
        exact hlack ⟨q, hq, hno⟩
      obtain ⟨s, hs⟩ := hw.exists_replace_of_nested hnear.mem hkind hcomplete
      obtain ⟨e, he, -⟩ : a.OffersOne offset width .convertTernary n :=
        offersOne hmatch hs (hspan n hnear.mem)
      refine Or.inr ⟨?_, [e], he⟩
      rintro q ⟨m, hm, hmq, hq⟩
      obtain rfl := hm.unique hw hnear
      exact hq (hcomplete q hmq)
  · refine Or.inr ⟨?_, [], offer_of_refusal (conditionalAt_of_none hfound)⟩
    rintro q ⟨m, hm, -⟩
    exact hnone m hm

/-! ## All refactorings -/

/-- What all refactorings come to: the if-statement is looked at first, for its condition, then the
conditional expression, for its parts and those of the ones in its branches. -/
theorem WellLinked.propose_cases (hw : a.WellLinked) (hspan : a.SpansNonneg) (hr : r ∈ a.nodes)
    (hres : a.resolve offset = .ok r) (width : Int) :
    (∃ n, a.LacksCondition r n ∧
        a.propose offset width = .error (.shape (.noCondition n.start))) ∨
      (∀ n, ¬ a.LacksCondition r n) ∧
        ((∃ q, a.LacksPart r q ∧
            a.propose offset width = .error (.shape (.incomplete q.start))) ∨
          (∀ q, ¬ a.LacksPart r q) ∧ ∃ es, a.propose offset width = .ok es) := by
  rcases hw.offer_flatten_cases hspan hr hres width (Or.inl rfl) with
    ⟨n, hn, herror⟩ | ⟨hnone, xs, hxs⟩
  · refine Or.inl ⟨n, hn, ?_⟩
    rw [propose_eq]
    exact bind_eq_error.mpr (Or.inl herror)
  · obtain ⟨ys, hys⟩ : ∃ ys, a.offer offset width .invertAndSimplify = .ok ys := by
      rcases hw.offer_flatten_cases hspan hr hres width (Or.inr rfl) with
        ⟨n, hn, -⟩ | ⟨-, hys⟩
      · exact absurd hn (hnone n)
      · exact hys
    refine Or.inr ⟨hnone, ?_⟩
    rcases hw.offer_expand_cases hspan hr hres width with ⟨q, hq, herror⟩ | ⟨hparts, zs, hzs⟩
    · refine Or.inl ⟨q, hq, ?_⟩
      rw [propose_eq]
      refine bind_eq_error.mpr (Or.inr ⟨xs, hxs, bind_eq_error.mpr (Or.inr ⟨ys, hys, ?_⟩)⟩)
      exact bind_eq_error.mpr (Or.inl herror)
    · exact Or.inr ⟨hparts, _, propose_eq_ok.mpr ⟨xs, ys, zs, hxs, hys, hzs, rfl⟩⟩

end Arena

/-! ## In a parsed text -/

/-- No byte offset in the tree that a parser finds is negative. -/
def Parsed.BytesNonneg (parsed : Parsed) : Prop :=
  ∀ root, parsed.root = some root → ∀ l ∈ root.labels, 0 ≤ l.startByte ∧ 0 ≤ l.stopByte

theorem Arena.spansNonneg_of_parse {g : Grammar} {text : Text} {parsed : Parsed} {a : Arena}
    (h : g.parse text parsed = .ok a) (hbytes : parsed.BytesNonneg) : a.SpansNonneg := by
  intro n hn
  obtain ⟨language, root, nodes, -, htree, hnodes, rfl⟩ := Grammar.parse_eq_ok.mp h
  obtain ⟨p, hp, hread⟩ := exists_of_mapM_eq_ok hnodes (List.mem_toArray.mp hn)
  obtain ⟨hstart, hstop⟩ := hbytes root htree _ (label_mem_labels hp)
  have hreads := Grammar.nodeAt_eq_ok.mp hread
  exact ⟨Grammar.offsetAt_nonneg hstart hreads.start_eq,
    Grammar.offsetAt_nonneg hstop hreads.stop_eq⟩

/-- At any place of a parsed text the refactorings give a list of edits or complain about the shape
of a node, and they complain exactly when the nearest if-statement can be flattened and lacks its
condition, or the nearest conditional expression, or one that is reached from it through branches,
lacks a part. -/
theorem propose_fails_iff {g : Grammar} {text : Text} {parsed : Parsed} {a : Arena}
    (h : g.parse text parsed = .ok a) (hbytes : parsed.BytesNonneg) (offset width : Int) :
    ∃ r ∈ a.nodes, a.resolve offset = .ok r ∧
      ((∃ es, a.propose offset width = .ok es) ∨
        ∃ s, a.propose offset width = .error (.shape s)) ∧
      ((∃ f, a.propose offset width = .error f) ↔
        (∃ n, a.LacksCondition r n) ∨ ∃ q, a.LacksPart r q) := by
  have hw := wellLinked_of_parse h
  obtain ⟨r, hr, hres⟩ := hw.exists_resolve offset
  refine ⟨r, hr, hres, ?_⟩
  rcases hw.propose_cases (Arena.spansNonneg_of_parse h hbytes) hr hres width with
    ⟨n, hn, herror⟩ | ⟨hnone, ⟨q, hq, herror⟩ | ⟨hparts, es, hes⟩⟩
  · exact ⟨Or.inr ⟨_, herror⟩, fun _ => Or.inl ⟨n, hn⟩, fun _ => ⟨_, herror⟩⟩
  · exact ⟨Or.inr ⟨_, herror⟩, fun _ => Or.inr ⟨q, hq⟩, fun _ => ⟨_, herror⟩⟩
  · refine ⟨Or.inl ⟨es, hes⟩, ?_, ?_⟩
    · rintro ⟨f, hf⟩
      cases hes.symm.trans hf
    · rintro (⟨n, hn⟩ | ⟨q, hq⟩)
      · exact absurd hn (hnone n)
      · exact absurd hq (hparts q)

/-- The tree of a conditional expression with another one, in parentheses, in its first branch; that
one has no second branch. -/
def halfTernary : Concrete :=
  .node ⟨"program", 0, 9, none, true⟩ [
    .node ⟨"ternary_expression", 0, 9, none, true⟩ [
      .node ⟨"identifier", 0, 1, some "condition", true⟩ [],
      .node ⟨"parenthesized_expression", 2, 7, some "consequence", true⟩ [
        .node ⟨"ternary_expression", 3, 6, none, true⟩ [
          .node ⟨"identifier", 3, 4, some "condition", true⟩ [],
          .node ⟨"identifier", 5, 6, some "consequence", true⟩ []]],
      .node ⟨"identifier", 8, 9, some "alternative", true⟩ []]]

theorem propose_halfTernary :
    ∃ a, Bundled.typescript.grammar.parse "a?(b?c):d".toList ⟨some halfTernary, true⟩ = .ok a ∧
      a.propose 0 4 = .error (.shape (.incomplete 3)) :=
  ⟨_, rfl, rfl⟩

theorem propose_fails_iff_halfTernary :
    ∃ a, Bundled.typescript.grammar.parse "a?(b?c):d".toList ⟨some halfTernary, true⟩ = .ok a ∧
      Parsed.BytesNonneg ⟨some halfTernary, true⟩ ∧
      a.propose 0 4 = .error (.shape (.incomplete 3)) ∧
      ∃ r ∈ a.nodes, a.resolve 0 = .ok r ∧
        ((∃ es, a.propose 0 4 = .ok es) ∨ ∃ s, a.propose 0 4 = .error (.shape s)) ∧
        ((∃ f, a.propose 0 4 = .error f) ↔
          (∃ n, a.LacksCondition r n) ∨ ∃ q, a.LacksPart r q) := by
  obtain ⟨a, h, herror⟩ := propose_halfTernary
  have hbytes : Parsed.BytesNonneg ⟨some halfTernary, true⟩ := by
    intro root hroot
    obtain rfl := Option.some.inj hroot
    decide
  exact ⟨a, h, hbytes, herror, propose_fails_iff h hbytes 0 4⟩

end GuardClause
