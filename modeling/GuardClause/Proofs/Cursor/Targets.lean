import GuardClause.Language.Bundled
import GuardClause.Proofs.Cursor.Innermost
import GuardClause.Proofs.Meaning.Expand
import GuardClause.Proofs.Meaning.Flatten

/-!
# Where refactorings apply

A refactoring looks for one node around the cursor. Expanding works on the innermost conditional
expression, wherever it stands. Flattening works on the innermost if-statement, provided that both
its branches are blocks and that it stands among other statements (`Arena.Flattenable`); it never
looks at an if-statement further out. `propose_finds_targets` says that this is all there is to it:
one edit in the range of that node, and none where there is no such node.
-/

namespace GuardClause

namespace Kind

theorem isStatementList_iff {k : Kind} :
    k.isStatementList = true ↔ k = program ∨ k = block ∨ k = switchCase := by
  cases k <;> simp [isStatementList]

end Kind

namespace Arena

/-- An if-statement with a block in both branches that stands in a program, in a block or in a
case. -/
structure Flattenable (a : Arena) (n : Node) : Prop where
  kind_eq : n.kind = .ifStatement
  whenTrue : ∃ b, a.inRole n .consequence = .ok (some b) ∧ b.kind = .block
  whenFalse : ∃ b, a.Otherwise n b ∧ b.kind = .block
  listed : ∃ p ∈ a.nodes, n.parent = some (p.index : Int) ∧
    (p.kind = .program ∨ p.kind = .block ∨ p.kind = .switchCase)

/-- A refactoring offers one edit, in the range of a node. -/
def OffersOne (a : Arena) (offset width : Int) (kind : EditKind) (n : Node) : Prop :=
  ∃ e, a.offer offset width kind = .ok [e] ∧ e.kind = kind ∧
    (e.range.startOffset : Int) = n.start ∧ (e.range.stopOffset : Int) = n.stop

variable {a : Arena} {n m p q : Node} {offset width : Int} {kind : EditKind}

/-! ## If-statements that can be flattened -/

theorem isIfElse_eq_ok_true :
    a.isIfElse n = .ok true ↔ n.kind = .ifStatement ∧
      (∃ t, a.inRole n .consequence = .ok (some t) ∧ t.kind = .block) ∧
      ∃ e, a.Otherwise n e ∧ e.kind = .block := by
  constructor
  · intro h
    refine ⟨?_, blocks_of_isIfElse h⟩
    by_contra hkind
    rw [isIfElse, if_neg hkind] at h
    cases h
  · rintro ⟨hkind, ⟨t, ht, htk⟩, e, he, hek⟩
    rw [isIfElse, if_pos hkind]
    refine bind_eq_ok.mpr ⟨some t, ht, ?_⟩
    refine bind_eq_ok.mpr ⟨some e, elseBranch_eq_ok_some.mpr he, ?_⟩
    simp [isBlock, htk, hek, pure, Except.pure]

theorem canFlatten_of_root {r : Bool} (hr : a.isIfElse n = .ok r) (h : a.parentOf n = .ok none) :
    a.canFlatten n = .ok false := by
  refine bind_eq_ok.mpr ⟨r, hr, ?_⟩
  have helse : a.isElseIf n = .ok false := bind_eq_ok.mpr ⟨none, h, rfl⟩
  have hlist : a.inStatementList n = .ok false := bind_eq_ok.mpr ⟨none, h, rfl⟩
  cases r with
  | false => rfl
  | true => exact bind_eq_ok.mpr ⟨false, helse, hlist⟩

/-- A branch of an if-statement is in no list of statements, so that only the list counts. -/
theorem canFlatten_of_parent {r : Bool} (hr : a.isIfElse n = .ok r)
    (h : a.parentOf n = .ok (some p)) :
    a.canFlatten n = .ok (r && p.kind.isStatementList) := by
  refine bind_eq_ok.mpr ⟨r, hr, ?_⟩
  have hlist : a.inStatementList n = .ok p.kind.isStatementList :=
    bind_eq_ok.mpr ⟨some p, h, rfl⟩
  have helse : ∃ r, a.isElseIf n = .ok r ∧ (r = true → p.kind.isStatementList = false) := by
    refine ⟨_, bind_eq_ok.mpr ⟨some p, h, rfl⟩, ?_⟩
    cases p.kind <;> simp [Kind.isStatementList]
  cases r with
  | false => rfl
  | true =>
      obtain ⟨r, hr, hbranch⟩ := helse
      refine bind_eq_ok.mpr ⟨r, hr, ?_⟩
      cases r with
      | false => exact hlist
      | true =>
          rw [hbranch rfl]
          rfl

namespace WellLinked

theorem exists_elseBranch (hw : a.WellLinked) (hn : n ∈ a.nodes) :
    ∃ e, a.elseBranch n = .ok e := by
  rcases hw.inRole_cases hn .alternative with hnone | ⟨e, he, hsome, -⟩
  · exact ⟨none, bind_eq_ok.mpr ⟨none, hnone, rfl⟩⟩
  · by_cases hkind : e.kind = .elseClause
    · rcases hw.inRole_cases he .operand with hop | ⟨b, -, hop, -⟩
      · exact ⟨none, bind_eq_ok.mpr ⟨some e, hsome, by rw [← hop]; exact if_pos hkind⟩⟩
      · exact ⟨some b, bind_eq_ok.mpr ⟨some e, hsome, by rw [← hop]; exact if_pos hkind⟩⟩
    · exact ⟨some e, bind_eq_ok.mpr ⟨some e, hsome, if_neg hkind⟩⟩

theorem exists_isIfElse (hw : a.WellLinked) (hn : n ∈ a.nodes) : ∃ r, a.isIfElse n = .ok r := by
  by_cases hkind : n.kind = .ifStatement
  · obtain ⟨e, he⟩ := hw.exists_elseBranch hn
    obtain ⟨t, ht⟩ := hw.exists_inRole hn .consequence
    rw [isIfElse, if_pos hkind]
    exact ⟨_, bind_eq_ok.mpr ⟨t, ht, bind_eq_ok.mpr ⟨e, he, rfl⟩⟩⟩
  · exact ⟨false, by rw [isIfElse, if_neg hkind]; rfl⟩

theorem parent_unique (hw : a.WellLinked) (hp : p ∈ a.nodes) (hq : q ∈ a.nodes)
    (h : n.parent = some (p.index : Int)) (h' : n.parent = some (q.index : Int)) : p = q := by
  rw [h] at h'
  exact hw.eq_of_index_eq hp hq (Int.ofNat.inj (Option.some.inj h'))

/-- Whether an if-statement can be flattened is always decided, and decided by its shape. -/
theorem canFlatten_cases (hw : a.WellLinked) (hn : n ∈ a.nodes) :
    a.canFlatten n = .ok true ∧ a.Flattenable n ∨
      a.canFlatten n = .ok false ∧ ¬ a.Flattenable n := by
  obtain ⟨r, hr⟩ := hw.exists_isIfElse hn
  rcases hw.parent_cases hn with ⟨hroot, -⟩ | ⟨q, hq, hparent, hfetch, -⟩
  · refine Or.inr ⟨canFlatten_of_root hr (by rw [parentOf, hroot]), ?_⟩
    intro h
    obtain ⟨p, -, hp, -⟩ := h.listed
    cases hroot.symm.trans hp
  · have hsome : a.parentOf n = .ok (some q) := by
      rw [parentOf, hparent]
      exact map_eq_ok.mpr ⟨q, hfetch, rfl⟩
    have hcan := canFlatten_of_parent hr hsome
    cases hboth : r && q.kind.isStatementList with
    | true =>
        rw [hboth] at hcan
        obtain ⟨rfl, hlist⟩ := (Bool.and_eq_true _ _).mp hboth
        obtain ⟨hkind, htrue, hfalse⟩ := isIfElse_eq_ok_true.mp hr
        exact Or.inl ⟨hcan, hkind, htrue, hfalse, q, hq, hparent, Kind.isStatementList_iff.mp hlist⟩
    | false =>
        rw [hboth] at hcan
        refine Or.inr ⟨hcan, ?_⟩
        intro h
        have hif := isIfElse_eq_ok_true.mpr ⟨h.kind_eq, h.whenTrue, h.whenFalse⟩
        obtain rfl := Except.ok.inj (hif.symm.trans hr)
        obtain ⟨p, hp, hpparent, hpk⟩ := h.listed
        obtain rfl := hw.parent_unique hp hq hpparent hparent
        rw [Kind.isStatementList_iff.mpr hpk] at hboth
        cases hboth

theorem canFlatten_iff (hw : a.WellLinked) (hn : n ∈ a.nodes) :
    a.canFlatten n = .ok true ↔ a.Flattenable n := by
  rcases hw.canFlatten_cases hn with ⟨hcan, hflat⟩ | ⟨hcan, hflat⟩
  · exact ⟨fun _ => hflat, fun _ => hcan⟩
  · exact ⟨fun h => absurd (hcan.symm.trans h) (by simp), fun h => absurd h hflat⟩

end WellLinked

/-! ## One edit for one node -/

theorem innermost_kind {kind : Kind} (h : a.Innermost (fun m => m.kind = kind) offset n) :
    n.kind = kind := by
  simpa using h.holds

/-- A node that covers a place begins in the text when the root does. -/
theorem Nests.start_nonneg (hs : a.Nests) (hw : a.WellLinked)
    (hfront : ∀ r ∈ a.nodes, r.parent = none → 0 ≤ r.start) (hn : n ∈ a.nodes)
    (h : n.covers offset = true) : 0 ≤ n.start ∧ 0 ≤ n.stop := by
  obtain ⟨r, hr, -, hroot, -⟩ := hw.exists_root
  have hcover := covers_iff.mp h
  have hself : n.covers n.start = true := covers_iff.mpr ⟨by omega, by omega⟩
  have habove := hs.covers_of_dominates hw hr hn (hw.dominates_root hr hroot hn) hself
  have hstart := covers_iff.mp habove
  have hzero := hfront r hr hroot
  omega

theorem offersOne {r : Replacement} (hfound : a.targetOf offset kind = .ok (.ok n))
    (hr : a.replace n kind = .ok r) (hspan : 0 ≤ n.start ∧ 0 ≤ n.stop) :
    a.OffersOne offset width kind n := by
  have htarget := target_of_replace hr
  obtain ⟨e, he⟩ := exists_editOf (r := r) (a := a) (by rw [htarget]; exact hspan.1)
    (by rw [htarget]; exact hspan.2) width kind
  have hrep := editOf_eq_ok.mp he
  rw [htarget] at hrep
  obtain ⟨-, -, hrange⟩ := rangeOf_eq_ok.mp hrep.range_eq
  refine ⟨e, offer_eq_ok.mpr (Or.inr ⟨n, r, e, hfound, hr, he, rfl⟩), hrep.kind_eq, ?_, ?_⟩
  · rw [hrange]
    exact Int.toNat_of_nonneg hspan.1
  · rw [hrange]
    exact Int.toNat_of_nonneg hspan.2

/-- An if/else that can be flattened and has its parts is replaced in both ways. -/
theorem WellLinked.exists_replace_flattenable (hw : a.WellLinked) (hn : n ∈ a.nodes)
    (h : a.Flattenable n) (hc : a.Complete n)
    (hkind : kind = .simplify ∨ kind = .invertAndSimplify) :
    ∃ r, a.replace n kind = .ok r := by
  obtain ⟨c, hc⟩ := hc.condition
  obtain ⟨d, hd⟩ := exists_showsIfElse hw hn ((hw.canFlatten_iff hn).mpr h) hc
  rcases hkind with rfl | rfl
  · exact ⟨_, flatten_eq hw hn hd .plain⟩
  · exact ⟨_, flatten_eq hw hn hd .inverted⟩

/-- A conditional expression is replaced when those that are reached from it have their parts. -/
theorem WellLinked.exists_replace_of_nested (hw : a.WellLinked) (hn : n ∈ a.nodes)
    (hkind : n.kind = .conditional) (hcomplete : ∀ q, a.Nested n q → a.Complete q) :
    ∃ r, a.replace n .convertTernary = .ok r := by
  have hbound : a.bound - n.index < a.bound + 1 := by omega
  obtain ⟨st, hst, -⟩ := hw.exists_expandFuel hn hcomplete hbound
  refine ⟨⟨n, [st]⟩, ?_⟩
  rw [replace, expandConditional, if_pos hkind]
  exact bind_eq_ok.mpr ⟨st, hst, rfl⟩

theorem WellLinked.exists_replace_conditional (hw : a.WellLinked) (hn : n ∈ a.nodes)
    (hkind : n.kind = .conditional)
    (hcomplete : ∀ m ∈ a.nodes, m.kind = .conditional → a.Complete m) :
    ∃ r, a.replace n .convertTernary = .ok r := by
  refine hw.exists_replace_of_nested hn hkind ?_
  intro q hq
  obtain ⟨hmem, hqk⟩ := hq.mem_and_kind hw hn
  exact hcomplete q hmem hqk

/-- What the refactorings offer at a place is told by the innermost nodes there. -/
structure FindsTargets (a : Arena) (offset width : Int) : Prop where
  conditional :
    (∃ n, a.Innermost isConditional offset n ∧ a.OffersOne offset width .convertTernary n) ∨
      ((∀ m ∈ a.nodes, m.parent ≠ none → m.kind = .conditional → m.covers offset = false) ∧
        a.offer offset width .convertTernary = .ok [])
  ifElse : ∀ kind, kind = .simplify ∨ kind = .invertAndSimplify →
    (∃ n, a.Innermost isIf offset n ∧ a.Flattenable n ∧ a.OffersOne offset width kind n) ∨
      ((∀ n, a.Innermost isIf offset n → ¬ a.Flattenable n) ∧
        a.offer offset width kind = .ok [])
  chained : ∀ n ∈ a.nodes, ∀ p ∈ a.nodes, n.kind = .ifStatement →
    n.parent = some (p.index : Int) → p.kind = .elseClause ∨ p.kind = .ifStatement →
    ∀ kind, a.targetOf offset kind ≠ .ok (.ok n)
  all : ∃ xs ys zs, a.offer offset width .simplify = .ok xs ∧
    a.offer offset width .invertAndSimplify = .ok ys ∧
    a.offer offset width .convertTernary = .ok zs ∧
    a.propose offset width = .ok (xs ++ ys ++ zs)

theorem Nests.conditional_cases (hs : a.Nests) (hw : a.WellLinked)
    (hfront : ∀ r ∈ a.nodes, r.parent = none → 0 ≤ r.start)
    (hcomplete : ∀ m ∈ a.nodes, m.kind = .conditional → a.Complete m) (offset width : Int) :
    (∃ n, a.Innermost isConditional offset n ∧ a.OffersOne offset width .convertTernary n) ∨
      ((∀ m ∈ a.nodes, m.parent ≠ none → m.kind = .conditional → m.covers offset = false) ∧
        a.offer offset width .convertTernary = .ok []) := by
  rcases hs.around_cases hw isConditional offset with ⟨n, hfound, hin⟩ | ⟨hfound, hnone⟩
  · obtain ⟨r, hr⟩ := hw.exists_replace_conditional hin.mem (innermost_kind hin) hcomplete
    have hspan := hs.start_nonneg hw hfront hin.mem hin.covers
    exact Or.inl ⟨n, hin, offersOne (conditionalAt_eq_ok_ok.mpr hfound) hr hspan⟩
  · refine Or.inr ⟨?_, ?_⟩
    · intro m hm hmroot hkind
      exact Bool.eq_false_of_not_eq_true
        (hnone m hm hmroot (by simpa [isConditional] using hkind))
    · exact offer_of_refusal (conditionalAt_of_none hfound)

theorem Nests.ifElse_cases (hs : a.Nests) (hw : a.WellLinked)
    (hfront : ∀ r ∈ a.nodes, r.parent = none → 0 ≤ r.start)
    (hcomplete : ∀ m ∈ a.nodes, a.Flattenable m → a.Complete m) (offset width : Int)
    (hkind : kind = .simplify ∨ kind = .invertAndSimplify) :
    (∃ n, a.Innermost isIf offset n ∧ a.Flattenable n ∧ a.OffersOne offset width kind n) ∨
      ((∀ n, a.Innermost isIf offset n → ¬ a.Flattenable n) ∧
        a.offer offset width kind = .ok []) := by
  have htarget : a.targetOf offset kind = a.flattenableAt offset := by
    rcases hkind with rfl | rfl <;> rfl
  rcases hs.around_cases hw isIf offset with ⟨n, hfound, hin⟩ | ⟨hfound, hnone⟩
  · rcases hw.canFlatten_cases hin.mem with ⟨hcan, hflat⟩ | ⟨hcan, hflat⟩
    · obtain ⟨r, hr⟩ :=
        hw.exists_replace_flattenable hin.mem hflat (hcomplete n hin.mem hflat) hkind
      have hspan := hs.start_nonneg hw hfront hin.mem hin.covers
      have hmatch := htarget.trans (flattenableAt_eq_ok_ok.mpr ⟨hfound, hcan⟩)
      exact Or.inl ⟨n, hin, hflat, offersOne hmatch hr hspan⟩
    · refine Or.inr ⟨?_, offer_of_refusal (htarget.trans (flattenableAt_of_not hfound hcan))⟩
      intro m hm
      exact hm.unique hw hin ▸ hflat
  · refine Or.inr ⟨?_, offer_of_refusal (htarget.trans (flattenableAt_of_none hfound))⟩
    intro m hm
    exact absurd hm.covers (hnone m hm.mem hm.not_root hm.holds)

/-- An if-statement that is a branch of another one is no target. -/
theorem WellLinked.targetOf_ne_chained (hw : a.WellLinked) (hn : n ∈ a.nodes) (hp : p ∈ a.nodes)
    (hkind : n.kind = .ifStatement) (hparent : n.parent = some (p.index : Int))
    (hchain : p.kind = .elseClause ∨ p.kind = .ifStatement) (offset : Int) (kind : EditKind) :
    a.targetOf offset kind ≠ .ok (.ok n) := by
  have hnot : ¬ a.Flattenable n := by
    intro h
    obtain ⟨q, hq, hqparent, hlist⟩ := h.listed
    obtain rfl := hw.parent_unique hp hq hparent hqparent
    rcases hchain with hk | hk <;> simp [hk] at hlist
  intro h
  cases kind with
  | simplify | invertAndSimplify =>
      exact hnot ((hw.canFlatten_iff hn).mp (flattenableAt_eq_ok_ok.mp h).2)
  | convertTernary =>
      have hholds := holds_of_around (conditionalAt_eq_ok_ok.mp h)
      simp [isConditional, hkind] at hholds

end Arena

/-! ## In a parsed text -/

/-- The tree that a parser finds does not begin before the text, because bytes are counted from its
front. -/
def Parsed.CountsFromFront (parsed : Parsed) : Prop :=
  ∀ root, parsed.root = some root → 0 ≤ root.label.startByte

theorem ByteMap.charOffset?_nonneg {t : Text} {b o : Int} (hb : 0 ≤ b)
    (h : (ByteMap.ofText t).charOffset? b = some o) : 0 ≤ o := by
  unfold ofText at h
  split at h
  · rwa [← Option.some.inj h]
  · obtain ⟨place, -, h⟩ := Option.bind_eq_some_iff.mp h
    obtain ⟨k, -, hk⟩ := Option.bind_eq_some_iff.mp h
    rw [← Option.some.inj hk]
    exact Int.natCast_nonneg k

theorem Grammar.offsetAt_nonneg {t : Text} {b o : Int} (hb : 0 ≤ b)
    (h : offsetAt (ByteMap.ofText t) b = .ok o) : 0 ≤ o := by
  unfold offsetAt at h
  split at h
  · rename_i p hp
    obtain rfl := Except.ok.inj h
    exact ByteMap.charOffset?_nonneg hb hp
  · cases h

theorem Arena.start_root_nonneg {g : Grammar} {text : Text} {parsed : Parsed} {a : Arena}
    (h : g.parse text parsed = .ok a) (hfront : parsed.CountsFromFront) {r : Node}
    (hr : r ∈ a.nodes) (hroot : r.parent = none) : 0 ≤ r.start := by
  have hw := wellLinked_of_parse h
  have hget := hw.getElem?_index hr
  obtain ⟨language, root, nodes, -, htree, hnodes, rfl⟩ := Grammar.parse_eq_ok.mp h
  rw [(hw.parent_eq_none_iff hget).mp hroot, List.getElem?_toArray] at hget
  obtain ⟨v, hv, hreads⟩ := Grammar.exists_visit hnodes hget
  obtain rfl := Option.some.inj ((Rose.walk_zero root.rose).symm.trans hv)
  have hoffset := hreads.start_eq
  rw [Concrete.placedAt, Concrete.ofRose_rose] at hoffset
  exact Grammar.offsetAt_nonneg (hfront root htree) hoffset

/-- In an arena whose stretches are nested, each refactoring offers one edit, in the range of the
innermost node that it can work on, and none where there is no such node. -/
theorem propose_finds_targets {g : Grammar} {text : Text} {parsed : Parsed} {a : Arena}
    (h : g.parse text parsed = .ok a) (hfront : parsed.CountsFromFront) (hnest : a.Nests)
    (hconditional : ∀ n ∈ a.nodes, n.kind = .conditional → a.Complete n)
    (hifElse : ∀ n ∈ a.nodes, a.Flattenable n → a.Complete n) (offset width : Int) :
    a.FindsTargets offset width := by
  have hw := wellLinked_of_parse h
  have hroot : ∀ r ∈ a.nodes, r.parent = none → 0 ≤ r.start :=
    fun r hr hnone => Arena.start_root_nonneg h hfront hr hnone
  constructor
  case conditional => exact hnest.conditional_cases hw hroot hconditional offset width
  case ifElse =>
      intro kind hkind
      exact hnest.ifElse_cases hw hroot hifElse offset width hkind
  case chained =>
      intro n hn p hp hkind hparent hchain kind
      exact hw.targetOf_ne_chained hn hp hkind hparent hchain offset kind
  case all =>
      have hflatten : ∀ kind, kind = .simplify ∨ kind = .invertAndSimplify →
          ∃ es, a.offer offset width kind = .ok es := by
        intro kind hkind
        rcases hnest.ifElse_cases hw hroot hifElse offset width hkind with
          ⟨n, -, -, e, he, -⟩ | ⟨-, hnone⟩
        · exact ⟨[e], he⟩
        · exact ⟨[], hnone⟩
      obtain ⟨xs, hxs⟩ := hflatten .simplify (Or.inl rfl)
      obtain ⟨ys, hys⟩ := hflatten .invertAndSimplify (Or.inr rfl)
      obtain ⟨zs, hzs⟩ : ∃ zs, a.offer offset width .convertTernary = .ok zs := by
        rcases hnest.conditional_cases hw hroot hconditional offset width with
          ⟨n, -, e, he, -⟩ | ⟨-, hnone⟩
        · exact ⟨[e], he⟩
        · exact ⟨[], hnone⟩
      exact ⟨xs, ys, zs, hxs, hys, hzs, Arena.propose_eq_ok.mpr ⟨xs, ys, zs, hxs, hys, hzs, rfl⟩⟩

/-- The tree of an if/else with a conditional expression in its first branch. -/
def ifAroundTernary : Concrete :=
  .node ⟨"program", 0, 21, none, true⟩ [
    .node ⟨"if_statement", 0, 21, none, true⟩ [
      .node ⟨"parenthesized_expression", 2, 5, some "condition", true⟩ [
        .node ⟨"identifier", 3, 4, none, true⟩ []],
      .node ⟨"statement_block", 5, 14, some "consequence", true⟩ [
        .node ⟨"expression_statement", 6, 13, none, true⟩ [
          .node ⟨"ternary_expression", 8, 13, none, true⟩ [
            .node ⟨"identifier", 8, 9, some "condition", true⟩ [],
            .node ⟨"identifier", 10, 11, some "consequence", true⟩ [],
            .node ⟨"identifier", 12, 13, some "alternative", true⟩ []]]],
      .node ⟨"else_clause", 14, 21, some "alternative", true⟩ [
        .node ⟨"statement_block", 18, 21, none, true⟩ [
          .node ⟨"expression_statement", 19, 20, none, true⟩ []]]]]

set_option maxRecDepth 10000 in
theorem parse_ifAroundTernary :
    ∃ a, Bundled.typescript.grammar.parse "if(a){b=c?d:e}else{f}".toList
        ⟨some ifAroundTernary, false⟩ = .ok a ∧ a.Nests ∧
      (∀ n ∈ a.nodes.toList, n.kind = .conditional → a.Complete n) ∧
      (∀ n ∈ a.nodes.toList, n.kind = .ifStatement → a.Complete n) := by
  refine ⟨_, rfl, Arena.nests_of_bounds ?_ ?_, by decide, by decide⟩
  · simp only [← Array.mem_toList_iff]
    decide
  · simp only [← Array.mem_toList_iff]
    decide

theorem propose_finds_targets_ifAroundTernary :
    ∃ a, Bundled.typescript.grammar.parse "if(a){b=c?d:e}else{f}".toList
        ⟨some ifAroundTernary, false⟩ = .ok a ∧
      Parsed.CountsFromFront ⟨some ifAroundTernary, false⟩ ∧ a.Nests ∧
      (∀ n ∈ a.nodes, n.kind = .conditional → a.Complete n) ∧
      (∀ n ∈ a.nodes, a.Flattenable n → a.Complete n) ∧ a.FindsTargets 10 4 := by
  obtain ⟨a, h, hnest, hconditional, hifElse⟩ := parse_ifAroundTernary
  have hfront : Parsed.CountsFromFront ⟨some ifAroundTernary, false⟩ := by
    intro root hroot
    obtain rfl := Option.some.inj hroot
    decide
  have hc : ∀ n ∈ a.nodes, n.kind = .conditional → a.Complete n :=
    fun n hn => hconditional n (Array.mem_toList_iff.mpr hn)
  have hi : ∀ n ∈ a.nodes, a.Flattenable n → a.Complete n :=
    fun n hn hflat => hifElse n (Array.mem_toList_iff.mpr hn) hflat.kind_eq
  exact ⟨a, h, hfront, hnest, hc, hi, propose_finds_targets h hfront hnest hc hi 10 4⟩

end GuardClause
