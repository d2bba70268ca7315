import GuardClause.Language.Bundled
import GuardClause.Proofs.Layout.Ledger

/-!
# An arena is its tree, flattened

The main statement about reading trees: when parsing succeeds, the arena spells out the concrete
syntax tree without what lies below unnamed nodes, its links are in order, and reading the tree in
two passes through a ledger of marks would have found the same nodes.
-/

namespace GuardClause

/-- Parsing flattens a tree without losing, doubling or moving a node. The tree that the arena
spells out has the shape and the node types of the concrete syntax tree pruned to what named
children reach, its nodes in pre-order are the nodes of the arena, and the links are those of
`Arena.WellLinked`. -/
theorem parse_flattens (t : Marked) (hmarks : t.marks.Nodup) (g : Grammar) (text : Text)
    (hasError : Bool) (a : Arena) (h : g.parse text ⟨some t.concrete, hasError⟩ = .ok a) :
    (∃ d, a.decode = .ok d ∧
      d.map Node.type = ((t.map Prod.snd).pruned Label.named).map Label.type ∧
      d.preorder = a.nodes.toList) ∧
    a.WellLinked ∧
    g.twoPass text t = .ok a.nodes.toList := by
  refine ⟨?_, wellLinked_of_parse h, ?_⟩
  · obtain ⟨language, root, nodes, -, hroot, hnodes, rfl⟩ := Grammar.parse_eq_ok.mp h
    obtain rfl := Option.some.inj hroot
    obtain ⟨d, hd, hm, hp⟩ := decode_of_nodesOf hnodes language
    rw [Rose.concrete, Concrete.rose_ofRose] at hm
    refine ⟨d, hd, hm.map_eq ?_, hp⟩
    rintro n l ⟨p, rfl, hr⟩
    exact hr.type_eq
  · obtain ⟨language, root, nodes, -, hroot, hnodes, rfl⟩ := Grammar.parse_eq_ok.mp h
    obtain rfl := Option.some.inj hroot
    rw [twoPass_eq hmarks, hnodes]
    rfl

/-- The tree of a broken if-statement: a comment stands between the parentheses of the condition,
an unnamed node that hides a named one fills the field of the first branch, and the marks are in no
order. -/
def brokenIf : Marked :=
  .node (7, ⟨"program", 0, 19, none, true⟩) [
    .node (3, ⟨"if_statement", 0, 19, none, true⟩) [
      .node (9, ⟨"if", 0, 2, none, false⟩) [],
      .node (4, ⟨"parenthesized_expression", 3, 11, some "condition", true⟩) [
        .node (5, ⟨"comment", 4, 8, none, true⟩) [],
        .node (15, ⟨"identifier", 9, 10, none, true⟩) []],
      .node (6, ⟨"MISSING", 12, 13, some "consequence", false⟩) [
        .node (16, ⟨"identifier", 12, 13, none, true⟩) []],
      .node (8, ⟨"statement_block", 14, 19, some "alternative", true⟩) []]]

set_option maxRecDepth 10000 in
theorem parse_flattens_brokenIf :
    brokenIf.marks.Nodup ∧
    ∃ a, Bundled.typescript.grammar.parse "if (/**/ a) b else;".toList
        ⟨some brokenIf.concrete, true⟩ = .ok a ∧
      (∃ d, a.decode = .ok d ∧
        d.map Node.type = ((brokenIf.map Prod.snd).pruned Label.named).map Label.type ∧
        d.preorder = a.nodes.toList) ∧
      a.WellLinked ∧
      Bundled.typescript.grammar.twoPass "if (/**/ a) b else;".toList brokenIf =
        .ok a.nodes.toList := by
  refine ⟨by decide, _, rfl, ?_⟩
  exact parse_flattens brokenIf (by decide) Bundled.typescript.grammar _ true _ rfl

end GuardClause
