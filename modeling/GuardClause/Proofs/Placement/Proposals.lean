import GuardClause.Language.Bundled
import GuardClause.Proofs.Placement.Rewrites

/-!
# Edits do not depend on what stands around them

What is on offer at a place of a text is on offer at the same place when whole lines are put before
and after the text, provided that the line ending stays the same. The edits have the same new text,
and carrying one out in the larger text does there what it does in the original
(`propose_moved`).
-/

namespace GuardClause

/-- A range that begins and ends in a text, and the same range between whole lines. -/
structure Range.Moved (before t : Text) (r r' : Range) : Prop where
  start_eq : r'.start = r.start.below (before.count '\n')
  stop_eq : r'.stop = r.stop.below (before.count '\n')
  startOffset_eq : r'.startOffset = r.startOffset + before.length
  stopOffset_eq : r'.stopOffset = r.stopOffset + before.length
  startOffset_le : r.startOffset ≤ t.length
  stopOffset_le : r.stopOffset ≤ t.length

/-- Edit `e'` does between whole lines what edit `e` does to a text alone. -/
structure Edit.Moved (before after t : Text) (e e' : Edit) : Prop where
  kind_eq : e'.kind = e.kind
  title_eq : e'.title = e.title
  newText_eq : e'.newText = e.newText
  range : e.range.Moved before t e'.range
  apply_eq : e'.apply (before ++ t ++ after) = before ++ e.apply t ++ after

theorem Edit.apply_append {e e' : Edit} {before t : Text} (hnew : e'.newText = e.newText)
    (hrange : e.range.Moved before t e'.range) (after : Text) :
    e'.apply (before ++ t ++ after) = before ++ e.apply t ++ after := by
  rw [apply, apply, hnew, hrange.startOffset_eq, hrange.stopOffset_eq,
    Nat.add_comm _ before.length, Nat.add_comm _ before.length, List.append_assoc before t after,
    List.take_length_add_append, List.drop_length_add_append,
    List.take_append_of_le_length hrange.startOffset_le,
    List.drop_append_of_le_length hrange.stopOffset_le]
  simp only [List.append_assoc]

namespace Arena.Twins

variable {before after : Text} {a a' : Arena} {n n' : Node} {r r' : Replacement}

theorem replace (h : a.Twins before after a') (hn : a.PairsBelow before.length n n')
    (kind : EditKind) :
    Alike (a.PairsReplacement before.length) (a.replace n kind) (a'.replace n' kind) := by
  cases kind with
  | simplify => exact h.simplify hn
  | invertAndSimplify => exact h.invertAndSimplify hn
  | convertTernary => exact h.expandConditional hn

/-! ## Targets -/

theorem isIf_eq (m m' : Node) (hm : Node.Moved before.length m m') : isIf m' = isIf m := by
  rw [isIf, isIf, hm.kind_eq]

theorem isConditional_eq (m m' : Node) (hm : Node.Moved before.length m m') :
    isConditional m' = isConditional m := by
  rw [isConditional, isConditional, hm.kind_eq]

theorem flattenableAt (h : a.Twins before after a') (offset : Int) :
    Alike (Alike (a.PairsBelow before.length)) (a.flattenableAt offset)
      (a'.flattenableAt (offset + before.length)) := by
  rw [flattenableAt_eq, flattenableAt_eq]
  refine (h.around isIf_eq offset).bind ?_
  intro o o' ho
  cases ho with
  | none => exact .pure (.error _ _)
  | some hn =>
      refine (h.canFlatten hn.toPairs).bind ?_
      rintro can _ rfl
      cases can with
      | true => exact .pure (.ok hn)
      | false => exact .pure (.error _ _)

theorem conditionalAt (h : a.Twins before after a') (offset : Int) :
    Alike (Alike (a.PairsBelow before.length)) (a.conditionalAt offset)
      (a'.conditionalAt (offset + before.length)) := by
  rw [conditionalAt_eq, conditionalAt_eq]
  refine (h.around isConditional_eq offset).bind ?_
  intro o o' ho
  cases ho with
  | none => exact .pure (.error _ _)
  | some hn => exact .pure (.ok hn)

theorem targetOf (h : a.Twins before after a') (offset : Int) (kind : EditKind) :
    Alike (Alike (a.PairsBelow before.length)) (a.targetOf offset kind)
      (a'.targetOf (offset + before.length) kind) := by
  cases kind with
  | simplify | invertAndSimplify => exact h.flattenableAt offset
  | convertTernary => exact h.conditionalAt offset

/-! ## Edits -/

theorem rangeOf (h : a.Twins before after a') (hn : a.PairsBelow before.length n n') :
    Alike (Range.Moved before a.buffer.text) (a.rangeOf n) (a'.rangeOf n') := by
  obtain ⟨hstart, hstop⟩ := h.inside n hn.mem
  have hrange : a.rangeOf n = .ok _ := rangeOf_eq_ok.mpr ⟨hstart.1, hstop.1, rfl⟩
  have hrange' : a'.rangeOf n' = .ok ⟨(a.buffer.positionOf n.start).below (before.count '\n'),
      (a.buffer.positionOf n.stop).below (before.count '\n'), n.start.toNat + before.length,
      n.stop.toNat + before.length⟩ := by
    rw [rangeOf_eq_ok, hn.start_eq, hn.stop_eq, h.buffer.positionOf_eq hstart,
      h.buffer.positionOf_eq hstop, Int.toNat_add_nat hstart.1, Int.toNat_add_nat hstop.1]
    exact ⟨by omega, by omega, rfl⟩
  rw [hrange, hrange']
  exact .ok ⟨rfl, rfl, rfl, rfl, Int.toNat_le.mpr hstart.2, Int.toNat_le.mpr hstop.2⟩

theorem editOf (h : a.Twins before after a') (hr : a.PairsReplacement before.length r r')
    (width : Int) (kind : EditKind) :
    Alike (Edit.Moved before after a.buffer.text) (a.editOf width kind r)
      (a'.editOf width kind r') := by
  have hn := hr.target
  have hindent := h.buffer.lineIndent_eq (h.inside r.target hn.mem).1
  refine (h.rangeOf hn).bind ?_
  intro range range' hrange
  have hnew :
      Stmt.printAll a'.buffer width (a'.buffer.lineIndent r'.target.start) r'.statements =
        Stmt.printAll a.buffer width (a.buffer.lineIndent r.target.start) r.statements := by
    rw [hn.start_eq, hindent, hr.statements_eq, Stmt.printAll, Stmt.printAll, h.buffer.newline_eq]
  exact .pure ⟨rfl, rfl, hnew, hrange, Edit.apply_append hnew hrange after⟩

theorem answer (h : a.Twins before after a') (offset width : Int) (kind : EditKind) :
    Alike (Alike (Edit.Moved before after a.buffer.text)) (a.answer offset width kind)
      (a'.answer (offset + before.length) width kind) := by
  refine (h.targetOf offset kind).bind ?_
  intro found found' hfound
  cases hfound with
  | error refusal refusal' => exact .pure (.error _ _)
  | ok hn =>
      refine (h.replace hn kind).bind ?_
      intro r r' hr
      exact (h.editOf hr width kind).map fun _ _ he => .ok he

theorem offer (h : a.Twins before after a') (offset width : Int) (kind : EditKind) :
    Alike (List.Forall₂ (Edit.Moved before after a.buffer.text)) (a.offer offset width kind)
      (a'.offer (offset + before.length) width kind) := by
  refine (h.answer offset width kind).bind ?_
  intro reply reply' hreply
  cases hreply with
  | error refusal refusal' => exact .pure .nil
  | ok he => exact .pure (.cons he .nil)

end Arena.Twins

/-! ## Proposals -/

/-- The larger text is parsed into the nodes of the text, moved; only the root may cover anything.
Then the refactorings succeed at a place of the larger text exactly when they succeed at the same
place of the text, and they offer the same edits, moved, in the same order. -/
theorem propose_moved {g : Grammar} {text : Text} {parsed : Parsed} {a a' : Arena}
    (h : g.parse text parsed = .ok a) {before after : Text} (hmoved : a.Moved before after a')
    (hin : ∀ n ∈ a.nodes, a.Inside n) (offset width : Int) :
    Alike (List.Forall₂ (Edit.Moved before after a.buffer.text)) (a.propose offset width)
      (a'.propose (offset + before.length) width) := by
  have htwins : a.Twins before after a' := ⟨hmoved, wellLinked_of_parse h, hin⟩
  rw [Arena.propose, Arena.propose, Arena.survey, Arena.survey, Arena.outcome_surveyOf,
    Arena.outcome_surveyOf]
  have hoffers : Alike (List.Forall₂ (List.Forall₂ (Edit.Moved before after a.buffer.text)))
      (EditKind.all.mapM (a.offer offset width))
      (EditKind.all.mapM (a'.offer (offset + before.length) width)) :=
    .mapM fun kind _ => htwins.offer offset width kind
  exact hoffers.map fun _ _ hall => List.rel_flatten hall

/-- An arena whose text is put between two others. The root takes up a given stretch. -/
def Arena.within (a : Arena) (before after : Text) (start stop : Int) : Arena where
  language := a.language
  buffer := ⟨before ++ a.buffer.text ++ after⟩
  nodes := a.nodes.map fun n =>
    match n.parent with
    | none => { n with start, stop }
    | some _ => { n with start := n.start + before.length, stop := n.stop + before.length }
  root := a.root

theorem Arena.moved_within (a : Arena) {before after : Text} (hbefore : before.Terminated)
    (hafter : after.Detached)
    (hcrlf : (before ++ a.buffer.text ++ after).hasCrlf = a.buffer.text.hasCrlf)
    (start stop : Int) : a.Moved before after (a.within before after start stop) := by
  refine ⟨⟨rfl, hbefore, hafter, hcrlf⟩, rfl, ?_⟩
  rw [within, Array.toList_map, List.forall₂_map_right_iff, List.forall₂_same]
  intro n _
  cases hparent : n.parent with
  | none => exact ⟨rfl, rfl, rfl, hparent.symm, rfl, rfl, fun h => absurd hparent h,
      fun h => absurd hparent h⟩
  | some link => exact ⟨rfl, rfl, rfl, hparent.symm, rfl, rfl, fun _ => rfl, fun _ => rfl⟩

theorem propose_moved_brokenTernary :
    ∃ a e, Bundled.typescript.grammar.parse "\r\na\n?b\n:c".toList
        ⟨some brokenTernary, false⟩ = .ok a ∧
      a.Moved "f(\r\n".toList "\n)".toList (a.within "f(\r\n".toList "\n)".toList 7 3) ∧
      (∀ n ∈ a.nodes, a.Inside n) ∧ a.propose 4 1 = .ok [e] ∧
      Alike (List.Forall₂ (Edit.Moved "f(\r\n".toList "\n)".toList a.buffer.text))
        (a.propose 4 1)
        ((a.within "f(\r\n".toList "\n)".toList 7 3).propose (4 + "f(\r\n".toList.length) 1) := by
  obtain ⟨a, e, h, hin, he⟩ := propose_brokenTernary
  have hinside : ∀ n ∈ a.nodes, a.Inside n := fun n hn => hin n (Array.mem_toList_iff.mpr hn)
  have htext : a.buffer.text = "\r\na\n?b\n:c".toList := by
    obtain ⟨language, root, nodes, -, -, -, rfl⟩ := Grammar.parse_eq_ok.mp h
    rfl
  have hbefore : Text.Terminated "f(\r\n".toList := by decide
  have hafter : Text.Detached "\n)".toList := by decide
  have hcrlf : Text.hasCrlf ("f(\r\n".toList ++ a.buffer.text ++ "\n)".toList) =
      a.buffer.text.hasCrlf := by
    rw [htext]
    decide
  have hmoved := a.moved_within hbefore hafter hcrlf 7 3
  exact ⟨a, e, h, hmoved, hinside, he, propose_moved h hmoved hinside 4 1⟩

end GuardClause
