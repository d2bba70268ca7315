import GuardClause.Proofs.Cursor.Ancestors
import GuardClause.Proofs.Edits.Failures
import GuardClause.Proofs.Layout.Roles

/-!
# The outline of an expansion

Expanding a conditional expression neither drops nor doubles anything. There is one if-statement for
each conditional expression that is reached through branches and one return more, and conditions and
returned values are those of the buffer, each once and in the order of its text
(`expandConditional_outlines`). What carries the argument is that the parts of a conditional
expression are different nodes, so that what is below one of them is not below another: siblings
take up stretches of the arena that follow one another.
-/

namespace GuardClause

/-- What a statement evaluates in one place: the condition of an if-statement, or the value that a
return gives back. -/
inductive Clause where
  | test (condition : Expr)
  | result (value : Option Expr)

def Clause.isTest : Clause → Bool
  | test _ => true
  | result _ => false

namespace Stmt

mutual

/-- The clauses of a statement, in the order in which they are written. -/
def clauses : Stmt → List Clause
  | fragment _ => []
  | ret value => [.result value]
  | block body => clausesAll body
  | ifThen condition body => .test condition :: clausesAll body
  | ifElse condition body otherwise =>
      .test condition :: (clausesAll body ++ clausesAll otherwise)

def clausesAll : List Stmt → List Clause
  | [] => []
  | s :: rest => clauses s ++ clausesAll rest

end

def ifCount (s : Stmt) : Nat := s.clauses.countP Clause.isTest

def returnCount (s : Stmt) : Nat := s.clauses.countP fun c => !c.isTest

/-- A statement returns a value whichever way it goes: it is such a return, or an if-statement with
two blocks of one such statement each. -/
inductive Decides : Stmt → Prop where
  | ret (e : Expr) : Decides (.ret (some e))
  | ifElse (c : Expr) {yes no : Stmt} (hyes : Decides yes) (hno : Decides no) :
      Decides (.ifElse c [yes] [no])

theorem clauses_ifElse (c : Expr) (yes no : Stmt) :
    (ifElse c [yes] [no]).clauses = .test c :: (yes.clauses ++ no.clauses) := by
  simp [clauses, clausesAll]

theorem ifCount_ifElse (c : Expr) (yes no : Stmt) :
    (ifElse c [yes] [no]).ifCount = yes.ifCount + no.ifCount + 1 := by
  rw [ifCount, clauses_ifElse, List.countP_cons_of_pos rfl, List.countP_append]
  rfl

theorem returnCount_ifElse (c : Expr) (yes no : Stmt) :
    (ifElse c [yes] [no]).returnCount = yes.returnCount + no.returnCount := by
  rw [returnCount, clauses_ifElse, List.countP_cons_of_neg Bool.false_ne_true, List.countP_append]
  rfl

/-- Every if-statement adds one to the ways out. -/
theorem Decides.returnCount_eq {s : Stmt} (h : s.Decides) : s.returnCount = s.ifCount + 1 := by
  induction h with
  | ret e => rfl
  | ifElse c _ _ ihyes ihno =>
      rw [returnCount_ifElse, ifCount_ifElse, ihyes, ihno]
      omega

end Stmt

namespace Arena

/-- A node has the three parts of a conditional expression. -/
structure Parts (a : Arena) (q c t e : Node) : Prop where
  condition : a.inRole q .condition = .ok (some c)
  consequence : a.inRole q .consequence = .ok (some t)
  alternative : a.inRole q .alternative = .ok (some e)

/-- The parts of a conditional expression come one after another. -/
def PartsInOrder (a : Arena) (q : Node) : Prop :=
  ∀ c t e, a.Parts q c t e → c.index < t.index ∧ t.index < e.index

/-- A node is the condition of a conditional expression that is reached from node `n`. -/
def Tested (a : Arena) (n m : Node) : Prop :=
  ∃ q, a.Nested n q ∧ a.inRole q .condition = .ok (some m)

/-- A node is no conditional expression, in parentheses or not, and it is node `n` or a branch of a
conditional expression that is reached from there. -/
def Leaf (a : Arena) (n m : Node) : Prop :=
  (∀ q, ¬ a.Encloses m q) ∧ (m = n ∨ ∃ q, a.Nested n q ∧
    (a.inRole q .consequence = .ok (some m) ∨ a.inRole q .alternative = .ok (some m)))

/-- The conditions and leaves of a node in the order in which an if-statement has them: a condition,
then what the first branch lists, then what the second one does. -/
inductive Listing (a : Arena) : Node → List Node → Prop where
  | branch {n q c t e : Node} {ts es : List Node} (hq : a.Encloses n q) (hparts : a.Parts q c t e)
      (ht : Listing a t ts) (he : Listing a e es) : Listing a n (c :: (ts ++ es))
  | leaf {n : Node} (h : ∀ q, ¬ a.Encloses n q) : Listing a n [n]

/-- A clause is the expression of a node: a test that of a condition, a result that of a leaf. -/
inductive Writes (a : Arena) (n : Node) : Clause → Node → Prop where
  | test {m : Node} {x : Expr} (h : a.Tested n m) (hx : a.expressionOf m = .ok x) :
      Writes a n (.test x) m
  | result {m : Node} {x : Expr} (h : a.Leaf n m) (hx : a.expressionOf m = .ok x) :
      Writes a n (.result (some x)) m

/-- A statement has the outline of a conditional expression. -/
structure Outlines (a : Arena) (n : Node) (st : Stmt) : Prop where
  decides : ∃ c yes no, st = .ifElse c [yes] [no] ∧ yes.Decides ∧ no.Decides
  ifCount_eq : st.ifCount = {q | a.Nested n q}.ncard
  returnCount_eq : st.returnCount = st.ifCount + 1
  listed : ∃ ms, a.Listing n ms ∧ List.Forall₂ (a.Writes n) st.clauses ms ∧ ms.Nodup ∧
    (∀ m, m ∈ ms ↔ a.Tested n m ∨ a.Leaf n m) ∧
    ((∀ q, a.Nested n q → a.PartsInOrder q) → ms.Pairwise fun x y => x.index < y.index)

variable {a : Arena} {n m p q c t e x y : Node} {st : Stmt} {ms : List Node} {role role' : Role}

/-! ## Branch by branch -/

theorem not_nested_of_not_encloses (h : ∀ q, ¬ a.Encloses n q) : ¬ a.Nested n p := by
  intro hp
  obtain ⟨q, hq⟩ := hp.exists_encloses
  exact h q hq

section

variable (hq : a.Encloses n q) (hparts : a.Parts q c t e)
include hq hparts

theorem Parts.nested_iff : a.Nested n p ↔ p = q ∨ a.Nested t p ∨ a.Nested e p := by
  constructor
  · intro h
    rcases h.cases_of_encloses hq with rfl | ⟨b, hb, hbp⟩ | ⟨b, hb, hbp⟩
    · exact Or.inl rfl
    · obtain rfl := inRole_unique hb hparts.consequence
      exact Or.inr (Or.inl hbp)
    · obtain rfl := inRole_unique hb hparts.alternative
      exact Or.inr (Or.inr hbp)
  · rintro (rfl | h | h)
    · exact .here hq
    · exact .whenTrue hq hparts.consequence h
    · exact .whenFalse hq hparts.alternative h

theorem Parts.tested_iff : a.Tested n m ↔ m = c ∨ a.Tested t m ∨ a.Tested e m := by
  constructor
  · rintro ⟨p, hp, hm⟩
    rcases (hparts.nested_iff hq).mp hp with rfl | hp | hp
    · exact Or.inl (inRole_unique hm hparts.condition)
    · exact Or.inr (Or.inl ⟨p, hp, hm⟩)
    · exact Or.inr (Or.inr ⟨p, hp, hm⟩)
  · rintro (rfl | ⟨p, hp, hm⟩ | ⟨p, hp, hm⟩)
    · exact ⟨q, .here hq, hparts.condition⟩
    · exact ⟨p, .whenTrue hq hparts.consequence hp, hm⟩
    · exact ⟨p, .whenFalse hq hparts.alternative hp, hm⟩

theorem Parts.leaf_iff : a.Leaf n m ↔ a.Leaf t m ∨ a.Leaf e m := by
  constructor
  · rintro ⟨hm, rfl | ⟨p, hp, hbranch⟩⟩
    · exact absurd hq (hm q)
    · rcases (hparts.nested_iff hq).mp hp with rfl | hp | hp
      · rcases hbranch with h | h
        · exact Or.inl ⟨hm, Or.inl (inRole_unique h hparts.consequence)⟩
        · exact Or.inr ⟨hm, Or.inl (inRole_unique h hparts.alternative)⟩
      · exact Or.inl ⟨hm, Or.inr ⟨p, hp, hbranch⟩⟩
      · exact Or.inr ⟨hm, Or.inr ⟨p, hp, hbranch⟩⟩
  · rintro (⟨hm, rfl | ⟨p, hp, hbranch⟩⟩ | ⟨hm, rfl | ⟨p, hp, hbranch⟩⟩)
    · exact ⟨hm, Or.inr ⟨q, .here hq, Or.inl hparts.consequence⟩⟩
    · exact ⟨hm, Or.inr ⟨p, .whenTrue hq hparts.consequence hp, hbranch⟩⟩
    · exact ⟨hm, Or.inr ⟨q, .here hq, Or.inr hparts.alternative⟩⟩
    · exact ⟨hm, Or.inr ⟨p, .whenFalse hq hparts.alternative hp, hbranch⟩⟩

end

/-- A listing has the conditions and the leaves, and nothing else. -/
theorem Listing.mem_iff (h : a.Listing n ms) : m ∈ ms ↔ a.Tested n m ∨ a.Leaf n m := by
  induction h with
  | branch hq hparts _ _ iht ihe =>
      rw [List.mem_cons, List.mem_append, iht, ihe, or_or_or_comm, ← or_assoc,
        hparts.tested_iff hq, hparts.leaf_iff hq]
  | @leaf n h =>
      rw [List.mem_singleton]
      constructor
      · rintro rfl
        exact Or.inr ⟨h, Or.inl rfl⟩
      · rintro (⟨q, hq, -⟩ | ⟨-, rfl | ⟨q, hq, -⟩⟩)
        · exact absurd hq (not_nested_of_not_encloses h)
        · rfl
        · exact absurd hq (not_nested_of_not_encloses h)

/-! ## What is below -/

theorem Parts.mem (hw : a.WellLinked) (hq : q ∈ a.nodes) (hparts : a.Parts q c t e) :
    c ∈ a.nodes ∧ t ∈ a.nodes ∧ e ∈ a.nodes :=
  ⟨(hw.of_inRole hq hparts.condition).1, (hw.of_inRole hq hparts.consequence).1,
    (hw.of_inRole hq hparts.alternative).1⟩

theorem WellLinked.dominates_of_inRole (hw : a.WellLinked) (hn : n ∈ a.nodes)
    (h : a.inRole n role = .ok (some m)) : a.Dominates n m :=
  hw.dominates_of_parent (hw.of_inRole hn h).1 (hw.parent_of_inRole hn h)

theorem Encloses.dominates (hw : a.WellLinked) (hn : n ∈ a.nodes) (h : a.Encloses n q) :
    a.Dominates n q := by
  induction h with
  | bare _ => exact Dominates.refl a _
  | inside hop _ ih =>
      exact (hw.dominates_of_inRole hn hop.2).trans (ih (hw.of_inRole hn hop.2).1)

theorem Nested.dominates (hw : a.WellLinked) (hn : n ∈ a.nodes) (h : a.Nested n p) :
    a.Dominates n p := by
  induction h with
  | here hq => exact hq.dominates hw hn
  | whenTrue hq hb _ ih | whenFalse hq hb _ ih =>
      have hqm := (hq.mem_and_le hw hn).1
      have hbelow := ih (hw.of_inRole hqm hb).1
      exact (hq.dominates hw hn).trans ((hw.dominates_of_inRole hqm hb).trans hbelow)

theorem Nested.finite (hw : a.WellLinked) (hn : n ∈ a.nodes) : {p | a.Nested n p}.Finite := by
  apply (List.finite_toSet a.nodes.toList).subset
  intro p hp
  exact Array.mem_toList_iff.mpr (hp.mem_and_kind hw hn).1

theorem Listing.dominates (hw : a.WellLinked) (hn : n ∈ a.nodes) (h : a.Listing n ms) :
    ∀ m ∈ ms, a.Dominates n m := by
  induction h with
  | @branch n q c t e ts es hq hparts _ _ iht ihe =>
      have hqm := (hq.mem_and_le hw hn).1
      obtain ⟨-, htm, hem⟩ := hparts.mem hw hqm
      have hpart : ∀ {role m}, a.inRole q role = .ok (some m) → a.Dominates n m := by
        intro role m hm
        exact (hq.dominates hw hn).trans (hw.dominates_of_inRole hqm hm)
      rw [List.forall_mem_cons, List.forall_mem_append]
      refine ⟨hpart hparts.condition, ?_, ?_⟩
      · intro m hm
        exact (hpart hparts.consequence).trans (iht htm m hm)
      · intro m hm
        exact (hpart hparts.alternative).trans (ihe hem m hm)
  | leaf _ => exact List.forall_mem_singleton.mpr (Dominates.refl a _)

/-- What is below two parts of a node comes in the order of the parts. -/
theorem WellLinked.index_lt_of_roles (hw : a.WellLinked) (hq : q ∈ a.nodes)
    (hm : a.inRole q role = .ok (some m)) (hn : a.inRole q role' = .ok (some n))
    (hlt : m.index < n.index) (hx : a.Dominates m x) (hy : a.Dominates n y) : x.index < y.index :=
  hw.index_lt_of_siblings (hw.of_inRole hq hm).1 (hw.of_inRole hq hn).1
    (hw.parent_of_inRole hq hm) (hw.parent_of_inRole hq hn) hlt hx hy

theorem WellLinked.ne_of_roles (hw : a.WellLinked) (hq : q ∈ a.nodes) (hapart : a.RolesApart q)
    (hm : a.inRole q role = .ok (some m)) (hn : a.inRole q role' = .ok (some n))
    (hne : role ≠ role') (hx : a.Dominates m x) (hy : a.Dominates n y) : x ≠ y := by
  rintro rfl
  rcases Nat.lt_trichotomy m.index n.index with hlt | heq | hgt
  · exact Nat.lt_irrefl _ (hw.index_lt_of_roles hq hm hn hlt hx hy)
  · obtain rfl := hw.eq_of_index_eq (hw.of_inRole hq hm).1 (hw.of_inRole hq hn).1 heq
    exact hne (hapart role role' m hm hn)
  · exact Nat.lt_irrefl _ (hw.index_lt_of_roles hq hn hm hgt hy hx)

/-- A relation leads from all that is below a part to all that is below a later one. -/
structure Separates (a : Arena) (R : Node → Node → Prop) (c t e : Node) : Prop where
  condition_consequence : ∀ {x y}, a.Dominates c x → a.Dominates t y → R x y
  condition_alternative : ∀ {x y}, a.Dominates c x → a.Dominates e y → R x y
  consequence_alternative : ∀ {x y}, a.Dominates t x → a.Dominates e y → R x y

/-- A relation that separates the parts of every conditional expression holds along a listing. -/
theorem Listing.pairwise {R : Node → Node → Prop} (hw : a.WellLinked) (hn : n ∈ a.nodes)
    (hR : ∀ q c t e, a.Nested n q → a.Parts q c t e → a.Separates R c t e)
    (h : a.Listing n ms) : ms.Pairwise R := by
  induction h with
  | branch hq hparts ht he iht ihe =>
      obtain ⟨-, htm, hem⟩ := hparts.mem hw (hq.mem_and_le hw hn).1
      have hsep := hR _ _ _ _ (.here hq) hparts
      have hts := iht htm fun p c t e hp => hR p c t e (.whenTrue hq hparts.consequence hp)
      have hes := ihe hem fun p c t e hp => hR p c t e (.whenFalse hq hparts.alternative hp)
      rw [List.pairwise_cons, List.forall_mem_append, List.pairwise_append]
      refine ⟨⟨?_, ?_⟩, hts, hes, ?_⟩
      · intro y hy
        exact hsep.condition_consequence (Dominates.refl a _) (ht.dominates hw htm y hy)
      · intro y hy
        exact hsep.condition_alternative (Dominates.refl a _) (he.dominates hw hem y hy)
      · intro x hx y hy
        exact hsep.consequence_alternative (ht.dominates hw htm x hx) (he.dominates hw hem y hy)
  | leaf _ => exact List.pairwise_singleton R _

theorem Listing.nodup (hw : a.WellLinked) (hn : n ∈ a.nodes)
    (hapart : ∀ q, a.Nested n q → a.RolesApart q) (h : a.Listing n ms) : ms.Nodup := by
  apply h.pairwise hw hn
  intro q c t e hq hparts
  have hqm := (hq.mem_and_kind hw hn).1
  constructor
  · exact hw.ne_of_roles hqm (hapart q hq) hparts.condition hparts.consequence (by decide)
  · exact hw.ne_of_roles hqm (hapart q hq) hparts.condition hparts.alternative (by decide)
  · exact hw.ne_of_roles hqm (hapart q hq) hparts.consequence hparts.alternative (by decide)

theorem Listing.sorted (hw : a.WellLinked) (hn : n ∈ a.nodes)
    (horder : ∀ q, a.Nested n q → a.PartsInOrder q) (h : a.Listing n ms) :
    ms.Pairwise fun x y => x.index < y.index := by
  apply h.pairwise hw hn
  intro q c t e hq hparts
  have hqm := (hq.mem_and_kind hw hn).1
  obtain ⟨hct, hte⟩ := horder q hq c t e hparts
  constructor
  · exact hw.index_lt_of_roles hqm hparts.condition hparts.consequence hct
  · exact hw.index_lt_of_roles hqm hparts.condition hparts.alternative (hct.trans hte)
  · exact hw.index_lt_of_roles hqm hparts.consequence hparts.alternative hte

/-! ## The statement that is built -/

theorem Expands.decides (h : a.Expands n st) : st.Decides := by
  induction h with
  | branch _ _ _ _ _ ihyes ihno => exact .ifElse _ ihyes ihno
  | leaf _ _ => exact .ret _

theorem Writes.imp {clause : Clause} (htest : ∀ {m}, a.Tested p m → a.Tested n m)
    (hleaf : ∀ {m}, a.Leaf p m → a.Leaf n m) (h : a.Writes p clause m) : a.Writes n clause m := by
  cases h with
  | test hm hx => exact .test (htest hm) hx
  | result hm hx => exact .result (hleaf hm) hx

/-- The clauses of what is built are the expressions of what is listed. -/
theorem Expands.exists_listing (hw : a.WellLinked) (hn : n ∈ a.nodes) (h : a.Expands n st) :
    ∃ ms, a.Listing n ms ∧ List.Forall₂ (a.Writes n) st.clauses ms := by
  induction h with
  | @branch n q c t e k f yes no hask ht _ he _ ihyes ihno =>
      have hq := hask.encloses
      have hparts : a.Parts q c t e := ⟨hask.condition, ht, he⟩
      obtain ⟨hcm, htm, hem⟩ := hparts.mem hw (hq.mem_and_le hw hn).1
      obtain ⟨ts, hts, hyes⟩ := ihyes htm
      obtain ⟨es, hes, hno⟩ := ihno hem
      have htested : a.Tested n c := (hparts.tested_iff hq).mpr (Or.inl rfl)
      refine ⟨_, .branch hq hparts hts hes, ?_⟩
      rw [Stmt.clauses_ifElse]
      apply List.Forall₂.cons (.test htested (hw.expressionOf_eq hcm hask.negated))
      -- What a branch tests and yields is tested and yielded by the whole.
      apply List.rel_append
      · apply hyes.imp
        intro _ m h
        exact h.imp (fun hm => (hparts.tested_iff hq).mpr (Or.inr (Or.inl hm)))
          fun hm => (hparts.leaf_iff hq).mpr (Or.inl hm)
      · apply hno.imp
        intro _ m h
        exact h.imp (fun hm => (hparts.tested_iff hq).mpr (Or.inr (Or.inr hm)))
          fun hm => (hparts.leaf_iff hq).mpr (Or.inr hm)
  | leaf h hneg =>
      refine ⟨_, .leaf h, ?_⟩
      exact .cons (.result ⟨h, Or.inl rfl⟩ (hw.expressionOf_eq hn hneg)) .nil

/-- There is one if-statement for every conditional expression: none is reached twice. -/
theorem Expands.ifCount_eq (hw : a.WellLinked) (hn : n ∈ a.nodes)
    (hapart : ∀ q, a.Nested n q → a.RolesApart q) (h : a.Expands n st) :
    st.ifCount = {q | a.Nested n q}.ncard := by
  induction h with
  | @branch n q c t e k f yes no hask ht _ he _ ihyes ihno =>
      have hparts : a.Parts q c t e := ⟨hask.condition, ht, he⟩
      have hq := hask.encloses
      have hqm := (hq.mem_and_le hw hn).1
      obtain ⟨htm, hqt⟩ := hw.of_inRole hqm ht
      obtain ⟨hem, hqe⟩ := hw.of_inRole hqm he
      have hsplit : {p | a.Nested n p} = insert q ({p | a.Nested t p} ∪ {p | a.Nested e p}) := by
        ext p
        exact hparts.nested_iff hq
      have hnot : q ∉ {p | a.Nested t p} ∪ {p | a.Nested e p} := by
        rintro (h | h)
        · exact absurd (hw.index_le_of_dominates (h.dominates hw htm)) (Nat.not_le_of_lt hqt)
        · exact absurd (hw.index_le_of_dominates (h.dominates hw hem)) (Nat.not_le_of_lt hqe)
      have hdisjoint : Disjoint {p | a.Nested t p} {p | a.Nested e p} := by
        rw [Set.disjoint_left]
        intro p hp hp'
        exact hw.ne_of_roles hqm (hapart q (.here hq)) ht he (by decide) (hp.dominates hw htm)
          (hp'.dominates hw hem) rfl
      have htfin := Nested.finite hw htm
      have hefin := Nested.finite hw hem
      rw [Stmt.ifCount_ifElse, hsplit, Set.ncard_insert_of_notMem hnot (htfin.union hefin),
        Set.ncard_union_eq hdisjoint htfin hefin,
        ihyes htm fun p hp => hapart p (.whenTrue hq ht hp),
        ihno hem fun p hp => hapart p (.whenFalse hq he hp)]
  | leaf h _ =>
      have hempty : {q | a.Nested _ q} = ∅ :=
        Set.eq_empty_of_forall_notMem fun q => not_nested_of_not_encloses h
      rw [hempty, Set.ncard_empty]
      rfl

/-- A conditional expression is expanded when it has all its parts and so do those that are reached
from it, and only then. -/
theorem WellLinked.exists_expandConditional_iff (hw : a.WellLinked) (hn : n ∈ a.nodes) :
    (∃ r, a.expandConditional n = .ok r) ↔
      n.kind = .conditional ∧ ∀ q, a.Nested n q → a.Complete q := by
  constructor
  · rintro ⟨r, h⟩
    have hkind : n.kind = .conditional := by
      by_contra hno
      rw [expandConditional, if_neg hno] at h
      cases h
    refine ⟨hkind, ?_⟩
    intro q hq
    by_contra hlack
    obtain ⟨p, -, -, herror⟩ := hw.exists_expandConditional_error hn hkind ⟨q, hq, hlack⟩
    cases h.symm.trans herror
  · rintro ⟨hkind, hcomplete⟩
    exact hw.exists_replace_of_nested hn hkind hcomplete

theorem WellLinked.exists_expands (hw : a.WellLinked) (hn : n ∈ a.nodes) {r : Replacement}
    (h : a.expandConditional n = .ok r) : ∃ st, r = ⟨n, [st]⟩ ∧ a.Expands n st := by
  obtain ⟨hkind, hcomplete⟩ := (hw.exists_expandConditional_iff hn).mp ⟨r, h⟩
  have hfuel : a.bound - n.index < a.bound + 1 := by omega
  obtain ⟨st, hst, hexpands⟩ := hw.exists_expandFuel hn hcomplete hfuel
  refine ⟨st, ?_, hexpands⟩
  rw [expandConditional, if_pos hkind] at h
  obtain ⟨st', hst', h⟩ := bind_eq_ok.mp h
  obtain rfl := Except.ok.inj (hst.symm.trans hst')
  exact (Except.ok.inj h).symm

/-- A mirror of a conditional expression has its outline when no node plays two roles. -/
theorem Expands.outlines (hw : a.WellLinked) (hn : n ∈ a.nodes) (hkind : n.kind = .conditional)
    (hapart : ∀ q, a.Nested n q → a.RolesApart q) (h : a.Expands n st) : a.Outlines n st := by
  obtain ⟨ms, hms, hwrites⟩ := h.exists_listing hw hn
  constructor
  case decides =>
      cases h with
      | branch _ _ hyes _ hno => exact ⟨_, _, _, rfl, hyes.decides, hno.decides⟩
      | leaf hnone _ => exact absurd (.bare hkind) (hnone n)
  case ifCount_eq => exact h.ifCount_eq hw hn hapart
  case returnCount_eq => exact h.decides.returnCount_eq
  case listed =>
      exact ⟨ms, hms, hwrites, hms.nodup hw hn hapart, fun m => hms.mem_iff,
        fun horder => hms.sorted hw hn horder⟩

end Arena

/-- A conditional expression of a bundled language is expanded when all parts are there, and what it
is expanded into has its outline: an if-statement for each conditional expression that is reached
through branches, a return for each leaf, and every condition and leaf in its place once. -/
theorem expandConditional_outlines {b : Bundled} {text : Text} {parsed : Parsed} {a : Arena}
    (h : b.grammar.parse text parsed = .ok a) {n : Node} (hn : n ∈ a.nodes) :
    ((∃ r, a.expandConditional n = .ok r) ↔
      n.kind = .conditional ∧ ∀ q, a.Nested n q → a.Complete q) ∧
    ∀ r, a.expandConditional n = .ok r → ∃ st, r = ⟨n, [st]⟩ ∧ a.Outlines n st := by
  have hw := wellLinked_of_parse h
  refine ⟨hw.exists_expandConditional_iff hn, ?_⟩
  intro r hr
  obtain ⟨hkind, -⟩ := (hw.exists_expandConditional_iff hn).mp ⟨r, hr⟩
  obtain ⟨st, rfl, hexpands⟩ := hw.exists_expands hn hr
  have hapart : ∀ q, a.Nested n q → a.RolesApart q := by
    intro q hq
    obtain ⟨hqm, hqk⟩ := hq.mem_and_kind hw hn
    exact rolesApart_of_parse h hqm hqk
  exact ⟨st, rfl, hexpands.outlines hw hn hkind hapart⟩

/-- The tree of a conditional expression with another one in either branch, in parentheses in the
second, where the last leaf is negated. -/
def branchedTernary : Concrete :=
  .node ⟨"program", 0, 16, none, true⟩ [
    .node ⟨"ternary_expression", 0, 16, none, true⟩ [
      .node ⟨"identifier", 0, 1, some "condition", true⟩ [],
      .node ⟨"ternary_expression", 2, 7, some "consequence", true⟩ [
        .node ⟨"identifier", 2, 3, some "condition", true⟩ [],
        .node ⟨"identifier", 4, 5, some "consequence", true⟩ [],
        .node ⟨"identifier", 6, 7, some "alternative", true⟩ []],
      .node ⟨"parenthesized_expression", 8, 16, some "alternative", true⟩ [
        .node ⟨"ternary_expression", 9, 15, none, true⟩ [
          .node ⟨"identifier", 9, 10, some "condition", true⟩ [],
          .node ⟨"identifier", 11, 12, some "consequence", true⟩ [],
          .node ⟨"unary_expression", 13, 15, some "alternative", true⟩ [
            .node ⟨"!", 13, 14, some "operator", false⟩ [],
            .node ⟨"identifier", 14, 15, some "argument", true⟩ []]]]]]

theorem expandConditional_branchedTernary :
    ∃ a n r, Bundled.typescript.grammar.parse "a?b?c:d:(e?f:!g)".toList
        ⟨some branchedTernary, false⟩ = .ok a ∧
      n ∈ a.nodes ∧ a.expandConditional n = .ok r ∧ r.statements.map Stmt.ifCount = [3] :=
  ⟨_, _, _, rfl, Array.mem_of_getElem? (i := 1) rfl, rfl, rfl⟩

theorem expandConditional_outlines_branchedTernary :
    ∃ a n r, Bundled.typescript.grammar.parse "a?b?c:d:(e?f:!g)".toList
        ⟨some branchedTernary, false⟩ = .ok a ∧
      n ∈ a.nodes ∧ a.expandConditional n = .ok r ∧
      ∃ st, r = ⟨n, [st]⟩ ∧ a.Outlines n st ∧ st.ifCount = 3 ∧ st.returnCount = 4 := by
  obtain ⟨a, n, r, h, hn, hr, hcount⟩ := expandConditional_branchedTernary
  obtain ⟨st, rfl, houtline⟩ := (expandConditional_outlines h hn).2 r hr
  have hifs : st.ifCount = 3 := List.singleton_inj.mp hcount
  refine ⟨a, n, _, h, hn, hr, st, rfl, houtline, hifs, ?_⟩
  rw [houtline.returnCount_eq, hifs]

end GuardClause
