import GuardClause.Proofs.Edits.Failures
import GuardClause.Proofs.Walks.Paths

/-!
# Every walk ends

In a parsed text the links of nodes stay inside the arena, those to children and parts lead to later
nodes and those to parents to earlier ones. So all that is followed through the arena comes to an
end: the loops down to an offset, up to an ancestor, into parentheses and into negations, and the
calls that expanding a conditional expression makes for its branches (`walks_end`).

Links that merely stay inside the arena would not be enough. Where a node is its own parent, child
and part (`selfLinked`), each of the loops goes on forever and so do the calls.
-/

namespace GuardClause

namespace Arena

variable {a : Arena} {n m q : Node} {calls : List Node} {depth fuel fuel' : Nat}

/-! ## Calls for branches -/

/-- Expanding node `n` calls for the expansion of node `m`, a branch of the conditional expression
that `n` encloses. -/
def Calls (a : Arena) (n m : Node) : Prop :=
  ∃ q, a.Encloses n q ∧ a.Complete q ∧
    (a.inRole q .consequence = .ok (some m) ∨ a.inRole q .alternative = .ok (some m))

/-- No chain of calls from a node is longer than some depth, the node included. -/
def CallsWithin (a : Arena) (depth : Nat) (n : Node) : Prop :=
  ∀ calls, (n :: calls).IsChain a.Calls → calls.length < depth

theorem not_callsWithin_zero (a : Arena) (n : Node) : ¬ a.CallsWithin 0 n := by
  intro h
  exact absurd (h [] (List.isChain_singleton n)) (Nat.lt_irrefl 0)

theorem CallsWithin.of_calls (h : a.CallsWithin (depth + 1) n) (hcall : a.Calls n m) :
    a.CallsWithin depth m := by
  intro calls hcalls
  have hlen := h (m :: calls) (List.isChain_cons_cons.mpr ⟨hcall, hcalls⟩)
  exact Nat.lt_of_succ_lt_succ hlen

namespace WellLinked

/-- Calls are for later nodes. -/
theorem of_calls (hw : a.WellLinked) (hn : n ∈ a.nodes) (h : a.Calls n m) :
    m ∈ a.nodes ∧ n.index < m.index := by
  obtain ⟨q, hq, -, hbranch⟩ := h
  obtain ⟨hqm, hle⟩ := hq.mem_and_le hw hn
  rcases hbranch with hm | hm
  · obtain ⟨hmem, hlt⟩ := hw.of_inRole hqm hm
    exact ⟨hmem, by omega⟩
  · obtain ⟨hmem, hlt⟩ := hw.of_inRole hqm hm
    exact ⟨hmem, by omega⟩

theorem rising_of_calls (hw : a.WellLinked) (hn : n ∈ a.nodes)
    (h : (n :: calls).IsChain a.Calls) :
    (∀ m ∈ n :: calls, m ∈ a.nodes ∧ n.index ≤ m.index) ∧
      (n :: calls).Pairwise fun m k => m.index < k.index := by
  induction calls generalizing n with
  | nil =>
      refine ⟨?_, List.pairwise_singleton _ n⟩
      intro m hm
      obtain rfl := List.mem_singleton.mp hm
      exact ⟨hn, Nat.le_refl _⟩
  | cons m calls ih =>
      obtain ⟨hcall, hrest⟩ := List.isChain_cons_cons.mp h
      obtain ⟨hm, hlt⟩ := hw.of_calls hn hcall
      obtain ⟨hmem, hpairs⟩ := ih hm hrest
      have hlater : ∀ k ∈ m :: calls, n.index < k.index := by
        intro k hk
        have hle := (hmem k hk).2
        omega
      refine ⟨?_, List.pairwise_cons.mpr ⟨hlater, hpairs⟩⟩
      intro k hk
      rcases List.mem_cons.mp hk with rfl | hk
      · exact ⟨hn, Nat.le_refl _⟩
      · exact ⟨(hmem k hk).1, Nat.le_of_lt (hlater k hk)⟩

theorem length_calls_le (hw : a.WellLinked) (hn : n ∈ a.nodes)
    (h : (n :: calls).IsChain a.Calls) : (n :: calls).length ≤ a.bound := by
  obtain ⟨hmem, hpairs⟩ := hw.rising_of_calls hn h
  exact hw.length_le_bound (fun m hm => (hmem m hm).1) (hpairs.imp Nat.ne_of_lt)

theorem callsWithin_bound (hw : a.WellLinked) (hn : n ∈ a.nodes) : a.CallsWithin a.bound n :=
  fun _ hcalls => hw.length_calls_le hn hcalls

/-- Any two depths that no chain of calls exceeds make no difference. -/
theorem expandFuel_eq_of_callsWithin (hw : a.WellLinked) (hn : n ∈ a.nodes)
    (h : a.CallsWithin fuel n) (h' : a.CallsWithin fuel' n) :
    a.expandFuel fuel n = a.expandFuel fuel' n := by
  induction fuel generalizing n fuel' with
  | zero => exact absurd h (not_callsWithin_zero a n)
  | succ fuel ih =>
      cases fuel' with
      | zero => exact absurd h' (not_callsWithin_zero a n)
      | succ fuel' =>
          rcases hw.unwrap_cases hn with ⟨q, hunwrap, hq⟩ | ⟨m, hunwrap, hkind, -⟩
          · by_cases hcomplete : a.Complete q
            · obtain ⟨x, t, e, ht, he, hexpand⟩ :=
                hw.expandFuel_of_complete hn hunwrap hq hcomplete
              have htcall : a.Calls n t := ⟨q, hq, hcomplete, Or.inl ht⟩
              have hecall : a.Calls n e := ⟨q, hq, hcomplete, Or.inr he⟩
              have htm := (hw.of_calls hn htcall).1
              have hem := (hw.of_calls hn hecall).1
              rw [hexpand, hexpand, ih htm (h.of_calls htcall) (h'.of_calls htcall),
                ih hem (h.of_calls hecall) (h'.of_calls hecall)]
            · rw [hw.expandFuel_of_not_complete hn hunwrap hq hcomplete,
                hw.expandFuel_of_not_complete hn hunwrap hq hcomplete]
          · -- A leaf calls for nothing.
            rw [expandFuel, expandFuel, hunwrap]
            show (if m.kind = .conditional then _ else _) = (if m.kind = .conditional then _ else _)
            rw [if_neg hkind, if_neg hkind]

/-- Expanding a node gives the statement that mirrors it, unless a conditional expression that is
reached from it lacks a part. -/
theorem expand_cases (hw : a.WellLinked) (hn : n ∈ a.nodes) :
    (∃ st, a.expand n = .ok st ∧ a.Expands n st) ∨
      ∃ q, a.Nested n q ∧ ¬ a.Complete q ∧ a.expand n = .error (.shape (.incomplete q.start)) := by
  have hfuel : a.bound - n.index < a.bound + 1 := by omega
  by_cases hlack : ∃ q, a.Nested n q ∧ ¬ a.Complete q
  · exact Or.inr (hw.exists_expandFuel_error hn hlack hfuel)
  · refine Or.inl (hw.exists_expandFuel hn ?_ hfuel)
    intro q hq
    by_contra hno
    exact hlack ⟨q, hq, hno⟩

end WellLinked

/-! ## Links that stay inside -/

/-- A link leads to a place of the arena, counted from the front. -/
def Holds (a : Arena) (link : Int) : Prop := 0 ≤ link ∧ link < a.bound

/-- No link of an arena leads outside. -/
structure LinksInside (a : Arena) : Prop where
  root : a.Holds a.root
  parent : ∀ n ∈ a.nodes, ∀ link, n.parent = some link → a.Holds link
  children : ∀ n ∈ a.nodes, ∀ link ∈ n.children, a.Holds link
  roles : ∀ n ∈ a.nodes, ∀ r ∈ n.roles, a.Holds r.2

theorem holds_natCast {i : Nat} (h : i < a.bound) : a.Holds i :=
  ⟨Int.natCast_nonneg i, Int.ofNat_lt.mpr h⟩

theorem WellLinked.linksInside (hw : a.WellLinked) : a.LinksInside := by
  have hchild : ∀ n ∈ a.nodes, ∀ link ∈ n.children, a.Holds link := by
    intro n hn link hlink
    obtain ⟨c, rfl, -, hc⟩ := hw.child_lt (hw.getElem?_index hn) hlink
    exact holds_natCast hc
  constructor
  case root =>
      rw [hw.root_eq]
      exact holds_natCast hw.nonempty
  case parent =>
      intro n hn link hparent
      obtain ⟨j, rfl, hlt⟩ := hw.parent_lt (hw.getElem?_index hn) hparent
      exact holds_natCast (Nat.lt_trans hlt (hw.index_lt_bound hn))
  case children => exact hchild
  case roles =>
      intro n hn r hr
      exact hchild n hn r.2 (hw.mem_children_of_mem_roles (hw.getElem?_index hn) hr)

/-! ## Walks that end and walks that do not -/

/-- Everything that is followed through an arena from a node, or from the root, ends. -/
structure WalksEnd (a : Arena) (n : Node) : Prop where
  resolve : ∀ o, ∃ r path last, a.fetch a.root = .ok r ∧ a.Ends (a.into o) (· < ·) r path last ∧
    a.resolve o = .ok last ∧ ∀ fuel, path.length ≤ fuel → a.descend o fuel r = .ok last
  /-- Whatever is searched for, it is the first such node of the chain above the node, the root left
  out. -/
  findEnclosing : ∃ chain root, a.Ends a.parentOf (· > ·) n chain root ∧ root.parent = none ∧
    ∀ p, a.findEnclosing p n = .ok (chain.dropLast.find? p) ∧
      ∀ fuel, chain.length ≤ fuel → a.climb p fuel n = .ok (chain.dropLast.find? p)
  unwrap : ∃ path last, a.Ends (a.under .parenthesized) (· < ·) n path last ∧
    a.unwrap n = .ok last ∧ ∀ fuel, path.length ≤ fuel → a.unwrapFuel fuel n = .ok last
  expressionOf : ∃ path last, a.Ends (a.under .negation) (· < ·) n path last ∧
    a.expressionOf n = .ok (.negations (path.length - 1) (a.fragmentOf last)) ∧
    ∀ fuel, path.length ≤ fuel → a.expressionFuel fuel n = a.expressionOf n
  expand : (∃ st, a.expand n = .ok st ∧ a.Expands n st) ∨
    ∃ q, a.Nested n q ∧ ¬ a.Complete q ∧ a.expand n = .error (.shape (.incomplete q.start))
  calls : ∀ calls, (n :: calls).IsChain a.Calls → (∀ m ∈ calls, m ∈ a.nodes) ∧
    (n :: calls).Pairwise (fun m k => m.index < k.index) ∧ (n :: calls).length ≤ a.bound
  depth : ∀ fuel, a.CallsWithin fuel n → a.expandFuel fuel n = a.expand n

theorem WellLinked.walksEnd (hw : a.WellLinked) (hn : n ∈ a.nodes) : a.WalksEnd n := by
  constructor
  case resolve =>
      intro o
      obtain ⟨r, hr, hroot, -⟩ := hw.exists_root
      obtain ⟨path, last, hends⟩ := hw.exists_rising (hw.into_cases o) hr
      have hcount : ∀ fuel, path.length ≤ fuel → a.descend o fuel r = .ok last :=
        fun _ => descend_of_walk hends.walk
      have hresolve : a.resolve o = .ok last :=
        bind_eq_ok.mpr ⟨r, hroot, hcount a.bound hends.length_le⟩
      exact ⟨r, path, last, hroot, hends, hresolve, hcount⟩
  case findEnclosing =>
      obtain ⟨chain, root, hends⟩ := hw.exists_falling hw.parentOf_cases hn
      refine ⟨chain, root, hends, parentOf_eq_none_iff.mp hends.walk.next_last, ?_⟩
      intro p
      exact ⟨climb_of_walk hends.walk p (Nat.le_succ_of_le hends.length_le),
        fun _ => climb_of_walk hends.walk p⟩
  case unwrap =>
      obtain ⟨path, last, hends⟩ := hw.exists_rising (hw.under_cases .parenthesized) hn
      exact ⟨path, last, hends, unwrapFuel_of_walk hends.walk (Nat.le_succ_of_le hends.length_le),
        fun _ => unwrapFuel_of_walk hends.walk⟩
  case expressionOf =>
      obtain ⟨path, last, hends⟩ := hw.exists_rising (hw.under_cases .negation) hn
      have hexpr := expressionFuel_of_walk hends.walk (Nat.le_succ_of_le hends.length_le)
      refine ⟨path, last, hends, hexpr, ?_⟩
      intro fuel hfuel
      exact (expressionFuel_of_walk hends.walk hfuel).trans hexpr.symm
  case expand => exact hw.expand_cases hn
  case calls =>
      intro calls hcalls
      obtain ⟨hmem, hpairs⟩ := hw.rising_of_calls hn hcalls
      exact ⟨fun m hm => (hmem m (List.mem_cons_of_mem n hm)).1, hpairs,
        hw.length_calls_le hn hcalls⟩
  case depth =>
      intro fuel hfuel
      refine hw.expandFuel_eq_of_callsWithin hn hfuel ?_
      intro calls hcalls
      exact Nat.lt_succ_of_lt (hw.callsWithin_bound hn calls hcalls)

/-- Each way through an arena may go on forever. -/
structure Endless (a : Arena) : Prop where
  resolve : ∃ o r, a.fetch a.root = .ok r ∧ ∀ path last, ¬ Walk (a.into o) r path last
  findEnclosing : ∃ n ∈ a.nodes, ∀ path last, ¬ Walk a.parentOf n path last
  unwrap : ∃ n ∈ a.nodes, ∀ path last, ¬ Walk (a.under .parenthesized) n path last
  expressionOf : ∃ n ∈ a.nodes, ∀ path last, ¬ Walk (a.under .negation) n path last
  expand : ∃ n ∈ a.nodes, ∀ depth, ¬ a.CallsWithin depth n

/-- A node that is its own parent, child and part. -/
def selfLinkedNode (i : Nat) (kind : Kind) : Node :=
  ⟨i, kind, "", 0, 1, some i, [i],
    [("condition", i), ("consequence", i), ("alternative", i), ("operand", i)]⟩

/-- An arena of such nodes. -/
def selfLinked : Arena :=
  ⟨"", ⟨[]⟩, #[selfLinkedNode 0 .parenthesized, selfLinkedNode 1 .negation,
    selfLinkedNode 2 .conditional], 0⟩

theorem not_callsWithin_of_self (h : a.Calls n n) (depth : Nat) : ¬ a.CallsWithin depth n := by
  induction depth with
  | zero => exact not_callsWithin_zero a n
  | succ depth ih => exact fun hwithin => ih (hwithin.of_calls h)

theorem mem_selfLinked (hn : n ∈ selfLinked.nodes) :
    ∃ i kind, selfLinked.Holds (i : Nat) ∧ n = selfLinkedNode i kind := by
  simp only [selfLinked, List.mem_toArray, List.mem_cons, List.not_mem_nil, or_false] at hn
  rcases hn with rfl | rfl | rfl
  · exact ⟨0, _, holds_natCast (by decide), rfl⟩
  · exact ⟨1, _, holds_natCast (by decide), rfl⟩
  · exact ⟨2, _, holds_natCast (by decide), rfl⟩

theorem linksInside_selfLinked : selfLinked.LinksInside := by
  constructor
  case root => exact holds_natCast (by decide : 0 < 3)
  case parent =>
      intro n hn link hparent
      obtain ⟨i, kind, hi, rfl⟩ := mem_selfLinked hn
      obtain rfl := Option.some.inj hparent
      exact hi
  case children =>
      intro n hn link hlink
      obtain ⟨i, kind, hi, rfl⟩ := mem_selfLinked hn
      obtain rfl := List.mem_singleton.mp hlink
      exact hi
  case roles =>
      intro n hn r hr
      obtain ⟨i, kind, hi, rfl⟩ := mem_selfLinked hn
      have hlink : r.2 = i := by
        simp only [selfLinkedNode, List.mem_cons, List.not_mem_nil, or_false] at hr
        rcases hr with rfl | rfl | rfl | rfl <;> rfl
      rw [hlink]
      exact hi

theorem endless_selfLinked : selfLinked.Endless := by
  constructor
  case resolve =>
      exact ⟨0, selfLinkedNode 0 .parenthesized, rfl, fun _ _ => Walk.not_of_self rfl⟩
  case findEnclosing =>
      exact ⟨selfLinkedNode 0 .parenthesized, Array.mem_of_getElem? (i := 0) rfl,
        fun _ _ => Walk.not_of_self rfl⟩
  case unwrap =>
      exact ⟨selfLinkedNode 0 .parenthesized, Array.mem_of_getElem? (i := 0) rfl,
        fun _ _ => Walk.not_of_self rfl⟩
  case expressionOf =>
      exact ⟨selfLinkedNode 1 .negation, Array.mem_of_getElem? (i := 1) rfl,
        fun _ _ => Walk.not_of_self rfl⟩
  case expand =>
      have hcall : selfLinked.Calls (selfLinkedNode 2 .conditional)
          (selfLinkedNode 2 .conditional) :=
        ⟨_, .bare rfl, ⟨⟨_, rfl⟩, ⟨_, rfl⟩, ⟨_, rfl⟩⟩, Or.inl rfl⟩
      exact ⟨selfLinkedNode 2 .conditional, Array.mem_of_getElem? (i := 2) rfl,
        not_callsWithin_of_self hcall⟩

end Arena

/-- In a parsed text no link leads outside the arena, and everything that is followed through it
ends, from whatever node. Where links only stay inside, it may go on forever. -/
theorem walks_end {g : Grammar} {text : Text} {parsed : Parsed} {a : Arena}
    (h : g.parse text parsed = .ok a) :
    a.LinksInside ∧ (∀ n ∈ a.nodes, a.WalksEnd n) ∧ ∃ c : Arena, c.LinksInside ∧ c.Endless := by
  have hw := wellLinked_of_parse h
  exact ⟨hw.linksInside, fun n hn => hw.walksEnd hn, Arena.selfLinked,
    Arena.linksInside_selfLinked, Arena.endless_selfLinked⟩

theorem walks_end_nestedTernary :
    ∃ a, Bundled.typescript.grammar.parse "!a?(b?c:d):e".toList
        ⟨some nestedTernary, false⟩ = .ok a ∧ a.bound = 10 ∧
      a.LinksInside ∧ (∀ n ∈ a.nodes, a.WalksEnd n) ∧
        ∃ c : Arena, c.LinksInside ∧ c.Endless := by
  obtain ⟨a, h, hbound⟩ : ∃ a, Bundled.typescript.grammar.parse "!a?(b?c:d):e".toList
      ⟨some nestedTernary, false⟩ = .ok a ∧ a.bound = 10 := ⟨_, rfl, rfl⟩
  exact ⟨a, h, hbound, walks_end h⟩

end GuardClause
