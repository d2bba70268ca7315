import GuardClause.Proofs.Cursor.Ancestors
import GuardClause.Proofs.Edits.Offers

/-!
# The innermost node around a place

When the stretches of an arena are nested, the nodes that cover a place form a chain: the descent
from the root finds its lower end, and all other nodes of the chain are above that one
(`exists_resolve`). The climb from there meets the chain from below, so that the first node with a
property that it meets is the innermost one, and where it meets none there is none
(`around_cases`). The root is left out, because a climb never returns it.
-/

namespace GuardClause.Arena

/-- The stretches of an arena are nested: what a node covers its parent covers, and no place is
covered by two children of a node. -/
structure Nests (a : Arena) : Prop where
  inside : ∀ n ∈ a.nodes, ∀ m ∈ a.nodes, m.parent = some (n.index : Int) →
    ∀ o, m.covers o = true → n.covers o = true
  apart : ∀ m ∈ a.nodes, ∀ k ∈ a.nodes, m.parent = k.parent → m.parent ≠ none →
    ∀ o, m.covers o = true → k.covers o = true → m = k

/-- Node `n` is the innermost node with a property that covers a place, the root left out. Any other
such node is above it. -/
structure Innermost (a : Arena) (p : Node → Bool) (o : Int) (n : Node) : Prop where
  mem : n ∈ a.nodes
  not_root : n.parent ≠ none
  holds : p n = true
  covers : n.covers o = true
  above : ∀ m ∈ a.nodes, p m = true → m.covers o = true → m ≠ n → a.IsAbove m n

variable {a : Arena} {n m q v : Node} {ms : List Node} {o link : Int} {p : Node → Bool} {fuel : Nat}

theorem covers_iff : n.covers o = true ↔ n.start ≤ o ∧ o < n.stop := by
  simp [Node.covers]

/-- Stretches are nested when their ends are. -/
theorem nests_of_bounds
    (inside : ∀ n ∈ a.nodes, ∀ m ∈ a.nodes, m.parent = some (n.index : Int) →
      n.start ≤ m.start ∧ m.stop ≤ n.stop)
    (apart : ∀ m ∈ a.nodes, ∀ k ∈ a.nodes, m.parent = k.parent → m.parent ≠ none →
      m = k ∨ m.stop ≤ k.start ∨ k.stop ≤ m.start) : a.Nests := by
  constructor
  case inside =>
      intro n hn m hm hparent o ho
      have := inside n hn m hm hparent
      rw [covers_iff] at ho ⊢
      omega
  case apart =>
      intro m hm k hk hparent hroot o hmo hko
      rw [covers_iff] at hmo hko
      rcases apart m hm k hk hparent hroot with heq | hle | hle
      · exact heq
      · omega
      · omega

/-- What a node covers every node above it covers. -/
theorem Nests.covers_of_dominates (hs : a.Nests) (hw : a.WellLinked) (hm : m ∈ a.nodes)
    (hn : n ∈ a.nodes) (h : a.Dominates m n) (ho : n.covers o = true) : m.covers o = true := by
  induction hd : n.index using Nat.strong_induction_on generalizing n with
  | _ d ih =>
      rcases hw.dominates_cases hm hn h with rfl | ⟨q, hq, hparent, hmq⟩
      · exact ho
      · have hlt : q.index < n.index :=
          hw.begets_lt ((hw.begets_iff hn q.index).mpr hparent)
        exact ih q.index (by omega) hq hmq (hs.inside q hq n hn hparent o ho) rfl

/-! ## Down from the root -/

theorem descend_here (hms : a.childrenOf v = .ok ms) (h : ms.find? (·.covers o) = none) :
    a.descend o (fuel + 1) v = .ok v := by
  refine bind_eq_ok.mpr ⟨ms, hms, ?_⟩
  rw [h]
  rfl

theorem descend_child (hms : a.childrenOf v = .ok ms) (h : ms.find? (·.covers o) = some m)
    (hm : a.descend o fuel m = .ok n) : a.descend o (fuel + 1) v = .ok n := by
  refine bind_eq_ok.mpr ⟨ms, hms, ?_⟩
  rw [h]
  exact hm

/-- The descent ends at a node below which nothing covers the place, and which is below everything
that covers the place. -/
theorem Nests.exists_descend (hs : a.Nests) (hw : a.WellLinked) (hv : v ∈ a.nodes) (o : Int)
    (hfuel : a.bound - v.index ≤ fuel) :
    ∃ n ∈ a.nodes, a.descend o fuel v = .ok n ∧ (n = v ∨ n.covers o = true) ∧
      ∀ m ∈ a.nodes, a.Dominates v m → m.covers o = true → a.Dominates m n := by
  induction fuel generalizing v with
  | zero =>
      have := hw.index_lt_bound hv
      omega
  | succ fuel ih =>
      obtain ⟨ms, hms, hlater⟩ := hw.exists_childrenOf hv
      have hmem : ∀ m, m ∈ ms ↔ m ∈ a.nodes ∧ m.parent = some (v.index : Int) :=
        fun m => hw.mem_childrenOf_iff hv hms
      cases hfind : ms.find? (·.covers o) with
      | none =>
          refine ⟨v, hv, descend_here hms hfind, Or.inl rfl, ?_⟩
          intro m hm hvm hmo
          rcases hw.dominates_cases_head hv hm hvm with rfl | ⟨c, hc, hparent, hcm⟩
          · exact Dominates.refl a v
          · -- The child above `m` would have been found.
            have hco := hs.covers_of_dominates hw hc hm hcm hmo
            exact absurd hco (List.find?_eq_none.mp hfind c ((hmem c).mpr ⟨hc, hparent⟩))
      | some c =>
          have hcms := List.mem_of_find?_eq_some hfind
          have hco : c.covers o = true := by simpa using List.find?_some hfind
          obtain ⟨hc, hparent⟩ := (hmem c).mp hcms
          have hlt := (hlater c hcms).2
          have hbound := hw.index_lt_bound hc
          obtain ⟨n, hn, hdescend, hcover, hbelow⟩ := ih hc (by omega)
          refine ⟨n, hn, descend_child hms hfind hdescend, ?_, ?_⟩
          · rcases hcover with rfl | hno
            · exact Or.inr hco
            · exact Or.inr hno
          · intro m hm hvm hmo
            rcases hw.dominates_cases_head hv hm hvm with rfl | ⟨d, hd, hdparent, hdm⟩
            · exact (hw.dominates_of_parent hc hparent).trans (hbelow c hc (Dominates.refl a c) hco)
            · -- Only one child covers the place, so `m` is below the child that was taken.
              have hdo := hs.covers_of_dominates hw hd hm hdm hmo
              obtain rfl : d = c := hs.apart d hd c hc (hdparent.trans hparent.symm)
                (by simp [hdparent]) o hdo hco
              exact hbelow m hm hdm hmo

theorem WellLinked.exists_root (hw : a.WellLinked) :
    ∃ r ∈ a.nodes, a.fetch a.root = .ok r ∧ r.parent = none ∧ r.index = 0 := by
  have hpos := hw.nonempty
  have hget : a.nodes[0]? = some a.nodes[0] := Array.getElem?_eq_getElem hpos
  have hindex : a.nodes[0].index = 0 := hw.index_eq hget
  refine ⟨_, Array.getElem_mem hpos, ?_, (hw.parent_eq_none_iff hget).mpr rfl, hindex⟩
  rw [hw.root_eq]
  exact fetch_natCast hget

/-- Below the root, a place is covered by the node that the descent finds and by the nodes above
it, and by no others. -/
theorem Nests.exists_resolve (hs : a.Nests) (hw : a.WellLinked) (o : Int) :
    ∃ n ∈ a.nodes, a.resolve o = .ok n ∧
      ∀ m ∈ a.nodes, m.parent ≠ none → (m.covers o = true ↔ a.Dominates m n) := by
  obtain ⟨r, hr, hfetch, hroot, hindex⟩ := hw.exists_root
  obtain ⟨n, hn, hdescend, hcover, hbelow⟩ := hs.exists_descend hw hr o (Nat.sub_le _ _)
  refine ⟨n, hn, bind_eq_ok.mpr ⟨r, hfetch, hdescend⟩, ?_⟩
  intro m hm hmroot
  constructor
  · exact hbelow m hm (hw.dominates_root hr hroot hm)
  · intro hmn
    rcases hcover with rfl | hno
    · -- Nothing but the root is above the root.
      rcases hw.dominates_cases hm hn hmn with rfl | ⟨q, -, hparent, -⟩
      · exact absurd hroot hmroot
      · simp [hroot] at hparent
    · exact hs.covers_of_dominates hw hm hn hmn hno

/-! ## Up to the nearest -/

theorem climb_root (h : n.parent = none) : a.climb p (fuel + 1) n = .ok none := by
  rw [climb, h]
  rfl

theorem climb_here (h : n.parent = some link) (hp : p n = true) :
    a.climb p (fuel + 1) n = .ok (some n) := by
  rw [climb, h]
  exact if_pos hp

theorem climb_parent (h : n.parent = some link) (hp : p n = false) (hq : a.fetch link = .ok q) :
    a.climb p (fuel + 1) n = a.climb p fuel q := by
  rw [climb, h]
  dsimp only
  rw [hp, hq]
  rfl

/-- The climb ends at the nearest node with the property among a node and those above it, the root
left out, or at the root when there is none. -/
theorem WellLinked.climb_cases (hw : a.WellLinked) (p : Node → Bool) (hn : n ∈ a.nodes)
    (hfuel : n.index < fuel) :
    (∃ m ∈ a.nodes, a.climb p fuel n = .ok (some m) ∧ m.parent ≠ none ∧ p m = true ∧
        a.Dominates m n ∧
        ∀ k ∈ a.nodes, k.parent ≠ none → p k = true → a.Dominates k n → a.Dominates k m) ∨
      (a.climb p fuel n = .ok none ∧
        ∀ k ∈ a.nodes, k.parent ≠ none → p k = true → ¬ a.Dominates k n) := by
  induction fuel generalizing n with
  | zero => exact absurd hfuel (Nat.not_lt_zero _)
  | succ fuel ih =>
      rcases hw.parent_cases hn with ⟨hroot, -⟩ | ⟨q, hq, hparent, hfetch, hlt⟩
      · refine Or.inr ⟨climb_root hroot, ?_⟩
        intro k hk hkroot _ hkn
        rcases hw.dominates_cases hk hn hkn with rfl | ⟨q, -, hparent, -⟩
        · exact hkroot hroot
        · simp [hroot] at hparent
      · cases hp : p n with
        | true =>
            refine Or.inl ⟨n, hn, climb_here hparent hp, by simp [hparent], hp,
              Dominates.refl a n, ?_⟩
            intro k _ _ _ hkn
            exact hkn
        | false =>
            have hstep : a.climb p (fuel + 1) n = a.climb p fuel q :=
              climb_parent hparent hp hfetch
            have hup : a.Dominates q n := hw.dominates_of_parent hn hparent
            -- What has the property is not the node itself, so it is above the parent.
            have habove : ∀ k ∈ a.nodes, p k = true → a.Dominates k n → a.Dominates k q := by
              intro k hk hpk hkn
              rcases hw.dominates_cases hk hn hkn with rfl | ⟨r, hr, hrparent, hkr⟩
              · simp [hp] at hpk
              · have hindex : r.index = q.index := by
                  rw [hparent] at hrparent
                  exact Int.ofNat.inj (Option.some.inj hrparent.symm)
                exact hw.eq_of_index_eq hr hq hindex ▸ hkr
            rw [hstep]
            rcases ih hq (by omega) with ⟨m, hm, hclimb, hmroot, hpm, hmq, hnear⟩ | ⟨hclimb, hnone⟩
            · refine Or.inl ⟨m, hm, hclimb, hmroot, hpm, hmq.trans hup, ?_⟩
              intro k hk hkroot hpk hkn
              exact hnear k hk hkroot hpk (habove k hk hpk hkn)
            · refine Or.inr ⟨hclimb, ?_⟩
              intro k hk hkroot hpk hkn
              exact hnone k hk hkroot hpk (habove k hk hpk hkn)

/-- The search around a place finds the innermost node with a property, unless no node but the root
has it and covers the place. -/
theorem Nests.around_cases (hs : a.Nests) (hw : a.WellLinked) (p : Node → Bool) (o : Int) :
    (∃ n, a.around p o = .ok (some n) ∧ a.Innermost p o n) ∨
      (a.around p o = .ok none ∧
        ∀ m ∈ a.nodes, m.parent ≠ none → p m = true → ¬ m.covers o = true) := by
  obtain ⟨n, hn, hresolve, hiff⟩ := hs.exists_resolve hw o
  have hbound := hw.index_lt_bound hn
  rcases hw.climb_cases p hn (Nat.lt_succ_of_lt hbound) with
    ⟨m, hm, hclimb, hmroot, hpm, hmn, hnear⟩ | ⟨hclimb, hnone⟩
  · have hmo := (hiff m hm hmroot).mpr hmn
    refine Or.inl ⟨m, bind_eq_ok.mpr ⟨n, hresolve, hclimb⟩, hm, hmroot, hpm, hmo, ?_⟩
    intro k hk hpk hko hne
    refine hw.isAbove_of_dominates hk hm ?_ hne
    by_cases hkroot : k.parent = none
    · exact hw.dominates_root hk hkroot hm
    · exact hnear k hk hkroot hpk ((hiff k hk hkroot).mp hko)
  · refine Or.inr ⟨bind_eq_ok.mpr ⟨n, hresolve, hclimb⟩, ?_⟩
    intro m hm hmroot hpm hmo
    exact hnone m hm hmroot hpm ((hiff m hm hmroot).mp hmo)

/-- There is at most one innermost node. -/
theorem Innermost.unique (hw : a.WellLinked) (hn : a.Innermost p o n) (hm : a.Innermost p o m) :
    n = m := by
  by_contra hne
  have hnm := hw.index_lt_of_isAbove (hm.above n hn.mem hn.holds hn.covers hne)
  have hmn := hw.index_lt_of_isAbove (hn.above m hm.mem hm.holds hm.covers (Ne.symm hne))
  omega

end GuardClause.Arena
