import GuardClause.Language.Bundled
import GuardClause.Proofs.Layout.Follow

/-!
# The parts of a conditional expression

A child fills one field at most. The bundled languages keep the parts of a conditional expression in
fields of three names, so the nodes that play its roles are three different ones
(`rolesApart_of_parse`).
-/

namespace GuardClause

namespace Grammar

variable {p : Placed} {field field' : String} {i : Nat}

/-- In a zip with different right-hand sides, those tell the left-hand sides. -/
theorem eq_of_mem_zip {α β : Type} {l : List α} {k : List β} (hk : k.Nodup) {x y : α} {z : β}
    (hx : (x, z) ∈ l.zip k) (hy : (y, z) ∈ l.zip k) : x = y := by
  obtain ⟨i, hi, hxi⟩ := List.getElem_of_mem hx
  obtain ⟨j, hj, hyj⟩ := List.getElem_of_mem hy
  rw [List.getElem_zip] at hxi hyj
  obtain ⟨rfl, hzi⟩ := Prod.mk.inj hxi
  obtain ⟨rfl, hzj⟩ := Prod.mk.inj hyj
  obtain rfl : i = j := hk.getElem_inj_iff.mp (hzi.trans hzj.symm)
  rfl

/-- A child fills one field at most. -/
theorem childInField?_injective (hchildren : p.children.Nodup)
    (h : childInField? p field = some i) (h' : childInField? p field' = some i) :
    field = field' := by
  obtain ⟨t, ht, hfield⟩ := field_of_childInField? h
  obtain ⟨u, hu, hfield'⟩ := field_of_childInField? h'
  obtain rfl := eq_of_mem_zip hchildren ht hu
  exact Option.some.inj (hfield.symm.trans hfield')

end Grammar

namespace Bundled

open Grammar

variable {b : Bundled} {p : Placed}

theorem type_of_kindOf {t : Concrete} (h : b.grammar.kindOf t = .ok .conditional) :
    t.label.type = "ternary_expression" := by
  unfold kindOf at h
  dsimp only at h
  split at h
  · -- The type of negations has no other kinds than two.
    obtain ⟨field, -, h⟩ := bind_eq_ok.mp h
    split at h
    · cases h
    · obtain ⟨operator, -, h⟩ := bind_eq_ok.mp h
      have hkind := Except.ok.inj h
      split at hkind <;> cases hkind
  · split at h
    · rename_i k hk
      obtain rfl := Except.ok.inj h
      have hlisted := Table.mem_of_get? hk
      cases b <;> simpa [grammar] using hlisted
    · have hkind := Except.ok.inj h
      unfold kindByEnding at hkind
      split at hkind
      · cases hkind
      · split at hkind <;> cases hkind

/-- The roles of a conditional expression have the names of their fields. -/
theorem childInField?_of_rolesAt {roles : Table Int}
    (h : b.grammar.rolesAt p .conditional = .ok roles)
    (htype : p.tree.label.type = "ternary_expression") {role : String} {link : Int}
    (hrole : roles.get? role = some link) :
    ∃ i : Nat, link = i ∧ childInField? p role = some i := by
  obtain ⟨fields, hfields, h⟩ := bind_eq_ok.mp h
  obtain rfl := Except.ok.inj h
  have hsame : ∀ f ∈ fields, f.2 = f.1 := by
    have hparts : b.grammar.roles = commonRoles := by cases b <;> rfl
    obtain rfl := Except.ok.inj hfields
    rw [hparts, htype]
    decide
  have hmem := Table.mem_of_get? hrole
  rw [rolesOf_eq_filterMap] at hmem
  obtain ⟨f, hf, hmap⟩ := List.mem_filterMap.mp hmem
  obtain ⟨i, hi, heq⟩ := Option.map_eq_some_iff.mp hmap
  obtain ⟨rfl, rfl⟩ := Prod.mk.inj heq
  exact ⟨i, rfl, hsame f hf ▸ hi⟩

end Bundled

/-- Different roles of a node are played by different nodes. -/
def Arena.RolesApart (a : Arena) (n : Node) : Prop :=
  ∀ role role' m, a.inRole n role = .ok (some m) → a.inRole n role' = .ok (some m) → role = role'

theorem Role.name_injective {role role' : Role} (h : role.name = role'.name) : role = role' := by
  cases role <;> cases role' <;> simp_all [name]

/-- In a text of a bundled language the parts of a conditional expression are different nodes. -/
theorem rolesApart_of_parse {b : Bundled} {text : Text} {parsed : Parsed} {a : Arena}
    (h : b.grammar.parse text parsed = .ok a) {n : Node} (hn : n ∈ a.nodes)
    (hkind : n.kind = .conditional) : a.RolesApart n := by
  have hw := wellLinked_of_parse h
  have hpairwise := hw.children_pairwise (hw.getElem?_index hn)
  -- The node was read from a numbered one, which has the same children.
  obtain ⟨p, hreads⟩ : ∃ p, b.grammar.Reads (ByteMap.ofText text) p n := by
    obtain ⟨language, root, nodes, -, -, hnodes, rfl⟩ := Grammar.parse_eq_ok.mp h
    obtain ⟨p, -, hread⟩ := exists_of_mapM_eq_ok hnodes (List.mem_toArray.mp hn)
    exact ⟨p, Grammar.nodeAt_eq_ok.mp hread⟩
  have hchildren : p.children.Nodup := by
    rw [hreads.children_eq] at hpairwise
    exact List.Nodup.of_map Int.ofNat (hpairwise.imp fun hlt => Int.ne_of_lt hlt)
  have hroles := hreads.roles_eq
  have htype := hreads.kind_eq
  rw [hkind] at hroles htype
  intro role role' m hm hm'
  obtain ⟨i, hi, hfield⟩ := Bundled.childInField?_of_rolesAt hroles (Bundled.type_of_kindOf htype)
    (hw.get?_of_inRole hn hm)
  obtain ⟨j, hj, hfield'⟩ := Bundled.childInField?_of_rolesAt hroles (Bundled.type_of_kindOf htype)
    (hw.get?_of_inRole hn hm')
  obtain rfl : i = j := Int.ofNat.inj (hi.symm.trans hj)
  exact Role.name_injective (Grammar.childInField?_injective hchildren hfield hfield')

end GuardClause
