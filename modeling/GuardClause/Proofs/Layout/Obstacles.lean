import GuardClause.Language.Bundled
import GuardClause.Proofs.Edits.Failures

/-!
# When a text cannot be parsed

Reading a concrete syntax tree fails where a setting of the negation rule is needed and absent, or
where an offset lies behind the end of the text and a byte table is looked up. `Grammar.Obstructs`
lists these obstacles one by one, each at the node where it lies, without reading anything. A text
is parsed unless there is no tree or an obstacle lies at a node that named children lead to
(`parse_fails_iff`); what lies below unnamed nodes does not count.
-/

namespace GuardClause

/-! ## Nodes that are read -/

namespace Concrete

/-- Named children lead from one node to another. -/
def Reaches : Concrete → Concrete → Prop :=
  Relation.ReflTransGen fun t c => c ∈ t.namedChildren

theorem mem_namedChildren {l : Label} {ts : List Concrete} {c : Concrete} :
    c ∈ (node l ts).namedChildren ↔ c ∈ ts ∧ c.label.named = true :=
  List.mem_filter

mutual

/-- Only nodes that named children lead to are numbered. -/
theorem reaches_of_mem_placed : ∀ (t : Concrete) (parent : Option Nat) (i : Nat) {p : Placed},
    p ∈ t.placed parent i → t.Reaches p.tree
  | node l ts, parent, i, p, h => by
      rw [placed] at h
      rcases List.mem_cons.mp h with rfl | h
      · exact .refl
      · obtain ⟨c, hc, hnamed, hreach⟩ := reaches_of_mem_placedList ts i (i + 1) h
        exact .head (mem_namedChildren.mpr ⟨hc, hnamed⟩) hreach

theorem reaches_of_mem_placedList : ∀ (ts : List Concrete) (parent i : Nat) {p : Placed},
    p ∈ placedList parent i ts → ∃ c ∈ ts, c.label.named = true ∧ c.Reaches p.tree
  | [], parent, i, p, h => absurd h List.not_mem_nil
  | t :: ts, parent, i, p, h => by
      rw [placedList] at h
      split at h
      · rename_i hnamed
        rcases List.mem_append.mp h with h | h
        · exact ⟨t, List.mem_cons_self, hnamed, reaches_of_mem_placed t (some parent) i h⟩
        · obtain ⟨c, hc, hreach⟩ := reaches_of_mem_placedList ts parent (i + t.size) h
          exact ⟨c, List.mem_cons_of_mem t hc, hreach⟩
      · obtain ⟨c, hc, hreach⟩ := reaches_of_mem_placedList ts parent i h
        exact ⟨c, List.mem_cons_of_mem t hc, hreach⟩

end

/-- The numbered nodes of a named tree of a list are among those of the list. -/
theorem placed_subset_placedList {c : Concrete} {ts : List Concrete} (hc : c ∈ ts)
    (hnamed : c.label.named = true) (parent i : Nat) :
    ∃ j, c.placed (some parent) j ⊆ placedList parent i ts := by
  induction ts generalizing i with
  | nil => exact absurd hc List.not_mem_nil
  | cons t ts ih =>
      rw [placedList]
      rcases List.mem_cons.mp hc with rfl | hc
      · rw [if_pos hnamed]
        exact ⟨i, List.subset_append_left _ _⟩
      · split
        · obtain ⟨j, hj⟩ := ih hc (i + t.size)
          exact ⟨j, List.subset_append_of_subset_right _ hj⟩
        · exact ih hc i

/-- Every node that named children lead to is numbered. -/
theorem exists_mem_placed {t u : Concrete} (h : t.Reaches u) (parent : Option Nat) (i : Nat) :
    ∃ p ∈ t.placed parent i, p.tree = u := by
  induction h using Relation.ReflTransGen.head_induction_on generalizing parent i with
  | refl =>
      cases u with
      | node l ts =>
          rw [placed]
          exact ⟨_, List.mem_cons_self, rfl⟩
  | @head t c hc _ ih =>
      cases t with
      | node l ts =>
          obtain ⟨hmem, hnamed⟩ := mem_namedChildren.mp hc
          obtain ⟨j, hj⟩ := placed_subset_placedList hmem hnamed i (i + 1)
          obtain ⟨p, hp, rfl⟩ := ih (some i) j
          rw [placed]
          exact ⟨p, List.mem_cons_of_mem _ (hj hp), rfl⟩

end Concrete

/-! ## Offsets -/

/-- Every character of a text is one of the first 128. -/
def Text.IsAscii (t : Text) : Prop := ∀ c ∈ t, c.toNat < 128

instance (t : Text) : Decidable t.IsAscii := inferInstanceAs (Decidable (∀ c ∈ t, c.toNat < 128))

theorem Text.utf8Size_eq_one_iff (c : Char) : c.utf8Size = 1 ↔ c.toNat < 128 := by
  rw [Char.utf8Size_eq_one_iff, UInt32.le_iff_toNat_le]
  exact Nat.lt_succ_iff.symm

theorem Text.byteLength_eq_length_iff (t : Text) : t.byteLength = t.length ↔ t.IsAscii := by
  induction t with
  | nil => exact ⟨fun _ c hc => absurd hc List.not_mem_nil, fun _ => rfl⟩
  | cons c t ih =>
      have hpos := c.utf8Size_pos
      have hle := length_le_byteLength t
      have hone := utf8Size_eq_one_iff c
      rw [IsAscii, List.forall_mem_cons, ← hone, ← IsAscii, ← ih, byteLength, List.length_cons]
      omega

/-- An offset that does not count from the end is lost exactly when a table is looked up and the
offset lies behind the end of the text. -/
theorem ByteMap.charOffset?_eq_none_iff {text : Text} {b : Int} (hb : 0 ≤ b) :
    (ofText text).charOffset? b = none ↔ ¬ text.IsAscii ∧ (text.encode.length : Int) < b := by
  by_cases hin : b ≤ text.encode.length
  · obtain ⟨o, ho, -, -⟩ := charOffset?_ofText ⟨hb, hin⟩
    rw [ho]
    exact ⟨fun h => absurd h (Option.some_ne_none o), fun h => absurd hin (Int.not_le.mpr h.2)⟩
  · rw [ofText]
    by_cases hascii : text.IsAscii
    · rw [if_pos ((Text.byteLength_eq_length_iff text).mpr hascii)]
      exact ⟨fun h => absurd h (Option.some_ne_none b), fun h => absurd hascii h.1⟩
    · rw [if_neg fun h => hascii ((Text.byteLength_eq_length_iff text).mp h)]
      have hlength : text.byteTable.length = text.encode.length + 1 := by
        rw [Text.byteTable, Text.length_byteTableFrom, Text.length_encode]
      have hplace : place? text.byteTable.toArray.size b = none := by
        rw [place?, if_neg]
        rw [if_neg (Int.not_lt.mpr hb), List.size_toArray, hlength]
        omega
      rw [charOffset?, hplace]
      exact ⟨fun _ => ⟨hascii, Int.not_le.mp hin⟩, fun _ => rfl⟩

/-! ## Obstacles -/

namespace Grammar

variable {g : Grammar} {text : Text} {t : Concrete} {p : Placed} {f : ReadFault}

/-- A node is read as a negation: it has the type of negations and the operator in its place, or it
has another type and is listed as a negation. -/
inductive IsNegation (g : Grammar) (t : Concrete) : Prop where
  | operator {field operator : String} {token : Concrete}
      (type_eq : g.negation.type = some t.label.type)
      (field_eq : g.negation.operatorField = some field)
      (operator_eq : g.negation.operator = some operator)
      (token_eq : t.childInField? field = some token)
      (same : token.label.type = operator)
  | listed (type_ne : g.negation.type ≠ some t.label.type)
      (kind_eq : g.kinds.get? t.label.type = some .negation)

/-- What lies in the way of reading a node, with the fault that it leads to. -/
inductive Obstructs (g : Grammar) (text : Text) (t : Concrete) : ReadFault → Prop where
  /-- An offset lies behind the end of the text, and offsets are looked up. -/
  | offset (wide : ¬ text.IsAscii)
      (outside : (text.encode.length : Int) < t.label.startByte ∨
        (text.encode.length : Int) < t.label.stopByte) : Obstructs g text t .offsetOutside
  /-- It is not known where operators stand. -/
  | operatorField (type_eq : g.negation.type = some t.label.type)
      (absent : g.negation.operatorField = none) : Obstructs g text t (.absent .operatorField)
  /-- Something stands in the place of the operator, but the operator is not known. -/
  | operator {field : String} {token : Concrete} (type_eq : g.negation.type = some t.label.type)
      (field_eq : g.negation.operatorField = some field)
      (token_mem : token ∈ t.children) (fills : token.label.field = some field)
      (absent : g.negation.operator = none) : Obstructs g text t (.absent .operator)
  /-- It is not known where the operands of negations stand. -/
  | operandField (negation : g.IsNegation t)
      (absent : g.negation.operandField = none) : Obstructs g text t (.absent .operandField)

theorem need_eq_ok {setting : NegationSetting} {o : Option String} {s : String} :
    need setting o = .ok s ↔ o = some s := by
  cases o <;> simp [need]

theorem need_eq_error {setting : NegationSetting} {o : Option String} :
    need setting o = .error f ↔ o = none ∧ f = .absent setting := by
  cases o <;> simp [need, eq_comm]

theorem kindOf_of_type_ne (h : g.negation.type ≠ some t.label.type) :
    g.kindOf t = .ok ((g.kinds.get? t.label.type).getD (kindByEnding t.label.type)) := by
  rw [kindOf, if_neg h]
  cases g.kinds.get? t.label.type <;> rfl

theorem kindByEnding_ne_negation (type : String) : kindByEnding type ≠ .negation := by
  unfold kindByEnding
  split_ifs <;> exact Kind.noConfusion

theorem kindOf_eq_negation_iff : g.kindOf t = .ok .negation ↔ g.IsNegation t := by
  by_cases htype : g.negation.type = some t.label.type
  · rw [kindOf, if_pos htype]
    constructor
    · intro h
      obtain ⟨field, hfield, h⟩ := bind_eq_ok.mp h
      split at h
      · cases h
      · rename_i token htoken
        obtain ⟨operator, hoperator, h⟩ := bind_eq_ok.mp h
        split_ifs at h with hsame
        · exact .operator htype (need_eq_ok.mp hfield) (need_eq_ok.mp hoperator) htoken hsame
        · cases h
    · rintro (⟨-, hfield, hoperator, htoken, hsame⟩ | ⟨hne, -⟩)
      · refine bind_eq_ok.mpr ⟨_, need_eq_ok.mpr hfield, ?_⟩
        rw [htoken]
        exact bind_eq_ok.mpr ⟨_, need_eq_ok.mpr hoperator, congrArg Except.ok (if_pos hsame)⟩
      · exact absurd htype hne
  · rw [kindOf_of_type_ne htype, Except.ok.injEq]
    constructor
    · intro h
      cases hget : g.kinds.get? t.label.type with
      | none =>
          rw [hget] at h
          exact absurd h (kindByEnding_ne_negation _)
      | some k =>
          rw [hget] at h
          exact .listed htype (hget.trans (congrArg some h))
    · rintro (⟨h, -⟩ | ⟨-, hkind⟩)
      · exact absurd h htype
      · rw [hkind]
        rfl

/-- A child fills a field exactly when the lookup of the field finds one. -/
theorem exists_childInField?_iff {field : String} :
    (∃ token, t.childInField? field = some token) ↔
      ∃ token ∈ t.children, token.label.field = some field := by
  rw [Concrete.childInField?, ← Option.isSome_iff_exists, List.find?_isSome]
  simp only [decide_eq_true_eq]

/-- The kind of a node is not found exactly when a setting is absent that its type asks for. -/
theorem kindOf_eq_error_iff :
    g.kindOf t = .error f ↔ g.negation.type = some t.label.type ∧
      (g.negation.operatorField = none ∧ f = .absent .operatorField ∨
        ∃ field, g.negation.operatorField = some field ∧
          (∃ token ∈ t.children, token.label.field = some field) ∧
          g.negation.operator = none ∧ f = .absent .operator) := by
  by_cases htype : g.negation.type = some t.label.type
  · rw [kindOf, if_pos htype, bind_eq_error, need_eq_error, and_iff_right htype]
    refine or_congr_right (exists_congr fun field => ?_)
    rw [need_eq_ok, ← exists_childInField?_iff]
    refine and_congr_right fun _ => ?_
    cases t.childInField? field with
    | none =>
        constructor
        · intro h
          cases h
        · rintro ⟨⟨token, htoken⟩, -⟩
          cases htoken
    | some token =>
        rw [and_iff_right ⟨token, rfl⟩, ← need_eq_error]
        refine bind_eq_error.trans (or_iff_left ?_)
        rintro ⟨operator, -, h⟩
        cases h
  · rw [kindOf_of_type_ne htype]
    constructor
    · intro h
      cases h
    · intro h
      exact absurd h.1 htype

theorem obstructs_of_kindOf (h : g.kindOf t = .error f) : g.Obstructs text t f := by
  obtain ⟨htype, ⟨habsent, rfl⟩ | ⟨field, hfield, ⟨token, hmem, hfills⟩, habsent, rfl⟩⟩ :=
    kindOf_eq_error_iff.mp h
  · exact .operatorField htype habsent
  · exact .operator htype hfield hmem hfills habsent

theorem roleFields_eq_error_iff {kind : Kind} :
    g.roleFields t kind = .error f ↔
      kind = .negation ∧ g.negation.operandField = none ∧ f = .absent .operandField := by
  cases kind
  case negation =>
    rw [roleFields, and_iff_right rfl, ← need_eq_error]
    refine bind_eq_error.trans (or_iff_left ?_)
    rintro ⟨field, -, h⟩
    cases h
  all_goals simp [roleFields]

/-- The roles of a node are not found when its parts are not, or when the kind of a child is not. -/
theorem of_rolesAt_eq_error {kind : Kind} (h : g.rolesAt p kind = .error f) :
    g.roleFields p.tree kind = .error f ∨ ∃ c ∈ p.tree.namedChildren, g.kindOf c = .error f := by
  rcases bind_eq_error.mp h with h | ⟨fields, -, h⟩
  · exact Or.inl h
  · split at h
    · rcases bind_eq_error.mp h with h | ⟨child, -, h⟩
      · rcases bind_eq_error.mp h with h | ⟨kinds, -, h⟩
        · exact Or.inr (exists_of_mapM_eq_error h)
        · cases h
      · cases child <;> cases h
    · cases h

theorem offsetAt_eq_error_iff {b : Int} (hb : 0 ≤ b) :
    offsetAt (ByteMap.ofText text) b = .error f ↔
      ¬ text.IsAscii ∧ (text.encode.length : Int) < b ∧ f = .offsetOutside := by
  rw [← and_assoc, ← ByteMap.charOffset?_eq_none_iff hb, offsetAt]
  cases (ByteMap.ofText text).charOffset? b <;> simp [eq_comm]

/-- A node that is not read has an obstacle at itself or at a child whose kind was asked for. -/
theorem exists_obstructs_of_nodeAt (hstart : 0 ≤ p.tree.label.startByte)
    (hstop : 0 ≤ p.tree.label.stopByte) (h : g.nodeAt (ByteMap.ofText text) p = .error f) :
    ∃ t, p.tree.Reaches t ∧ g.Obstructs text t f := by
  rcases bind_eq_error.mp h with h | ⟨kind, hkind, h⟩
  · exact ⟨_, .refl, obstructs_of_kindOf h⟩
  rcases bind_eq_error.mp h with h | ⟨roles, -, h⟩
  · rcases of_rolesAt_eq_error h with h | ⟨c, hc, h⟩
    · obtain ⟨rfl, habsent, rfl⟩ := roleFields_eq_error_iff.mp h
      exact ⟨_, .refl, .operandField (kindOf_eq_negation_iff.mp hkind) habsent⟩
    · exact ⟨c, .single hc, obstructs_of_kindOf h⟩
  rcases bind_eq_error.mp h with h | ⟨start, -, h⟩
  · obtain ⟨hwide, hout, rfl⟩ := (offsetAt_eq_error_iff hstart).mp h
    exact ⟨_, .refl, .offset hwide (Or.inl hout)⟩
  rcases bind_eq_error.mp h with h | ⟨stop, -, h⟩
  · obtain ⟨hwide, hout, rfl⟩ := (offsetAt_eq_error_iff hstop).mp h
    exact ⟨_, .refl, .offset hwide (Or.inr hout)⟩
  cases h

/-- A node with an obstacle is not read. -/
theorem Obstructs.nodeAt_ne_ok (h : g.Obstructs text p.tree f)
    (hstart : 0 ≤ p.tree.label.startByte) (hstop : 0 ≤ p.tree.label.stopByte) (n : Node) :
    g.nodeAt (ByteMap.ofText text) p ≠ .ok n := by
  intro hok
  have hreads := nodeAt_eq_ok.mp hok
  cases h with
  | offset hwide hout =>
      rcases hout with hout | hout
      · cases hreads.start_eq.symm.trans ((offsetAt_eq_error_iff hstart).mpr ⟨hwide, hout, rfl⟩)
      · cases hreads.stop_eq.symm.trans ((offsetAt_eq_error_iff hstop).mpr ⟨hwide, hout, rfl⟩)
  | operatorField htype habsent =>
      have herror := kindOf_eq_error_iff.mpr ⟨htype, Or.inl ⟨habsent, rfl⟩⟩
      cases hreads.kind_eq.symm.trans herror
  | operator htype hfield hmem hfills habsent =>
      have herror := kindOf_eq_error_iff.mpr
        ⟨htype, Or.inr ⟨_, hfield, ⟨_, hmem, hfills⟩, habsent, rfl⟩⟩
      cases hreads.kind_eq.symm.trans herror
  | operandField hnegation habsent =>
      have hkind := Except.ok.inj (hreads.kind_eq.symm.trans (kindOf_eq_negation_iff.mpr hnegation))
      obtain ⟨fields, hfields, -⟩ := bind_eq_ok.mp hreads.roles_eq
      cases hfields.symm.trans (roleFields_eq_error_iff.mpr ⟨hkind, habsent, rfl⟩)

/-! ## Trees -/

variable {root : Concrete}

theorem exists_obstructs_of_nodesOf
    (hbytes : ∀ l ∈ root.labels, 0 ≤ l.startByte ∧ 0 ≤ l.stopByte)
    (h : g.nodesOf text root = .error f) : ∃ t, root.Reaches t ∧ g.Obstructs text t f := by
  obtain ⟨p, hp, hnode⟩ := exists_of_mapM_eq_error h
  obtain ⟨hstart, hstop⟩ := hbytes _ (label_mem_labels hp)
  obtain ⟨t, hreach, hobs⟩ := exists_obstructs_of_nodeAt hstart hstop hnode
  exact ⟨t, (Concrete.reaches_of_mem_placed root none 0 hp).trans hreach, hobs⟩

theorem Obstructs.nodesOf_ne_ok (h : g.Obstructs text t f) (hreach : root.Reaches t)
    (hbytes : ∀ l ∈ root.labels, 0 ≤ l.startByte ∧ 0 ≤ l.stopByte) (nodes : List Node) :
    g.nodesOf text root ≠ .ok nodes := by
  intro hok
  obtain ⟨p, hp, rfl⟩ := Concrete.exists_mem_placed hreach none 0
  obtain ⟨hstart, hstop⟩ := hbytes _ (label_mem_labels hp)
  obtain ⟨n, hn⟩ := exists_of_mem_of_mapM_eq_ok hok hp
  exact h.nodeAt_ne_ok hstart hstop n hn

end Grammar

/-! ## Texts -/

section

variable {g : Grammar} {name : String} {parsed : Parsed}

/-- Under a name, parsing fails when there is no tree, and when the tree is not read. -/
theorem Grammar.parse_eq_error_iff (hname : g.name = some name) {text : Text} {e : ParseError} :
    g.parse text parsed = .error e ↔
      (parsed.root = none ∧ e = .unreadable name .noRoot) ∨
        ∃ root f, parsed.root = some root ∧ g.nodesOf text root = .error f ∧
          e = .unreadable name f := by
  rw [parse, hname]
  dsimp only
  cases parsed.root with
  | none => simp [eq_comm]
  | some root =>
      cases hnodes : g.nodesOf text root with
      | error f => simp [hnodes, eq_comm]
      | ok nodes => simp [hnodes]

/-- A text is not parsed exactly when there is no tree or there is an obstacle at a node of the tree
that named children lead to. The error names the language and tells one of these. -/
theorem parse_fails_iff (hname : g.name = some name) (hbytes : parsed.BytesNonneg) (text : Text) :
    ((∃ e, g.parse text parsed = .error e) ↔
      parsed.root = none ∨
        ∃ root t f, parsed.root = some root ∧ root.Reaches t ∧ g.Obstructs text t f) ∧
    ∀ e, g.parse text parsed = .error e →
      ∃ f, e = .unreadable name f ∧
        e.message = "Failed to parse " ++ name ++ " source: " ++ f.message ∧
        ((parsed.root = none ∧ f = .noRoot) ∨
          ∃ root t, parsed.root = some root ∧ root.Reaches t ∧ g.Obstructs text t f) := by
  have htells : ∀ e, g.parse text parsed = .error e → ∃ f, e = .unreadable name f ∧
      ((parsed.root = none ∧ f = .noRoot) ∨
        ∃ root t, parsed.root = some root ∧ root.Reaches t ∧ g.Obstructs text t f) := by
    intro e h
    rcases (Grammar.parse_eq_error_iff hname).mp h with ⟨hroot, rfl⟩ | ⟨root, f, hroot, hf, rfl⟩
    · exact ⟨_, rfl, Or.inl ⟨hroot, rfl⟩⟩
    · obtain ⟨t, hreach, hobs⟩ := Grammar.exists_obstructs_of_nodesOf (hbytes root hroot) hf
      exact ⟨f, rfl, Or.inr ⟨root, t, hroot, hreach, hobs⟩⟩
  refine ⟨⟨?_, ?_⟩, ?_⟩
  · rintro ⟨e, h⟩
    obtain ⟨f, -, ⟨hroot, -⟩ | ⟨root, t, hat⟩⟩ := htells e h
    · exact Or.inl hroot
    · exact Or.inr ⟨root, t, f, hat⟩
  · rintro (hroot | ⟨root, t, f, hroot, hreach, hobs⟩)
    · exact ⟨_, (Grammar.parse_eq_error_iff hname).mpr (Or.inl ⟨hroot, rfl⟩)⟩
    · cases hnodes : g.nodesOf text root with
      | error f =>
          exact ⟨_, (Grammar.parse_eq_error_iff hname).mpr (Or.inr ⟨root, f, hroot, hnodes, rfl⟩)⟩
      | ok nodes => exact absurd hnodes (hobs.nodesOf_ne_ok hreach (hbytes root hroot) nodes)
  · intro e h
    obtain ⟨f, rfl, hat⟩ := htells e h
    exact ⟨f, rfl, rfl, hat⟩

end

/-- A grammar that knows where operators stand and not which one negates. -/
def operatorless : Grammar :=
  { Bundled.typescript.grammar with
    negation := ⟨some "unary_expression", some "operator", none, some "argument"⟩ }

/-- The tree of a negation with a character of two bytes. The offsets of an unnamed node lie behind
the end of the text. -/
def negatedName : Concrete :=
  .node ⟨"program", 0, 3, none, true⟩ [
    .node ⟨"unary_expression", 0, 3, none, true⟩ [
      .node ⟨"!", 0, 1, some "operator", false⟩ [],
      .node ⟨"identifier", 1, 3, some "argument", true⟩ []],
    .node ⟨"MISSING", 8, 9, none, false⟩ [
      .node ⟨"identifier", 8, 9, none, true⟩ []]]

theorem parse_fails_iff_operatorless :
    operatorless.name = some "typescript" ∧
    Parsed.BytesNonneg ⟨some negatedName, true⟩ ∧
    operatorless.parse "!é".toList ⟨some negatedName, true⟩ =
      .error (.unreadable "typescript" (.absent .operator)) ∧
    (∃ root t f, some negatedName = some root ∧ root.Reaches t ∧
      operatorless.Obstructs "!é".toList t f) ∧
    ∃ a, Bundled.typescript.grammar.parse "!é".toList ⟨some negatedName, true⟩ = .ok a := by
  have hbytes : Parsed.BytesNonneg ⟨some negatedName, true⟩ := by
    intro root hroot
    obtain rfl := Option.some.inj hroot
    decide
  have herror : operatorless.parse "!é".toList ⟨some negatedName, true⟩ =
      .error (.unreadable "typescript" (.absent .operator)) := rfl
  have hfails := (parse_fails_iff rfl hbytes "!é".toList).1.mp ⟨_, herror⟩
  exact ⟨rfl, hbytes, herror, hfails.resolve_left (Option.some_ne_none _), _, rfl⟩

end GuardClause
