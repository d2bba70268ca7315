import GuardClause.Language.Bundled
import GuardClause.Proofs.Layout.Decode
import GuardClause.Proofs.Text.Encoding

/-!
# From bytes to characters

A parser gives stretches in bytes and an arena keeps them in characters. For offsets that lie in
the text both ways of converting them, with a byte table and without, find the character that holds
the byte (`charOffset?_ofText`), so that the shortcut for texts of one-byte characters cannot be
told from the table. `parse_offsets` collects what this means for an arena: the text of a node is
the stretch of bytes that the parser saw, and stretches that are nested or follow one another still
do.
-/

namespace GuardClause

/-- An offset in bytes that lies in a text or at its end. -/
def Text.InRange (t : Text) (b : Int) : Prop := 0 ≤ b ∧ b ≤ t.encode.length

instance (t : Text) (b : Int) : Decidable (t.InRange b) := inferInstanceAs (Decidable (_ ∧ _))

/-- Offset `o` in characters is the place that holds offset `b` in bytes. -/
def Text.Locates (t : Text) (b o : Int) : Prop := ∃ m k : Nat, b = m ∧ o = k ∧ t.Holds k m

theorem Text.Locates.mono {t : Text} {b c o p : Int} (ho : t.Locates b o) (hp : t.Locates c p)
    (h : b ≤ c) : o ≤ p := by
  obtain ⟨m, k, rfl, rfl, hk⟩ := ho
  obtain ⟨n, l, rfl, rfl, hl⟩ := hp
  exact Int.ofNat_le.mpr (hk.mono hl (Int.ofNat_le.mp h))

namespace ByteMap

theorem charOffset?_table {t : Text} {k m : Nat} (h : t.Holds k m) :
    (table t.byteTable.toArray).charOffset? m = some (k : Int) := by
  have hlength : m < t.byteTable.length := by
    have hm := h.le_length_encode
    rw [Text.length_encode] at hm
    rw [Text.byteTable, Text.length_byteTableFrom]
    omega
  have hplace : place? t.byteTable.length m = some m := place?_natCast hlength
  have hentry : t.byteTable[m]? = some k := Text.getElem?_byteTable h
  simp [charOffset?, hplace, hentry]

/-- Every offset in range is covered, with a table or without, and becomes the place that holds
it. -/
theorem charOffset?_ofText {t : Text} {b : Int} (h : t.InRange b) :
    ∃ o, (ofText t).charOffset? b = some o ∧ (table t.byteTable.toArray).charOffset? b = some o ∧
      t.Locates b o := by
  obtain ⟨m, rfl⟩ := Int.eq_ofNat_of_zero_le h.1
  have hm : m ≤ t.encode.length := Int.ofNat_le.mp h.2
  obtain ⟨k, hk⟩ := Text.exists_holds hm
  refine ⟨k, ?_, charOffset?_table hk, m, k, rfl, rfl, hk⟩
  unfold ofText
  split
  · rename_i heq
    -- Without a table the offset stays as it is, and so does the place that holds it.
    rw [Text.length_encode, heq] at hm
    have hmk : m = k := (Text.holds_of_byteLength_eq heq hm).unique hk
    rw [hmk]
    rfl
  · exact charOffset?_table hk

end ByteMap

/-- The labels that parsing looks at. -/
def Concrete.labels (root : Concrete) : List Label := (root.rose.pruned Label.named).preorder

/-- All offsets of a tree lie in a text. -/
def Concrete.FitsIn (root : Concrete) (text : Text) : Prop :=
  ∀ l ∈ root.labels, text.InRange l.startByte ∧ text.InRange l.stopByte

instance (root : Concrete) (text : Text) : Decidable (root.FitsIn text) :=
  inferInstanceAs (Decidable (∀ l ∈ root.labels, _))

/-- The nodes of a concrete syntax tree when offsets are converted by `map`. -/
def Grammar.nodesThrough (g : Grammar) (map : ByteMap) (root : Concrete) :
    Except ReadFault (List Node) :=
  (root.placed none 0).mapM (g.nodeAt map)

/-- The stretch of a node is the stretch of bytes that a label gives. -/
structure Arena.Covers (a : Arena) (n : Node) (l : Label) : Prop where
  start : a.buffer.text.Locates l.startByte n.start
  stop : a.buffer.text.Locates l.stopByte n.stop
  encode_textOf : ∀ b c : Nat, l.startByte = b → l.stopByte = c → b ≤ c →
    a.buffer.text.Boundary b → a.buffer.text.Boundary c →
    (a.textOf n).encode = (a.buffer.text.encode.take c).drop b

theorem Arena.covers_of_locates {a : Arena} {n : Node} {l : Label}
    (hstart : a.buffer.text.Locates l.startByte n.start)
    (hstop : a.buffer.text.Locates l.stopByte n.stop) : a.Covers n l := by
  refine ⟨hstart, hstop, ?_⟩
  intro b c hb hc hle hbound hcound
  obtain ⟨m, k, hm, hk, hhold⟩ := hstart
  obtain ⟨m', k', hm', hk', hhold'⟩ := hstop
  obtain rfl : m = b := Int.ofNat.inj (hm.symm.trans hb)
  obtain rfl : m' = c := Int.ofNat.inj (hm'.symm.trans hc)
  rw [Arena.textOf, hk, hk']
  exact Text.encode_slice hhold hhold' hbound hcound hle

theorem locates_of_offsetAt {t : Text} {b o : Int} (h : t.InRange b)
    (ho : Grammar.offsetAt (ByteMap.ofText t) b = .ok o) : t.Locates b o := by
  obtain ⟨p, hp, -, hloc⟩ := ByteMap.charOffset?_ofText h
  rw [Grammar.offsetAt, hp] at ho
  obtain rfl := Except.ok.inj ho
  exact hloc

theorem offsetAt_ofText {t : Text} {b : Int} (h : t.InRange b) :
    Grammar.offsetAt (ByteMap.ofText t) b =
      Grammar.offsetAt (.table t.byteTable.toArray) b := by
  obtain ⟨o, ho, ho', -⟩ := ByteMap.charOffset?_ofText h
  rw [Grammar.offsetAt, Grammar.offsetAt, ho, ho']

/-- The labels of the numbered nodes are the labels that parsing looks at. -/
theorem label_mem_labels {root : Concrete} {p : Placed} (h : p ∈ root.placed none 0) :
    p.tree.label ∈ root.labels := by
  rw [Concrete.placed_eq_walk] at h
  obtain ⟨k, hk, rfl⟩ := List.mem_mapIdx.mp h
  rw [Concrete.labels, ← Rose.map_value_walk, Concrete.placedAt, Concrete.label_ofRose]
  exact List.mem_map_of_mem (List.getElem_mem hk)

/-- For offsets in range the shortcut without a table cannot be told from the table. -/
theorem nodesOf_eq_nodesThrough {g : Grammar} {text : Text} {root : Concrete}
    (h : root.FitsIn text) :
    g.nodesOf text root = g.nodesThrough (.table text.byteTable.toArray) root := by
  rw [Grammar.nodesOf, Grammar.nodesThrough]
  apply mapM_congr
  intro p hp
  obtain ⟨hstart, hstop⟩ := h _ (label_mem_labels hp)
  rw [Grammar.nodeAt, Grammar.nodeAt, offsetAt_ofText hstart, offsetAt_ofText hstop]

/-- Stretches in bytes become stretches in characters. Every offset in range is converted to the
place that holds it; the shortcut for texts of one-byte characters finds the same nodes as the byte
table; later offsets stay later; and in an arena the nodes cover what their labels give, nested as
the labels are. -/
theorem parse_offsets (g : Grammar) (text : Text) (root : Concrete) (hasError : Bool)
    (hfit : root.FitsIn text) :
    (∀ b, text.InRange b →
      ∃ o, (ByteMap.ofText text).charOffset? b = some o ∧ text.Locates b o) ∧
    g.nodesOf text root = g.nodesThrough (.table text.byteTable.toArray) root ∧
    (∀ b c o p, text.Locates b o → text.Locates c p → b ≤ c → o ≤ p) ∧
    ∀ a, g.parse text ⟨some root, hasError⟩ = .ok a →
      List.Forall₂ a.Covers a.nodes.toList root.labels ∧
      ((root.rose.pruned Label.named).WellNested Label.startByte Label.stopByte →
        ∃ d, a.decode = .ok d ∧ d.preorder = a.nodes.toList ∧
          d.WellNested Node.start Node.stop) := by
  refine ⟨?_, nodesOf_eq_nodesThrough hfit, ?_, ?_⟩
  · intro b hb
    obtain ⟨o, ho, -, hloc⟩ := ByteMap.charOffset?_ofText hb
    exact ⟨o, ho, hloc⟩
  · intro b c o p ho hp hle
    exact ho.mono hp hle
  · intro a h
    obtain ⟨language, _, nodes, -, hroot, hnodes, rfl⟩ := Grammar.parse_eq_ok.mp h
    obtain rfl := Option.some.inj hroot
    obtain ⟨d, hd, hm, hp⟩ := decode_of_nodesOf hnodes language
    have hcov : Rose.Matches (Arena.Covers ⟨language, ⟨text⟩, nodes.toArray, 0⟩) d
        (root.rose.pruned Label.named) := by
      apply hm.imp_of_mem
      rintro n _ hl ⟨p, rfl, hr⟩
      obtain ⟨hstart, hstop⟩ := hfit _ hl
      exact Arena.covers_of_locates (locates_of_offsetAt hstart hr.start_eq)
        (locates_of_offsetAt hstop hr.stop_eq)
    refine ⟨?_, ?_⟩
    · have hall := hcov.preorder
      rwa [hp] at hall
    · intro hnest
      refine ⟨d, hd, hp, hcov.wellNested ?_ hnest⟩
      intro n m l k hn hk
      exact ⟨hn.start.mono hk.start, hn.stop.mono hk.stop, hn.stop.mono hk.start⟩

/-- The tree of a conditional expression over characters of two, three and four bytes. -/
def wideConditional : Concrete :=
  .node ⟨"program", 0, 12, none, true⟩ [
    .node ⟨"ternary_expression", 0, 11, none, true⟩ [
      .node ⟨"identifier", 0, 2, some "condition", true⟩ [],
      .node ⟨"?", 2, 3, none, false⟩ [],
      .node ⟨"identifier", 3, 6, some "consequence", true⟩ [],
      .node ⟨":", 6, 7, none, false⟩ [],
      .node ⟨"identifier", 7, 11, some "alternative", true⟩ []]]

theorem wellNested_wideConditional :
    (wideConditional.rose.pruned Label.named).WellNested Label.startByte Label.stopByte := by
  have leaf : ∀ l, (Rose.node l []).WellNested Label.startByte Label.stopByte := fun l =>
    .node (by simp) List.Pairwise.nil (by simp)
  refine .node (by decide) (by decide) (List.forall_mem_singleton.mpr ?_)
  refine .node (by decide) (by decide) (List.forall_mem_cons.mpr ⟨leaf _, ?_⟩)
  exact List.forall_mem_cons.mpr ⟨leaf _, List.forall_mem_singleton.mpr (leaf _)⟩

theorem parse_offsets_wideConditional :
    wideConditional.FitsIn "é?…:😀\n".toList ∧
    ∃ a, Bundled.typescript.grammar.parse "é?…:😀\n".toList ⟨some wideConditional, false⟩ = .ok a ∧
      a.nodes.toList.map (fun n => (n.start, n.stop)) = [(0, 6), (0, 5), (0, 1), (2, 3), (4, 5)] ∧
      List.Forall₂ a.Covers a.nodes.toList wideConditional.labels ∧
      ∃ d, a.decode = .ok d ∧ d.preorder = a.nodes.toList ∧
        d.WellNested Node.start Node.stop := by
  have hfit : wideConditional.FitsIn "é?…:😀\n".toList := by decide
  refine ⟨hfit, _, rfl, rfl, ?_⟩
  obtain ⟨hcov, hnest⟩ :=
    (parse_offsets Bundled.typescript.grammar _ wideConditional false hfit).2.2.2 _ rfl
  exact ⟨hcov, hnest wellNested_wideConditional⟩

end GuardClause
