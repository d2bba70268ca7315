import GuardClause.Text.Slice

/-!
# Bytes and characters

A parser counts the bytes of a text in UTF-8, the rest of the library counts characters. The byte
table of a text lists, for every byte, the index of the character that the byte belongs to, and
has one more entry for the end. A text of one-byte characters needs no table: bytes and characters
are numbered alike.
-/

namespace GuardClause.Text

/-- The number of bytes of a text in UTF-8. -/
def byteLength : Text → Nat
  | [] => 0
  | c :: rest => c.utf8Size + byteLength rest

/-- The byte table of a text whose first character has index `i`. -/
def byteTableFrom (i : Nat) : Text → List Nat
  | [] => [i]
  | c :: rest => List.replicate c.utf8Size i ++ byteTableFrom (i + 1) rest

/-- For every byte of the text the index of its character, and the length of the text last. -/
def byteTable (t : Text) : List Nat := byteTableFrom 0 t

theorem length_byteTableFrom (t : Text) (i : Nat) :
    (byteTableFrom i t).length = byteLength t + 1 := by
  induction t generalizing i with
  | nil => rfl
  | cons c rest ih => simp [byteTableFrom, ih, byteLength]; omega

end GuardClause.Text

namespace GuardClause

/-- How byte offsets become character offsets. -/
inductive ByteMap where
  /-- Every character has one byte, so that offsets stay as they are. -/
  | same
  /-- Offsets are looked up in a byte table. -/
  | table (entries : Array Nat)

namespace ByteMap

/-- The map of a text: no table is built when there are as many bytes as characters. -/
def ofText (t : Text) : ByteMap :=
  if t.byteLength = t.length then .same else .table t.byteTable.toArray

/-- The character offset of a byte offset, if the map covers it. Without a table every offset is
covered. -/
def charOffset? : ByteMap → Int → Option Int
  | .same, b => some b
  | .table entries, b => do
      let place ← place? entries.size b
      let offset ← entries[place]?
      pure offset

end ByteMap

end GuardClause
