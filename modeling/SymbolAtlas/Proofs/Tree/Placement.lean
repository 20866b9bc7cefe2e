import SymbolAtlas.Proofs.Edit.Replacement
import SymbolAtlas.Proofs.Text.Rows

/-!
# Places of nodes

A node is placed in some bytes if it starts and ends on boundaries of their reading, in this order
(`Node.Placed`). The range of a placed node is always known, and it runs between the texts that the
bytes before its start and the bytes before its end are read as (`rangeOf_of_placed`). So replacing
it leaves all other bytes as they are (`replaceRange_of_placed`).
-/

namespace SymbolAtlas

/-- A node that starts and ends between code points of the reading of some bytes. -/
structure Node.Placed (bs : Bytes) (n : Node) : Prop where
  nonneg : 0 ≤ n.start
  ordered : n.start ≤ n.stop
  inside : n.stop ≤ bs.length
  start : Utf8.IsBoundary bs n.start.toNat
  stop : Utf8.IsBoundary bs n.stop.toNat

instance (bs : Bytes) (n : Node) : Decidable (n.Placed bs) :=
  decidable_of_iff ((0 ≤ n.start ∧ n.start ≤ n.stop ∧ n.stop ≤ bs.length) ∧
    Utf8.IsBoundary bs n.start.toNat ∧ Utf8.IsBoundary bs n.stop.toNat)
    ⟨fun ⟨⟨h₁, h₂, h₃⟩, h₄, h₅⟩ => ⟨h₁, h₂, h₃, h₄, h₅⟩,
      fun ⟨h₁, h₂, h₃, h₄, h₅⟩ => ⟨⟨h₁, h₂, h₃⟩, h₄, h₅⟩⟩

namespace Source

open Utf8 (decode)

theorem endRow_decode (bs : Bytes) : Text.endRow (decode bs) = bs.count newlineByte := by
  obtain ⟨front, hfront, hlen⟩ := Text.separate_eq_concat newlineByte bs
  have h := Utf8.lines_decode bs
  rw [hfront, List.map_append, List.map_singleton] at h
  rw [(Text.last_of_lines h).2, List.length_map, hlen]

theorem lastLine_decode (bs : Bytes) :
    Text.lastLine (decode bs) = decode (Text.lastPart newlineByte bs) := by
  obtain ⟨front, hfront, -⟩ := Text.separate_eq_concat newlineByte bs
  have h := Utf8.lines_decode bs
  rw [hfront, List.map_append, List.map_singleton] at h
  exact (Text.last_of_lines h).1

/-- The row of a cut is counted by the newlines before it. -/
theorem point_natCast {bs : Bytes} {k : Nat} (h : k ≤ bs.length) :
    point bs k = (Text.endRow (decode (bs.take k)),
      (Text.lastPart newlineByte (bs.take k)).length) := by
  have hbefore : Offset.before bs k = bs.take k := by
    rw [Offset.before, Offset.cut_natCast, Nat.min_eq_left h]
  simp [point, hbefore, Text.lastPart, endRow_decode]

/-- The column of a cut in code points is the length of the last line before it. -/
theorem column_point {bs : Bytes} {k : Nat} (h : k ≤ bs.length) :
    column bs (point bs k).1 (point bs k).2 = .ok (Text.endColumn (decode (bs.take k)) : Nat) := by
  obtain ⟨front, hfront, hlen⟩ := Text.separate_eq_concat newlineByte (bs.take k)
  have hne : Text.separate newlineByte (bs.drop k) ≠ [] := Text.separate_ne_nil _
  obtain ⟨first, rear, hrear⟩ := List.exists_cons_of_ne_nil hne
  have hrows := Text.separate_append hfront hrear
  rw [List.take_append_drop] at hrows
  rw [← endRow_decode] at hlen
  have hlt : ¬ ((Text.separate newlineByte bs).length : Int) ≤
      (Text.endRow (decode (bs.take k)) : Nat) := by
    rw [hrows, ← hlen, List.length_append, List.length_cons]
    omega
  have hrow : (Text.separate newlineByte bs)[Text.endRow (decode (bs.take k))]? =
      some (Text.lastPart newlineByte (bs.take k) ++ first) := by
    rw [hrows, ← hlen]
    simp
  rw [point_natCast h]
  simp only [column, if_neg hlt, Offset.element?_natCast, hrow, Offset.before_append,
    Text.endColumn, lastLine_decode]

/-- The range of a placed node runs between the places where it starts and ends. -/
theorem rangeOf_of_placed (src : Source) {n : Node} (h : n.Placed src.bytes) :
    ∃ r, src.rangeOf n = .ok r ∧
      r.RunsBetween (decode (src.bytes.take n.start.toNat))
        (decode (src.bytes.take n.stop.toNat)) := by
  have hnonneg := h.nonneg
  have hordered := h.ordered
  have hinside := h.inside
  obtain ⟨i, hi⟩ : ∃ i : Nat, n.start = i := ⟨n.start.toNat, by omega⟩
  obtain ⟨j, hj⟩ : ∃ j : Nat, n.stop = j := ⟨n.stop.toNat, by omega⟩
  have hi' : i ≤ src.bytes.length := by omega
  have hj' : j ≤ src.bytes.length := by omega
  have hstart := column_point hi'
  have hstop := column_point hj'
  -- What is read up to the start is read up to the end first, so the range is in order.
  have hwithin := h.start.decode_take h.stop (by omega) (by omega)
  rw [hi, hj, Int.toNat_natCast, Int.toNat_natCast] at hwithin ⊢
  have hplace :=
    Text.place_le_append (decode (src.bytes.take i)) (decode ((src.bytes.take j).drop i))
  rw [← hwithin] at hplace
  rw [point_natCast hi'] at hstart
  rw [point_natCast hj'] at hstop
  simp only [rangeOf, hi, hj, point_natCast hi', point_natCast hj', hstart, hstop, SourceRange.of]
  rw [dif_pos (by omega)]
  exact ⟨_, rfl, rfl, rfl, rfl, rfl⟩

/-! ## The texts around a node -/

/-- What the bytes before a node are read as. -/
def textBefore (src : Source) (n : Node) : Text := decode (src.bytes.take n.start.toNat)

/-- What the bytes of a node are read as. -/
def textWithin (src : Source) (n : Node) : Text :=
  decode ((src.bytes.take n.stop.toNat).drop n.start.toNat)

/-- What the bytes behind a node are read as. -/
def textBehind (src : Source) (n : Node) : Text := decode (src.bytes.drop n.stop.toNat)

theorem textBefore_append_textWithin (src : Source) {n : Node} (h : n.Placed src.bytes) :
    src.textBefore n ++ src.textWithin n = decode (src.bytes.take n.stop.toNat) := by
  have hordered := h.ordered
  have hinside := h.inside
  exact (h.start.decode_take h.stop (by omega) (by omega)).symm

/-- The texts before, within and behind a placed node make up the whole text. -/
theorem textBefore_append_append (src : Source) {n : Node} (h : n.Placed src.bytes) :
    src.textBefore n ++ src.textWithin n ++ src.textBehind n = decode src.bytes := by
  rw [textBefore_append_textWithin src h, h.stop.decode_eq]
  rfl

/-- The text of a source with another text in the place of a node. -/
def textWith (src : Source) (n : Node) (new : Text) : Text :=
  src.textBefore n ++ new ++ src.textBehind n

/-- Another text in the place of a node leaves the bytes on either side of it as they are. -/
theorem encode_textWith (src : Source) (n : Node) {new : Text} {encoded : Bytes}
    (h : Utf8.encode new = .ok encoded) : Utf8.encode (src.textWith n new) =
      .ok (src.bytes.take n.start.toNat ++ encoded ++ src.bytes.drop n.stop.toNat) :=
  Utf8.encode_append (Utf8.encode_append (Utf8.encode_decode _) h) (Utf8.encode_decode _)

/-- Replacing the range of a placed node puts the new text in the place of the node. -/
theorem replaceRange_of_placed (src : Source) {n : Node} (h : n.Placed src.bytes) (new : Text) :
    ∃ r, src.rangeOf n = .ok r ∧
      Splice.replaceRange (decode src.bytes) r new = .ok (src.textWith n new) := by
  obtain ⟨r, hr, hruns⟩ := src.rangeOf_of_placed h
  rw [← textBefore_append_textWithin src h] at hruns
  refine ⟨r, hr, ?_⟩
  rw [← textBefore_append_append src h]
  exact Splice.replaceRange_eq_append hruns

end Source

end SymbolAtlas
