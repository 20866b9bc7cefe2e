import SymbolAtlas.Proofs.Text.Rows
import SymbolAtlas.Symbol.Listing

/-!
# The lines of listed symbols

A symbol is listed with the line on which its node starts, and this line is one of the text
(`Source.line_of_mem_symbols`), wherever the tree says that the node lies: rows are counted in the
bytes, and a text has as many lines as its bytes have rows.
-/

namespace SymbolAtlas

namespace Utf8

/-- A text has a line for each row of its bytes. -/
theorem length_lines_of_encode {t : Text} {bs : Bytes} (h : encode t = .ok bs) :
    (Text.lines t).length = bs.count newlineByte + 1 := by
  obtain ⟨hencodable, rfl⟩ := encode_eq_ok_iff.mp h
  -- Each code point is put beside the bytes that it is written as.
  let points := t.map fun c => (c, (encodePoint? c).getD [])
  have hpoint : ∀ p ∈ points, encodePoint? p.1 = some p.2 := by
    intro p hp
    obtain ⟨c, hc, rfl⟩ := List.mem_map.mp hp
    obtain ⟨o, ho⟩ := Option.isSome_iff_exists.mp (hencodable c hc)
    simp [ho]
  have htext : points.map Prod.fst = t := by simp [points, Function.comp_def]
  have hrows := map_rowsOf_snd fun p hp => newlineByte_mem_iff (hpoint p hp)
  have hlines := map_rowsOf_fst fun p hp => eq_newlinePoint (hpoint p hp)
  rw [← encodeLossy_map_fst hpoint, htext] at hrows
  rw [htext] at hlines
  obtain ⟨front, hfront, hcount⟩ := Text.separate_eq_concat newlineByte (encodeLossy t)
  rw [← hcount, ← hlines, List.length_map]
  have hlength := congrArg List.length (hrows.trans hfront)
  simpa using hlength

end Utf8

namespace Source

variable (src : Source)

/-- Wherever a node starts, it starts on a line of the text. -/
theorem lineOf_le (n : Node) : src.lineOf n ≤ (Text.lines src.text).length := by
  rw [Utf8.length_lines_of_encode src.encode_text]
  exact Nat.succ_le_succ ((List.take_sublist _ _).count_le _)

variable {src} {above : List Node} {depth : Nat} {owner : Option Text} {e : Listed}

theorem line_of_mem_listExport {n : Node} (he : e ∈ src.listExport above n) :
    e.symbol.line = src.lineOf e.node := by
  unfold listExport at he
  split at he
  · obtain rfl := List.mem_singleton.mp he
    rfl
  · simp at he

theorem line_of_mem_listVariable {n : Node} (he : e ∈ src.listVariable above n) :
    e.symbol.line = src.lineOf e.node := by
  unfold listVariable at he
  split at he
  · simp at he
  split at he
  · obtain rfl := List.mem_singleton.mp he
    rfl
  · simp at he

theorem line_of_mem_listDeclaration {n : Node} {kind : SymbolKind}
    (he : e ∈ src.listDeclaration above n kind owner) : e.symbol.line = src.lineOf e.node := by
  unfold listDeclaration at he
  split at he
  · obtain rfl := List.mem_singleton.mp he
    rfl
  · simp at he

mutual

theorem line_of_mem_listNode : ∀ {n : Node} {above : List Node} {depth : Nat}
    {owner : Option Text} {e : Listed}, e ∈ src.listNode above depth owner n →
    e.symbol.line = src.lineOf e.node
  | .mk t b stop cs rs named, above, depth, owner, e, he => by
    simp only [listNode] at he
    split at he
    · split at he
      · exact line_of_mem_listNodeAt he
      · simp at he
    split at he
    · exact line_of_mem_listNodes he
    split at he
    · exact line_of_mem_listNodes he
    split at he
    · split at he
      · exact line_of_mem_listExport he
      · simp at he
    split at he
    · split at he
      · exact line_of_mem_listVariable he
      · simp at he
    split at he
    · exact line_of_mem_listDeclaration he
    split at he
    · -- The declaration comes first, what is listed inside it behind.
      split at he
      next entry hentry =>
        rcases List.mem_cons.mp he with rfl | he
        · exact line_of_mem_listDeclaration (hentry ▸ List.mem_singleton_self e)
        · exact line_of_mem_listNodes he
      next =>
        rcases List.mem_append.mp he with he | he
        · exact line_of_mem_listDeclaration he
        · exact line_of_mem_listNodes he
    · exact line_of_mem_listNodes he

theorem line_of_mem_listNodes : ∀ {cs above : List Node} {depth : Nat}
    {owner : Option Text} {e : Listed}, e ∈ src.listNodes above depth owner cs →
    e.symbol.line = src.lineOf e.node
  | [], _, _, _, e, he => by simp [listNodes] at he
  | c :: cs, _, _, _, e, he => by
    rw [listNodes, List.mem_append] at he
    rcases he with he | he
    · exact line_of_mem_listNode he
    · exact line_of_mem_listNodes he

theorem line_of_mem_listNodeAt : ∀ {cs above : List Node} {depth : Nat}
    {owner : Option Text} {i : Nat} {e : Listed}, e ∈ src.listNodeAt above depth owner cs i →
    e.symbol.line = src.lineOf e.node
  | [], _, _, _, _, e, he => by simp [listNodeAt] at he
  | c :: cs, _, _, _, 0, e, he => by
    rw [listNodeAt] at he
    exact line_of_mem_listNode he
  | c :: cs, _, _, _, i + 1, e, he => by
    rw [listNodeAt] at he
    exact line_of_mem_listNodeAt he

end

/-- The line of a listed symbol is one of the text. -/
theorem line_of_mem_symbols {s : Symbol} (hs : s ∈ src.symbols) :
    1 ≤ s.line ∧ s.line ≤ (Text.lines src.text).length := by
  obtain ⟨e, he, rfl⟩ := List.mem_map.mp hs
  rw [line_of_mem_listNode he]
  exact ⟨Nat.succ_pos _, src.lineOf_le e.node⟩

end Source

end SymbolAtlas
