import SymbolAtlas.Proofs.Symbol.FirstListed

/-!
# When a symbol can be placed

A located symbol comes with the range of its node and with the range of an export statement or a
decorator directly around it. Ranges that end before they start are refused, and this is the only
way in which placing a symbol fails (`Source.place_cases`).
-/

namespace SymbolAtlas.Source

/-- What the bytes before an offset are read as. -/
def textUpTo (src : Source) (offset : Int) : Text := Utf8.decode (Offset.before src.bytes offset)

/-- A node does not end before it starts, by the rows and columns of the text. -/
def RunsForward (src : Source) (n : Node) : Prop :=
  Text.endRow (src.textUpTo n.start) < Text.endRow (src.textUpTo n.stop) ∨
    (Text.endRow (src.textUpTo n.start) = Text.endRow (src.textUpTo n.stop) ∧
      Text.endColumn (src.textUpTo n.start) ≤ Text.endColumn (src.textUpTo n.stop))

/-- The node of a spot does not end before it starts, and neither does an export statement or a
decorator directly around it. -/
structure Placeable (src : Source) (s : Spot) : Prop where
  node : src.RunsForward s.node
  wrapper : ∀ p, s.parent? = some p → Wrapper.ofType? p.type ≠ none → src.RunsForward p

/-- The row and the column of an offset are those of the end of what is read before it, also where
the offset is counted from the end or lies outside of the bytes. -/
theorem column_point_offset (src : Source) (offset : Int) :
    (point src.bytes offset).1 = Text.endRow (src.textUpTo offset) ∧
    column src.bytes (point src.bytes offset).1 (point src.bytes offset).2 =
      .ok (Text.endColumn (src.textUpTo offset) : Nat) := by
  have hcut := Offset.cut_le src.bytes.length offset
  have hbefore : Offset.before src.bytes (Offset.cut src.bytes.length offset : Nat) =
      Offset.before src.bytes offset := by
    rw [Offset.before, Offset.cut_natCast, Nat.min_eq_left hcut, Offset.before]
  have hpoint : point src.bytes offset =
      point src.bytes (Offset.cut src.bytes.length offset : Nat) := by
    rw [point, point, hbefore]
  rw [hpoint, column_point hcut, point_natCast hcut]
  exact ⟨rfl, rfl⟩

theorem rangeOf_eq (src : Source) (n : Node) :
    src.rangeOf n = SourceRange.of
      (Text.endRow (src.textUpTo n.start)) (Text.endColumn (src.textUpTo n.start))
      (Text.endRow (src.textUpTo n.stop)) (Text.endColumn (src.textUpTo n.stop)) := by
  obtain ⟨hstartRow, hstart⟩ := src.column_point_offset n.start
  obtain ⟨hstopRow, hstop⟩ := src.column_point_offset n.stop
  unfold rangeOf
  dsimp only
  rw [hstart, hstop]
  show SourceRange.of _ _ _ _ = _
  rw [hstartRow, hstopRow]

/-- A node has a range exactly if it does not end before it starts. -/
theorem rangeOf_cases (src : Source) (n : Node) :
    (src.RunsForward n ∧ ∃ r, src.rangeOf n = .ok r) ∨
      (¬ src.RunsForward n ∧ ∃ a b c d, src.rangeOf n = .error (.invalidRange a b c d)) := by
  rw [rangeOf_eq, SourceRange.of]
  by_cases h : src.RunsForward n
  · have hordered := h
    unfold RunsForward at hordered
    rw [dif_pos (by omega)]
    exact .inl ⟨h, _, rfl⟩
  · have hreversed := h
    unfold RunsForward at hreversed
    rw [dif_neg (by omega)]
    exact .inr ⟨h, _, _, _, _, rfl⟩

/-- A symbol is placed where its spot can be placed, and otherwise a range is refused. -/
theorem place_cases (src : Source) (s : Spot) (symbol : Symbol) :
    (src.Placeable s ∧ ∃ l, src.place s symbol = .ok l ∧ l.symbol = symbol ∧ l.spot = s) ∨
      (¬ src.Placeable s ∧ ∃ a b c d, src.place s symbol = .error (.invalidRange a b c d)) := by
  have hplaced : ∀ {l}, src.place s symbol = .ok l →
      ∃ l, src.place s symbol = .ok l ∧ l.symbol = symbol ∧ l.spot = s :=
    fun h => ⟨_, h, (of_place h).1, (of_place h).2.2⟩
  rcases src.rangeOf_cases s.node with ⟨hnode, range, hrange⟩ | ⟨hnode, a, b, c, d, hrange⟩
  · cases hparent : s.parent? with
    | none =>
      refine .inl ⟨⟨hnode, by simp [hparent]⟩,
        hplaced (l := ⟨symbol, range, src.textOf s.node, s, none⟩) ?_⟩
      simp only [place, hrange, hparent, bind, Except.bind, pure, Except.pure]
    | some p =>
      cases hwrapper : Wrapper.ofType? p.type with
      | none =>
        refine .inl ⟨⟨hnode, by simp [hparent, hwrapper]⟩,
          hplaced (l := ⟨symbol, range, src.textOf s.node, s, none⟩) ?_⟩
        simp only [place, hrange, hparent, hwrapper, bind, Except.bind, pure, Except.pure]
      | some w =>
        rcases src.rangeOf_cases p with ⟨hp, r, hr⟩ | ⟨hp, a, b, c, d, hr⟩
        · refine .inl ⟨⟨hnode, ?_⟩,
            hplaced (l := ⟨symbol, range, src.textOf s.node, s, some (w, r)⟩) ?_⟩
          · intro q hq _
            obtain rfl : p = q := Option.some.inj (hparent.symm.trans hq)
            exact hp
          · simp only [place, hrange, hparent, hwrapper, hr, bind, Except.bind, pure, Except.pure]
        · refine .inr ⟨fun h => hp (h.wrapper p hparent (by simp [hwrapper])), a, b, c, d, ?_⟩
          simp only [place, hrange, hparent, hwrapper, hr, bind, Except.bind]
  · refine .inr ⟨fun h => hnode h.node, a, b, c, d, ?_⟩
    simp only [place, hrange, bind, Except.bind]

end SymbolAtlas.Source
