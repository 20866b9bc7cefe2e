import Mathlib.Order.Bounds.Basic
import SymbolAtlas.Proofs.Map.Shown

/-!
# The nearest lines of code

For a declaration an outline shows the greatest line of code that is not below it, or else the first
line of code of all (`Outline.IsNearest`). Two searches find it, one upwards from the declaration
and one downwards from the top. The lines that are shown are these ones and no others, each once and
in ascending order, for declarations on any lines that the text has and for lines before the first
(`Outline.importantLines_isNearest`). Symbols are listed with lines that the text has, so a file
that is parsed always has an outline.
-/

namespace SymbolAtlas.Outline

variable {ls : List Text} {n k : Nat} {line : Int}

/-- The line of code that is nearest to a declaration: the greatest one that is not below it, or the
least one of all if they are all below it. -/
def IsNearest (ls : List Text) (line : Int) (k : Nat) : Prop :=
  IsGreatest {j | IsCode ls j ∧ (j : Int) ≤ line - 1} k ∨
    (∀ j, IsCode ls j → line - 1 < j) ∧ IsLeast {j | IsCode ls j} k

/-! ## Looking for lines of code -/

theorem lastCode?_succ_of_isCode (h : IsCode ls n) : lastCode? ls (n + 1) = some n := by
  obtain ⟨l, hl, hquiet⟩ := h
  simp [lastCode?, hl, hquiet]

theorem lastCode?_succ_of_not_isCode (h : ¬ IsCode ls n) :
    lastCode? ls (n + 1) = lastCode? ls n := by
  rw [lastCode?]
  split
  next l hl =>
    split
    · rfl
    next hquiet => exact absurd ⟨l, hl, by simpa using hquiet⟩ h
  next => rfl

/-- The upward search stops at the greatest line of code, or finds that there is none. -/
theorem lastCode?_cases (ls : List Text) (n : Nat) :
    (∃ k, lastCode? ls n = some k ∧ IsGreatest {j | IsCode ls j ∧ j < n} k) ∨
      lastCode? ls n = none ∧ ∀ j < n, ¬ IsCode ls j := by
  induction n with
  | zero => exact .inr ⟨rfl, fun j hj => absurd hj (Nat.not_lt_zero j)⟩
  | succ n ih =>
    by_cases hcode : IsCode ls n
    · refine .inl ⟨n, lastCode?_succ_of_isCode hcode, ⟨hcode, Nat.lt_succ_self n⟩, ?_⟩
      rintro j ⟨-, hj⟩
      exact Nat.lt_succ_iff.mp hj
    · rw [lastCode?_succ_of_not_isCode hcode]
      -- A line of code above the next line is above this one, which is none.
      have hlt : ∀ j, IsCode ls j → j < n + 1 → j < n := by
        intro j hj hle
        rcases Nat.lt_succ_iff_lt_or_eq.mp hle with hlt | rfl
        · exact hlt
        · exact absurd hj hcode
      rcases ih with ⟨k, hk, ⟨hin, hlast⟩, hgreatest⟩ | ⟨hnone, hno⟩
      · exact .inl ⟨k, hk, ⟨hin, Nat.lt_succ_of_lt hlast⟩,
          fun j hj => hgreatest ⟨hj.1, hlt j hj.1 hj.2⟩⟩
      · exact .inr ⟨hnone, fun j hj hcode => hno j (hlt j hcode hj) hcode⟩

theorem isCode_iff : IsCode ls k ↔ ∃ h : k < ls.length, isQuiet ls[k] = false := by
  constructor
  · rintro ⟨l, hl, hquiet⟩
    obtain ⟨hlt, rfl⟩ := List.getElem?_eq_some_iff.mp hl
    exact ⟨hlt, hquiet⟩
  · rintro ⟨hlt, hquiet⟩
    exact ⟨ls[k], List.getElem?_eq_getElem hlt, hquiet⟩

/-- The downward search stops at the first line of code. -/
theorem firstCode?_eq_some_iff : firstCode? ls = some k ↔ IsLeast {j | IsCode ls j} k := by
  rw [firstCode?, List.findIdx?_eq_some_iff_getElem]
  constructor
  · rintro ⟨hlt, hcode, hfirst⟩
    refine ⟨isCode_iff.mpr ⟨hlt, by simpa using hcode⟩, ?_⟩
    intro j hj
    obtain ⟨hj, hquiet⟩ := isCode_iff.mp hj
    by_contra hjk
    exact hfirst j (by omega) (by simpa using hquiet)
  · rintro ⟨hk, hleast⟩
    obtain ⟨hlt, hquiet⟩ := isCode_iff.mp hk
    refine ⟨hlt, by simpa using hquiet, ?_⟩
    intro j hjk hcode
    have hj : IsCode ls j := isCode_iff.mpr ⟨by omega, by simpa using hcode⟩
    have hle := hleast hj
    omega

/-- What is picked for a declaration is the nearest line of code. -/
theorem choice?_eq_some_iff : choice? ls line.toNat = some k ↔ IsNearest ls line k := by
  have hbelow : ∀ j : Nat, (j : Int) ≤ line - 1 ↔ j < line.toNat := by
    intro j
    omega
  have habove : ∀ j : Nat, line - 1 < (j : Int) ↔ ¬ j < line.toNat := by
    intro j
    omega
  unfold IsNearest choice?
  simp only [hbelow, habove]
  rcases lastCode?_cases ls line.toNat with ⟨m, hm, hgreatest⟩ | ⟨hnone, hno⟩
  · rw [hm, Option.some_or, Option.some_inj]
    constructor
    · rintro rfl
      exact .inl hgreatest
    · rintro (hk | ⟨hall, -⟩)
      · exact hgreatest.unique hk
      · exact absurd hgreatest.1.2 (hall m hgreatest.1.1)
  · rw [hnone, Option.none_or, firstCode?_eq_some_iff]
    constructor
    · intro hk
      exact .inr ⟨fun j hj hlt => hno j hlt hj, hk⟩
    · rintro (hk | ⟨-, hk⟩)
      · exact absurd hk.1.1 (hno k hk.1.2)
      · exact hk

/-! ## The lines in ascending order -/

theorem pairwise_insertAscending {ns : List Nat} (h : ns.Pairwise (· < ·)) :
    (insertAscending n ns).Pairwise (· < ·) := by
  induction ns with
  | nil => exact List.pairwise_singleton ..
  | cons m ms ih =>
    obtain ⟨hm, hms⟩ := List.pairwise_cons.mp h
    rw [insertAscending]
    split
    next hlt =>
      refine List.pairwise_cons.mpr ⟨?_, h⟩
      intro k hk
      rcases List.mem_cons.mp hk with rfl | hk
      · exact hlt
      · exact Nat.lt_trans hlt (hm k hk)
    split
    · exact h
    next hne =>
      refine List.pairwise_cons.mpr ⟨?_, ih hms⟩
      intro k hk
      rcases mem_insertAscending.mp hk with rfl | hk
      · omega
      · exact hm k hk

/-- The lines that are shown ascend, as each is inserted where it belongs. -/
theorem pairwise_importantLines {t : Text} {declared : List Int} {shown : List Nat}
    (h : importantLines t declared = .ok shown) : shown.Pairwise (· < ·) := by
  unfold importantLines at h
  generalize hbefore : ([] : List Nat) = before at h
  have hsorted : before.Pairwise (· < ·) := hbefore ▸ List.Pairwise.nil
  clear hbefore
  induction declared generalizing before with
  | nil =>
    obtain rfl : before = shown := Except.ok.inj h
    exact hsorted
  | cons line declared ih =>
    rw [List.foldlM_cons] at h
    split at h
    · exact ih _ h (pairwise_insertAscending hsorted)
    · exact ih _ h hsorted
    · cases h

/-- The lines that are shown for declarations are the nearest lines of code, each once and in
ascending order. Symbols are declared on lines of the text, so a file that is parsed has an
outline. -/
theorem importantLines_isNearest :
    (∀ (t : Text) (declared : List Int), (∀ line ∈ declared, line ≤ (Text.lines t).length) →
      ∃ shown, importantLines t declared = .ok shown ∧ shown.Pairwise (· < ·) ∧
        ∀ k, k ∈ shown ↔ ∃ line ∈ declared, IsNearest (Text.lines t) line k) ∧
    ∀ (src : Source) (path : Text),
      (∀ s ∈ src.symbols, (s.line : Int) ≤ (Text.lines src.text).length) ∧
      ∃ shown outline,
        importantLines src.text (src.symbols.map fun s => (s.line : Int)) = .ok shown ∧
        ofFile path src.text (src.symbols.map fun s => (s.line : Int)) = .ok outline := by
  have hlines : ∀ (t : Text) (declared : List Int),
      (∀ line ∈ declared, line ≤ (Text.lines t).length) →
      ∃ shown, importantLines t declared = .ok shown ∧ shown.Pairwise (· < ·) ∧
        ∀ k, k ∈ shown ↔ ∃ line ∈ declared, IsNearest (Text.lines t) line k := by
    intro t declared h
    obtain ⟨shown, hshown, hmem⟩ := exists_importantLines h
    simp only [choice?_eq_some_iff] at hmem
    exact ⟨shown, hshown, pairwise_importantLines hshown, hmem⟩
  refine ⟨hlines, fun src path => ?_⟩
  have hbound : ∀ s ∈ src.symbols, (s.line : Int) ≤ (Text.lines src.text).length :=
    fun s hs => Int.ofNat_le.mpr (Source.line_of_mem_symbols hs).2
  have hdeclared : ∀ line ∈ src.symbols.map (fun s => (s.line : Int)),
      line ≤ (Text.lines src.text).length := by
    intro line hline
    obtain ⟨s, hs, rfl⟩ := List.mem_map.mp hline
    exact hbound s hs
  obtain ⟨shown, hshown, -⟩ := hlines src.text _ hdeclared
  obtain ⟨body, hbody, -⟩ := exists_ofFile path hdeclared
  exact ⟨hbound, shown, _, hshown, hbody⟩

namespace Commented

/-- A text with lines of code behind comments. -/
def text : Text := "// a\nb()\n\n// c\nd()\n"

/-- Declarations before the first line, on comments, and on lines of code. -/
def declared : List Int := [-1, 0, 1, 3, 4, 5]

end Commented

/-- The line of code above a declaration comes first, and otherwise the one below. -/
theorem importantLines_isNearest_commented :
    (∀ line ∈ Commented.declared, line ≤ (Text.lines Commented.text).length) ∧
      importantLines Commented.text Commented.declared = .ok [1, 4] ∧
      ∀ k, k ∈ [1, 4] ↔
        ∃ line ∈ Commented.declared, IsNearest (Text.lines Commented.text) line k := by
  have hbound : ∀ line ∈ Commented.declared, line ≤ (Text.lines Commented.text).length := by
    decide
  have hshown : importantLines Commented.text Commented.declared = .ok [1, 4] := rfl
  obtain ⟨shown, hshown', -, hnearest⟩ :=
    importantLines_isNearest.1 Commented.text Commented.declared hbound
  obtain rfl := Except.ok.inj (hshown.symm.trans hshown')
  exact ⟨hbound, hshown, hnearest⟩

end SymbolAtlas.Outline
