import Mathlib.Data.List.Lex
import Mathlib.Data.List.Sort
import SymbolAtlas.Text.Basic

/-!
# Ascending lists of texts

`Text.precedes` is the order of texts by code point (`precedes_iff`), so it is strict and total, and
an ascending list is known by its members (`Ascending.eq_of_mem_iff`). Inserting a text keeps a list
ascending and adds just that text, whether it was there before or not: lists put together in this
way do not tell in which order, or how often, their members came.
-/

namespace SymbolAtlas.Text

theorem precedes_iff {s t : Text} :
    precedes s t = true ↔ s.map CodePoint.val < t.map CodePoint.val := by
  induction s generalizing t with
  | nil => cases t <;> simp [precedes]
  | cons c s ih =>
    cases t with
    | nil => simp [precedes]
    | cons d t => simp [precedes, List.cons_lt_cons_iff, ih]

theorem map_val_injective : Function.Injective (List.map CodePoint.val) :=
  List.map_injective_iff.mpr fun _ _ h => CodePoint.ext h

theorem precedes_irrefl (t : Text) : precedes t t = false := by
  simp [← Bool.not_eq_true, precedes_iff]

theorem precedes_trans {s t u : Text} (hst : precedes s t = true) (htu : precedes t u = true) :
    precedes s u = true :=
  precedes_iff.mpr (lt_trans (precedes_iff.mp hst) (precedes_iff.mp htu))

/-- Of two different texts one comes before the other. -/
theorem precedes_of_not {s t : Text} (hne : s ≠ t) (h : precedes s t = false) :
    precedes t s = true := by
  rw [← Bool.not_eq_true, precedes_iff, not_lt] at h
  exact precedes_iff.mpr (lt_of_le_of_ne h fun heq => hne (map_val_injective heq.symm))

/-- Texts in strictly ascending order. -/
def Ascending (ts : List Text) : Prop := ts.Pairwise fun s t => precedes s t = true

/-- Ascending lists with the same members are the same. -/
theorem Ascending.eq_of_mem_iff {ts us : List Text} (hts : Ascending ts) (hus : Ascending us)
    (h : ∀ t, t ∈ ts ↔ t ∈ us) : ts = us := by
  have : Std.Irrefl fun s t : Text => precedes s t = true :=
    ⟨fun t => by simp [precedes_irrefl]⟩
  have : Std.Antisymm fun s t : Text => precedes s t = true :=
    ⟨fun s t hst hts => by simpa [precedes_irrefl] using precedes_trans hst hts⟩
  exact List.Pairwise.eq_of_mem_iff hts hus h

@[simp]
theorem mem_insertSorted {s t : Text} {ts : List Text} :
    s ∈ insertSorted t ts ↔ s = t ∨ s ∈ ts := by
  induction ts with
  | nil => simp [insertSorted]
  | cons u us ih =>
    rw [insertSorted]
    split
    next heq => simp [heq]
    split
    · simp
    · simp [ih, or_left_comm]

theorem Ascending.insertSorted {t : Text} {ts : List Text} (h : Ascending ts) :
    Ascending (insertSorted t ts) := by
  induction ts with
  | nil => exact List.pairwise_singleton _ t
  | cons u us ih =>
    obtain ⟨hu, hus⟩ := List.pairwise_cons.mp h
    rw [Text.insertSorted]
    split
    · exact h
    next hne =>
      split
      next hlt =>
        -- The new text comes before the first one, and so before all.
        refine List.pairwise_cons.mpr ⟨?_, h⟩
        intro s hs
        rcases List.mem_cons.mp hs with rfl | hs
        · exact hlt
        · exact precedes_trans hlt (hu s hs)
      next hnot =>
        refine List.pairwise_cons.mpr ⟨?_, ih hus⟩
        intro s hs
        rcases mem_insertSorted.mp hs with rfl | hs
        · exact precedes_of_not hne (by simpa using hnot)
        · exact hu s hs

/-- Texts inserted into a list one after the other. -/
def insertAll (ts us : List Text) : List Text := ts.foldl (fun us t => Text.insertSorted t us) us

theorem mem_insertAll {s : Text} {ts us : List Text} :
    s ∈ insertAll ts us ↔ s ∈ ts ∨ s ∈ us := by
  induction ts generalizing us with
  | nil => simp [insertAll]
  | cons t ts ih =>
    show s ∈ insertAll ts (Text.insertSorted t us) ↔ _
    rw [ih, mem_insertSorted, List.mem_cons, or_assoc, or_left_comm]

theorem Ascending.insertAll {ts us : List Text} (h : Ascending us) :
    Ascending (insertAll ts us) := by
  induction ts generalizing us with
  | nil => exact h
  | cons t ts ih => exact ih h.insertSorted

theorem insertAll_append (ts ts' us : List Text) :
    insertAll (ts ++ ts') us = insertAll ts' (insertAll ts us) := List.foldl_append

end SymbolAtlas.Text
