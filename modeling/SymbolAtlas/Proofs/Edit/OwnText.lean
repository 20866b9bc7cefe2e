import SymbolAtlas.Proofs.Edit.ByteExact
import SymbolAtlas.Proofs.Text.Strict

/-!
# Writing back what is there

Putting a text in the place of a node leaves the source as it was exactly if it is the text of the
node (`Source.textWith_eq_iff`). So an edit changes nothing exactly if its content is the text of
the node that the content picks. `Located.reviseLocated_ownText_iff` works this out for the text of
a located symbol and for the text of its wrapper. The text of the wrapper is only written back in
its own place if it starts as texts of such wrappers do; otherwise what stands before the symbol is
there twice, as for a decorator before an `export` (`Located.not_reviseLocated_ownText`).
-/

namespace SymbolAtlas

open Utf8 (decode)

/-- Whether a content restates a wrapper: it starts as the text of the wrapper does. -/
def Wrapper.isRestatedBy (w : Wrapper) (content : Text) : Bool :=
  Text.startsWith content.trimStart w.opening

namespace Source

variable {src : Source} {n : Node}

/-- In valid bytes the text of a placed node is what its bytes are read as. -/
theorem textOf_eq_textWithin (hvalid : Utf8.IsValid src.bytes) (h : n.Placed src.bytes) :
    src.textOf n = src.textWithin n := by
  obtain ⟨hnonneg, hordered, hinside, hstart, hstop⟩ := h
  obtain ⟨i, hi⟩ : ∃ i : Nat, n.start = i := ⟨n.start.toNat, by omega⟩
  obtain ⟨j, hj⟩ : ∃ j : Nat, n.stop = j := ⟨n.stop.toNat, by omega⟩
  rw [hi, Int.toNat_natCast] at hstart
  rw [hj, Int.toNat_natCast] at hstop
  rw [textOf, textWithin, hi, hj, Offset.span_natCast (by omega) (by omega), Int.toNat_natCast,
    Int.toNat_natCast]
  exact (hvalid.between hstart hstop (by omega) (by omega)).decodeReplacing_eq

/-- A text in the place of a node leaves the source as it was exactly if it is what the node's bytes
are read as. -/
theorem textWith_eq_iff (h : n.Placed src.bytes) {new : Text} :
    src.textWith n new = decode src.bytes ↔ new = src.textWithin n := by
  rw [← textBefore_append_append src h, textWith, List.append_assoc, List.append_assoc,
    List.append_cancel_left_eq, List.append_cancel_right_eq]

end Source

namespace Located

variable {src : Source} {l : Located} {content : Text}

theorem targetNode_of_unwrapped (h : l.wrapperNode? = none) (content : Text) :
    l.targetNode content = l.spot.node := by
  rw [targetNode, h]

theorem targetNode_of_wrapped {w : Wrapper} {p : Node} (h : l.wrapperNode? = some (w, p))
    (hcontent : content ≠ []) :
    l.targetNode content = if w.isRestatedBy content = true then p else l.spot.node := by
  have hiff : content = [] ∨ Text.startsWith content.trimStart w.opening ↔
      w.isRestatedBy content = true := by simp [hcontent, Wrapper.isRestatedBy]
  rw [targetNode, h]
  exact if_congr hiff rfl rfl

section

variable (hvalid : Utf8.IsValid src.bytes) (hplaced : src.root.PlacedIn src.bytes)
  (hl : l.StandsIn src)

include hvalid hplaced hl

/-- An edit changes nothing exactly if its content is the text of the node that it replaces. -/
theorem reviseLocated_eq_iff (hcontent : content ≠ []) :
    EditSite.reviseLocated (decode src.bytes) l content = .ok (decode src.bytes) ↔
      content = src.textOf (l.targetNode content) := by
  have htarget := hplaced _ (hl.targetNode_within content)
  rw [reviseLocated_of_placed hplaced hl hcontent, Except.ok.injEq, Source.textWith_eq_iff htarget,
    Source.textOf_eq_textWithin hvalid htarget]

/-- The text of a located symbol is written back in its own place, unless it restates the
wrapper. -/
theorem reviseLocated_text_iff (htext : l.text ≠ []) :
    EditSite.reviseLocated (decode src.bytes) l l.text = .ok (decode src.bytes) ↔
      ∀ w p, l.wrapperNode? = some (w, p) → w.isRestatedBy l.text = true →
        src.textOf p = l.text := by
  rw [reviseLocated_eq_iff hvalid hplaced hl htext]
  cases hwrapper : l.wrapperNode? with
  | none =>
    rw [targetNode_of_unwrapped hwrapper]
    simpa using hl.text
  | some wrapper =>
    obtain ⟨w, p⟩ := wrapper
    rw [targetNode_of_wrapped hwrapper htext]
    by_cases hrestated : w.isRestatedBy l.text = true
    · rw [if_pos hrestated]
      constructor
      · intro heq w' p' h _
        obtain ⟨rfl, rfl⟩ : w = w' ∧ p = p' := by simpa using h
        exact heq.symm
      · intro h
        exact (h w p rfl hrestated).symm
    · rw [if_neg hrestated]
      refine ⟨?_, fun _ => hl.text⟩
      intro _ w' p' h hrestated'
      obtain ⟨rfl, rfl⟩ : w = w' ∧ p = p' := by simpa using h
      exact absurd hrestated' hrestated

/-- The text of a wrapper is written back in its own place only if it restates the wrapper. -/
theorem reviseLocated_wrapperText_iff {w : Wrapper} {p : Node}
    (hwrapper : l.wrapperNode? = some (w, p)) (htext : src.textOf p ≠ []) :
    EditSite.reviseLocated (decode src.bytes) l (src.textOf p) = .ok (decode src.bytes) ↔
      w.isRestatedBy (src.textOf p) = true ∨ src.textOf p = l.text := by
  rw [reviseLocated_eq_iff hvalid hplaced hl htext, targetNode_of_wrapped hwrapper htext]
  by_cases hrestated : w.isRestatedBy (src.textOf p) = true
  · simp [hrestated]
  · rw [if_neg hrestated, hl.text]
    simp [hrestated]

end

/-- In a source that is valid UTF-8 with a placed tree, writing back the text of a located symbol
changes nothing, unless the text restates the wrapper and is not all of it. Writing back the text of
the wrapper changes nothing exactly if the text restates the wrapper or is all the symbol's own;
otherwise it comes in the place of the symbol alone. -/
theorem reviseLocated_ownText_iff (hvalid : Utf8.decodeStrict src.bytes = .ok src.text)
    (hplaced : src.root.PlacedIn src.bytes) {name : Text} {kind : SymbolKind}
    (hfound : src.locate name kind = .ok (some l)) (htext : l.text ≠ []) :
    (EditSite.reviseLocated src.text l l.text = .ok src.text ↔
      ∀ w p, l.wrapperNode? = some (w, p) → w.isRestatedBy l.text = true →
        src.textOf p = l.text) ∧
    ∀ w p, l.wrapperNode? = some (w, p) → src.textOf p ≠ [] →
      (EditSite.reviseLocated src.text l (src.textOf p) = .ok src.text ↔
        w.isRestatedBy (src.textOf p) = true ∨ src.textOf p = l.text) ∧
      (w.isRestatedBy (src.textOf p) = false →
        EditSite.reviseLocated src.text l (src.textOf p) =
          .ok (src.textBefore l.spot.node ++ src.textOf p ++ src.textBehind l.spot.node)) := by
  obtain ⟨hvalid, hread⟩ := Utf8.decodeStrict_eq_ok_iff.mp hvalid
  have hl := Source.standsIn_of_locate hplaced hfound
  rw [hread]
  refine ⟨reviseLocated_text_iff hvalid hplaced hl htext, ?_⟩
  intro w p hwrapper hwrapperText
  refine ⟨reviseLocated_wrapperText_iff hvalid hplaced hl hwrapper hwrapperText, ?_⟩
  intro hrestated
  rw [reviseLocated_of_placed hplaced hl hwrapperText, targetNode_of_wrapped hwrapper hwrapperText,
    hrestated, if_neg Bool.false_ne_true]
  rfl

end Located

namespace Exports

/-- A decorated class and a function, both exported. -/
def text : Text := "@sealed\nexport class A {}\nexport function f() {}\n"

/-- The bytes of the file. -/
def bytes : Bytes := Utf8.encodeLossy text

/-- The class. -/
def class_ : Node :=
  .mk .classDeclaration 15 25 [.plain "type_identifier" 21 22 [], .plain "class_body" 23 25 []]
    [(.name, 0)] true

/-- The class with its export statement, which starts with the decorator. -/
def decorated : Node :=
  .mk .exportStatement 0 25 [.plain "decorator" 0 7 [.plain "identifier" 1 7 []], class_]
    [(.declaration, 1)] true

/-- The function with its export statement. -/
def function : Node :=
  .mk .exportStatement 26 48 [.mk .functionDeclaration 33 48 [.plain "identifier" 42 43 [],
    .plain "formal_parameters" 43 45 [], .plain "statement_block" 46 48 []] [(.name, 0)] true]
    [(.declaration, 0)] true

/-- The source that the parser gives. -/
def source : Source :=
  ⟨Utf8.decode bytes, bytes, .plain "program" 0 49 [decorated, function], .typescript,
    Utf8.encode_decode bytes⟩

theorem placed : source.root.PlacedIn source.bytes := Node.placedIn_of_isPlaced (by decide +kernel)

theorem valid : Utf8.IsValid source.bytes := Utf8.isValid_iff.mpr (by decide +kernel)

theorem strict : Utf8.decodeStrict source.bytes = .ok source.text :=
  Utf8.decodeStrict_eq_ok_iff.mpr ⟨valid, rfl⟩

end Exports

/-- The exported function is written back in its own place, with its export statement and
without. -/
theorem Located.reviseLocated_ownText_exported :
    Utf8.decodeStrict Exports.source.bytes = .ok Exports.source.text ∧
    Exports.source.root.PlacedIn Exports.source.bytes ∧
    ∃ l, Exports.source.locate "f" .function = .ok (some l) ∧
      l.text = "function f() {}" ∧
      EditSite.reviseLocated Exports.source.text l "function f() {}" = .ok Exports.source.text ∧
      EditSite.reviseLocated Exports.source.text l "export function f() {}" =
        .ok Exports.source.text := by
  obtain ⟨l, hfound, htext, hwrapper⟩ : ∃ l, Exports.source.locate "f" .function = .ok (some l) ∧
      l.text = "function f() {}" ∧ l.wrapperNode? = some (.exported, Exports.function) :=
    ⟨_, rfl, by decide +kernel, rfl⟩
  have hwrapperText : Exports.source.textOf Exports.function = "export function f() {}" := by
    decide +kernel
  obtain ⟨hown, hwrapped⟩ := Located.reviseLocated_ownText_iff Exports.strict Exports.placed hfound
    (by rw [htext]; decide)
  obtain ⟨hiff, -⟩ := hwrapped _ _ hwrapper (by rw [hwrapperText]; decide)
  rw [htext] at hown
  rw [hwrapperText] at hiff
  refine ⟨Exports.strict, Exports.placed, l, hfound, htext, hown.mpr ?_, hiff.mpr ?_⟩
  · intro w p h
    obtain ⟨rfl, rfl⟩ : Wrapper.exported = w ∧ Exports.function = p := by
      simpa [hwrapper] using h
    intro hrestated
    exact absurd hrestated (by decide)
  · exact .inl (by decide)

/-- Writing back the decorated class with its export statement doubles what stands before the
class. -/
theorem Located.not_reviseLocated_ownText :
    Utf8.decodeStrict Exports.source.bytes = .ok Exports.source.text ∧
    Exports.source.root.PlacedIn Exports.source.bytes ∧
    ∃ l, Exports.source.locate "A" .class_ = .ok (some l) ∧ l.text ≠ [] ∧
      l.wrapperNode? = some (.exported, Exports.decorated) ∧
      EditSite.reviseLocated Exports.source.text l (Exports.source.textOf Exports.decorated) =
        .ok "@sealed\nexport @sealed\nexport class A {}\nexport function f() {}\n" ∧
      EditSite.reviseLocated Exports.source.text l (Exports.source.textOf Exports.decorated) ≠
        .ok Exports.source.text := by
  obtain ⟨l, hfound, hnode, hwrapper⟩ : ∃ l, Exports.source.locate "A" .class_ = .ok (some l) ∧
      l.spot.node = Exports.class_ ∧ l.wrapperNode? = some (.exported, Exports.decorated) :=
    ⟨_, rfl, rfl, rfl⟩
  have hl := Source.standsIn_of_locate Exports.placed hfound
  have hcontent : Exports.source.textOf Exports.decorated ≠ [] := by decide +kernel
  -- The text of the export statement starts with the decorator, so the class alone is replaced.
  have htarget : l.targetNode (Exports.source.textOf Exports.decorated) = Exports.class_ := by
    have hrestated : ¬ Wrapper.exported.isRestatedBy (Exports.source.textOf Exports.decorated) =
        true := by decide +kernel
    rw [targetNode_of_wrapped hwrapper hcontent, if_neg hrestated, hnode]
  have hdoubled : Exports.source.textWith Exports.class_
      (Exports.source.textOf Exports.decorated) =
        "@sealed\nexport @sealed\nexport class A {}\nexport function f() {}\n" := by decide +kernel
  have hrevised : EditSite.reviseLocated Exports.source.text l
      (Exports.source.textOf Exports.decorated) =
        .ok "@sealed\nexport @sealed\nexport class A {}\nexport function f() {}\n" := by
    have hread : Exports.source.text = decode Exports.source.bytes := rfl
    rw [hread, reviseLocated_of_placed Exports.placed hl hcontent, htarget, hdoubled]
  refine ⟨Exports.strict, Exports.placed, l, hfound, ?_, hwrapper, hrevised, ?_⟩
  · rw [hl.text, hnode]
    decide +kernel
  · rw [hrevised, ne_eq, Except.ok.injEq]
    decide +kernel

end SymbolAtlas
