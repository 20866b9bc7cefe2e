import SymbolAtlas.Proofs.Files.Storing
import SymbolAtlas.Proofs.Text.Numerals
import SymbolAtlas.Proofs.Text.Strict
import SymbolAtlas.Settings

/-!
# What a settings file may hold

Main statement: a settings file is loaded if and only if it is valid UTF-8, goes beyond no bound of
what is read, and gives no map item an ignore setting that has no parts (`Settings.load_iff`). What
is loaded has items with paths, and the defaults stand for all that is no JSON object. So a fault of
the grammar never stops the program, while a stray byte, a very long integer, very deep lists, and
an ignore setting of `true` or `1` do.
-/

namespace SymbolAtlas

/-! ## Values as texts -/

namespace Binary64

theorem layout_ne_nil (d : Nat) (p : Int) : layout d p ≠ [] := by
  have hdot : Text.ofString "." ≠ [] := by decide
  have hzero : Text.ofString "0." ≠ [] := by decide
  have hexp : ∀ b : Prop, [Decidable b] → Text.ofString (if b then "e-" else "e+") ≠ [] := by
    intro b _
    split <;> decide
  unfold layout
  dsimp only
  split
  · split
    · simp [Text.ofNat_ne_nil]
    · split
      · simp [hdot]
      · simp [hzero]
  · simp [hexp]

theorem text_ne_nil (x : Binary64) : x.text ≠ [] := by
  cases x with
  | nan => decide
  | infinity negative => cases negative <;> decide
  | finite negative m e =>
    have hdigits : (if m = 0 then Text.ofString "0.0" else
        layout (shortestDigits m e).1 (shortestDigits m e).2) ≠ [] := by
      split
      · decide
      · exact layout_ne_nil _ _
    unfold text
    dsimp only
    split
    · simpa using fun _ => hdigits
    · exact hdigits

end Binary64

namespace Json

theorem shown_ne_nil {v : Json} (htext : ∀ t, v ≠ .text t) : v.shown ≠ [] := by
  cases v with
  | null => decide
  | bool b => cases b <;> decide
  | int i =>
    rw [shown, Text.ofInt]
    split
    · simp
    · exact Text.ofNat_ne_nil _
  | float x => exact x.text_ne_nil
  | text t => exact absurd rfl (htext t)
  | list items => simp [shown, Text.ofString]
  | object members => simp [shown, Text.ofString]

/-- A value that counts as given has a text. -/
theorem asText_ne_nil {v : Json} (h : v.isGiven = true) : v.asText ≠ [] := by
  unfold asText
  split
  next t => simpa [isGiven] using h
  next htext => exact shown_ne_nil htext

/-- Whether the value is a text. -/
def IsText (v : Json) : Prop := ∃ t, v = .text t

end Json

/-! ## Map items -/

namespace Settings

/-- A map item: an object whose path is given. All else in a list of items is passed over. -/
def IsItem (v : Json) : Prop := ∃ path, v.get? "path" = some path ∧ path.isGiven = true

/-- A given value that has no parts to be taken as patterns: true, or a number other than zero. -/
def IsLone (v : Json) : Prop :=
  v.isGiven = true ∧ ((∃ b, v = .bool b) ∨ (∃ i, v = .int i) ∨ ∃ x, v = .float x)

/-- A map item with an ignore setting that cannot be taken as patterns. -/
def Stops (v : Json) : Prop := IsItem v ∧ ∃ setting, v.get? "ignore" = some setting ∧ IsLone setting

/-- A map item with a list of patterns that are not all texts. -/
def IsMixed (v : Json) : Prop :=
  IsItem v ∧ ∃ patterns, v.get? "ignore" = some (.list patterns) ∧ ∃ p ∈ patterns, ¬ p.IsText

theorem exists_ignoreOf_iff (setting : Option Json) :
    (∃ patterns, MapItem.ignoreOf setting = .ok patterns) ↔ ∀ v ∈ setting, ¬ IsLone v := by
  cases setting with
  | none => simp [MapItem.ignoreOf]
  | some v =>
    by_cases hgiven : v.isGiven = true
    · cases v with
      | null => simp [Json.isGiven] at hgiven
      | _ => simp [MapItem.ignoreOf, IsLone, hgiven]
    · simp [MapItem.ignoreOf, IsLone, hgiven]

/-- A list of patterns is taken as it is. -/
theorem ignoreOf_list (patterns : List Json) :
    MapItem.ignoreOf (some (.list patterns)) = .ok patterns := by
  cases patterns <;> simp [MapItem.ignoreOf, Json.isGiven]

/-- The patterns of a setting that is no list are texts. -/
theorem isText_of_ignoreOf {setting : Option Json} {patterns : List Json}
    (hlist : ∀ ps, setting ≠ some (.list ps)) (h : MapItem.ignoreOf setting = .ok patterns) :
    ∀ p ∈ patterns, p.IsText := by
  unfold MapItem.ignoreOf at h
  split at h
  · simp_all
  split at h
  · split at h
    next t _ =>
      obtain rfl := Except.ok.inj h
      simp [Json.IsText]
    next ps _ => exact absurd rfl (hlist ps)
    next ms _ =>
      obtain rfl := Except.ok.inj h
      intro p hp
      obtain ⟨m, -, rfl⟩ := List.mem_map.mp hp
      exact ⟨m.1, rfl⟩
    · cases h
  · simp_all

/-- A map item is described by its path and its ignore setting. -/
theorem ofJson_of_path {v path : Json} (h : v.get? "path" = some path) :
    MapItem.ofJson v =
      (MapItem.ignoreOf (v.get? "ignore")).map fun patterns => ⟨path.asText, patterns⟩ := by
  rw [MapItem.ofJson, h]
  dsimp only
  cases MapItem.ignoreOf (v.get? "ignore") <;> rfl

theorem exists_ofJson_iff {v : Json} (h : IsItem v) :
    (∃ item, MapItem.ofJson v = .ok item) ↔ ¬ Stops v := by
  have hignore := exists_ignoreOf_iff (v.get? "ignore")
  have hstops : ¬ Stops v ↔ ∀ setting ∈ v.get? "ignore", ¬ IsLone setting := by
    simp [Stops, h]
  obtain ⟨path, hpath, -⟩ := h
  rw [hstops, ← hignore, ofJson_of_path hpath]
  cases MapItem.ignoreOf (v.get? "ignore") <;> simp [Except.map]

/-- A described item has a path, and its patterns are texts unless it has a list of others. -/
theorem of_ofJson {v : Json} {item : MapItem} (h : IsItem v) (hitem : MapItem.ofJson v = .ok item) :
    item.path ≠ [] ∧ ((∀ p ∈ item.ignore, p.IsText) ↔ ¬ IsMixed v) := by
  have hmixed : ¬ IsMixed v ↔
      ∀ ps, v.get? "ignore" = some (.list ps) → ∀ p ∈ ps, p.IsText := by
    simp [IsMixed, h]
  obtain ⟨path, hpath, hgiven⟩ := h
  rw [ofJson_of_path hpath] at hitem
  cases hpatterns : MapItem.ignoreOf (v.get? "ignore") with
  | error e => simp [hpatterns, Except.map] at hitem
  | ok patterns =>
    obtain rfl : ⟨path.asText, patterns⟩ = item := by simpa [hpatterns, Except.map] using hitem
    refine ⟨Json.asText_ne_nil hgiven, ?_⟩
    rw [hmixed]
    by_cases hlist : ∃ ps, v.get? "ignore" = some (.list ps)
    · obtain ⟨ps, hps⟩ := hlist
      obtain rfl : ps = patterns := by simpa [hps, ignoreOf_list] using hpatterns
      simp [hps]
    · have htexts := isText_of_ignoreOf (fun ps hps => hlist ⟨ps, hps⟩) hpatterns
      exact ⟨fun _ ps hps => absurd ⟨ps, hps⟩ hlist, fun _ => htexts⟩

/-! ## Lists of items -/

theorem isItem_iff {v : Json} :
    IsItem v ↔ ((v.get? "path").map Json.isGiven).getD false = true := by
  unfold IsItem
  cases v.get? "path" <;> simp

theorem result_readItems_of_isItem {v : Json} (h : IsItem v) (vs : List Json) :
    (readItems (v :: vs)).result =
      (MapItem.ofJson v).bind fun item => (readItems vs).result.map (item :: ·) := by
  have hgiven := isItem_iff.mp h
  cases v with
  | object ms =>
    rw [readItems, if_pos hgiven]
    simp only [Report.result_bind]
    cases (readItems vs).result <;> rfl
  | _ => simp [Json.get?] at hgiven

theorem result_readItems_of_not_isItem {v : Json} (h : ¬ IsItem v) (vs : List Json) :
    (readItems (v :: vs)).result = (readItems vs).result := by
  have hnot := mt isItem_iff.mpr h
  cases v with
  | object ms =>
    rw [readItems, if_neg hnot]
    rfl
  | _ => rfl

theorem exists_readItems_iff (vs : List Json) :
    (∃ items, (readItems vs).result = .ok items) ↔ ∀ v ∈ vs, ¬ Stops v := by
  induction vs with
  | nil => simp [readItems]
  | cons v vs ih =>
    rw [List.forall_mem_cons, ← ih]
    by_cases hitem : IsItem v
    · rw [result_readItems_of_isItem hitem, ← exists_ofJson_iff hitem]
      cases MapItem.ofJson v <;> cases (readItems vs).result <;> simp [Except.bind, Except.map]
    · have hnot : ¬ Stops v := fun hstops => hitem hstops.1
      simp [result_readItems_of_not_isItem hitem, hnot]

/-- The items read are those that the map items of the list describe. -/
theorem mem_of_readItems {vs : List Json} {items : List MapItem}
    (h : (readItems vs).result = .ok items) (item : MapItem) :
    item ∈ items ↔ ∃ v ∈ vs, IsItem v ∧ MapItem.ofJson v = .ok item := by
  induction vs generalizing items with
  | nil =>
    obtain rfl : [] = items := by simpa [readItems] using h
    simp
  | cons v vs ih =>
    by_cases hitem : IsItem v
    · rw [result_readItems_of_isItem hitem] at h
      cases hv : MapItem.ofJson v with
      | error e => simp [hv, Except.bind] at h
      | ok first =>
        cases hvs : (readItems vs).result with
        | error e => simp [hv, hvs, Except.bind, Except.map] at h
        | ok rest =>
          obtain rfl : first :: rest = items := by simpa [hv, hvs, Except.bind, Except.map] using h
          simp [ih hvs, hitem, hv, eq_comm]
    · rw [result_readItems_of_not_isItem hitem] at h
      simp [ih h, hitem]

/-- The items read have paths, and texts as patterns unless a map item has a list of others. -/
theorem of_readItems {vs : List Json} {items : List MapItem}
    (h : (readItems vs).result = .ok items) :
    (∀ item ∈ items, item.path ≠ []) ∧
      ((∀ item ∈ items, ∀ p ∈ item.ignore, p.IsText) ↔ ∀ v ∈ vs, ¬ IsMixed v) := by
  have hmem := mem_of_readItems h
  refine ⟨fun item hitem => ?_, fun htexts v hv hmixed => ?_, fun hnot item hitem => ?_⟩
  · obtain ⟨v, -, hv, hread⟩ := (hmem item).mp hitem
    exact (of_ofJson hv hread).1
  · have hstops := (exists_readItems_iff vs).mp ⟨items, h⟩ v hv
    obtain ⟨item, hread⟩ := (exists_ofJson_iff hmixed.1).mpr hstops
    have hitem := htexts item ((hmem item).mpr ⟨v, hv, hmixed.1, hread⟩)
    exact (of_ofJson hmixed.1 hread).2.mp hitem hmixed
  · obtain ⟨v, hv, hv', hread⟩ := (hmem item).mp hitem
    exact (of_ofJson hv' hread).2.mpr (hnot v hv)

/-- The list of items in the value of a settings file. -/
def itemsOf (v : Json) : List Json :=
  match v.get? "items" with
  | some (.list vs) => vs
  | _ => []

/-- Whether a value asks to find functions by their header alone. -/
def fastPathOf (v : Json) : Bool :=
  ((v.get? "heuristic_fast_path").map Json.isGiven).getD default.fastPath

theorem result_ofJson_of_list (shown : Text) {v : Json} {vs : List Json}
    (h : v.get? "items" = some (.list vs)) :
    (ofJson shown v).result = (readItems vs).result.map fun items => ⟨fastPathOf v, items⟩ := by
  cases v with
  | object ms =>
    simp only [ofJson, h, Report.result_bind]
    cases (readItems vs).result <;> rfl
  | _ => simp [Json.get?] at h

theorem result_ofJson_of_not_list (shown : Text) {v : Json}
    (h : ∀ vs, v.get? "items" ≠ some (.list vs)) :
    ∃ s, (ofJson shown v).result = .ok s ∧ s.items = default.items ∧
      ((∀ ms, v ≠ .object ms) → s = default) := by
  cases v with
  | object ms =>
    refine ⟨⟨fastPathOf (.object ms), default.items⟩, ?_, rfl,
      fun hobject => absurd rfl (hobject ms)⟩
    unfold ofJson
    dsimp only
    split
    next vs hvs => exact absurd hvs (h vs)
    next => rfl
  | _ => exact ⟨default, rfl, rfl, fun _ => rfl⟩

/-- The settings of a value are read unless a map item stops it. -/
theorem exists_result_ofJson_iff (shown : Text) (v : Json) :
    (∃ s, (ofJson shown v).result = .ok s) ↔ ∀ i ∈ itemsOf v, ¬ Stops i := by
  unfold itemsOf
  split
  next vs hvs =>
    rw [result_ofJson_of_list shown hvs, ← exists_readItems_iff]
    cases (readItems vs).result <;> simp [Except.map]
  next hnot =>
    obtain ⟨s, hs, -⟩ := result_ofJson_of_not_list shown hnot
    simp [hs]

/-- The items of settings have paths and, unless a list of patterns holds other values, texts as
patterns. What is no object leaves the defaults. -/
theorem of_result_ofJson {shown : Text} {v : Json} {s : Settings}
    (h : (ofJson shown v).result = .ok s) :
    (∀ item ∈ s.items, item.path ≠ []) ∧
      ((∀ item ∈ s.items, ∀ p ∈ item.ignore, p.IsText) ↔ ∀ i ∈ itemsOf v, ¬ IsMixed i) ∧
      ((∀ ms, v ≠ .object ms) → s = default) := by
  unfold itemsOf
  split
  next vs hvs =>
    rw [result_ofJson_of_list shown hvs] at h
    cases hread : (readItems vs).result with
    | error e => simp [hread, Except.map] at h
    | ok items =>
      obtain rfl : ⟨fastPathOf v, items⟩ = s := by simpa [hread, Except.map] using h
      obtain ⟨hpaths, htexts⟩ := of_readItems hread
      refine ⟨hpaths, htexts, fun hobject => ?_⟩
      cases v with
      | object ms => exact absurd rfl (hobject ms)
      | _ => simp [Json.get?] at hvs
  next hnot =>
    obtain ⟨s', hs', hitems, hobject⟩ := result_ofJson_of_not_list shown hnot
    obtain rfl : s = s' := Except.ok.inj (h.symm.trans hs')
    have heverything : MapItem.everything.path ≠ [] := by decide
    refine ⟨?_, ?_, hobject⟩
    · simpa [hitems, default] using heverything
    · simp [hitems, default, MapItem.everything]

/-! ## Files -/

/-- Where the settings of a project lie. -/
def place (home : Path) : Path := ⟨home.anchor, home.names ++ file⟩

variable [Host]

/-- The JSON value of some bytes. -/
def valueOf (bs : Bytes) : Except Json.ParseError Json :=
  Json.parseWithin Host.readingDepth (Text.withNewlines (Utf8.decode bs))

theorem load_of_bytes {v : Volume} {home : Path} {bs : Bytes}
    (h : DiskFiles.bytesAt v (place home) (place home) = .ok bs) :
    load v home = match Utf8.decodeStrict bs with
      | .error e => .fail (.undecodable e)
      | .ok t => ofText (place home).text t := by
  obtain ⟨hrefusal, hcontent⟩ := DiskFiles.bytesAt_eq_ok_iff.mp h
  have hfile : DiskFiles.isFileAt v (place home) = .ok true := by
    simp [DiskFiles.isFileAt, hrefusal, Volume.content_eq_ok_iff.mp hcontent]
  unfold place at h hfile ⊢
  cases hdecode : Utf8.decodeStrict bs <;> simp only [load, hfile, h, hdecode]

/-- Bytes are loaded as the settings of their value, or as the defaults if they have none for a
fault of the grammar. -/
theorem load_eq_ok_iff {v : Volume} {home : Path} {bs : Bytes} {s : Settings}
    (h : DiskFiles.bytesAt v (place home) (place home) = .ok bs) :
    (load v home).result = .ok s ↔ Utf8.IsValid bs ∧
      ((∃ value, valueOf bs = .ok value ∧ (ofJson (place home).text value).result = .ok s) ∨
        ∃ e, valueOf bs = .error e ∧ e.fault.isBound = false ∧ default = s) := by
  rw [load_of_bytes h]
  cases hdecode : Utf8.decodeStrict bs with
  | error e =>
    have hinvalid : ¬ Utf8.IsValid bs := by
      intro hvalid
      rw [Utf8.decodeStrict_eq_ok_iff.mpr ⟨hvalid, rfl⟩] at hdecode
      cases hdecode
    simp [Report.fail, hinvalid]
  | ok t =>
    obtain ⟨hvalid, rfl⟩ := Utf8.decodeStrict_eq_ok_iff.mp hdecode
    have hvalue : Json.parseWithin Host.readingDepth (Text.withNewlines (Utf8.decode bs)) =
        valueOf bs := rfl
    simp only [ofText, hvalue, hvalid, true_and]
    cases valueOf bs with
    | ok value => simp
    | error e =>
      by_cases hbound : e.fault.isBound = true
      · simp [hbound, Report.fail]
      · simp [hbound, Report.result_bind, Report.tell, Except.bind]

/-- The items that some bytes give. -/
def givenItems (bs : Bytes) : List Json :=
  match valueOf bs with
  | .ok value => itemsOf value
  | .error _ => []

/-- What keeps bytes from stopping the program: no stray bytes, nothing beyond the bounds of what is
read, and no ignore setting without parts. -/
structure Loadable (bs : Bytes) : Prop where
  isValid : Utf8.IsValid bs
  within : ∀ e, valueOf bs = .error e → e.fault.isBound = false
  items : ∀ i ∈ givenItems bs, ¬ Stops i

/-- A settings file is loaded if and only if it is loadable. What is loaded has items with paths
and, unless a list of patterns holds other values, with texts as patterns, and it is the defaults
where the file is no JSON object. -/
theorem load_iff {v : Volume} {home : Path} {bs : Bytes}
    (h : DiskFiles.bytesAt v (place home) (place home) = .ok bs) :
    ((∃ s, (load v home).result = .ok s) ↔ Loadable bs) ∧
      ∀ s, (load v home).result = .ok s →
        (∀ item ∈ s.items, item.path ≠ []) ∧
        ((∀ item ∈ s.items, ∀ p ∈ item.ignore, p.IsText) ↔ ∀ i ∈ givenItems bs, ¬ IsMixed i) ∧
        ((∀ ms, valueOf bs ≠ .ok (.object ms)) → s = default) := by
  refine ⟨⟨fun ⟨s, hs⟩ => ?_, fun hload => ?_⟩, fun s hs => ?_⟩
  · obtain ⟨hvalid, ⟨value, hvalue, hread⟩ | ⟨e, hvalue, hbound, -⟩⟩ := (load_eq_ok_iff h).mp hs
    · have hitems := (exists_result_ofJson_iff _ value).mp ⟨s, hread⟩
      exact ⟨hvalid, by simp [hvalue], by simpa [givenItems, hvalue] using hitems⟩
    · exact ⟨hvalid, by simpa [hvalue] using hbound, by simp [givenItems, hvalue]⟩
  · cases hvalue : valueOf bs with
    | ok value =>
      have hitems := hload.items
      rw [givenItems, hvalue] at hitems
      obtain ⟨s, hs⟩ := (exists_result_ofJson_iff (place home).text value).mpr hitems
      exact ⟨s, (load_eq_ok_iff h).mpr ⟨hload.isValid, .inl ⟨value, hvalue, hs⟩⟩⟩
    | error e =>
      exact ⟨default, (load_eq_ok_iff h).mpr
        ⟨hload.isValid, .inr ⟨e, hvalue, hload.within e hvalue, rfl⟩⟩⟩
  · obtain ⟨-, ⟨value, hvalue, hread⟩ | ⟨e, hvalue, -, rfl⟩⟩ := (load_eq_ok_iff h).mp hs
    · simpa [givenItems, hvalue] using of_result_ofJson hread
    · have heverything : MapItem.everything.path ≠ [] := by decide
      simpa [givenItems, hvalue, default, MapItem.everything] using heverything

end Settings

namespace Shelf

/-- A volume with a project whose settings file holds the given bytes. -/
def volume (bs : Bytes) : Volume :=
  ⟨.folder [("p", .folder [(".repomap", .folder [("config.json", .file bs)])])]⟩

/-- The project folder. -/
def home : Path := ⟨[Path.slash], ["p"]⟩

/-- Settings with a map item, an object without a path, and a value that is no object. -/
def items : Bytes :=
  Utf8.encodeLossy (Text.concat ["\x7b\"items\": [\x7b\"path\": 7, ",
    "\"ignore\": \"*.js, dist\"\x7d, \x7b\x7d, true]\x7d"])

/-- Settings with an ignore setting that has no parts. -/
def lone : Bytes :=
  Utf8.encodeLossy "\x7b\"items\": [\x7b\"path\": \"src\", \"ignore\": true\x7d]\x7d"

end Shelf

/-- Settings with faulty items are loaded, and the item that is loaded has a path. -/
theorem Settings.load_iff_items :
    DiskFiles.bytesAt (Shelf.volume Shelf.items) (Settings.place Shelf.home)
        (Settings.place Shelf.home) = .ok Shelf.items ∧
      Settings.Loadable Shelf.items ∧
      ∃ s, (Settings.load (Shelf.volume Shelf.items) Shelf.home).result = .ok s ∧
        s.items.map (·.path) = [Text.ofString "7"] ∧ ∀ item ∈ s.items, item.path ≠ [] := by
  have hbytes : DiskFiles.bytesAt (Shelf.volume Shelf.items) (Settings.place Shelf.home)
      (Settings.place Shelf.home) = .ok Shelf.items := rfl
  have hpaths : (Settings.load (Shelf.volume Shelf.items) Shelf.home).result.toOption.map
      (fun s => s.items.map (·.path)) = some [Text.ofString "7"] := by decide +kernel
  obtain ⟨hiff, hloaded⟩ := Settings.load_iff hbytes
  cases hload : (Settings.load (Shelf.volume Shelf.items) Shelf.home).result with
  | error e => simp [hload, Except.toOption] at hpaths
  | ok s =>
    rw [hload] at hpaths
    exact ⟨hbytes, hiff.mp ⟨s, hload⟩, s, rfl, Option.some.inj hpaths, (hloaded s hload).1⟩

/-- A stray byte in the settings stops the program, and so does an ignore setting of `true`. -/
theorem Settings.not_load_stray :
    DiskFiles.bytesAt (Shelf.volume [0xFF]) (Settings.place Shelf.home)
        (Settings.place Shelf.home) = .ok [0xFF] ∧
      (∃ e, (Settings.load (Shelf.volume [0xFF]) Shelf.home).result = .error (.undecodable e)) ∧
      DiskFiles.bytesAt (Shelf.volume Shelf.lone) (Settings.place Shelf.home)
        (Settings.place Shelf.home) = .ok Shelf.lone ∧
      ¬ ∃ s, (Settings.load (Shelf.volume Shelf.lone) Shelf.home).result = .ok s := by
  refine ⟨rfl, ⟨_, rfl⟩, rfl, ?_⟩
  rintro ⟨s, hs⟩
  have hnone : (Settings.load (Shelf.volume Shelf.lone) Shelf.home).result.toOption.isSome =
      false := by decide +kernel
  rw [hs] at hnone
  cases hnone

end SymbolAtlas
