import SymbolAtlas.Files.Volume

/-!
# Putting entries into volumes

`Entry.put` changes what stands at one row of names. Everywhere else an entry keeps its face, which
is all of a file or a link and of a folder that it is one (`Entry.face_at?_put`), provided that the
place takes an entry: everything on the way is a folder, and what stands there already has nothing
inside (`Entry.Takes`).
-/

namespace SymbolAtlas

namespace Entry

/-- An entry without what is inside it. -/
def face : Entry → Entry
  | folder _ => folder []
  | e => e

theorem eq_link_of_face {e : Option Entry} {target : Text}
    (h : e.map face = some (link target)) : e = some (link target) := by
  rcases e with _ | ⟨_⟩ | ⟨_⟩ | ⟨_⟩ <;> simp_all [face]

/-- Nothing stands below the entry. -/
def IsBare (e : Entry) : Prop := ∀ n ns, e.at? (n :: ns) = none

theorem isBare_file (content : Bytes) : (file content).IsBare := fun _ _ => rfl

theorem isBare_link (target : Text) : (link target).IsBare := fun _ _ => rfl

theorem isBare_folder_nil : (folder []).IsBare := fun _ _ => rfl

theorem isBare_of_not_folder {e : Entry} (h : ∀ es, e ≠ folder es) : e.IsBare := by
  cases e with
  | file content => exact isBare_file content
  | folder es => exact absurd rfl (h es)
  | link target => exact isBare_link target

/-! ## Names -/

theorem named?_setNamed_self (n : Text) (new : Entry) (es : List (Text × Entry)) :
    named? (setNamed n new es) n = some new := by
  induction es with
  | nil => simp [setNamed, named?]
  | cons e es ih =>
    unfold setNamed
    split
    · next h => simp [named?, h]
    · next h =>
      rw [named?, List.find?_cons_of_neg (by simpa using h)]
      exact ih

theorem named?_setNamed_of_ne {n m : Text} (h : m ≠ n) (new : Entry) (es : List (Text × Entry)) :
    named? (setNamed n new es) m = named? es m := by
  induction es with
  | nil => simp [setNamed, named?, h.symm]
  | cons e es ih =>
    unfold setNamed
    split
    · next heq =>
      have hne : ¬ n = m := fun hnm => h hnm.symm
      simp [named?, hne, heq]
    · unfold named? at ih ⊢
      by_cases hm : e.1 = m
      · rw [List.find?_cons_of_pos (by simpa using hm), List.find?_cons_of_pos (by simpa using hm)]
      · rw [List.find?_cons_of_neg (by simpa using hm), List.find?_cons_of_neg (by simpa using hm)]
        exact ih

/-! ## Rows of names -/

theorem at?_append (e : Entry) (ns ms : List Text) :
    e.at? (ns ++ ms) = (e.at? ns).bind fun x => x.at? ms := by
  induction ns generalizing e with
  | nil => simp [at?]
  | cons n ns ih =>
    cases e with
    | folder es =>
      simp only [List.cons_append, at?, Option.bind_assoc]
      congr 1
      funext x
      exact ih x
    | file content => rfl
    | link target => rfl

/-- What was put at a place stands there. -/
theorem at?_put_self (new : Entry) (ns : List Text) (e? : Option Entry) :
    (put new ns e?).at? ns = some new := by
  induction ns generalizing e? with
  | nil => rfl
  | cons n ns ih =>
    rcases e? with _ | ⟨content⟩ | ⟨es⟩ | ⟨target⟩
    · simp [put, at?, named?, ih]
    · simp [put, at?, named?, ih]
    · simp [put, at?, named?_setNamed_self, ih]
    · simp [put, at?, named?, ih]

/-- A place where an entry can be put without anything else being lost. -/
def Takes : List Text → Option Entry → Prop
  | [], e? => ∀ e, e? = some e → e.IsBare
  | n :: ns, e? => ∃ es, e? = some (folder es) ∧ Takes ns (named? es n)

theorem takes_concat {front : List Text} {n : Text} {e : Entry} {es : List (Text × Entry)}
    (hfront : e.at? front = some (folder es)) (hn : ∀ x, named? es n = some x → x.IsBare) :
    Takes (front ++ [n]) (some e) := by
  induction front generalizing e with
  | nil =>
    obtain rfl : e = folder es := Option.some.inj hfront
    exact ⟨es, rfl, hn⟩
  | cons m front ih =>
    cases e with
    | folder outer =>
      obtain ⟨x, hx, hat⟩ := Option.bind_eq_some_iff.mp hfront
      refine ⟨outer, rfl, ?_⟩
      show Takes (front ++ [n]) (named? outer m)
      rw [hx]
      exact ih hat
    | file content => cases hfront
    | link target => cases hfront

/-- Putting an entry at a place changes no other place. -/
theorem face_at?_put {new : Entry} (hnew : new.IsBare) {place ms : List Text} {e? : Option Entry}
    (hplace : Takes place e?) (hne : ms ≠ place) :
    ((put new place e?).at? ms).map face = (e?.bind fun e => e.at? ms).map face := by
  induction place generalizing ms e? with
  | nil =>
    -- Below the place there is nothing, before and after.
    obtain ⟨k, ks, rfl⟩ := List.exists_cons_of_ne_nil hne
    rw [put, hnew k ks]
    cases e? with
    | none => rfl
    | some e => rw [Option.bind_some, hplace e rfl k ks]
  | cons n ns ih =>
    obtain ⟨es, rfl, hrest⟩ := hplace
    cases ms with
    | nil => rfl
    | cons m ms =>
      show ((named? (setNamed n (put new ns (named? es n)) es) m).bind _).map face =
        ((named? es m).bind _).map face
      by_cases h : m = n
      · subst h
        rw [named?_setNamed_self]
        exact ih hrest fun heq => hne (by rw [heq])
      · rw [named?_setNamed_of_ne h]

end Entry

namespace Volume

/-- Two volumes with the same files. -/
def SameFiles (v w : Volume) : Prop :=
  ∀ ns content, v.at? ns = some (.file content) ↔ w.at? ns = some (.file content)

theorem SameFiles.refl (v : Volume) : v.SameFiles v := fun _ _ => Iff.rfl

theorem SameFiles.trans {u v w : Volume} (huv : u.SameFiles v) (hvw : v.SameFiles w) :
    u.SameFiles w := fun ns content => (huv ns content).trans (hvw ns content)

theorem eq_file_iff_of_face_eq {x y : Option Entry} (h : x.map Entry.face = y.map Entry.face)
    (content : Bytes) : x = some (.file content) ↔ y = some (.file content) := by
  rcases x with _ | ⟨_⟩ | ⟨_⟩ | ⟨_⟩ <;> rcases y with _ | ⟨_⟩ | ⟨_⟩ | ⟨_⟩ <;>
    simp_all [Entry.face]

variable {v : Volume} {place ms : List Text} {new : Entry}

theorem at?_put_self (v : Volume) (place : List Text) (new : Entry) :
    (v.put place new).at? place = some new :=
  Entry.at?_put_self new place (some v.top)

theorem face_at?_put (hnew : new.IsBare) (hplace : Entry.Takes place (some v.top))
    (hne : ms ≠ place) : ((v.put place new).at? ms).map Entry.face = (v.at? ms).map Entry.face :=
  Entry.face_at?_put hnew hplace hne

/-- A new folder changes no file. -/
theorem sameFiles_put_folder (hplace : Entry.Takes place (some v.top))
    (hfree : v.at? place = none) : v.SameFiles (v.put place (.folder [])) := by
  intro ms content
  by_cases h : ms = place
  · subst h
    simp [hfree, at?_put_self]
  · exact eq_file_iff_of_face_eq (face_at?_put Entry.isBare_folder_nil hplace h).symm content

end Volume

end SymbolAtlas
