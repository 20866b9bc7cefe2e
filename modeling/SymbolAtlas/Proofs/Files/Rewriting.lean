import SymbolAtlas.Proofs.Files.Storing

/-!
# Files that are written again

Writing to a file that can be read changes the bytes of this one file (`Volume.ChangedAt`). A walk
sees of a file only that it is one, so every path leads where it led before
(`Volume.SameOutline.resolve`), and what is found there is the same unless it is the file itself
(`Volume.ChangedAt.find`). So a project holds under the paths that do not lead to the file what it
held before (`DiskFiles.unchanged_of_changedAt`), and writing comes to such a change whatever the
text is (`DiskFiles.exists_changedAt`).
-/

namespace SymbolAtlas

/-! ## Outlines -/

/-- An entry as a walk sees it, without the bytes of a file and without what is in a folder. -/
def Entry.outline : Entry → Entry
  | file _ => file []
  | folder _ => folder []
  | link target => link target

theorem Entry.outline_eq_of_face {x y : Option Entry} (h : x.map face = y.map face) :
    x.map outline = y.map outline := by
  rcases x with _ | ⟨_⟩ | ⟨_⟩ | ⟨_⟩ <;> rcases y with _ | ⟨_⟩ | ⟨_⟩ | ⟨_⟩ <;>
    simp_all [face, outline]

theorem Entry.eq_or_folder_of_face {e e' : Entry} (h : e'.face = e.face) :
    e' = e ∨ ∃ es es', e = folder es ∧ e' = folder es' := by
  cases e <;> cases e' <;> simp_all [face]

/-- Entries of the same outline are of the same kind, and links lead to the same. -/
theorem Entry.cases_of_outline {x y : Option Entry} (h : y.map outline = x.map outline) :
    (x = none ∧ y = none) ∨ (∃ old new, x = some (file old) ∧ y = some (file new)) ∨
      (∃ es es', x = some (folder es) ∧ y = some (folder es')) ∨
      ∃ target, x = some (link target) ∧ y = some (link target) := by
  rcases x with _ | ⟨_⟩ | ⟨_⟩ | ⟨_⟩ <;> rcases y with _ | ⟨_⟩ | ⟨_⟩ | ⟨_⟩ <;>
    simp_all [outline]

namespace Volume

/-- Two volumes that look the same to a walk. -/
def SameOutline (v w : Volume) : Prop :=
  ∀ ns, (w.at? ns).map Entry.outline = (v.at? ns).map Entry.outline

/-- The file at a place may have other bytes, and everything else is as it was. -/
structure ChangedAt (v w : Volume) (place : List Text) : Prop where
  before : ∃ old, v.at? place = some (.file old)
  after : ∃ new, w.at? place = some (.file new)
  others : ∀ ns, ns ≠ place → (w.at? ns).map Entry.face = (v.at? ns).map Entry.face

variable {v w : Volume} {creating : Bool} {names place : List Text}

theorem ChangedAt.sameOutline (h : v.ChangedAt w place) : v.SameOutline w := by
  intro ns
  by_cases hns : ns = place
  · obtain ⟨old, hold⟩ := h.before
    obtain ⟨new, hnew⟩ := h.after
    rw [hns, hold, hnew]
    rfl
  · exact Entry.outline_eq_of_face (h.others ns hns)

theorem changedAt_put {old : Bytes} (htakes : Entry.Takes place (some v.top))
    (hold : v.at? place = some (.file old)) (new : Bytes) :
    v.ChangedAt (v.put place (.file new)) place :=
  ⟨⟨old, hold⟩, ⟨new, at?_put_self _ _ _⟩,
    fun _ hns => face_at?_put (Entry.isBare_file new) htakes hns⟩

/-! ## Walks -/

/-- Where a walk ends, or why it does not. -/
def endOf (x : Except PathFault Arrival) : Except PathFault (List Text) := x.map Arrival.names

/-- Two ways to go on behind a link lead to the same ends, from trails of the same names. -/
def SameEnds (v w : Volume) (follow follow' : Trail → List Text → Except PathFault Arrival) :
    Prop :=
  ∀ {s t : Trail} (ns : List Text), s.On v → t.On w → t.names = s.names →
    endOf (follow' t ns) = endOf (follow s ns)

theorem SameOutline.sameEnds_walkWith (h : v.SameOutline w)
    {follow follow' : Trail → List Text → Except PathFault Arrival}
    (hfollow : SameEnds v w follow follow') :
    SameEnds v w (v.walkWith creating follow) (w.walkWith creating follow') := by
  intro s t ns hs ht hnames
  induction ns generalizing s t with
  | nil => simp [walkWith, endOf, Except.map, Arrival.names, hnames]
  | cons n rest ih =>
    have hat := h s.names
    rw [← hnames, ht.at?_names, hnames, hs.at?_names] at hat
    rw [walkWith, walkWith]
    rcases Entry.cases_of_outline hat with
      ⟨hend, -⟩ | ⟨old, new, hend, hend'⟩ | ⟨es, es', hend, hend'⟩ | ⟨target, hend, hend'⟩
    · cases hend
    · rw [Option.some.inj hend, Option.some.inj hend']
    · have hend := Option.some.inj hend
      have hend' := Option.some.inj hend'
      have hn := h (s.names ++ [n])
      rw [← hnames, ht.at?_concat hend', hnames, hs.at?_concat hend] at hn
      simp only [hend, hend']
      split
      · exact ih hs.tail ht.tail (by simp [Trail.names_tail, hnames])
      split
      · exact ih hs ht hnames
      split
      · rfl
      -- The name stands for nothing in both volumes, or for entries of the same outline.
      rcases Entry.cases_of_outline hn with
        ⟨hx, hy⟩ | ⟨old, new, hx, hy⟩ | ⟨inner, inner', hx, hy⟩ | ⟨target, hx, hy⟩
      · simp only [hx, hy]
        split
        · simp [endOf, Except.map, Arrival.names, hnames]
        · rfl
      · simp only [hx, hy]
        exact ih (hs.cons hend hx) (ht.cons hend' hy) (by simp [hnames])
      · simp only [hx, hy]
        exact ih (hs.cons hend hx) (ht.cons hend' hy) (by simp [hnames])
      · simp only [hx, hy]
        split
        · exact hfollow _ .nil .nil rfl
        · exact hfollow _ hs ht hnames
    · rw [Option.some.inj hend, Option.some.inj hend']

theorem SameOutline.sameEnds_walkThrough (h : v.SameOutline w) (links : Nat) :
    SameEnds v w (v.walkThrough creating links) (w.walkThrough creating links) := by
  induction links with
  | zero => exact h.sameEnds_walkWith fun _ _ _ _ => rfl
  | succ links ih => exact h.sameEnds_walkWith ih

/-- A path leads to the same place in volumes that look the same to a walk. -/
theorem SameOutline.resolve (h : v.SameOutline w) (names : List Text) :
    w.resolve names = v.resolve names :=
  h.sameEnds_walkThrough linkLimit names .nil .nil rfl

/-- What a path leads to is what stands at the place that it leads to. -/
theorem exists_of_resolve (h : v.resolve names = .ok place) :
    ∃ e, v.at? place = some e ∧ v.find names = .ok e := by
  unfold resolve walk at h
  cases hwalk : v.walkThrough false linkLimit [] names with
  | error fault => simp [hwalk, Except.map] at h
  | ok a =>
    have hwalks := walks_of_walkThrough hwalk
    have hplace : a.trail.names = place := by
      simpa [hwalk, Except.map, Arrival.names, hwalks.new_eq_none] using h
    refine ⟨v.atEnd a.trail, ?_, by simp [find, walk, hwalk, Except.map]⟩
    rw [← hplace]
    exact (hwalks.on .nil).trail.at?_names

theorem find_of_not_resolve {fault : PathFault} (h : v.resolve names = .error fault) :
    v.find names = .error fault := by
  unfold resolve walk at h
  unfold find walk
  cases hwalk : v.walkThrough false linkLimit [] names with
  | error fault => simpa [hwalk, Except.map] using h
  | ok a => simp [hwalk, Except.map] at h

/-- A path that does not lead to the file that changed leads to what it led to, or to a folder as
before. -/
theorem ChangedAt.find (h : v.ChangedAt w place) (hnot : v.resolve names ≠ .ok place) :
    w.find names = v.find names ∨
      ∃ es es', v.find names = .ok (.folder es) ∧ w.find names = .ok (.folder es') := by
  have hsame := h.sameOutline.resolve names
  cases hresolve : v.resolve names with
  | error fault =>
    exact .inl (by rw [find_of_not_resolve hresolve, find_of_not_resolve (hsame.trans hresolve)])
  | ok other =>
    obtain ⟨e, hat, hfind⟩ := exists_of_resolve hresolve
    obtain ⟨e', hat', hfind'⟩ := exists_of_resolve (hsame.trans hresolve)
    have hface := h.others other fun heq => hnot (heq ▸ hresolve)
    rw [hat, hat'] at hface
    rcases Entry.eq_or_folder_of_face (Option.some.inj hface) with rfl | ⟨es, es', rfl, rfl⟩
    · exact .inl (hfind'.trans hfind.symm)
    · exact .inr ⟨es, es', hfind, hfind'⟩

theorem content_of_resolve {content : Bytes} (h : v.resolve names = .ok place)
    (hat : v.at? place = some (.file content)) : v.content names = .ok content := by
  obtain ⟨e, he, hfind⟩ := exists_of_resolve h
  obtain rfl : Entry.file content = e := Option.some.inj (hat.symm.trans he)
  exact content_eq_ok_iff.mpr hfind

theorem exists_resolve_of_content {content : Bytes} (h : v.content names = .ok content) :
    ∃ place, v.resolve names = .ok place ∧ v.at? place = some (.file content) := by
  have hfind := content_eq_ok_iff.mp h
  cases hresolve : v.resolve names with
  | error fault => simp [find_of_not_resolve hresolve] at hfind
  | ok place =>
    obtain ⟨e, hat, hfind'⟩ := exists_of_resolve hresolve
    obtain rfl : e = .file content := Except.ok.inj (hfind'.symm.trans hfind)
    exact ⟨place, rfl, hat⟩

/-- A file that can be read is written where the path to it leads. -/
theorem resolve_eq_target {old : Bytes} (h : v.content names = .ok old)
    (htarget : v.target names = .ok place) : v.resolve names = .ok place := by
  obtain ⟨⟨trail, new⟩, hwalks, hend⟩ := find_eq_ok_iff.mp (content_eq_ok_iff.mp h)
  obtain rfl : new = none := hwalks.new_eq_none
  simp only [target, walk, hwalks.allowingNew.walkThrough_eq_ok, hend] at htarget
  simp only [resolve, walk, hwalks.walkThrough_eq_ok]
  rw [← htarget]
  simp [Except.map, Arrival.names]

end Volume

/-! ## Files of a project -/

namespace DiskFiles

open Volume

variable {d : DiskFiles} {file text : Text} {old new : Bytes} {w : Volume} {place : List Text}

/-- Where a path of a project leads, if it can be walked. -/
def place? (d : DiskFiles) (file : Text) : Option (List Text) :=
  match refusal? (d.locate file), d.volume.resolve (d.locate file).names with
  | none, .ok place => some place
  | _, _ => none

theorem place?_eq_some_iff :
    d.place? file = some place ↔
      refusal? (d.locate file) = none ∧ d.volume.resolve (d.locate file).names = .ok place := by
  unfold place?
  cases refusal? (d.locate file) <;> cases d.volume.resolve (d.locate file).names <;> simp

/-- Paths that are written differently may lead to one place. -/
example : (⟨⟨.folder [("p", .folder [("b.js", .file [])])]⟩, ⟨[Path.slash], ["p"]⟩⟩ :
    DiskFiles).place? "../p/./b.js" = some [Text.ofString "p", Text.ofString "b.js"] := by decide

/-- The bytes stored under a path are those of the file at the place that it leads to. -/
theorem stored_iff_place? :
    d.stored file = .ok old ↔
      ∃ place, d.place? file = some place ∧ d.volume.at? place = some (.file old) := by
  rw [stored_eq_ok_iff]
  constructor
  · rintro ⟨hrefusal, hcontent⟩
    obtain ⟨place, hresolve, hat⟩ := exists_resolve_of_content hcontent
    exact ⟨place, place?_eq_some_iff.mpr ⟨hrefusal, hresolve⟩, hat⟩
  · rintro ⟨place, hplace, hat⟩
    obtain ⟨hrefusal, hresolve⟩ := place?_eq_some_iff.mp hplace
    exact ⟨hrefusal, content_of_resolve hresolve hat⟩

/-- A file that changes leaves where paths lead as it is. -/
theorem place?_of_changedAt (h : d.volume.ChangedAt w place) (p : Text) :
    ({ d with volume := w } : DiskFiles).place? p = d.place? p := by
  have hresolve : w.resolve (d.locate p).names = d.volume.resolve (d.locate p).names :=
    h.sameOutline.resolve _
  unfold place?
  show (match refusal? (d.locate p), w.resolve (d.locate p).names with
    | none, .ok place => some place
    | _, _ => none) = _
  rw [hresolve]

variable [Host]

/-- A file that changes leaves alone what paths hold that do not lead to it. -/
theorem unchanged_of_changedAt (h : d.volume.ChangedAt w place) {p : Text}
    (hp : d.place? p ≠ some place) :
    ProjectFiles.isFile ({ d with volume := w } : DiskFiles) p = ProjectFiles.isFile d p ∧
      ProjectFiles.read ({ d with volume := w } : DiskFiles) p = ProjectFiles.read d p := by
  have hsame : isFileAt w (d.locate p) = isFileAt d.volume (d.locate p) ∧
      bytesAt w (d.locate p) (d.locate p) = bytesAt d.volume (d.locate p) (d.locate p) := by
    cases hrefusal : refusal? (d.locate p) with
    | some f => cases f <;> simp [isFileAt, bytesAt, hrefusal]
    | none =>
      have hnot : d.volume.resolve (d.locate p).names ≠ .ok place :=
        fun hresolve => hp (place?_eq_some_iff.mpr ⟨hrefusal, hresolve⟩)
      rcases h.find hnot with hfind | ⟨es, es', hbefore, hafter⟩
      · simp [isFileAt, bytesAt, Volume.content, hrefusal, hfind]
      · simp [isFileAt, bytesAt, Volume.content, hrefusal, hbefore, hafter]
  refine ⟨hsame.1, ?_⟩
  show ({ d with volume := w } : DiskFiles).readAt p = d.readAt p
  have hlocate : ({ d with volume := w } : DiskFiles).locate p = d.locate p := rfl
  simp only [readAt, hlocate, hsame.2]

/-- Writing to a file that can be read changes nothing but this file, whatever comes of it. -/
theorem exists_changedAt (h : d.stored file = .ok old) (hhome : Path.here ∉ d.home.names)
    (text : Text) :
    ∃ w place, (d.writeAt file text).1 = { d with volume := w } ∧
      d.place? file = some place ∧ d.volume.ChangedAt w place := by
  obtain ⟨hrefusal, hcontent⟩ := stored_eq_ok_iff.mp h
  obtain ⟨place, htarget, htakes, hat, -⟩ := exists_target hcontent
  obtain ⟨place', hopened, -⟩ := exists_opened h hhome
  obtain rfl : place = place' :=
    Except.ok.inj (htarget.symm.trans (of_opened? hopened).2.2)
  have hplace : d.place? file = some place :=
    place?_eq_some_iff.mpr ⟨hrefusal, resolve_eq_target hcontent htarget⟩
  have hwrite := writeAt_of_opened? hopened text
  cases hencode : Utf8.encode text with
  | ok new =>
    rw [hwrite, hencode]
    exact ⟨_, place, rfl, hplace, changedAt_put htakes hat new⟩
  | error e =>
    rw [hwrite, hencode]
    exact ⟨_, place, rfl, hplace, changedAt_put htakes hat []⟩

end DiskFiles

end SymbolAtlas
