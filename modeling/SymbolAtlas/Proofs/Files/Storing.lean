import SymbolAtlas.Files.Disk
import SymbolAtlas.Proofs.Files.Walks
import SymbolAtlas.Proofs.Text.Points

/-!
# Storing texts on a volume

Storing a text opens a file at a place of the volume (`DiskFiles.opened?`), and only then is the
text encoded. Where a file can be read, no folder has to be made, and the path leads to the same
place before and after: the bytes of the text are what is read then (`DiskFiles.writeAt_of_stored`),
or nothing if it has none (`DiskFiles.writeAt_unencodable`).
-/

namespace SymbolAtlas

namespace Volume

variable {v : Volume} {names : List Text} {a : Arrival}

theorem find_eq_ok_iff {e : Entry} :
    v.find names = .ok e ↔
      ∃ a, Walks v false linkLimit [] names a ∧ v.atEnd a.trail = e := by
  unfold find walk
  constructor
  · intro h
    cases hwalk : v.walkThrough false linkLimit [] names with
    | error fault => simp [hwalk, Except.map] at h
    | ok a =>
      rw [hwalk] at h
      exact ⟨a, walkThrough_eq_ok_iff.mp hwalk, Except.ok.inj h⟩
  · rintro ⟨a, ha, rfl⟩
    rw [ha.walkThrough_eq_ok]
    rfl

theorem content_eq_ok_iff {content : Bytes} :
    v.content names = .ok content ↔ v.find names = .ok (.file content) := by
  unfold Volume.content
  cases v.find names with
  | error fault => simp
  | ok e => cases e <;> simp

theorem isFolder_of_find {es : List (Text × Entry)} (h : v.find names = .ok (.folder es)) :
    v.isFolder names = true := by
  simp [isFolder, h]

theorem content_of_walks {new : Bytes} (h : Walks v false linkLimit [] names a)
    (hon : a.trail.On v) (hat : v.at? a.trail.names = some (.file new)) :
    v.content names = .ok new := by
  refine content_eq_ok_iff.mpr (find_eq_ok_iff.mpr ⟨a, h, ?_⟩)
  rw [hon.at?_names] at hat
  exact Option.some.inj hat

/-- Writing to a file that can be read changes that file, and then the path leads to its new
content. -/
theorem exists_target {old : Bytes} (h : v.content names = .ok old) :
    ∃ place, v.target names = .ok place ∧ Entry.Takes place (some v.top) ∧
      v.at? place = some (.file old) ∧
      ∀ new, (v.put place (.file new)).content names = .ok new := by
  obtain ⟨⟨trail, new⟩, hwalks, hend⟩ := find_eq_ok_iff.mp (content_eq_ok_iff.mp h)
  obtain rfl : new = none := hwalks.new_eq_none
  have hon : trail.On v := (hwalks.on .nil).trail
  have htakes := hon.takes (hend ▸ Entry.isBare_file old)
  have hat : v.at? trail.names = some (.file old) := hend ▸ hon.at?_names
  refine ⟨trail.names, ?_, htakes, hat, ?_⟩
  · simp only [target, walk, hwalks.allowingNew.walkThrough_eq_ok, hend]
  · intro new
    obtain ⟨b, hb, hbon, hnames⟩ := hwalks.put new (by simp [Arrival.names]) htakes
      (.inr ⟨old, hat⟩) .nil .nil rfl
    exact content_of_walks hb hbon (by rw [hnames, at?_put_self])

/-! ## Folders that exist -/

/-- A folder that a path leads to does not have to be made. A last name that is a single dot would
be taken for the name of a new folder. -/
theorem ensureFolder_of_find {es : List (Text × Entry)} (h : v.find names = .ok (.folder es))
    {front : List Text} {n : Text} (hnames : names = front ++ [n]) (hn : n ≠ Path.here) :
    v.ensureFolder names = .ok v := by
  obtain ⟨a, hwalks, -⟩ := find_eq_ok_iff.mp h
  obtain ⟨fewer, b, -, hb, -, hlast⟩ := hwalks.split hnames
  obtain ⟨outer, hend, hcases⟩ := hlast.of_cons
  -- Making it is refused as it exists, and that it is a folder makes the refusal good.
  have hmake : v.makeFolder names = .error .exists_ := by
    subst hnames
    simp only [makeFolder, List.getLast?_concat, List.dropLast_concat, walk,
      hb.walkThrough_eq_ok, hend]
    rcases hcases with hup | hhere | ⟨hlong, hthere⟩
    · rw [if_pos hup]
    · exact absurd hhere hn
    · simp [hlong, hthere rfl]
  simp [ensureFolder, hmake, isFolder_of_find h]

theorem ensureFolders_of_find {es : List (Text × Entry)} (h : v.find names = .ok (.folder es))
    (hnames : Path.here ∉ names) (anchor : Text) (around : Nat) :
    v.ensureFolders anchor around names.reverse = (v, .ok ()) := by
  rcases List.eq_nil_or_concat names with rfl | ⟨front, n, rfl⟩
  · simp [ensureFolders]
  · rw [List.concat_eq_append] at *
    have hn : n ≠ Path.here := by
      rintro rfl
      simp at hnames
    have hensure := ensureFolder_of_find h rfl hn
    rw [List.reverse_append, List.reverse_singleton, List.singleton_append]
    unfold ensureFolders
    simp only [List.reverse_cons, List.reverse_reverse, hensure]

/-- Around a file there is a folder. -/
theorem find_dropLast {content : Bytes} {front : List Text} {n : Text}
    (h : v.content names = .ok content) (hnames : names = front ++ [n]) :
    ∃ es, v.find front = .ok (.folder es) := by
  obtain ⟨a, hwalks, -⟩ := find_eq_ok_iff.mp (content_eq_ok_iff.mp h)
  obtain ⟨fewer, b, -, hb, -, hlast⟩ := hwalks.split hnames
  obtain ⟨es, hend, -⟩ := hlast.of_cons
  exact ⟨es, find_eq_ok_iff.mpr ⟨b, hb, hend⟩⟩

/-! ## Paths as they are written -/

theorem refusal?_eq_none_iff {p : Path} :
    refusal? p = none ↔
      ∃ bytes, Utf8.encode p.text = .ok bytes ∧ 0 ∉ bytes ∧ bytes.length ≤ pathLimit := by
  unfold refusal?
  cases Utf8.encode p.text with
  | error e => simp
  | ok bytes =>
    by_cases h0 : bytes.contains 0 = true
    · have hmem : 0 ∈ bytes := List.contains_iff_mem.mp h0
      simp [hmem]
    · have hmem : 0 ∉ bytes := fun hmem => h0 (List.contains_iff_mem.mpr hmem)
      by_cases hlen : pathLimit < bytes.length
      · simp [hmem, hlen]
      · simp [hmem, hlen]
        omega

end Volume

namespace Path

theorem joined_concat {front : List Text} (h : front ≠ []) (n : Text) :
    joined (front ++ [n]) = joined front ++ slash :: n := by
  induction front with
  | nil => exact absurd rfl h
  | cons m front ih =>
    cases front with
    | nil => simp [joined, List.intercalate]
    | cons k front =>
      have hrest := ih (by simp)
      have hcons : ∀ ns : List Text, joined (m :: k :: ns) = m ++ slash :: joined (k :: ns) := by
        intro ns
        simp [joined, List.intercalate]
      rw [List.cons_append, List.cons_append, hcons, ← List.cons_append, hrest, hcons]
      simp

/-- The path of the folder around is written as a part of the path, or as a single dot. -/
theorem text_parent (p : Path) : p.parent.text = here ∨ p.parent.text <+: p.text := by
  rcases List.eq_nil_or_concat p.names with h | ⟨front, n, h⟩
  · right
    simp [parent, text, h]
  · rw [List.concat_eq_append] at h
    have hparent : p.parent = ⟨p.anchor, front⟩ := by simp [parent, h]
    rw [hparent]
    by_cases hfront : front = []
    · by_cases hanchor : p.anchor = []
      · left
        simp [text, hfront, hanchor]
      · right
        simp [text, hfront, hanchor, h]
    · right
      refine ⟨slash :: n, ?_⟩
      simp [text, hfront, h, joined_concat hfront]

theorem here_not_mem_parse (t : Text) : here ∉ (parse t).names := by
  intro h
  have := (List.mem_filter.mp h).2
  simp at this

end Path

theorem Volume.refusal?_parent {p : Path} (h : refusal? p = none) : refusal? p.parent = none := by
  rcases p.text_parent with hhere | ⟨more, hmore⟩
  · refine refusal?_eq_none_iff.mpr ⟨[0x2E], ?_, by decide, by decide⟩
    rw [hhere]
    rfl
  · obtain ⟨bytes, hbytes, hzero, hlen⟩ := refusal?_eq_none_iff.mp h
    rw [← hmore] at hbytes
    obtain ⟨xs, ys, hxs, -, rfl⟩ := Utf8.encode_of_append hbytes
    rw [List.length_append] at hlen
    exact refusal?_eq_none_iff.mpr
      ⟨xs, hxs, fun hx => hzero (List.mem_append_left ys hx), by omega⟩

namespace DiskFiles

open Volume

theorem bytesAt_eq_ok_iff {v : Volume} {p shown : Path} {bs : Bytes} :
    bytesAt v p shown = .ok bs ↔ refusal? shown = none ∧ v.content p.names = .ok bs := by
  unfold bytesAt
  cases refusal? shown with
  | some e => simp
  | none => cases v.content p.names <;> simp

theorem here_not_mem_locate {d : DiskFiles} (h : Path.here ∉ d.home.names) (file : Text) :
    Path.here ∉ (d.locate file).names := by
  unfold locate Path.below
  split
  · exact Path.here_not_mem_parse file
  · simp only [List.mem_append, not_or]
    exact ⟨h, Path.here_not_mem_parse file⟩

/-! ## Files that can be read -/

variable {d : DiskFiles} {file text : Text} {old new : Bytes}

/-- The bytes stored under a path of a project. -/
def stored (d : DiskFiles) (file : Text) : Except Failure Bytes :=
  bytesAt d.volume (d.locate file) (d.locate file)

theorem stored_eq_ok_iff :
    d.stored file = .ok old ↔
      refusal? (d.locate file) = none ∧ d.volume.content (d.locate file).names = .ok old :=
  bytesAt_eq_ok_iff

variable [Host]

theorem isFile_of_stored (h : d.stored file = .ok old) : ProjectFiles.isFile d file = .ok true := by
  obtain ⟨hrefusal, hcontent⟩ := stored_eq_ok_iff.mp h
  show isFileAt d.volume (d.locate file) = .ok true
  simp [isFileAt, hrefusal, content_eq_ok_iff.mp hcontent]

theorem result_read_of_stored (h : d.stored file = .ok old) :
    (ProjectFiles.read d file).result = .ok (some (Utf8.decode old)) := by
  unfold stored at h
  show (d.readAt file).result = _
  simp only [readAt, h, Report.result_pure]

/-- Around a file that can be read no folder is made. -/
theorem prepare_of_stored (h : d.stored file = .ok old) (hhome : Path.here ∉ d.home.names) :
    prepare d.volume (d.locate file) = (d.volume, .ok ()) := by
  obtain ⟨hrefusal, hcontent⟩ := stored_eq_ok_iff.mp h
  have hhere := here_not_mem_locate hhome file
  simp only [prepare, refusal?_parent hrefusal]
  rcases List.eq_nil_or_concat (d.locate file).names with hnil | ⟨front, n, hconcat⟩
  · simp [Path.parent, hnil, ensureFolders]
  · rw [List.concat_eq_append] at hconcat
    have hparent : (d.locate file).parent.names = front := by simp [Path.parent, hconcat]
    obtain ⟨es, hfront⟩ := find_dropLast hcontent hconcat
    rw [hparent]
    refine ensureFolders_of_find hfront ?_ _ _
    intro hmem
    exact hhere (by simp [hconcat, hmem])

/-! ## Opening a file -/

/-- The volume and the place at which a file is opened to be written, with the folders around it
made; `none` if the file is not opened. -/
def opened? (d : DiskFiles) (file : Text) : Option (Volume × List Text) :=
  match prepare d.volume (d.locate file) with
  | (_, .error _) => none
  | (v, .ok ()) =>
    match refusal? (d.locate file), v.target (d.locate file).names with
    | none, .ok place => some (v, place)
    | _, _ => none

theorem of_opened? {v : Volume} {place : List Text} (h : d.opened? file = some (v, place)) :
    prepare d.volume (d.locate file) = (v, .ok ()) ∧ refusal? (d.locate file) = none ∧
      v.target (d.locate file).names = .ok place := by
  unfold opened? at h
  split at h
  · simp at h
  · next w hprepare =>
    split at h
    · next hrefusal htarget =>
      obtain ⟨rfl, rfl⟩ := Prod.mk.inj (Option.some.inj h)
      exact ⟨hprepare, hrefusal, htarget⟩
    · simp at h

/-- A file that is opened gets the bytes of the text, or none if the text has no form in bytes. -/
theorem writeAt_of_opened? {v : Volume} {place : List Text}
    (h : d.opened? file = some (v, place)) (text : Text) : d.writeAt file text =
    match Utf8.encode text with
      | .ok bytes => ({ d with volume := v.put place (.file bytes) }, pure true)
      | .error e =>
        ({ d with volume := v.put place (.file []) }, notWritten file (.unencodable e)) := by
  obtain ⟨hprepare, hrefusal, htarget⟩ := of_opened? h
  cases hencode : Utf8.encode text with
  | ok bytes => simp only [writeAt, hprepare, hrefusal, htarget, hencode]
  | error e => simp only [writeAt, hprepare, hrefusal, htarget, hencode]

/-- A file that can be read is opened where it is, and what is put there is what the path then
leads to. -/
theorem exists_opened (h : d.stored file = .ok old) (hhome : Path.here ∉ d.home.names) :
    ∃ place, d.opened? file = some (d.volume, place) ∧ ∀ new,
      ({ d with volume := d.volume.put place (.file new) } : DiskFiles).stored file = .ok new := by
  obtain ⟨hrefusal, hcontent⟩ := stored_eq_ok_iff.mp h
  obtain ⟨place, htarget, -, -, hput⟩ := exists_target hcontent
  refine ⟨place, ?_, fun new => stored_eq_ok_iff.mpr ⟨hrefusal, hput new⟩⟩
  simp only [opened?, prepare_of_stored h hhome, hrefusal, htarget]

/-- Storing a text where a file can be read succeeds if the text has a form in bytes, and then these
bytes are stored. -/
theorem writeAt_of_stored (h : d.stored file = .ok old) (hhome : Path.here ∉ d.home.names)
    (hnew : Utf8.encode text = .ok new) :
    ∃ d', d.writeAt file text = (d', pure true) ∧ d'.stored file = .ok new := by
  obtain ⟨place, hopened, hput⟩ := exists_opened h hhome
  refine ⟨_, ?_, hput new⟩
  rw [writeAt_of_opened? hopened, hnew]

/-- A text that has no form in bytes empties a file that can be read. -/
theorem writeAt_unencodable {e : Utf8.EncodeError} (h : d.stored file = .ok old)
    (hhome : Path.here ∉ d.home.names) (htext : Utf8.encode text = .error e) :
    ∃ d', d.writeAt file text = (d', notWritten file (.unencodable e)) ∧
      d'.stored file = .ok [] := by
  obtain ⟨place, hopened, hput⟩ := exists_opened h hhome
  refine ⟨_, ?_, hput []⟩
  rw [writeAt_of_opened? hopened, htext]

end DiskFiles

end SymbolAtlas
