import SymbolAtlas.Proofs.Files.Refused
import SymbolAtlas.Proofs.Text.Characters

/-!
# Reading what was stored

A file that is stored, whether it was there before or is new, is found under its path afterwards
(`Volume.content_put`): the walk that led to the place where it was put leads there again. With the
laws of the encoding this makes reading and writing lossless, which `DiskFiles.read_write_lossless`
says for bytes, for texts and for the texts that are refused.
-/

namespace SymbolAtlas

namespace Volume

variable {v : Volume} {creating : Bool} {links : Nat} {trail : Trail} {names place : List Text}
  {a : Arrival}

/-! ## The ends of walks -/

/-- Above a folder there are folders up to the top. -/
theorem Trail.On.exists_top (h : trail.On v) {es : List (Text × Entry)}
    (hend : v.atEnd trail = .folder es) : ∃ es, v.top = .folder es := by
  induction h generalizing es with
  | nil => exact ⟨es, hend⟩
  | cons _ houter _ ih => exact ih houter

/-- Links are followed where they are met, so no walk ends at one. -/
theorem Walks.atEnd_ne_link (h : Walks v creating links trail names a) (htrail : trail.On v)
    (hstart : ∀ target, v.atEnd trail ≠ .link target) :
    ∀ target, v.atEnd a.trail ≠ .link target := by
  induction h with
  | done => exact hstart
  | up _ _ ih =>
    refine ih htrail.tail ?_
    cases htrail with
    | nil => exact hstart
    | cons _ houter _ => exact fun target heq => by simp [houter] at heq
  | here _ _ ih => exact ih htrail hstart
  | link hend _ _ _ _ _ ih =>
    split at ih
    · obtain ⟨es, htop⟩ := htrail.exists_top hend
      exact ih .nil fun target heq => by simp [atEnd, htop] at heq
    · exact ih htrail hstart
  | down hend _ _ _ hn hlink _ ih => exact ih (htrail.cons hend hn) hlink
  | new => exact hstart

/-- What is put at the place of a file is found by the path to it, also if the file is new. -/
theorem content_put (h : v.target names = .ok place) (new : Bytes) :
    (v.put place (.file new)).content names = .ok new := by
  have htakes := takes_of_target h
  unfold target at h
  split at h
  · simp at h
  · next trail n hwalk =>
    have hwalks := walks_of_walkThrough hwalk
    have hon := hwalks.on .nil
    obtain ⟨es, hend, hn⟩ := hon.new n rfl
    obtain rfl := Except.ok.inj h
    obtain ⟨b, hb, hbon, hnames⟩ := hwalks.put new rfl htakes
      (.inl (hon.trail.at?_new hend hn)) .nil .nil rfl
    exact content_of_walks hb hbon (by rw [hnames]; exact at?_put_self v _ _)
  · next trail hwalk =>
    have hwalks := walks_of_walkThrough hwalk
    have hon := hwalks.on .nil
    split at h
    · simp at h
    · next hfolder =>
      obtain rfl := Except.ok.inj h
      cases hend : v.atEnd trail with
      | folder es => exact absurd hend (hfolder es)
      | file old =>
        have hat : v.at? trail.names = some (.file old) := hend ▸ hon.trail.at?_names
        obtain ⟨b, hb, hbon, hnames⟩ := hwalks.put new (by simp [Arrival.names]) htakes
          (.inr ⟨old, hat⟩) .nil .nil rfl
        exact content_of_walks hb hbon (by rw [hnames, at?_put_self])
      | link target =>
        -- Only a top that is a link itself ends a walk that way, and then no name was walked.
        have htop : ∃ target, v.top = .link target := by
          by_contra hnot
          exact hwalks.atEnd_ne_link .nil (fun target heq => hnot ⟨target, heq⟩) target hend
        obtain ⟨target, htop⟩ := htop
        cases names with
        | nil =>
          cases hwalks
          rfl
        | cons n rest =>
          obtain ⟨es, hfolder, -⟩ := hwalks.of_cons
          simp [atEnd, htop] at hfolder

/-- Storing the content that a file has already changes no file. -/
theorem sameFiles_put_same {old : Bytes} (htakes : Entry.Takes place (some v.top))
    (hold : v.at? place = some (.file old)) : v.SameFiles (v.put place (.file old)) := by
  intro ns content
  by_cases h : ns = place
  · rw [h, hold, at?_put_self]
  · exact (eq_file_iff_of_face_eq (face_at?_put (Entry.isBare_file old) htakes h) content).symm

end Volume

namespace DiskFiles

open Volume

variable [Host] {d : DiskFiles} {file text : Text} {bs : Bytes}

/-! ## Storing and reading -/

/-- A text is stored exactly if its file is opened and it has a form in bytes. -/
theorem result_writeAt_eq_true_iff :
    (d.writeAt file text).2.result = .ok true ↔
      (d.opened? file).isSome ∧ ∃ bytes, Utf8.encode text = .ok bytes := by
  cases hopened : d.opened? file with
  | none => simp [(writeAt_of_not_opened hopened text).2]
  | some opened =>
    rw [writeAt_of_opened? hopened text]
    cases Utf8.encode text with
    | ok bytes => simp
    | error e => simp [notWritten, Report.result_bind, Report.tell, Except.bind]

/-- What was stored is what stands under the path. -/
theorem stored_of_written (h : (d.writeAt file text).2.result = .ok true) :
    ∃ bytes, Utf8.encode text = .ok bytes ∧ (d.writeAt file text).1.stored file = .ok bytes := by
  obtain ⟨hopened, bytes, hbytes⟩ := result_writeAt_eq_true_iff.mp h
  obtain ⟨⟨v, place⟩, hopened⟩ := Option.isSome_iff_exists.mp hopened
  obtain ⟨-, hrefusal, htarget⟩ := of_opened? hopened
  refine ⟨bytes, hbytes, ?_⟩
  rw [writeAt_of_opened? hopened, hbytes]
  exact stored_eq_ok_iff.mpr ⟨hrefusal, content_put htarget bytes⟩

/-- Storing the text that was read from a file leaves every file as it is. -/
theorem writeAt_decode (h : d.stored file = .ok bs) (hhome : Path.here ∉ d.home.names) :
    (d.writeAt file (Utf8.decode bs)).2.result = .ok true ∧
      (d.writeAt file (Utf8.decode bs)).1.stored file = .ok bs ∧
      d.volume.SameFiles (d.writeAt file (Utf8.decode bs)).1.volume := by
  obtain ⟨hrefusal, hcontent⟩ := stored_eq_ok_iff.mp h
  obtain ⟨place, htarget, htakes, hat, hput⟩ := exists_target hcontent
  have hopened : d.opened? file = some (d.volume, place) := by
    simp only [opened?, prepare_of_stored h hhome, hrefusal, htarget]
  rw [writeAt_of_opened? hopened, Utf8.encode_decode]
  exact ⟨rfl, stored_eq_ok_iff.mpr ⟨hrefusal, hput bs⟩, sameFiles_put_same htakes hat⟩

end DiskFiles

/-- Reading a file and writing it loses nothing: the text that is read from any bytes is stored as
these bytes; a text is stored, in a file that can be opened, unless it has a surrogate that stands
for no byte; a text without surrogates is read as it was stored. What is read are the characters
whose forms stand in the bytes, and every other byte on its own. -/
theorem DiskFiles.read_write_lossless [Host] (d : DiskFiles) (hhome : Path.here ∉ d.home.names)
    (file : Text) :
    (∀ bs, d.stored file = .ok bs → ∃ text,
      (d.readAt file).result = .ok (some text) ∧ (d.writeAt file text).2.result = .ok true ∧
      (d.writeAt file text).1.stored file = .ok bs ∧
      d.volume.SameFiles (d.writeAt file text).1.volume) ∧
    (∀ text, ((∃ e, Utf8.encode text = .error e) ↔ Utf8.IsUnwritable text) ∧
      ((d.writeAt file text).2.result = .ok true ↔
        (d.opened? file).isSome ∧ ¬ Utf8.IsUnwritable text)) ∧
    (∀ text : Text, (∀ c ∈ text, c.isSurrogate = false) →
      (d.writeAt file text).2.result = .ok true →
      ((d.writeAt file text).1.readAt file).result = .ok (some text)) ∧
    (∀ c rest, CodePoint.isSurrogate c = false →
      Utf8.decode (Utf8.octetsOf c.val ++ rest) = c :: Utf8.decode rest) ∧
    (∀ b rest, ¬ Utf8.StartsCharacter (b :: rest) →
      Utf8.decode (b :: rest) = CodePoint.ofStrayByte b :: Utf8.decode rest) := by
  have hrefused : ∀ text, (∃ e, Utf8.encode text = .error e) ↔ Utf8.IsUnwritable text :=
    fun text => Utf8.encode_eq_error_iff
  refine ⟨?_, ?_, ?_, ?_, ?_⟩
  · intro bs hstored
    obtain ⟨hwritten, hbytes, hsame⟩ := writeAt_decode hstored hhome
    exact ⟨_, result_read_of_stored hstored, hwritten, hbytes, hsame⟩
  · intro text
    refine ⟨hrefused text, ?_⟩
    rw [result_writeAt_eq_true_iff, ← hrefused text]
    cases Utf8.encode text <;> simp
  · intro text htext hwritten
    obtain ⟨bytes, hbytes, hstored⟩ := stored_of_written hwritten
    have hread : (DiskFiles.readAt _ file).result = _ := result_read_of_stored hstored
    rw [hread, Utf8.decode_of_encode htext hbytes]
  · exact fun c rest hc => Utf8.decode_octetsOf_append hc rest
  · exact fun b rest h => Utf8.decode_cons_of_not_startsCharacter h

namespace Legacy

/-- The bytes of a file in an older encoding: a letter of one byte, half of a pair of surrogates in
three bytes, and a letter of two bytes, which alone is UTF-8. -/
def bytes : Bytes := [0x2F, 0x2F, 0xE9, 0x0D, 0x0A, 0xED, 0xA0, 0x80, 0xC3, 0xA9]

/-- A project with this file. -/
def files : DiskFiles :=
  ⟨⟨.folder [("p", .folder [("c.js", .file bytes)])]⟩, ⟨[Path.slash], ["p"]⟩⟩

end Legacy

/-- A file in an older encoding is stored as it was read, and a text with line ends of two
characters is read from a new file as it was stored. -/
theorem DiskFiles.read_write_lossless_legacy :
    Path.here ∉ Legacy.files.home.names ∧
    (Legacy.files.stored "c.js" = .ok Legacy.bytes ∧ ∃ text,
      (Legacy.files.readAt "c.js").result = .ok (some text) ∧
      (Legacy.files.writeAt "c.js" text).1.stored "c.js" = .ok Legacy.bytes) ∧
    (Legacy.files.writeAt "new/é.js" "é\r\n").2.result = .ok true ∧
    ((Legacy.files.writeAt "new/é.js" "é\r\n").1.readAt "new/é.js").result =
      .ok (some "é\r\n") := by
  have hhome : Path.here ∉ Legacy.files.home.names := by decide
  have hstored : Legacy.files.stored "c.js" = .ok Legacy.bytes := rfl
  obtain ⟨hbytes, -, -⟩ := DiskFiles.read_write_lossless Legacy.files hhome "c.js"
  obtain ⟨text, hread, -, hback, -⟩ := hbytes Legacy.bytes hstored
  obtain ⟨-, hrefused, htext, -⟩ := DiskFiles.read_write_lossless Legacy.files hhome "new/é.js"
  have hwritten : (Legacy.files.writeAt "new/é.js" "é\r\n").2.result = .ok true :=
    DiskFiles.result_writeAt_eq_true_iff.mpr ⟨by decide +kernel, _, rfl⟩
  exact ⟨hhome, ⟨hstored, text, hread, hback⟩, hwritten, htext _ (by decide) hwritten⟩

end SymbolAtlas
