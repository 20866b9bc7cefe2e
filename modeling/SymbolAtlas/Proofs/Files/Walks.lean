import SymbolAtlas.Proofs.Files.Entries

/-!
# Walks

`Volume.Walks` is the relation of a successful walk: it says for each name what the walk does there,
and `walkThrough_eq_ok_iff` says that it is what `Volume.walkThrough` computes. What a walk does is
then proved once for each way to go on: it ends on a trail of the volume (`Walks.on`), it is a walk
along the first names and one along the others (`Walks.split`), and where it led to the place of a
file, it leads to the file that is put there (`Walks.put`).
-/

namespace SymbolAtlas.Volume

/-- A walk along some names, through at most so many links, and where it ends. -/
inductive Walks (v : Volume) (creating : Bool) : Nat → Trail → List Text → Arrival → Prop where
  | done (links : Nat) (trail : Trail) : Walks v creating links trail [] ⟨trail, none⟩
  | up {links trail rest a es} : v.atEnd trail = .folder es →
      Walks v creating links trail.tail rest a → Walks v creating links trail (Path.up :: rest) a
  | here {links trail rest a es} : v.atEnd trail = .folder es →
      Walks v creating links trail rest a → Walks v creating links trail (Path.here :: rest) a
  | link {links trail n rest a es target} : v.atEnd trail = .folder es → n ≠ Path.up →
      n ≠ Path.here → isTooLong n = false → Entry.named? es n = some (.link target) →
      Walks v creating links (if target.head? = some Path.slash then [] else trail)
        (stepsOf target ++ rest) a →
      Walks v creating (links + 1) trail (n :: rest) a
  | down {links trail n rest a es e} : v.atEnd trail = .folder es → n ≠ Path.up →
      n ≠ Path.here → isTooLong n = false → Entry.named? es n = some e →
      (∀ target, e ≠ .link target) → Walks v creating links ((n, e) :: trail) rest a →
      Walks v creating links trail (n :: rest) a
  | new {links trail n es} : v.atEnd trail = .folder es → n ≠ Path.up → n ≠ Path.here →
      isTooLong n = false → Entry.named? es n = none → creating = true →
      Walks v creating links trail [n] ⟨trail, some n⟩

/-! ## What the walk computes -/

section

variable {v : Volume} {creating : Bool} {trail : Trail} {names : List Text} {a : Arrival}

theorem walks_of_walkWith {links : Nat} {follow : Trail → List Text → Except PathFault Arrival}
    (hfollow : ∀ t ns, follow t ns = .ok a →
      ∃ fewer, links = fewer + 1 ∧ Walks v creating fewer t ns a)
    (h : v.walkWith creating follow trail names = .ok a) :
    Walks v creating links trail names a := by
  induction names generalizing trail with
  | nil =>
    obtain rfl : (⟨trail, none⟩ : Arrival) = a := Except.ok.inj h
    exact .done links trail
  | cons n rest ih =>
    rw [walkWith] at h
    cases hend : v.atEnd trail with
    | file content => simp [hend] at h
    | link target => simp [hend] at h
    | folder es =>
      simp only [hend] at h
      -- The two names that are no entries are tried first.
      by_cases hup : n = Path.up
      · subst hup
        rw [if_pos rfl] at h
        exact .up hend (ih h)
      rw [if_neg hup] at h
      by_cases hhere : n = Path.here
      · subst hhere
        rw [if_pos rfl] at h
        exact .here hend (ih h)
      rw [if_neg hhere] at h
      cases hlong : isTooLong n with
      | true => simp [hlong] at h
      | false =>
        simp only [hlong, Bool.false_eq_true, if_false] at h
        cases hn : Entry.named? es n with
        | none =>
          simp only [hn] at h
          split at h
          · next hnew =>
            obtain ⟨hcreating, rfl⟩ := hnew
            obtain rfl := Except.ok.inj h
            exact .new hend hup hhere hlong hn hcreating
          · simp at h
        | some e =>
          cases e with
          | link target =>
            simp only [hn] at h
            obtain ⟨fewer, rfl, hwalks⟩ := hfollow _ _ h
            exact .link hend hup hhere hlong hn hwalks
          | file content =>
            simp only [hn] at h
            exact .down hend hup hhere hlong hn (fun _ => by simp) (ih h)
          | folder inner =>
            simp only [hn] at h
            exact .down hend hup hhere hlong hn (fun _ => by simp) (ih h)

theorem walks_of_walkThrough {links : Nat}
    (h : v.walkThrough creating links trail names = .ok a) :
    Walks v creating links trail names a := by
  induction links generalizing trail names with
  | zero => exact walks_of_walkWith (fun _ _ h => by simp at h) h
  | succ links ih => exact walks_of_walkWith (fun t ns h => ⟨links, rfl, ih h⟩) h

/-- How a walk through so many links goes on behind a link. -/
def followThrough (v : Volume) (creating : Bool) :
    Nat → Trail → List Text → Except PathFault Arrival
  | 0 => fun _ _ => .error .tooManyLinks
  | links + 1 => v.walkThrough creating links

theorem walkThrough_eq (v : Volume) (creating : Bool) (links : Nat) :
    v.walkThrough creating links = v.walkWith creating (v.followThrough creating links) := by
  cases links <;> rfl

theorem Walks.walkThrough_eq_ok {links : Nat} (h : Walks v creating links trail names a) :
    v.walkThrough creating links trail names = .ok a := by
  induction h with
  | done links trail => rw [walkThrough_eq, walkWith]
  | up hend _ ih =>
    rw [walkThrough_eq] at ih ⊢
    simpa only [walkWith, hend, if_true] using ih
  | here hend _ ih =>
    rw [walkThrough_eq] at ih ⊢
    have hne : Path.here ≠ Path.up := by decide
    simpa only [walkWith, hend, if_neg hne, if_true] using ih
  | link hend hup hhere hlong hn _ ih =>
    -- The rest is walked with one link less, which is what follows a link.
    rw [walkThrough_eq]
    simp only [walkWith, hend, if_neg hup, if_neg hhere, hlong, hn, Bool.false_eq_true, if_false]
    exact ih
  | @down links trail n rest a es e hend hup hhere hlong hn hlink _ ih =>
    rw [walkThrough_eq] at ih ⊢
    cases e with
    | link target => exact absurd rfl (hlink target)
    | file content =>
      simpa only [walkWith, hend, if_neg hup, if_neg hhere, hlong, hn, Bool.false_eq_true,
        if_false] using ih
    | folder inner =>
      simpa only [walkWith, hend, if_neg hup, if_neg hhere, hlong, hn, Bool.false_eq_true,
        if_false] using ih
  | new hend hup hhere hlong hn hcreating =>
    rw [walkThrough_eq]
    simp [walkWith, hend, hup, hhere, hlong, hn, hcreating]

/-- The relation of a walk is what the walk computes. -/
theorem walkThrough_eq_ok_iff {links : Nat} :
    v.walkThrough creating links trail names = .ok a ↔ Walks v creating links trail names a :=
  ⟨walks_of_walkThrough, Walks.walkThrough_eq_ok⟩

end

/-! ## Trails -/

/-- A trail that stands in a volume: each name leads from a folder to what it is said to stand
for. -/
inductive Trail.On (v : Volume) : Trail → Prop where
  | nil : Trail.On v []
  | cons {trail n e es} : Trail.On v trail → v.atEnd trail = .folder es →
      Entry.named? es n = some e → Trail.On v ((n, e) :: trail)

/-- A place to arrive at that stands in a volume; a new name is free there. -/
structure Arrival.On (v : Volume) (a : Arrival) : Prop where
  trail : a.trail.On v
  new : ∀ n, a.new = some n →
    ∃ es, v.atEnd a.trail = .folder es ∧ Entry.named? es n = none

variable {v : Volume} {creating : Bool} {links : Nat} {trail : Trail} {names place : List Text}
  {a : Arrival}

@[simp]
theorem Trail.names_cons (n : Text) (e : Entry) (trail : Trail) :
    Trail.names ((n, e) :: trail) = trail.names ++ [n] := by
  simp [Trail.names]

theorem Trail.names_tail (trail : Trail) : Trail.names trail.tail = trail.names.dropLast := by
  cases trail with
  | nil => rfl
  | cons step trail => simp [Trail.names]

theorem Trail.On.tail (h : trail.On v) : Trail.On v trail.tail := by
  cases h with
  | nil => exact .nil
  | cons htrail _ _ => exact htrail

/-- The entry at the end of a trail is the one that its names lead to. -/
theorem Trail.On.at?_names (h : trail.On v) : v.at? trail.names = some (v.atEnd trail) := by
  induction h with
  | nil => rfl
  | cons htrail hend hn ih =>
    rw [Trail.names_cons, at?, Entry.at?_append]
    unfold at? at ih
    rw [ih, Option.bind_some, hend]
    show (Entry.named? _ _).bind _ = _
    rw [hn]
    rfl

/-- An entry can be put at the end of a trail that ends at no folder. -/
theorem Trail.On.takes (h : trail.On v) (hend : (v.atEnd trail).IsBare) :
    Entry.Takes trail.names (some v.top) := by
  cases h with
  | nil =>
    intro e he
    obtain rfl := Option.some.inj he
    exact hend
  | @cons trail n e es htrail hfolder hn =>
    rw [Trail.names_cons]
    have houter : v.top.at? trail.names = some (.folder es) := hfolder ▸ htrail.at?_names
    refine Entry.takes_concat houter ?_
    intro x hx
    rw [hn] at hx
    obtain rfl := Option.some.inj hx
    exact hend

/-- An entry can be put at a free name below a trail. -/
theorem Trail.On.takes_new (h : trail.On v) {n : Text} {es : List (Text × Entry)}
    (hend : v.atEnd trail = .folder es) (hn : Entry.named? es n = none) :
    Entry.Takes (trail.names ++ [n]) (some v.top) := by
  have houter : v.top.at? trail.names = some (.folder es) := hend ▸ h.at?_names
  refine Entry.takes_concat houter ?_
  intro x hx
  simp [hn] at hx

/-- The entry of a name at the end of a trail is the one at the names of the trail and this name. -/
theorem Trail.On.at?_concat (h : trail.On v) {es : List (Text × Entry)}
    (hend : v.atEnd trail = .folder es) (n : Text) :
    v.at? (trail.names ++ [n]) = Entry.named? es n := by
  have hat := h.at?_names
  unfold at? at hat ⊢
  rw [Entry.at?_append, hat, Option.bind_some, hend]
  show (Entry.named? es n).bind some = _
  rw [Option.bind_fun_some]

theorem Trail.On.at?_new (h : trail.On v) {n : Text} {es : List (Text × Entry)}
    (hend : v.atEnd trail = .folder es) (hn : Entry.named? es n = none) :
    v.at? (trail.names ++ [n]) = none := by
  rw [h.at?_concat hend, hn]

/-! ## Laws of walks -/

/-- A walk that starts on a trail of the volume ends on one. -/
theorem Walks.on (h : Walks v creating links trail names a) (htrail : trail.On v) : a.On v := by
  induction h with
  | done => exact ⟨htrail, by simp⟩
  | up _ _ ih => exact ih htrail.tail
  | here _ _ ih => exact ih htrail
  | link _ _ _ _ _ _ ih =>
    refine ih ?_
    split
    · exact .nil
    · exact htrail
  | down hend _ _ _ hn _ _ ih => exact ih (htrail.cons hend hn)
  | new hend _ _ _ hn _ =>
    refine ⟨htrail, ?_⟩
    intro n hnew
    obtain rfl := Option.some.inj hnew
    exact ⟨_, hend, hn⟩

/-- A walk that makes nothing ends at something that exists. -/
theorem Walks.new_eq_none (h : Walks v false links trail names a) : a.new = none := by
  induction h with
  | done => rfl
  | up _ _ ih => exact ih
  | here _ _ ih => exact ih
  | link _ _ _ _ _ _ ih => exact ih
  | down _ _ _ _ _ _ _ ih => exact ih
  | new _ _ _ _ _ h => cases h

/-- A walk to something that exists goes the same way if a new name would be allowed. -/
theorem Walks.allowingNew (h : Walks v false links trail names a) :
    Walks v creating links trail names a := by
  induction h with
  | done links trail => exact .done links trail
  | up hend _ ih => exact .up hend ih
  | here hend _ ih => exact .here hend ih
  | link hend hup hhere hlong hn _ ih => exact .link hend hup hhere hlong hn ih
  | down hend hup hhere hlong hn hlink _ ih => exact .down hend hup hhere hlong hn hlink ih
  | new _ _ _ _ _ h => cases h

/-- A walk along some names and then others comes by the end of the first ones, and has at most as
many links left there. -/
theorem Walks.split {front rear : List Text} (h : Walks v false links trail names a)
    (hnames : names = front ++ rear) :
    ∃ fewer b, fewer ≤ links ∧ Walks v false links trail front b ∧ b.new = none ∧
      Walks v false fewer b.trail rear a := by
  -- By induction on the walk: behind a link the names of its target belong to the first ones.
  induction h generalizing front with
  | done links trail =>
    obtain ⟨rfl, rfl⟩ := List.append_eq_nil_iff.mp hnames.symm
    exact ⟨links, _, Nat.le_refl _, .done links trail, rfl, .done links trail⟩
  | @up links trail rest a es hend hwalks ih =>
    cases front with
    | nil =>
      obtain rfl : _ = rear := hnames
      exact ⟨_, _, Nat.le_refl _, .done _ trail, rfl, .up hend hwalks⟩
    | cons n front =>
      obtain ⟨rfl, hrest⟩ := List.cons.inj hnames
      obtain ⟨fewer, b, hle, hb, hnew, ha⟩ := ih hrest
      exact ⟨fewer, b, hle, .up hend hb, hnew, ha⟩
  | @here links trail rest a es hend hwalks ih =>
    cases front with
    | nil =>
      obtain rfl : _ = rear := hnames
      exact ⟨_, _, Nat.le_refl _, .done _ trail, rfl, .here hend hwalks⟩
    | cons n front =>
      obtain ⟨rfl, hrest⟩ := List.cons.inj hnames
      obtain ⟨fewer, b, hle, hb, hnew, ha⟩ := ih hrest
      exact ⟨fewer, b, hle, .here hend hb, hnew, ha⟩
  | @link links trail n rest a es target hend hup hhere hlong hn hwalks ih =>
    cases front with
    | nil =>
      obtain rfl : _ = rear := hnames
      exact ⟨_, _, Nat.le_refl _, .done _ trail, rfl, .link hend hup hhere hlong hn hwalks⟩
    | cons m front =>
      obtain ⟨rfl, rfl⟩ := List.cons.inj hnames
      obtain ⟨fewer, b, hle, hb, hnew, ha⟩ := ih (List.append_assoc ..).symm
      exact ⟨fewer, b, by omega, .link hend hup hhere hlong hn hb, hnew, ha⟩
  | @down links trail n rest a es e hend hup hhere hlong hn hlink hwalks ih =>
    cases front with
    | nil =>
      obtain rfl : _ = rear := hnames
      exact ⟨_, _, Nat.le_refl _, .done _ trail, rfl, .down hend hup hhere hlong hn hlink hwalks⟩
    | cons m front =>
      obtain ⟨rfl, rfl⟩ := List.cons.inj hnames
      obtain ⟨fewer, b, hle, hb, hnew, ha⟩ := ih rfl
      exact ⟨fewer, b, hle, .down hend hup hhere hlong hn hlink hb, hnew, ha⟩
  | new _ _ _ _ _ h => cases h

/-- Where a walk goes on there is a folder, and a name that is walked is not too long. -/
theorem Walks.of_cons {n : Text} {rest : List Text}
    (h : Walks v creating links trail (n :: rest) a) :
    ∃ es, v.atEnd trail = .folder es ∧
      (n = Path.up ∨ n = Path.here ∨ isTooLong n = false ∧
        (creating = false → (Entry.named? es n).isSome)) := by
  cases h with
  | up hend _ => exact ⟨_, hend, .inl rfl⟩
  | here hend _ => exact ⟨_, hend, .inr (.inl rfl)⟩
  | link hend _ _ hlong hn _ => exact ⟨_, hend, .inr (.inr ⟨hlong, fun _ => by simp [hn]⟩)⟩
  | down hend _ _ hlong hn _ _ => exact ⟨_, hend, .inr (.inr ⟨hlong, fun _ => by simp [hn]⟩)⟩
  | new hend _ _ hlong _ hcreating =>
    exact ⟨_, hend, .inr (.inr ⟨hlong, fun hfalse => by simp [hfalse] at hcreating⟩)⟩

/-! ## Walks to a file that was put -/

/-- A folder on a trail is a folder when a file has been put at a place where none was, with the
same entries but for this file. -/
theorem Trail.On.folder_put {t : Trail} {new : Bytes} {es : List (Text × Entry)}
    (htakes : Entry.Takes place (some v.top)) (hplace : ∀ es, v.at? place ≠ some (.folder es))
    (hs : trail.On v) (ht : t.On (v.put place (.file new))) (hnames : t.names = trail.names)
    (hend : v.atEnd trail = .folder es) :
    ∃ es', (v.put place (.file new)).atEnd t = .folder es' ∧ ∀ n,
      (t.names ++ [n] ≠ place →
        (Entry.named? es' n).map Entry.face = (Entry.named? es n).map Entry.face) ∧
      (t.names ++ [n] = place → Entry.named? es' n = some (.file new)) := by
  have hface : ∀ ns, ns ≠ place →
      ((v.put place (.file new)).at? ns).map Entry.face = (v.at? ns).map Entry.face :=
    fun ns hne => face_at?_put (Entry.isBare_file new) htakes hne
  have hhere : t.names ≠ place := by
    rintro rfl
    exact hplace es (by rw [hnames, hs.at?_names, hend])
  have hat := hface t.names hhere
  rw [ht.at?_names, hnames, hs.at?_names, hend] at hat
  cases htend : (v.put place (.file new)).atEnd t with
  | file content => simp [htend, Entry.face] at hat
  | link target => simp [htend, Entry.face] at hat
  | folder es' =>
    refine ⟨es', rfl, fun n => ⟨?_, ?_⟩⟩
    · intro hne
      have hn := hface _ hne
      rwa [ht.at?_concat htend, hnames, hs.at?_concat hend] at hn
    · rintro rfl
      rw [← ht.at?_concat htend, at?_put_self]

/-- The walk that led to a place where a file is put then leads to this file. -/
theorem Walks.put {t : Trail} (new : Bytes) (h : Walks v creating links trail names a)
    (hplace : a.names = place) (htakes : Entry.Takes place (some v.top))
    (hfree : v.at? place = none ∨ ∃ old, v.at? place = some (.file old))
    (htrail : trail.On v) (ht : t.On (v.put place (.file new))) (hnames : t.names = trail.names) :
    ∃ b, Walks (v.put place (.file new)) false links t names b ∧
      b.trail.On (v.put place (.file new)) ∧ b.trail.names = place := by
  have hnotFolder : ∀ es, v.at? place ≠ some (.folder es) := by
    rcases hfree with hnone | ⟨old, hold⟩
    · simp [hnone]
    · simp [hold]
  -- By induction on the walk: a name is either not the last of the place, and then it stands for
  -- the same link or for something of the same face, or it is, and then it stands for the new file.
  induction h generalizing t with
  | done links trail =>
    refine ⟨_, .done links t, ht, ?_⟩
    rw [hnames, ← hplace]
    simp [Arrival.names]
  | up hend _ ih =>
    obtain ⟨es', hend', -⟩ := Trail.On.folder_put htakes hnotFolder htrail ht hnames hend
    obtain ⟨b, hb, hon, heq⟩ := ih hplace htrail.tail ht.tail (by simp [Trail.names_tail, hnames])
    exact ⟨b, .up hend' hb, hon, heq⟩
  | here hend _ ih =>
    obtain ⟨es', hend', -⟩ := Trail.On.folder_put htakes hnotFolder htrail ht hnames hend
    obtain ⟨b, hb, hon, heq⟩ := ih hplace htrail ht hnames
    exact ⟨b, .here hend' hb, hon, heq⟩
  | @link links trail n rest a es target hend hup hhere hlong hn _ ih =>
    obtain ⟨es', hend', hnamed⟩ := Trail.On.folder_put htakes hnotFolder htrail ht hnames hend
    have hne : t.names ++ [n] ≠ place := by
      intro heq
      rw [hnames] at heq
      have hat := htrail.at?_concat hend n
      rw [heq, hn] at hat
      rcases hfree with hnone | ⟨old, hold⟩
      · simp [hnone] at hat
      · simp [hold] at hat
    have hn' : Entry.named? es' n = some (.link target) := by
      have hface := (hnamed n).1 hne
      rw [hn] at hface
      exact Entry.eq_link_of_face hface
    by_cases habsolute : target.head? = some Path.slash
    · rw [if_pos habsolute] at ih
      obtain ⟨b, hb, hon, heq⟩ := ih hplace .nil .nil rfl
      exact ⟨b, .link hend' hup hhere hlong hn' (by rwa [if_pos habsolute]), hon, heq⟩
    · rw [if_neg habsolute] at ih
      obtain ⟨b, hb, hon, heq⟩ := ih hplace htrail ht hnames
      exact ⟨b, .link hend' hup hhere hlong hn' (by rwa [if_neg habsolute]), hon, heq⟩
  | @down links trail n rest a es e hend hup hhere hlong hn hlink _ ih =>
    obtain ⟨es', hend', hnamed⟩ := Trail.On.folder_put htakes hnotFolder htrail ht hnames hend
    have hexists : ∃ e', Entry.named? es' n = some e' ∧ ∀ target, e' ≠ .link target := by
      by_cases heq : t.names ++ [n] = place
      · exact ⟨_, (hnamed n).2 heq, by simp⟩
      · have hface := (hnamed n).1 heq
        rw [hn, Option.map_some] at hface
        obtain ⟨e', hn', he'⟩ := Option.map_eq_some_iff.mp hface
        refine ⟨e', hn', ?_⟩
        rintro target rfl
        cases e with
        | link other => exact hlink other rfl
        | file content => simp [Entry.face] at he'
        | folder inner => simp [Entry.face] at he'
    obtain ⟨e', hn', hlink'⟩ := hexists
    obtain ⟨b, hb, hon, heq⟩ :=
      ih hplace (htrail.cons hend hn) (ht.cons hend' hn') (by simp [hnames])
    exact ⟨b, .down hend' hup hhere hlong hn' hlink' hb, hon, heq⟩
  | @new links trail n es hend hup hhere hlong hn _ =>
    obtain ⟨es', hend', hnamed⟩ := Trail.On.folder_put htakes hnotFolder htrail ht hnames hend
    have heq : t.names ++ [n] = place := by simp [← hplace, Arrival.names, hnames]
    have hn' := (hnamed n).2 heq
    refine ⟨_, .down hend' hup hhere hlong hn' (by simp) (.done _ _), ht.cons hend' hn', ?_⟩
    simpa using heq

end SymbolAtlas.Volume
