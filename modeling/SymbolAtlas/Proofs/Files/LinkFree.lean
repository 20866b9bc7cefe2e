import Mathlib.Data.List.Perm.Subperm
import SymbolAtlas.Proofs.Files.Names
import SymbolAtlas.Proofs.Files.Walks

/-!
# Paths without links and walks

Main statement: where a path can be walked, the path without links that it stands for is the way
that the walk comes to in the end (`realPath_eq_of_walks`). This holds as long as no link stands at
a path that is too long to be looked at (`LinksInReach`).

A walk goes through the targets of links one after the other and has a number of links left;
`leadWithin` follows links inside links and remembers what it has met. What ties the two together is
`Following`: links that have been followed lead where walks lead, and no walk with the links that
are left gets through a link that is still being followed. So none of these is met again, and there
are no more of them than there are links (`length_le_linkCount`), which bounds the depth.
-/

namespace SymbolAtlas

/-! ## Counting links -/

namespace Entry

/-- Whether an entry is a link. -/
def isLink : Entry → Bool
  | link _ => true
  | _ => false

mutual

theorem countP_leaves (base : List Text) :
    (e : Entry) → (e.leaves base).countP (fun leaf => leaf.2.isLink) = e.linkCount
  | file _ => rfl
  | link _ => rfl
  | folder es => countP_leavesIn base es

theorem countP_leavesIn (base : List Text) :
    (es : List (Text × Entry)) →
      (leavesIn base es).countP (fun leaf => leaf.2.isLink) = linkCountIn es
  | [] => rfl
  | (n, e) :: es => by
    rw [leavesIn, linkCountIn, List.countP_append, countP_leaves (base ++ [n]) e,
      countP_leavesIn base es]

end

theorem leaves_subset_leavesIn {es : List (Text × Entry)} {n : Text} {e : Entry}
    (h : named? es n = some e) (base : List Text) :
    e.leaves (base ++ [n]) ⊆ leavesIn base es := by
  induction es with
  | nil => simp [named?] at h
  | cons entry es ih =>
    obtain ⟨m, e'⟩ := entry
    rw [leavesIn]
    by_cases hm : m = n
    · subst hm
      obtain rfl : e' = e := by simpa [named?] using h
      exact List.subset_append_left ..
    · have hn : named? es n = some e := by simpa [named?, hm] using h
      exact fun leaf hleaf => List.mem_append_right _ (ih hn hleaf)

/-- What is in an entry is in the entries around it. -/
theorem leaves_subset_of_at? {e x : Entry} {ns : List Text} (h : e.at? ns = some x)
    (base : List Text) : x.leaves (base ++ ns) ⊆ e.leaves base := by
  induction ns generalizing e base with
  | nil =>
    obtain rfl : e = x := Option.some.inj h
    rw [List.append_nil]
    exact List.Subset.refl _
  | cons n ns ih =>
    cases e with
    | file content => cases h
    | link target => cases h
    | folder es =>
      obtain ⟨e, hn, hat⟩ := Option.bind_eq_some_iff.mp h
      have hleaves := ih hat (base ++ [n])
      rw [List.append_assoc, List.singleton_append] at hleaves
      exact List.Subset.trans hleaves (leaves_subset_leavesIn hn base)

end Entry

namespace Volume

open SymbolAtlas.Path (slash)

variable {v : Volume} {creating : Bool} {links fewer : Nat} {trail : Trail} {names : List Text}
  {a b : Arrival}

/-- There are no more places of links than links. -/
theorem length_le_linkCount {places : List (List Text)} (hnodup : places.Nodup)
    (h : ∀ place ∈ places, ∃ target, v.at? place = some (.link target)) :
    places.length ≤ v.top.linkCount := by
  have hsub : places ⊆ ((v.top.leaves []).filter fun leaf => leaf.2.isLink).map (·.1) := by
    intro place hplace
    obtain ⟨target, hat⟩ := h place hplace
    refine List.mem_map.mpr ⟨(place, .link target), ?_, rfl⟩
    exact List.mem_filter.mpr
      ⟨Entry.leaves_subset_of_at? hat [] List.mem_cons_self, rfl⟩
  have hle := (hnodup.subperm hsub).length_le
  rwa [List.length_map, ← List.countP_eq_length_filter, Entry.countP_leaves] at hle

/-! ## More laws of walks -/

/-- A walk goes the same way with more links left. -/
theorem Walks.mono (h : Walks v creating fewer trail names a) (hle : fewer ≤ links) :
    Walks v creating links trail names a := by
  induction h generalizing links with
  | done _ trail => exact .done links trail
  | up hend _ ih => exact .up hend (ih hle)
  | here hend _ ih => exact .here hend (ih hle)
  | link hend hup hhere hlong hn _ ih =>
    obtain ⟨more, rfl⟩ : ∃ more, links = more + 1 := ⟨links - 1, by omega⟩
    exact .link hend hup hhere hlong hn (ih (by omega))
  | down hend hup hhere hlong hn hlink _ ih =>
    exact .down hend hup hhere hlong hn hlink (ih hle)
  | new hend hup hhere hlong hn hcreating => exact .new hend hup hhere hlong hn hcreating

/-- A walk ends in one place only. -/
theorem Walks.unique (ha : Walks v creating links trail names a)
    (hb : Walks v creating fewer trail names b) : a = b := by
  have ha := (ha.mono (Nat.le_max_left links fewer)).walkThrough_eq_ok
  have hb := (hb.mono (Nat.le_max_right links fewer)).walkThrough_eq_ok
  exact Except.ok.inj (ha.symm.trans hb)

/-- There is a least number of links that a walk needs. -/
theorem Walks.exists_least (h : Walks v creating links trail names a) :
    ∃ least ≤ links, Walks v creating least trail names a ∧
      ∀ fewer < least, ∀ b, ¬ Walks v creating fewer trail names b := by
  induction links using Nat.strongRecOn with
  | ind links ih =>
    by_cases hfewer : ∃ fewer < links, ∃ b, Walks v creating fewer trail names b
    · obtain ⟨fewer, hlt, b, hb⟩ := hfewer
      obtain ⟨least, hle, hleast⟩ := ih fewer hlt (h.unique hb ▸ hb)
      exact ⟨least, by omega, hleast⟩
    · exact ⟨links, Nat.le_refl _, h, fun fewer hlt b hb => hfewer ⟨fewer, hlt, b, hb⟩⟩

/-- A trail that a walk comes along: through folders, by names that stand for no links. -/
inductive Trail.Direct (v : Volume) : Trail → Prop where
  | nil : Trail.Direct v []
  | cons {trail n e es} : Trail.Direct v trail → v.atEnd trail = .folder es → n ≠ Path.up →
      n ≠ Path.here → isTooLong n = false → Entry.named? es n = some e →
      (∀ target, e ≠ .link target) → Trail.Direct v ((n, e) :: trail)

theorem Trail.Direct.on (h : trail.Direct v) : trail.On v := by
  induction h with
  | nil => exact .nil
  | cons _ hend _ _ _ hn _ ih => exact ih.cons hend hn

theorem Trail.Direct.tail (h : trail.Direct v) : Trail.Direct v trail.tail := by
  cases h with
  | nil => exact .nil
  | cons htrail _ _ _ _ _ _ => exact htrail

theorem Trail.Direct.up_notMem (h : trail.Direct v) : Path.up ∉ trail.names := by
  induction h with
  | nil => simp [Trail.names]
  | cons _ _ hup _ _ _ _ ih => simp [ih, hup.symm]

theorem Walks.direct (h : Walks v creating links trail names a) (htrail : trail.Direct v) :
    a.trail.Direct v := by
  induction h with
  | done => exact htrail
  | up _ _ ih => exact ih htrail.tail
  | here _ _ ih => exact ih htrail
  | link _ _ _ _ _ _ ih =>
    refine ih ?_
    split
    · exact .nil
    · exact htrail
  | down hend hup hhere hlong hn hlink _ ih =>
    exact ih (htrail.cons hend hup hhere hlong hn hlink)
  | new => exact htrail

/-- A walk from the top along the names of a trail comes along this trail. -/
theorem Trail.Direct.walks_iff (h : trail.Direct v) {rest : List Text} :
    Walks v creating links [] (trail.names ++ rest) a ↔
      Walks v creating links trail rest a := by
  induction h generalizing rest with
  | nil => rfl
  | @cons trail n e es _ hend hup hhere hlong hn hlink ih =>
    rw [Trail.names_cons, List.append_assoc, List.singleton_append, ih]
    refine ⟨fun hwalks => ?_, .down hend hup hhere hlong hn hlink⟩
    cases hwalks with
    | up => exact absurd rfl hup
    | here => exact absurd rfl hhere
    | link hend' _ _ _ hn' _ =>
      obtain rfl := Entry.folder.inj (hend.symm.trans hend')
      exact absurd (Option.some.inj (hn.symm.trans hn')) (hlink _)
    | down hend' _ _ _ hn' _ hrest =>
      obtain rfl := Entry.folder.inj (hend.symm.trans hend')
      obtain rfl := Option.some.inj (hn.symm.trans hn')
      exact hrest
    | new hend' _ _ _ hn' _ =>
      obtain rfl := Entry.folder.inj (hend.symm.trans hend')
      simp [hn] at hn'

theorem Walks.of_here (h : Walks v creating links trail (Path.here :: names) a) :
    Walks v creating links trail names a := by
  cases h with
  | here _ hrest => exact hrest
  | link _ _ hhere => exact absurd rfl hhere
  | down _ _ hhere => exact absurd rfl hhere
  | new _ _ hhere => exact absurd rfl hhere

theorem Walks.of_up (h : Walks v creating links trail (Path.up :: names) a) :
    Walks v creating links trail.tail names a := by
  cases h with
  | up _ hrest => exact hrest
  | link _ hup => exact absurd rfl hup
  | down _ hup => exact absurd rfl hup
  | new _ hup => exact absurd rfl hup

/-- What a walk along one name does: it goes up, stays, follows a link or goes down. -/
theorem Walks.of_singleton {n : Text} (h : Walks v false links trail [n] a) (hon : trail.On v) :
    (n = Path.up ∧ a = ⟨trail.tail, none⟩) ∨ (n = Path.here ∧ a = ⟨trail, none⟩) ∨
    (∃ target fewer, links = fewer + 1 ∧ v.at? (trail.names ++ [n]) = some (.link target) ∧
      Walks v false fewer (if target.head? = some slash then [] else trail) (stepsOf target) a) ∨
    (∃ e, v.at? (trail.names ++ [n]) = some e ∧ (∀ target, e ≠ .link target) ∧
      a = ⟨(n, e) :: trail, none⟩) := by
  cases h with
  | up _ hdone =>
    cases hdone
    exact .inl ⟨rfl, rfl⟩
  | here _ hdone =>
    cases hdone
    exact .inr (.inl ⟨rfl, rfl⟩)
  | @link fewer _ _ _ _ _ target hend _ _ _ hn hwalks =>
    rw [List.append_nil] at hwalks
    exact .inr (.inr (.inl ⟨target, fewer, rfl, by rw [hon.at?_concat hend, hn], hwalks⟩))
  | @down _ _ _ _ _ _ e hend _ _ _ hn hlink hdone =>
    cases hdone
    exact .inr (.inr (.inr ⟨e, by rw [hon.at?_concat hend, hn], hlink, rfl⟩))
  | new _ _ _ _ _ h => cases h

/-- The names of a text with slashes between them. -/
def namesOf (t : Text) : List Text := (Text.separate slash t).filter (· ≠ [])

/-- The slash at the end of a target changes nothing about where a walk ends. -/
theorem Walks.of_stepsOf {target : Text} (h : Walks v false links trail (stepsOf target) a) :
    Walks v false links trail (namesOf target) a := by
  unfold stepsOf at h
  split at h
  · obtain ⟨fewer, ⟨end_, new⟩, -, hb, hnew, hlast⟩ := h.split rfl
    obtain rfl : new = none := hnew
    cases hlast.of_here
    exact hb
  · exact h

/-! ## Looking at links -/

/-- Every link stands at a path that is not too long to be looked at. -/
def LinksInReach (v : Volume) : Prop :=
  ∀ place target, v.at? place = some (.link target) →
    ∀ fault shown, refusal? ⟨[slash], place⟩ ≠ some (.path fault shown)

theorem linksInReach_of_leaves
    (h : ∀ leaf ∈ v.top.leaves [], leaf.2.isLink = true → refusal? ⟨[slash], leaf.1⟩ = none) :
    v.LinksInReach := by
  intro place target hat fault shown hrefusal
  have hleaf := h _ (Entry.leaves_subset_of_at? hat [] List.mem_cons_self) rfl
  rw [List.nil_append] at hleaf
  simp [hleaf] at hrefusal

theorem cancelUps_eq_self {names : List Text} (h : Path.up ∉ names) :
    Path.cancelUps names = names := by
  have hfold : ∀ done, Path.up ∉ names →
      names.foldl (fun done n => if n = Path.up then done.tail else n :: done) done =
        names.reverse ++ done := by
    clear h
    induction names with
    | nil => simp
    | cons n names ih =>
      intro done h
      obtain ⟨hn, hnames⟩ := List.ne_and_not_mem_of_not_mem_cons h
      rw [List.foldl_cons, if_neg (Ne.symm hn), ih _ hnames]
      simp
  rw [Path.cancelUps, hfold [] h, List.append_nil, List.reverse_reverse]

theorem absolute_eq_self {names : List Text} (h : Path.up ∉ names) :
    absolute [] ⟨[slash], names⟩ = ⟨[slash], names⟩ := by
  show (⟨[slash], Path.cancelUps names⟩ : Path) = _
  rw [cancelUps_eq_self h]

/-- Looking for a link finds what stands there, unless the path cannot be looked at. -/
theorem linkAt?_eq (hreach : v.LinksInReach) {place : List Text} (hup : Path.up ∉ place) :
    (∃ e, v.linkAt? [] ⟨[slash], place⟩ = .error e) ∨
    (∃ target, v.at? place = some (.link target) ∧
      v.linkAt? [] ⟨[slash], place⟩ = .ok (some target)) ∨
    ((∀ target, v.at? place ≠ some (.link target)) ∧
      v.linkAt? [] ⟨[slash], place⟩ = .ok none) := by
  rw [linkAt?, absolute_eq_self hup]
  split
  next fault shown hrefusal =>
    refine .inr (.inr ⟨?_, rfl⟩)
    intro target hat
    exact hreach place target hat fault shown hrefusal
  next e _ _ => exact .inl ⟨e, rfl⟩
  next =>
    split
    next target hat => exact .inr (.inl ⟨target, hat, rfl⟩)
    next hat => exact .inr (.inr ⟨hat, rfl⟩)

/-! ## Following links -/

/-- What is remembered while links are followed: places that lead where walks lead, and places that
are still being followed, through which no walk with the links that are left can get. -/
structure Following (v : Volume) (links : Nat) (pending : List (List Text)) (met : Met) : Prop where
  nodup : pending.Nodup
  isLink : ∀ place ∈ pending, ∃ target, v.at? place = some (.link target)
  stuck : ∀ place ∈ pending, ∀ a, ¬ Walks v false links [] place a
  pending_of_find? : ∀ place p, met.find? (fun m => m.1 = ⟨[slash], place⟩) = some (p, none) →
    place ∈ pending
  walks_of_find? : ∀ place p there,
    met.find? (fun m => m.1 = ⟨[slash], place⟩) = some (p, some there) →
      ∃ links a, Walks v false links [] place a ∧ there = ⟨[slash], a.trail.names⟩

namespace Following

variable {pending : List (List Text)} {met met' : Met} {place : List Text}

theorem start (v : Volume) (links : Nat) : Following v links [] [] where
  nodup := .nil
  isLink := by simp
  stuck := by simp
  pending_of_find? := by simp
  walks_of_find? := by simp

/-- A link that is met for the first time is followed with the links that are left behind it. -/
theorem follow (h : Following v links pending met) (hle : fewer ≤ links) {target : Text}
    (hlink : v.at? place = some (.link target)) (hwalks : Walks v false links [] place a)
    (hstuck : ∀ a, ¬ Walks v false fewer [] place a) :
    Following v fewer (place :: pending) ((⟨[slash], place⟩, none) :: met) where
  nodup := List.nodup_cons.mpr ⟨fun hmem => h.stuck place hmem a hwalks, h.nodup⟩
  isLink := List.forall_mem_cons.mpr ⟨⟨target, hlink⟩, h.isLink⟩
  stuck := List.forall_mem_cons.mpr
    ⟨hstuck, fun other hother b hb => h.stuck other hother b (hb.mono hle)⟩
  pending_of_find? := by
    intro other p hfind
    by_cases hother : (⟨[slash], place⟩ : Path) = ⟨[slash], other⟩
    · obtain rfl := (Path.mk.inj hother).2
      exact List.mem_cons_self
    · rw [List.find?_cons_of_neg (by simpa using hother)] at hfind
      exact List.mem_cons_of_mem _ (h.pending_of_find? other p hfind)
  walks_of_find? := by
    intro other p there hfind
    by_cases hother : (⟨[slash], place⟩ : Path) = ⟨[slash], other⟩
    · rw [List.find?_cons_of_pos (by simpa using hother)] at hfind
      simp at hfind
    · rw [List.find?_cons_of_neg (by simpa using hother)] at hfind
      exact h.walks_of_find? other p there hfind

/-- A link that has been followed is kept with the place that it leads to. -/
theorem settle (h : Following v links pending met)
    (hinner : Following v fewer (place :: pending) met')
    (hwalks : Walks v false links [] place a) :
    Following v links pending ((⟨[slash], place⟩, some ⟨[slash], a.trail.names⟩) :: met') where
  nodup := h.nodup
  isLink := h.isLink
  stuck := h.stuck
  pending_of_find? := by
    intro other p hfind
    by_cases hother : (⟨[slash], place⟩ : Path) = ⟨[slash], other⟩
    · rw [List.find?_cons_of_pos (by simpa using hother)] at hfind
      simp at hfind
    · rw [List.find?_cons_of_neg (by simpa using hother)] at hfind
      rcases List.mem_cons.mp (hinner.pending_of_find? other p hfind) with rfl | hmem
      · exact absurd rfl hother
      · exact hmem
  walks_of_find? := by
    intro other p there hfind
    by_cases hother : (⟨[slash], place⟩ : Path) = ⟨[slash], other⟩
    · rw [List.find?_cons_of_pos (by simpa using hother)] at hfind
      obtain rfl := (Path.mk.inj hother).2
      obtain ⟨-, hthere⟩ := Prod.mk.inj (Option.some.inj hfind)
      exact ⟨links, a, hwalks, (Option.some.inj hthere).symm⟩
    · rw [List.find?_cons_of_neg (by simpa using hother)] at hfind
      exact hinner.walks_of_find? other p there hfind

end Following

/-- Following links to a depth leads where walks lead, as long as the links that may still be met
are no more than the depth. -/
def Leads (v : Volume) (depth : Nat)
    (follow : Met → Path → List Text → Except Failure (Met × Lead)) : Prop :=
  ∀ {links pending met trail names a met' lead}, trail.Direct v → Following v links pending met →
    v.top.linkCount ≤ depth + pending.length →
    Walks v false links trail (names.filter (· ≠ [])) a →
    follow met ⟨[slash], trail.names⟩ names = .ok (met', lead) →
    lead = .settled ⟨[slash], a.trail.names⟩ ∧ Following v links pending met'

theorem above_names {trail : Trail} (h : Path.up ∉ trail.names) :
    Path.above ⟨[slash], trail.names⟩ = ⟨[slash], Trail.names trail.tail⟩ := by
  have hlast : trail.names.getLast? ≠ some Path.up := fun hlast =>
    h (List.mem_of_getLast? hlast)
  simp [Path.above, hlast, Path.isAbsolute, Path.parent, Trail.names_tail]

/-- The names of a link below a trail are those of its place. -/
theorem Trail.Direct.up_notMem_concat (h : trail.Direct v) {n : Text} (hup : n ≠ Path.up) :
    Path.up ∉ trail.names ++ [n] := by
  simp [h.up_notMem, hup.symm]

/-- Going along the target of a link that is met for the first time leads where the link does. -/
theorem Leads.of_link {depth : Nat} {pending : List (List Text)} {met met' : Met} {lead : Lead}
    {follow : Met → Path → List Text → Except Failure (Met × Lead)} {n target : Text}
    (hfollow : ∀ fewer, depth = fewer + 1 → Leads v fewer follow)
    (hdirect : trail.Direct v) (hfollowing : Following v links pending met)
    (hdepth : v.top.linkCount ≤ depth + pending.length)
    (hup : n ≠ Path.up) (hhere : n ≠ Path.here) (hwalks : Walks v false links trail [n] a)
    (hlink : v.at? (trail.names ++ [n]) = some (.link target))
    (h : follow ((⟨[slash], trail.names ++ [n]⟩, none) :: met)
      (if target.head? = some slash then ⟨[slash], []⟩ else ⟨[slash], trail.names⟩)
      (Text.separate slash target) = .ok (met', lead)) :
    lead = .settled ⟨[slash], a.trail.names⟩ ∧
      Following v links pending
        ((⟨[slash], trail.names ++ [n]⟩, some ⟨[slash], a.trail.names⟩) :: met') := by
  -- The link is followed with the least number of links that suffices, less itself.
  obtain ⟨least, hle, hleast, hnone⟩ := hwalks.exists_least
  rcases hleast.of_singleton hdirect.on with
    ⟨rfl, -⟩ | ⟨rfl, -⟩ | ⟨other, fewer, rfl, hat, hinner⟩ | ⟨e, hat, hother, -⟩
  · exact absurd rfl hup
  · exact absurd rfl hhere
  · obtain rfl : other = target := by simpa [hat] using hlink
    have hplace : Walks v false links [] (trail.names ++ [n]) a := hdirect.walks_iff.mpr hwalks
    have hfollowing' := hfollowing.follow (by omega) hlink hplace
      fun b hb => hnone fewer (by omega) b (hdirect.walks_iff.mp hb)
    -- There are no more links than those being followed, so some depth is left.
    have hcount := length_le_linkCount hfollowing'.nodup hfollowing'.isLink
    rw [List.length_cons] at hcount
    obtain ⟨rest, rfl⟩ : ∃ rest, depth = rest + 1 := ⟨depth - 1, by omega⟩
    have hdepth' : v.top.linkCount ≤ rest + ((trail.names ++ [n]) :: pending).length := by
      rw [List.length_cons]
      omega
    have hstart : (if other.head? = some slash then (⟨[slash], []⟩ : Path)
        else ⟨[slash], trail.names⟩) =
        ⟨[slash], Trail.names (if other.head? = some slash then [] else trail)⟩ := by
      split <;> rfl
    have hdirect' : Trail.Direct v (if other.head? = some slash then [] else trail) := by
      split
      · exact .nil
      · exact hdirect
    rw [hstart] at h
    obtain ⟨hlead, hafter⟩ := hfollow rest rfl hdirect' hfollowing' hdepth' hinner.of_stepsOf h
    exact ⟨hlead, hfollowing.settle hafter hplace⟩
  · exact absurd (Option.some.inj (hat.symm.trans hlink)) (hother target)

theorem leads_leadWith {depth : Nat}
    {follow : Met → Path → List Text → Except Failure (Met × Lead)} (hreach : v.LinksInReach)
    (hfollow : ∀ fewer, depth = fewer + 1 → Leads v fewer follow) :
    Leads v depth (v.leadWith [] follow) := by
  intro links pending met trail names a met' lead hdirect hfollowing hdepth hwalks h
  -- By induction on the names: what is left of the walk starts where the lead so far has come to.
  induction names generalizing met trail with
  | nil =>
    obtain ⟨rfl, rfl⟩ := Prod.mk.inj (Except.ok.inj h)
    cases hwalks
    exact ⟨rfl, hfollowing⟩
  | cons n rest ih =>
    rw [leadWith] at h
    by_cases hempty : n = []
    · rw [if_pos (.inl hempty)] at h
      rw [List.filter_cons_of_neg (by simpa using hempty)] at hwalks
      exact ih hdirect hfollowing hwalks h
    rw [List.filter_cons_of_pos (by simpa using hempty)] at hwalks
    by_cases hhere : n = Path.here
    · subst hhere
      rw [if_pos (.inr rfl)] at h
      exact ih hdirect hfollowing hwalks.of_here h
    rw [if_neg (not_or.mpr ⟨hempty, hhere⟩)] at h
    by_cases hup : n = Path.up
    · subst hup
      rw [if_pos rfl, above_names hdirect.up_notMem] at h
      exact ih hdirect.tail hfollowing hwalks.of_up h
    rw [if_neg hup] at h
    have hnames : n :: rest.filter (· ≠ []) = [n] ++ rest.filter (· ≠ []) := rfl
    obtain ⟨fewer, b, hle, hfirst, hnew, hrest⟩ := hwalks.split hnames
    have hrest := hrest.mono hle
    have hdirect' := hfirst.direct hdirect
    have hplace : Walks v false links [] (trail.names ++ [n]) b := hdirect.walks_iff.mpr hfirst
    rcases linkAt?_eq hreach (hdirect.up_notMem_concat hup) with
      ⟨e, hlook⟩ | ⟨target, hat, hlook⟩ | ⟨hnot, hlook⟩
    · simp [hlook] at h
    · simp only [hlook] at h
      split at h
      next p there hfind =>
        obtain ⟨more, a', ha', rfl⟩ := hfollowing.walks_of_find? _ _ _ hfind
        obtain rfl := ha'.unique hplace
        exact ih hdirect' hfollowing hrest h
      next p hfind =>
        -- No walk gets through a link that is still being followed.
        exact absurd hplace (hfollowing.stuck _ (hfollowing.pending_of_find? _ _ hfind) b)
      next =>
        split at h
        next => simp at h
        next met₁ written hinner =>
          obtain ⟨hlead, -⟩ :=
            Leads.of_link hfollow hdirect hfollowing hdepth hup hhere hfirst hat hinner
          cases hlead
        next met₁ there hinner =>
          obtain ⟨hlead, hafter⟩ :=
            Leads.of_link hfollow hdirect hfollowing hdepth hup hhere hfirst hat hinner
          obtain rfl := Lead.settled.inj hlead
          exact ih hdirect' hafter hrest h
    · simp only [hlook] at h
      rcases hfirst.of_singleton hdirect.on with
        ⟨rfl, -⟩ | ⟨rfl, -⟩ | ⟨target, _, _, hat, _⟩ | ⟨e, hat, hother, rfl⟩
      · exact absurd rfl hup
      · exact absurd rfl hhere
      · exact absurd hat (hnot target)
      · rw [← Trail.names_cons n e] at h
        exact ih hdirect' hfollowing hrest h

theorem leads_leadWithin (hreach : v.LinksInReach) (depth : Nat) :
    Leads v depth (v.leadWithin [] depth) := by
  induction depth with
  | zero => exact leads_leadWith hreach fun fewer h => by omega
  | succ depth ih =>
    refine leads_leadWith hreach fun fewer h => ?_
    obtain rfl : depth = fewer := by omega
    exact ih

/-- Where a path can be walked, it stands for the way to where the walk ends. -/
theorem realPath_eq_of_walks (hreach : v.LinksInReach) {p q : Path} (habsolute : p.isAbsolute)
    (hempty : [] ∉ p.names) (hwalks : Walks v false links [] p.names a)
    (h : v.realPath [] p = .ok q) : q = ⟨[slash], a.trail.names⟩ := by
  have hnames : p.names.filter (· ≠ []) = p.names := by
    refine List.filter_eq_self.mpr fun n hn => ?_
    have hne : n ≠ [] := fun heq => hempty (heq ▸ hn)
    simpa using hne
  obtain ⟨met, lead, hlead, rfl⟩ := exists_of_realPath h
  rw [if_pos habsolute] at hlead
  have hdepth : v.top.linkCount ≤ v.leadDepth [] p + ([] : List (List Text)).length := by
    rw [leadDepth]
    exact Nat.le_mul_of_pos_right _ (by omega)
  have hdirect : Trail.Direct v [] := .nil
  obtain ⟨rfl, -⟩ := leads_leadWithin hreach _ hdirect (.start v links) hdepth
    (by rwa [hnames]) hlead
  exact absolute_eq_self (hwalks.direct .nil).up_notMem

end Volume

end SymbolAtlas
