import SymbolAtlas.Proofs.Files.LinkFree
import SymbolAtlas.Proofs.Files.Names
import SymbolAtlas.Proofs.Files.Storing
import SymbolAtlas.Proofs.Text.Order

/-!
# Collecting the files of a map

Main statement: what map items give is an ascending list of paths of files in the project, none of
them ignored, hidden or too large, and it is the union of what the items give one by one, in
whatever order and however often they come (`DiskFiles.collectItems_contained`). The files stand at
these very paths as long as no link of the volume is out of reach;
`DiskFiles.collectItems_outOfReach` is a project with such a link, whose path is collected although
it leads out of the project.

`pathsOf` is what one item gives on its own. An item inserts its paths into those found before
(`result_collectItem`), so that a collection is the union of all of them
(`collectItems_eq_ok_iff`).
-/

namespace SymbolAtlas

namespace Entry

mutual

theorem leaves_eq_map : (e : Entry) → (base : List Text) →
    e.leaves base = (e.leaves []).map fun leaf => (base ++ leaf.1, leaf.2)
  | file _, _ => by simp [leaves]
  | link _, _ => by simp [leaves]
  | folder es, base => by
    rw [leaves, leaves]
    exact leavesIn_eq_map es base

theorem leavesIn_eq_map : (es : List (Text × Entry)) → (base : List Text) →
    leavesIn base es = (leavesIn [] es).map fun leaf => (base ++ leaf.1, leaf.2)
  | [], _ => by simp [leavesIn]
  | (n, e) :: es, base => by
    rw [leavesIn, leavesIn, List.map_append, ← leavesIn_eq_map es base,
      leaves_eq_map e (base ++ [n]), leaves_eq_map e ([] ++ [n]), List.map_map]
    simp [Function.comp_def]

end

end Entry

/-- Every file and link of the volume stands under names that entries can have. -/
def Volume.WellNamed (v : Volume) : Prop :=
  ∀ leaf ∈ v.top.leaves [], ∀ n ∈ leaf.1, Path.IsName n

instance (v : Volume) : Decidable v.WellNamed := inferInstanceAs (Decidable (∀ _ ∈ _, _))

/-! ## Collecting one after the other -/

section Gathering

variable {α β : Type} {f : α → Except Failure β} {part : α → Except Failure (List Text)}
  {step : List Text → α → Report (List Text)} {as : List α}

/-- Steps that each insert the texts of a part insert the texts of all parts. -/
theorem result_foldlM_insertAll
    (hstep : ∀ a found, (step found a).result = (part a).map fun ts => Text.insertAll ts found)
    (as : List α) (found : List Text) :
    (as.foldlM step found).result =
      (as.mapM part).map fun parts => Text.insertAll parts.flatten found := by
  induction as generalizing found with
  | nil => rfl
  | cons a as ih =>
    rw [List.foldlM_cons, List.mapM_cons, Report.result_bind, hstep]
    cases part a with
    | error e => rfl
    | ok ts =>
      show (as.foldlM step (Text.insertAll ts found)).result = _
      rw [ih]
      cases as.mapM part with
      | error e => rfl
      | ok parts =>
        show Except.ok (Text.insertAll parts.flatten (Text.insertAll ts found)) =
          Except.ok (Text.insertAll (ts ++ parts.flatten) found)
        rw [Text.insertAll_append]

theorem mem_of_mapM_eq_ok {bs : List β} (h : as.mapM f = .ok bs) :
    (∀ a ∈ as, ∃ b ∈ bs, f a = .ok b) ∧ ∀ b ∈ bs, ∃ a ∈ as, f a = .ok b := by
  induction as generalizing bs with
  | nil =>
    obtain rfl : [] = bs := Except.ok.inj h
    simp
  | cons a as ih =>
    rw [List.mapM_cons] at h
    obtain ⟨b, hb, h⟩ := exists_of_bind h
    obtain ⟨rest, hbs, h⟩ := exists_of_bind h
    obtain rfl : b :: rest = bs := Except.ok.inj h
    obtain ⟨hleft, hright⟩ := ih hbs
    refine ⟨List.forall_mem_cons.mpr ⟨⟨b, List.mem_cons_self, hb⟩, ?_⟩,
      List.forall_mem_cons.mpr ⟨⟨a, List.mem_cons_self, hb⟩, ?_⟩⟩
    · intro a' ha'
      obtain ⟨b', hb', hf⟩ := hleft a' ha'
      exact ⟨b', List.mem_cons_of_mem _ hb', hf⟩
    · intro b' hb'
      obtain ⟨a', ha', hf⟩ := hright b' hb'
      exact ⟨a', List.mem_cons_of_mem _ ha', hf⟩

theorem exists_mapM_eq_ok (h : ∀ a ∈ as, ∃ b, f a = .ok b) : ∃ bs, as.mapM f = .ok bs := by
  induction as with
  | nil => exact ⟨[], rfl⟩
  | cons a as ih =>
    obtain ⟨⟨b, hb⟩, has⟩ := List.forall_mem_cons.mp h
    obtain ⟨bs, hbs⟩ := ih has
    exact ⟨b :: bs, by simp [List.mapM_cons, hb, hbs, bind, Except.bind, pure, Except.pure]⟩

theorem mem_of_filterM_eq_ok {p : α → Except Failure Bool} {kept : List α}
    (h : as.filterM p = .ok kept) (a : α) : a ∈ kept ↔ a ∈ as ∧ p a = .ok true := by
  have haux : ∀ before kept, List.filterAuxM p as before = .ok kept →
      (a ∈ kept ↔ a ∈ before ∨ a ∈ as ∧ p a = .ok true) := by
    clear h
    induction as with
    | nil =>
      intro before kept h
      obtain rfl : before = kept := Except.ok.inj h
      simp
    | cons b as ih =>
      intro before kept h
      rw [List.filterAuxM] at h
      obtain ⟨keep, hb, h⟩ := exists_of_bind h
      rw [ih _ _ h]
      cases keep with
      | false =>
        have hne : p a = .ok true → a ≠ b := by
          rintro ha rfl
          simp [hb] at ha
        simp only [cond_false, List.mem_cons]
        tauto
      | true =>
        simp only [cond_true, List.mem_cons]
        constructor
        · rintro ((rfl | hmem) | hmem)
          · exact .inr ⟨.inl rfl, hb⟩
          · exact .inl hmem
          · exact .inr ⟨.inr hmem.1, hmem.2⟩
        · rintro (hmem | ⟨rfl | hmem, ha⟩)
          · exact .inl (.inr hmem)
          · exact .inl (.inl rfl)
          · exact .inr ⟨hmem, ha⟩
  obtain ⟨reversed, hkept, h⟩ := exists_of_bind h
  obtain rfl : reversed.reverse = kept := Except.ok.inj h
  simpa using haux [] reversed hkept

/-- The parts together give an ascending list of just their texts, and none if one of them gives
none. -/
theorem insertAll_mapM_eq_ok_iff {ts : List Text} :
    ((as.mapM part).map fun parts => Text.insertAll parts.flatten []) = .ok ts ↔
      (∀ a ∈ as, ∃ own, part a = .ok own) ∧ Text.Ascending ts ∧
        ∀ t, t ∈ ts ↔ ∃ a ∈ as, ∃ own, part a = .ok own ∧ t ∈ own := by
  have hascending : ∀ ts, Text.Ascending (Text.insertAll ts []) := fun ts =>
    Text.Ascending.insertAll List.Pairwise.nil
  have hmem : ∀ parts, as.mapM part = .ok parts → ∀ t, t ∈ Text.insertAll parts.flatten [] ↔
      ∃ a ∈ as, ∃ own, part a = .ok own ∧ t ∈ own := by
    intro parts hparts t
    obtain ⟨hleft, hright⟩ := mem_of_mapM_eq_ok hparts
    rw [Text.mem_insertAll, List.mem_flatten]
    constructor
    · rintro (⟨own, hown, ht⟩ | ht)
      · obtain ⟨a, ha, hpart⟩ := hright own hown
        exact ⟨a, ha, own, hpart, ht⟩
      · cases ht
    · rintro ⟨a, ha, own, hpart, ht⟩
      obtain ⟨own', hown', hpart'⟩ := hleft a ha
      obtain rfl := Except.ok.inj (hpart.symm.trans hpart')
      exact .inl ⟨own, hown', ht⟩
  constructor
  · intro h
    cases hparts : as.mapM part with
    | error e => simp [hparts, Except.map] at h
    | ok parts =>
      obtain rfl : Text.insertAll parts.flatten [] = ts := by simpa [hparts, Except.map] using h
      refine ⟨fun a ha => ?_, hascending _, hmem parts hparts⟩
      obtain ⟨own, -, hpart⟩ := (mem_of_mapM_eq_ok hparts).1 a ha
      exact ⟨own, hpart⟩
  · rintro ⟨hall, hts, hts'⟩
    obtain ⟨parts, hparts⟩ := exists_mapM_eq_ok hall
    rw [hparts]
    refine congrArg Except.ok ((hascending _).eq_of_mem_iff hts fun t => ?_)
    rw [hts', hmem parts hparts]

end Gathering

/-! ## Items -/

namespace DiskFiles

open SymbolAtlas.Path (slash)

variable {d : DiskFiles} {reader : PatternReader}

theorem result_ofExcept_bind {α β : Type} (r : Except Failure α) (f : α → Report β) :
    (Report.ofExcept r >>= f).result = r.bind fun a => (f a).result :=
  Report.result_bind _ _

theorem bind_ok {α β : Type} (a : α) (f : α → Except Failure β) : (Except.ok a >>= f) = f a := rfl

theorem result_insertMapped (rules : List reader.Rule) (base file : Path) (found : List Text) :
    (do match ← d.mapPath? reader rules base file with
        | some path => pure (Text.insertSorted path found)
        | none => pure found : Report (List Text)).result =
      ((d.mapPath? reader rules base file).result.map Option.toList).map
        fun ts => Text.insertAll ts found := by
  rw [Report.result_bind]
  cases (d.mapPath? reader rules base file).result with
  | error e => rfl
  | ok path => cases path <;> rfl

/-- The paths of the files that one item names. -/
def pathsOf (d : DiskFiles) (reader : PatternReader) (item : MapItem) :
    Except Failure (List Text) := do
  let place ← d.volume.realPath [] (d.locate item.path)
  match ← candidates? d.volume place with
  | none => pure []
  | some candidates =>
    let rules ← reader.rulesOf candidates.base item.ignore
    let paths ← candidates.files.mapM fun file =>
      (d.mapPath? reader rules candidates.base file).result.map Option.toList
    pure paths.flatten

theorem result_collectItem (item : MapItem) (found : List Text) :
    (d.collectItem reader found item).result =
      (d.pathsOf reader item).map fun ts => Text.insertAll ts found := by
  unfold collectItem pathsOf
  rw [result_ofExcept_bind]
  cases d.volume.realPath [] (d.locate item.path) with
  | error e => rfl
  | ok place =>
    simp only [Except.bind, bind_ok]
    rw [result_ofExcept_bind]
    cases candidates? d.volume place with
    | error e => rfl
    | ok candidates =>
      cases candidates with
      | none => rfl
      | some candidates =>
        simp only [Except.bind, bind_ok]
        rw [result_ofExcept_bind]
        cases reader.rulesOf candidates.base item.ignore with
        | error e => rfl
        | ok rules =>
          simp only [Except.bind, bind_ok]
          refine (result_foldlM_insertAll (result_insertMapped rules candidates.base) _ _).trans ?_
          cases candidates.files.mapM fun file =>
              (d.mapPath? reader rules candidates.base file).result.map Option.toList <;> rfl

theorem eq_ok_of_toOption {α : Type} {r : Except Failure α} {a : α} (h : r.toOption = some a) :
    r = .ok a := by
  cases r with
  | error e => cases h
  | ok b => rw [Option.some.inj h]

/-- What a collection gives: the paths of all its items, ascending. -/
theorem collectItems_eq_ok_iff {items : List MapItem} {paths : List Text} :
    (d.collectItems reader items).result = .ok paths ↔
      (∀ item ∈ items, ∃ own, d.pathsOf reader item = .ok own) ∧ Text.Ascending paths ∧
        ∀ x, x ∈ paths ↔ ∃ item ∈ items, ∃ own, d.pathsOf reader item = .ok own ∧ x ∈ own := by
  unfold collectItems
  rw [result_foldlM_insertAll result_collectItem]
  exact insertAll_mapM_eq_ok_iff

theorem exists_collectItems {items : List MapItem}
    (h : ∀ item ∈ items, ∃ own, d.pathsOf reader item = .ok own) :
    ∃ paths, (d.collectItems reader items).result = .ok paths := by
  obtain ⟨parts, hparts⟩ := exists_mapM_eq_ok h
  refine ⟨Text.insertAll parts.flatten [], ?_⟩
  unfold collectItems
  rw [result_foldlM_insertAll result_collectItem, hparts]
  rfl

/-- What two lists of items give together is the union of what each of them gives. -/
theorem collectItems_append_eq_ok_iff {items others : List MapItem} {paths : List Text} :
    (d.collectItems reader (items ++ others)).result = .ok paths ↔
      ∃ own theirs, (d.collectItems reader items).result = .ok own ∧
        (d.collectItems reader others).result = .ok theirs ∧ Text.Ascending paths ∧
        ∀ x, x ∈ paths ↔ x ∈ own ∨ x ∈ theirs := by
  constructor
  · intro h
    obtain ⟨hall, hascending, hmem⟩ := collectItems_eq_ok_iff.mp h
    obtain ⟨hitems, hothers⟩ := List.forall_mem_append.mp hall
    obtain ⟨own, hown⟩ := exists_collectItems hitems
    obtain ⟨theirs, htheirs⟩ := exists_collectItems hothers
    refine ⟨own, theirs, hown, htheirs, hascending, fun x => ?_⟩
    rw [hmem, (collectItems_eq_ok_iff.mp hown).2.2, (collectItems_eq_ok_iff.mp htheirs).2.2]
    simp only [List.mem_append, or_and_right, exists_or]
  · rintro ⟨own, theirs, hown, htheirs, hascending, hmem⟩
    obtain ⟨hitems, -, hmemOwn⟩ := collectItems_eq_ok_iff.mp hown
    obtain ⟨hothers, -, hmemTheirs⟩ := collectItems_eq_ok_iff.mp htheirs
    refine collectItems_eq_ok_iff.mpr
      ⟨List.forall_mem_append.mpr ⟨hitems, hothers⟩, hascending, fun x => ?_⟩
    rw [hmem, hmemOwn, hmemTheirs]
    simp only [List.mem_append, or_and_right, exists_or]

/-- Neither the order of the items nor how often they come matters. -/
theorem collectItems_eq_ok_of_mem_iff {items others : List MapItem} {paths : List Text}
    (hsame : ∀ item, item ∈ items ↔ item ∈ others)
    (h : (d.collectItems reader items).result = .ok paths) :
    (d.collectItems reader others).result = .ok paths := by
  obtain ⟨hall, hascending, hmem⟩ := collectItems_eq_ok_iff.mp h
  refine collectItems_eq_ok_iff.mpr
    ⟨fun item hitem => hall item ((hsame item).mpr hitem), hascending, fun x => ?_⟩
  simp only [hmem, hsame]

/-! ## Candidates -/

/-- An absolute path of names that entries can have. -/
structure IsPlace (p : Path) : Prop where
  absolute : p.isAbsolute
  names : ∀ n ∈ p.names, Path.IsName n

theorem isPlace_of_mem_pathsBelow {v : Volume} (hv : v.WellNamed) {p file : Path}
    (hp : IsPlace p) (h : file ∈ pathsBelow v p) : IsPlace file := by
  unfold pathsBelow at h
  split at h
  next folder hfind =>
    obtain ⟨leaf, hleaf, rfl⟩ := List.mem_map.mp h
    obtain ⟨a, hwalks, rfl⟩ := Volume.find_eq_ok_iff.mp hfind
    have hat := (hwalks.on .nil).trail.at?_names
    rw [Entry.leaves_eq_map] at hleaf
    obtain ⟨inner, hinner, rfl⟩ := List.mem_map.mp hleaf
    refine ⟨hp.absolute, fun n hn => ?_⟩
    rcases List.mem_append.mp hn with hn | hn
    · exact hp.names n hn
    · have hmem := Entry.leaves_subset_of_at? hat []
      rw [Entry.leaves_eq_map] at hmem
      exact hv _ (hmem (List.mem_map_of_mem hinner)) n (List.mem_append_right _ hn)
  · cases h

theorem isPlace_of_candidates? {v : Volume} (hv : v.WellNamed) {place : Path} {c : Candidates}
    (hplace : IsPlace place) (h : candidates? v place = .ok (some c)) :
    ∀ file ∈ c.files, IsPlace file := by
  unfold candidates? at h
  obtain ⟨isFile, -, h⟩ := exists_of_bind h
  cases isFile with
  | true =>
    obtain rfl := Option.some.inj (Except.ok.inj h)
    simpa using hplace
  | false =>
    simp only [Bool.false_eq_true, if_false] at h
    split at h
    · obtain ⟨files, hfiles, h⟩ := exists_of_bind h
      obtain rfl := Option.some.inj (Except.ok.inj h)
      intro file hmem
      exact isPlace_of_mem_pathsBelow hv hplace ((mem_of_filterM_eq_ok hfiles file).mp hmem).1
    · cases h

/-! ## Paths of the map -/

/-- A path of the map with the file that it was collected for. -/
structure IsCollected (d : DiskFiles) (x : Text) (names : List Text) (file : Path) (bytes : Bytes) :
    Prop where
  /-- The path is relative to the project. -/
  parse_eq : Path.parse x = ⟨[], names⟩
  text_eq : x = Path.text ⟨[], names⟩
  up_notMem : Path.up ∉ names
  /-- No name on it is ignored or hidden. -/
  shown : ∀ n ∈ names, n ∉ skippedFolders ∧
    (n.head? = some (CodePoint.ofChar '.') → n ∈ shownFolders)
  /-- It is the path without links of the file. -/
  realPath_eq : d.volume.realPath [] file = .ok (d.locate x)
  content_eq : d.volume.content file.names = .ok bytes
  length_le : bytes.length ≤ sizeLimit

theorem namesBelow?_eq_some {base p : Path} {names : List Text}
    (h : namesBelow? base p = some names) : p = ⟨base.anchor, base.names ++ names⟩ := by
  unfold namesBelow? at h
  split at h
  next hbelow =>
    obtain ⟨hanchor, hprefix⟩ := hbelow
    obtain rfl := Option.some.inj h
    obtain ⟨rest, hrest⟩ := List.isPrefixOf_iff_prefix.mp hprefix
    refine Path.ext hanchor.symm ?_
    rw [← hrest, List.drop_left]
  · cases h

theorem not_isSkipped {n : Text} (h : isSkipped n = false) :
    n ∉ skippedFolders ∧ (n.head? = some (CodePoint.ofChar '.') → n ∈ shownFolders) := by
  simpa [isSkipped] using h

theorem isCollected_of_mapPath? {rules : List reader.Rule} {base file : Path} {x : Text}
    (hfile : IsPlace file) (h : (d.mapPath? reader rules base file).result = .ok (some x)) :
    ∃ names bytes, d.IsCollected x names file bytes := by
  unfold mapPath? at h
  rw [result_ofExcept_bind] at h
  cases hreal : d.volume.realPath [] file with
  | error e => simp [hreal, Except.bind] at h
  | ok real =>
    obtain ⟨-, hnames⟩ := Volume.names_of_realPath (by simp)
      (fun n hn => (hfile.names n hn).slash_notMem) hreal
    simp only [hreal, Except.bind] at h
    split at h
    · simp at h
    next names hbelow =>
      obtain rfl := namesBelow?_eq_some hbelow
      have hname : ∀ n ∈ names, Path.IsName n := fun n hn => hnames n (List.mem_append_right _ hn)
      split at h
      · simp at h
      next hskipped =>
        split at h
        · simp [Report.fail] at h
        · simp at h
        · split at h
          · simp at h
          next bytes hcontent =>
            split at h
            next => simp [Report.result_bind, Report.tell, Except.bind] at h
            next hsize =>
              obtain rfl : Path.text ⟨[], names⟩ = x := by simpa using h
              have hparse := Path.parse_text fun n hn => (hname n hn).toIsRead
              refine ⟨names, bytes, hparse, rfl, fun hup => (hname _ hup).ne_up rfl, ?_, ?_,
                hcontent, by omega⟩
              · intro n hn
                refine not_isSkipped ?_
                simpa using mt (fun hn' => List.any_eq_true.mpr ⟨n, hn, hn'⟩) hskipped
              · rw [hreal, locate, hparse]
                rfl

/-- The file itself stands at its path in the map, if no link is out of reach. -/
theorem IsCollected.at?_eq {x : Text} {names : List Text} {file : Path} {bytes : Bytes}
    (h : d.IsCollected x names file bytes) (hfile : IsPlace file)
    (hreach : d.volume.LinksInReach) :
    d.volume.at? (d.locate x).names = some (.file bytes) := by
  obtain ⟨a, hwalks, hend⟩ :=
    Volume.find_eq_ok_iff.mp (Volume.content_eq_ok_iff.mp h.content_eq)
  have hempty : [] ∉ file.names := fun hmem => (hfile.names _ hmem).ne_nil rfl
  have hplace := Volume.realPath_eq_of_walks hreach hfile.absolute hempty hwalks h.realPath_eq
  rw [hplace, (hwalks.on .nil).trail.at?_names, hend]

/-- A path of an item comes from one of its candidates. -/
theorem exists_candidate {item : MapItem} {own : List Text} (h : d.pathsOf reader item = .ok own)
    {x : Text} (hx : x ∈ own) :
    ∃ place candidates rules file, d.volume.realPath [] (d.locate item.path) = .ok place ∧
      candidates? d.volume place = .ok (some candidates) ∧
      reader.rulesOf candidates.base item.ignore = .ok rules ∧ file ∈ candidates.files ∧
      (d.mapPath? reader rules candidates.base file).result = .ok (some x) := by
  unfold pathsOf at h
  obtain ⟨place, hplace, h⟩ := exists_of_bind h
  obtain ⟨found, hcandidates, h⟩ := exists_of_bind h
  cases found with
  | none =>
    obtain rfl : [] = own := Except.ok.inj h
    cases hx
  | some candidates =>
    obtain ⟨rules, hrules, h⟩ := exists_of_bind h
    obtain ⟨parts, hparts, h⟩ := exists_of_bind h
    obtain rfl : parts.flatten = own := Except.ok.inj h
    obtain ⟨part, hpart, hx⟩ := List.mem_flatten.mp hx
    obtain ⟨file, hfile, hmapped⟩ := (mem_of_mapM_eq_ok hparts).2 part hpart
    cases hresult : (d.mapPath? reader rules candidates.base file).result with
    | error e => simp [hresult, Except.map] at hmapped
    | ok path =>
      obtain rfl : path.toList = part := by simpa [hresult, Except.map] using hmapped
      obtain rfl : path = some x := by simpa using hx
      exact ⟨place, candidates, rules, file, hplace, hcandidates, hrules, hfile, hresult⟩

theorem isPlace_of_realPath (hhome : ∀ n ∈ d.home.names, Path.IsName n) {file : Text} {place : Path}
    (h : d.volume.realPath [] (d.locate file) = .ok place) : IsPlace place := by
  have hlocate : ∀ n ∈ (d.locate file).names, Path.slash ∉ n := by
    intro n hn
    unfold locate Path.below at hn
    split at hn
    · exact (Path.isRead_of_mem_parse hn).slash_notMem
    · rcases List.mem_append.mp hn with hn | hn
      · exact (hhome n hn).slash_notMem
      · exact (Path.isRead_of_mem_parse hn).slash_notMem
  obtain ⟨habsolute, hnames⟩ := Volume.names_of_realPath (by simp) hlocate h
  exact ⟨habsolute, hnames⟩

theorem isCollected_of_mem_pathsOf (hv : d.volume.WellNamed)
    (hhome : ∀ n ∈ d.home.names, Path.IsName n) {item : MapItem} {own : List Text}
    (h : d.pathsOf reader item = .ok own) {x : Text} (hx : x ∈ own) :
    ∃ names file bytes, d.IsCollected x names file bytes ∧
      (d.volume.LinksInReach → d.volume.at? (d.locate x).names = some (.file bytes)) := by
  obtain ⟨place, candidates, rules, file, hplace, hcandidates, -, hfile, hmapped⟩ :=
    exists_candidate h hx
  have hfile := isPlace_of_candidates? hv (isPlace_of_realPath hhome hplace) hcandidates file hfile
  obtain ⟨names, bytes, hcollected⟩ := isCollected_of_mapPath? hfile hmapped
  exact ⟨names, file, bytes, hcollected, hcollected.at?_eq hfile⟩

/-- What a collection gives, in which order the items may come and how often: an ascending list of
paths of files in the project, the union of what the items give one by one. -/
theorem collectItems_contained (reader : PatternReader) (hv : d.volume.WellNamed)
    (hhome : ∀ n ∈ d.home.names, Path.IsName n) :
    (∀ items paths, (d.collectItems reader items).result = .ok paths →
      Text.Ascending paths ∧ ∀ x ∈ paths, ∃ names file bytes, d.IsCollected x names file bytes ∧
        (d.volume.LinksInReach → d.volume.at? (d.locate x).names = some (.file bytes))) ∧
    (∀ items others paths, (d.collectItems reader (items ++ others)).result = .ok paths ↔
      ∃ own theirs, (d.collectItems reader items).result = .ok own ∧
        (d.collectItems reader others).result = .ok theirs ∧ Text.Ascending paths ∧
        ∀ x, x ∈ paths ↔ x ∈ own ∨ x ∈ theirs) ∧
    ∀ items others, (∀ item, item ∈ items ↔ item ∈ others) → ∀ paths,
      (d.collectItems reader items).result = .ok paths →
        (d.collectItems reader others).result = .ok paths := by
  refine ⟨fun items paths h => ?_, fun _ _ _ => collectItems_append_eq_ok_iff,
    fun _ _ hsame _ => collectItems_eq_ok_of_mem_iff hsame⟩
  obtain ⟨-, hascending, hmem⟩ := collectItems_eq_ok_iff.mp h
  refine ⟨hascending, fun x hx => ?_⟩
  obtain ⟨item, -, own, hown, hx⟩ := (hmem x).mp hx
  exact isCollected_of_mem_pathsOf hv hhome hown hx

namespace Linked

/-- A project with one file, another way to this file, and a way out of the project. -/
def files : DiskFiles where
  volume := ⟨.folder [("p", .folder [("a.js", .file []), ("again.js", .link "a.js"),
    ("out.js", .link "../b.js")]), ("b.js", .file [])]⟩
  home := ⟨[slash], ["p"]⟩

/-- The whole project. -/
def item : MapItem := ⟨".", []⟩

end Linked

theorem collectItems_contained_linked :
    Linked.files.volume.WellNamed ∧ (∀ n ∈ Linked.files.home.names, Path.IsName n) ∧
      Linked.files.volume.LinksInReach ∧
      (Linked.files.collectItems gitignore [Linked.item]).result = .ok ["a.js"] ∧
      (∃ names file bytes, Linked.files.IsCollected "a.js" names file bytes ∧
        Linked.files.volume.at? (Linked.files.locate "a.js").names = some (.file bytes)) ∧
      (Linked.files.collectItems gitignore [Linked.item, Linked.item]).result = .ok ["a.js"] := by
  have hv : Linked.files.volume.WellNamed := by decide
  have hhome : ∀ n ∈ Linked.files.home.names, Path.IsName n := by decide
  have hreach : Linked.files.volume.LinksInReach :=
    Volume.linksInReach_of_leaves (by decide)
  have hresult : (Linked.files.collectItems gitignore [Linked.item]).result = .ok ["a.js"] := rfl
  obtain ⟨hcontained, -, hsame⟩ := collectItems_contained gitignore hv hhome
  obtain ⟨names, file, bytes, hcollected, hat⟩ :=
    (hcontained _ _ hresult).2 "a.js" List.mem_cons_self
  exact ⟨hv, hhome, hreach, hresult, ⟨names, file, bytes, hcollected, hat hreach⟩,
    hsame [Linked.item] [Linked.item, Linked.item] (by simp) _ hresult⟩

namespace OutOfReach

/-- A name of 252 bytes. -/
def wide : Text := List.replicate 63 (CodePoint.ofNat 0x1F600)

/-- Folders inside each other, with a link in the innermost one. -/
def nested (target : Text) : Nat → Entry
  | 0 => .folder [(wide, .link target)]
  | depth + 1 => .folder [(wide, nested target depth)]

/-- The way from the innermost folder out of the project. -/
def out : Text := Path.joined ((List.replicate 17 Path.up).concat "out.js")

/-- A project with a link at a path of more than 4095 bytes, and a short way to this link. -/
def files : DiskFiles where
  volume := ⟨.folder
    [("p", .folder
      [("m", .folder [("leaf.js", .link (Path.joined ["..", "s", wide]))]),
       ("s", .link (Path.joined (List.replicate 16 wide))), (wide, nested out 15)]),
     ("out.js", .file [])]⟩
  home := ⟨[slash], ["p"]⟩

def item : MapItem := ⟨"m", []⟩

/-- The path of the link. -/
def shown : Text := Path.joined (List.replicate 17 wide)

end OutOfReach

/-- A link that is out of reach is taken for a file, wherever it leads. -/
theorem collectItems_outOfReach :
    OutOfReach.files.volume.WellNamed ∧ (∀ n ∈ OutOfReach.files.home.names, Path.IsName n) ∧
      (OutOfReach.files.collectItems gitignore [OutOfReach.item]).result = .ok [OutOfReach.shown] ∧
      (∀ bytes, OutOfReach.files.volume.at? (OutOfReach.files.locate OutOfReach.shown).names ≠
        some (.file bytes)) ∧
      OutOfReach.files.volume.resolve (OutOfReach.files.locate OutOfReach.shown).names =
        .ok ["out.js"] := by
  refine ⟨by decide +kernel, by decide, ?_, ?_, by decide +kernel⟩
  · have h : (OutOfReach.files.collectItems gitignore [OutOfReach.item]).result.toOption =
        some [OutOfReach.shown] := by decide +kernel
    exact eq_ok_of_toOption h
  · have h : (OutOfReach.files.volume.at?
        (OutOfReach.files.locate OutOfReach.shown).names).map Entry.isLink = some true := by
      decide +kernel
    intro bytes hat
    rw [hat] at h
    cases h

end DiskFiles

end SymbolAtlas
