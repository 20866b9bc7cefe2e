import SymbolAtlas.Proofs.Files.Collecting

/-!
# One pattern more

Main statement: a pattern added behind the others of a map item takes files out of what is
collected, or takes files in if it is a negation, and no file is collected from below an ignored
folder (`DiskFiles.collectItems_ignore_monotone`). It holds whatever reads the patterns, as long as
the rules of negations are those that take paths in again (`PatternReader.MarksNegations`), which is
so for the reader of the program (`IgnoreRule.marksNegations`).

The rule of the last pattern is asked first (`PatternReader.isIgnoredBy_concat`), and a path is
spared if no folder on it is ignored (`PatternReader.isIgnored_eq_ok_false_iff`). So what the rules
spare only grows or only shrinks, and with it what is collected (`PartOf`).
-/

namespace SymbolAtlas

@[simp]
theorem Path.inside_inside (p : Path) (names more : List Text) :
    (p.inside names).inside more = p.inside (names ++ more) := by
  simp [inside]

@[simp]
theorem Path.inside_nil (p : Path) : p.inside [] = p := by simp [inside]

/-- A pattern that takes in what it matches. -/
def IsNegation (pattern : Text) : Prop := pattern.trim.head? = some (CodePoint.ofChar '!')

instance (pattern : Text) : Decidable (IsNegation pattern) := inferInstanceAs (Decidable (_ = _))

namespace PatternReader

/-- The rules that take paths in again are those of negations, which start with an exclamation
mark. -/
def MarksNegations (reader : PatternReader) : Prop :=
  ∀ base t r, reader.ruleOf? base t = .ok (some r) →
    (reader.isNegated r = true ↔ t.head? = some (CodePoint.ofChar '!'))

variable (reader : PatternReader)

/-- Rules that can be matched against the paths below a folder. -/
def Readable (base : Path) (rules : List reader.Rule) : Prop :=
  ∀ r ∈ rules, ∀ names, names ≠ [] → ∃ b, reader.isMatch r (base.inside names) = .ok b

/-- Patterns that have rules for a folder which can be matched there. -/
def Compile (base : Path) (patterns : List Json) : Prop :=
  ∃ rules, reader.rulesOf base patterns = .ok rules ∧ reader.Readable base rules

variable {reader} {base : Path} {rules others : List reader.Rule} {r : reader.Rule}

/-! ## Rules of patterns -/

/-- The rule of the last pattern is the last rule. -/
theorem rulesOf_concat (base : Path) (ps : List Json) (p : Text) :
    reader.rulesOf base (ps ++ [.text p]) = (reader.rulesOf base ps).bind fun rules =>
      (reader.ruleOf? base p.trim).map fun last => rules ++ last.toList := by
  induction ps with
  | nil =>
    show reader.rulesOf base [.text p] = _
    simp only [rulesOf]
    cases reader.ruleOf? base p.trim with
    | error e => rfl
    | ok last => cases last <;> rfl
  | cons v ps ih =>
    cases v with
    | text t =>
      simp only [List.cons_append, rulesOf, ih]
      cases reader.ruleOf? base t.trim with
      | error e => rfl
      | ok first =>
        cases first with
        | none => rfl
        | some r =>
          cases reader.rulesOf base ps with
          | error e => rfl
          | ok rules => cases reader.ruleOf? base p.trim <;> rfl
    | _ => rfl

theorem Readable.of_append_left {more : List reader.Rule}
    (h : reader.Readable base (rules ++ more)) : reader.Readable base rules :=
  fun r hr => h r (List.mem_append_left _ hr)

/-! ## What the rules decide -/

/-- The last rule decides about what it matches, and the others about the rest. -/
theorem isIgnoredBy_concat (p : Path) : reader.isIgnoredBy (rules ++ [r]) p =
    (reader.isMatch r p).bind fun b =>
      if b then .ok !reader.isNegated r else reader.isIgnoredBy rules p := by
  rw [isIgnoredBy, List.reverse_append, List.reverse_singleton, List.singleton_append, decidedBy]
  cases reader.isMatch r p with
  | error e => rfl
  | ok b => cases b <;> rfl

theorem exists_isIgnoredBy (h : reader.Readable base rules) {names : List Text}
    (hnames : names ≠ []) : ∃ b, reader.isIgnoredBy rules (base.inside names) = .ok b := by
  induction rules using List.reverseRecOn with
  | nil => exact ⟨false, rfl⟩
  | append_singleton rules r ih =>
    obtain ⟨b, hb⟩ := h r List.mem_concat_self names hnames
    rw [isIgnoredBy_concat, hb, Except.bind]
    cases b with
    | true => exact ⟨_, rfl⟩
    | false => exact ih h.of_append_left

/-- A path is spared if neither it nor any folder that leads to it is ignored. -/
theorem isIgnored_eq_ok_false_iff {folder : Path} {names : List Text} :
    reader.isIgnored rules folder names = .ok false ↔
      ∀ dir, dir ≠ [] → dir <+: names →
        reader.isIgnoredBy rules (folder.inside dir) = .ok false := by
  induction names generalizing folder with
  | nil =>
    simp only [isIgnored, true_iff]
    exact fun dir hdir hprefix => absurd (List.prefix_nil.mp hprefix) hdir
  | cons n names ih =>
    rw [isIgnored]
    constructor
    · intro h dir hdir hprefix
      split at h
      · cases h
      · cases h
      next hspared =>
        obtain ⟨m, dir, rfl⟩ := List.exists_cons_of_ne_nil hdir
        obtain ⟨rfl, hbelow⟩ := List.cons_prefix_cons.mp hprefix
        by_cases hlast : dir = []
        · rwa [hlast]
        · simpa using ih.mp h dir hlast hbelow
    · intro h
      rw [h [n] (by simp) (by simp)]
      refine ih.mpr fun dir _ hprefix => ?_
      simpa using h (n :: dir) (by simp) (by simpa using hprefix)

theorem exists_isIgnored (h : reader.Readable base rules) (names : List Text) :
    ∃ b, reader.isIgnored rules base names = .ok b := by
  have hfrom : ∀ outer, ∃ b, reader.isIgnored rules (base.inside outer) names = .ok b := by
    induction names with
    | nil => exact fun _ => ⟨false, rfl⟩
    | cons n names ih =>
      intro outer
      have hnames : outer ++ [n] ≠ [] := by simp
      obtain ⟨b, hb⟩ := exists_isIgnoredBy h hnames
      rw [isIgnored, Path.inside_inside, hb]
      cases b with
      | true => exact ⟨true, rfl⟩
      | false => exact ih _
  simpa using hfrom []

/-- Rules that spare no path below a folder which others ignore, all of them deciding about every
path there. -/
structure Stricter (reader : PatternReader) (base : Path) (rules others : List reader.Rule) :
    Prop where
  readable : reader.Readable base rules
  readable_others : reader.Readable base others
  spared : ∀ names, reader.isIgnored rules base names = .ok false →
    reader.isIgnored others base names = .ok false

theorem Stricter.refl (h : reader.Readable base rules) : reader.Stricter base rules rules :=
  ⟨h, h, fun _ hnames => hnames⟩

/-- Rules that ignore no folder which others spare are not the stricter ones. -/
theorem Stricter.of_isIgnoredBy (h : reader.Readable base rules)
    (hothers : reader.Readable base others)
    (hspared : ∀ dir, dir ≠ [] → reader.isIgnoredBy rules (base.inside dir) = .ok false →
      reader.isIgnoredBy others (base.inside dir) = .ok false) :
    reader.Stricter base rules others where
  readable := h
  readable_others := hothers
  spared := by
    intro names hnames
    rw [isIgnored_eq_ok_false_iff] at hnames ⊢
    exact fun dir hdir hprefix => hspared dir hdir (hnames dir hdir hprefix)

variable (h : reader.Readable base (rules ++ [r]))
include h

/-- One more rule at the end ignores more, unless it is negated. -/
theorem stricter_concat (hr : reader.isNegated r = false) :
    reader.Stricter base (rules ++ [r]) rules := by
  refine .of_isIgnoredBy h h.of_append_left fun dir hne hdir => ?_
  obtain ⟨b, hb⟩ := h r List.mem_concat_self dir hne
  rw [isIgnoredBy_concat, hb, Except.bind, hr] at hdir
  cases b with
  | true => simp at hdir
  | false => exact hdir

/-- One more rule at the end ignores less, if it is negated. -/
theorem concat_stricter (hr : reader.isNegated r = true) :
    reader.Stricter base rules (rules ++ [r]) := by
  refine .of_isIgnoredBy h.of_append_left h fun dir hne hdir => ?_
  obtain ⟨b, hb⟩ := h r List.mem_concat_self dir hne
  rw [isIgnoredBy_concat, hb, Except.bind, hr]
  cases b with
  | true => rfl
  | false => exact hdir

end PatternReader

/-! ## What is collected -/

namespace DiskFiles

open PatternReader (Stricter)

/-- Two collections that fail alike, or the second of which gives all that the first gives. -/
inductive PartOf : Except Failure (List Text) → Except Failure (List Text) → Prop
  | error (e : Failure) : PartOf (.error e) (.error e)
  | ok {own more : List Text} (h : own ⊆ more) : PartOf (.ok own) (.ok more)

theorem PartOf.refl (x : Except Failure (List Text)) : PartOf x x := by
  cases x with
  | error e => exact .error e
  | ok own => exact .ok (List.Subset.refl own)

/-- The texts of one collection and then those of another one. -/
def both (x y : Except Failure (List Text)) : Except Failure (List Text) :=
  x.bind fun own => y.map fun more => own ++ more

theorem PartOf.both {x x' y y' : Except Failure (List Text)} (h : PartOf x y) (h' : PartOf x' y') :
    PartOf (both x x') (both y y') := by
  cases h with
  | error e => exact .error e
  | ok hown =>
    cases h' with
    | error e => exact .error e
    | ok hmore =>
      refine .ok (List.append_subset.mpr ⟨?_, ?_⟩)
      · exact List.subset_append_of_subset_left _ hown
      · exact List.subset_append_of_subset_right _ hmore

theorem flatten_mapM_cons {α : Type} (f : α → Except Failure (List Text)) (a : α) (as : List α) :
    ((a :: as).mapM f).map List.flatten = both (f a) ((as.mapM f).map List.flatten) := by
  rw [List.mapM_cons]
  cases f a with
  | error e => rfl
  | ok own => cases as.mapM f <;> rfl

/-- A collection from several parts gives more if each part does. -/
theorem PartOf.mapM {α β : Type} {f : α → Except Failure (List Text)}
    {g : β → Except Failure (List Text)} {as : List α} {bs : List β}
    (h : List.Forall₂ (fun a b => PartOf (f a) (g b)) as bs) :
    PartOf ((as.mapM f).map List.flatten) ((bs.mapM g).map List.flatten) := by
  induction h with
  | nil => exact .refl _
  | cons hab _ ih =>
    rw [flatten_mapM_cons, flatten_mapM_cons]
    exact hab.both ih

variable {d : DiskFiles} {reader : PatternReader}

/-- A file that stricter rules put in the map is put there by the others as well. -/
theorem mapPath?_partOf {base : Path} {rules others : List reader.Rule}
    (h : reader.Stricter base rules others) (file : Path) :
    PartOf ((d.mapPath? reader rules base file).result.map Option.toList)
      ((d.mapPath? reader others base file).result.map Option.toList) := by
  unfold mapPath?
  simp only [result_ofExcept_bind]
  cases d.volume.realPath [] file with
  | error e => exact .error e
  | ok real =>
    simp only [Except.bind]
    split
    · exact .refl _
    next below hbelow =>
      split
      · exact .refl _
      · cases namesBelow? base real with
        | none => exact .refl _
        | some inside =>
          obtain ⟨b, hb⟩ := PatternReader.exists_isIgnored h.readable inside
          cases b with
          | true =>
            -- The stricter rules leave the file out, whatever comes of it.
            obtain ⟨b', hb'⟩ := PatternReader.exists_isIgnored h.readable_others inside
            simp only [hb, hb']
            cases b' with
            | true => exact .refl _
            | false =>
              cases d.volume.content file.names with
              | error e => exact .refl _
              | ok bytes =>
                by_cases hsize : sizeLimit < bytes.length
                · simp only [if_pos hsize]
                  exact .refl _
                · simp only [if_neg hsize]
                  exact .ok (List.nil_subset _)
          | false =>
            simp only [hb, h.spared inside hb]
            exact .refl _

/-- The patterns of an item belong to a folder: the one that its path leads to, or the one around
the file that it leads to. -/
def IsBase (d : DiskFiles) (path : Text) (base : Path) : Prop :=
  ∃ place candidates, d.volume.realPath [] (d.locate path) = .ok place ∧
    candidates? d.volume place = .ok (some candidates) ∧ candidates.base = base

/-- Patterns whose rules are stricter than those of others in the folder that they belong to. -/
def StricterAt (d : DiskFiles) (reader : PatternReader) (path : Text)
    (patterns others : List Json) : Prop :=
  ∀ base, d.IsBase path base → ∃ rules rules', reader.rulesOf base patterns = .ok rules ∧
    reader.rulesOf base others = .ok rules' ∧ reader.Stricter base rules rules'

/-- What one item gives with stricter patterns, it gives with the others as well. -/
theorem pathsOf_partOf {path : Text} {patterns others : List Json}
    (h : d.StricterAt reader path patterns others) :
    PartOf (d.pathsOf reader ⟨path, patterns⟩) (d.pathsOf reader ⟨path, others⟩) := by
  unfold pathsOf
  cases hplace : d.volume.realPath [] (d.locate path) with
  | error e => exact .error e
  | ok place =>
    simp only [bind_ok]
    cases hfound : candidates? d.volume place with
    | error e => exact .error e
    | ok found =>
      cases found with
      | none => exact .refl _
      | some c =>
        obtain ⟨rules, rules', hrules, hothers, hstricter⟩ :=
          h c.base ⟨place, c, hplace, hfound, rfl⟩
        simp only [bind_ok, hrules, hothers]
        exact PartOf.mapM (List.forall₂_same.mpr fun file _ => mapPath?_partOf hstricter file)

/-- Patterns matter by their rules alone. -/
theorem pathsOf_congr {path : Text} {patterns same : List Json}
    (h : ∀ base, d.IsBase path base → reader.rulesOf base patterns = reader.rulesOf base same) :
    d.pathsOf reader ⟨path, patterns⟩ = d.pathsOf reader ⟨path, same⟩ := by
  unfold pathsOf
  cases hplace : d.volume.realPath [] (d.locate path) with
  | error e => rfl
  | ok place =>
    simp only [bind_ok]
    cases hfound : candidates? d.volume place with
    | error e => rfl
    | ok found =>
      cases found with
      | none => rfl
      | some c => simp only [bind_ok, h c.base ⟨place, c, hplace, hfound, rfl⟩]

theorem PartOf.insertAll {x y : Except Failure (List Text)} (h : PartOf x y) :
    PartOf (x.map fun ts => Text.insertAll ts []) (y.map fun ts => Text.insertAll ts []) := by
  cases h with
  | error e => exact .error e
  | ok hmore =>
    refine .ok fun t ht => ?_
    rw [Text.mem_insertAll] at ht ⊢
    exact ht.imp_left fun ht => hmore ht

theorem result_collectItems (items : List MapItem) : (d.collectItems reader items).result =
    ((items.mapM (d.pathsOf reader)).map List.flatten).map fun ts => Text.insertAll ts [] := by
  rw [collectItems, result_foldlM_insertAll result_collectItem]
  cases items.mapM (d.pathsOf reader) <;> rfl

/-- What the items of one list give, those of another list give if they do one by one. -/
theorem collectItems_partOf {items more : List MapItem}
    (h : List.Forall₂ (fun i j => PartOf (d.pathsOf reader i) (d.pathsOf reader j)) items more) :
    PartOf (d.collectItems reader items).result (d.collectItems reader more).result := by
  rw [result_collectItems, result_collectItems]
  exact (PartOf.mapM h).insertAll

theorem collectItems_partOf_of_stricter {path : Text} {patterns others : List Json}
    (h : d.StricterAt reader path patterns others) (before after : List MapItem) :
    PartOf (d.collectItems reader (before ++ ⟨path, patterns⟩ :: after)).result
      (d.collectItems reader (before ++ ⟨path, others⟩ :: after)).result := by
  have hsame : ∀ items : List MapItem,
      List.Forall₂ (fun i j => PartOf (d.pathsOf reader i) (d.pathsOf reader j)) items items :=
    fun items => List.forall₂_same.mpr fun item _ => .refl _
  exact collectItems_partOf
    (List.rel_append (hsame before) (.cons (pathsOf_partOf h) (hsame after)))

/-! ## One pattern more in an item -/

section Adding

variable {path p : Text} {patterns : List Json} (hreader : reader.MarksNegations)
  (hcompile : ∀ base, d.IsBase path base → reader.Compile base (patterns ++ [.text p]))
include hreader hcompile

/-- With one pattern more the rules are the same in a folder, or one rule more, which takes paths in
again if the pattern is a negation. -/
theorem exists_rulesOf_concat {base : Path} (hbase : d.IsBase path base) :
    ∃ rules, reader.rulesOf base patterns = .ok rules ∧
      ((reader.rulesOf base (patterns ++ [.text p]) = .ok rules ∧ reader.Readable base rules) ∨
        ∃ r, reader.rulesOf base (patterns ++ [.text p]) = .ok (rules ++ [r]) ∧
          reader.Readable base (rules ++ [r]) ∧ (reader.isNegated r = true ↔ IsNegation p)) := by
  obtain ⟨all, hall, hreadable⟩ := hcompile base hbase
  have hconcat := @PatternReader.rulesOf_concat reader base patterns p
  obtain ⟨rules, hrules, hlast⟩ := exists_of_bind (hconcat ▸ hall)
  refine ⟨rules, hrules, ?_⟩
  cases hp : reader.ruleOf? base p.trim with
  | error e => simp [hp, Except.map] at hlast
  | ok last =>
    cases last with
    | none =>
      obtain rfl : rules = all := by simpa [hp, Except.map] using hlast
      exact .inl ⟨hall, hreadable⟩
    | some r =>
      obtain rfl : rules ++ [r] = all := by simpa [hp, Except.map] using hlast
      exact .inr ⟨r, hall, hreadable, hreader base _ r hp⟩

theorem stricterAt_concat (hp : ¬ IsNegation p) :
    d.StricterAt reader path (patterns ++ [.text p]) patterns := by
  intro base hbase
  obtain ⟨rules, hrules, ⟨hall, hreadable⟩ | ⟨r, hall, hreadable, hnegated⟩⟩ :=
    exists_rulesOf_concat hreader hcompile hbase
  · exact ⟨rules, rules, hall, hrules, .refl hreadable⟩
  · rw [← hnegated, Bool.not_eq_true] at hp
    exact ⟨rules ++ [r], rules, hall, hrules, PatternReader.stricter_concat hreadable hp⟩

theorem concat_stricterAt (hp : IsNegation p) :
    d.StricterAt reader path patterns (patterns ++ [.text p]) := by
  intro base hbase
  obtain ⟨rules, hrules, ⟨hall, hreadable⟩ | ⟨r, hall, hreadable, hnegated⟩⟩ :=
    exists_rulesOf_concat hreader hcompile hbase
  · exact ⟨rules, rules, hrules, hall, .refl hreadable⟩
  · have hr := hnegated.mpr hp
    exact ⟨rules, rules ++ [r], hrules, hall, PatternReader.concat_stricter hreadable hr⟩

end Adding

/-! ## Ignored folders -/

/-- The patterns of an item ignore what is at a path below the folder that they belong to. -/
def Ignores (d : DiskFiles) (reader : PatternReader) (item : MapItem) (p : Path) : Prop :=
  ∃ base rules names, d.IsBase item.path base ∧ reader.rulesOf base item.ignore = .ok rules ∧
    reader.isIgnoredBy rules p = .ok true ∧ names ≠ [] ∧ p = base.inside names

/-- A file that the map has does not lie below an ignored folder. -/
theorem isIgnoredBy_of_mapPath? {rules : List reader.Rule} {base file real : Path} {x : Text}
    (h : (d.mapPath? reader rules base file).result = .ok (some x))
    (hreal : d.volume.realPath [] file = .ok real) {dir rest : List Text} (hdir : dir ≠ [])
    (hbelow : real = (base.inside dir).inside rest) :
    reader.isIgnoredBy rules (base.inside dir) = .ok false := by
  have hnames : namesBelow? base real = some (dir ++ rest) := by
    simp [namesBelow?, hbelow, Path.inside]
  unfold mapPath? at h
  rw [result_ofExcept_bind, hreal] at h
  simp only [Except.bind, hnames] at h
  split at h
  · simp at h
  split at h
  · simp at h
  split at h
  · simp [Report.fail] at h
  · simp at h
  next hspared =>
    exact PatternReader.isIgnored_eq_ok_false_iff.mp hspared dir hdir (List.prefix_append _ _)

theorem not_below_of_ignores (hv : d.volume.WellNamed) (hhome : ∀ n ∈ d.home.names, Path.IsName n)
    {item : MapItem} {folder : Path} (h : d.Ignores reader item folder) {paths : List Text}
    (hpaths : (d.collectItems reader [item]).result = .ok paths) {x : Text} (hx : x ∈ paths)
    (rest : List Text) : d.locate x ≠ folder.inside rest := by
  intro hbelow
  obtain ⟨item', hitem, own, hown, hx⟩ := ((collectItems_eq_ok_iff.mp hpaths).2.2 x).mp hx
  obtain rfl := List.mem_singleton.mp hitem
  obtain ⟨place, candidates, rules, file, hplace, hcandidates, hrules, hfile, hmapped⟩ :=
    exists_candidate hown hx
  obtain ⟨base, rules', names, ⟨place', candidates', hplace', hcandidates', rfl⟩, hrules', hignored,
    hne, rfl⟩ := h
  obtain rfl := Except.ok.inj (hplace.symm.trans hplace')
  obtain rfl := Option.some.inj (Except.ok.inj (hcandidates.symm.trans hcandidates'))
  obtain rfl := Except.ok.inj (hrules.symm.trans hrules')
  have hfile := isPlace_of_candidates? hv (isPlace_of_realPath hhome hplace) hcandidates file hfile
  obtain ⟨_, _, hcollected⟩ := isCollected_of_mapPath? hfile hmapped
  rw [isIgnoredBy_of_mapPath? hmapped hcollected.realPath_eq hne hbelow] at hignored
  cases hignored

/-- A pattern added behind the others of an item takes files out of what is collected, or takes
files in if it is a negation, and changes nothing if it has no rule. No file is collected from below
a folder that is ignored. The patterns have to compile in the folder that they belong to, and it
does not matter what reads them. -/
theorem collectItems_ignore_monotone (reader : PatternReader) :
    (reader.MarksNegations → ∀ before after path patterns p,
      (∀ base, d.IsBase path base → reader.Compile base (patterns ++ [.text p])) →
      let old := (d.collectItems reader (before ++ ⟨path, patterns⟩ :: after)).result
      let new := (d.collectItems reader (before ++ ⟨path, patterns ++ [.text p]⟩ :: after)).result
      (¬ IsNegation p → PartOf new old) ∧ (IsNegation p → PartOf old new) ∧
        ((∀ base, d.IsBase path base → reader.ruleOf? base p.trim = .ok none) → new = old)) ∧
    (d.volume.WellNamed → (∀ n ∈ d.home.names, Path.IsName n) → ∀ item folder paths,
      d.Ignores reader item folder → (d.collectItems reader [item]).result = .ok paths →
      ∀ x ∈ paths, ∀ rest, d.locate x ≠ folder.inside rest) := by
  refine ⟨?_, fun hv hhome item folder paths h hpaths x hx =>
    not_below_of_ignores hv hhome h hpaths hx⟩
  intro hreader before after path patterns p hcompile old new
  refine ⟨fun hp => ?_, fun hp => ?_, fun hnone => ?_⟩
  · exact collectItems_partOf_of_stricter (stricterAt_concat hreader hcompile hp) before after
  · exact collectItems_partOf_of_stricter (concat_stricterAt hreader hcompile hp) before after
  · have hsame : ∀ base, d.IsBase path base →
        reader.rulesOf base (patterns ++ [.text p]) = reader.rulesOf base patterns := by
      intro base hbase
      rw [PatternReader.rulesOf_concat, hnone base hbase]
      cases reader.rulesOf base patterns <;> simp [Except.bind, Except.map]
    simp only [new, old, result_collectItems, List.mapM_append, List.mapM_cons,
      pathsOf_congr hsame]

end DiskFiles

/-! ## The reader of the program -/

namespace IgnoreRule

variable {base : Path} {t : Text} {r : IgnoreRule}

theorem negated_of_ofWords {negated : Bool} (h : ofWords base negated t = .ok (some r)) :
    r.negated = negated := by
  simp only [ofWords] at h
  split at h
  · cases h
  · obtain ⟨last, -, h⟩ := exists_of_bind h
    obtain ⟨stripped, -, h⟩ := exists_of_bind h
    obtain ⟨steps, -, h⟩ := exists_of_bind h
    rw [← Option.some.inj (Except.ok.inj h)]

theorem marksNegations : gitignore.MarksNegations := by
  intro base t r h
  change ofPattern base t = .ok (some r) at h
  change r.negated = true ↔ _
  unfold ofPattern at h
  split at h
  · cases h
  next c rest =>
    split at h
    · cases h
    split at h
    next hc => simp [negated_of_ofWords h, hc]
    next hc => simp [negated_of_ofWords h, hc]

/-- Patterns compile if the written forms of their rules can be read. -/
theorem compile_of_isOk {patterns : List Json} {rules : List IgnoreRule}
    (h : gitignore.rulesOf base patterns = .ok rules) (hrules : ∀ r ∈ rules, r.regex.isOk = true) :
    gitignore.Compile base patterns := by
  refine ⟨rules, h, fun r hr names _ => ?_⟩
  have hregex := hrules r hr
  show ∃ b, isMatch r (base.inside names) = .ok b
  unfold isMatch
  cases hr : r.regex with
  | error e => simp [hr, Except.isOk, Except.toBool] at hregex
  | ok regex => exact ⟨_, rfl⟩

end IgnoreRule

namespace DiskFiles

namespace Sifted

/-- A project with files of the same name inside and outside of a folder. -/
def files : DiskFiles where
  volume := ⟨.folder [("p", .folder [("a.js", .file []), ("keep.js", .file []),
    ("notes.py", .file []), ("src", .folder [("keep.js", .file [])])])]⟩
  home := ⟨[Path.slash], ["p"]⟩

/-- What is collected from the whole project. -/
def collected (patterns : List Json) : Except Failure (List Text) :=
  (files.collectItems gitignore [⟨".", patterns⟩]).result

/-- Patterns for some files and for the folder. -/
def patterns : List Json := [.text "*.js", .text "src"]

/-- The same patterns and a negation. -/
def more : List Json := patterns ++ [.text "!keep.js"]

def folder : Path := ⟨[Path.slash], ["p", "src"]⟩

/-- The patterns of the whole project belong to its folder. -/
theorem isBase_iff {base : Path} : files.IsBase "." base ↔ base = files.home := by
  constructor
  · rintro ⟨place, candidates, hplace, hcandidates, rfl⟩
    obtain rfl : files.home = place := Except.ok.inj hplace
    exact congrArg Candidates.base (Option.some.inj (Except.ok.inj hcandidates)).symm
  · rintro rfl
    exact ⟨_, _, rfl, rfl, rfl⟩

/-- The patterns compile where they belong to. -/
def Compiles (patterns : List Json) : Prop :=
  ∀ base, files.IsBase "." base → gitignore.Compile base patterns

theorem compiles_of_isOk {patterns : List Json}
    (h : (gitignore.rulesOf files.home patterns).toOption.map
      (List.all · fun r : IgnoreRule => r.regex.isOk) = some true) : Compiles patterns := by
  intro base hbase
  obtain rfl := isBase_iff.mp hbase
  cases hrules : gitignore.rulesOf files.home patterns with
  | error e =>
    rw [hrules] at h
    cases h
  | ok rules =>
    rw [hrules] at h
    exact IgnoreRule.compile_of_isOk hrules (List.all_eq_true.mp (Option.some.inj h))

/-- The negation takes in the file outside of the folder, and not the one of the same name inside
of it. -/
theorem collectItems_ignore_monotone_negation :
    gitignore.MarksNegations ∧
    Compiles more ∧ IsNegation "!keep.js" ∧ PartOf (collected patterns) (collected more) ∧
      collected patterns = .ok ["notes.py"] ∧ collected more = .ok ["keep.js", "notes.py"] ∧
    Compiles patterns ∧ ¬ IsNegation "src" ∧
      PartOf (collected patterns) (collected [.text "*.js"]) ∧
    Compiles (patterns ++ [.text " "]) ∧
      collected (patterns ++ [.text " "]) = collected patterns ∧
    files.volume.WellNamed ∧ (∀ n ∈ files.home.names, Path.IsName n) ∧
      files.Ignores gitignore ⟨".", more⟩ folder ∧
      ∀ x ∈ ([Text.ofString "keep.js", "notes.py"] : List Text), ∀ rest,
        files.locate x ≠ folder.inside rest := by
  obtain ⟨hone, hnone⟩ := collectItems_ignore_monotone (d := files) gitignore
  have hmarks := IgnoreRule.marksNegations
  have hmore : Compiles more := compiles_of_isOk (by decide +kernel)
  have hfewer : Compiles patterns := compiles_of_isOk (by decide +kernel)
  have hblank : Compiles (patterns ++ [.text " "]) := compiles_of_isOk (by decide +kernel)
  have hcollected : collected patterns = .ok ["notes.py"] := eq_ok_of_toOption (by decide +kernel)
  have hkept : collected more = .ok ["keep.js", "notes.py"] :=
    eq_ok_of_toOption (by decide +kernel)
  have hv : files.volume.WellNamed := by decide
  have hhome : ∀ n ∈ files.home.names, Path.IsName n := by decide
  have hignores : files.Ignores gitignore ⟨".", more⟩ folder :=
    ⟨_, _, ["src"], isBase_iff.mpr rfl, rfl, rfl, by decide, rfl⟩
  obtain ⟨-, hnegation, -⟩ := hone hmarks [] [] "." patterns "!keep.js" hmore
  obtain ⟨hplain, -, -⟩ := hone hmarks [] [] "." [.text "*.js"] "src" hfewer
  obtain ⟨-, -, hnothing⟩ := hone hmarks [] [] "." patterns " " hblank
  exact ⟨hmarks, hmore, by decide, hnegation (by decide), hcollected, hkept, hfewer, by decide,
    hplain (by decide), hblank, hnothing fun _ _ => rfl, hv, hhome, hignores,
    hnone hv hhome _ _ _ hignores hkept⟩

end Sifted

end DiskFiles

end SymbolAtlas
