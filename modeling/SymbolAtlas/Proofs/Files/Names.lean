import SymbolAtlas.Files.RealPath
import SymbolAtlas.Proofs.Text.Lines

/-!
# Names of paths

A name of a path that was read is not empty, not a single dot, and has no slash (`Path.IsRead`); the
name of an entry is besides not `..` (`Path.IsName`). A relative path of such names is read again as
it was written (`Path.parse_text`). The path without links that a path stands for is absolute and
made of names of entries (`Volume.names_of_realPath`), whatever the targets of the links are: it is
where following the links comes to, made absolute (`Volume.exists_of_realPath`).
-/

namespace SymbolAtlas

namespace Path

/-- A name as paths have it when they are read. -/
structure IsRead (n : Text) : Prop where
  ne_nil : n ≠ []
  ne_here : n ≠ here
  slash_notMem : slash ∉ n

/-- A name that an entry can have. -/
structure IsName (n : Text) : Prop extends IsRead n where
  ne_up : n ≠ up

instance (n : Text) : Decidable (IsName n) :=
  decidable_of_iff ((n ≠ [] ∧ n ≠ here ∧ slash ∉ n) ∧ n ≠ up)
    ⟨fun h => ⟨⟨h.1.1, h.1.2.1, h.1.2.2⟩, h.2⟩,
      fun h => ⟨⟨h.ne_nil, h.ne_here, h.slash_notMem⟩, h.ne_up⟩⟩

theorem isRead_of_mem_parse {t n : Text} (h : n ∈ (parse t).names) : IsRead n := by
  obtain ⟨hpart, hn⟩ := List.mem_filter.mp h
  obtain ⟨hnil, hhere⟩ : n ≠ [] ∧ n ≠ here := by simpa using hn
  exact ⟨hnil, hhere, Text.notMem_of_mem_separate hpart⟩

/-- A relative path is read again as it was written. -/
theorem parse_text {names : List Text} (h : ∀ n ∈ names, IsRead n) :
    parse (text ⟨[], names⟩) = ⟨[], names⟩ := by
  cases names with
  | nil => decide
  | cons n ns =>
    have hparts : Text.separate slash (joined (n :: ns)) = n :: ns :=
      Text.separate_intercalate (by simp) fun m hm => (h m hm).slash_notMem
    have hfilter : (n :: ns).filter (fun n => n ≠ [] && n ≠ here) = n :: ns := by
      refine List.filter_eq_self.mpr fun m hm => ?_
      simp [(h m hm).ne_nil, (h m hm).ne_here]
    -- The text starts with the first name, and so with no slash.
    obtain ⟨hnil, -, hslash⟩ := h n List.mem_cons_self
    obtain ⟨c, cs, rfl⟩ := List.exists_cons_of_ne_nil hnil
    have hc : c ≠ slash := fun hc => hslash (by simp [hc])
    have hstart : ((joined ((c :: cs) :: ns)).takeWhile (· = slash)).length = 0 := by
      cases ns <;> simp [joined, List.intercalate, hc]
    have htext : text ⟨[], (c :: cs) :: ns⟩ = joined ((c :: cs) :: ns) := by simp [text]
    rw [htext]
    refine Path.ext ?_ ?_
    · simp only [parse, hstart]
    · simp only [parse, hparts]
      exact hfilter

theorem mem_cancelUps {names : List Text} {n : Text} (h : n ∈ cancelUps names) :
    n ∈ names ∧ n ≠ up := by
  have hfold : ∀ done,
      n ∈ names.foldl (fun done n => if n = up then done.tail else n :: done) done →
        n ∈ done ∨ n ∈ names ∧ n ≠ up := by
    clear h
    induction names with
    | nil => exact fun done h => .inl h
    | cons m names ih =>
      intro done h
      rw [List.foldl_cons] at h
      rcases ih _ h with h | ⟨h, hup⟩
      · split at h
        · exact .inl (List.mem_of_mem_tail h)
        next hm =>
          rcases List.mem_cons.mp h with rfl | h
          · exact .inr ⟨List.mem_cons_self, hm⟩
          · exact .inl h
      · exact .inr ⟨List.mem_cons_of_mem _ h, hup⟩
  rcases hfold [] (List.mem_reverse.mp h) with h | h
  · cases h
  · exact h

theorem isRead_of_mem_above {p : Path} (h : ∀ n ∈ p.names, IsRead n) :
    ∀ n ∈ p.above.names, IsRead n := by
  have hup : IsRead up := ⟨by decide, by decide, by decide⟩
  intro n hn
  unfold above at hn
  split at hn
  · rcases List.mem_append.mp hn with hn | hn
    · exact h n hn
    · rwa [List.mem_singleton.mp hn]
  · exact h n (List.dropLast_subset _ hn)

end Path

namespace Volume

open SymbolAtlas.Path

variable {v : Volume} {cwd : List Text} {p q : Path}

/-- All that the links met so far lead to has names as they are read. -/
def Met.IsRead (met : Met) : Prop :=
  ∀ m ∈ met, ∀ there, m.2 = some there → ∀ n ∈ there.names, Path.IsRead n

/-- Following links keeps to names as they are read. -/
def KeepsNames (follow : Met → Path → List Text → Except Failure (Met × Lead)) : Prop :=
  ∀ {met place names met' lead}, Met.IsRead met → (∀ n ∈ place.names, Path.IsRead n) →
    (∀ n ∈ names, slash ∉ n) → follow met place names = .ok (met', lead) →
    Met.IsRead met' ∧ ∀ there, lead = .settled there → ∀ n ∈ there.names, Path.IsRead n

theorem Met.isRead_cons {met : Met} {x : Path} {there : Option Path} (h : Met.IsRead met)
    (hthere : ∀ p, there = some p → ∀ n ∈ p.names, Path.IsRead n) :
    Met.IsRead ((x, there) :: met) :=
  List.forall_mem_cons.mpr ⟨hthere, h⟩

theorem keepsNames_leadWith {follow : Met → Path → List Text → Except Failure (Met × Lead)}
    (hfollow : KeepsNames follow) : KeepsNames (v.leadWith cwd follow) := by
  intro met place names met' lead hmet hplace hnames h
  induction names generalizing met place with
  | nil =>
    obtain ⟨rfl, rfl⟩ := Prod.mk.inj (Except.ok.inj h)
    refine ⟨hmet, fun there hthere => ?_⟩
    obtain rfl := Lead.settled.inj hthere
    exact hplace
  | cons n rest ih =>
    obtain ⟨hn, hrest⟩ := List.forall_mem_cons.mp hnames
    rw [leadWith] at h
    split at h
    · exact ih hmet hplace hrest h
    next hskip =>
      obtain ⟨hnil, hhere⟩ := not_or.mp hskip
      split at h
      · exact ih hmet (isRead_of_mem_above hplace) hrest h
      · dsimp only at h
        split at h
        · cases h
        · refine ih hmet (fun m hm => ?_) hrest h
          rcases List.mem_append.mp hm with hm | hm
          · exact hplace m hm
          · exact List.mem_singleton.mp hm ▸ ⟨hnil, hhere, hn⟩
        next target _ =>
          split at h
          next x there hfind =>
            exact ih hmet (hmet _ (List.mem_of_find?_eq_some hfind) there rfl) hrest h
          next x hfind =>
            obtain ⟨rfl, rfl⟩ := Prod.mk.inj (Except.ok.inj h)
            exact ⟨hmet, fun there hthere => by cases hthere⟩
          next =>
            have hstart : ∀ m ∈ (if target.head? = some slash then (⟨[slash], []⟩ : Path)
                else place).names, Path.IsRead m := by
              split
              · simp
              · exact hplace
            have hparts : ∀ m ∈ Text.separate slash target, slash ∉ m :=
              fun m hm => Text.notMem_of_mem_separate hm
            split at h
            · cases h
            next met₁ written hinner =>
              obtain ⟨rfl, rfl⟩ := Prod.mk.inj (Except.ok.inj h)
              have hmet₁ := (hfollow (Met.isRead_cons hmet (by simp)) hstart hparts hinner).1
              exact ⟨hmet₁, fun there hthere => by cases hthere⟩
            next met₁ there hinner =>
              obtain ⟨hmet₁, hthere⟩ :=
                hfollow (Met.isRead_cons hmet (by simp)) hstart hparts hinner
              have hthere := hthere there rfl
              refine ih (Met.isRead_cons hmet₁ fun p hp => ?_) hthere hrest h
              exact Option.some.inj hp ▸ hthere

theorem keepsNames_leadWithin (depth : Nat) : KeepsNames (v.leadWithin cwd depth) := by
  induction depth with
  | zero =>
    refine keepsNames_leadWith ?_
    intro met place names met' lead hmet _ _ h
    obtain ⟨rfl, rfl⟩ := Prod.mk.inj (Except.ok.inj h)
    exact ⟨hmet, fun there hthere => by cases hthere⟩
  | succ depth ih => exact keepsNames_leadWith ih

/-- The path that following links comes to; behind a circle it goes on as it is written. -/
def Lead.path : Lead → Path
  | settled place => place
  | circle written => parse written

/-- A path without links is where following the links comes to, made absolute. -/
theorem exists_of_realPath (h : v.realPath cwd p = .ok q) :
    ∃ met lead, v.leadWithin cwd (v.leadDepth cwd p) []
        ⟨if p.isAbsolute then [slash] else [], []⟩ p.names = .ok (met, lead) ∧
      q = absolute cwd lead.path := by
  rw [realPath] at h
  split at h
  · cases h
  next met lead hlead =>
    refine ⟨met, lead, hlead, ?_⟩
    dsimp only at h
    split at h
    · exact (Except.ok.inj h).symm
    · cases h
    · split at h
      · cases h
      · exact (Except.ok.inj h).symm

theorem isName_of_mem_absolute (hcwd : ∀ n ∈ cwd, Path.IsRead n)
    (hp : ∀ n ∈ p.names, Path.IsRead n) : ∀ n ∈ (absolute cwd p).names, IsName n := by
  intro n hn
  obtain ⟨hn, hup⟩ := mem_cancelUps hn
  refine ⟨?_, hup⟩
  unfold Path.below at hn
  split at hn
  · exact hp n hn
  · rcases List.mem_append.mp hn with hn | hn
    · exact hcwd n hn
    · exact hp n hn

theorem isAbsolute_absolute (cwd : List Text) (p : Path) : (absolute cwd p).isAbsolute := by
  unfold absolute Path.below
  split
  next h => exact h
  next => simp [isAbsolute]

/-- A path without links is absolute, and its names are names of entries. -/
theorem names_of_realPath (hcwd : ∀ n ∈ cwd, Path.IsRead n) (hp : ∀ n ∈ p.names, slash ∉ n)
    (h : v.realPath cwd p = .ok q) : q.isAbsolute ∧ ∀ n ∈ q.names, IsName n := by
  obtain ⟨met, lead, hlead, rfl⟩ := exists_of_realPath h
  have hnone : Met.IsRead [] := fun m hm => by cases hm
  obtain ⟨-, hsettled⟩ := keepsNames_leadWithin _ hnone (by simp) hp hlead
  have hread : ∀ n ∈ lead.path.names, Path.IsRead n := by
    cases lead with
    | settled place => exact hsettled place rfl
    | circle written => exact fun n hn => isRead_of_mem_parse hn
  exact ⟨isAbsolute_absolute cwd lead.path, isName_of_mem_absolute hcwd hread⟩

end Volume

end SymbolAtlas
