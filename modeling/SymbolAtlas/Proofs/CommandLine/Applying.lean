import Mathlib.Data.List.Infix
import SymbolAtlas.CommandLine.Options

/-!
# Asking for changes

A command line that can be run asks for changes exactly if one of its arguments before the divider
is the switch for that, whole or cut short (`apply_iff_asksToApply`). No letter stands for the
switch (`Spelling.apply_mem_iff_of_read`), with something attached to it the command line is refused
(`Word.isLongApply_of_ofText`), and no other switch takes it for its value (`Draft.Took`).
-/

namespace SymbolAtlas.CommandLine

/-- A text is the switch for changes, whole or cut short as far as it stays the only one. -/
def SpellsApply (t : Text) : Prop := Text.ofString "--a" <+: t ∧ t <+: Switch.apply_.long

instance (t : Text) : Decidable (SpellsApply t) := inferInstanceAs (Decidable (_ ∧ _))

/-- An argument before the divider is the switch for changes. -/
def AsksToApply (arguments : List Text) : Prop :=
  ∃ t ∈ arguments.takeWhile (· ≠ Draft.dividerText), SpellsApply t

instance (arguments : List Text) : Decidable (AsksToApply arguments) :=
  inferInstanceAs (Decidable (∃ t ∈ _, _))

/-! ## Names of switches -/

namespace Switch

theorem eq_long_of_ofName? {t : Text} (h : ofName? t = some apply_) : t = apply_.long := by
  have hfind := List.find?_some h
  simpa [short?, letter?, eq_comm] using hfind

theorem ofLetter?_ne_apply (c : CodePoint) : ofLetter? c ≠ some apply_ := by
  intro h
  have hfind := List.find?_some h
  simp [letter?] at hfind

end Switch

namespace Word

theorem eq_of_splitEquals {t before : Text} (h : splitEquals t = (before, none)) : before = t := by
  unfold splitEquals at h
  dsimp only at h
  split at h
  next hdrop =>
    obtain ⟨rfl, -⟩ := Prod.mk.inj h
    have hstarts := List.takeWhile_prefix (· ≠ CodePoint.ofChar '=') (l := t)
    exact hstarts.eq_of_length_le (List.drop_eq_nil_iff.mp hdrop)
  next => simp at h

/-- The divider apart, two dashes and the start of the long name are enough. -/
theorem spellsApply_of_prefix {t : Text} (hdivider : t ≠ Draft.dividerText)
    (hlong : hasOneDash t = false) (h : t <+: Switch.apply_.long) : SpellsApply t := by
  have hinits : ∀ t ∈ Switch.apply_.long.inits, t ≠ Draft.dividerText → hasOneDash t = false →
      Text.ofString "--a" <+: t := by decide
  exact ⟨hinits t ((List.mem_inits t _).mpr h) hdivider hlong, h⟩

/-- The spellings of the switch for changes. -/
def applySpellings : List Text := ["--a", "--ap", "--app", "--appl", "--apply"]

theorem mem_applySpellings {t : Text} (h : SpellsApply t) : t ∈ applySpellings := by
  have hinits : ∀ t ∈ Switch.apply_.long.inits, Text.ofString "--a" <+: t → t ∈ applySpellings := by
    decide
  exact hinits t ((List.mem_inits t _).mpr h.2) h.1

theorem ofText_of_spellsApply {t : Text} (h : SpellsApply t) :
    ofText t = .ok (.switch ⟨.apply_, false, none⟩) := by
  have hmem := mem_applySpellings h
  simp only [applySpellings, List.mem_cons, List.not_mem_nil, or_false] at hmem
  rcases hmem with rfl | rfl | rfl | rfl | rfl <;> rfl

theorem nameless_ne_switch (t : Text) (w : Spelling) : nameless t ≠ switch w := by
  unfold nameless
  split <;> simp

/-- The switch for changes as it stands in an argument: it is long, and the argument spells it
unless something is attached. -/
def IsLongApply (t : Text) (w : Spelling) : Prop :=
  w.isShort = false ∧ (w.attached = none → SpellsApply t)

theorem isLongApply_of_ofDashed {t : Text} {w : Spelling} (hdivider : t ≠ Draft.dividerText)
    (h : ofDashed t = .ok (.switch w)) (hw : w.switch = .apply_) : IsLongApply t w := by
  rcases hsplit : splitEquals t with ⟨before, after⟩
  simp only [ofDashed, hsplit] at h
  split at h
  next value s hs =>
    cases h
    obtain rfl : s = .apply_ := hw
    rw [Switch.eq_long_of_ofName? hs]
    exact ⟨rfl, fun hnone => by cases hnone⟩
  next =>
    split at h
    · split at h
      · split at h
        next s hs =>
          cases h
          obtain rfl : s = .apply_ := hw
          exact absurd hs (Switch.ofLetter?_ne_apply _)
        next => exact absurd (Except.ok.inj h) (nameless_ne_switch _ _)
      · cases h
    next hlong =>
      split at h
      · exact absurd (Except.ok.inj h) (nameless_ne_switch _ _)
      next s hs =>
        cases h
        obtain rfl : s = .apply_ := hw
        refine ⟨rfl, fun hnone => ?_⟩
        have hmem : Switch.apply_ ∈ Switch.all.filter fun s => Text.startsWith s.long before :=
          hs ▸ List.mem_singleton_self _
        have hstarts := List.isPrefixOf_iff_prefix.mp (List.mem_filter.mp hmem).2
        rw [eq_of_splitEquals (hsplit.trans (congrArg (Prod.mk before) hnone))] at hstarts
        exact spellsApply_of_prefix hdivider (by simpa using hlong) hstarts
      · cases h

theorem isLongApply_of_ofText {t : Text} {w : Spelling} (h : ofText t = .ok (.switch w))
    (hw : w.switch = .apply_) : IsLongApply t w := by
  unfold ofText at h
  split at h
  · cases h
  split at h
  · cases h
  next hdivider =>
    split at h
    next s hs =>
      cases h
      obtain rfl : s = .apply_ := hw
      rw [Switch.eq_long_of_ofName? hs]
      exact ⟨rfl, fun _ => by decide⟩
    next => exact isLongApply_of_ofDashed hdivider h hw

theorem ofDashed_ne_divider (t : Text) : ofDashed t ≠ .ok .divider := by
  have hnameless : nameless t ≠ divider := by
    unfold nameless
    split <;> simp
  unfold ofDashed
  dsimp only
  split
  · simp
  split
  · split
    · split <;> simp [hnameless]
    · simp
  · split <;> simp [hnameless]

theorem ofText_eq_divider_iff {t : Text} : ofText t = .ok .divider ↔ t = Draft.dividerText := by
  constructor
  · intro h
    unfold ofText at h
    split at h
    · cases h
    split at h
    next hdivider => exact hdivider
    next =>
      split at h
      · cases h
      · exact absurd h (ofDashed_ne_divider t)
  · rintro rfl
    rfl

end Word

/-! ## Flags -/

namespace Spelling

variable {w : Spelling} {flags : List Switch} {rest : Rest}

theorem apply_mem_bare (s : Switch) : .apply_ ∈ (bare s).1 ↔ s = .apply_ := by
  cases s <;> simp [bare, Switch.takesValue]

theorem apply_mem_iff_of_unbundle {s : Switch} {t : Text} (h : unbundle s t = .ok (flags, rest)) :
    .apply_ ∈ flags ↔ s = .apply_ := by
  have hvalue : ∀ {s : Switch}, s.takesValue = true → s ≠ .apply_ := by
    rintro s hs rfl
    simp [Switch.takesValue] at hs
  fun_induction unbundle s t generalizing flags rest with
  | case1 s hs =>
    cases h
    simp [hvalue hs]
  | case2 => cases h
  | case3 s c t hs =>
    cases h
    simp [hvalue hs]
  | case4 => cases h
  | case5 s c _ next hnext =>
    cases h
    have hnext : next ≠ .apply_ := fun heq => Switch.ofLetter?_ne_apply c (heq ▸ hnext)
    simp [apply_mem_bare, hnext, eq_comm]
  | case6 s c _ next d after hnext ih =>
    rcases hrest : unbundle next (d :: after) with e | ⟨more, rest'⟩
    · simp [hrest, Except.map] at h
    · rw [hrest] at h
      cases h
      have hnext : next ≠ .apply_ := fun heq => Switch.ofLetter?_ne_apply c (heq ▸ hnext)
      simp [ih hrest, hnext, eq_comm]

/-- An argument gives the flag for changes only as its one switch. -/
theorem apply_mem_iff_of_read (h : w.read = .ok (flags, rest)) :
    .apply_ ∈ flags ↔ w.switch = .apply_ := by
  unfold read at h
  split at h
  next =>
    have hflags : (bare w.switch).1 = flags := congrArg Prod.fst (Except.ok.inj h)
    rw [← hflags]
    exact apply_mem_bare _
  next =>
    split at h
    · exact apply_mem_iff_of_unbundle h
    · cases h

end Spelling

/-! ## Taking the words -/

namespace Draft

variable {d d' : Draft} {t : Text}

@[simp]
theorem options_setAside : (d.setAside t).options = d.options := rfl

@[simp]
theorem options_takeDivider : d.takeDivider.options = d.options := by
  unfold takeDivider
  split <;> rfl

@[simp]
theorem options_endRow : d.endRow.options = d.options := by
  unfold endRow
  split <;> rfl

theorem options_takePlain (h : d.takePlain t = .ok d') : d'.options = d.options := by
  unfold takePlain at h
  split at h
  · split at h
    · rw [← Except.ok.inj h]
    · cases h
  · rw [← Except.ok.inj h]
  · rw [← Except.ok.inj h, options_setAside]
  · rw [← Except.ok.inj h, options_setAside]

theorem apply_takeFlag {s : Switch} (h : d.takeFlag s = .ok d') :
    d'.options.apply = true ↔ d.options.apply = true ∨ s = .apply_ := by
  cases s <;> cases h <;> simp

theorem apply_takeFlags {flags : List Switch} (h : flags.foldlM takeFlag d = .ok d') :
    d'.options.apply = true ↔ d.options.apply = true ∨ .apply_ ∈ flags := by
  induction flags generalizing d with
  | nil =>
    cases h
    simp
  | cons s flags ih =>
    rw [List.foldlM_cons] at h
    obtain ⟨d₁, hs, h⟩ := exists_of_bind h
    rw [ih h, apply_takeFlag hs, or_assoc, List.mem_cons, eq_comm (a := s)]

theorem apply_takeValue {s : Switch} (h : d.takeValue s t = .ok d') :
    d'.options.apply = d.options.apply := by
  unfold takeValue at h
  cases s <;> try (cases h; rfl)
  dsimp only at h
  split at h <;> cases h <;> rfl

theorem apply_takeSwitches {flags : List Switch} {value : Option (Switch × Text)}
    (h : d.takeSwitches flags value = .ok d') :
    d'.options.apply = true ↔ d.options.apply = true ∨ .apply_ ∈ flags := by
  obtain ⟨d₁, hflags, h⟩ := exists_of_bind h
  rw [← apply_takeFlags hflags]
  cases value with
  | none =>
    cases h
    rfl
  | some value => rw [apply_takeValue h]

/-- What taking some words says of them: the switches can be read, and changes are asked for if they
were before or if one of the words is the switch for them. -/
structure Took (d : Draft) (words : List Word) (d' : Draft) : Prop where
  read : ∀ w, .switch w ∈ words → ∃ m, w.read = .ok m
  apply : d'.options.apply = true ↔
    d.options.apply = true ∨ ∃ w, .switch w ∈ words ∧ w.switch = .apply_

variable {d₁ : Draft} {words : List Word}

theorem Took.other {word : Word} (hword : ∀ w, word ≠ .switch w) (hd : d₁.options = d.options)
    (h : Took d₁ words d') : Took d (word :: words) d' := by
  have hmem : ∀ w, .switch w ∈ word :: words ↔ .switch w ∈ words := by
    intro w
    simp [(hword w).symm]
  refine ⟨fun w hw => h.read w ((hmem w).mp hw), ?_⟩
  simp only [hmem, ← hd]
  exact h.apply

theorem Took.switch {w : Spelling} {flags : List Switch} {rest : Rest}
    {value : Option (Switch × Text)} (hread : w.read = .ok (flags, rest))
    (hd : d.endRow.takeSwitches flags value = .ok d₁) (h : Took d₁ words d') :
    Took d (.switch w :: words) d' := by
  constructor
  · intro w' hw'
    rcases List.mem_cons.mp hw' with heq | hw'
    · cases heq
      exact ⟨_, hread⟩
    · exact h.read w' hw'
  · rw [h.apply, apply_takeSwitches hd, Spelling.apply_mem_iff_of_read hread, options_endRow,
      or_assoc]
    refine or_congr_right ?_
    constructor
    · rintro (hw | ⟨w', hw', happly⟩)
      · exact ⟨w, List.mem_cons_self, hw⟩
      · exact ⟨w', List.mem_cons_of_mem _ hw', happly⟩
    · rintro ⟨w', hw', happly⟩
      rcases List.mem_cons.mp hw' with heq | hw'
      · cases heq
        exact .inl happly
      · exact .inr ⟨w', hw', happly⟩

theorem took_of_takeAll (h : d.takeAll words = .ok d') : Took d words d' := by
  fun_induction takeAll d words with
  | case1 d =>
    cases h
    exact ⟨by simp, by simp⟩
  | case2 d t words ih =>
    obtain ⟨d₁, hplain, h⟩ := exists_of_bind h
    exact .other (by simp) (options_takePlain hplain) (ih d₁ h)
  | case3 d words ih => exact .other (by simp) options_takeDivider (ih h)
  | case4 d t words ih => exact .other (by simp) (by simp) (ih h)
  | case5 => cases h
  | case6 d w flags words hread ih =>
    obtain ⟨d₁, hd, h⟩ := exists_of_bind h
    exact .switch hread hd (ih d₁ h)
  | case7 d w flags s t words hread ih =>
    obtain ⟨d₁, hd, h⟩ := exists_of_bind h
    exact .switch hread hd (ih d₁ h)
  | case8 d w flags s t words hread ih =>
    obtain ⟨d₁, hd, h⟩ := exists_of_bind h
    exact .switch hread hd (.other (by simp) rfl (ih d₁ h))
  | case9 => cases h

end Draft

/-! ## Arguments -/

theorem mem_readAll_iff {arguments : List Text} {words : List Word} {w : Spelling}
    (h : Word.readAll arguments = .ok words) :
    .switch w ∈ words ↔
      ∃ t ∈ arguments.takeWhile (· ≠ Draft.dividerText), Word.ofText t = .ok (.switch w) := by
  induction arguments generalizing words with
  | nil =>
    cases h
    simp
  | cons t ts ih =>
    rw [Word.readAll] at h
    split at h
    · cases h
    next hdivider =>
      rw [Word.ofText_eq_divider_iff] at hdivider
      cases h
      simp [hdivider]
    next word hne hword =>
      have ht : t ≠ Draft.dividerText := by
        intro ht
        rw [Word.ofText_eq_divider_iff.mpr ht] at hword
        exact hne (Except.ok.inj hword).symm
      split at h
      · cases h
      next ws hws =>
        cases h
        simp [ht, ih hws, hword, eq_comm]

/-- A command line that is run asks for changes as its arguments do. -/
theorem apply_iff_asksToApply {arguments : List Text} {i : Invocation}
    (h : read arguments = .run i) : i.options.apply = true ↔ AsksToApply arguments := by
  unfold read at h
  split at h
  · cases h
  next words hwords =>
    split at h
    · cases h
    · cases h
    next d hd =>
      have htook := Draft.took_of_takeAll hd
      have hi : i.options = d.options := by
        unfold Draft.finish at h
        split at h <;> cases h
        rfl
      have hstart : Draft.start.options.apply = false := rfl
      rw [hi, htook.apply, hstart]
      simp only [Bool.false_eq_true, false_or, mem_readAll_iff hwords]
      constructor
      · rintro ⟨w, ⟨t, ht, hw⟩, happly⟩
        obtain ⟨m, hm⟩ := htook.read w ((mem_readAll_iff hwords).mpr ⟨t, ht, hw⟩)
        obtain ⟨hshort, hspells⟩ := Word.isLongApply_of_ofText hw happly
        refine ⟨t, ht, hspells ?_⟩
        -- With something attached the switch cannot be read.
        cases hattached : w.attached with
        | none => rfl
        | some value => simp [Spelling.read, hattached, hshort, happly, Switch.takesValue] at hm
      · rintro ⟨t, ht, hspells⟩
        exact ⟨_, ⟨t, ht, Word.ofText_of_spellsApply hspells⟩, rfl⟩

end SymbolAtlas.CommandLine
