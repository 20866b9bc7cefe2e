import Mathlib.Data.List.Induction
import SymbolAtlas.Text.Utf8

/-!
# Code points with their bytes

`Utf8.points` reads bytes as code points, each with the bytes that it stands for: a valid sequence,
or a single stray byte. The code points alone are `Utf8.decode`, the bytes alone are the bytes read,
and writing each code point gives its bytes back (`encode_decode`).

A cut between two points is a boundary (`IsBoundary`), and reading goes on as before on either side
of it: `points_of_append` says so of the points and `IsBoundary.decode_eq` of the texts.
-/

namespace SymbolAtlas.Utf8

/-- The code points of a piece, each with the bytes it stands for. -/
def Piece.points : Piece → List (CodePoint × Bytes)
  | .char c octets => [(c, octets)]
  | .stray octets => octets.map fun b => (CodePoint.ofStrayByte b, [b])

/-- The code points that bytes are read as, each with the bytes it stands for. -/
def points (bs : Bytes) : List (CodePoint × Bytes) := (pieces bs).flatMap Piece.points

theorem map_fst_points (bs : Bytes) : (points bs).map Prod.fst = decode bs := by
  simp only [points, decode, List.map_flatMap]
  congr 1
  funext p
  cases p <;> simp [Piece.points]

theorem Piece.flatMap_snd_points (p : Piece) : p.points.flatMap Prod.snd = p.octets := by
  cases p with
  | char c o => simp [Piece.points, Piece.octets]
  | stray o => induction o <;> simp_all [Piece.points, Piece.octets]

theorem flatMap_snd_points (bs : Bytes) : (points bs).flatMap Prod.snd = bs := by
  rw [points, List.flatMap_assoc]
  simp only [Piece.flatMap_snd_points]
  exact flatMap_octets_pieces bs

/-! ## The first point -/

/-- Bytes that continue a sequence start none. -/
theorem lead?_eq_none {b : UInt8} (h : 0x80 ≤ b.toNat ∧ b.toNat ≤ 0xBF) : lead? b = none := by
  have h1 : ¬ b.toNat < 0x80 := by omega
  have h2 : b.toNat < 0xC2 := by omega
  simp [lead?, h1, h2]

/-- The rows of the table of first bytes, by the number of bytes that follow. -/
theorem lead?_cases {b : UInt8} {l : Lead} (h : lead? b = some l) :
    (b.toNat < 0x80 ∧ l = ⟨0, 0x80, 0xBF, b.toNat⟩) ∨
    ((0xC2 ≤ b.toNat ∧ b.toNat < 0xE0) ∧ l = ⟨1, 0x80, 0xBF, b.toNat - 0xC0⟩) ∨
    (∃ least greatest, ((0xE0 ≤ b.toNat ∧ b.toNat < 0xF0) ∧ 0x80 ≤ least ∧ greatest ≤ 0xBF ∧
      (b.toNat = 0xE0 → 0xA0 ≤ least) ∧ (b.toNat = 0xED → greatest ≤ 0x9F)) ∧
      l = ⟨2, least, greatest, b.toNat - 0xE0⟩) ∨
    (∃ least greatest, ((0xF0 ≤ b.toNat ∧ b.toNat ≤ 0xF4) ∧ 0x80 ≤ least ∧ greatest ≤ 0xBF ∧
      (b.toNat = 0xF0 → 0x90 ≤ least) ∧ (b.toNat = 0xF4 → greatest ≤ 0x8F)) ∧
      l = ⟨3, least, greatest, b.toNat - 0xF0⟩) := by
  unfold lead? at h
  simp only [beq_iff_eq] at h
  -- One case for each row of the table; the last bounds of two and of three bytes to follow vary.
  split at h
  · exact .inl ⟨by assumption, by simpa using h.symm⟩
  split at h
  · cases h
  split at h
  · exact .inr (.inl ⟨by omega, by simpa using h.symm⟩)
  split at h
  · exact .inr (.inr (.inl ⟨0xA0, 0xBF, by omega, by simp_all⟩))
  split at h
  · exact .inr (.inr (.inl ⟨0x80, 0x9F, by omega, by simp_all⟩))
  split at h
  · exact .inr (.inr (.inl ⟨0x80, 0xBF, by omega, by simpa using h.symm⟩))
  split at h
  · exact .inr (.inr (.inr ⟨0x90, 0xBF, by omega, by simp_all⟩))
  split at h
  · exact .inr (.inr (.inr ⟨0x80, 0xBF, by omega, by simpa using h.symm⟩))
  split at h
  · exact .inr (.inr (.inr ⟨0x80, 0x8F, by omega, by simp_all⟩))
  · cases h

/-- What is asked of the bytes that follow lies in the range of continuation bytes. -/
theorem lead?_bounds {b : UInt8} {l : Lead} (h : lead? b = some l) :
    0x80 ≤ l.least ∧ l.greatest ≤ 0xBF := by
  rcases lead?_cases h with ⟨-, rfl⟩ | ⟨-, rfl⟩ | ⟨_, _, hl, rfl⟩ | ⟨_, _, hl, rfl⟩
  · simp
  · simp
  · exact ⟨hl.2.1, hl.2.2.1⟩
  · exact ⟨hl.2.1, hl.2.2.1⟩

theorem mem_tail {k least greatest : Nat} {bs : Bytes} (h : 0x80 ≤ least ∧ greatest ≤ 0xBF) :
    ∀ b ∈ tail k least greatest bs, 0x80 ≤ b.toNat ∧ b.toNat ≤ 0xBF := by
  induction k generalizing least greatest bs with
  | zero => simp [tail]
  | succ k ih =>
    cases bs with
    | nil => simp [tail]
    | cons c bs =>
      rw [tail]
      split
      · intro b hb
        rcases List.mem_cons.mp hb with rfl | hb
        · omega
        · exact ih (by omega) b hb
      · simp

/-- Fewer bytes continue a sequence no further. -/
theorem tail_isPrefix (k least greatest : Nat) (xs ys : Bytes) :
    tail k least greatest xs <+: tail k least greatest (xs ++ ys) := by
  induction k generalizing least greatest xs with
  | zero => simp [tail]
  | succ k ih =>
    cases xs with
    | nil => simp [tail]
    | cons x xs =>
      simp only [tail, List.cons_append]
      split
      · exact List.cons_prefix_cons.mpr ⟨rfl, ih ..⟩
      · simp

/-- A sequence that is complete is not continued. -/
theorem tail_append {k least greatest : Nat} {bs : Bytes}
    (h : (tail k least greatest bs).length = k) (ys : Bytes) :
    tail k least greatest (tail k least greatest bs ++ ys) = tail k least greatest bs := by
  induction k generalizing least greatest bs with
  | zero => simp [tail]
  | succ k ih =>
    cases bs with
    | nil => simp [tail] at h
    | cons b bs =>
      rw [tail] at h ⊢
      split at h
      · rename_i hb
        rw [if_pos hb, List.cons_append, tail, if_pos hb, ih (by simpa using h)]
      · simp at h

theorem length_tail_le (k least greatest : Nat) (bs : Bytes) :
    (tail k least greatest bs).length ≤ k := by
  induction k generalizing least greatest bs with
  | zero => simp [tail]
  | succ k ih =>
    cases bs with
    | nil => simp [tail]
    | cons b bs =>
      rw [tail]
      split
      · simpa using ih ..
      · simp

/-- A character is a first byte with all the bytes it asks for. -/
theorem pieceAt_eq_char {b : UInt8} {bs : Bytes} {c : CodePoint} {o : Bytes}
    (h : pieceAt b bs = .char c o) :
    ∃ l, lead? b = some l ∧ (tail l.follow l.least l.greatest bs).length = l.follow ∧
      o = b :: tail l.follow l.least l.greatest bs ∧
      c = CodePoint.ofNat (value l.bits (tail l.follow l.least l.greatest bs)) := by
  unfold pieceAt at h
  split at h
  · cases h
  · rename_i l hl
    dsimp only at h
    split at h
    · rename_i hlen
      simp only [Piece.char.injEq] at h
      exact ⟨l, hl, hlen, h.2.symm, h.1.symm⟩
    · cases h

/-- A stray run is a byte that starts no sequence, or a first byte with too few bytes behind it. -/
theorem pieceAt_eq_stray {b : UInt8} {bs o : Bytes} (h : pieceAt b bs = .stray o) :
    (lead? b = none ∧ o = [b]) ∨
    ∃ l, lead? b = some l ∧ (tail l.follow l.least l.greatest bs).length < l.follow ∧
      o = b :: tail l.follow l.least l.greatest bs := by
  unfold pieceAt at h
  split at h
  · rename_i hl
    exact .inl ⟨hl, by simpa using h.symm⟩
  · rename_i l hl
    dsimp only at h
    split at h
    · cases h
    · rename_i hlen
      have := length_tail_le l.follow l.least l.greatest bs
      exact .inr ⟨l, hl, by omega, by simpa using h.symm⟩

/-- The point that bytes start with. -/
def pointAt (b : UInt8) (bs : Bytes) : CodePoint × Bytes :=
  match pieceAt b bs with
  | .char c octets => (c, octets)
  | .stray _ => (CodePoint.ofStrayByte b, [b])

/-- Bytes that start no sequence are points of their own. -/
theorem points_append_of_lead?_eq_none {more : Bytes} (h : ∀ b ∈ more, lead? b = none)
    (bs : Bytes) :
    points (more ++ bs) = (more.map fun b => (CodePoint.ofStrayByte b, [b])) ++ points bs := by
  induction more with
  | nil => rfl
  | cons b more ih =>
    have hb : pieceAt b (more ++ bs) = .stray [b] := by simp [pieceAt, h b (by simp)]
    rw [List.cons_append, points, pieces_cons, hb]
    have := ih fun c hc => h c (by simp [hc])
    simpa [Piece.points, Piece.octets, points] using this

/-- Reading goes on behind the first point, within a stray run too. -/
theorem points_cons (b : UInt8) (bs : Bytes) :
    points (b :: bs) = pointAt b bs :: points (bs.drop ((pointAt b bs).2.length - 1)) := by
  rw [points, pieces_cons, List.flatMap_cons]
  unfold pointAt
  cases hp : pieceAt b bs with
  | char c o => rfl
  | stray o =>
    rcases pieceAt_eq_stray hp with ⟨-, rfl⟩ | ⟨l, hl, -, rfl⟩
    · rfl
    · -- What follows the first byte of the run starts no sequence.
      have hlead : ∀ c ∈ tail l.follow l.least l.greatest bs, lead? c = none :=
        fun c hc => lead?_eq_none (mem_tail (lead?_bounds hl) c hc)
      have hrun := points_append_of_lead?_eq_none hlead
        (bs.drop (tail l.follow l.least l.greatest bs).length)
      rw [tail_append_drop] at hrun
      simpa [Piece.points, Piece.octets, points] using hrun.symm

/-! ## Cuts between points -/

/-- A point stays the same when bytes behind it are cut off. -/
theorem pointAt_append {b : UInt8} {xs ys : Bytes}
    (h : (pointAt b (xs ++ ys)).2.length ≤ xs.length + 1) :
    pointAt b xs = pointAt b (xs ++ ys) := by
  unfold pointAt at h ⊢
  cases hp : pieceAt b (xs ++ ys) with
  | char c o =>
    obtain ⟨l, hl, hlen, rfl, rfl⟩ := pieceAt_eq_char hp
    simp only [hp, List.length_cons, Nat.add_le_add_iff_right] at h
    -- The bytes that follow all lie in `xs`.
    have hmore : tail l.follow l.least l.greatest (xs ++ ys) <+: xs :=
      List.prefix_of_prefix_length_le ⟨_, tail_append_drop ..⟩ (List.prefix_append xs ys) h
    obtain ⟨rest, hrest⟩ := hmore
    have htail := tail_append hlen rest
    rw [hrest] at htail
    simp [pieceAt, hl, htail, hlen]
  | stray o =>
    rcases pieceAt_eq_stray hp with ⟨hl, -⟩ | ⟨l, hl, hlen, -⟩
    · simp [pieceAt, hl]
    · have hle := (tail_isPrefix l.follow l.least l.greatest xs ys).length_le
      have hne : (tail l.follow l.least l.greatest xs).length ≠ l.follow := by omega
      simp [pieceAt, hl, hne]

/-- The bytes of the first point are the first byte and what follows it. -/
theorem pointAt_snd (b : UInt8) (bs : Bytes) :
    ∃ more, (pointAt b bs).2 = b :: more ∧ bs = more ++ bs.drop more.length := by
  unfold pointAt
  cases hp : pieceAt b bs with
  | char c o =>
    obtain ⟨l, -, -, rfl, -⟩ := pieceAt_eq_char hp
    exact ⟨_, rfl, (tail_append_drop ..).symm⟩
  | stray o => exact ⟨[], rfl, rfl⟩

/-- Bytes cut between two points are read as the points on either side. -/
theorem points_of_append {bs : Bytes} {us vs : List (CodePoint × Bytes)}
    (h : points bs = us ++ vs) :
    points (us.flatMap Prod.snd) = us ∧ points (vs.flatMap Prod.snd) = vs := by
  induction us generalizing bs with
  | nil =>
    rw [List.nil_append] at h
    refine ⟨rfl, ?_⟩
    rw [← h, flatMap_snd_points]
  | cons u us ih =>
    cases bs with
    | nil => simp [points] at h
    | cons b bs =>
      rw [points_cons, List.cons_append, List.cons.injEq] at h
      obtain ⟨rfl, h⟩ := h
      obtain ⟨hus, hvs⟩ := ih h
      refine ⟨?_, hvs⟩
      obtain ⟨more, hmore, hbs⟩ := pointAt_snd b bs
      have hrest := congrArg (List.flatMap Prod.snd) h
      rw [flatMap_snd_points, List.flatMap_append, hmore, List.length_cons,
        Nat.add_sub_cancel] at hrest
      rw [hrest, ← List.append_assoc] at hbs
      -- The first point does not see how many bytes come behind it.
      have hpoint : pointAt b (more ++ us.flatMap Prod.snd) = pointAt b bs := by
        rw [hbs]
        apply pointAt_append
        rw [← hbs, hmore]
        simp
      rw [List.flatMap_cons, hmore, List.cons_append, points_cons, hpoint, hmore]
      simp [hus]

/-- A cut between two code points of a reading, or at one of its ends. -/
def IsBoundary (bs : Bytes) (k : Nat) : Prop :=
  ∃ us vs, points bs = us ++ vs ∧ (us.flatMap Prod.snd).length = k

/-- The ends of the code points of a reading, counted in bytes from a place on, and that place. -/
def cutsFrom (k : Nat) : List (CodePoint × Bytes) → List Nat
  | [] => [k]
  | p :: ps => k :: cutsFrom (k + p.2.length) ps

theorem mem_cutsFrom {j k : Nat} {ps : List (CodePoint × Bytes)} :
    j ∈ cutsFrom k ps ↔ ∃ us vs, ps = us ++ vs ∧ k + (us.flatMap Prod.snd).length = j := by
  induction ps generalizing k with
  | nil => simp [cutsFrom, eq_comm]
  | cons p ps ih =>
    rw [cutsFrom, List.mem_cons, ih]
    constructor
    · rintro (rfl | ⟨us, vs, rfl, rfl⟩)
      · exact ⟨[], p :: ps, rfl, rfl⟩
      · exact ⟨p :: us, vs, rfl, by simp [Nat.add_assoc]⟩
    · rintro ⟨us, vs, heq, rfl⟩
      cases us with
      | nil => exact .inl rfl
      | cons u us =>
        obtain ⟨rfl, rfl⟩ := List.cons.inj heq
        exact .inr ⟨us, vs, rfl, by simp [Nat.add_assoc]⟩

instance (bs : Bytes) (k : Nat) : Decidable (IsBoundary bs k) :=
  decidable_of_iff (k ∈ cutsFrom 0 (points bs)) (by simp [mem_cutsFrom, IsBoundary])

/-- The bytes on either side of a boundary are read on their own. -/
theorem IsBoundary.points_eq {bs : Bytes} {k : Nat} (h : IsBoundary bs k) :
    points bs = points (bs.take k) ++ points (bs.drop k) := by
  obtain ⟨us, vs, hpoints, rfl⟩ := h
  obtain ⟨hus, hvs⟩ := points_of_append hpoints
  have hbs : bs = us.flatMap Prod.snd ++ vs.flatMap Prod.snd := by
    rw [← List.flatMap_append, ← hpoints, flatMap_snd_points]
  rw [hpoints, hbs, List.take_left, List.drop_left, hus, hvs]

theorem IsBoundary.decode_eq {bs : Bytes} {k : Nat} (h : IsBoundary bs k) :
    decode bs = decode (bs.take k) ++ decode (bs.drop k) := by
  rw [← map_fst_points, h.points_eq, List.map_append, map_fst_points, map_fst_points]

/-- A boundary is a boundary of what comes before each later one. -/
theorem IsBoundary.take {bs : Bytes} {j k : Nat} (hj : IsBoundary bs j) (hk : IsBoundary bs k)
    (hle : j ≤ k) (hk' : k ≤ bs.length) : IsBoundary (bs.take k) j := by
  have hpj := hj.points_eq
  have hpk := hk.points_eq
  have hlen : ((points (bs.take j)).flatMap Prod.snd).length = j := by
    rw [flatMap_snd_points, List.length_take]
    omega
  rcases List.prefix_or_prefix_of_prefix ⟨_, hpj.symm⟩ ⟨_, hpk.symm⟩ with h | h
  · obtain ⟨ws, hws⟩ := h
    exact ⟨_, ws, hws.symm, hlen⟩
  · -- Then both hold the same bytes.
    obtain ⟨ws, hws⟩ := h
    have hbytes := congrArg (List.flatMap Prod.snd) hws
    rw [List.flatMap_append, flatMap_snd_points, flatMap_snd_points] at hbytes
    have hkj : bs.take k <+: bs.take j := ⟨_, hbytes⟩
    have hjk : bs.take j <+: bs.take k := List.take_prefix_take_left hle
    have hle' := hkj.length_le
    have hge' := hjk.length_le
    have hsame : bs.take k = bs.take j := hkj.eq_of_length (by omega)
    exact ⟨points (bs.take j), [], by rw [hsame, List.append_nil], hlen⟩

/-- What is read before a boundary is read before each later one. -/
theorem IsBoundary.decode_take {bs : Bytes} {j k : Nat} (hj : IsBoundary bs j)
    (hk : IsBoundary bs k) (hle : j ≤ k) (hk' : k ≤ bs.length) :
    decode (bs.take k) = decode (bs.take j) ++ decode ((bs.take k).drop j) := by
  rw [(hj.take hk hle hk').decode_eq, List.take_take, Nat.min_eq_left hle]

/-! ## Writing what was read -/

/-- A complete sequence spells out its first byte behind the first. -/
theorem tail_eq_cons {k least greatest : Nat} {bs : Bytes}
    (h : (tail (k + 1) least greatest bs).length = k + 1) :
    ∃ c rest, tail (k + 1) least greatest bs = c :: tail k 0x80 0xBF rest ∧
      (least ≤ c.toNat ∧ c.toNat ≤ greatest) ∧ (tail k 0x80 0xBF rest).length = k := by
  cases bs with
  | nil => simp [tail] at h
  | cons c rest =>
    rw [tail] at h ⊢
    split at h
    · rename_i hc
      rw [if_pos hc]
      exact ⟨c, rest, rfl, hc, by simpa using h⟩
    · simp at h

theorem ofNat_eq_of_toNat {n : Nat} {b : UInt8} (h : n = b.toNat) : UInt8.ofNat n = b := by
  subst h
  simp

/-- A number that is written with the given bytes, and is the number of a character. -/
def Spells (bs : Bytes) (n : Nat) : Prop :=
  octetsOf n = bs ∧ n < 0x110000 ∧ (n < 0xD800 ∨ 0xDFFF < n)

section Spells

variable {b c d e : UInt8} {n : Nat}

theorem spells_one (hb : b.toNat < 0x80) : Spells [b] b.toNat := by
  refine ⟨?_, by omega, by omega⟩
  rw [octetsOf, if_pos hb, ofNat_eq_of_toNat rfl]

theorem spells_two (hb : 0xC2 ≤ b.toNat ∧ b.toNat < 0xE0) (hc : 0x80 ≤ c.toNat ∧ c.toNat ≤ 0xBF)
    (hn : n = (b.toNat - 0xC0) * 64 + (c.toNat - 0x80)) : Spells [b, c] n := by
  refine ⟨?_, by omega, by omega⟩
  rw [octetsOf, if_neg (by omega), if_pos (by omega), ofNat_eq_of_toNat (b := b) (by omega),
    ofNat_eq_of_toNat (b := c) (by omega)]

theorem spells_three (hb : 0xE0 ≤ b.toNat ∧ b.toNat < 0xF0)
    (hc : 0x80 ≤ c.toNat ∧ c.toNat ≤ 0xBF) (hd : 0x80 ≤ d.toNat ∧ d.toNat ≤ 0xBF)
    (hlow : b.toNat = 0xE0 → 0xA0 ≤ c.toNat) (hsurrogate : b.toNat = 0xED → c.toNat ≤ 0x9F)
    (hn : n = ((b.toNat - 0xE0) * 64 + (c.toNat - 0x80)) * 64 + (d.toNat - 0x80)) :
    Spells [b, c, d] n := by
  refine ⟨?_, by omega, by omega⟩
  rw [octetsOf, if_neg (by omega), if_neg (by omega), if_pos (by omega),
    ofNat_eq_of_toNat (b := b) (by omega), ofNat_eq_of_toNat (b := c) (by omega),
    ofNat_eq_of_toNat (b := d) (by omega)]

theorem spells_four (hb : 0xF0 ≤ b.toNat ∧ b.toNat ≤ 0xF4)
    (hc : 0x80 ≤ c.toNat ∧ c.toNat ≤ 0xBF) (hd : 0x80 ≤ d.toNat ∧ d.toNat ≤ 0xBF)
    (he : 0x80 ≤ e.toNat ∧ e.toNat ≤ 0xBF)
    (hlow : b.toNat = 0xF0 → 0x90 ≤ c.toNat) (hhigh : b.toNat = 0xF4 → c.toNat ≤ 0x8F)
    (hn : n = (((b.toNat - 0xF0) * 64 + (c.toNat - 0x80)) * 64 + (d.toNat - 0x80)) * 64 +
      (e.toNat - 0x80)) : Spells [b, c, d, e] n := by
  refine ⟨?_, by omega, by omega⟩
  rw [octetsOf, if_neg (by omega), if_neg (by omega), if_neg (by omega),
    ofNat_eq_of_toNat (b := b) (by omega), ofNat_eq_of_toNat (b := c) (by omega),
    ofNat_eq_of_toNat (b := d) (by omega), ofNat_eq_of_toNat (b := e) (by omega)]

end Spells

/-- The bits of a complete sequence are those of the character that it is the form of. -/
theorem spells_value {b : UInt8} {bs : Bytes} {l : Lead} (hl : lead? b = some l)
    (hlen : (tail l.follow l.least l.greatest bs).length = l.follow) :
    Spells (b :: tail l.follow l.least l.greatest bs)
      (value l.bits (tail l.follow l.least l.greatest bs)) := by
  rcases lead?_cases hl with ⟨hb, rfl⟩ | ⟨hb, rfl⟩ | ⟨least, greatest, hb, rfl⟩ |
    ⟨least, greatest, hb, rfl⟩
  · exact spells_one hb
  · obtain ⟨c, _, htail, hc, -⟩ := tail_eq_cons hlen
    rw [htail]
    exact spells_two hb hc rfl
  · obtain ⟨c, _, htail, hc, hlen⟩ := tail_eq_cons hlen
    obtain ⟨d, _, htail', hd, -⟩ := tail_eq_cons hlen
    rw [htail, htail']
    have hc' : least ≤ c.toNat ∧ c.toNat ≤ greatest := hc
    exact spells_three hb.1 (by omega) hd (by omega) (by omega) rfl
  · obtain ⟨c, _, htail, hc, hlen⟩ := tail_eq_cons hlen
    obtain ⟨d, _, htail', hd, hlen⟩ := tail_eq_cons hlen
    obtain ⟨e, _, htail'', he, -⟩ := tail_eq_cons hlen
    rw [htail, htail', htail'']
    have hc' : least ≤ c.toNat ∧ c.toNat ≤ greatest := hc
    exact spells_four hb.1 (by omega) hd he (by omega) (by omega) rfl

theorem encodePoint?_ofNat {bs : Bytes} {n : Nat} (h : Spells bs n) :
    encodePoint? (CodePoint.ofNat n) = some bs := by
  obtain ⟨hoctets, hlt, hscalar⟩ := h
  have hval := CodePoint.val_ofNat hlt
  have hstray : (CodePoint.ofNat n).strayByte? = none := by
    rw [CodePoint.strayByte?, hval, if_neg (by omega)]
  have hsurrogate : (CodePoint.ofNat n).isSurrogate = false := by
    simp only [CodePoint.isSurrogate, hval, Bool.and_eq_false_iff, decide_eq_false_iff_not]
    omega
  simp [encodePoint?, hstray, hsurrogate, hval, hoctets]

/-- Only bytes past ASCII are stray. -/
theorem lead?_of_lt {b : UInt8} (h : b.toNat < 0x80) : lead? b = some ⟨0, 0x80, 0xBF, b.toNat⟩ := by
  simp [lead?, h]

theorem encodePoint?_pointAt (b : UInt8) (bs : Bytes) :
    encodePoint? (pointAt b bs).1 = some (pointAt b bs).2 := by
  unfold pointAt
  cases hp : pieceAt b bs with
  | char c o =>
    obtain ⟨l, hl, hlen, rfl, rfl⟩ := pieceAt_eq_char hp
    exact encodePoint?_ofNat (spells_value hl hlen)
  | stray o =>
    have hb : 0x80 ≤ b.toNat := by
      by_contra hlt
      have hl := lead?_of_lt (b := b) (by omega)
      simp [pieceAt, hl, tail] at hp
    simp [encodePoint?, CodePoint.strayByte?_ofStrayByte hb]

/-- Writing a point gives the bytes that it was read from. -/
theorem encodePoint?_of_mem_points {bs : Bytes} {p : CodePoint × Bytes} (h : p ∈ points bs) :
    encodePoint? p.1 = some p.2 := by
  obtain ⟨us, vs, huv⟩ := List.append_of_mem h
  obtain ⟨-, hvs⟩ := points_of_append huv
  cases hbs : (p :: vs).flatMap Prod.snd with
  | nil => simp [hbs, points] at hvs
  | cons b rest =>
    rw [hbs, points_cons, List.cons.injEq] at hvs
    rw [← hvs.1]
    exact encodePoint?_pointAt b rest

theorem encode_eq_ok_iff {t : Text} {bs : Bytes} :
    encode t = .ok bs ↔ (∀ c ∈ t, isEncodable c) ∧ bs = encodeLossy t := by
  unfold encode
  split
  · rename_i h
    rw [List.all_eq_true] at h
    simp only [Except.ok.injEq, encodeLossy]
    exact ⟨fun e => ⟨h, e.symm⟩, fun e => e.2.symm⟩
  · rename_i h
    rw [List.all_eq_true] at h
    simp only [reduceCtorEq, false_iff, not_and]
    exact fun e => absurd e h

/-- Texts that have a form in bytes are written one after the other. -/
theorem encode_append {s t : Text} {xs ys : Bytes} (hs : encode s = .ok xs)
    (ht : encode t = .ok ys) : encode (s ++ t) = .ok (xs ++ ys) := by
  rw [encode_eq_ok_iff] at *
  obtain ⟨hs, rfl⟩ := hs
  obtain ⟨ht, rfl⟩ := ht
  refine ⟨?_, by simp [encodeLossy]⟩
  intro c hc
  rcases List.mem_append.mp hc with hc | hc
  · exact hs c hc
  · exact ht c hc

/-- A text that has a form in bytes has it part by part. -/
theorem encode_of_append {s t : Text} {bs : Bytes} (h : encode (s ++ t) = .ok bs) :
    ∃ xs ys, encode s = .ok xs ∧ encode t = .ok ys ∧ bs = xs ++ ys := by
  obtain ⟨hencodable, rfl⟩ := encode_eq_ok_iff.mp h
  have hs : ∀ c ∈ s, isEncodable c := fun c hc => hencodable c (List.mem_append_left t hc)
  have ht : ∀ c ∈ t, isEncodable c := fun c hc => hencodable c (List.mem_append_right s hc)
  exact ⟨encodeLossy s, encodeLossy t, encode_eq_ok_iff.mpr ⟨hs, rfl⟩,
    encode_eq_ok_iff.mpr ⟨ht, rfl⟩, by simp [encodeLossy]⟩

theorem encodeLossy_map_fst {ps : List (CodePoint × Bytes)}
    (h : ∀ p ∈ ps, encodePoint? p.1 = some p.2) :
    encodeLossy (ps.map Prod.fst) = ps.flatMap Prod.snd := by
  induction ps with
  | nil => rfl
  | cons p ps ih =>
    have hps := ih fun q hq => h q (by simp [hq])
    simp_all [encodeLossy]

/-- Reading loses no byte: what was read is written back as it was. -/
theorem encode_decode (bs : Bytes) : encode (decode bs) = .ok bs := by
  have hpoints : ∀ p ∈ points bs, encodePoint? p.1 = some p.2 :=
    fun p hp => encodePoint?_of_mem_points hp
  rw [encode_eq_ok_iff, ← map_fst_points, encodeLossy_map_fst hpoints, flatMap_snd_points]
  refine ⟨?_, rfl⟩
  intro c hc
  obtain ⟨p, hp, rfl⟩ := List.mem_map.mp hc
  simp [isEncodable, hpoints p hp]

end SymbolAtlas.Utf8
