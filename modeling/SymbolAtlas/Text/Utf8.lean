import SymbolAtlas.Text.Basic

/-!
# UTF-8

A sequence of bytes is read as a list of `Piece`s: encoded characters, and stray runs, each the
longest start of a valid sequence that is not completed (or a single byte that starts none).
Overlong forms, encoded surrogates and values past `U+10FFFF` are stray from their first byte on.

Three readings rest on the pieces:

* `decode` keeps every byte: each stray byte becomes a code point of its own;
* `decodeReplacing` shows one `U+FFFD` for each stray run;
* `decodeStrict` refuses stray runs and reports the first.

`encode` writes a text as bytes, the stray bytes as themselves; it refuses the other surrogates.
`flatMap_octets_pieces` says that the pieces hold exactly the bytes read.
-/

namespace SymbolAtlas

/-- A sequence of bytes. -/
abbrev Bytes := List UInt8

namespace Utf8

/-- What UTF-8 makes of a stretch of bytes. -/
inductive Piece where
  | char (c : CodePoint) (octets : Bytes)
  /-- Bytes of no valid sequence. -/
  | stray (octets : Bytes)
deriving DecidableEq

def Piece.octets : Piece → Bytes
  | .char _ bs => bs
  | .stray bs => bs

/-! ## Reading -/

/-- What a first byte asks for: how many bytes follow it, the bounds of the first of them, and the
bits that the first byte itself contributes. -/
structure Lead where
  follow : Nat
  least : Nat
  greatest : Nat
  bits : Nat

/-- The demand of a first byte; `none` for a byte that starts no sequence. -/
def lead? (b : UInt8) : Option Lead :=
  let n := b.toNat
  if n < 0x80 then some ⟨0, 0x80, 0xBF, n⟩
  else if n < 0xC2 then none
  else if n < 0xE0 then some ⟨1, 0x80, 0xBF, n - 0xC0⟩
  else if n == 0xE0 then some ⟨2, 0xA0, 0xBF, 0⟩
  else if n == 0xED then some ⟨2, 0x80, 0x9F, 0xD⟩
  else if n < 0xF0 then some ⟨2, 0x80, 0xBF, n - 0xE0⟩
  else if n == 0xF0 then some ⟨3, 0x90, 0xBF, 0⟩
  else if n < 0xF4 then some ⟨3, 0x80, 0xBF, n - 0xF0⟩
  else if n == 0xF4 then some ⟨3, 0x80, 0x8F, 4⟩
  else none

/-- The bytes at the front of `bs` that continue a sequence, at most `k` of them, the first between
`least` and `greatest`. -/
def tail : Nat → Nat → Nat → Bytes → Bytes
  | 0, _, _, _ => []
  | _ + 1, _, _, [] => []
  | k + 1, least, greatest, b :: bs =>
    if least ≤ b.toNat ∧ b.toNat ≤ greatest then b :: tail k 0x80 0xBF bs else []

/-- The number that the bits of a first byte and its continuation bytes spell. -/
def value (bits : Nat) (continuation : Bytes) : Nat :=
  continuation.foldl (fun n b => n * 64 + (b.toNat - 0x80)) bits

/-- The piece that starts with the byte `b` when `bs` follows it. -/
def pieceAt (b : UInt8) (bs : Bytes) : Piece :=
  match lead? b with
  | none => .stray [b]
  | some l =>
    let more := tail l.follow l.least l.greatest bs
    if more.length = l.follow then .char (CodePoint.ofNat (value l.bits more)) (b :: more)
    else .stray (b :: more)

/-- Collects pieces in reverse, passing over the bytes that the last piece has taken already. -/
def collect : Nat → Bytes → List Piece → List Piece
  | _, [], acc => acc
  | k + 1, _ :: bs, acc => collect k bs acc
  | 0, b :: bs, acc => collect ((pieceAt b bs).octets.length - 1) bs (pieceAt b bs :: acc)

/-- The pieces of a sequence of bytes. -/
def pieces (bs : Bytes) : List Piece := (collect 0 bs []).reverse

/-- Reads bytes as a text, each stray byte as a code point of its own. -/
def decode (bs : Bytes) : Text :=
  (pieces bs).flatMap fun
    | .char c _ => [c]
    | .stray bs => bs.map CodePoint.ofStrayByte

/-- Reads bytes as a text, each stray run as one `U+FFFD`. -/
def decodeReplacing (bs : Bytes) : Text :=
  (pieces bs).map fun
    | .char c _ => c
    | .stray _ => CodePoint.ofNat 0xFFFD

/-! ## Strict reading -/

/-- A stray run met where only valid UTF-8 is allowed. -/
structure DecodeError where
  position : Nat
  octets : Bytes
  /-- Whether the bytes end with the run. -/
  atEnd : Bool
deriving DecidableEq

/-- What is wrong with the run. -/
def DecodeError.reason (e : DecodeError) : Text :=
  if (e.octets.head?.bind lead?).isNone then "invalid start byte"
  else if e.atEnd then "unexpected end of data"
  else "invalid continuation byte"

def DecodeError.message (e : DecodeError) : Text :=
  match e.octets with
  | [b] =>
    Text.concat ["'utf-8' codec can't decode byte 0x", Text.ofHex 2 b.toNat, " in position ",
      Text.ofNat e.position, ": ", e.reason]
  | bs =>
    Text.concat ["'utf-8' codec can't decode bytes in position ", Text.ofNat e.position, "-",
      Text.ofNat (e.position + bs.length - 1), ": ", e.reason]

/-- The first stray run among pieces that start at `position`. -/
def firstStray? : Nat → List Piece → Option DecodeError
  | _, [] => none
  | position, .char _ bs :: ps => firstStray? (position + bs.length) ps
  | position, .stray bs :: ps => some ⟨position, bs, ps.isEmpty⟩

def decodeStrict (bs : Bytes) : Except DecodeError Text :=
  match firstStray? 0 (pieces bs) with
  | some e => .error e
  | none => .ok (decode bs)

/-! ## Writing -/

/-- The UTF-8 form of the number of a character. -/
def octetsOf (n : Nat) : Bytes :=
  if n < 0x80 then [UInt8.ofNat n]
  else if n < 0x800 then [UInt8.ofNat (0xC0 + n / 0x40), UInt8.ofNat (0x80 + n % 0x40)]
  else if n < 0x10000 then
    [UInt8.ofNat (0xE0 + n / 0x1000), UInt8.ofNat (0x80 + n / 0x40 % 0x40),
      UInt8.ofNat (0x80 + n % 0x40)]
  else
    [UInt8.ofNat (0xF0 + n / 0x40000), UInt8.ofNat (0x80 + n / 0x1000 % 0x40),
      UInt8.ofNat (0x80 + n / 0x40 % 0x40), UInt8.ofNat (0x80 + n % 0x40)]

/-- The bytes of a code point; a surrogate that stands for no byte has none. -/
def encodePoint? (c : CodePoint) : Option Bytes :=
  match c.strayByte? with
  | some b => some [b]
  | none => if c.isSurrogate then none else some (octetsOf c.val)

/-- Whether a code point has a form in bytes. -/
def isEncodable (c : CodePoint) : Bool := (encodePoint? c).isSome

/-- A run of surrogates that starts with one that cannot be encoded. -/
structure EncodeError where
  position : Nat
  run : Text
deriving DecidableEq

def EncodeError.message (e : EncodeError) : Text :=
  match e.run with
  | [c] =>
    Text.concat ["'utf-8' codec can't encode character '\\u", Text.ofHex 4 c.val, "' in position ",
      Text.ofNat e.position, ": surrogates not allowed"]
  | run =>
    Text.concat ["'utf-8' codec can't encode characters in position ", Text.ofNat e.position, "-",
      Text.ofNat (e.position + run.length - 1), ": surrogates not allowed"]

/-- Writes a text as bytes, or reports the first run of surrogates that has no form in bytes. -/
def encode (t : Text) : Except EncodeError Bytes :=
  if t.all isEncodable then .ok (t.flatMap fun c => (encodePoint? c).getD [])
  else
    let ok := t.takeWhile isEncodable
    let rest := t.drop ok.length
    .error ⟨ok.length, rest.takeWhile CodePoint.isSurrogate⟩

/-- The first run of surrogates of a text, none of which a stream of plain UTF-8 can carry. -/
def surrogateRun? (t : Text) : Option EncodeError :=
  let plain := t.takeWhile fun c => !c.isSurrogate
  match t.drop plain.length with
  | [] => none
  | rest => some ⟨plain.length, rest.takeWhile CodePoint.isSurrogate⟩

/-- The bytes of the part of a text that can be encoded. -/
def encodeLossy (t : Text) : Bytes := t.flatMap fun c => (encodePoint? c).getD []

/-! ## Laws -/

theorem collect_eq (k : Nat) (bs : Bytes) (acc : List Piece) :
    collect k bs acc = collect k bs [] ++ acc := by
  induction bs generalizing k acc with
  | nil => cases k <;> simp [collect]
  | cons b bs ih =>
    cases k with
    | zero =>
      rw [collect, ih, collect, ih _ [_]]
      simp
    | succ k => rw [collect, ih, collect]

@[simp]
theorem pieces_nil : pieces [] = [] := rfl

theorem collect_drop (k : Nat) (bs : Bytes) : collect k bs [] = collect 0 (bs.drop k) [] := by
  induction bs generalizing k with
  | nil => cases k <;> rfl
  | cons b bs ih =>
    cases k with
    | zero => rfl
    | succ k => rw [collect, ih]; rfl

/-- Reading goes on behind the first piece. -/
theorem pieces_cons (b : UInt8) (bs : Bytes) :
    pieces (b :: bs) =
      pieceAt b bs :: pieces (bs.drop ((pieceAt b bs).octets.length - 1)) := by
  rw [pieces, collect, collect_eq, collect_drop, pieces]
  simp

theorem tail_append_drop (k least greatest : Nat) (bs : Bytes) :
    tail k least greatest bs ++ bs.drop (tail k least greatest bs).length = bs := by
  induction k generalizing least greatest bs with
  | zero => simp [tail]
  | succ k ih =>
    cases bs with
    | nil => simp [tail]
    | cons b bs =>
      rw [tail]
      split
      · simpa using ih 0x80 0xBF bs
      · simp

/-- A piece is the start of the bytes it is read from. -/
theorem octets_pieceAt (b : UInt8) (bs : Bytes) :
    (pieceAt b bs).octets ++ bs.drop ((pieceAt b bs).octets.length - 1) = b :: bs := by
  unfold pieceAt
  split
  · simp [Piece.octets]
  · rename_i l _
    have h := tail_append_drop l.follow l.least l.greatest bs
    dsimp only
    split <;> simpa [Piece.octets] using h

/-- The pieces hold exactly the bytes read. -/
theorem flatMap_octets_pieces (bs : Bytes) : (pieces bs).flatMap Piece.octets = bs := by
  match bs with
  | [] => rfl
  | b :: bs =>
    rw [pieces_cons, List.flatMap_cons,
      flatMap_octets_pieces (bs.drop ((pieceAt b bs).octets.length - 1)), octets_pieceAt]
termination_by bs.length
decreasing_by simp only [List.length_drop, List.length_cons]; omega

end Utf8

end SymbolAtlas
