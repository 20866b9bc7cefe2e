import SymbolAtlas.Json.Printer
import SymbolAtlas.Proofs.Text.Numerals

/-!
# Reading back what was written

What is written for a value is read as one value again, `readBack`. It is the value itself but for
two things: a pair of surrogates is joined to the code point that it stands for, and of members with
the same name the last one counts.

* strings, code point by code point: `stringBody_bodyText`;
* numbers and words: `scalar_ofInt`, with what follows them being no part of them (`Ends`);
* whole values, by the recursion that writes them: `value_valueText`;
* a whole document: `parse_written`.
-/

namespace SymbolAtlas

namespace CodePoint

/-- The first half of a pair of surrogates. -/
def isHighHalf (c : CodePoint) : Bool := 0xD800 ≤ c.val && c.val ≤ 0xDBFF

/-- The second half of a pair of surrogates. -/
def isLowHalf (c : CodePoint) : Bool := 0xDC00 ≤ c.val && c.val ≤ 0xDFFF

/-- The code point that a pair of surrogates stands for. -/
def ofHalves (high low : CodePoint) : CodePoint :=
  ofNat (0x10000 + (high.val - 0xD800) * 0x400 + (low.val - 0xDC00))

end CodePoint

namespace Text

/-- A text with each pair of surrogates as the code point that it stands for. -/
def joinHalves : Text → Text
  | [] => []
  | [c] => [c]
  | c :: d :: t =>
    if c.isHighHalf && d.isLowHalf then CodePoint.ofHalves c d :: joinHalves t
    else c :: joinHalves (d :: t)

@[simp]
theorem shown_append (s t : Text) : shown (s ++ t) = shown s ++ shown t := List.flatMap_append

theorem shown_of_isSurrogate {c : CodePoint} (h : c.isSurrogate = false) : shown [c] = [c] := by
  simp [shown, shownPoint, h]

theorem shown_map_ofChar (cs : List Char) :
    shown (cs.map CodePoint.ofChar) = cs.map CodePoint.ofChar := by
  induction cs with
  | nil => rfl
  | cons c cs ih =>
    rw [List.map_cons, ← List.singleton_append, shown_append, ih,
      shown_of_isSurrogate (CodePoint.isSurrogate_ofChar c)]

@[simp]
theorem shown_ofString (s : String) : shown (ofString s) = ofString s := shown_map_ofChar s.toList

end Text

namespace Json

/-! ## Hexadecimal numbers -/

theorem hexDigit?_digitChar :
    ∀ d < 16, hexDigit? (CodePoint.ofChar (Nat.digitChar d)) = some d := by decide

/-- Four hexadecimal digits, the greatest first. -/
theorem ofHex_four {n : Nat} (h : n < 0x10000) :
    Text.ofHex 4 n =
      [n / 4096, n / 256 % 16, n / 16 % 16, n % 16].map fun d =>
        CodePoint.ofChar (Nat.digitChar d) := by
  have hstep : ∀ m, Nat.toDigits 16 m = if m < 16 then [m.digitChar]
      else Nat.toDigits 16 (m / 16) ++ [(m % 16).digitChar] :=
    fun m => Nat.toDigits_eq_if (by decide)
  unfold Text.ofHex
  rcases Nat.lt_or_ge n 16 with h1 | h1
  · have h3 : n / 4096 = 0 := by omega
    have h2 : n / 256 = 0 := by omega
    have h4 : n / 16 = 0 := by omega
    have h5 : n % 16 = n := by omega
    rw [hstep, if_pos h1, h3, h2, h4, h5]
    rfl
  rw [hstep, if_neg (by omega)]
  rcases Nat.lt_or_ge n 256 with h2 | h2
  · have h3 : n / 4096 = 0 := by omega
    have h4 : n / 256 = 0 := by omega
    have h5 : n / 16 % 16 = n / 16 := by omega
    rw [hstep, if_pos (by omega), h3, h4, h5]
    rfl
  rw [hstep (n / 16), if_neg (by omega)]
  have h256 : n / 16 / 16 = n / 256 := by omega
  rw [h256]
  rcases Nat.lt_or_ge n 4096 with h3 | h3
  · have h4 : n / 4096 = 0 := by omega
    have h5 : n / 256 % 16 = n / 256 := by omega
    rw [hstep, if_pos (by omega), h4, h5]
    rfl
  have h4096 : n / 256 / 16 = n / 4096 := by omega
  rw [hstep (n / 256), if_neg (by omega), h4096, hstep (n / 4096), if_pos (by omega)]
  rfl

theorem hexQuad?_ofHex {n : Nat} (h : n < 0x10000) (rest : Text) :
    hexQuad? (Text.ofHex 4 n ++ rest) = some (n, rest) := by
  have hdigits : ∀ m, hexDigit? (CodePoint.ofChar (Nat.digitChar (m % 16))) = some (m % 16) :=
    fun m => hexDigit?_digitChar _ (Nat.mod_lt _ (by decide))
  have hfirst := hexDigit?_digitChar (n / 4096) (by omega)
  rw [ofHex_four h]
  simp only [List.map_cons, List.map_nil, List.cons_append, List.nil_append, hexQuad?, hfirst,
    hdigits]
  congr 2
  omega

/-! ## Strings -/

/-- A code point of a string as it is written: itself, a letter behind a backslash, or its number
behind `\u`. -/
theorem shown_stringPointText (c : CodePoint) :
    (Text.shown (stringPointText c) = [c] ∧ c ≠ ('"' : Char) ∧ c ≠ ('\\' : Char) ∧ ¬ c.val < 0x20 ∧
      c.isSurrogate = false) ∨
    (∃ e : CodePoint, Text.shown (stringPointText c) = [CodePoint.ofChar '\\', e] ∧
      e ≠ ('u' : Char) ∧ escaped? e = some c ∧ c.isSurrogate = false) ∨
    (Text.shown (stringPointText c) =
        CodePoint.ofChar '\\' :: CodePoint.ofChar 'u' :: Text.ofHex 4 c.val ∧ c.val < 0x10000) := by
  unfold stringPointText
  split
  next h =>
    subst h
    exact .inr (.inl ⟨CodePoint.ofChar '"', rfl, by decide, rfl, rfl⟩)
  split
  next h =>
    subst h
    exact .inr (.inl ⟨CodePoint.ofChar '\\', rfl, by decide, rfl, rfl⟩)
  split
  next h =>
    subst h
    exact .inr (.inl ⟨CodePoint.ofChar 'n', rfl, by decide, rfl, rfl⟩)
  split
  next h =>
    subst h
    exact .inr (.inl ⟨CodePoint.ofChar 'r', rfl, by decide, rfl, rfl⟩)
  split
  next h =>
    subst h
    exact .inr (.inl ⟨CodePoint.ofChar 't', rfl, by decide, rfl, rfl⟩)
  split
  next h =>
    subst h
    exact .inr (.inl ⟨CodePoint.ofChar 'f', rfl, by decide, rfl, rfl⟩)
  split
  next h =>
    subst h
    exact .inr (.inl ⟨CodePoint.ofChar 'b', rfl, by decide, rfl, rfl⟩)
  split
  next h =>
    refine .inr (.inr ⟨?_, by omega⟩)
    rw [Text.shown_append, Text.shown_ofString, Text.ofHex, Text.shown_map_ofChar]
    rfl
  next hquote hbackslash _ _ _ _ _ hcontrol =>
    cases hsurrogate : c.isSurrogate with
    | false => exact .inl ⟨Text.shown_of_isSurrogate hsurrogate, hquote, hbackslash, hcontrol, rfl⟩
    | true =>
      refine .inr (.inr ⟨?_, ?_⟩)
      · simp [Text.shown, Text.shownPoint, hsurrogate]
        rfl
      · simp [CodePoint.isSurrogate] at hsurrogate
        omega

/-- What is written for a code point starts with no quote. -/
theorem exists_shown_stringPointText (c : CodePoint) :
    ∃ d ds, Text.shown (stringPointText c) = d :: ds ∧ d ≠ ('"' : Char) := by
  rcases shown_stringPointText c with ⟨h, hquote, -⟩ | ⟨e, h, -⟩ | ⟨h, -⟩
  · exact ⟨c, [], h, hquote⟩
  · exact ⟨_, _, h, by decide⟩
  · exact ⟨_, _, h, by decide⟩

theorem shown_stringPointText_of_isSurrogate {c : CodePoint} (h : c.isSurrogate = true) :
    Text.shown (stringPointText c) =
      CodePoint.ofChar '\\' :: CodePoint.ofChar 'u' :: Text.ofHex 4 c.val := by
  rcases shown_stringPointText c with ⟨-, -, -, -, hnot⟩ | ⟨e, -, -, -, hnot⟩ | ⟨hc, -⟩
  · simp [h] at hnot
  · simp [h] at hnot
  · exact hc

theorem lowHalf?_stringPointText {d : CodePoint} (h : d.isLowHalf = false) (rest : Text) :
    lowHalf? (Text.shown (stringPointText d) ++ rest) = none := by
  rcases shown_stringPointText d with ⟨hd, -, hbackslash, -⟩ | ⟨e, hd, he, -⟩ | ⟨hd, hlt⟩
  · rw [hd]
    cases rest with
    | nil => rfl
    | cons c rest => simp [lowHalf?, hbackslash]
  · rw [hd]
    simp [lowHalf?, he]
  · have hlow : ¬ (0xDC00 ≤ d.val ∧ d.val ≤ 0xDFFF) := by
      simpa [CodePoint.isLowHalf] using h
    rw [hd]
    simp [lowHalf?, hexQuad?_ofHex hlt, hlow]

theorem lowHalf?_of_isLowHalf {d : CodePoint} (h : d.isLowHalf = true) (rest : Text) :
    lowHalf? (Text.shown (stringPointText d) ++ rest) = some (d.val, rest) := by
  have hlow : 0xDC00 ≤ d.val ∧ d.val ≤ 0xDFFF := by simpa [CodePoint.isLowHalf] using h
  have hsurrogate : d.isSurrogate = true := by
    simp [CodePoint.isSurrogate]
    omega
  have hlt : d.val < 0x10000 := by omega
  rw [shown_stringPointText_of_isSurrogate hsurrogate]
  simp [lowHalf?, hexQuad?_ofHex hlt, hlow]

/-- A code point is read back, unless it is the first half of a pair. -/
theorem stringPoint_stringPointText {c : CodePoint} {rest : Text}
    (h : c.isHighHalf = true → lowHalf? rest = none) :
    stringPoint (Text.shown (stringPointText c) ++ rest) = .ok (c, rest) := by
  rcases shown_stringPointText c with ⟨hc, -, hbackslash, hcontrol, -⟩ | ⟨e, hc, he, hescaped, -⟩ |
    ⟨hc, hlt⟩
  · rw [hc]
    simp [stringPoint, hbackslash, hcontrol]
  · rw [hc]
    simp [stringPoint, he, hescaped]
  · rw [hc]
    simp only [List.cons_append, stringPoint, if_true, unicodeEscape, hexQuad?_ofHex hlt,
      CodePoint.ofNat_val]
    split
    next hhigh =>
      rw [h (by simpa [CodePoint.isHighHalf] using hhigh)]
    next => rfl

theorem stringPoint_pair {c d : CodePoint} (hc : c.isHighHalf = true) (hd : d.isLowHalf = true)
    (rest : Text) :
    stringPoint (Text.shown (stringPointText c) ++ (Text.shown (stringPointText d) ++ rest)) =
      .ok (CodePoint.ofHalves c d, rest) := by
  have hhigh : 0xD800 ≤ c.val ∧ c.val ≤ 0xDBFF := by simpa [CodePoint.isHighHalf] using hc
  have hsurrogate : c.isSurrogate = true := by
    simp [CodePoint.isSurrogate]
    omega
  have hlt : c.val < 0x10000 := by omega
  rw [shown_stringPointText_of_isSurrogate hsurrogate]
  simp only [List.cons_append, stringPoint, if_true, unicodeEscape, hexQuad?_ofHex hlt,
    if_pos hhigh, lowHalf?_of_isLowHalf hd]
  rfl

/-- What is written of a string between its quotes. -/
def bodyText (t : Text) : Text := Text.shown (t.flatMap stringPointText)

theorem bodyText_cons (c : CodePoint) (t : Text) :
    bodyText (c :: t) = Text.shown (stringPointText c) ++ bodyText t := by
  simp [bodyText]

/-- Reading goes on behind one code point of a string. -/
theorem stringBody_step {c d : CodePoint} {t rest : Text} {fuel : Nat}
    (h : stringPoint (Text.shown (stringPointText c) ++ t) = .ok (d, rest)) :
    stringBody (fuel + 1) (Text.shown (stringPointText c) ++ t) =
      (stringBody fuel rest).map fun answer => (d :: answer.1, answer.2) := by
  obtain ⟨e, es, he, hquote⟩ := exists_shown_stringPointText c
  rw [he, List.cons_append] at h ⊢
  rw [stringBody, if_neg hquote, h]
  cases hbody : stringBody fuel rest <;> simp [hbody, Except.map]

/-- A string is read back with its pairs of surrogates joined. -/
theorem stringBody_bodyText (t rest : Text) {fuel : Nat} (h : t.length < fuel) :
    stringBody fuel (bodyText t ++ CodePoint.ofChar '"' :: rest) = .ok (t.joinHalves, rest) := by
  obtain ⟨fuel, rfl⟩ : ∃ more, fuel = more + 1 := ⟨fuel - 1, by omega⟩
  induction t using Text.joinHalves.induct generalizing fuel with
  | case1 => simp [bodyText, Text.shown, stringBody, Text.joinHalves]
  | case2 c =>
    rw [List.length_singleton] at h
    obtain ⟨fuel, rfl⟩ : ∃ more, fuel = more + 1 := ⟨fuel - 1, by omega⟩
    have hpoint : stringPoint (Text.shown (stringPointText c) ++ CodePoint.ofChar '"' :: rest) =
        .ok (c, CodePoint.ofChar '"' :: rest) :=
      stringPoint_stringPointText fun _ => by cases rest <;> rfl
    rw [bodyText_cons, List.append_assoc]
    show stringBody _ (_ ++ CodePoint.ofChar '"' :: rest) = _
    rw [stringBody_step hpoint]
    rfl
  | case3 c d t hpair ih =>
    rw [List.length_cons, List.length_cons] at h
    obtain ⟨fuel, rfl⟩ : ∃ more, fuel = more + 1 := ⟨fuel - 1, by omega⟩
    obtain ⟨hc, hd⟩ : c.isHighHalf = true ∧ d.isLowHalf = true := by simpa using hpair
    rw [bodyText_cons, bodyText_cons, List.append_assoc, List.append_assoc,
      stringBody_step (stringPoint_pair hc hd _), ih _ (by omega), Text.joinHalves, if_pos hpair]
    rfl
  | case4 c d t hpair ih =>
    rw [List.length_cons] at h
    obtain ⟨fuel, rfl⟩ : ∃ more, fuel = more + 1 := ⟨fuel - 1, by omega⟩
    have hpoint : stringPoint (Text.shown (stringPointText c) ++
        (bodyText (d :: t) ++ CodePoint.ofChar '"' :: rest)) =
        .ok (c, bodyText (d :: t) ++ CodePoint.ofChar '"' :: rest) := by
      refine stringPoint_stringPointText fun hc => ?_
      have hd : d.isLowHalf = false := by simpa [hc] using hpair
      rw [bodyText_cons, List.append_assoc, lowHalf?_stringPointText hd]
    rw [bodyText_cons, List.append_assoc, stringBody_step hpoint, ih _ (by omega), Text.joinHalves,
      if_neg hpair]
    rfl

/-! ## Scalars -/

/-- What follows a value: a comma or the end of a line. -/
def Ends (rest : Text) : Prop :=
  ∃ c more, rest = c :: more ∧ (c = ',' ∨ c = Text.newline)

theorem scalar_null (rest : Text) : scalar (Text.ofString "null" ++ rest) = .ok (.null, rest) := rfl

theorem scalar_bool (b : Bool) (rest : Text) :
    scalar (Text.ofString (if b then "true" else "false") ++ rest) = .ok (.bool b, rest) := by
  cases b <;> rfl

/-- A numeral starts with a zero only if it is the one of zero. -/
theorem head?_toDigits_ne {n : Nat} (h : 0 < n) : (Nat.toDigits 10 n).head? ≠ some '0' := by
  induction n using Nat.strongRecOn with
  | ind n ih =>
    rw [Nat.toDigits_eq_if (by decide)]
    split
    next hlt =>
      have hchar : ∀ d < 10, 0 < d → d.digitChar ≠ '0' := by decide
      simpa using hchar n hlt h
    next hge =>
      have hfirst := ih (n / 10) (by omega) (by omega)
      have hne : Nat.toDigits 10 (n / 10) ≠ [] := Nat.toDigits_ne_nil
      obtain ⟨c, cs, hcs⟩ := List.exists_cons_of_ne_nil hne
      rw [hcs] at hfirst ⊢
      simpa using hfirst

theorem integerPart_ofNat (n : Nat) {rest : Text} (h : Ends rest) :
    integerPart (Text.ofNat n ++ rest) = (Text.ofNat n, rest) := by
  have hrest : ∀ c ∈ rest.head?, isDigit c = false := by
    obtain ⟨c, more, rfl, hc⟩ := h
    intro d hd
    obtain rfl : c = d := by simpa using hd
    rcases hc with rfl | rfl <;> decide
  rcases Nat.eq_zero_or_pos n with rfl | hn
  · rfl
  · obtain ⟨c, cs, hcs⟩ := List.exists_cons_of_ne_nil (Text.ofNat_ne_nil n)
    have hzero : c ≠ ('0' : Char) := by
      rintro rfl
      have hfirst := head?_toDigits_ne hn
      rw [Text.ofNat] at hcs
      obtain ⟨d, ds, hds, hd, -⟩ := List.map_eq_cons_iff.mp hcs
      rw [hds] at hfirst
      refine hfirst ?_
      simpa [CodePoint.toChar?_ofChar] using congrArg CodePoint.toChar? hd
    have htake := takeDigits_ofNat_append n hrest
    rw [hcs] at htake ⊢
    rw [List.cons_append, integerPart, if_neg hzero]
    exact htake

theorem number_ofNat {n : Nat} (hn : (Text.ofNat n).length ≤ longestInteger) (negative : Bool)
    (start : Text) {rest : Text} (h : Ends rest) :
    number negative start (Text.ofNat n ++ rest) =
      .ok (.int (if negative then -(n : Int) else n), rest) := by
  have hfraction : fractionPart rest = ([], rest) := by
    obtain ⟨c, more, rfl, hc⟩ := h
    have hpoint : c ≠ ('.' : Char) := by
      rcases hc with rfl | rfl <;> decide
    simp [fractionPart, hpoint]
  have hexponent : exponentPart rest = (none, rest) := by
    obtain ⟨c, more, rfl, hc⟩ := h
    have hmark : ¬ (c = ('e' : Char) ∨ c = ('E' : Char)) := by
      rcases hc with rfl | rfl <;> decide
    simp only [exponentPart, if_neg hmark]
  have hlong : ¬ longestInteger < (Text.ofNat n).length := by omega
  simp [number, integerPart_ofNat n h, Text.ofNat_ne_nil, hfraction, hexponent, hlong,
    digitsValue_ofNat]

/-- A word that is read starts a text. -/
theorem findSome?_words_eq_none {t : Text} (h : ∀ w ∈ words, ¬ w.1 <+: t) :
    (words.findSome? fun w => (Text.after? w.1 t).map fun rest => (w.2, rest)) = none := by
  refine List.findSome?_eq_none_iff.mpr fun w hw => ?_
  rw [Option.map_eq_none_iff, Option.eq_none_iff_forall_not_mem]
  intro rest hrest
  exact h w hw ⟨rest, (Text.after?_eq_some_iff.mp hrest).symm⟩

theorem scalar_ofInt {i : Int} (hi : (Text.ofNat i.natAbs).length ≤ longestInteger) {rest : Text}
    (h : Ends rest) : scalar (Text.ofInt i ++ rest) = .ok (.int i, rest) := by
  obtain ⟨c, cs, hcs⟩ := List.exists_cons_of_ne_nil (Text.ofNat_ne_nil i.natAbs)
  have hdigit : isDigit c = true :=
    Text.isDigit_of_mem_ofNat (n := i.natAbs) (hcs ▸ List.mem_cons_self)
  -- No word starts with a digit, or has one behind a minus sign.
  have hwords : ∀ w ∈ words,
      ∃ d e ds, w.1 = d :: e :: ds ∧ isDigit d = false ∧ isDigit e = false := by
    intro w hw
    simp only [words, List.mem_cons, List.not_mem_nil, or_false] at hw
    rcases hw with rfl | rfl | rfl | rfl | rfl | rfl <;> exact ⟨_, _, _, rfl, rfl, rfl⟩
  have hminus : c ≠ ('-' : Char) := by
    rintro rfl
    exact absurd hdigit (by decide)
  unfold Text.ofInt
  split
  next hneg =>
    have hnone : ∀ w ∈ words, ¬ w.1 <+: (CodePoint.ofChar '-' :: Text.ofNat i.natAbs) ++ rest := by
      intro w hw hstarts
      obtain ⟨d, e, ds, hd, -, he⟩ := hwords w hw
      rw [hd, hcs, List.cons_append, List.cons_append, List.cons_prefix_cons,
        List.cons_prefix_cons] at hstarts
      rw [hstarts.2.1, hdigit] at he
      cases he
    unfold scalar
    rw [findSome?_words_eq_none hnone]
    simp only [List.cons_append, if_true]
    rw [number_ofNat hi true _ h, if_pos rfl]
    have hvalue : -(i.natAbs : Int) = i := by omega
    rw [hvalue]
  next hnonneg =>
    have hnone : ∀ w ∈ words, ¬ w.1 <+: Text.ofNat i.natAbs ++ rest := by
      intro w hw hstarts
      obtain ⟨d, e, ds, hd, hd', -⟩ := hwords w hw
      rw [hd, hcs, List.cons_append, List.cons_prefix_cons] at hstarts
      rw [hstarts.1, hdigit] at hd'
      cases hd'
    unfold scalar
    rw [findSome?_words_eq_none hnone]
    have hnumber := number_ofNat hi false (Text.ofNat i.natAbs ++ rest) h
    rw [hcs, List.cons_append] at hnumber ⊢
    simp only [if_neg hminus]
    have hvalue : (i.natAbs : Int) = i := by omega
    rw [hnumber, if_neg Bool.false_ne_true, hvalue]

/-! ## Values -/

mutual

/-- A value as it is read back: pairs of surrogates are joined, and of members with the same name
the last one counts. -/
def readBack : Json → Json
  | null => null
  | bool b => bool b
  | int i => int i
  | float x => float x
  | text t => text t.joinHalves
  | list vs => list (readBackItems vs)
  | object ms => ofMembers (readBackMembers ms)

def readBackItems : List Json → List Json
  | [] => []
  | v :: vs => readBack v :: readBackItems vs

def readBackMembers : List (Text × Json) → List (Text × Json)
  | [] => []
  | (n, v) :: ms => (n.joinHalves, readBack v) :: readBackMembers ms

end

mutual

/-- Whether a value is made of what is read as it was written: no binary64 numbers, and no integers
of more digits than are read. Printing is bounded on a host in the same way, by the digits of an
integer, and by nesting of about a thousand levels; `Json.pretty` has neither bound, and no answer
of the program comes near them. -/
def isReadable : Json → Bool
  | float _ => false
  | int i => (Text.ofNat i.natAbs).length ≤ longestInteger
  | list vs => areReadable vs
  | object ms => areReadableMembers ms
  | _ => true

def areReadable : List Json → Bool
  | [] => true
  | v :: vs => isReadable v && areReadable vs

def areReadableMembers : List (Text × Json) → Bool
  | [] => true
  | (_, v) :: ms => isReadable v && areReadableMembers ms

end

/-- What is written for a value at a level. -/
def valueText (level : Nat) (v : Json) : Text := Text.shown (prettyAt level v)

def itemsText (level : Nat) (vs : List Json) : Text := Text.shown (prettyItems level vs)

def membersText (level : Nat) (ms : List (Text × Json)) : Text :=
  Text.shown (prettyMembers level ms)

@[simp]
theorem shown_lineStart (level : Nat) : Text.shown (lineStart level) = lineStart level := by
  have h : lineStart level = Text.ofString "\n" ++
      (List.replicate (2 * level) ' ').map CodePoint.ofChar := by
    simp [lineStart]
    rfl
  rw [h, Text.shown_append, Text.shown_ofString, Text.shown_map_ofChar]

theorem skipSpace_lineStart (level : Nat) (t : Text) :
    skipSpace (lineStart level ++ t) = skipSpace t := by
  have h : ∀ c ∈ lineStart level, isSpace c = true := by
    intro c hc
    rcases List.mem_cons.mp hc with rfl | hc
    · rfl
    · rw [List.eq_of_mem_replicate hc]
      rfl
  exact List.dropWhile_append_of_pos h

theorem shown_stringText (t : Text) :
    Text.shown (stringText t) = CodePoint.ofChar '"' :: (bodyText t ++ [CodePoint.ofChar '"']) := by
  simp [stringText, bodyText]
  rfl

theorem valueText_list (level : Nat) (v : Json) (vs : List Json) :
    valueText level (list (v :: vs)) = CodePoint.ofChar '[' :: (itemsText (level + 1) (v :: vs) ++
      (lineStart level ++ [CodePoint.ofChar ']'])) := by
  simp [valueText, prettyAt, itemsText]
  rfl

theorem valueText_object (level : Nat) (m : Text × Json) (ms : List (Text × Json)) :
    valueText level (object (m :: ms)) = CodePoint.ofChar '\x7b' ::
      (membersText (level + 1) (m :: ms) ++ (lineStart level ++ [CodePoint.ofChar '\x7d'])) := by
  simp [valueText, prettyAt, membersText]
  rfl

/-- What is written behind an item. -/
def itemsTail (level : Nat) : List Json → Text
  | [] => []
  | v :: vs => CodePoint.ofChar ',' :: itemsText level (v :: vs)

def membersTail (level : Nat) : List (Text × Json) → Text
  | [] => []
  | m :: ms => CodePoint.ofChar ',' :: membersText level (m :: ms)

theorem itemsText_cons (level : Nat) (v : Json) (vs : List Json) :
    itemsText level (v :: vs) = lineStart level ++ (valueText level v ++ itemsTail level vs) := by
  cases vs with
  | nil => simp [itemsText, prettyItems, valueText, itemsTail]
  | cons w vs =>
    simp [itemsText, prettyItems, valueText, itemsTail]
    rfl

theorem membersText_cons (level : Nat) (n : Text) (v : Json) (ms : List (Text × Json)) :
    membersText level ((n, v) :: ms) = lineStart level ++ CodePoint.ofChar '"' :: (bodyText n ++
      CodePoint.ofChar '"' :: CodePoint.ofChar ':' :: CodePoint.ofChar ' ' ::
        (valueText level v ++ membersTail level ms)) := by
  cases ms with
  | nil =>
    simp [membersText, prettyMembers, valueText, membersTail, shown_stringText]
    rfl
  | cons m ms =>
    simp [membersText, prettyMembers, valueText, membersTail, shown_stringText]
    rfl

theorem shown_ofInt (i : Int) : Text.shown (Text.ofInt i) = Text.ofInt i := by
  unfold Text.ofInt
  split
  · exact Text.shown_map_ofChar ('-' :: Nat.toDigits 10 i.natAbs)
  · exact Text.shown_map_ofChar (Nat.toDigits 10 i.natAbs)

/-- An integer starts with a minus sign or a digit. -/
theorem exists_ofInt (i : Int) :
    ∃ c cs, Text.ofInt i = c :: cs ∧ (c = ('-' : Char) ∨ isDigit c = true) := by
  unfold Text.ofInt
  split
  · exact ⟨_, _, rfl, .inl rfl⟩
  · obtain ⟨c, cs, hcs⟩ := List.exists_cons_of_ne_nil (Text.ofNat_ne_nil i.natAbs)
    exact ⟨c, cs, hcs, .inr (Text.isDigit_of_mem_ofNat (n := i.natAbs) (hcs ▸ List.mem_cons_self))⟩

/-- What is written for a value starts with a character of ASCII that is no blank and no closing
bracket. -/
theorem exists_valueText {v : Json} (h : v.isReadable = true) (level : Nat) :
    ∃ c cs, valueText level v = c :: cs ∧ isSpace c = false ∧ c ≠ (']' : Char) ∧ c.val < 0x80 := by
  cases v with
  | null => exact ⟨_, _, rfl, rfl, by decide, by decide⟩
  | bool b => cases b <;> exact ⟨_, _, rfl, rfl, by decide, by decide⟩
  | int i =>
    obtain ⟨c, cs, hcs, hc⟩ := exists_ofInt i
    refine ⟨c, cs, (shown_ofInt i).trans hcs, ?_⟩
    rcases hc with rfl | hc
    · decide
    · have hrange : 0x30 ≤ c.val ∧ c.val ≤ 0x39 := by simpa [isDigit] using hc
      refine ⟨?_, ?_, by omega⟩
      · simp only [isSpace, Bool.or_eq_false_iff, beq_eq_false_iff_ne]
        omega
      · rintro rfl
        exact absurd hc (by decide)
  | float x => simp [isReadable] at h
  | text t => exact ⟨_, _, shown_stringText t, rfl, by decide, by decide⟩
  | list vs =>
    cases vs with
    | nil => exact ⟨_, _, rfl, rfl, by decide, by decide⟩
    | cons v vs => exact ⟨_, _, valueText_list level v vs, rfl, by decide, by decide⟩
  | object ms =>
    cases ms with
    | nil => exact ⟨_, _, rfl, rfl, by decide, by decide⟩
    | cons m ms => exact ⟨_, _, valueText_object level m ms, rfl, by decide, by decide⟩

/-- A text that opens no string, list or object is read as a word or a number. -/
theorem value_of_scalar {c : CodePoint} {cs : Text} (depth fuel : Nat) (hquote : c ≠ ('"' : Char))
    (hlist : c ≠ ('[' : Char)) (hobject : c ≠ ('\x7b' : Char)) :
    value depth (fuel + 1) (c :: cs) = scalar (c :: cs) := by
  simp only [value, if_neg hquote, if_neg hlist, if_neg hobject]

theorem length_le_bodyText (t : Text) : t.length ≤ (bodyText t).length := by
  induction t with
  | nil => exact Nat.zero_le _
  | cons c t ih =>
    obtain ⟨d, ds, hd, -⟩ := exists_shown_stringPointText c
    rw [bodyText_cons, hd, List.length_append, List.length_cons, List.length_cons]
    omega

theorem skipSpace_valueText {v : Json} (h : v.isReadable = true) (level : Nat) (t : Text) :
    skipSpace (valueText level v ++ t) = valueText level v ++ t := by
  obtain ⟨c, cs, hcs, hc, -⟩ := exists_valueText h level
  rw [hcs, List.cons_append, skipSpace, List.dropWhile_cons_of_neg (by simp [hc])]

/-! ## Steps of the reader -/

section Steps

variable {depth fuel : Nat} {t t₁ t₂ t₃ rest name : Text} {v : Json} {vs : List Json}
  {ms : List (Text × Json)}

theorem value_list (hstart : ∃ d more, skipSpace t = d :: more ∧ d ≠ (']' : Char))
    (hitems : items depth fuel (skipSpace t) = .ok (vs, rest)) :
    value (depth + 1) (fuel + 1) (CodePoint.ofChar '[' :: t) = .ok (.list vs, rest) := by
  have hquote : CodePoint.ofChar '[' ≠ ('"' : Char) := by decide
  obtain ⟨d, more, hstart, hd⟩ := hstart
  rw [hstart] at hitems
  simp only [value, if_neg hquote, if_true, hstart, if_neg hd, hitems]

theorem value_object (hstart : ∃ d more, skipSpace t = d :: more ∧ d ≠ ('\x7d' : Char))
    (hmembers : members depth fuel (skipSpace t) = .ok (ms, rest)) :
    value (depth + 1) (fuel + 1) (CodePoint.ofChar '\x7b' :: t) = .ok (.ofMembers ms, rest) := by
  have hquote : CodePoint.ofChar '\x7b' ≠ ('"' : Char) := by decide
  have hlist : CodePoint.ofChar '\x7b' ≠ ('[' : Char) := by decide
  obtain ⟨d, more, hstart, hd⟩ := hstart
  rw [hstart] at hmembers
  simp only [value, if_neg hquote, if_neg hlist, if_true, hstart, if_neg hd, hmembers]

theorem items_last (hv : value depth fuel t = .ok (v, t₁))
    (hend : skipSpace t₁ = CodePoint.ofChar ']' :: rest) :
    items depth (fuel + 1) t = .ok ([v], rest) := by
  simp only [items, hv, hend, if_true]

theorem items_more (hv : value depth fuel t = .ok (v, t₁))
    (hcomma : skipSpace t₁ = CodePoint.ofChar ',' :: t₂)
    (hvs : items depth fuel (skipSpace t₂) = .ok (vs, rest)) :
    items depth (fuel + 1) t = .ok (v :: vs, rest) := by
  have hbracket : CodePoint.ofChar ',' ≠ (']' : Char) := by decide
  simp only [items, hv, hcomma, if_neg hbracket, if_true, hvs]

theorem members_last (hname : stringBody fuel t = .ok (name, CodePoint.ofChar ':' :: t₁))
    (hv : value depth fuel (skipSpace t₁) = .ok (v, t₂))
    (hend : skipSpace t₂ = CodePoint.ofChar '\x7d' :: rest) :
    members depth (fuel + 1) (CodePoint.ofChar '"' :: t) = .ok ([(name, v)], rest) := by
  have hcolon : skipSpace (CodePoint.ofChar ':' :: t₁) = CodePoint.ofChar ':' :: t₁ := rfl
  simp only [members, if_true, hname, hcolon, hv, hend]

theorem members_more (hname : stringBody fuel t = .ok (name, CodePoint.ofChar ':' :: t₁))
    (hv : value depth fuel (skipSpace t₁) = .ok (v, t₂))
    (hcomma : skipSpace t₂ = CodePoint.ofChar ',' :: t₃)
    (hms : members depth fuel (skipSpace t₃) = .ok (ms, rest)) :
    members depth (fuel + 1) (CodePoint.ofChar '"' :: t) = .ok ((name, v) :: ms, rest) := by
  have hcolon : skipSpace (CodePoint.ofChar ':' :: t₁) = CodePoint.ofChar ':' :: t₁ := rfl
  have hbrace : CodePoint.ofChar ',' ≠ ('\x7d' : Char) := by decide
  simp only [members, if_true, hname, hcolon, hv, hcomma, if_neg hbrace, hms]

end Steps

/-! ## Reading what was written -/

theorem exists_skipSpace_itemsText {v : Json} (h : v.isReadable = true) (vs : List Json)
    (level : Nat) (t : Text) :
    ∃ c more, skipSpace (itemsText level (v :: vs) ++ t) = c :: more ∧ c ≠ (']' : Char) := by
  obtain ⟨c, cs, hcs, -, hc, -⟩ := exists_valueText h level
  rw [itemsText_cons, List.append_assoc, skipSpace_lineStart, List.append_assoc,
    skipSpace_valueText h, hcs]
  exact ⟨c, _, rfl, hc⟩

theorem exists_skipSpace_membersText (m : Text × Json) (ms : List (Text × Json)) (level : Nat)
    (t : Text) :
    ∃ c more, skipSpace (membersText level (m :: ms) ++ t) = c :: more ∧ c ≠ ('\x7d' : Char) := by
  rw [membersText_cons, List.append_assoc, skipSpace_lineStart]
  exact ⟨_, _, rfl, by decide⟩

theorem ends_lineStart (level : Nat) (t : Text) : Ends (lineStart level ++ t) :=
  ⟨_, _, rfl, .inr rfl⟩

theorem ends_comma (t : Text) : Ends (CodePoint.ofChar ',' :: t) := ⟨_, _, rfl, .inl rfl⟩

mutual

/-- A value is read back from what is written for it. -/
theorem value_valueText : ∀ {v : Json} {level depth fuel : Nat} {rest : Text},
    v.isReadable = true → Ends rest → (valueText level v).length ≤ depth →
    (valueText level v).length < fuel →
    value depth fuel (valueText level v ++ rest) = .ok (v.readBack, rest)
  | .null, level, depth, fuel + 1, rest, _, _, _, _ => by
    have htext : valueText level null = Text.ofString "null" := rfl
    rw [htext, readBack, ← scalar_null]
    exact value_of_scalar depth fuel (by decide) (by decide) (by decide)
  | .bool b, level, depth, fuel + 1, rest, _, _, _, _ => by
    have htext : valueText level (bool b) = Text.ofString (if b then "true" else "false") := by
      cases b <;> rfl
    rw [htext, readBack, ← scalar_bool]
    cases b <;> exact value_of_scalar depth fuel (by decide) (by decide) (by decide)
  | .int i, level, depth, fuel + 1, rest, hv, hrest, _, _ => by
    have htext : valueText level (int i) = Text.ofInt i := shown_ofInt i
    have hi : (Text.ofNat i.natAbs).length ≤ longestInteger := by simpa [isReadable] using hv
    obtain ⟨c, cs, hcs, hc⟩ := exists_ofInt i
    rw [htext, readBack, ← scalar_ofInt hi hrest, hcs]
    have hne : ∀ d : CodePoint, d ≠ ('-' : Char) → isDigit d = false → c ≠ d := by
      rintro d hminus hdigit rfl
      rcases hc with hc | hc
      · exact hminus hc
      · simp [hc] at hdigit
    exact value_of_scalar depth fuel (hne _ (by decide) rfl) (hne _ (by decide) rfl)
      (hne _ (by decide) rfl)
  | .text t, level, depth, fuel + 1, rest, _, _, _, hfuel => by
    have htext : valueText level (.text t) = _ := shown_stringText t
    have hbody := length_le_bodyText t
    rw [htext, List.length_cons, List.length_append] at hfuel
    rw [htext, List.cons_append, List.append_assoc, List.singleton_append, readBack]
    have hread := stringBody_bodyText t rest (show t.length < fuel by omega)
    simp only [value, if_true, hread]
  | .list [], level, depth, fuel + 1, rest, _, _, hdepth, _ => by
    have htext : valueText level (.list []) = [CodePoint.ofChar '[', CodePoint.ofChar ']'] := rfl
    rw [htext] at hdepth ⊢
    obtain ⟨depth, rfl⟩ : ∃ d, depth = d + 1 := ⟨depth - 1, by simp at hdepth; omega⟩
    rfl
  | .list (v :: vs), level, depth, fuel + 1, rest, hvs, _, hdepth, hfuel => by
    have hv : v.isReadable = true := (Bool.and_eq_true_iff.mp hvs).1
    rw [valueText_list, List.length_cons, List.length_append] at hdepth hfuel
    obtain ⟨depth, rfl⟩ : ∃ d, depth = d + 1 := ⟨depth - 1, by omega⟩
    have hitems : items depth fuel (skipSpace (itemsText (level + 1) (v :: vs) ++
        (lineStart level ++ CodePoint.ofChar ']' :: rest))) =
        .ok (readBackItems (v :: vs), rest) :=
      items_itemsText hvs (by omega) (by omega)
    rw [valueText_list, List.cons_append, List.append_assoc, List.append_assoc, readBack]
    exact value_list (exists_skipSpace_itemsText hv vs _ _) hitems
  | .object [], level, depth, fuel + 1, rest, _, _, hdepth, _ => by
    have htext : valueText level (.object []) =
        [CodePoint.ofChar '\x7b', CodePoint.ofChar '\x7d'] := rfl
    rw [htext] at hdepth ⊢
    obtain ⟨depth, rfl⟩ : ∃ d, depth = d + 1 := ⟨depth - 1, by simp at hdepth; omega⟩
    rfl
  | .object ((n, v) :: ms), level, depth, fuel + 1, rest, hms, _, hdepth, hfuel => by
    rw [valueText_object, List.length_cons, List.length_append] at hdepth hfuel
    obtain ⟨depth, rfl⟩ : ∃ d, depth = d + 1 := ⟨depth - 1, by omega⟩
    have hmembers : members depth fuel (skipSpace (membersText (level + 1) ((n, v) :: ms) ++
        (lineStart level ++ CodePoint.ofChar '\x7d' :: rest))) =
        .ok (readBackMembers ((n, v) :: ms), rest) :=
      members_membersText hms (by omega) (by omega)
    rw [valueText_object, List.cons_append, List.append_assoc, List.append_assoc, readBack]
    exact value_object (exists_skipSpace_membersText (n, v) ms _ _) hmembers
  | _, _, _, 0, _, _, _, _, hfuel => absurd hfuel (Nat.not_lt_zero _)
termination_by _ _ _ fuel => fuel

theorem items_itemsText : ∀ {v : Json} {vs : List Json} {level depth fuel outer : Nat}
    {rest : Text},
    areReadable (v :: vs) = true → (itemsText level (v :: vs)).length ≤ depth →
    (itemsText level (v :: vs)).length < fuel →
    items depth fuel (skipSpace (itemsText level (v :: vs) ++
      (lineStart outer ++ CodePoint.ofChar ']' :: rest))) = .ok (readBackItems (v :: vs), rest)
  | v, vs, level, depth, fuel + 1, outer, rest, hvs, hdepth, hfuel => by
    obtain ⟨hv, hvs⟩ := Bool.and_eq_true_iff.mp hvs
    rw [itemsText_cons, List.length_append, List.length_append] at hdepth hfuel
    rw [itemsText_cons, List.append_assoc, skipSpace_lineStart, List.append_assoc,
      skipSpace_valueText hv]
    have hline : 0 < (lineStart level).length := Nat.succ_pos _
    cases vs with
    | nil =>
      rw [itemsTail, List.nil_append]
      refine items_last (value_valueText hv (ends_lineStart outer _) (by omega) (by omega)) ?_
      rw [skipSpace_lineStart]
      rfl
    | cons w vs =>
      rw [itemsTail, List.length_cons] at hdepth hfuel
      rw [itemsTail, List.cons_append]
      exact items_more (value_valueText hv (ends_comma _) (by omega) (by omega)) rfl
        (items_itemsText hvs (by omega) (by omega))
  | _, _, _, _, 0, _, _, _, _, hfuel => absurd hfuel (Nat.not_lt_zero _)
termination_by _ _ _ _ fuel => fuel

theorem members_membersText : ∀ {n : Text} {v : Json} {ms : List (Text × Json)}
    {level depth fuel outer : Nat} {rest : Text},
    areReadableMembers ((n, v) :: ms) = true → (membersText level ((n, v) :: ms)).length ≤ depth →
    (membersText level ((n, v) :: ms)).length < fuel →
    members depth fuel (skipSpace (membersText level ((n, v) :: ms) ++
      (lineStart outer ++ CodePoint.ofChar '\x7d' :: rest))) =
        .ok (readBackMembers ((n, v) :: ms), rest)
  | n, v, ms, level, depth, fuel + 1, outer, rest, hms, hdepth, hfuel => by
    obtain ⟨hv, hms⟩ := Bool.and_eq_true_iff.mp hms
    have hname := length_le_bodyText n
    simp only [membersText_cons, List.length_append, List.length_cons] at hdepth hfuel
    rw [membersText_cons, List.append_assoc, skipSpace_lineStart]
    simp only [List.cons_append, List.append_assoc]
    have hline : 0 < (lineStart level).length := Nat.succ_pos _
    have hvalue : ∀ t, Ends t →
        value depth fuel (skipSpace (CodePoint.ofChar ' ' :: (valueText level v ++ t))) =
          .ok (v.readBack, t) := by
      intro t ht
      have hskip : skipSpace (CodePoint.ofChar ' ' :: (valueText level v ++ t)) =
          valueText level v ++ t := skipSpace_valueText hv level t
      rw [hskip]
      exact value_valueText hv ht (by omega) (by omega)
    cases ms with
    | nil =>
      refine members_last (stringBody_bodyText n _ (by omega)) (hvalue _ (ends_lineStart outer _))
        ?_
      rw [membersTail, List.nil_append, skipSpace_lineStart]
      rfl
    | cons m ms =>
      obtain ⟨k, w⟩ := m
      rw [membersTail, List.length_cons] at hdepth hfuel
      exact members_more (stringBody_bodyText n _ (by omega)) (hvalue _ (ends_comma _)) rfl
        (members_membersText hms (by omega) (by omega))
  | _, _, _, _, _, 0, _, _, _, _, hfuel => absurd hfuel (Nat.not_lt_zero _)
termination_by _ _ _ _ _ fuel => fuel

end

/-- What is written for a value, with the line end behind it, is one value. -/
theorem parse_written {v : Json} (h : v.isReadable = true) :
    parse (Text.shown (v.pretty ++ [Text.newline])) = .ok v.readBack := by
  have htext : Text.shown (v.pretty ++ [Text.newline]) = valueText 0 v ++ [Text.newline] := by
    rw [Text.shown_append]
    rfl
  have hmark : ¬ (valueText 0 v ++ [Text.newline]).head? = some (CodePoint.ofNat 0xFEFF) := by
    obtain ⟨c, cs, hcs, -, -, hlt⟩ := exists_valueText h 0
    rw [hcs, List.cons_append, List.head?_cons]
    intro hc
    rw [Option.some.inj hc] at hlt
    exact absurd hlt (by decide)
  have hlength : (valueText 0 v ++ [Text.newline]).length = (valueText 0 v).length + 1 :=
    List.length_append
  have hends : Ends [Text.newline] := ⟨_, _, rfl, .inr rfl⟩
  rw [htext, parse, parseWithin, if_neg hmark, skipSpace_valueText h,
    value_valueText h hends (by omega) (by omega)]
  rfl

end Json

end SymbolAtlas
