import SymbolAtlas.CommandLine.Run
import SymbolAtlas.Proofs.Json.ReadBack
import SymbolAtlas.Proofs.Text.Characters

/-!
# The output as JSON

Main statement: whatever value is written to the output, the bytes are valid UTF-8, and the value is
read from them again exactly, stray bytes of files included (`CommandLine.written_exact`).

The reader gives back `Json.readBack` of what was written (`Json.parse_written`), which is the value
itself if no text holds the first half of a pair of surrogates and no object names a member twice
(`Json.readBack_eq_self`).
-/

namespace SymbolAtlas

/-! ## Texts -/

namespace Text

/-- Whether the only surrogates of a text are those for stray bytes. -/
def isEncodable (t : Text) : Bool :=
  t.all fun c => !c.isSurrogate || (0xDC80 ≤ c.val && c.val ≤ 0xDCFF)

/-- There are no pairs to join in a text without first halves. -/
theorem joinHalves_eq_self {t : Text} (h : ∀ c ∈ t, c.isHighHalf = false) : t.joinHalves = t := by
  fun_induction joinHalves t with
  | case1 => rfl
  | case2 => rfl
  | case3 c d t hpair => simp [h c] at hpair
  | case4 c d t _ ih => rw [ih fun e he => h e (List.mem_cons_of_mem c he)]

theorem isHighHalf_of_isEncodable {t : Text} (h : t.isEncodable = true) :
    ∀ c ∈ t, c.isHighHalf = false := by
  intro c hc
  have hstray := List.all_eq_true.mp h c hc
  simp only [CodePoint.isSurrogate, Bool.or_eq_true, Bool.not_eq_true', Bool.and_eq_true,
    Bool.and_eq_false_iff, decide_eq_true_eq, decide_eq_false_iff_not] at hstray
  simp only [CodePoint.isHighHalf, Bool.and_eq_false_iff, decide_eq_false_iff_not]
  omega

/-- No surrogate is left in a text that is shown. -/
theorem isSurrogate_of_mem_shown {t : Text} {c : CodePoint} (hc : c ∈ t.shown) :
    c.isSurrogate = false := by
  obtain ⟨d, -, hc⟩ := List.mem_flatMap.mp hc
  unfold shownPoint at hc
  split at hc
  · rcases List.mem_append.mp hc with hc | hc
    · obtain ⟨e, -, rfl⟩ := List.mem_map.mp hc
      exact CodePoint.isSurrogate_ofChar e
    · obtain ⟨e, -, rfl⟩ := List.mem_map.mp hc
      exact CodePoint.isSurrogate_ofChar e
  next hd =>
    obtain rfl := List.mem_singleton.mp hc
    simpa using hd

end Text

namespace Json

/-! ## Values -/

mutual

/-- Whether the only surrogates in the texts of a value are those for stray bytes, and every object
names each member once. -/
def isEncodable : Json → Bool
  | text t => t.isEncodable
  | list vs => areEncodable vs
  | object ms => decide (ms.map (·.1)).Nodup && areEncodableMembers ms
  | _ => true

def areEncodable : List Json → Bool
  | [] => true
  | v :: vs => isEncodable v && areEncodable vs

def areEncodableMembers : List (Text × Json) → Bool
  | [] => true
  | (n, v) :: ms => n.isEncodable && isEncodable v && areEncodableMembers ms

end

theorem setMember_of_notMem {name : Text} {ms : List (Text × Json)} (h : name ∉ ms.map (·.1))
    (value : Json) : setMember name value ms = ms ++ [(name, value)] := by
  induction ms with
  | nil => rfl
  | cons m ms ih =>
    obtain ⟨n, v⟩ := m
    rw [List.map_cons, List.mem_cons, not_or] at h
    rw [setMember, if_neg (Ne.symm h.1), ih h.2, List.cons_append]

/-- Members that are named once make up an object in their order. -/
theorem ofMembers_of_nodup {ms : List (Text × Json)} (h : (ms.map (·.1)).Nodup) :
    ofMembers ms = object ms := by
  have hdone : ∀ done, ((done ++ ms).map (·.1)).Nodup →
      ms.foldl (fun ms m => setMember m.1 m.2 ms) done = done ++ ms := by
    clear h
    induction ms with
    | nil => simp
    | cons m ms ih =>
      intro done h
      have hm : m.1 ∉ done.map (·.1) := by
        rw [List.map_append, List.nodup_append] at h
        exact fun hm => h.2.2 _ hm _ (by simp) rfl
      rw [List.foldl_cons, setMember_of_notMem hm, ih]
      · simp
      · simpa using h
  exact congrArg object (hdone [] h)

mutual

/-- A value with encodable texts is read back as it is. -/
theorem readBack_eq_self : ∀ {v : Json}, v.isEncodable = true → v.readBack = v
  | .null, _ | .bool _, _ | .int _, _ | .float _, _ => rfl
  | .text _, h => congrArg text (Text.joinHalves_eq_self (Text.isHighHalf_of_isEncodable h))
  | .list vs, h => congrArg list (readBackItems_eq_self h)
  | .object ms, h => by
    obtain ⟨hnames, hms⟩ := Bool.and_eq_true_iff.mp h
    rw [readBack, readBackMembers_eq_self hms, ofMembers_of_nodup (of_decide_eq_true hnames)]

theorem readBackItems_eq_self : ∀ {vs : List Json}, areEncodable vs = true → readBackItems vs = vs
  | [], _ => rfl
  | v :: vs, h => by
    obtain ⟨hv, hvs⟩ := Bool.and_eq_true_iff.mp h
    rw [readBackItems, readBack_eq_self hv, readBackItems_eq_self hvs]

theorem readBackMembers_eq_self : ∀ {ms : List (Text × Json)}, areEncodableMembers ms = true →
    readBackMembers ms = ms
  | [], _ => rfl
  | (n, v) :: ms, h => by
    obtain ⟨hm, hms⟩ := Bool.and_eq_true_iff.mp h
    obtain ⟨hn, hv⟩ := Bool.and_eq_true_iff.mp hm
    have hname := Text.joinHalves_eq_self (Text.isHighHalf_of_isEncodable hn)
    rw [readBackMembers, hname, readBack_eq_self hv, readBackMembers_eq_self hms]

end

end Json

namespace CommandLine

/-- The bytes of what is written for a value are valid UTF-8. They are read as the value again if
its texts are encodable and it holds no binary64 numbers and no integer of more than 4300 digits
(`Json.longestInteger`), which a host would not print either. Nor would it print a value of about a
thousand levels, a bound that is left out here. -/
theorem written_exact (v : Json) :
    (∀ c ∈ written v, c.isSurrogate = false) ∧
      (∃ bytes, Utf8.encode (written v) = .ok bytes ∧
        Utf8.decodeStrict bytes = .ok (written v)) ∧
      (v.isReadable = true → v.isEncodable = true → Json.parse (written v) = .ok v) := by
  have hplain : ∀ c ∈ written v, c.isSurrogate = false := fun c => Text.isSurrogate_of_mem_shown
  have hforms : ∀ c ∈ written v, Utf8.isEncodable c = true := by
    intro c hc
    rw [Utf8.isEncodable, Utf8.encodePoint?_of_not_isSurrogate (hplain c hc)]
    rfl
  have hencode : Utf8.encode (written v) = .ok (Utf8.encodeLossy (written v)) :=
    Utf8.encode_eq_ok_iff.mpr ⟨hforms, rfl⟩
  have hdecode := Utf8.decode_of_encode hplain hencode
  have hstrict : Utf8.decodeStrict (Utf8.encodeLossy (written v)) = .ok (written v) := by
    refine Utf8.decodeStrict_eq_ok_iff.mpr ⟨Utf8.isValid_iff.mpr ?_, hdecode.symm⟩
    rwa [hdecode]
  refine ⟨hplain, ⟨_, hencode, hstrict⟩, fun hreadable hencodable => ?_⟩
  exact (Json.parse_written hreadable).trans (congrArg _ (Json.readBack_eq_self hencodable))

/-- A stray byte between a quote and a backslash. -/
def strayText : Text :=
  [CodePoint.ofChar '"', CodePoint.ofStrayByte 0xE9, CodePoint.ofChar '\\', Text.newline]

/-- The dry run of an edit that puts this text into an empty file. -/
def strayAnswer : EditAnswer := .ok (.preview ⟨"function 'f'", "a.js", [], strayText⟩)

theorem written_exact_stray :
    strayAnswer.toJson.isReadable = true ∧ strayAnswer.toJson.isEncodable = true ∧
      Text.ofString "\"\\\"\\udce9\\\\\\n\"" <:+: written strayAnswer.toJson ∧
      Json.parse (written strayAnswer.toJson) = .ok strayAnswer.toJson ∧
      strayAnswer.toJson.get? "new_content" = some (.text strayText) := by
  have hreadable : strayAnswer.toJson.isReadable = true := by decide +kernel
  have hencodable : strayAnswer.toJson.isEncodable = true := by decide +kernel
  obtain ⟨-, -, hparse⟩ := written_exact strayAnswer.toJson
  exact ⟨hreadable, hencodable, by decide +kernel, hparse hreadable hencodable, rfl⟩

end CommandLine

end SymbolAtlas
