import CouncilLedger.BlockKey
import CouncilLedger.Council
import CouncilLedger.Proofs.Digest
import CouncilLedger.Proofs.Encoding
import Mathlib.Data.Nat.Digits.Defs

/-!
# The texts of digests and block keys

A digest is spelt by its 64 digits, in either case and behind at most one mark.
A block key is a digest where the text has the mark or the length of one, and
else a height in decimal digits, of which any number may be leading zeros. Both
parsers accept exactly these texts, and no text stands for two keys. The main
statements are `Digest.ofHex_eq_ok_iff` and `BlockKey.parse_eq_ok_iff`.
-/

namespace CouncilLedger

/-! ## Digits -/

namespace Text

/-- The hexadecimal digits in either case. -/
def hexAlphabet : List Char :=
  ['0', '1', '2', '3', '4', '5', '6', '7', '8', '9', 'a', 'b', 'c', 'd', 'e',
    'f', 'A', 'B', 'C', 'D', 'E', 'F']

/-- The code of a character of one byte. -/
def code (c : Char) : UInt8 := c.val.toUInt8

/-- A digit takes one byte, has a value, and its lower case is the digit for
this value. -/
theorem hexAlphabet_spec :
    ∀ c ∈ hexAlphabet, String.utf8EncodeChar c = [code c] ∧
      (hexValue? (code c)).map hexDigit = some c.toLower ∧ c ≠ 'x' := by
  have hall : hexAlphabet.all (fun c =>
      decide (String.utf8EncodeChar c = [code c] ∧
      (hexValue? (code c)).map hexDigit = some c.toLower ∧ c ≠ 'x')) = true := by
    decide
  exact fun c hc => of_decide_eq_true (List.all_eq_true.mp hall c hc)

/-- A code that has a value is that of a digit. -/
theorem ofNat_mem_hexAlphabet : ∀ n < 256, hexValue? (UInt8.ofNat n) ≠ none →
    n < 128 ∧ Char.ofNat n ∈ hexAlphabet := by
  decide +kernel

theorem joined_digits : ∀ h < 16, ∀ l < 16,
    hexPair (UInt8.ofNat h <<< 4 ||| UInt8.ofNat l) =
      [hexDigit (UInt8.ofNat h), hexDigit (UInt8.ofNat l)] := by
  decide

theorem hexValue?_lt {c v : UInt8} (h : hexValue? c = some v) :
    v.toNat < 16 := by
  have hall : ∀ n < 256, ∀ w ∈ hexValue? (UInt8.ofNat n), w.toNat < 16 := by
    decide +kernel
  exact hall c.toNat c.toNat_lt v (by rwa [UInt8.ofNat_toNat])

theorem hexPair_of_values {h l : UInt8} (hh : h.toNat < 16) (hl : l.toNat < 16) :
    hexPair (h <<< 4 ||| l) = [hexDigit h, hexDigit l] := by
  have hjoined := joined_digits h.toNat hh l.toNat hl
  rwa [UInt8.ofNat_toNat, UInt8.ofNat_toNat] at hjoined

theorem encode_eq_map_code {cs : List Char}
    (h : ∀ c ∈ cs, String.utf8EncodeChar c = [code c]) :
    encode cs = cs.map code := by
  induction cs with
  | nil => rfl
  | cons c cs ih =>
    rw [List.forall_mem_cons] at h
    rw [encode, List.flatMap_cons, h.1, List.map_cons, ← ih h.2]
    rfl

theorem utf8EncodeChar_of_lt : ∀ n < 128,
    String.utf8EncodeChar (Char.ofNat n) = [UInt8.ofNat n] := by
  decide

/-- A text whose bytes are all below 128 has its bytes for characters. -/
theorem map_encode_of_lt {cs : List Char} (h : ∀ b ∈ encode cs, b.toNat < 128) :
    (encode cs).map (fun b => Char.ofNat b.toNat) = cs := by
  apply encode_injective
  have hbyte :
      ∀ b ∈ encode cs, String.utf8EncodeChar (Char.ofNat b.toNat) = [b] := by
    intro b hb
    rw [utf8EncodeChar_of_lt _ (h b hb), UInt8.ofNat_toNat]
  rw [encode, List.flatMap_map, List.flatMap_congr hbyte,
    List.flatMap_singleton']

/-- Pairs of digits are read as the bytes that are written with the same digits
in lower case. -/
theorem exists_ofHexCodes : ∀ {cs : List Char} (start : Nat), Even cs.length →
    (∀ c ∈ cs, c ∈ hexAlphabet) →
    ∃ bytes, ofHexCodes start (cs.map code) = .ok bytes ∧
      bytes.flatMap hexPair = cs.map Char.toLower
  | [], _, _, _ => ⟨[], rfl, rfl⟩
  | [_], _, heven, _ => absurd heven (by simp)
  | high :: low :: rest, start, heven, hdigits => by
    simp only [List.forall_mem_cons] at hdigits
    obtain ⟨hhigh, hlow, hrest⟩ := hdigits
    have heven' : Even rest.length := by
      simpa [Nat.even_add_one] using heven
    obtain ⟨bytes, hread, hwritten⟩ := exists_ofHexCodes (start + 2) heven' hrest
    obtain ⟨h, hh, hhlower⟩ :=
      Option.map_eq_some_iff.mp (hexAlphabet_spec high hhigh).2.1
    obtain ⟨l, hl, hllower⟩ :=
      Option.map_eq_some_iff.mp (hexAlphabet_spec low hlow).2.1
    refine ⟨(h <<< 4 ||| l) :: bytes, ?_, ?_⟩
    · simp only [List.map_cons, ofHexCodes, hh, hl, hread]
      rfl
    · rw [List.flatMap_cons, hexPair_of_values (hexValue?_lt hh)
        (hexValue?_lt hl), hwritten, hhlower, hllower]
      rfl

/-- What is read as pairs of digits holds nothing but digits. -/
theorem hexValue?_of_ofHexCodes :
    ∀ {codes : List UInt8} {start : Nat} {bytes : List UInt8},
    Even codes.length → ofHexCodes start codes = .ok bytes →
    ∀ c ∈ codes, hexValue? c ≠ none
  | [], _, _, _, _ => nofun
  | [_], _, _, heven, _ => absurd heven (by simp)
  | high :: low :: rest, start, bytes, heven, h => by
    have heven' : Even rest.length := by
      simpa [Nat.even_add_one] using heven
    unfold ofHexCodes at h
    split at h
    · cases h
    · cases h
    · next hh hl =>
      obtain ⟨tail, htail, -⟩ := Outcome.bind_eq_ok.mp h
      simp only [List.forall_mem_cons]
      exact ⟨by simp [hh], by simp [hl], hexValue?_of_ofHexCodes heven' htail⟩

/-- Characters whose codes are all digits are digits. -/
theorem mem_hexAlphabet_of_encode {cs : List Char}
    (h : ∀ c ∈ encode cs, hexValue? c ≠ none) : ∀ c ∈ cs, c ∈ hexAlphabet := by
  have hchar :
      ∀ b ∈ encode cs, b.toNat < 128 ∧ Char.ofNat b.toNat ∈ hexAlphabet := by
    intro b hb
    exact ofNat_mem_hexAlphabet b.toNat b.toNat_lt
      (by rw [UInt8.ofNat_toNat]; exact h b hb)
  intro c hc
  rw [← map_encode_of_lt fun b hb => (hchar b hb).1] at hc
  obtain ⟨b, hb, rfl⟩ := List.mem_map.mp hc
  exact (hchar b hb).2

/-- The number of some decimal digits is the sum of each times its power of
ten. -/
theorem decimal_eq_ofDigits (cs : List Char) :
    decimal cs =
      Nat.ofDigits 10 (cs.map fun c => c.toNat - '0'.toNat).reverse := by
  rw [decimal, Nat.ofDigitChars_eq_foldl, Nat.ofDigits_eq_foldr,
    List.foldr_reverse, List.foldl_map]
  simp only [Nat.cast_id, Nat.add_comm]

end Text

/-! ## Digests -/

namespace Digest

/-- A text is that of a digest: 64 digits `ds` of either case, behind at most
one mark. -/
structure IsText (s : String) (ds : List Char) : Prop where
  behindMark : s.toList = ds ∨ s.toList = '0' :: 'x' :: ds
  length : ds.length = 64
  digits : ∀ c ∈ ds, c ∈ Text.hexAlphabet

variable {s : String} {ds : List Char} {d : Digest}

theorem toList_eq_withoutMark (s : String) :
    s.toList = withoutMark s ∨ s.toList = '0' :: 'x' :: withoutMark s := by
  unfold withoutMark
  split
  · next heq => exact .inr heq
  · exact .inl rfl

/-- The digits of a digest do not begin with a mark, so no more than one is
taken off. -/
theorem IsText.withoutMark_eq (h : IsText s ds) : withoutMark s = ds := by
  rcases h.behindMark with hs | hs
  · rcases toList_eq_withoutMark s with hsame | hmarked
    · rw [← hsame, hs]
    · rw [hs] at hmarked
      have hx := h.digits 'x' (by rw [hmarked]; simp)
      exact absurd rfl (Text.hexAlphabet_spec 'x' hx).2.2
  · rw [withoutMark, hs]
    rfl

theorem IsText.exists_ofHex (h : IsText s ds) :
    ∃ d, ofHex s = .ok d ∧ d.hex = String.ofList (ds.map Char.toLower) := by
  have hcodes : codes s = ds.map Text.code := by
    rw [codes, h.withoutMark_eq]
    exact Text.encode_eq_map_code fun c hc =>
      (Text.hexAlphabet_spec c (h.digits c hc)).1
  have heven : Even ds.length := by rw [h.length]; decide
  obtain ⟨bytes, hread, hwritten⟩ := Text.exists_ofHexCodes 0 heven h.digits
  obtain ⟨d, hd, hbytes⟩ :=
    ofHex_of_codes (by rw [hcodes, List.length_map, h.length])
    (by rw [hcodes, hread])
  exact ⟨d, hd, by rw [hex, Text.toHex, hbytes, hwritten]⟩

theorem isText_of_ofHex (h : ofHex s = .ok d) : IsText s (withoutMark s) := by
  simp only [ofHex] at h
  split at h
  · next hlen =>
    have hdigits : ∀ c ∈ withoutMark s, c ∈ Text.hexAlphabet := by
      apply Text.mem_hexAlphabet_of_encode
      split at h
      · next bytes hread =>
        have heven : Even (codes s).length := by rw [hlen]; decide
        exact Text.hexValue?_of_ofHexCodes heven hread
      · cases h
    refine ⟨toList_eq_withoutMark s, ?_, hdigits⟩
    have hcodes : codes s = (withoutMark s).map Text.code :=
      Text.encode_eq_map_code fun c hc =>
        (Text.hexAlphabet_spec c (hdigits c hc)).1
    rw [← hlen, hcodes, List.length_map]
  · cases h

theorem hex_injective {d e : Digest} (h : d.hex = e.hex) : d = e := by
  have hread := ofHex_hex d
  rw [h, ofHex_hex] at hread
  exact (Except.ok.inj hread).symm

/-- **A text is read as a digest** exactly when it is the digest's digits in
either case, behind at most one mark. -/
theorem ofHex_eq_ok_iff :
    ofHex s = .ok d ↔ ∃ ds, IsText s ds ∧
      d.hex = String.ofList (ds.map Char.toLower) := by
  constructor
  · intro h
    have htext := isText_of_ofHex h
    obtain ⟨e, he, hhex⟩ := htext.exists_ofHex
    cases h.symm.trans he
    exact ⟨_, htext, hhex⟩
  · rintro ⟨ds, htext, hhex⟩
    obtain ⟨e, he, hhex'⟩ := htext.exists_ofHex
    rw [he, hex_injective (hhex'.trans hhex.symm)]

theorem exists_ofHex_iff : (∃ d, ofHex s = .ok d) ↔ ∃ ds, IsText s ds := by
  constructor
  · rintro ⟨d, h⟩
    exact ⟨_, isText_of_ofHex h⟩
  · rintro ⟨ds, h⟩
    obtain ⟨d, hd, -⟩ := h.exists_ofHex
    exact ⟨d, hd⟩

end Digest

/-- The normal form of an id is its own. -/
theorem Council.normalizeId_normalizeId {text id : String}
    (h : normalizeId text = .ok id) : normalizeId id = .ok id := by
  obtain ⟨d, -, rfl⟩ := Outcome.map_eq_ok.mp h
  rw [normalizeId, Digest.ofHex_hex]
  rfl

/-! ## Block keys -/

namespace BlockKey

variable {s : String} {d : Digest} {height : UInt64}

/-- A text is a height in decimal digits, as long as it does not have the length
of a digest. -/
structure IsHeight (s : String) (height : UInt64) : Prop where
  nonempty : s.toList ≠ []
  digits : ∀ c ∈ s.toList, '0' ≤ c ∧ c ≤ '9'
  length : s.toList.length ≠ 64
  value : Nat.ofDigits 10
    (s.toList.map fun c => c.toNat - '0'.toNat).reverse = height.toNat

theorem isMarked_iff :
    isMarked s = true ↔ ∃ rest, s.toList = '0' :: 'x' :: rest := by
  unfold isMarked
  split
  · next rest heq => exact iff_of_true rfl ⟨rest, heq⟩
  · next hother =>
      exact iff_of_false Bool.false_ne_true fun ⟨rest, heq⟩ => hother rest heq

theorem isDigit_iff {c : Char} : c.isDigit = true ↔ '0' ≤ c ∧ c ≤ '9' := by
  rw [Char.isDigit, Bool.and_eq_true, decide_eq_true_eq, decide_eq_true_eq]
  rfl

/-- A text of decimal digits has as many bytes as characters. -/
theorem utf8ByteSize_of_digits (h : ∀ c ∈ s.toList, '0' ≤ c ∧ c ≤ '9') :
    s.utf8ByteSize = s.toList.length := by
  have hone : ∀ c ∈ s.toList, String.utf8EncodeChar c = [Text.code c] := by
    intro c hc
    obtain ⟨hlow, hhigh⟩ := h c hc
    have hmem : c ∈ Text.hexAlphabet := by
      have hall : ∀ n < 58, 48 ≤ n → Char.ofNat n ∈ Text.hexAlphabet := by decide
      rw [← Char.ofNat_toNat c]
      exact hall c.toNat (Nat.lt_succ_of_le hhigh) hlow
    exact (Text.hexAlphabet_spec c hmem).1
  rw [← Encoding.length_plain, Encoding.plain, Text.encode_eq_map_code hone,
    List.length_map]

/-- **A text is read as a digest** where it has the mark or the length of
one. -/
theorem parse_eq_byHash_iff :
    parse s = .ok (.byHash d) ↔
      ((∃ rest, s.toList = '0' :: 'x' :: rest) ∨ s.utf8ByteSize = 64) ∧
        Digest.ofHex s = .ok d := by
  rw [← isMarked_iff]
  unfold parse
  split
  · next hdigest => simp [hdigest, Outcome.map_eq_ok]
  · next hother =>
    refine iff_of_false ?_ fun h => hother h.1
    split
    · nofun
    · split
      · nofun
      · nofun

/-- **A text is read as a height** where it is decimal digits that give one. -/
theorem parse_eq_byHeight_iff :
    parse s = .ok (.byHeight height) ↔ IsHeight s height := by
  have hvalue := Text.decimal_eq_ofDigits s.toList
  unfold parse
  split
  · next hdigest =>
    refine iff_of_false (by simp [Outcome.map_eq_ok]) fun h => ?_
    rcases hdigest with hmark | hsize
    · obtain ⟨rest, heq⟩ := isMarked_iff.mp hmark
      have hx := h.digits 'x' (heq ▸ by simp)
      exact absurd hx (by decide)
    · exact h.length (utf8ByteSize_of_digits h.digits ▸ hsize)
  · next hother =>
    obtain ⟨-, hsize⟩ := not_or.mp hother
    split
    · next hmalformed =>
      refine iff_of_false nofun fun h => ?_
      simp only [List.isEmpty_iff, Bool.not_eq_true', List.all_eq_false,
        isDigit_iff] at hmalformed
      rcases hmalformed with hempty | ⟨c, hc, hno⟩
      · exact h.nonempty hempty
      · exact hno (h.digits c hc)
    · next hformed =>
      obtain ⟨hnonempty, hall⟩ := not_or.mp hformed
      rw [List.isEmpty_iff] at hnonempty
      rw [Bool.not_eq_true', Bool.not_eq_false, List.all_eq_true] at hall
      have hdigits : ∀ c ∈ s.toList, '0' ≤ c ∧ c ≤ '9' :=
        fun c hc => isDigit_iff.mp (hall c hc)
      have hlength : s.toList.length ≠ 64 :=
        utf8ByteSize_of_digits hdigits ▸ hsize
      split
      · next hfits =>
        simp only [Except.ok.injEq, byHeight.injEq]
        constructor
        · rintro rfl
          exact ⟨hnonempty, hdigits, hlength,
            by rw [UInt64.toNat_ofNat_of_lt' hfits, hvalue]⟩
        · intro h
          rw [← UInt64.toNat_inj, UInt64.toNat_ofNat_of_lt' hfits,
            hvalue, h.value]
      · next hlarge =>
        refine iff_of_false nofun fun h => hlarge ?_
        rw [hvalue, h.value]
        exact height.toNat_lt

/-- A key is what a text stands for. -/
def Reads (s : String) : BlockKey → Prop
  | byHash d =>
    ((∃ rest, s.toList = '0' :: 'x' :: rest) ∨ s.utf8ByteSize = 64) ∧
      ∃ ds, Digest.IsText s ds ∧ d.hex = String.ofList (ds.map Char.toLower)
  | byHeight height => IsHeight s height

/-- **A text is read as a key** exactly when it stands for it. -/
theorem parse_eq_ok_iff {key : BlockKey} : parse s = .ok key ↔ Reads s key := by
  cases key with
  | byHash d => rw [parse_eq_byHash_iff, Digest.ofHex_eq_ok_iff]; rfl
  | byHeight height => exact parse_eq_byHeight_iff

end BlockKey
end CouncilLedger
