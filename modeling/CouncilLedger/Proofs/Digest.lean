import CouncilLedger.Digest

/-!
# Digests read back

The 64 digits of a digest are read back as the digest.
-/

namespace CouncilLedger

namespace Text

/-- The code of the digit for a value below 16. -/
def hexCode (n : UInt8) : UInt8 := (hexDigit n).val.toUInt8

/-- Digits take one byte, are read back, and none of them is the second
character of a mark. -/
theorem hexDigit_spec :
    ∀ n < 16,
      String.utf8EncodeChar (hexDigit (UInt8.ofNat n)) =
        [hexCode (UInt8.ofNat n)] ∧
      hexValue? (hexCode (UInt8.ofNat n)) = some (UInt8.ofNat n) ∧
      hexDigit (UInt8.ofNat n) ≠ 'x' := by
  decide

theorem hexDigit_spec_of_lt {n : UInt8} (h : n.toNat < 16) :
    String.utf8EncodeChar (hexDigit n) = [hexCode n] ∧
      hexValue? (hexCode n) = some n ∧ hexDigit n ≠ 'x' := by
  have hspec := hexDigit_spec n.toNat h
  rwa [UInt8.ofNat_toNat] at hspec

theorem high_lt (b : UInt8) : (b >>> 4).toNat < 16 := by
  have := b.toNat_lt
  simp [UInt8.toNat_shiftRight, Nat.shiftRight_eq_div_pow]
  omega

theorem low_lt (b : UInt8) : (b &&& 15).toNat < 16 := by
  rw [UInt8.toNat_and]
  exact Nat.lt_of_le_of_lt Nat.and_le_right (by decide)

theorem joined_halves : ∀ n < 256,
    (UInt8.ofNat n >>> 4) <<< 4 ||| (UInt8.ofNat n &&& 15) = UInt8.ofNat n := by
  decide +kernel

theorem high_or_low (b : UInt8) : (b >>> 4) <<< 4 ||| (b &&& 15) = b := by
  have h := joined_halves b.toNat b.toNat_lt
  rwa [UInt8.ofNat_toNat] at h

theorem encode_hexPair (b : UInt8) :
    encode (hexPair b) = [hexCode (b >>> 4), hexCode (b &&& 15)] := by
  simp [encode, hexPair, (hexDigit_spec_of_lt (high_lt b)).1,
    (hexDigit_spec_of_lt (low_lt b)).1]

theorem encode_flatMap_hexPair (bytes : List UInt8) :
    encode (bytes.flatMap hexPair) =
      bytes.flatMap
        fun b : UInt8 => [hexCode (b >>> 4), hexCode (b &&& 15)] := by
  induction bytes with
  | nil => rfl
  | cons b bytes ih =>
    rw [List.flatMap_cons, encode_append, encode_hexPair, ih, List.flatMap_cons]

theorem ofHexCodes_hexCodes (bytes : List UInt8) (start : Nat) :
    ofHexCodes start (bytes.flatMap
        fun b : UInt8 => [hexCode (b >>> 4), hexCode (b &&& 15)]) =
      .ok bytes := by
  induction bytes generalizing start with
  | nil => rfl
  | cons b bytes ih =>
    have hhigh := (hexDigit_spec_of_lt (high_lt b)).2.1
    have hlow := (hexDigit_spec_of_lt (low_lt b)).2.1
    simp [ofHexCodes, hhigh, hlow, ih, high_or_low, Bind.bind, Except.bind,
      Pure.pure, Except.pure]

end Text

namespace Digest

/-- The digits of a digest start with no mark. -/
theorem withoutMark_hex (d : Digest) :
    withoutMark d.hex = d.bytes.flatMap Text.hexPair := by
  have hlist : d.hex.toList = d.bytes.flatMap Text.hexPair := by
    simp [hex, Text.toHex]
  rw [withoutMark, hlist]
  cases hbytes : d.bytes with
  | nil => rfl
  | cons b bytes =>
    have hx := (Text.hexDigit_spec_of_lt (Text.low_lt b)).2.2
    split
    · next heq =>
      simp only [List.flatMap_cons, Text.hexPair, List.cons_append,
        List.cons.injEq] at heq
      exact absurd heq.2.1 hx
    · rfl

theorem ofHex_of_codes {s : String} {bytes : List UInt8}
    (hlen : (codes s).length = 64)
    (h : Text.ofHexCodes 0 (codes s) = .ok bytes) :
    ∃ d, ofHex s = .ok d ∧ d.bytes = bytes := by
  unfold ofHex
  simp only [hlen, ↓reduceDIte]
  split
  · next read hread =>
    rw [h] at hread
    cases hread
    exact ⟨_, rfl, rfl⟩
  · next hread =>
    rw [h] at hread
    cases hread

/-- **The digits of a digest read back.** -/
theorem ofHex_hex (d : Digest) : ofHex d.hex = .ok d := by
  have hcodes : codes d.hex = d.bytes.flatMap fun b : UInt8 =>
      [Text.hexCode (b >>> 4), Text.hexCode (b &&& 15)] := by
    rw [codes, withoutMark_hex, Text.encode_flatMap_hexPair]
  have hlen : (codes d.hex).length = 64 := by
    rw [hcodes, List.length_flatMap]
    simp only [List.length_cons, List.length_nil, List.map_const',
      List.sum_replicate_nat, d.length_bytes]
  obtain ⟨e, he, hbytes⟩ :=
    ofHex_of_codes hlen (by rw [hcodes, Text.ofHexCodes_hexCodes])
  rw [he, ext hbytes]

end Digest
end CouncilLedger
