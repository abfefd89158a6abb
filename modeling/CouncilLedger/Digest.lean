import CouncilLedger.Encoding
import CouncilLedger.FormatFault
import CouncilLedger.Sha256
import CouncilLedger.Text.Hex

/-!
# Digests

The 32-byte hashes that name blocks and transactions, their order, and their
hexadecimal text, which is read with or without a leading `0x` and in either
case and written without it in lower case.
-/

namespace CouncilLedger

/-- The hash of a block or a transaction. -/
structure Digest where
  bytes : List UInt8
  length_bytes : bytes.length = 32
deriving DecidableEq

namespace Digest

theorem ext {d e : Digest} (h : d.bytes = e.bytes) : d = e := by
  cases d; cases e; cases h; rfl

/-- Digests are ordered as byte strings. -/
instance : Ord Digest := ⟨compareOn bytes⟩

instance : Std.TransOrd Digest :=
  inferInstanceAs (Std.TransCmp (compareOn bytes))

instance : Std.LawfulEqOrd Digest where
  compare_self := Std.ReflOrd.compare_self (α := List UInt8)
  eq_of_compare h := ext (Std.LawfulEqOrd.eq_of_compare (α := List UInt8) h)

/-- The digest of 32 zero bytes, which stands for no block yet. -/
def zero : Digest := ⟨List.replicate 32 0, rfl⟩

instance : Inhabited Digest := ⟨zero⟩

/-- The SHA-256 hash of a list of bytes. -/
def ofBytes (message : List UInt8) : Digest :=
  ⟨Sha256.hash message, Sha256.length_hash message⟩

/-! ## Hexadecimal text -/

/-- The 64 digits of a digest. -/
def hex (d : Digest) : String := Text.toHex d.bytes

/-- The first eight digits. -/
def short (d : Digest) : String := Text.toHex (d.bytes.take 4)

/-- The abridged form in which messages show the parent of a block. -/
def shown (d : Digest) : String := "H256(" ++ d.short ++ ")"

/-- The text without one leading `0x`. -/
def withoutMark (s : String) : List Char :=
  match s.toList with
  | '0' :: 'x' :: rest => rest
  | cs => cs

/-- The UTF-8 codes of a text without one leading `0x`. -/
def codes (s : String) : List UInt8 := Text.encode (withoutMark s)

/-- The digest that a text of 64 digits stands for. -/
def ofHex (s : String) : Except FormatFault Digest :=
  let cs := codes s
  if hlen : cs.length = 64 then
    match h : Text.ofHexCodes 0 cs with
    | .ok bytes => .ok ⟨bytes, by rw [Text.length_ofHexCodes h, hlen]⟩
    | .error (code, position) => .error (.digestDigit code position)
  else .error (.digestLength cs.length)

end Digest
end CouncilLedger
