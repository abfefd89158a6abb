/-!
# Byte encodings

Text as bytes is UTF-8, and decoding accepts exactly what encoding produces.
What is hashed is a list of bytes in which every part shows where it ends: words
have eight bytes, and a text is preceded by its length.
-/

/-! ## Text -/

namespace CouncilLedger.Text

/-- The bytes of some characters. -/
def encode (cs : List Char) : List UInt8 := cs.flatMap String.utf8EncodeChar

/-- The characters that some bytes encode, if they do. -/
def decode? (bytes : List UInt8) : Option (List Char) :=
  bytes.toByteArray.utf8Decode?.map Array.toList

theorem encode_append (cs ds : List Char) :
    encode (cs ++ ds) = encode cs ++ encode ds :=
  List.flatMap_append

theorem decode?_encode (cs : List Char) : decode? (encode cs) = some cs := by
  have h : (encode cs).toByteArray = cs.utf8Encode := rfl
  simp [decode?, h, List.utf8Decode?_utf8Encode]

end CouncilLedger.Text

/-! ## Parts that show where they end -/

namespace CouncilLedger.Encoding

/-- The eight bytes of a word, the lowest first. -/
def word (n : UInt64) : List UInt8 :=
  [n.toUInt8, (n >>> 8).toUInt8, (n >>> 16).toUInt8, (n >>> 24).toUInt8,
   (n >>> 32).toUInt8, (n >>> 40).toUInt8, (n >>> 48).toUInt8,
   (n >>> 56).toUInt8]

/-- The UTF-8 bytes of a text. -/
def plain (s : String) : List UInt8 := Text.encode s.toList

/-- A text behind its length in bytes. -/
def text (s : String) : List UInt8 :=
  word (UInt64.ofNat s.utf8ByteSize) ++ plain s

end CouncilLedger.Encoding
