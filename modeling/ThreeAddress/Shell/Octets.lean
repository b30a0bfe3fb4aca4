import ThreeAddress.Text.Utf8

/-!
# Bytes as characters

A text of bytes, each kept as the character of that number, so that bytes can be compared with the
characters of ASCII. Characters past the last byte do not occur in it.
-/

namespace ThreeAddress.Shell

abbrev Octets := List Char

def octetsOfBytes (bytes : ByteArray) : Octets :=
  bytes.data.toList.map fun b => Char.ofNat b.toNat

def octets (s : String) : Octets :=
  octetsOfBytes s.toUTF8

def bytesOf (cs : Octets) : List UInt8 :=
  cs.map fun c => .ofNat c.toNat

/-- The text that the bytes spell, as far as they spell one. -/
def ofOctets (cs : Octets) : String :=
  Text.lossy (bytesOf cs)

end ThreeAddress.Shell
