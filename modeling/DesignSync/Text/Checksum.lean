/-!
The CRC-32 checksum of a text and hexadecimal numbers.
-/

namespace DesignSync.Text

/-- One bit of a CRC-32 with the reflected polynomial `EDB88320`. -/
def crcBit (crc : UInt32) : UInt32 :=
  if crc &&& 1 = 1 then (crc >>> 1) ^^^ 0xEDB88320 else crc >>> 1

def crcByte (crc : UInt32) (byte : UInt8) : UInt32 :=
  Nat.repeat crcBit 8 (crc ^^^ byte.toUInt32)

/-- The CRC-32 of the bytes of a text. -/
def crc32 (s : String) : UInt32 :=
  (s.toUTF8.data.toList.foldl crcByte 0xFFFFFFFF) ^^^ 0xFFFFFFFF

/-- A number in lower-case hexadecimal digits. -/
def hex (n : Nat) : String := String.ofList (Nat.toDigits 16 n)

end DesignSync.Text
