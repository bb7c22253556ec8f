/-!
# CRC-32

The checksum of a listing: CRC-32 with the reflected polynomial EDB88320, one bit at a time, over
the UTF-8 bytes of the lines with nothing between them.
-/

namespace LineBasic.Checksum

/-- The reflected generator polynomial. -/
def polynomial : UInt32 := 0xEDB88320

/-- Shifts one bit out of the register. -/
def shiftBit (r : UInt32) : UInt32 :=
  if r &&& 1 = 1 then (r >>> 1) ^^^ polynomial else r >>> 1

/-- Feeds one byte into the register. -/
def feedByte (r : UInt32) (b : UInt8) : UInt32 :=
  let r := r ^^^ b.toUInt32
  shiftBit (shiftBit (shiftBit (shiftBit (shiftBit (shiftBit (shiftBit (shiftBit r)))))))

/-- The checksum of the bytes that follow some with checksum `crc`; the register is complemented on
the way in and on the way out. -/
def extend (crc : UInt32) (bytes : List UInt8) : UInt32 :=
  ~~~ (bytes.foldl feedByte (~~~ crc))

/-- `listing_crc`: the checksum of a listing, line after line. -/
def ofLines (lines : List String) : Nat :=
  (lines.foldl (fun crc line => extend crc line.toUTF8.toList) 0).toNat

end LineBasic.Checksum
