/-!
# Checksums

The two checksums of a picture file: the cyclic redundancy check of a chunk and the Adler sum of
compressed data.
-/

namespace Easel.Checksum

/-- One step of division by the check's polynomial; the lowest bit stands for the highest power. -/
def divideBit (c : UInt32) : UInt32 :=
  if c &&& 1 = 1 then (c >>> 1) ^^^ 0xEDB88320 else c >>> 1

/-- Divides on by the eight bits of a byte. -/
def divideByte (c : UInt32) (b : UInt8) : UInt32 :=
  Nat.repeat divideBit 8 (c ^^^ b.toUInt32)

/-- The cyclic redundancy check. -/
def crc (data : ByteArray) : UInt32 := data.foldl divideByte 0xFFFFFFFF ^^^ 0xFFFFFFFF

/-- The modulus of the Adler sum, the largest prime of 16 bits. -/
def adlerModulus : UInt32 := 65521

/-- Adds a byte: the first sum adds bytes, the second adds first sums. -/
def adlerStep (s : UInt32 × UInt32) (b : UInt8) : UInt32 × UInt32 :=
  let first := (s.1 + b.toUInt32) % adlerModulus
  (first, (s.2 + first) % adlerModulus)

/-- The Adler sum: the second sum above the first. -/
def adler (data : ByteArray) : UInt32 :=
  let s := data.foldl adlerStep (1, 0)
  (s.2 <<< 16) ||| s.1

end Easel.Checksum
