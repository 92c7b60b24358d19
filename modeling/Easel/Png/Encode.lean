import Easel.Canvas.Image
import Easel.Png.Checksum

/-!
# Picture files

The PNG form of an image: eight bits for each of red, green, blue and alpha, rows unfiltered, data
stored without compression. Every block of stored data is a chunk of its own.
-/

namespace Easel.Png

/-- The bytes of a number, the highest first. -/
def bigEndian (n : UInt32) : ByteArray :=
  ⟨#[(n >>> 24).toUInt8, (n >>> 16).toUInt8, (n >>> 8).toUInt8, n.toUInt8]⟩

/-- The bytes that every file starts with. -/
def signature : ByteArray := ⟨#[0x89, 0x50, 0x4E, 0x47, 0x0D, 0x0A, 0x1A, 0x0A]⟩

/-- A chunk: length, kind, data and check. -/
def chunk (kind : String) (data : ByteArray) : ByteArray :=
  let body := kind.toUTF8 ++ data
  bigEndian data.size.toUInt32 ++ body ++ bigEndian (Checksum.crc body)

/-- Size and form of the image: depth 8, colours with alpha, no interlacing. -/
def header (i : Image) : ByteArray :=
  chunk "IHDR" (bigEndian i.width.toUInt32 ++ bigEndian i.height.toUInt32 ++ ⟨#[8, 6, 0, 0, 0]⟩)

/-- The rows, with a byte before each that says it is unfiltered. -/
def scanlines (i : Image) : ByteArray :=
  i.height.fold (fun y _ out =>
    (i.pixels.extract (y * i.width) ((y + 1) * i.width)).foldl (fun out c =>
      c.bytes.foldl ByteArray.push out) (out.push 0)) .empty

/-- The most bytes in a stored block. -/
def maxBlock : Nat := 65535

/-- A stored block: whether it is the last, its size, the size's complement, and the data. -/
def storedBlock (isLast : Bool) (data : ByteArray) : ByteArray :=
  let size := data.size.toUInt16
  let low (n : UInt16) : UInt8 := n.toUInt8
  let high (n : UInt16) : UInt8 := (n >>> 8).toUInt8
  ⟨#[if isLast then 1 else 0, low size, high size, low (~~~size), high (~~~size)]⟩ ++ data

/-- Chunks of stored blocks for the data from a position on; there is at least one block. -/
def storedFrom (data : ByteArray) (start : Nat) (out : ByteArray) : ByteArray :=
  let stop := start + maxBlock
  if stop < data.size then
    storedFrom data stop (out ++ chunk "IDAT" (storedBlock false (data.extract start stop)))
  else out ++ chunk "IDAT" (storedBlock true (data.extract start data.size))
termination_by data.size - start
decreasing_by simp only [stop, maxBlock] at *; omega

/-- Chunks for the data: two bytes that say how it is stored, the blocks and their sum. -/
def stored (data : ByteArray) : ByteArray :=
  storedFrom data 0 (chunk "IDAT" ⟨#[0x78, 0x01]⟩) ++
    chunk "IDAT" (bigEndian (Checksum.adler data))

/-- The picture file of an image. -/
def encode (i : Image) : ByteArray :=
  signature ++ header i ++ stored (scanlines i) ++ chunk "IEND" .empty

end Easel.Png
