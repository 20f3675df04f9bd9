/-
# Items

An item is one 32-byte entry of a page: a header with a namespace, a datatype, a span, a
chunk index, a checksum and a key, and eight bytes that hold a primitive value, the size and
checksum of the data entries that follow, or the description of a blob.
-/
import EspIdf.Lib.Nor
import EspIdf.Lib.Prog

namespace EspIdf.Nvs

open EspIdf.Lib

/-- The error codes that the component returns. -/
inductive Err where
  | invalidArg
  | notInitialized
  | notFound
  | typeMismatch
  | notEnoughSpace
  | keyTooLong
  | pageFull
  | invalidState
  | invalidLength
  | noFreePages
  | valueTooLong
  | newVersionFound
  | contentDiffers
deriving DecidableEq, Repr

/-- How a function leaves: with an error code, at an assertion that does not hold, or never. -/
inductive Exit where
  | code (e : Err)
  | assertion
  | hang
deriving DecidableEq, Repr

section Control

variable {σ α : Type}

/-- `assert`. -/
def assert (p : Prop) [Decidable p] : Prog σ Exit Unit :=
  if p then pure () else Prog.throw .assertion

/-- Return the error code `e`. -/
def fail (e : Err) : Prog σ Exit α := Prog.throw (.code e)

/-- Run `m` and look at the code that it returns. -/
def attempt (m : Prog σ Exit α) : Prog σ Exit (Except Err α) := fun s =>
  match m s with
  | (.ok a, s') => (.ok (.ok a), s')
  | (.error (.code e), s') => (.ok (.error e), s')
  | (.error x, s') => (.error x, s')

end Control

/-! ### Datatypes -/

/-- `ItemType`, a byte of the item. -/
abbrev ItemType : Type := Byte

namespace ItemType

def u8 : ItemType := 0x01
def i8 : ItemType := 0x11
def u16 : ItemType := 0x02
def i16 : ItemType := 0x12
def u32 : ItemType := 0x04
def i32 : ItemType := 0x14
def u64 : ItemType := 0x08
def i64 : ItemType := 0x18
def sz : ItemType := 0x21
def blob : ItemType := 0x41
def blobData : ItemType := 0x42
def blobIdx : ItemType := 0x48
def any : ItemType := 0xff

/-- `isVariableLengthType`. -/
def isVariableLength (t : ItemType) : Bool := t = blob || t = sz || t = blobData

/-- `getAlignmentForType`: the size of a primitive type. -/
def alignment (t : ItemType) : ℕ := (t &&& 0x0f#8).toNat

end ItemType

/-- `CHUNK_ANY`. -/
def chunkAny : Byte := 0xff

/-- `NS_INDEX`, the namespace of the namespaces. -/
def nsNames : Byte := 0

/-- `NS_ANY`. -/
def nsAny : Byte := 255

/-- `VerOffset`, the first chunk index of a version of a blob. -/
abbrev VerOffset : Type := Byte

def ver0 : VerOffset := 0x00
def ver1 : VerOffset := 0x80
def verAny : VerOffset := 0xff

/-! ### C strings -/

/-- `strncmp(a, b, n) == 0`; a list ends with a zero. -/
def strncmpEq : ℕ → List Byte → List Byte → Bool
  | 0, _, _ => true
  | n + 1, a, b =>
    a.headD 0 == b.headD 0 && (a.headD 0 == 0 || strncmpEq n a.tail b.tail)

/-- The C string at the start of a buffer. -/
def cstr (bs : List Byte) : List Byte := bs.takeWhile (· ≠ 0)

/-- `MAX_KEY_LENGTH`. -/
def maxKeyLength : ℕ := 15

/-- The key field of an item: at most fifteen characters, padded with zeros. -/
def keyField (key : List Byte) : List Byte :=
  let name := (cstr key).take maxKeyLength
  name ++ List.replicate (16 - name.length) 0

/-! ### Items -/

/-- `Item`, as the bytes it consists of. -/
structure Item where
  rawData : List Byte
deriving DecidableEq, Repr

namespace Item

/-- Byte `i`. -/
def byte (it : Item) (i : ℕ) : Byte := it.rawData.getD i 0

/-- The bytes from `i` to `i + n`. -/
def slice (it : Item) (i n : ℕ) : List Byte := (it.rawData.drop i).take n

def nsIndex (it : Item) : Byte := it.byte 0
def datatype (it : Item) : ItemType := it.byte 1
def span (it : Item) : ℕ := (it.byte 2).toNat
def chunkIndex (it : Item) : Byte := it.byte 3
def crc32 (it : Item) : ℕ := leVal (it.slice 4 4)
def key (it : Item) : List Byte := it.slice 8 16
def data (it : Item) : List Byte := it.slice 24 8

/-- `varLength.dataSize`. -/
def dataSize (it : Item) : ℕ := leVal (it.slice 24 2)

/-- `varLength.dataCrc32`. -/
def dataCrc32 (it : Item) : ℕ := leVal (it.slice 28 4)

/-- `blobIndex.dataSize`. -/
def blobDataSize (it : Item) : ℕ := leVal (it.slice 24 4)

/-- `blobIndex.chunkCount`. -/
def chunkCount (it : Item) : ℕ := (it.byte 28).toNat

/-- `blobIndex.chunkStart`. -/
def chunkStart (it : Item) : VerOffset := it.byte 29

/-- `Item::calculateCrc32` of a buffer. -/
def dataCrcOf (bs : List Byte) : ℕ := (crc32Le 0xffffffff#32 bs).toNat

/-- `Item::calculateCrc32`: everything but the checksum. -/
def calculateCrc32 (it : Item) : ℕ :=
  (crc32Le (crc32Le (crc32Le 0xffffffff#32 (it.slice 0 4)) it.key) it.data).toNat

/-- `Item::calculateCrc32WithoutValue`: the namespace, the key and the chunk index. -/
def calculateCrc32WithoutValue (it : Item) : BitVec 32 :=
  crc32Le (crc32Le (crc32Le 0xffffffff#32 (it.slice 0 1)) it.key) (it.slice 3 1)

/-- The checksum agrees. -/
def crcOk (it : Item) : Bool := it.crc32 = it.calculateCrc32

/-- An item with the given fields. -/
def ofFields (nsIndex : Byte) (datatype : ItemType) (span : ℕ) (key : List Byte)
    (chunkIdx : Byte) (crc : ℕ) (data : List Byte) : Item :=
  ⟨[nsIndex, datatype, BitVec.ofNat 8 span, chunkIdx] ++ le32 crc ++ keyField key ++ data⟩

/-- The constructor: the data is set, the checksum is not computed yet. -/
def create (nsIndex : Byte) (datatype : ItemType) (span : ℕ) (key : List Byte)
    (chunkIdx : Byte) : Item :=
  ofFields nsIndex datatype span key chunkIdx 0 (List.replicate 8 0xff)

/-- An item with its checksum. -/
def sealed (nsIndex : Byte) (datatype : ItemType) (span : ℕ) (key : List Byte)
    (chunkIdx : Byte) (data : List Byte) : Item :=
  ofFields nsIndex datatype span key chunkIdx
    (ofFields nsIndex datatype span key chunkIdx 0 data).calculateCrc32 data

end Item

/-- The data field of an item of variable length. -/
def varLengthData (src : List Byte) : List Byte :=
  (le32 src.length).take 2 ++ [0xff, 0xff] ++ le32 (Item.dataCrcOf src)

/-- The data field of the index of a blob. -/
def blobIndexData (dataSize chunkCount : ℕ) (chunkStart : VerOffset) : List Byte :=
  le32 dataSize ++ [BitVec.ofNat 8 chunkCount, chunkStart, 0xff, 0xff]

end EspIdf.Nvs
