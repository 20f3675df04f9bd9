/-
# Text as bytes

The UTF-8 encoding of a string, as a list of bytes, and its strict inverse.
-/
import EspIdf.Lib.Crc32

namespace EspIdf.Lib

/-- The bytes of a string. -/
def utf8 (s : List Char) : List Byte := (s.flatMap String.utf8EncodeChar).map UInt8.toBitVec

/-- The string that bytes encode; `none` if they are no UTF-8. -/
def utf8Decode (b : List Byte) : Option (List Char) :=
  (ByteArray.mk (b.map UInt8.ofBitVec).toArray).utf8Decode?.map Array.toList

lemma utf8_eq (s : List Char) : utf8 s = s.utf8Encode.data.toList.map UInt8.toBitVec := by
  rw [utf8, List.utf8Encode, List.toList_data_toByteArray]

/-- The bytes of a string decode to it. -/
lemma utf8Decode_utf8 (s : List Char) : utf8Decode (utf8 s) = some s := by
  have hbytes : ByteArray.mk ((utf8 s).map UInt8.ofBitVec).toArray = s.utf8Encode := by
    rw [utf8_eq, List.map_map]
    have hid : UInt8.ofBitVec ∘ UInt8.toBitVec = id := rfl
    rw [hid, List.map_id]
  rw [utf8Decode, hbytes, List.utf8Decode?_utf8Encode]
  rfl

/-- A string has one encoding only. -/
lemma utf8_of_utf8Decode {b : List Byte} {s : List Char} (h : utf8Decode b = some s) :
    utf8 s = b := by
  unfold utf8Decode at h
  obtain ⟨chars, hchars, rfl⟩ := Option.map_eq_some_iff.mp h
  set bytes := ByteArray.mk (b.map UInt8.ofBitVec).toArray with hbytes
  have hsome : bytes.utf8Decode?.isSome := by
    rw [hchars]
    rfl
  have henc := ByteArray.utf8Encode_get_utf8Decode? (h := hsome)
  rw [Option.get_of_eq_some hsome hchars] at henc
  rw [utf8_eq, henc, hbytes, List.map_map]
  have hid : UInt8.toBitVec ∘ UInt8.ofBitVec = id := rfl
  rw [hid, List.map_id]

end EspIdf.Lib
