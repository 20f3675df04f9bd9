/-
# Appending to a packet

A packet is built in a buffer of `MDNS_MAX_PACKET_SIZE` bytes, of which those before the index have
been written.
-/
import EspIdf.Mdns.Fqdn

namespace EspIdf.Mdns

open Lib

/-- `MDNS_MAX_PACKET_SIZE`. -/
def maxPacketSize : ℕ := 1460

/-- The buffer and the index. -/
structure Out where
  packet : List Byte
  index : ℕ

/-- Replace the bytes of a list from `i` on. -/
def putBytes (packet : List Byte) (i : ℕ) (bytes : List Byte) : List Byte :=
  packet.take i ++ bytes ++ packet.drop (i + bytes.length)

/-- `_mdns_append_u8`. -/
def appendU8 (o : Out) (value : Byte) : ℕ × Out :=
  if o.index ≥ maxPacketSize then (0, o)
  else (1, ⟨putBytes o.packet o.index [value], o.index + 1⟩)

/-- `_mdns_append_u16`. -/
def appendU16 (o : Out) (value : ℕ) : ℕ × Out :=
  if o.index + 1 ≥ maxPacketSize then (0, o)
  else
    (2, (appendU8 (appendU8 o (BitVec.ofNat 8 (value >>> 8))).2 (BitVec.ofNat 8 value)).2)

/-- `_mdns_append_string`: the length is a `uint8_t`. -/
def appendString (o : Out) (string : List Byte) : ℕ × Out :=
  let len := string.length % 256
  if o.index + len + 1 ≥ maxPacketSize then (0, o)
  else
    let o := (appendU8 o (BitVec.ofNat 8 len)).2
    ((len + 1) % 256, ⟨putBytes o.packet o.index (string.take len), o.index + len⟩)

/-! ### What is in the buffer -/

variable {packet bytes : List Byte} {i : ℕ} {o : Out}

/-- A label with its length in front. -/
def labelBytes (string : List Byte) : List Byte := BitVec.ofNat 8 string.length :: string

lemma length_putBytes (h : i + bytes.length ≤ packet.length) :
    (putBytes packet i bytes).length = packet.length := by
  simp only [putBytes, List.length_append, List.length_take, List.length_drop]
  omega

lemma take_putBytes (h : i ≤ packet.length) : (putBytes packet i bytes).take i = packet.take i := by
  rw [putBytes, List.append_assoc, List.take_append_of_le_length (by rw [List.length_take]; omega),
    List.take_take, Nat.min_self]

lemma drop_putBytes (bytes : List Byte) (h : i ≤ packet.length) :
    (putBytes packet i bytes).drop i = bytes ++ packet.drop (i + bytes.length) := by
  have hlen : (packet.take i).length = i := by
    rw [List.length_take]
    omega
  rw [putBytes, List.append_assoc]
  exact List.drop_left' hlen

/-- What is put behind what has been put. -/
lemma putBytes_putBytes (more : List Byte) (h : i + bytes.length ≤ packet.length) :
    putBytes (putBytes packet i bytes) (i + bytes.length) more =
      putBytes packet i (bytes ++ more) := by
  have hlen : (packet.take i ++ bytes).length = i + bytes.length := by
    rw [List.length_append, List.length_take]
    omega
  have htake : (packet.take i ++ bytes ++ packet.drop (i + bytes.length)).take (i + bytes.length) =
      packet.take i ++ bytes := by
    rw [← hlen, List.take_left]
  have hdrop : (packet.take i ++ bytes ++ packet.drop (i + bytes.length)).drop
      (i + bytes.length + more.length) = packet.drop (i + (bytes ++ more).length) := by
    rw [← hlen, ← List.drop_drop, List.drop_left, List.drop_drop, hlen, List.length_append,
      Nat.add_assoc]
  rw [putBytes, putBytes, htake, hdrop, putBytes, List.append_assoc (packet.take i)]

lemma appendU8_eq (h : o.index < maxPacketSize) (value : Byte) :
    appendU8 o value = (1, ⟨putBytes o.packet o.index [value], o.index + 1⟩) := if_neg (by omega)

lemma appendU16_eq (h : o.index + 1 < maxPacketSize) (hlen : o.packet.length = maxPacketSize)
    (value : ℕ) :
    appendU16 o value = (2, ⟨putBytes o.packet o.index
      [BitVec.ofNat 8 (value >>> 8), BitVec.ofNat 8 value], o.index + 2⟩) := by
  rw [appendU16, if_neg (by omega), appendU8_eq (show o.index < maxPacketSize by omega)]
  dsimp only
  rw [appendU8_eq (by dsimp only; omega)]
  dsimp only
  rw [show o.index + 1 = o.index + [BitVec.ofNat 8 (value >>> 8)].length from rfl,
    putBytes_putBytes _ (by simp; omega)]
  rfl

/-- A label is put with its length in front of it, if it fits. -/
lemma appendString_eq (hlen : o.packet.length = maxPacketSize) {string : List Byte}
    (h63 : string.length ≤ 63) :
    appendString o string =
      if o.index + string.length + 1 ≥ maxPacketSize then (0, o)
      else (string.length + 1, ⟨putBytes o.packet o.index (labelBytes string),
        o.index + (string.length + 1)⟩) := by
  rw [appendString, Nat.mod_eq_of_lt (show string.length < 256 by omega)]
  split
  · rfl
  · next h =>
    rw [appendU8_eq (by omega)]
    dsimp only
    rw [List.take_length,
      show o.index + 1 = o.index + [BitVec.ofNat 8 string.length].length from rfl,
      putBytes_putBytes _ (by simp; omega), Nat.mod_eq_of_lt (by omega)]
    simp only [labelBytes, List.singleton_append, List.length_singleton]
    congr 2
    omega

/-- A label that stands in a packet is taken as it was put. -/
lemma readFqdn_labelBytes {start index : ℕ} {string rest : List Byte} (hpos : string ≠ [])
    (h63 : string.length ≤ 63) (h : packet.drop (start + index) = labelBytes string ++ rest)
    (r : Reader) :
    readFqdn packet start index r =
      readFqdn packet start (index + (string.length + 1)) (r.check.take string) := by
  have hlen : (BitVec.ofNat 8 string.length).toNat = string.length := by
    rw [BitVec.toNat_ofNat, Nat.mod_eq_of_lt (by omega)]
  have hget : packet[start + index]? = some (BitVec.ofNat 8 string.length) := by
    rw [← List.head?_drop, h]
    rfl
  have htail : packet.drop (start + index + 1) = string ++ rest := by
    rw [← List.drop_drop, h]
    rfl
  have hfits : string.length ≤ packet.length - (start + index + 1) := by
    rw [← List.length_drop, htail, List.length_append]
    omega
  have hpos' := List.length_pos_iff.2 hpos
  rw [readFqdn_label hget (by omega) (by omega) (by omega), hlen, htail, List.take_left,
    Nat.add_assoc, Nat.add_comm 1]

end EspIdf.Mdns
