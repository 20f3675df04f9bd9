/-
# Received datagrams

A datagram comes as a chain of buffers, of which the first two are copied into a message that is
large enough for all of them and for the fields of the header.  The options are read through memory
from the message on, and their length is what is left of the datagram behind the magic cookie.
-/
import EspIdf.Dhcps.Server
import EspIdf.Lib.Nor
import EspIdf.Lib.Signed

namespace EspIdf.Dhcps

open Lib

/-- The chain of a `struct pbuf`; `tot_len` is a `u16_t`. -/
structure Datagram where
  payload : List Byte
  next : Option (List Byte)
  others : List (List Byte)
  totLen_lt : payload.length + (next.getD []).length + others.flatten.length < 2 ^ 16

/-- All bytes of the datagram. -/
def Datagram.bytes (d : Datagram) : List Byte := d.payload ++ d.next.getD [] ++ d.others.flatten

/-- `tot_len`. -/
def Datagram.totLen (d : Datagram) : ℕ := d.bytes.length

/-- The bytes that are copied: those of the first buffer and of the one behind it. -/
def Datagram.copied (d : Datagram) : List Byte := d.payload ++ d.next.getD []

/-- `sizeof(struct dhcps_msg)`. -/
def sizeofDhcpsMsg : ℕ := 548

/-- `malloc_len`, an `s16_t`. -/
def Datagram.mallocLen (d : Datagram) : ℤ :=
  if sizeofDhcpsMsg < d.totLen then int16 d.totLen else sizeofDhcpsMsg

/-- The memory from the message on, with what stands behind it. -/
def Datagram.memory (d : Datagram) (beyond : ℕ → Byte) (i : ℕ) : Byte :=
  if (i : ℤ) < d.mallocLen then d.copied.getD i 0 else beyond i

/-- The length that `parse_options` is given: `tlen - 240` goes through a `u16_t`. -/
def Datagram.optionsLen (d : Datagram) : ℤ := int16 ((int16 d.totLen - 240) % 2 ^ 16)

/-- The message that `handle_dhcp` passes to `parse_msg`, if there is memory for it: there is none
for a length that is negative. -/
def Datagram.msg (d : Datagram) (beyond : ℕ → Byte) : Option Msg :=
  let mem := d.memory beyond
  if d.mallocLen < 0 then none
  else some
    { chaddr := mem 28 ++ mem 29 ++ mem 30 ++ mem 31 ++ mem 32 ++ mem 33
      ciaddr := word mem 12
      options := fun i => mem (236 + i)
      len := d.optionsLen }

/-- The memory that `parse_options` goes through, behind the magic cookie. -/
def Msg.opt (m : Msg) (i : ℕ) : Byte := m.options (4 + i)

variable {d : Datagram} {beyond : ℕ → Byte} {m : Msg}

/-- A datagram with a message is not too long for its length. -/
lemma Datagram.totLen_of_msg (h : d.msg beyond = some m) : d.totLen < 2 ^ 15 := by
  have hlt : d.totLen < 2 ^ 16 := by
    have hall := d.totLen_lt
    rw [Datagram.totLen, Datagram.bytes, List.length_append, List.length_append]
    exact hall
  by_contra hge
  have hneg : d.mallocLen < 0 := by
    rw [Datagram.mallocLen, if_pos (by unfold sizeofDhcpsMsg; omega), int16]
    omega
  rw [Datagram.msg] at h
  rw [if_pos hneg] at h
  cases h

/-- There is memory for a datagram that is not. -/
lemma Datagram.exists_msg (h : d.totLen < 2 ^ 15) (beyond : ℕ → Byte) :
    ∃ m, d.msg beyond = some m := by
  have hnot : ¬ d.mallocLen < 0 := by
    rw [Datagram.mallocLen]
    split
    · rw [int16_of_mem (by omega) (by omega)]
      omega
    · unfold sizeofDhcpsMsg
      omega
  exact ⟨_, if_neg hnot⟩

/-- The options end where the datagram ends. -/
lemma Datagram.len_of_msg (h : d.msg beyond = some m) : m.len = d.totLen - 240 := by
  have hlt := d.totLen_of_msg h
  rw [Datagram.msg] at h
  split at h
  · cases h
  · cases h
    have htot : int16 d.totLen = d.totLen := int16_of_mem (by omega) (by omega)
    dsimp only
    rw [Datagram.optionsLen, int16_emod, htot, int16_of_mem (by omega) (by omega)]

/-- What has been copied is found in the options. -/
lemma Datagram.opt_of_msg (h : d.msg beyond = some m) {i : ℕ} {b : Byte}
    (hb : (d.copied.drop 240)[i]? = some b) : m.opt i = b := by
  have hlt := d.totLen_of_msg h
  obtain ⟨hi, hget⟩ := List.getElem?_eq_some_iff.1 (List.getElem?_drop ▸ hb)
  have hle : d.copied.length ≤ d.totLen := by
    rw [Datagram.totLen, Datagram.bytes, Datagram.copied]
    exact (List.sublist_append_left _ _).length_le
  have hmalloc : ((236 + (4 + i) : ℕ) : ℤ) < d.mallocLen := by
    rw [Datagram.mallocLen]
    split
    · rw [int16_of_mem (by omega) (by omega)]
      omega
    · next hshort =>
      unfold sizeofDhcpsMsg at hshort ⊢
      omega
  rw [Datagram.msg] at h
  split at h
  · cases h
  · cases h
    rw [Msg.opt]
    dsimp only
    rw [Datagram.memory, if_pos hmalloc, show 236 + (4 + i) = 240 + i by omega,
      List.getD_eq_getElem?_getD, List.getElem?_eq_getElem hi, hget, Option.getD_some]

end EspIdf.Dhcps
