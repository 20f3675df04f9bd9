/-
# Writes stay in the storage

Headers and data are only written between the head and the tail of the storage, provided the
buffer has room for an item at all: below that, the size of the largest item wraps around.
-/
import EspIdf.RingBuffer.Histories

namespace EspIdf.RingBuffer.History

open EspIdf.Lib

/-- The buffer in its `n` bytes of storage: the memory `mem` around them is as it was when the
buffer was created, and no item is accepted that is longer than the storage. -/
structure InBounds (mem : Mem) (storage n : ℕ) (rb : Ringbuffer) : Prop where
  head_eq : rb.pucHead = storage
  tail_eq : rb.pucTail = storage + n
  outside : ∀ x, x < storage ∨ storage + n ≤ x → rb.mem x = mem x
  max_le : rb.xMaxItemSize ≤ n

section

variable {mem : Mem} {size storage : ℕ} {type : RingbufferType} {rb : Ringbuffer}

/-- A buffer with the invariant does not accept an item longer than its storage. -/
lemma Inv.max_le {w : Held.World} (h : Inv w) : w.rb.xMaxItemSize ≤ w.rb.xSize := by
  by_cases htype : w.rb.type = .byteBuf
  · obtain ⟨_, _, _, _, hq, _⟩ := (inv_bytes htype).mp h
    exact hq.storage.max_eq.le
  · obtain ⟨_, _, _, hq, _⟩ := (inv_items htype).mp h
    have := hq.layout.storage.max_lt
    omega

lemma start_max_le (h : Allocated type size storage) :
    (start mem size type storage).rb.xMaxItemSize ≤ storageSize type size ↔
      HasRoom size type := by
  constructor
  · intro hle
    by_contra hroom
    have hpos := h.pos
    have hmax : maxItemSize (storageSize type size) type ≤ storageSize type size := hle
    cases type with
    | byteBuf => exact hroom hpos
    | noSplit =>
      have hn := h.storageSize_eq (by decide)
      rw [hn, alignUp] at hmax hpos
      have hsmall : size < 9 := Nat.lt_of_not_le hroom
      obtain h4 | h8 : (size + 3) / 4 * 4 = 4 ∨ (size + 3) / 4 * 4 = 8 := by omega
      · rw [h4] at hmax
        exact absurd hmax (by decide)
      · rw [h8] at hmax
        exact absurd hmax (by decide)
    | allowSplit =>
      have hn := h.storageSize_eq (by decide)
      rw [hn, alignUp] at hmax hpos
      have hsmall : size < 13 := Nat.lt_of_not_le hroom
      obtain h4 | h8 | h12 : (size + 3) / 4 * 4 = 4 ∨ (size + 3) / 4 * 4 = 8 ∨
        (size + 3) / 4 * 4 = 12 := by omega
      · rw [h4] at hmax
        exact absurd hmax (by decide)
      · rw [h8] at hmax
        exact absurd hmax (by decide)
      · rw [h12] at hmax
        exact absurd hmax (by decide)
  · exact fun hroom => (start_inv h hroom).max_le

/-- What keeps the storage of a new buffer stays in it. -/
lemma InBounds.of_same (h : Allocated type size storage) (hroom : HasRoom size type)
    (hs : SameStorage rb (start mem size type storage).rb) :
    InBounds mem storage (storageSize type size) rb where
  head_eq := hs.head
  tail_eq := hs.tail
  outside := hs.outside
  max_le := by
    rw [hs.max]
    exact (start_max_le h).mpr hroom

/-- Whatever surrounds the storage, nothing is written outside it in any run in which no item
is returned while the buffer is full, everything in it has been retrieved and another item is
held: exactly when the buffer has room for an item. -/
theorem in_bounds_iff_hasRoom (h : Allocated type size storage) :
    (∀ mem ops, SafeRun (start mem size type storage) ops →
      ∃ w, run (start mem size type storage) ops = .ok w ∧
        InBounds mem storage (storageSize type size) w.rb) ↔ HasRoom size type := by
  constructor
  · intro hall
    obtain ⟨w, h1, hw⟩ := hall (fun _ => 0#8) [] trivial
    obtain rfl : start (fun _ => 0#8) size type storage = w := Except.ok.inj h1
    exact (start_max_le h).mp hw.max_le
  · intro hroom mem ops hsafe
    obtain ⟨w, h1, _, hs⟩ := run_inv (start_inv h hroom) hsafe
    exact ⟨w, h1, .of_same h hroom hs⟩

end

/-- A no-split buffer of 9 bytes stays in its storage. -/
theorem in_bounds_nine :
    HasRoom 9 .noSplit ∧ ∀ mem ops, SafeRun (start mem 9 .noSplit 0x3ffb0000) ops →
      ∃ w, run (start mem 9 .noSplit 0x3ffb0000) ops = .ok w ∧
        InBounds mem 0x3ffb0000 (storageSize .noSplit 9) w.rb :=
  have h : Allocated .noSplit 9 0x3ffb0000 := by constructor <;> decide
  ⟨by decide, (in_bounds_iff_hasRoom h).mpr (by decide)⟩

/-- A no-split buffer of 8 bytes accepts items of up to 2 ^ 32 - 4 bytes, and the data of an
item of 4 bytes is stored behind the storage. -/
theorem eight_bytes_overrun :
    Allocated .noSplit 8 0x3ffb0000 ∧
      (start (fun _ => 0#8) 8 .noSplit 0x3ffb0000).rb.pucTail = 0x3ffb0008 ∧
      (start (fun _ => 0#8) 8 .noSplit 0x3ffb0000).rb.xMaxItemSize = 2 ^ 32 - 4 ∧
      (xRingbufferSend [1, 2, 3, 4]
        (start (fun _ => 0#8) 8 .noSplit 0x3ffb0000).rb).2.mem.read 0x3ffb0008 4 = [1, 2, 3, 4] :=
  ⟨by constructor <;> decide, by decide, by decide, by decide +kernel⟩

end EspIdf.RingBuffer.History
