/-
# Histories

A buffer of any type over a whole history of sends, receives and returns.  Consumers may hold
several items of a no-split or allow-split buffer at once; a byte buffer hands out one piece at
a time.
-/
import EspIdf.RingBuffer.Bytes
import EspIdf.RingBuffer.Held

namespace EspIdf.RingBuffer.History

open EspIdf.Lib
open EspIdf.RingBuffer.Held (World hold)

/-! ### Runs -/

/-- What tasks do with the buffer. -/
inductive Op where
  | call (op : Held.Op)
  | receiveUpTo (xMaxSize : ℕ)
deriving DecidableEq, Repr

/-- One operation.  `xRingbufferReceiveUpTo` is only called on byte buffers. -/
def step (w : World) : Op → Except Stop World
  | .call op => Held.step w op
  | .receiveUpTo xMaxSize =>
    if w.rb.type = .byteBuf then
      match xRingbufferReceiveUpTo xMaxSize w.rb with
      | (.ok none, rb) => .ok { w with rb := rb }
      | (.ok (some r), rb) => .ok ⟨rb, w.held ++ [hold rb.mem r]⟩
      | (.error e, _) => .error e
    else
      .ok w

/-- A sequence of operations. -/
def run : World → List Op → Except Stop World := List.foldlM step

/-- No item is returned while the buffer is full, everything in it has been retrieved and
another item is held. -/
def Safe (w : World) : Op → Prop
  | .call op => Held.Safe w op
  | .receiveUpTo _ => True

instance (w : World) : (op : Op) → Decidable (Safe w op)
  | .call op => inferInstanceAs (Decidable (Held.Safe w op))
  | .receiveUpTo _ => isTrue trivial

/-- Every operation of a run is safe in the state in which it is made. -/
def SafeRun : World → List Op → Prop
  | _, [] => True
  | w, op :: ops => Safe w op ∧
    match step w op with
    | .ok w' => SafeRun w' ops
    | .error _ => True

instance decidableSafeRun : (w : World) → (ops : List Op) → Decidable (SafeRun w ops)
  | _, [] => isTrue trivial
  | w, op :: ops =>
    @instDecidableAnd _ _ inferInstance
      (match step w op with
      | .ok w' => decidableSafeRun w' ops
      | .error _ => isTrue trivial)

/-! ### The invariant -/

/-- The piece of a byte buffer that is held lies between the free and the read pointer. -/
def HoldsPiece (rb : Ringbuffer) (f r : ℕ) (held : List (ℕ × List Byte)) : Prop :=
  held = [] ∧ r = f ∨ f < r ∧ ∃ bs, held = [(rb.place f, bs)]

def ByteInv (w : World) : Prop :=
  ∃ f r a unread, ByteQueue w.rb f r a unread ∧ 0 < w.rb.pucHead ∧ HoldsPiece w.rb f r w.held

/-- The invariant of a buffer of any type. -/
def Inv (w : World) : Prop :=
  match w.rb.type with
  | .byteBuf => ByteInv w
  | _ => Held.Inv w

section Pieces

variable {w : World} {rb rb' : Ringbuffer} {f r a : ℕ} {bs : List Byte}

lemma HoldsPiece.congr (hs : SameStorage rb' rb) {held : List (ℕ × List Byte)}
    (h : HoldsPiece rb f r held) : HoldsPiece rb' f r held := by
  rw [HoldsPiece, hs.place]
  exact h

/-- Nothing is retrieved while a piece is held: either the pointers differ, or the whole ring
has been retrieved. -/
lemma receiveOne_held (h : ByteQueue rb f r a bs) (hlt : f < r) (xMaxSize : ℕ) :
    receiveOne xMaxSize rb = (.ok none, rb) := by
  have hlen := h.length_eq
  have hround := h.round
  have hmod := Ring.mod_eq_mod_iff h.storage.size_pos (p := f) (q := r) (by omega) (by omega)
  have hno : rb.prvCheckItemAvail = false := by
    rw [Ringbuffer.prvCheckItemAvail]
    split_ifs with hc
    · rfl
    · have heq : rb.pucRead = rb.pucFree := by
        by_contra hne
        exact hc ⟨h.storage.type_eq, hne⟩
      rw [h.read_eq, h.free_eq, Ringbuffer.place, Ringbuffer.place] at heq
      rw [Ringbuffer.itemsToRead, h.waiting, show bs.length = 0 by omega]
      rfl
  rw [receiveOne, Prog.get_bind, hno]
  rfl

/-- Retrieving a piece. -/
lemma byte_receive (h : ByteInv w) (xMaxSize : ℕ) :
    receiveOne xMaxSize w.rb = (.ok none, w.rb) ∨
      ∃ rb' x, receiveOne xMaxSize w.rb = (.ok (some x), rb') ∧
        ByteInv ⟨rb', w.held ++ [hold rb'.mem x]⟩ ∧ SameStorage rb' w.rb := by
  obtain ⟨f, r, a, unread, hq, hhead, hheld⟩ := h
  rcases hheld with ⟨hnil, rfl⟩ | ⟨hlt, _⟩
  · rcases hq.receive xMaxSize with ⟨_, h1⟩ | ⟨rb', n, h1, hq', hs, _, hpos, _⟩
    · exact .inl h1
    · refine .inr ⟨rb', _, h1,
        ⟨r, r + n, a, _, hq', ?_, .inr ⟨by omega, rb'.mem.read (w.rb.place r) n, ?_⟩⟩, hs⟩
      · rw [hs.head]
        exact hhead
      · rw [hnil, hs.place]
        rfl
  · exact .inl (receiveOne_held hq hlt xMaxSize)

/-- Every operation on a byte buffer keeps the invariant. -/
lemma byte_step (h : ByteInv w) (op : Op) :
    ∃ w', step w op = .ok w' ∧ ByteInv w' ∧ SameStorage w'.rb w.rb := by
  have hty : w.rb.type = .byteBuf := by
    obtain ⟨_, _, _, _, hq, _⟩ := h
    exact hq.storage.type_eq
  cases op with
  | call op =>
    cases op with
    | send item =>
      obtain ⟨f, r, a, unread, hq, hhead, hheld⟩ := h
      rcases hq.send item with ⟨h1, _⟩ | ⟨rb', h1, hq', hs, _⟩
      · exact ⟨w, by rw [step, Held.step, h1], ⟨f, r, a, unread, hq, hhead, hheld⟩, .refl _⟩
      · refine ⟨_, by rw [step, Held.step, h1], ⟨f, r, _, _, hq', ?_, hheld.congr hs⟩, hs⟩
        rw [hs.head]
        exact hhead
    | receive =>
      rcases byte_receive h 0 with h1 | ⟨rb', x, h1, h2, hs⟩
      · exact ⟨w, by rw [step, Held.step, xRingbufferReceive, h1], h, .refl _⟩
      · exact ⟨_, by rw [step, Held.step, xRingbufferReceive, h1], h2, hs⟩
    | receiveSplit =>
      exact ⟨w, by rw [step, Held.step, if_neg (by simp [hty])], h, .refl _⟩
    | giveBack i =>
      cases hi : w.held[i]? with
      | none => exact ⟨w, by rw [step, Held.step, hi], h, .refl _⟩
      | some item =>
        obtain ⟨f, r, a, unread, hq, hhead, ⟨hnil, _⟩ | ⟨hlt, bs, hheld⟩⟩ := h
        · simp [hnil] at hi
        · obtain rfl : item = (w.rb.place f, bs) := by
            rw [hheld] at hi
            exact List.mem_singleton.mp (List.mem_of_getElem? hi)
          obtain ⟨rb', h1, hq', hs⟩ := hq.giveBack hlt hhead f
          have hstep : step w (.call (.giveBack i)) =
              .ok ⟨rb', w.held.filter fun other => other.1 != w.rb.place f⟩ := by
            rw [step, Held.step, hi]
            simp only [h1]
          refine ⟨_, hstep, ?_, hs⟩
          refine ⟨r, r, a, unread, hq', ?_, .inl ⟨?_, rfl⟩⟩
          · rw [hs.head]
            exact hhead
          · simp [hheld]
  | receiveUpTo xMaxSize =>
    have hcall : xRingbufferReceiveUpTo xMaxSize w.rb =
        if xMaxSize = 0 then (.ok none, w.rb) else receiveOne xMaxSize w.rb := by
      rw [xRingbufferReceiveUpTo, Prog.get_bind,
        Prog.bind_ok (configAssert_true (decide_eq_true hty) w.rb)]
      split_ifs <;> rfl
    by_cases hz : xMaxSize = 0
    · rw [if_pos hz] at hcall
      exact ⟨w, by rw [step, if_pos hty, hcall], h, .refl _⟩
    · rw [if_neg hz] at hcall
      rcases byte_receive h xMaxSize with h1 | ⟨rb', x, h1, h2, hs⟩
      · exact ⟨w, by rw [step, if_pos hty, hcall, h1], h, .refl _⟩
      · exact ⟨_, by rw [step, if_pos hty, hcall, h1], h2, hs⟩

end Pieces

/-! ### Every run -/

section Runs

variable {w : World}

lemma inv_items (htype : w.rb.type ≠ .byteBuf) : Inv w ↔ Held.Inv w := by
  rw [Inv]
  split
  · exact absurd ‹_› htype
  · rfl

lemma inv_bytes (htype : w.rb.type = .byteBuf) : Inv w ↔ ByteInv w := by
  rw [Inv, htype]

/-- Every safe operation keeps the invariant and stays in the storage. -/
lemma step_inv (h : Inv w) {op : Op} (hsafe : Safe w op) :
    ∃ w', step w op = .ok w' ∧ Inv w' ∧ SameStorage w'.rb w.rb := by
  by_cases htype : w.rb.type = .byteBuf
  · obtain ⟨w', h1, h2, hs⟩ := byte_step ((inv_bytes htype).mp h) op
    exact ⟨w', h1, (inv_bytes (hs.type.trans htype)).mpr h2, hs⟩
  · cases op with
    | call op =>
      obtain ⟨w', h1, h2, hs⟩ := Held.step_inv ((inv_items htype).mp h) hsafe
      exact ⟨w', h1, (inv_items (by rw [hs.type]; exact htype)).mpr h2, hs⟩
    | receiveUpTo xMaxSize => exact ⟨w, by rw [step, if_neg htype], h, .refl _⟩

/-- Every safe run keeps the invariant and stays in the storage. -/
lemma run_inv (h : Inv w) {ops : List Op} (hsafe : SafeRun w ops) :
    ∃ w', run w ops = .ok w' ∧ Inv w' ∧ SameStorage w'.rb w.rb := by
  induction ops generalizing w with
  | nil => exact ⟨w, rfl, h, .refl _⟩
  | cons op ops ih =>
    obtain ⟨hop, hrest⟩ := hsafe
    obtain ⟨w₁, h1, hinv, hs₁⟩ := step_inv h hop
    rw [h1] at hrest
    obtain ⟨w', h2, hinv', hs'⟩ := ih hinv hrest
    exact ⟨w', by rw [run, List.foldlM_cons, h1]; exact h2, hinv', hs'.trans hs₁⟩

end Runs

/-! ### A new buffer -/

/-- The bytes that `xRingbufferCreate` asks for. -/
def storageSize (type : RingbufferType) (xBufferSize : ℕ) : ℕ :=
  if type ≠ .byteBuf then rbAlignSize xBufferSize else xBufferSize

/-- `malloc` has found storage for a buffer: an aligned object of the 32-bit address space.
There is none of no bytes or of more than `HEAP_SIZE_MAX`. -/
structure Allocated (type : RingbufferType) (xBufferSize storage : ℕ) : Prop where
  size_lt : xBufferSize < 2 ^ 32
  addr_pos : 0 < storage
  aligned : storage % 4 = 0
  pos : 0 < storageSize type xBufferSize
  max : storageSize type xBufferSize < 2 ^ 31
  fits : storage + storageSize type xBufferSize < 2 ^ 32

/-- A buffer of this size has room for an item. -/
def HasRoom (xBufferSize : ℕ) : RingbufferType → Prop
  | .noSplit => 9 ≤ xBufferSize
  | .allowSplit => 13 ≤ xBufferSize
  | .byteBuf => 0 < xBufferSize

instance (xBufferSize : ℕ) : (type : RingbufferType) → Decidable (HasRoom xBufferSize type)
  | .noSplit => inferInstanceAs (Decidable (9 ≤ _))
  | .allowSplit => inferInstanceAs (Decidable (13 ≤ _))
  | .byteBuf => inferInstanceAs (Decidable (0 < _))

lemma hasRoom_of_le {xBufferSize : ℕ} {type : RingbufferType} (h : 16 ≤ xBufferSize) :
    HasRoom xBufferSize type := by
  cases type <;> simp only [HasRoom] <;> omega

/-- A buffer right after `xRingbufferCreate`. -/
def start (mem : Mem) (xBufferSize : ℕ) (type : RingbufferType) (storage : ℕ) : World :=
  ⟨xRingbufferCreate mem xBufferSize type storage, []⟩

section Start

variable {mem : Mem} {size storage : ℕ} {type : RingbufferType}

lemma Allocated.storageSize_eq (h : Allocated type size storage) (htype : type ≠ .byteBuf) :
    storageSize type size = alignUp size := by
  have hpos := h.pos
  have hlt := h.size_lt
  rw [storageSize, if_pos htype] at hpos ⊢
  by_cases hwrap : size + 3 < 2 ^ 32
  · exact rbAlignSize_eq hwrap
  · -- the size wraps around to zero
    rw [rbAlignSize, u32] at hpos
    omega

lemma start_inv (h : Allocated type size storage) (hroom : HasRoom size type) :
    Inv (start mem size type storage) := by
  by_cases htype : type = .byteBuf
  · subst htype
    have hmax := h.max
    have hfits := h.fits
    rw [storageSize, if_neg (by simp)] at hmax hfits
    exact ⟨0, 0, 0, [], create_byteQueue hroom hfits hmax, h.addr_pos, .inl ⟨rfl, rfl⟩⟩
  · have hmax := h.max
    have hfits := h.fits
    rw [h.storageSize_eq htype] at hmax hfits
    refine (inv_items htype).mpr ⟨_, [], [], create_queue ?_ ?_ h.aligned hfits hmax htype, rfl,
      fun _ => rfl⟩
    · cases type with
      | noSplit => exact hroom
      | allowSplit => exact Nat.le_trans (by decide) hroom
      | byteBuf => exact absurd rfl htype
    · rintro rfl
      exact hroom

end Start

end EspIdf.RingBuffer.History
