/-
# Items in a ring buffer

The layout of a no-split or allow-split buffer: the cells between the free pointer and the
read pointer are held by consumers or have been returned out of order, those up to the write
pointer are ready to be read, and those up to the acquire pointer are pending.  A new cell is
laid behind the acquire pointer when the fit check of the code has accepted it.
-/
import EspIdf.RingBuffer.Layout

namespace EspIdf.RingBuffer

open EspIdf.Lib

/-- The positions of the four pointers. -/
structure Marks where
  free : ℕ
  read : ℕ
  write : ℕ
  acquire : ℕ

/-- The cells of a buffer. -/
structure Layout (rb : Ringbuffer) (k : Marks) (held ready pending : List Cell) : Prop where
  storage : Storage rb
  held_chain : CellChain k.free held k.read
  ready_chain : CellChain k.read ready k.write
  pending_chain : CellChain k.write pending k.acquire
  round : k.acquire ≤ k.free + rb.xSize
  free_eq : rb.pucFree = rb.place k.free
  read_eq : rb.pucRead = rb.place k.read
  write_eq : rb.pucWrite = rb.place k.write
  acquire_eq : rb.pucAcquire = rb.place k.acquire
  full_eq : rb.bufferFull = decide (k.acquire = k.free + rb.xSize)
  room : k.acquire % rb.xSize % 4 = 0 ∧ k.acquire % rb.xSize + 8 ≤ rb.xSize
  stored : ∀ c ∈ held ++ ready ++ pending, Stored rb c

namespace Layout

variable {rb rb' : Ringbuffer} {k : Marks} {H R P : List Cell} {c : Cell}

lemma all_chain (h : Layout rb k H R P) : CellChain k.free (H ++ R ++ P) k.acquire :=
  Ring.chain_append.mpr
    ⟨k.write, Ring.chain_append.mpr ⟨k.read, h.held_chain, h.ready_chain⟩, h.pending_chain⟩

lemma order (h : Layout rb k H R P) :
    k.free ≤ k.read ∧ k.read ≤ k.write ∧ k.write ≤ k.acquire :=
  ⟨Ring.chain_le h.held_chain, Ring.chain_le h.ready_chain, Ring.chain_le h.pending_chain⟩

lemma apart (h : Layout rb k H R P) : (H ++ R ++ P).Pairwise (Cell.Apart rb.xSize) :=
  apart_of_chain h.storage.size_pos h.all_chain h.round fun c hc => (h.stored c hc).lies

/-- A header can stand at the start of every chain of cells that ends before the acquire
pointer. -/
lemma room_of_chain {n p q : ℕ} {cs : List Cell} (hc : CellChain p cs q)
    (hl : ∀ c ∈ cs, c.Lies n) (hq : q % n % 4 = 0 ∧ q % n + 8 ≤ n) :
    p % n % 4 = 0 ∧ p % n + 8 ≤ n := by
  cases cs with
  | nil =>
    obtain rfl : p = q := hc
    exact hq
  | cons c cs =>
    obtain ⟨rfl, _⟩ := hc
    have hc := hl c List.mem_cons_self
    have := hc.span_ge
    have := hc.within
    exact ⟨hc.aligned, by omega⟩

lemma lies (h : Layout rb k H R P) : ∀ c ∈ H ++ R ++ P, c.Lies rb.xSize :=
  fun c hc => (h.stored c hc).lies

lemma free_room (h : Layout rb k H R P) :
    k.free % rb.xSize % 4 = 0 ∧ k.free % rb.xSize + 8 ≤ rb.xSize :=
  room_of_chain h.all_chain h.lies h.room

lemma write_room (h : Layout rb k H R P) :
    k.write % rb.xSize % 4 = 0 ∧ k.write % rb.xSize + 8 ≤ rb.xSize :=
  room_of_chain h.pending_chain (fun c hc => h.lies c (List.mem_append_right _ hc)) h.room

lemma read_room (h : Layout rb k H R P) :
    k.read % rb.xSize % 4 = 0 ∧ k.read % rb.xSize + 8 ≤ rb.xSize :=
  room_of_chain h.ready_chain
    (fun c hc => h.lies c (List.mem_append_left _ (List.mem_append_right _ hc))) h.write_room

/-- The number of cells of a stretch is bounded by its length. -/
lemma length_le {n p q : ℕ} {cs : List Cell} (hc : CellChain p cs q)
    (hl : ∀ c ∈ cs, c.Lies n) : cs.length ≤ q - p := by
  induction cs generalizing p with
  | nil => simp
  | cons c cs ih =>
    have h1 := ih hc.2 fun c hc => hl c (List.mem_cons_of_mem _ hc)
    have h2 := (hl c List.mem_cons_self).span_ge
    have h3 := Ring.chain_le hc.2
    rw [List.length_cons]
    omega

/-- When everything is pending, the pending cells can be taken for ready ones. -/
lemma promote (h : Layout rb k H R P) (hw : rb.pucWrite = rb.place k.acquire) :
    Layout rb { k with write := k.acquire } H (R ++ P) [] := by
  refine { h with ready_chain := ?_, pending_chain := rfl, write_eq := hw, stored := ?_ }
  · exact Ring.chain_append.mpr ⟨k.write, h.ready_chain, h.pending_chain⟩
  · intro c hc
    apply h.stored c
    simpa only [List.append_nil, List.append_assoc] using hc

/-- The number of waiting items is no part of the layout. -/
lemma with_waiting (h : Layout rb k H R P) (w : ℤ) :
    Layout { rb with xItemsWaiting := w } k H R P := by
  have hs : SameStorage { rb with xItemsWaiting := w } rb :=
    ⟨rfl, rfl, rfl, rfl, rfl, fun _ _ => rfl⟩
  exact ⟨hs.storage h.storage, h.held_chain, h.ready_chain, h.pending_chain, h.round, h.free_eq,
    h.read_eq, h.write_eq, h.acquire_eq, h.full_eq, h.room,
    fun c hc => (h.stored c hc).congr hs fun _ _ _ => rfl⟩

end Layout

/-! ### Room for an item -/

/-- The item fits behind the acquire pointer before the end of the ring. -/
def FitsBefore (rb : Ringbuffer) (k : Marks) (len : ℕ) : Prop :=
  k.acquire % rb.xSize + 8 + alignUp len ≤ rb.xSize ∧
    k.acquire + itemSpan rb.xSize (k.acquire % rb.xSize) len ≤ k.free + rb.xSize

/-- The item fits at the start of the ring once the rest is filled with dummy data. -/
def FitsAfter (rb : Ringbuffer) (k : Marks) (len : ℕ) : Prop :=
  rb.xSize < k.acquire % rb.xSize + 8 + alignUp len ∧
    k.acquire + (rb.xSize - k.acquire % rb.xSize) + (8 + alignUp len) ≤ k.free + rb.xSize

/-- The item fits when it is split, with a header for each part. -/
def FitsSplit (rb : Ringbuffer) (k : Marks) (len : ℕ) : Prop :=
  rb.xSize < k.acquire % rb.xSize + 8 + alignUp len ∧
    k.acquire + (16 + alignUp len) ≤ k.free + rb.xSize

/-- The answer of `prvCheckItemFitsDefault`, without wrap-around of sizes. -/
def itemFits (rb : Ringbuffer) (len : ℕ) : Bool :=
  if rb.pucAcquire = rb.pucFree then !rb.bufferFull
  else if rb.pucAcquire < rb.pucFree then alignUp len + 8 ≤ rb.pucFree - rb.pucAcquire
  else if alignUp len + 8 ≤ rb.pucTail - rb.pucAcquire then true
  else if rb.type = .allowSplit then
    alignUp len + 16 ≤ rb.xSize - (rb.pucAcquire - rb.pucFree)
  else alignUp len + 8 ≤ rb.pucFree - rb.pucHead

lemma prvCheckItemFitsDefault_eq {rb : Ringbuffer} {k : Marks} {H R P : List Cell}
    (h : Layout rb k H R P) {len : ℕ} (hlen : len ≤ rb.xMaxItemSize) :
    prvCheckItemFitsDefault len rb = (.ok (itemFits rb len), rb) := by
  have hs := h.storage
  have hmax := hs.max_lt
  have hal : alignUp len ≤ rb.xMaxItemSize := alignUp_le_of_le hlen hs.max_le.2.2
  have hsz := hs.size_lt
  have ht := hs.tail_eq
  have htl := hs.tail_lt
  have hha := hs.head_aligned
  have hroom := h.room.1
  have hA := hs.place_bounds k.acquire
  have hF := hs.place_bounds k.free
  rw [← h.acquire_eq] at hA
  rw [← h.free_eq] at hF
  rw [prvCheckItemFitsDefault, Prog.get_bind,
    Prog.bind_ok (configAssert_true (b := rbCheckAligned rb.pucAcquire) (by
      rw [rbCheckAligned, h.acquire_eq, Ringbuffer.place]; simp; omega) rb),
    Prog.bind_ok (configAssert_true (by simpa using hA) rb)]
  simp only [rbAlignSize_eq (show len + 3 < 2 ^ 32 by omega), rbHeaderSize,
    u32_of_lt (show alignUp len + 8 < 2 ^ 32 by omega),
    u32_of_lt (show alignUp len + 8 + 8 < 2 ^ 32 by omega)]
  rw [itemFits]
  by_cases heq : rb.pucAcquire = rb.pucFree
  · rw [if_pos heq, if_pos heq]
    rfl
  rw [if_neg heq, if_neg heq]
  by_cases hlt : rb.pucAcquire < rb.pucFree
  · rw [if_pos hlt, if_pos hlt, u32Sub_of_le (by omega) (by omega)]
    rfl
  rw [if_neg hlt, if_neg hlt, u32Sub_of_le htl (by omega),
    u32Sub_of_le (a := rb.pucAcquire) (by omega) (by omega),
    u32Sub_of_le (a := rb.xSize) (by omega) (by omega),
    u32Sub_of_le (a := rb.pucFree) (by omega) (by omega)]
  split_ifs <;> rfl

lemma checkItemFits_eq {rb : Ringbuffer} {k : Marks} {H R P : List Cell}
    (h : Layout rb k H R P) {len : ℕ} (hlen : len ≤ rb.xMaxItemSize) :
    checkItemFits len rb = (.ok (itemFits rb len), rb) := by
  rw [checkItemFits, Prog.get_bind, ← prvCheckItemFitsDefault_eq h hlen]
  cases hty : rb.type with
  | byteBuf => exact absurd hty h.storage.type_ne
  | noSplit => rfl
  | allowSplit => rfl

/-- The fit check of the code accepts an item only when there is room for it. -/
lemma itemFits_room {rb : Ringbuffer} {k : Marks} {H R P : List Cell}
    (h : Layout rb k H R P) {len : ℕ} (hlen : len ≤ rb.xMaxItemSize) :
    (itemFits rb len = true → rb.type = .noSplit → FitsBefore rb k len ∨ FitsAfter rb k len) ∧
      (itemFits rb len = true → rb.type = .allowSplit →
        FitsBefore rb k len ∨ FitsSplit rb k len) := by
  have hs := h.storage
  obtain ⟨hm1, hm2, hm3⟩ := hs.max_le
  have hm4 := hs.max_lt
  have hal : alignUp len ≤ rb.xMaxItemSize := alignUp_le_of_le hlen hm3
  have hal4 : alignUp len % 4 = 0 := by rw [alignUp]; omega
  have hsz := hs.size_lt
  have hsa := hs.size_aligned
  obtain ⟨hA1, hA2⟩ := h.room
  obtain ⟨hF1, hF2⟩ := h.free_room
  have hord := h.order
  have hround := h.round
  have ht := hs.tail_eq
  have htl := hs.tail_lt
  have hha := hs.head_aligned
  obtain ⟨d, hd⟩ := Nat.exists_eq_add_of_le (show k.free ≤ k.acquire by omega)
  have hmod := Ring.add_mod_of_le (p := k.free) hs.size_pos (show d ≤ rb.xSize by omega)
  rw [← hd] at hmod
  have hfull := h.full_eq
  rw [itemFits, h.acquire_eq, h.free_eq, Ringbuffer.place, Ringbuffer.place, ht]
  simp only [FitsBefore, FitsAfter, FitsSplit, itemSpan]
  generalize k.acquire % rb.xSize = off at *
  generalize k.free % rb.xSize = f at *
  rcases Nat.lt_trichotomy off f with hlt | heq | hgt
  · -- the free space does not wrap around
    rw [if_neg (by omega), if_pos (by omega)]
    refine ⟨fun hb _ => .inl ?_, fun hb _ => .inl ?_⟩ <;>
    · have hb := of_decide_eq_true hb
      split_ifs at hmod ⊢ <;> omega
  · -- the buffer is empty or full
    rw [if_pos (by omega)]
    refine ⟨fun hb hty => ?_, fun hb hty => ?_⟩
    · have hne : k.acquire ≠ k.free + rb.xSize := by simpa [hfull] using hb
      have := hm1 hty
      split_ifs at hmod ⊢ <;> omega
    · have hne : k.acquire ≠ k.free + rb.xSize := by simpa [hfull] using hb
      have := hm2 hty
      split_ifs at hmod ⊢ <;> omega
  · rw [if_neg (by omega), if_neg (by omega)]
    by_cases hfit : alignUp len + 8 ≤ rb.pucHead + rb.xSize - (rb.pucHead + off)
    · rw [if_pos hfit]
      refine ⟨fun _ _ => .inl ?_, fun _ _ => .inl ?_⟩ <;>
      · split_ifs at hmod ⊢ <;> omega
    · rw [if_neg hfit]
      by_cases hty : rb.type = .allowSplit
      · rw [if_pos hty]
        refine ⟨fun _ h => by simp [hty] at h, fun hb _ => .inr ?_⟩
        have hb := of_decide_eq_true hb
        split_ifs at hmod <;> omega
      · rw [if_neg hty]
        refine ⟨fun hb _ => .inr ?_, fun _ h => absurd h hty⟩
        have hb := of_decide_eq_true hb
        split_ifs at hmod <;> omega

/-! ### New cells -/

section NewCells

variable {rb rb' : Ringbuffer} {k : Marks} {H R P : List Cell} {c : Cell}

/-- A cell is added behind the acquire pointer. -/
lemma Layout.append (h : Layout rb k H R P) (hs : SameStorage rb' rb) (hst : Stored rb' c)
    (hpos : c.pos = k.acquire) (hle : k.acquire + c.span ≤ k.free + rb.xSize)
    (hm : ∀ x, ¬ (rb.place c.pos ≤ x ∧ x < rb.place c.pos + c.span) → rb'.mem x = rb.mem x)
    (hptr : rb'.pucFree = rb.pucFree ∧ rb'.pucRead = rb.pucRead ∧ rb'.pucWrite = rb.pucWrite)
    (hacq : rb'.pucAcquire = rb.place (k.acquire + c.span))
    (hfull : rb'.bufferFull = decide (k.acquire + c.span = k.free + rb.xSize)) :
    Layout rb' { k with acquire := k.acquire + c.span } H R (P ++ [c]) := by
  obtain ⟨hf, hr, hw⟩ := hptr
  have hstor := h.storage
  have hlies : c.Lies rb.xSize := by rw [← hs.size]; exact hst.lies
  refine
    { storage := hs.storage hstor
      held_chain := h.held_chain
      ready_chain := h.ready_chain
      pending_chain := Ring.chain_append.mpr ⟨k.acquire, h.pending_chain, hpos, rfl⟩
      round := by rw [hs.size]; exact hle
      free_eq := by rw [hf, hs.place]; exact h.free_eq
      read_eq := by rw [hr, hs.place]; exact h.read_eq
      write_eq := by rw [hw, hs.place]; exact h.write_eq
      acquire_eq := by rw [hacq, hs.place]
      full_eq := by rw [hfull, hs.size]
      room := ?_
      stored := ?_ }
  · rw [hs.size, ← hpos]
    have := hstor.size_ge
    exact hlies.end_place hstor.size_pos hstor.size_aligned (by omega)
  · intro d hd
    rw [← List.append_assoc] at hd
    rcases List.mem_append.mp hd with hd | hd
    · -- the cells of the round so far are apart from the new one
      refine (h.stored d hd).congr hs fun x h1 h2 => hm x ?_
      have hmem := Ring.chain_mem h.all_chain hd
      have := Ring.apart (p := d.pos) (s := d.span) hstor.size_pos hlies.within (by omega)
        (by omega)
      unfold Ringbuffer.place at h1 h2 ⊢
      omega
    · rw [List.mem_singleton.mp hd]
      exact hst

/-- Dummy data fills the ring up to its end. -/
def dummyCell (rb : Ringbuffer) (k : Marks) : Cell where
  pos := k.acquire
  span := rb.xSize - k.acquire % rb.xSize
  data := []
  dummy := true
  free := false
  written := false
  split := false

/-- A new item with the contents `data`. -/
def itemCell (rb : Ringbuffer) (k : Marks) (data : List Byte) (split : Bool) : Cell where
  pos := k.acquire
  span := itemSpan rb.xSize (k.acquire % rb.xSize) data.length
  data := data
  dummy := false
  free := false
  written := false
  split := split

/-- What a header says once both words of it are stored. -/
lemma header_words {m : Mem} {p len : ℕ} (flags : BitVec 32) (hlen : len < 2 ^ 32) :
    (((m.storeWord p (BitVec.ofNat 32 len)).storeWord (p + 4) flags).word p).toNat = len ∧
      ((m.storeWord p (BitVec.ofNat 32 len)).storeWord (p + 4) flags).word (p + 4) = flags := by
  rw [Mem.word_storeWord_of_apart (by omega), Mem.word_storeWord_self, Mem.word_storeWord_self,
    BitVec.toNat_ofNat, Nat.mod_eq_of_lt hlen]
  exact ⟨rfl, rfl⟩

/-- A dummy cell is added when the acquire pointer starts over. -/
lemma Layout.append_dummy (h : Layout rb k H R P) (hs : SameStorage rb' rb)
    (hflags : (rb'.uxItemFlags rb.pucAcquire).getLsbD 1 = true)
    (hle : k.acquire + (rb.xSize - k.acquire % rb.xSize) < k.free + rb.xSize)
    (hm : ∀ x, ¬ (rb.pucAcquire ≤ x ∧ x < rb.pucAcquire + 8) → rb'.mem x = rb.mem x)
    (hptr : rb'.pucFree = rb.pucFree ∧ rb'.pucRead = rb.pucRead ∧ rb'.pucWrite = rb.pucWrite)
    (hacq : rb'.pucAcquire = rb.pucHead) (hfull : rb'.bufferFull = rb.bufferFull) :
    Layout rb' { k with acquire := k.acquire + (rb.xSize - k.acquire % rb.xSize) } H R
      (P ++ [dummyCell rb k]) := by
  obtain ⟨h1, h2⟩ := h.room
  have hpos := h.storage.size_pos
  have hlt := Nat.mod_lt k.acquire hpos
  have hend : k.acquire % rb.xSize + (rb.xSize - k.acquire % rb.xSize) = rb.xSize := by omega
  have hlies : (dummyCell rb k).Lies rb.xSize :=
    ⟨h1, Nat.le_of_eq hend, fun _ => ⟨hend, show 8 ≤ rb.xSize - k.acquire % rb.xSize by omega⟩,
      fun h => by simp [dummyCell] at h⟩
  refine h.append (c := dummyCell rb k) hs ⟨?_, ?_, fun h => by simp [dummyCell] at h⟩ rfl
    (Nat.le_of_lt hle) ?_ hptr ?_ ?_
  · rw [hs.size]
    exact hlies
  · rw [hs.place, show rb.place (dummyCell rb k).pos = rb.pucAcquire from h.acquire_eq.symm,
      hflags]
    rfl
  · intro x hx
    apply hm
    rw [h.acquire_eq]
    have := hlies.span_ge
    simp only [dummyCell] at hx this
    omega
  · simp only [dummyCell]
    rw [hacq, Ringbuffer.place, Ring.add_mod_of_within hpos (Nat.le_of_eq hend), if_pos hend,
      Nat.add_zero]
  · rw [hfull, h.full_eq, decide_eq_decide]
    simp only [dummyCell]
    omega

/-- An item is added when the acquire pointer moves on. -/
lemma Layout.append_item (h : Layout rb k H R P) {data : List Byte} {split : Bool}
    (hs : SameStorage rb' rb) (hmax : data.length ≤ rb.xMaxItemSize)
    (hfit : FitsBefore rb k data.length)
    (hlen : rb'.xItemLen rb.pucAcquire = data.length)
    (hflags : rb'.uxItemFlags rb.pucAcquire = if split then rbItemSplitFlag else 0#32)
    (hdata : rb'.mem.read (rb.pucAcquire + 8) data.length = data)
    (hm : ∀ x, ¬ (rb.pucAcquire ≤ x ∧ x < rb.pucAcquire + 8 + data.length) →
      rb'.mem x = rb.mem x)
    (hptr : rb'.pucFree = rb.pucFree ∧ rb'.pucRead = rb.pucRead ∧ rb'.pucWrite = rb.pucWrite)
    (hacq : rb'.pucAcquire = wrapAround rb (rb.pucAcquire + (8 + alignUp data.length)))
    (hfull : rb'.bufferFull = (rb.bufferFull || rb'.pucAcquire == rb.pucFree)) :
    Layout rb'
      { k with acquire := k.acquire + itemSpan rb.xSize (k.acquire % rb.xSize) data.length } H R
      (P ++ [itemCell rb k data split]) := by
  obtain ⟨h1, h2⟩ := h.room
  obtain ⟨hf1, hf2⟩ := hfit
  have hstor := h.storage
  have hpos := hstor.size_pos
  have hle := le_alignUp data.length
  have hlies : (itemCell rb k data split).Lies rb.xSize := by
    refine ⟨h1, ?_, fun h => by simp [itemCell] at h, fun _ => ⟨hf1, rfl⟩⟩
    simp only [itemCell, itemSpan]
    split_ifs <;> omega
  have hplace : rb.place (itemCell rb k data split).pos = rb.pucAcquire := h.acquire_eq.symm
  have hst : Stored rb' (itemCell rb k data split) := by
    refine ⟨by rw [hs.size]; exact hlies, ?_, fun _ => ?_⟩
    · rw [hs.place, hplace, hflags, itemCell]
      cases split <;> rfl
    · rw [hs.place, hplace, hflags, hs.max]
      exact ⟨hmax, hlen, by cases split <;> rfl, by cases split <;> rfl,
        by cases split <;> rfl, hdata⟩
  have hacq' : rb'.pucAcquire =
      rb.place (k.acquire + itemSpan rb.xSize (k.acquire % rb.xSize) data.length) := by
    have := wrapAround_item (hs.storage hstor) hst rfl
    rw [hs.place, hs.place, hplace] at this
    rw [hacq, ← show wrapAround rb' _ = wrapAround rb _ by rw [wrapAround, wrapAround, hs.tail,
      hs.head]]
    exact this
  refine h.append (c := itemCell rb k data split) hs hst rfl hf2 ?_ hptr hacq' ?_
  · intro x hx
    apply hm
    have := hlies.item_le rfl
    rw [hplace] at hx
    simp only [itemCell] at this hx
    omega
  · -- the pointers coincide after the step only when the round is complete
    have hord := h.order
    have hsp : 8 ≤ itemSpan rb.xSize (k.acquire % rb.xSize) data.length := hlies.span_ge
    have hiff := Ring.mod_eq_mod_iff hpos (p := k.free)
      (q := k.acquire + itemSpan rb.xSize (k.acquire % rb.xSize) data.length) (by omega) hf2
    rw [hfull, h.full_eq, hacq', h.free_eq, Ringbuffer.place, Ringbuffer.place]
    rw [decide_eq_false (by omega), Bool.false_or, beq_eq_decide, decide_eq_decide]
    simp only [itemCell]
    omega

/-- The checks that every function makes on the acquire pointer. -/
lemma Layout.acquire_checks (h : Layout rb k H R P) :
    rbCheckAligned rb.pucAcquire = true ∧
      (decide (rb.pucHead ≤ rb.pucAcquire) && decide (rb.pucAcquire < rb.pucTail)) = true ∧
      u32Sub rb.pucTail rb.pucAcquire = rb.xSize - k.acquire % rb.xSize := by
  have hs := h.storage
  obtain ⟨h1, h2⟩ := h.room
  have ht := hs.tail_eq
  have hha := hs.head_aligned
  have hb := hs.place_bounds k.acquire
  rw [h.acquire_eq]
  refine ⟨?_, ?_, ?_⟩
  · rw [rbCheckAligned, Ringbuffer.place]
    simp
    omega
  · simpa using hb
  · rw [u32Sub_of_le hs.tail_lt (Nat.le_of_lt hb.2), ht, Ringbuffer.place]
    omega

/-- A header at the acquire pointer lies in the storage. -/
lemma Layout.acquire_within (h : Layout rb k H R P) :
    rb.pucHead ≤ rb.pucAcquire ∧ rb.pucAcquire + 8 ≤ rb.pucTail := by
  have h1 := h.room
  have h2 := h.storage.tail_eq
  rw [h.acquire_eq, Ringbuffer.place]
  omega

/-- An item that fits before the end of the ring lies in the storage. -/
lemma Layout.end_within (h : Layout rb k H R P) {len : ℕ} (hfit : FitsBefore rb k len) :
    rb.pucAcquire + 8 + len ≤ rb.pucTail := by
  have h1 := hfit.1
  have h2 := h.storage.tail_eq
  have h3 := le_alignUp len
  rw [h.acquire_eq, Ringbuffer.place]
  omega

/-- The buffer after the rest of the ring has been made dummy data. -/
def withDummy (rb : Ringbuffer) : Ringbuffer :=
  { rb with
    mem := (rb.mem.storeWord (rb.pucAcquire + 4) rbItemDummyDataFlag).storeWord rb.pucAcquire
      (BitVec.ofNat 32 0)
    pucAcquire := rb.pucHead }

/-- The buffer after the header of an item of `len` bytes has been stored. -/
def withHeader (rb : Ringbuffer) (len : ℕ) : Ringbuffer :=
  { rb with
    mem := (rb.mem.storeWord rb.pucAcquire (BitVec.ofNat 32 len)).storeWord
      (rb.pucAcquire + 4) 0#32
    pucAcquire := wrapAround rb (rb.pucAcquire + (8 + alignUp len))
    bufferFull := rb.bufferFull ||
      wrapAround rb (rb.pucAcquire + (8 + alignUp len)) == rb.pucFree }

lemma withDummy_same (h : Layout rb k H R P) : SameStorage (withDummy rb) rb := by
  have hin := h.acquire_within
  refine ⟨rfl, rfl, rfl, rfl, rfl, fun x hx => ?_⟩
  exact (Mem.storeWord_of_not_mem (by omega)).trans (Mem.storeWord_of_not_mem (by omega))

lemma withHeader_same (h : Layout rb k H R P) (len : ℕ) : SameStorage (withHeader rb len) rb := by
  have hin := h.acquire_within
  refine ⟨rfl, rfl, rfl, rfl, rfl, fun x hx => ?_⟩
  exact (Mem.storeWord_of_not_mem (by omega)).trans (Mem.storeWord_of_not_mem (by omega))

lemma withDummy_layout (h : Layout rb k H R P)
    (hle : k.acquire + (rb.xSize - k.acquire % rb.xSize) < k.free + rb.xSize) :
    Layout (withDummy rb) { k with acquire := k.acquire + (rb.xSize - k.acquire % rb.xSize) } H R
      (P ++ [dummyCell rb k]) := by
  refine h.append_dummy (withDummy_same h) ?_ hle ?_ ⟨rfl, rfl, rfl⟩ rfl rfl
  · rw [withDummy, Ringbuffer.uxItemFlags, Mem.word_storeWord_of_apart (by omega),
      Mem.word_storeWord_self]
    rfl
  · intro x hx
    exact (Mem.storeWord_of_not_mem (by omega)).trans (Mem.storeWord_of_not_mem (by omega))

lemma withHeader_layout (h : Layout rb k H R P) {len : ℕ} (hlen : len ≤ rb.xMaxItemSize)
    (hfit : FitsBefore rb k len) :
    Layout (withHeader rb len)
      { k with acquire := k.acquire + itemSpan rb.xSize (k.acquire % rb.xSize) len } H R
      (P ++ [itemCell rb k ((withHeader rb len).mem.read (rb.pucAcquire + 8) len) false]) := by
  have hmax := h.storage.max_lt
  have hsz := h.storage.size_lt
  have hw : (withHeader rb len).xItemLen rb.pucAcquire = len ∧
      (withHeader rb len).uxItemFlags rb.pucAcquire =
        if false then rbItemSplitFlag else 0#32 := header_words 0#32 (by omega)
  have hsame : SameStorage (withHeader rb len) rb := withHeader_same h len
  obtain ⟨bs, hbs⟩ : ∃ bs, (withHeader rb len).mem.read (rb.pucAcquire + 8) len = bs := ⟨_, rfl⟩
  have hl : bs.length = len := by rw [← hbs, Mem.length_read]
  rw [hbs]
  subst hl
  refine h.append_item hsame hlen hfit hw.1 hw.2 hbs (fun x hx => ?_) ⟨rfl, rfl, rfl⟩ rfl rfl
  exact (Mem.storeWord_of_not_mem (by omega)).trans (Mem.storeWord_of_not_mem (by omega))

/-- The dummy data that an item at the start of the ring needs before it. -/
def skipped (rb : Ringbuffer) (k : Marks) (len : ℕ) : List Cell :=
  if k.acquire % rb.xSize + 8 + alignUp len ≤ rb.xSize then [] else [dummyCell rb k]

/-- An item of `len` bytes is acquired: its cell is pending, behind dummy data when it does
not fit before the end of the ring. -/
lemma prvAcquireItemNoSplit_ok (h : Layout rb k H R P) {len : ℕ} (hlen : len ≤ rb.xMaxItemSize)
    (hfit : FitsBefore rb k len ∨ FitsAfter rb k len) :
    ∃ rb' a c, prvAcquireItemNoSplit len rb = (.ok (rb.place c.pos + 8), rb') ∧
      Layout rb' { k with acquire := a } H R (P ++ skipped rb k len ++ [c]) ∧
      SameStorage rb' rb ∧ rb'.xItemsWaiting = rb.xItemsWaiting ∧ c.data.length = len ∧
      c.dummy = false ∧ c.free = false ∧ c.written = false ∧ c.split = false := by
  have hs := h.storage
  have hmax := hs.max_lt
  have hsz := hs.size_lt
  have hal : alignUp len ≤ rb.xMaxItemSize := alignUp_le_of_le hlen hs.max_le.2.2
  obtain ⟨ha1, ha2, ha3⟩ := h.acquire_checks
  obtain ⟨hr1, hr2⟩ := h.room
  rw [prvAcquireItemNoSplit, Prog.get_bind]
  simp only [rbAlignSize_eq (show len + 3 < 2 ^ 32 by omega), rbHeaderSize, ha3,
    u32_of_lt (show alignUp len + 8 < 2 ^ 32 by omega)]
  rw [Prog.bind_ok (configAssert_true ha1 rb), Prog.bind_ok (configAssert_true ha2 rb),
    Prog.bind_ok (configAssert_true (decide_eq_true (by omega)) rb)]
  rcases hfit with hfit | hfit
  · have hfit1 := hfit.1
    rw [if_neg (by omega), skipped, if_pos hfit1, List.append_nil]
    refine ⟨withHeader rb len, _, _, ?_, withHeader_layout h hlen hfit, withHeader_same h len,
      rfl, Mem.length_read, rfl, rfl, rfl, rfl⟩
    rw [show rb.place (itemCell rb k _ false).pos = rb.pucAcquire from h.acquire_eq.symm]
    rfl
  · obtain ⟨hf1, hf2⟩ := hfit
    have h₁ := withDummy_layout h (by omega)
    have hzero : (k.acquire + (rb.xSize - k.acquire % rb.xSize)) % rb.xSize = 0 := by
      rw [Ring.add_mod_of_within hs.size_pos (by omega), if_pos (by omega)]
    have hfit₁ : FitsBefore (withDummy rb)
        { k with acquire := k.acquire + (rb.xSize - k.acquire % rb.xSize) } len := by
      have hord := h.order
      constructor <;> simp only [withDummy, hzero, itemSpan]
      · omega
      · split_ifs <;> omega
    rw [if_pos (by omega), skipped, if_neg (by omega)]
    refine ⟨withHeader (withDummy rb) len, _, _, ?_, withHeader_layout h₁ hlen hfit₁,
      (withHeader_same h₁ len).trans (withDummy_same h), rfl, Mem.length_read, rfl, rfl, rfl, rfl⟩
    rw [show rb.place (itemCell (withDummy rb)
        { k with acquire := k.acquire + (rb.xSize - k.acquire % rb.xSize) } _ false).pos =
      rb.pucHead by rw [Ringbuffer.place, itemCell, hzero, Nat.add_zero]]
    rfl

end NewCells

end EspIdf.RingBuffer
