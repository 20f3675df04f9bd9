/-
# Sizing a no-split buffer

`xRingbufferCreateNoSplit` asks for room for a number of items of one size.  The size of the
largest item is computed from the length of the buffer alone.
-/
import EspIdf.RingBuffer.Histories

namespace EspIdf.RingBuffer.Sizing

open EspIdf.Lib
open EspIdf.RingBuffer.History (Allocated storageSize)

/-- Items are sent one after the other; whether all of them have been sent. -/
def sendAll : List (List Byte) → RbM Bool
  | [] => pure true
  | item :: items => do
    if ← xRingbufferSend item then sendAll items else pure false

/-- `xItemNum` items of `xItemSize` bytes can be sent to the buffer without any receive, and an
item may be as large. -/
structure HoldsItems (rb : Ringbuffer) (xItemSize xItemNum : ℕ) : Prop where
  sends : ∀ items : List (List Byte), items.length = xItemNum →
    (∀ item ∈ items, item.length = xItemSize) → ∃ rb', sendAll items rb = (.ok true, rb')
  max : xItemSize ≤ rb.xRingbufferGetMaxItemSize

/-- The length that `xRingbufferCreateNoSplit` passes on. -/
def bufferSize (xItemSize xItemNum : ℕ) : ℕ :=
  u32 (u32 (rbAlignSize xItemSize + rbHeaderSize) * xItemNum)

/-! ### Sending items of one size -/

section Sending

variable {rb rb' : Ringbuffer} {R : List Cell} {a : ℕ} {item : List Byte}

/-- An item that has been sent takes its header and its data. -/
lemma send_takes (h : Layout rb ⟨0, 0, a, a⟩ [] R []) (hty : rb.type = .noSplit)
    (hsend : xRingbufferSend item rb = (.ok true, rb')) :
    ∃ a' R', Layout rb' ⟨0, 0, a', a'⟩ [] R' [] ∧ SameStorage rb' rb ∧
      a + (alignUp item.length + 8) ≤ a' := by
  rcases xRingbufferSend_ok h item with ⟨h1, _⟩ | ⟨rb₁, a', cs, h1, hL, hs, _, hno, _⟩
  · rw [h1] at hsend
    simp at hsend
  · obtain rfl : rb₁ = rb' := by
      rw [h1] at hsend
      exact (Prod.mk.inj hsend).2
    obtain ⟨c, hcs, hdata, hd, _⟩ := hno hty
    refine ⟨a', R ++ cs, hL, hs, ?_⟩
    obtain ⟨x, hR, hrest⟩ := Ring.chain_append.mp hL.ready_chain
    have hc : c ∈ cs := by simp [hcs]
    have hmem := Ring.chain_mem hrest hc
    have hspan := (hL.lies c (by simp [hc])).item_le hd
    have hx : a = x := Ring.chain_end hR h.ready_chain |>.symm
    rw [hdata] at hspan
    have hmem2 : c.pos + c.span ≤ a' := hmem.2
    omega

/-- An item that has room behind the others is sent there. -/
lemma send_room (h : Layout rb ⟨0, 0, a, a⟩ [] R []) (hty : rb.type = .noSplit)
    (hmax : item.length ≤ rb.xMaxItemSize)
    (hroom : a + (alignUp item.length + 8) = rb.xSize ∨
      a + (alignUp item.length + 8) + 8 ≤ rb.xSize) :
    ∃ rb' R', xRingbufferSend item rb = (.ok true, rb') ∧
      Layout rb' ⟨0, 0, a + (alignUp item.length + 8), a + (alignUp item.length + 8)⟩ [] R' [] ∧
      SameStorage rb' rb := by
  have htail := h.storage.tail_eq
  have hlt : a < rb.xSize := by omega
  have hmod : a % rb.xSize = a := Nat.mod_eq_of_lt hlt
  have hacq : rb.pucAcquire = rb.pucHead + a := by
    rw [h.acquire_eq, Ringbuffer.place, hmod]
  have hfree : rb.pucFree = rb.pucHead := by
    rw [h.free_eq, Ringbuffer.place, Nat.zero_mod, Nat.add_zero]
  have hfit : itemFits rb item.length = true := by
    rw [itemFits, hacq, hfree]
    by_cases h0 : a = 0
    · have hfull : rb.bufferFull = false :=
        h.full_eq.trans (decide_eq_false (show ¬ a = 0 + rb.xSize by omega))
      rw [if_pos (by omega), hfull]
      rfl
    · rw [if_neg (by omega), if_neg (by omega), if_pos (by omega)]
  rcases xRingbufferSend_ok h item with ⟨_, hno⟩ | ⟨rb', a', cs, h1, hL, hs, _, hcs, _⟩
  · exact absurd ⟨hmax, hfit⟩ hno
  · obtain ⟨c, rfl, hdata, hd, _⟩ := hcs hty
    refine ⟨rb', R ++ (skipped rb ⟨0, 0, a, a⟩ item.length ++ [c]), h1, ?_, hs⟩
    obtain ⟨x, hR, hrest⟩ := Ring.chain_append.mp hL.ready_chain
    have hx : a = x := Ring.chain_end hR h.ready_chain |>.symm
    subst hx
    have hskip : skipped rb ⟨0, 0, a, a⟩ item.length = [] := by
      rw [skipped, if_pos]
      show a % rb.xSize + 8 + alignUp item.length ≤ rb.xSize
      omega
    have hc := ((hL.lies c (by simp)).item hd).2
    rw [hskip, List.nil_append] at hrest
    -- the item ends where the next one can start, or with the ring
    have hspan : c.span = alignUp item.length + 8 := by
      rw [hc, hrest.1, hs.size, hdata, itemSpan]
      show (if rb.xSize < a % rb.xSize + 8 + alignUp item.length + 8 then rb.xSize - a % rb.xSize
        else 8 + alignUp item.length) = alignUp item.length + 8
      split_ifs <;> omega
    have ha : a + c.span = a' := hrest.2
    rw [hspan] at ha
    rw [ha]
    exact hL

/-- Items of one size are sent as long as they have room. -/
lemma sendAll_room (h : Layout rb ⟨0, 0, a, a⟩ [] R []) (hty : rb.type = .noSplit) {s : ℕ}
    (hmax : s ≤ rb.xMaxItemSize) {items : List (List Byte)} (hlen : ∀ item ∈ items, item.length = s)
    (hroom : a + items.length * (alignUp s + 8) = rb.xSize) :
    ∃ rb', sendAll items rb = (.ok true, rb') := by
  induction items generalizing rb R a with
  | nil => exact ⟨rb, rfl⟩
  | cons item items ih =>
    have hitem := hlen item List.mem_cons_self
    subst hitem
    rw [List.length_cons, Nat.add_mul, Nat.one_mul] at hroom
    have hnext : items.length * (alignUp item.length + 8) = 0 ∨
        8 ≤ items.length * (alignUp item.length + 8) := by
      rcases Nat.eq_zero_or_pos items.length with h0 | hpos
      · exact .inl (by rw [h0, Nat.zero_mul])
      · exact .inr ((by omega : 8 ≤ alignUp item.length + 8).trans (Nat.le_mul_of_pos_left _ hpos))
    obtain ⟨rb₁, R₁, h1, hL, hs⟩ := send_room h hty hmax (by omega)
    obtain ⟨rb', h2⟩ := ih hL (by rw [hs.type]; exact hty) (by rw [hs.max]; exact hmax)
      (fun x hx => hlen x (List.mem_cons_of_mem _ hx)) (by rw [hs.size]; omega)
    refine ⟨rb', ?_⟩
    rw [sendAll, Prog.bind_ok h1, if_pos rfl]
    exact h2

/-- Items that have been sent fit into the ring. -/
lemma sendAll_takes (h : Layout rb ⟨0, 0, a, a⟩ [] R []) (hty : rb.type = .noSplit) {s : ℕ}
    {items : List (List Byte)} (hlen : ∀ item ∈ items, item.length = s)
    (hsend : sendAll items rb = (.ok true, rb')) :
    a + items.length * (alignUp s + 8) ≤ rb.xSize := by
  induction items generalizing rb R a with
  | nil =>
    have hround : a ≤ 0 + rb.xSize := h.round
    rw [List.length_nil]
    omega
  | cons item items ih =>
    have hitem := hlen item List.mem_cons_self
    subst hitem
    obtain ⟨b, rb₁, h1, h2⟩ := Prog.bind_returns hsend
    cases b with
    | false => simp [Prog.pure_apply] at h2
    | true =>
      obtain ⟨a', R', hL, hs, hle⟩ := send_takes h hty h1
      have := ih hL (by rw [hs.type]; exact hty) (fun x hx => hlen x (List.mem_cons_of_mem _ hx)) h2
      rw [hs.size] at this
      rw [List.length_cons, Nat.add_mul, Nat.one_mul]
      omega

end Sending

/-! ### Buffers without room for an item -/

section Small

variable {rb rb' : Ringbuffer} {item : List Byte} {mem : Mem} {storage : ℕ}

lemma configAssert_returns {b : Bool} (h : configAssert b rb = (.ok (), rb')) :
    b = true ∧ rb' = rb := by
  rw [configAssert] at h
  split_ifs at h with hb
  · exact ⟨hb, (Prod.mk.inj h).2.symm⟩
  · simp [Prog.throw] at h

/-- The loop over the items only changes the memory. -/
lemma skipItems_frame (flag : BitVec 32) (limit fuel p : ℕ) (rb : Ringbuffer) :
    ∃ r m, skipItems flag limit fuel p rb = (r, { rb with mem := m }) := by
  induction fuel generalizing p rb with
  | zero => exact ⟨_, rb.mem, rfl⟩
  | succ fuel ih =>
    rw [skipItems, Prog.get_bind]
    split_ifs
    · rw [setItemFlags, Prog.modify_bind]
      obtain ⟨r, m, h⟩ := ih (wrapAround rb rb.pucHead)
        { rb with mem := rb.mem.storeWord (p + 4) (rb.uxItemFlags p ||| flag) }
      exact ⟨r, m, h⟩
    · by_cases hb : u32 (p + (rbAlignSize (rb.xItemLen p) + rbHeaderSize)) ≤ rb.pucHead + rb.xSize
      · simp only []
        rw [Prog.bind_ok (configAssert_true (decide_eq_true hb) rb)]
        exact ih _ rb
      · refine ⟨.error .assertion, rb.mem, ?_⟩
        simp only []
        rw [configAssert, if_neg (by simpa using hb)]
        rfl
    · exact ⟨_, rb.mem, rfl⟩

/-- Completing an item leaves the space of the buffer alone. -/
lemma sendItemDone_frame {p : ℕ} (h : prvSendItemDoneNoSplit p rb = (.ok (), rb')) :
    rb'.pucAcquire = rb.pucAcquire ∧ rb'.pucFree = rb.pucFree ∧ rb'.xSize = rb.xSize ∧
      rb'.bufferFull = rb.bufferFull ∧ rb'.type = rb.type := by
  rw [prvSendItemDoneNoSplit, Prog.get_bind] at h
  obtain ⟨_, rb₁, h1, h⟩ := Prog.bind_returns h
  obtain ⟨_, rfl⟩ := configAssert_returns h1
  obtain ⟨_, rb₂, h2, h⟩ := Prog.bind_returns h
  obtain ⟨_, rfl⟩ := configAssert_returns h2
  obtain ⟨_, rb₃, h3, h⟩ := Prog.bind_returns h
  obtain ⟨_, rfl⟩ := configAssert_returns h3
  obtain ⟨_, rb₄, h4, h⟩ := Prog.bind_returns h
  obtain ⟨_, rfl⟩ := configAssert_returns h4
  obtain ⟨_, rb₅, h5, h⟩ := Prog.bind_returns h
  obtain ⟨_, rfl⟩ := configAssert_returns h5
  obtain ⟨_, rb₆, h6, h⟩ := Prog.bind_returns h
  obtain ⟨_, rfl⟩ := configAssert_returns h6
  rw [setItemFlags, Prog.modify_bind, Prog.modify_bind] at h
  obtain ⟨q, rb₇, h7, h⟩ := Prog.bind_returns h
  obtain ⟨r, m, hskip⟩ := skipItems_frame rbItemWrittenFlag rb₆.pucAcquire (rb₆.xSize + 1)
    rb₆.pucWrite _
  rw [hskip] at h7
  obtain ⟨_, rfl⟩ := Prod.mk.inj h7
  obtain ⟨_, rfl⟩ := Prod.mk.inj h
  exact ⟨rfl, rfl, rfl, rfl, rfl⟩

/-- A buffer that is full takes nothing. -/
lemma send_full (hty : rb.type = .noSplit) (hfull : rb.bufferFull = true)
    (hacq : rb.pucAcquire = rb.pucFree) : xRingbufferSend item rb ≠ (.ok true, rb') := by
  intro h
  rw [xRingbufferSend, Prog.get_bind] at h
  split_ifs at h with h1 h2
  · simp [Prog.pure_apply] at h
  · simp [hty] at h2
  · obtain ⟨b, rb₁, hb, h⟩ := Prog.bind_returns h
    rw [checkItemFits, Prog.get_bind, hty] at hb
    simp only [] at hb
    rw [prvCheckItemFitsDefault, Prog.get_bind] at hb
    obtain ⟨_, rb₂, hb1, hb⟩ := Prog.bind_returns hb
    obtain ⟨_, rb₃, hb2, hb⟩ := Prog.bind_returns hb
    rw [if_pos hacq, hfull] at hb
    obtain ⟨hb, _⟩ := Prod.mk.inj hb
    obtain rfl : b = false := (Except.ok.inj hb).symm
    simp [Prog.pure_apply] at h

/-- A new buffer of `n` bytes. -/
structure New (n : ℕ) (rb : Ringbuffer) : Prop where
  type_eq : rb.type = .noSplit
  size_eq : rb.xSize = n
  max_eq : rb.xMaxItemSize = maxItemSize n .noSplit
  aligned : rb.pucHead % 4 = 0
  tail_eq : rb.pucTail = rb.pucHead + n
  tail_lt : rb.pucTail < 2 ^ 32
  free_eq : rb.pucFree = rb.pucHead
  acquire_eq : rb.pucAcquire = rb.pucHead
  write_eq : rb.pucWrite = rb.pucHead
  full_eq : rb.bufferFull = false

lemma New.fits {n : ℕ} (h : New n rb) (hpos : 0 < n) (len : ℕ) :
    checkItemFits len rb = (.ok true, rb) := by
  have htail := h.tail_eq
  rw [checkItemFits, Prog.get_bind, h.type_eq]
  show prvCheckItemFitsDefault len rb = _
  rw [prvCheckItemFitsDefault, Prog.get_bind, Prog.bind_ok (configAssert_true (by
    rw [rbCheckAligned, h.acquire_eq]; exact decide_eq_true h.aligned) _),
    Prog.bind_ok (configAssert_true (by
      rw [h.acquire_eq, Bool.and_eq_true, decide_eq_true_eq, decide_eq_true_eq]; omega) _)]
  rw [if_pos (h.acquire_eq.trans h.free_eq.symm), h.full_eq]
  rfl

/-- What sending an item to a new buffer takes. -/
lemma New.send {n : ℕ} (h : New n rb) (hpos : 0 < n)
    (hsend : xRingbufferSend item rb = (.ok true, rb')) :
    ∃ rb₁ k, prvCopyItemNoSplit item rb = (.ok (), rb₁) ∧ prvGetFreeSize rb₁ = (.ok k, rb') := by
  rw [xRingbufferSend, Prog.get_bind] at hsend
  split_ifs at hsend with h1 h2
  · simp [Prog.pure_apply] at hsend
  · simp [h.type_eq] at h2
  · rw [Prog.bind_ok (h.fits hpos _), if_pos rfl] at hsend
    obtain ⟨_, rb₂, h3, hsend⟩ := Prog.bind_returns hsend
    obtain ⟨k, rb₃, h4, hsend⟩ := Prog.bind_returns hsend
    obtain ⟨_, rfl⟩ := Prod.mk.inj hsend
    rw [copyItem, Prog.get_bind, h.type_eq] at h3
    exact ⟨rb₂, k, h3, h4⟩

/-- The header of an item does not fit into 4 bytes. -/
lemma send_four (h : New 4 rb) : xRingbufferSend item rb ≠ (.ok true, rb') := by
  intro hsend
  obtain ⟨rb₁, k, hcopy, _⟩ := h.send (by decide) hsend
  rw [prvCopyItemNoSplit] at hcopy
  obtain ⟨p, rb₂, hacq, _⟩ := Prog.bind_returns hcopy
  rw [prvAcquireItemNoSplit, Prog.get_bind] at hacq
  obtain ⟨_, rb₃, h1, hacq⟩ := Prog.bind_returns hacq
  obtain ⟨_, rb₄, h2, hacq⟩ := Prog.bind_returns hacq
  obtain ⟨_, rb₅, h3, hacq⟩ := Prog.bind_returns hacq
  have hrem := of_decide_eq_true (configAssert_returns h3).1
  have htail := h.tail_eq
  rw [h.acquire_eq, u32Sub_of_le h.tail_lt (by omega), rbHeaderSize] at hrem
  omega

/-- Acquiring an item of `len` bytes in a new buffer. -/
lemma New.acquire {n : ℕ} (h : New n rb) (hn : 8 ≤ n) (len : ℕ) :
    ∃ m, prvAcquireItemNoSplit len rb = (.ok (rb.pucHead + 8), { rb with
      mem := (Mem.storeWord m rb.pucHead (BitVec.ofNat 32 len)).storeWord (rb.pucHead + 4) 0#32
      pucAcquire := wrapAround rb (rb.pucHead + (8 + rbAlignSize len))
      bufferFull := rb.bufferFull ||
        wrapAround rb (rb.pucHead + (8 + rbAlignSize len)) == rb.pucFree }) := by
  have htail := h.tail_eq
  have hacq := h.acquire_eq
  rw [prvAcquireItemNoSplit, Prog.get_bind, Prog.bind_ok (configAssert_true (by
    rw [rbCheckAligned, hacq]; exact decide_eq_true h.aligned) _),
    Prog.bind_ok (configAssert_true (by
      rw [hacq, Bool.and_eq_true, decide_eq_true_eq, decide_eq_true_eq]; omega) _),
    Prog.bind_ok (configAssert_true (decide_eq_true (by
      rw [hacq, u32Sub_of_le h.tail_lt (by omega), rbHeaderSize]; omega)) _)]
  split_ifs
  · -- dummy data is stored, and the header over it
    refine ⟨(rb.mem.storeWord (rb.pucAcquire + 4) rbItemDummyDataFlag).storeWord rb.pucAcquire
      (BitVec.ofNat 32 0), rfl⟩
  · refine ⟨rb.mem, ?_⟩
    show (Except.ok (rb.pucAcquire + 8), { rb with
      mem := (rb.mem.storeWord rb.pucAcquire (BitVec.ofNat 32 len)).storeWord
        (rb.pucAcquire + 4) 0#32
      pucAcquire := wrapAround rb (rb.pucAcquire + (8 + rbAlignSize len))
      bufferFull := rb.bufferFull ||
        wrapAround rb (rb.pucAcquire + (8 + rbAlignSize len)) == rb.pucFree }) = _
    rw [hacq]

/-- After the first item a buffer of 8 bytes is full. -/
lemma send_eight (h : New 8 rb) (hlen : item.length + 3 < 2 ^ 32)
    (hne : alignUp item.length + 8 ≠ 2 ^ 32)
    (hsend : xRingbufferSend item rb = (.ok true, rb')) :
    rb'.bufferFull = true ∧ rb'.pucAcquire = rb'.pucFree ∧ rb'.type = .noSplit := by
  obtain ⟨rb₁, k, hcopy, hfree⟩ := h.send (by decide) hsend
  obtain ⟨m, hacq⟩ := h.acquire (Nat.le_refl _) item.length
  rw [prvCopyItemNoSplit, Prog.bind_ok hacq, memcpy, Prog.modify_bind] at hcopy
  obtain ⟨h1, h2, h3, h4, h5⟩ := sendItemDone_frame hcopy
  rw [prvGetFreeSize, Prog.get_bind] at hfree
  obtain ⟨_, rb₂, h6, hfree⟩ := Prog.bind_returns hfree
  obtain ⟨hsize, rfl⟩ := configAssert_returns h6
  obtain ⟨_, rfl⟩ := Prod.mk.inj hfree
  have htail := h.tail_eq
  have htl := h.tail_lt
  rw [h1, h2, h3, h4] at hsize
  simp only [h.full_eq, h.free_eq, h.size_eq, Bool.false_or, rbAlignSize_eq hlen] at h1 h2 h4 hsize
  have hal : alignUp item.length + 8 < 2 ^ 32 + 8 := by rw [alignUp]; omega
  by_cases hwrap : u32Sub rb.pucTail (rb.pucHead + (8 + alignUp item.length)) < 8
  · -- the acquire pointer starts over
    have hw : wrapAround rb (rb.pucHead + (8 + alignUp item.length)) = rb.pucHead :=
      if_pos hwrap
    rw [hw] at h1 h4
    exact ⟨by rw [h4, beq_self_eq_true], h1.trans h2.symm, h5.trans h.type_eq⟩
  · -- it stands outside the storage, which the free size shows
    exfalso
    have hw : wrapAround rb (rb.pucHead + (8 + alignUp item.length)) =
      rb.pucHead + (8 + alignUp item.length) := if_neg hwrap
    rw [hw, beq_eq_false_iff_ne.mpr (by omega), if_neg Bool.false_ne_true, if_pos (by omega),
      decide_eq_true_eq] at hsize
    have h8 : ((rb.pucHead : ℤ) - ((rb.pucHead + (8 + alignUp item.length) : ℕ) : ℤ) + (8 : ℕ)) =
        -(alignUp item.length : ℤ) := by omega
    rw [h8] at hsize
    rw [u32Sub] at hwrap
    omega

/-- An empty item fills a buffer of 8 bytes. -/
lemma send_empty (h : New 8 rb) : ∃ rb', xRingbufferSend [] rb = (.ok true, rb') := by
  have htail := h.tail_eq
  have htl := h.tail_lt
  obtain ⟨m, hacq⟩ := h.acquire (Nat.le_refl _) 0
  have hw : wrapAround rb (rb.pucHead + (8 + rbAlignSize 0)) = rb.pucHead := by
    rw [show rbAlignSize 0 = 0 from rfl, wrapAround, u32Sub_of_le htl (by omega), if_pos (by
      rw [rbHeaderSize]; omega)]
  rw [hw, h.free_eq, beq_self_eq_true, Bool.or_true] at hacq
  set m' := ((m.storeWord rb.pucHead (BitVec.ofNat 32 0)).storeWord (rb.pucHead + 4) 0#32).store
    (rb.pucHead + 8) [] with hm'
  have hlen : m'.word rb.pucHead = BitVec.ofNat 32 0 := by
    rw [hm', Mem.word_store_of_apart (.inl (by omega)),
      Mem.word_storeWord_of_apart (.inl (by omega)), Mem.word_storeWord_self]
  have hflags : m'.word (rb.pucHead + 4) = 0#32 := by
    rw [hm', Mem.word_store_of_apart (.inl (by omega)), Mem.word_storeWord_self]
  have hcopy : ∃ rb', prvCopyItemNoSplit [] rb = (.ok (), rb') ∧ rb'.bufferFull = true := by
    rw [prvCopyItemNoSplit, List.length_nil, Prog.bind_ok hacq, memcpy, Prog.modify_bind]
    simp only []
    rw [← hm', prvSendItemDoneNoSplit, Prog.get_bind,
      Prog.bind_ok (configAssert_true (by
        have := h.aligned
        rw [rbCheckAligned, decide_eq_true_eq]; omega) _),
      Prog.bind_ok (configAssert_true (decide_eq_true (by simp)) _),
      Prog.bind_ok (configAssert_true (decide_eq_true (by simp only []; omega)) _)]
    simp only [rbHeaderSize, Nat.add_sub_cancel, Ringbuffer.xItemLen, Ringbuffer.uxItemFlags, hlen,
      hflags]
    rw [Prog.bind_ok (configAssert_true (by simp) _), Prog.bind_ok (configAssert_true (by decide) _),
      Prog.bind_ok (configAssert_true (by decide) _), setItemFlags, Prog.modify_bind, Prog.modify_bind,
      h.write_eq, Prog.bind_ok (skipItems_stop _ _ _ _)]
    exact ⟨_, rfl, rfl⟩
  obtain ⟨rb', h1, hfull⟩ := hcopy
  have hcopy : copyItem [] rb = (.ok (), rb') := by
    rw [copyItem, Prog.get_bind, h.type_eq]
    exact h1
  have hget : prvGetFreeSize rb' = (.ok 0, rb') := by
    rw [prvGetFreeSize, Prog.get_bind, hfull, if_pos rfl,
      Prog.bind_ok (configAssert_true (decide_eq_true (Nat.zero_le _)) _)]
    rfl
  refine ⟨rb', ?_⟩
  rw [xRingbufferSend, Prog.get_bind, if_neg (by simp), if_neg (by simp [h.type_eq]),
    Prog.bind_ok (h.fits (by decide) _), if_pos rfl, Prog.bind_ok hcopy, Prog.bind_ok hget]
  rfl

end Small

/-! ### The promise -/

section Promise

variable {mem : Mem} {s n storage : ℕ}

lemma alignUp_mod (n : ℕ) : alignUp n % 4 = 0 := by
  rw [alignUp]
  omega

/-- The length of the buffer, when the size of an item can be rounded up. -/
lemma bufferSize_eq (hs : s + 3 < 2 ^ 32) : bufferSize s n = (alignUp s + 8) * n % 2 ^ 32 := by
  rw [bufferSize, rbAlignSize_eq hs, rbHeaderSize, u32, u32, Nat.mod_mul_mod]

/-- The length is a multiple of 4. -/
lemma bufferSize_mod : bufferSize s n % 4 = 0 := by
  have h : (rbAlignSize s + 8) * n % 4 = 0 := by
    rw [Nat.mul_mod, show (rbAlignSize s + 8) % 4 = 0 by rw [rbAlignSize]; omega, Nat.zero_mul,
      Nat.zero_mod]
  rw [bufferSize, rbHeaderSize, u32, u32, Nat.mod_mul_mod,
    Nat.mod_mod_of_dvd _ (by decide : 4 ∣ 2 ^ 32)]
  exact h

lemma storageSize_bufferSize : storageSize .noSplit (bufferSize s n) = bufferSize s n := by
  have h1 : bufferSize s n % 4 = 0 := bufferSize_mod
  have h2 : bufferSize s n < 2 ^ 32 := u32_lt _
  rw [storageSize, if_pos (by decide), rbAlignSize_eq (by omega), alignUp]
  omega

lemma createNoSplit_new (h : Allocated .noSplit (bufferSize s n) storage) :
    New (bufferSize s n) (xRingbufferCreateNoSplit mem s n storage) := by
  have hfits := h.fits
  have hsize : storageSize .noSplit (bufferSize s n) = bufferSize s n := storageSize_bufferSize
  rw [hsize] at hfits
  have hcreate : xRingbufferCreateNoSplit mem s n storage =
      prvInitializeNewRingbuffer mem (bufferSize s n) .noSplit storage := by
    rw [storageSize] at hsize
    rw [xRingbufferCreateNoSplit, xRingbufferCreate, ← bufferSize, hsize]
  rw [hcreate]
  exact ⟨rfl, rfl, rfl, h.aligned, rfl, hfits, rfl, rfl, rfl, rfl⟩

/-- The largest item of a buffer of at least 16 bytes. -/
lemma maxItemSize_eq {b : ℕ} (hb : b < 2 ^ 31) (h12 : 12 ≤ b) :
    maxItemSize b .noSplit = alignUp (b / 2) - 8 := by
  have hle : 8 ≤ alignUp (b / 2) := by rw [alignUp]; omega
  have hlt : alignUp (b / 2) < 2 ^ 32 := by rw [alignUp]; omega
  rw [maxItemSize, rbAlignSize_eq (by omega), rbHeaderSize, u32Sub_of_le hlt hle]

/-- A new buffer of at least 12 bytes is empty. -/
lemma createNoSplit_queue (h : Allocated .noSplit (bufferSize s n) storage)
    (h12 : 12 ≤ bufferSize s n) :
    Queue (xRingbufferCreateNoSplit mem s n storage) ⟨0, 0, 0, 0⟩ [] [] := by
  have hmax := h.max
  have hends := h.fits
  rw [storageSize_bufferSize] at hmax hends
  have halign : alignUp (bufferSize s n) = bufferSize s n := by
    have hmod : bufferSize s n % 4 = 0 := bufferSize_mod
    rw [alignUp]
    omega
  have hq : Queue (xRingbufferCreate mem (bufferSize s n) .noSplit storage) ⟨0, 0, 0, 0⟩ [] [] :=
    create_queue (by omega) (by simp) h.aligned (by rw [halign]; exact hends)
      (by rw [halign]; exact hmax) (by decide)
  exact hq

/-- Two items or more fill a buffer whose length has not wrapped around. -/
lemma holds_of_fits (hn : 2 ≤ n) (hfit : (alignUp s + 8) * n < 2 ^ 32)
    (h : Allocated .noSplit (bufferSize s n) storage) :
    HoldsItems (xRingbufferCreateNoSplit mem s n storage) s n := by
  have hsle := le_alignUp s
  have htwo : (alignUp s + 8) * 2 ≤ (alignUp s + 8) * n := Nat.mul_le_mul_left _ hn
  have hB : bufferSize s n = (alignUp s + 8) * n := by
    rw [bufferSize_eq (by omega), Nat.mod_eq_of_lt hfit]
  have hmax := h.max
  rw [storageSize_bufferSize] at hmax
  have hnew : New _ (xRingbufferCreateNoSplit mem s n storage) := createNoSplit_new h
  have hq : Queue (xRingbufferCreateNoSplit mem s n storage) ⟨0, 0, 0, 0⟩ [] [] :=
    createNoSplit_queue h (by omega)
  have hitem : s ≤ (xRingbufferCreateNoSplit mem s n storage).xMaxItemSize := by
    rw [hnew.max_eq, maxItemSize_eq hmax (by omega)]
    have := le_alignUp (bufferSize s n / 2)
    have h4 : alignUp (bufferSize s n / 2) % 4 = 0 := alignUp_mod _
    omega
  refine ⟨fun items hlen hall => ?_, by rwa [Ringbuffer.xRingbufferGetMaxItemSize]⟩
  refine sendAll_room hq.layout hnew.type_eq hitem hall ?_
  rw [hnew.size_eq, hB, hlen, Nat.zero_add, Nat.mul_comm]

/-- One empty item fits into the 8 bytes that are asked for. -/
lemma holds_empty (h : Allocated .noSplit (bufferSize 0 1) storage) :
    HoldsItems (xRingbufferCreateNoSplit mem 0 1 storage) 0 1 := by
  refine ⟨fun items hlen hall => ?_, Nat.zero_le _⟩
  obtain ⟨item, rfl⟩ := List.length_eq_one_iff.mp hlen
  obtain rfl : item = [] := List.length_eq_zero_iff.mp (hall item List.mem_cons_self)
  have hnew : New _ (xRingbufferCreateNoSplit mem 0 1 storage) := createNoSplit_new h
  obtain ⟨rb', hsend⟩ := send_empty hnew
  exact ⟨rb', by rw [sendAll, Prog.bind_ok hsend]; rfl⟩

/-- The first of the items that have all been sent. -/
lemma sendAll_cons {rb rb' : Ringbuffer} {item : List Byte} {items : List (List Byte)}
    (h : sendAll (item :: items) rb = (.ok true, rb')) :
    ∃ rb₁, xRingbufferSend item rb = (.ok true, rb₁) ∧ sendAll items rb₁ = (.ok true, rb') := by
  obtain ⟨b, rb₁, h1, h2⟩ := Prog.bind_returns h
  cases b with
  | false => simp [Prog.pure_apply] at h2
  | true => exact ⟨rb₁, h1, h2⟩

/-- A length that has wrapped around is too short. -/
lemma not_holds_of_overflow (hpos : 1 ≤ n) (hs : s + 3 < 2 ^ 32)
    (hover : 2 ^ 32 ≤ (alignUp s + 8) * n)
    (h : Allocated .noSplit (bufferSize s n) storage) :
    ¬ HoldsItems (xRingbufferCreateNoSplit mem s n storage) s n := by
  intro hholds
  have hnew : New _ (xRingbufferCreateNoSplit mem s n storage) := createNoSplit_new h
  have hB : bufferSize s n = (alignUp s + 8) * n % 2 ^ 32 := bufferSize_eq hs
  have hmod4 : bufferSize s n % 4 = 0 := bufferSize_mod
  have hBpos := h.pos
  rw [storageSize_bufferSize] at hBpos
  have hal : alignUp s ≤ s + 3 := by rw [alignUp]; omega
  obtain ⟨rb', hsend⟩ := hholds.sends (List.replicate n (List.replicate s 0#8))
    List.length_replicate (fun item hitem => by
      rw [(List.mem_replicate.mp hitem).2, List.length_replicate])
  obtain ⟨n, rfl⟩ := Nat.exists_eq_add_of_le' hpos
  obtain h4 | h8 | h12 : bufferSize s (n + 1) = 4 ∨ bufferSize s (n + 1) = 8 ∨
    12 ≤ bufferSize s (n + 1) := by omega
  · rw [h4] at hnew
    obtain ⟨rb₁, h1, _⟩ := sendAll_cons hsend
    exact send_four hnew h1
  · rw [h8] at hnew
    obtain ⟨rb₁, h1, h2⟩ := sendAll_cons hsend
    have hne : alignUp s + 8 ≠ 2 ^ 32 := by
      intro heq
      rw [heq, Nat.mul_mod_right] at hB
      omega
    obtain ⟨hfull, hacq, hty⟩ := send_eight hnew (by rwa [List.length_replicate])
      (by rwa [List.length_replicate]) h1
    cases n with
    | zero =>
      have h4 : alignUp s % 4 = 0 := alignUp_mod s
      omega
    | succ n =>
      obtain ⟨rb₂, h3, _⟩ := sendAll_cons h2
      exact send_full hty hfull hacq h3
  · have hq : Queue (xRingbufferCreateNoSplit mem s (n + 1) storage) ⟨0, 0, 0, 0⟩ [] [] :=
      createNoSplit_queue h h12
    have htakes := sendAll_takes hq.layout hnew.type_eq (s := s) (fun item hitem => by
      rw [(List.mem_replicate.mp hitem).2, List.length_replicate]) hsend
    rw [hnew.size_eq, List.length_replicate, Nat.zero_add, Nat.mul_comm] at htakes
    have := Nat.mod_lt ((alignUp s + 8) * (n + 1)) (show 0 < 2 ^ 32 by decide)
    omega

/-- A buffer for one item has too small a largest item, unless the item is empty. -/
lemma not_holds_one (hs : 0 < s) (hfit : alignUp s + 8 < 2 ^ 32)
    (h : Allocated .noSplit (bufferSize s 1) storage) :
    ¬ HoldsItems (xRingbufferCreateNoSplit mem s 1 storage) s 1 := by
  intro hholds
  have hsle := le_alignUp s
  have hB : bufferSize s 1 = alignUp s + 8 := by
    rw [bufferSize_eq (by omega), Nat.mul_one, Nat.mod_eq_of_lt hfit]
  have hmax := h.max
  rw [storageSize_bufferSize] at hmax
  have hitem := hholds.max
  have h4 : alignUp s % 4 = 0 := alignUp_mod s
  have hnew : New _ (xRingbufferCreateNoSplit mem s 1 storage) := createNoSplit_new h
  rw [Ringbuffer.xRingbufferGetMaxItemSize, hnew.max_eq, maxItemSize_eq hmax (by omega),
    hB] at hitem
  have hhalf : alignUp ((alignUp s + 8) / 2) < (alignUp s + 8) / 2 + 4 := by
    rw [alignUp]
    omega
  have hup : alignUp s < s + 4 := by
    rw [alignUp]
    omega
  have h4' : alignUp ((alignUp s + 8) / 2) % 4 = 0 := alignUp_mod _
  omega

/-- The size of an item that cannot be rounded up is larger than any item. -/
lemma not_holds_unaligned (hlt : s < 2 ^ 32) (hs : 2 ^ 32 ≤ s + 3)
    (h : Allocated .noSplit (bufferSize s n) storage) :
    ¬ HoldsItems (xRingbufferCreateNoSplit mem s n storage) s n := by
  intro hholds
  have hpos := h.pos
  have hmax := h.max
  rw [storageSize_bufferSize] at hpos hmax
  have hmod4 : bufferSize s n % 4 = 0 := bufferSize_mod
  have hitem := hholds.max
  have hnew : New _ (xRingbufferCreateNoSplit mem s n storage) := createNoSplit_new h
  rw [Ringbuffer.xRingbufferGetMaxItemSize, hnew.max_eq] at hitem
  obtain h4 | h8 | h12 : bufferSize s n = 4 ∨ bufferSize s n = 8 ∨ 12 ≤ bufferSize s n := by omega
  · rw [h4, show maxItemSize 4 .noSplit = 2 ^ 32 - 4 by decide] at hitem
    omega
  · rw [h8, show maxItemSize 8 .noSplit = 2 ^ 32 - 4 by decide] at hitem
    omega
  · rw [maxItemSize_eq hmax h12, alignUp] at hitem
    omega

/-- A buffer that `xRingbufferCreateNoSplit` has created for `n` items of `s` bytes holds them
exactly when its length does not wrap around and it is for two items at least, or for an empty
one. -/
theorem createNoSplit_holds_iff (hlt : s < 2 ^ 32) (hn : 1 ≤ n)
    (h : Allocated .noSplit (bufferSize s n) storage) :
    HoldsItems (xRingbufferCreateNoSplit mem s n storage) s n ↔
      (alignUp s + 8) * n < 2 ^ 32 ∧ (2 ≤ n ∨ s = 0) := by
  constructor
  · intro hholds
    have hs : s + 3 < 2 ^ 32 := by
      by_contra hs
      exact not_holds_unaligned hlt (by omega) h hholds
    have hfit : (alignUp s + 8) * n < 2 ^ 32 := by
      by_contra hover
      exact not_holds_of_overflow hn hs (by omega) h hholds
    refine ⟨hfit, ?_⟩
    by_contra hone
    obtain rfl : n = 1 := by omega
    rw [Nat.mul_one] at hfit
    exact not_holds_one (by omega) hfit h hholds
  · rintro ⟨hfit, hcase⟩
    by_cases h2 : 2 ≤ n
    · exact holds_of_fits h2 hfit h
    · obtain rfl : n = 1 := by omega
      obtain rfl : s = 0 := by omega
      exact holds_empty h

/-- Three items of 5 bytes. -/
theorem createNoSplit_holds_three :
    HoldsItems (xRingbufferCreateNoSplit (fun _ => 0#8) 5 3 0x3ffb0000) 5 3 :=
  (createNoSplit_holds_iff (by decide) (by decide) (by constructor <;> decide)).mpr
    ⟨by decide, by decide⟩

/-- A buffer for one item of 32 bytes takes no item of more than 12 bytes. -/
theorem createNoSplit_one_item :
    Allocated .noSplit (bufferSize 32 1) 0x3ffb0000 ∧
      (xRingbufferCreateNoSplit (fun _ => 0#8) 32 1 0x3ffb0000).xRingbufferGetMaxItemSize = 12 ∧
      ¬ HoldsItems (xRingbufferCreateNoSplit (fun _ => 0#8) 32 1 0x3ffb0000) 32 1 :=
  ⟨by constructor <;> decide, by decide, fun h => absurd h.max (by decide)⟩

end Promise

end EspIdf.RingBuffer.Sizing
