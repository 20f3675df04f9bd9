/-
# Sending items

What `xRingbufferSend` does to the layout of a no-split and of an allow-split buffer.  An item
of an allow-split buffer that does not fit before the end of the ring is stored as two cells.
-/
import EspIdf.RingBuffer.Steps

namespace EspIdf.RingBuffer

open EspIdf.Lib

variable {rb rb' : Ringbuffer} {k : Marks} {H R P : List Cell} {c : Cell}

/-- The free size is computed without a failed check. -/
lemma prvGetFreeSize_ok (hf : rb.pucHead ≤ rb.pucFree ∧ rb.pucFree < rb.pucTail)
    (ha : rb.pucHead ≤ rb.pucAcquire ∧ rb.pucAcquire < rb.pucTail)
    (ht : rb.pucTail = rb.pucHead + rb.xSize) (hs : rb.xSize < 2 ^ 31) :
    ∃ n, prvGetFreeSize rb = (.ok n, rb) := by
  rw [prvGetFreeSize, Prog.get_bind]
  rw [Prog.bind_ok (configAssert_true (decide_eq_true ?_) rb)]
  · exact ⟨_, rfl⟩
  · split_ifs <;> omega

lemma Layout.prvGetFreeSize_ok (h : Layout rb k H R P) :
    ∃ n, prvGetFreeSize rb = (.ok n, rb) := by
  have hs := h.storage
  apply RingBuffer.prvGetFreeSize_ok _ _ hs.tail_eq hs.size_lt
  · rw [h.free_eq]
    exact hs.place_bounds _
  · rw [h.acquire_eq]
    exact hs.place_bounds _

/-! ### No-split buffers -/

/-- The last cell of a chain is the only one at its position. -/
lemma map_updateAt_last {n p q : ℕ} {cs : List Cell} {g : Cell → Cell}
    (hc : CellChain p (cs ++ [c]) q) (hl : ∀ d ∈ cs ++ [c], d.Lies n) :
    (cs ++ [c]).map (Cell.updateAt c.pos g) = cs ++ [g c] := by
  obtain ⟨r, h1, h2⟩ := Ring.chain_append.mp hc
  rw [List.map_append, map_updateAt_of_ne, List.map_singleton, Cell.updateAt, if_pos rfl]
  intro d hd
  have h3 := Ring.chain_mem h1 hd
  have h4 := (hl d (List.mem_append_left _ hd)).span_ge
  have h5 := h2.1
  omega

/-- An item is sent to a no-split buffer: it is the last of the pending cells, and what is done
at their front becomes ready. -/
lemma prvCopyItemNoSplit_ok (h : Layout rb k H R P) {item : List Byte}
    (hlen : item.length ≤ rb.xMaxItemSize)
    (hfit : FitsBefore rb k item.length ∨ FitsAfter rb k item.length) :
    ∃ rb' r a c P₁ P₂, prvCopyItemNoSplit item rb = (.ok (), rb') ∧
      Layout rb' { k with write := r, acquire := a } H (R ++ P₁) P₂ ∧ SameStorage rb' rb ∧
      rb'.xItemsWaiting = rb.xItemsWaiting + 1 ∧
      P ++ skipped rb k item.length ++ [c] = P₁ ++ P₂ ∧
      P₁ = (if a = k.write + rb.xSize then []
        else (P ++ skipped rb k item.length ++ [c]).takeWhile Cell.done) ∧
      P₂ = (if a = k.write + rb.xSize then P ++ skipped rb k item.length ++ [c]
        else (P ++ skipped rb k item.length ++ [c]).dropWhile Cell.done) ∧
      c.data = item ∧ c.dummy = false ∧ c.free = false ∧ c.written = true ∧ c.split = false ∧
      ∃ rb₁, prvAcquireItemNoSplit item.length rb = (.ok (rb.place c.pos + 8), rb₁) := by
  obtain ⟨rb₁, a, c, h1, hL₁, hs₁, hw₁, hcl, hcd, hcf, hcw, hcs⟩ :=
    prvAcquireItemNoSplit_ok h hlen hfit
  -- the data is copied
  have hmem : c ∈ P ++ skipped rb k item.length ++ [c] := by simp
  have hL₂ := hL₁.fill hmem hcd hcl.symm
  have hfill := hL₁.fill_same hmem hcd hcl.symm
  rw [map_updateAt_last hL₁.pending_chain
    fun d hd => hL₁.lies d (List.mem_append_right _ hd)] at hL₂
  -- the item is completed
  obtain ⟨rb₃, r, P₁, P₂, h3, hL₃, hs₃, hw₃, hP, hP₁, hP₂⟩ :=
    prvSendItemDoneNoSplit_ok hL₂ (c := Cell.fill item c) (by simp) hcd hcw
  have hlast : (P ++ skipped rb k item.length ++ [Cell.fill item c]).map
      (Cell.updateAt (Cell.fill item c).pos Cell.complete) =
      P ++ skipped rb k item.length ++ [(Cell.fill item c).complete] :=
    map_updateAt_last hL₂.pending_chain fun d hd => hL₂.lies d (List.mem_append_right _ hd)
  rw [hlast] at hP hP₁ hP₂
  have hsize : rb₁.xSize = rb.xSize := hs₁.size
  refine ⟨rb₃, r, a, (Cell.fill item c).complete, P₁, P₂, ?_, hL₃, hs₃.trans (hfill.trans hs₁),
    by rw [hw₃, ← hw₁], hP, ?_, ?_, rfl, hcd, hcf, rfl, rfl, rb₁, h1⟩
  · rw [prvCopyItemNoSplit, Prog.bind_ok h1, memcpy, Prog.modify_bind, ← hs₁.place]
    exact h3
  · rw [hP₁]
    simp only [hsize]
  · rw [hP₂]
    simp only [hsize]

/-- The cells of a buffer in which nothing is acquired: all of them are ready. -/
lemma prvCopyItemNoSplit_ready (h : Layout rb k H R []) {item : List Byte}
    (hlen : item.length ≤ rb.xMaxItemSize)
    (hfit : FitsBefore rb k item.length ∨ FitsAfter rb k item.length) :
    ∃ rb' a c, prvCopyItemNoSplit item rb = (.ok (), rb') ∧
      Layout rb' { k with write := a, acquire := a } H (R ++ (skipped rb k item.length ++ [c])) [] ∧
      SameStorage rb' rb ∧ rb'.xItemsWaiting = rb.xItemsWaiting + 1 ∧
      c.data = item ∧ c.dummy = false ∧ c.free = false ∧ c.split = false := by
  obtain ⟨rb', r, a, c, P₁, P₂, h1, hL, hs, hw, hP, hP₁, hP₂, hcd, hcdum, hcf, hcw, hcs, _⟩ :=
    prvCopyItemNoSplit_ok h hlen hfit
  rw [List.nil_append] at hP hP₁ hP₂
  refine ⟨rb', a, c, h1, ?_, hs, hw, hcd, hcdum, hcf, hcs⟩
  have hdone : ∀ d ∈ skipped rb k item.length ++ [c], Cell.done d = true := by
    intro d hd
    rw [skipped] at hd
    rcases List.mem_append.mp hd with hd | hd
    · split_ifs at hd
      · simp at hd
      · rw [List.mem_singleton.mp hd]
        rfl
    · rw [List.mem_singleton.mp hd, Cell.done, hcw, Bool.or_true]
  have hwrite : rb'.pucWrite = rb'.place a := by
    rw [hL.write_eq]
    by_cases hring : a = k.write + rb.xSize
    · -- the new cells are the whole ring
      rw [if_pos hring] at hP₁
      subst hP₁
      have hr := hL.ready_chain
      rw [List.append_nil] at hr
      rw [← Ring.chain_end h.ready_chain hr, hring, Ringbuffer.place, Ringbuffer.place, hs.size,
        Nat.add_mod_right]
    · rw [if_neg hring, List.dropWhile_eq_nil_iff.mpr hdone] at hP₂
      subst hP₂
      exact congrArg rb'.place hL.pending_chain
  have := hL.promote hwrite
  rw [List.append_assoc, ← hP] at this
  exact this

/-! ### Allow-split buffers -/

/-- The cells that hold an item: one cell, perhaps behind dummy data, or two parts. -/
def Carries (item : List Byte) (cs : List Cell) : Prop :=
  (∃ c, cs = [c] ∧ c.data = item ∧ c.dummy = false ∧ c.free = false ∧ c.split = false) ∨
    (∃ d c, cs = [d, c] ∧ d.dummy = true ∧ c.data = item ∧ c.dummy = false ∧ c.free = false ∧
      c.split = false) ∨
    ∃ c₁ c₂, cs = [c₁, c₂] ∧ c₁.data ++ c₂.data = item ∧ c₁.dummy = false ∧ c₂.dummy = false ∧
      c₁.free = false ∧ c₂.free = false ∧ c₁.split = true ∧ c₂.split = false

/-- The buffer after a part of an item has been stored; `markFull` has not run. -/
def withPart (rb : Ringbuffer) (bs : List Byte) (split : Bool) : Ringbuffer :=
  { rb with
    mem := (((rb.mem.storeWord rb.pucAcquire (BitVec.ofNat 32 bs.length)).storeWord
      (rb.pucAcquire + 4) (if split then rbItemSplitFlag else 0#32)).store
        (rb.pucAcquire + 8) bs)
    pucAcquire := wrapAround rb (rb.pucAcquire + (8 + alignUp bs.length))
    bufferFull := rb.bufferFull ||
      wrapAround rb (rb.pucAcquire + (8 + alignUp bs.length)) == rb.pucFree
    xItemsWaiting := rb.xItemsWaiting + 1 }

lemma withPart_same (h : Layout rb k H R P) {bs : List Byte} (split : Bool)
    (hfit : FitsBefore rb k bs.length) : SameStorage (withPart rb bs split) rb := by
  have hin := h.acquire_within
  have hend := h.end_within hfit
  refine ⟨rfl, rfl, rfl, rfl, rfl, fun x hx => ?_⟩
  exact (Mem.store_of_not_mem (by omega)).trans
    ((Mem.storeWord_of_not_mem (by omega)).trans (Mem.storeWord_of_not_mem (by omega)))

lemma withPart_layout (h : Layout rb k H R P) {bs : List Byte} (split : Bool)
    (hlen : bs.length ≤ rb.xMaxItemSize) (hfit : FitsBefore rb k bs.length) :
    Layout (withPart rb bs split)
      { k with acquire := k.acquire + itemSpan rb.xSize (k.acquire % rb.xSize) bs.length } H R
      (P ++ [itemCell rb k bs split]) := by
  have hmax := h.storage.max_lt
  have hsz := h.storage.size_lt
  have hw := header_words (m := rb.mem) (p := rb.pucAcquire)
    (if split then rbItemSplitFlag else 0#32) (show bs.length < 2 ^ 32 by omega)
  have hsame := withPart_same h split hfit
  refine h.append_item hsame hlen hfit ?_ ?_ Mem.read_store_self (fun x hx => ?_) ⟨rfl, rfl, rfl⟩
    rfl rfl
  · refine Eq.trans ?_ hw.1
    exact congrArg BitVec.toNat (Mem.word_store_of_apart (.inl (by omega)))
  · exact (Mem.word_store_of_apart (.inl (by omega))).trans hw.2
  · exact (Mem.store_of_not_mem (by omega)).trans
      ((Mem.storeWord_of_not_mem (by omega)).trans (Mem.storeWord_of_not_mem (by omega)))

/-- The buffer after the first part `bs` of an item has been stored. -/
def withFirstPart (rb : Ringbuffer) (bs : List Byte) : Ringbuffer :=
  { rb with
    mem := (((rb.mem.storeWord (rb.pucAcquire + 4) 0#32).storeWord rb.pucAcquire
      (BitVec.ofNat 32 bs.length)).store (rb.pucAcquire + 8) bs).storeWord (rb.pucAcquire + 4)
        (0#32 ||| rbItemSplitFlag)
    pucAcquire := rb.pucHead
    xItemsWaiting := rb.xItemsWaiting + 1 }

lemma withFirstPart_same (h : Layout rb k H R P) {bs : List Byte}
    (hend : k.acquire % rb.xSize + 8 + bs.length = rb.xSize) :
    SameStorage (withFirstPart rb bs) rb := by
  have hin := h.acquire_within
  have htail := h.storage.tail_eq
  have hacq := h.acquire_eq
  rw [Ringbuffer.place] at hacq
  refine ⟨rfl, rfl, rfl, rfl, rfl, fun x hx => ?_⟩
  exact (Mem.storeWord_of_not_mem (by omega)).trans ((Mem.store_of_not_mem (by omega)).trans
    ((Mem.storeWord_of_not_mem (by omega)).trans (Mem.storeWord_of_not_mem (by omega))))

lemma withFirstPart_layout (h : Layout rb k H R P) {bs : List Byte}
    (hlen : bs.length ≤ rb.xMaxItemSize) (hend : k.acquire % rb.xSize + 8 + bs.length = rb.xSize)
    (hle : k.acquire + (rb.xSize - k.acquire % rb.xSize) < k.free + rb.xSize) :
    Layout (withFirstPart rb bs)
      { k with acquire := k.acquire + (rb.xSize - k.acquire % rb.xSize) } H R
      (P ++ [itemCell rb k bs true]) := by
  have hs := h.storage
  have hsa := hs.size_aligned
  have hmax := hs.max_lt
  have hsz := hs.size_lt
  have htl := hs.tail_lt
  obtain ⟨hr1, hr2⟩ := h.room
  have hal : alignUp bs.length = bs.length := by rw [alignUp]; omega
  have hspan : itemSpan rb.xSize (k.acquire % rb.xSize) bs.length =
      rb.xSize - k.acquire % rb.xSize := by
    rw [itemSpan, if_pos (by omega)]
  have hacq : rb.pucAcquire + (8 + bs.length) = rb.pucTail := by
    rw [h.acquire_eq, Ringbuffer.place, hs.tail_eq]
    omega
  have hwrap : wrapAround rb (rb.pucAcquire + (8 + alignUp bs.length)) = rb.pucHead := by
    rw [hal, hacq, wrapAround, u32Sub_of_le htl (Nat.le_refl _), Nat.sub_self, rbHeaderSize]
    rfl
  have hsame := withFirstPart_same h hend
  rw [← hspan]
  refine h.append_item hsame hlen ⟨by omega, by omega⟩ ?_ Mem.word_storeWord_self ?_
    (fun x hx => ?_) ⟨rfl, rfl, rfl⟩ hwrap.symm ?_
  · show ((withFirstPart rb bs).mem.word rb.pucAcquire).toNat = bs.length
    rw [withFirstPart, Mem.word_storeWord_of_apart (.inl (Nat.le_refl _)),
      Mem.word_store_of_apart (.inl (by omega)), Mem.word_storeWord_self, BitVec.toNat_ofNat,
      Nat.mod_eq_of_lt (by omega)]
  · exact (Mem.read_storeWord_of_apart (.inr (Nat.le_refl _))).trans Mem.read_store_self
  · exact (Mem.storeWord_of_not_mem (by omega)).trans ((Mem.store_of_not_mem (by omega)).trans
      ((Mem.storeWord_of_not_mem (by omega)).trans (Mem.storeWord_of_not_mem (by omega))))
  · -- the free pointer does not stand at the start of the ring
    have hord := h.order
    have hmod := Ring.mod_eq_mod_iff hs.size_pos (p := k.free)
      (q := k.acquire + (rb.xSize - k.acquire % rb.xSize)) (by omega) (Nat.le_of_lt hle)
    rw [Ring.add_mod_of_within hs.size_pos (by omega), if_pos (by omega)] at hmod
    show rb.bufferFull = (rb.bufferFull || rb.pucHead == rb.pucFree)
    rw [beq_eq_false_iff_ne.mpr, Bool.or_false]
    rw [h.free_eq, Ringbuffer.place]
    omega

/-- The first part of an item that does not fit before the end of the ring: it fills the ring
up to its end, with dummy data when there is only room for a header. -/
lemma copyFirstPart_ok (h : Layout rb k H R P) {item : List Byte}
    (hlen : item.length ≤ rb.xMaxItemSize) (hfit : FitsSplit rb k item.length) :
    ∃ rb' d rest, copyFirstPart item (rb.xSize - k.acquire % rb.xSize) (alignUp item.length) rb =
        (.ok (rest, alignUp rest.length), rb') ∧
      Layout rb' { k with acquire := k.acquire + (rb.xSize - k.acquire % rb.xSize) } H R
        (P ++ [d]) ∧ SameStorage rb' rb ∧ rest.length ≤ item.length ∧
      FitsBefore rb' { k with acquire := k.acquire + (rb.xSize - k.acquire % rb.xSize) }
        rest.length ∧
      (d.dummy = true ∧ rest = item ∧ rb'.xItemsWaiting = rb.xItemsWaiting ∨
        d.dummy = false ∧ d.free = false ∧ d.split = true ∧ d.data ++ rest = item ∧
          rb'.xItemsWaiting = rb.xItemsWaiting + 1) ∧
      (d.split = true → rb.place (d.pos + d.span) < rb.place d.pos) := by
  have hs := h.storage
  have hord := h.order
  obtain ⟨hr1, hr2⟩ := h.room
  obtain ⟨hf1, hf2⟩ := hfit
  have hsz := hs.size_lt
  have hsa := hs.size_aligned
  have hmax := hs.max_lt
  have htail := hs.tail_eq
  have hacq := h.acquire_eq
  rw [Ringbuffer.place] at hacq
  have hal : alignUp item.length < item.length + 4 := by rw [alignUp]; omega
  have hal4 : alignUp item.length % 4 = 0 := by rw [alignUp]; omega
  have hzero : (k.acquire + (rb.xSize - k.acquire % rb.xSize)) % rb.xSize = 0 := by
    rw [Ring.add_mod_of_within hs.size_pos (by omega), if_pos (by omega)]
  have hrem : u32Sub (rb.xSize - k.acquire % rb.xSize) 8 = rb.xSize - k.acquire % rb.xSize - 8 :=
    u32Sub_of_le (by omega) (by omega)
  rw [copyFirstPart, Prog.get_bind]
  simp only [rbHeaderSize, hrem]
  rw [setItemFlags, setItemLen, Prog.modify_bind, Prog.modify_bind]
  have hfit' : ∀ rest : ℕ, alignUp rest + (rb.xSize - k.acquire % rb.xSize - 8) ≤
      alignUp item.length → FitsBefore rb
        { k with acquire := k.acquire + (rb.xSize - k.acquire % rb.xSize) } rest := by
    intro rest hrest
    constructor <;> simp only [hzero, itemSpan]
    · omega
    · split_ifs <;> omega
  by_cases hpart : 0 < rb.xSize - k.acquire % rb.xSize - 8
  · -- a first part of the data
    rw [if_pos hpart]
    have htake : (item.take (rb.xSize - k.acquire % rb.xSize - 8)).length =
        rb.xSize - k.acquire % rb.xSize - 8 := by
      rw [List.length_take]
      omega
    have hdrop : alignUp (item.drop (rb.xSize - k.acquire % rb.xSize - 8)).length =
        u32Sub (alignUp item.length) (rb.xSize - k.acquire % rb.xSize - 8) := by
      rw [u32Sub_of_le (by omega) (by omega), List.length_drop]
      simp only [alignUp] at hal hal4 ⊢
      omega
    have hle : (item.take (rb.xSize - k.acquire % rb.xSize - 8)).length ≤ rb.xMaxItemSize := by
      omega
    have hL := withFirstPart_layout h hle (by omega) (by omega)
    refine ⟨_, _, item.drop (rb.xSize - k.acquire % rb.xSize - 8), ?_, hL,
      withFirstPart_same h (by omega), ?_, ?_, .inr ⟨rfl, rfl, rfl, List.take_append_drop _ _, rfl⟩, ?_⟩
    · rw [hdrop, withFirstPart, htake]
      rfl
    · rw [List.length_drop]
      omega
    · apply hfit'
      rw [hdrop, u32Sub_of_le (by omega) (by omega)]
      omega
    · -- the first part ends with the ring and does not start it
      intro _
      have hround : alignUp (rb.xSize - k.acquire % rb.xSize - 8) =
          rb.xSize - k.acquire % rb.xSize - 8 := by
        rw [alignUp]
        omega
      simp only [itemCell, htake, itemSpan, hround]
      rw [if_pos (by omega), Ringbuffer.place, Ringbuffer.place, hzero]
      omega
  · -- only a header has room
    rw [if_neg hpart]
    have hin := h.acquire_within
    have hother : ∀ x, ¬ (rb.pucAcquire ≤ x ∧ x < rb.pucAcquire + 8) →
        ((rb.mem.storeWord (rb.pucAcquire + 4) 0#32).storeWord rb.pucAcquire
          (BitVec.ofNat 32 (rb.xSize - k.acquire % rb.xSize - 8))).storeWord (rb.pucAcquire + 4)
            (0#32 ||| rbItemDummyDataFlag) x = rb.mem x := fun x hx =>
      (Mem.storeWord_of_not_mem (by omega)).trans
        ((Mem.storeWord_of_not_mem (by omega)).trans (Mem.storeWord_of_not_mem (by omega)))
    refine ⟨{ rb with
        mem := ((rb.mem.storeWord (rb.pucAcquire + 4) 0#32).storeWord rb.pucAcquire
          (BitVec.ofNat 32 (rb.xSize - k.acquire % rb.xSize - 8))).storeWord (rb.pucAcquire + 4)
            (0#32 ||| rbItemDummyDataFlag)
        pucAcquire := rb.pucHead },
      dummyCell rb k, item, rfl, ?_,
      ⟨rfl, rfl, rfl, rfl, rfl, fun x hx => hother x (by omega)⟩, Nat.le_refl _, ?_,
      .inl ⟨rfl, rfl, rfl⟩, fun h => by simp [dummyCell] at h⟩
    · refine h.append_dummy ⟨rfl, rfl, rfl, rfl, rfl, fun x hx => hother x (by omega)⟩ ?_
        (by omega) (fun x hx => hother x (by omega)) ⟨rfl, rfl, rfl⟩ rfl rfl
      rw [Ringbuffer.uxItemFlags, Mem.word_storeWord_self]
      rfl
    · apply hfit'
      omega

/-- The last part of an item is stored and the write pointer follows the acquire pointer. -/
lemma copyLastPart_ok (h : Layout rb k H R P) {bs : List Byte}
    (hlen : bs.length ≤ rb.xMaxItemSize) (hfit : FitsBefore rb k bs.length) :
    ∃ rb' a, copyLastPart bs (alignUp bs.length) rb = (.ok (), rb') ∧
      Layout rb' { k with write := a, acquire := a } H (R ++ (P ++ [itemCell rb k bs false])) [] ∧
      SameStorage rb' rb ∧ rb'.xItemsWaiting = rb.xItemsWaiting + 1 := by
  have h₁ := withPart_layout h false hlen hfit
  refine ⟨{ withPart rb bs false with pucWrite := (withPart rb bs false).pucAcquire }, _, ?_,
    h₁.advance_write ⟨rfl, rfl, rfl, rfl, rfl, fun _ _ => rfl⟩ (List.append_nil _).symm
      h₁.pending_chain rfl (fun c hc => ?_) ⟨rfl, rfl, rfl⟩ h₁.acquire_eq rfl,
    ⟨rfl, rfl, rfl, rfl, rfl, (withPart_same h false hfit).outside⟩, rfl⟩
  · rw [withPart, ← Nat.add_assoc]
    rfl
  · exact (h₁.stored c hc).congr ⟨rfl, rfl, rfl, rfl, rfl, fun _ _ => rfl⟩ fun _ _ _ => rfl

/-- An item is sent to an allow-split buffer. -/
lemma prvCopyItemAllowSplit_ok (h : Layout rb k H R []) {item : List Byte}
    (hlen : item.length ≤ rb.xMaxItemSize)
    (hfit : FitsBefore rb k item.length ∨ FitsSplit rb k item.length) :
    ∃ rb' a cs, prvCopyItemAllowSplit item rb = (.ok (), rb') ∧
      Layout rb' { k with write := a, acquire := a } H (R ++ cs) [] ∧ SameStorage rb' rb ∧
      Carries item cs ∧
      (∀ c ∈ cs, c.split = true → rb.place (c.pos + c.span) < rb.place c.pos) ∧
      rb'.xItemsWaiting = rb.xItemsWaiting + (cs.countP fun c => !c.dummy : ℕ) := by
  have hs := h.storage
  have hsz := hs.size_lt
  have hmax := hs.max_lt
  have hal : alignUp item.length ≤ rb.xMaxItemSize := alignUp_le_of_le hlen hs.max_le.2.2
  obtain ⟨ha1, ha2, ha3⟩ := h.acquire_checks
  obtain ⟨hr1, hr2⟩ := h.room
  rw [prvCopyItemAllowSplit, Prog.get_bind]
  simp only [rbAlignSize_eq (show item.length + 3 < 2 ^ 32 by omega), rbHeaderSize, ha3,
    u32_of_lt (show alignUp item.length + 8 < 2 ^ 32 by omega)]
  rw [Prog.bind_ok (configAssert_true ha1 rb), Prog.bind_ok (configAssert_true ha2 rb),
    Prog.bind_ok (configAssert_true (decide_eq_true (by omega)) rb)]
  rcases hfit with hfit | hfit
  · -- the item is stored as a whole
    obtain ⟨rb', a, h1, hL, hs', hw⟩ := copyLastPart_ok h hlen hfit
    have hf := hfit.1
    rw [if_neg (by omega), h1]
    exact ⟨rb', a, _, rfl, hL, hs', .inl ⟨_, rfl, rfl, rfl, rfl, rfl⟩, by simp [itemCell], hw⟩
  · obtain ⟨rb₁, d, rest, h1, hL₁, hs₁, hle, hfit₁, hd, hsp⟩ := copyFirstPart_ok h hlen hfit
    obtain ⟨rb', a, h2, hL, hs', hw⟩ := copyLastPart_ok hL₁ (by rw [hs₁.max]; omega) hfit₁
    have hf := hfit.1
    rw [if_pos (by omega), Prog.bind_ok h1, h2]
    refine ⟨rb', a, _, rfl, hL, hs'.trans hs₁, ?_, by simpa [itemCell] using hsp, ?_⟩
    · rcases hd with ⟨hd1, rfl, _⟩ | ⟨hd1, hd2, hd3, hd4, _⟩
      · exact .inr (.inl ⟨d, _, rfl, hd1, rfl, rfl, rfl, rfl⟩)
      · exact .inr (.inr ⟨d, _, rfl, hd4, hd1, rfl, hd2, rfl, hd3, rfl⟩)
    · rcases hd with ⟨hd1, _, hw₁⟩ | ⟨hd1, _, _, _, hw₁⟩
      · rw [hw, hw₁]
        simp [hd1, itemCell]
      · rw [hw, hw₁]
        simp [hd1, itemCell, Int.add_assoc]

/-- An item is sent, or nothing changes. -/
lemma xRingbufferSend_ok (h : Layout rb k H R []) (item : List Byte) :
    (xRingbufferSend item rb = (.ok false, rb) ∧
        ¬ (item.length ≤ rb.xMaxItemSize ∧ itemFits rb item.length = true)) ∨
      ∃ rb' a cs, xRingbufferSend item rb = (.ok true, rb') ∧
        Layout rb' { k with write := a, acquire := a } H (R ++ cs) [] ∧ SameStorage rb' rb ∧
        Carries item cs ∧
        (rb.type = .noSplit → ∃ c, cs = skipped rb k item.length ++ [c] ∧ c.data = item ∧
          c.dummy = false ∧ ∀ d ∈ cs, d.split = false) ∧
        (∀ c ∈ cs, c.split = true → rb.place (c.pos + c.span) < rb.place c.pos) ∧
        rb'.xItemsWaiting = rb.xItemsWaiting + (cs.countP fun c => !c.dummy : ℕ) := by
  rw [xRingbufferSend, Prog.get_bind]
  by_cases hlen : rb.xMaxItemSize < item.length
  · rw [if_pos hlen]
    exact .inl ⟨rfl, by omega⟩
  have hlen : item.length ≤ rb.xMaxItemSize := by omega
  have hty := h.storage.type_ne
  obtain ⟨hno, hallow⟩ := itemFits_room h hlen
  rw [if_neg (by omega), if_neg (by simp [hty]), Prog.bind_ok (checkItemFits_eq h hlen)]
  cases hfit : itemFits rb item.length with
  | false => exact .inl ⟨rfl, by simp⟩
  | true =>
    right
    cases hty' : rb.type with
    | byteBuf => exact absurd hty' hty
    | noSplit =>
      obtain ⟨rb', a, c, h1, hL, hs, hw, hcd, hcdum, hcf, hcs⟩ :=
        prvCopyItemNoSplit_ready h hlen (hno hfit hty')
      obtain ⟨n, hn⟩ := hL.prvGetFreeSize_ok
      have hcopy : copyItem item rb = (.ok (), rb') := by
        rw [copyItem, Prog.get_bind, hty']
        exact h1
      have hnosplit : ∀ d ∈ skipped rb k item.length ++ [c], d.split = false := by
        intro d hd
        rw [skipped] at hd
        split_ifs at hd
        · rw [List.mem_singleton.mp hd]
          exact hcs
        · rcases List.mem_cons.mp hd with rfl | hd
          · rfl
          · rw [List.mem_singleton.mp hd]
            exact hcs
      refine ⟨rb', a, _, ?_, hL, hs, ?_,
        fun _ => ⟨c, rfl, hcd, hcdum, hnosplit⟩,
        fun d hd h => absurd h (by simp [hnosplit d hd]), ?_⟩
      · simp only [↓reduceIte]
        rw [Prog.bind_ok hcopy, Prog.bind_ok hn]
        rfl
      · rw [skipped]
        split_ifs
        · exact .inl ⟨c, rfl, hcd, hcdum, hcf, hcs⟩
        · exact .inr (.inl ⟨_, c, rfl, rfl, hcd, hcdum, hcf, hcs⟩)
      · rw [hw, skipped]
        split_ifs <;> simp [hcdum, dummyCell]
    | allowSplit =>
      obtain ⟨rb', a, cs, h1, hL, hs, hcar, hsp, hw⟩ :=
        prvCopyItemAllowSplit_ok h hlen (hallow hfit hty')
      obtain ⟨n, hn⟩ := hL.prvGetFreeSize_ok
      have hcopy : copyItem item rb = (.ok (), rb') := by
        rw [copyItem, Prog.get_bind, hty']
        exact h1
      refine ⟨rb', a, cs, ?_, hL, hs, hcar, fun h => by simp at h, hsp, hw⟩
      simp only [↓reduceIte]
      rw [Prog.bind_ok hcopy, Prog.bind_ok hn]
      rfl

end EspIdf.RingBuffer
