/-
# Completing, retrieving and returning items

Each function moves cells between the three lists of the layout: a completed item lets the
write pointer advance over what is done, a retrieved item joins the held ones, and a returned
one lets the free pointer advance up to the first item that is still held.
-/
import EspIdf.RingBuffer.Items

namespace EspIdf.RingBuffer

open EspIdf.Lib

/-! ### Marking an item -/

/-- Change the cell at position `x`. -/
def Cell.updateAt (x : ℕ) (g : Cell → Cell) (c : Cell) : Cell := if c.pos = x then g c else c

/-- The item has been completed. -/
def Cell.complete (c : Cell) : Cell := { c with written := true, split := false }

/-- The item has been returned. -/
def Cell.giveBack (c : Cell) : Cell := { c with free := true, split := false }

section Marking

variable {rb rb' : Ringbuffer} {k : Marks} {H R P : List Cell} {c : Cell}

lemma map_updateAt_of_ne {cs : List Cell} {x : ℕ} {g : Cell → Cell}
    (h : ∀ d ∈ cs, d.pos ≠ x) : cs.map (Cell.updateAt x g) = cs :=
  (List.map_congr_left fun d hd => if_neg (h d hd)).trans (List.map_id' cs)

lemma updateAt_pos {x : ℕ} {g : Cell → Cell} (hg : ∀ c, (g c).pos = c.pos) (c : Cell) :
    (Cell.updateAt x g c).pos = c.pos := by
  rw [Cell.updateAt]
  split_ifs
  · exact hg c
  · rfl

lemma updateAt_span {x : ℕ} {g : Cell → Cell} (hg : ∀ c, (g c).span = c.span) (c : Cell) :
    (Cell.updateAt x g c).span = c.span := by
  rw [Cell.updateAt]
  split_ifs
  · exact hg c
  · rfl

/-- The memory of one item changes. -/
lemma Layout.update (h : Layout rb k H R P) (hc : c ∈ H ++ R ++ P) {g : Cell → Cell} {m : Mem}
    (hp : ∀ c, (g c).pos = c.pos) (hsp : ∀ c, (g c).span = c.span)
    (hm : ∀ x, ¬ (rb.place c.pos ≤ x ∧ x < rb.place c.pos + c.span) → m x = rb.mem x)
    (hst : Stored { rb with mem := m } (g c)) :
    Layout { rb with mem := m } k (H.map (Cell.updateAt c.pos g)) (R.map (Cell.updateAt c.pos g))
      (P.map (Cell.updateAt c.pos g)) := by
  have hchain : ∀ {p q cs}, CellChain p cs q → CellChain p (cs.map (Cell.updateAt c.pos g)) q :=
    fun hcs => (Ring.chain_congr (fun d _ => updateAt_pos hp d)
      (fun d _ => updateAt_span hsp d)).mpr hcs
  have hsame : SameStorage { rb with mem := m } rb :=
    ⟨rfl, rfl, rfl, rfl, rfl, fun x hx => hm x (by
      have := (h.stored c hc).within_storage h.storage
      omega)⟩
  refine ⟨hsame.storage h.storage, hchain h.held_chain, hchain h.ready_chain,
    hchain h.pending_chain, h.round, h.free_eq, h.read_eq, h.write_eq, h.acquire_eq, h.full_eq,
    h.room, ?_⟩
  intro d' hd'
  rw [← List.map_append, ← List.map_append] at hd'
  obtain ⟨d, hd, rfl⟩ := List.mem_map.mp hd'
  by_cases hdc : d = c
  · rw [hdc, Cell.updateAt, if_pos rfl]
    exact hst
  · have hap := h.apart.forall hd hc hdc
    have hspc := (h.lies c hc).span_ge
    have hspd := (h.lies d hd).span_ge
    have hne : d.pos ≠ c.pos := by
      intro heq
      rw [Cell.Apart, heq] at hap
      omega
    rw [Cell.updateAt, if_neg hne]
    exact stored_of_other h.stored h.apart hsame hc hm hd hdc

/-- The flags of one item change. -/
lemma Layout.mark (h : Layout rb k H R P) (hc : c ∈ H ++ R ++ P) {g : Cell → Cell}
    {flags : BitVec 32} (hp : ∀ c, (g c).pos = c.pos) (hsp : ∀ c, (g c).span = c.span)
    (hst : Stored { rb with mem := rb.mem.storeWord (rb.place c.pos + 4) flags } (g c)) :
    Layout { rb with mem := rb.mem.storeWord (rb.place c.pos + 4) flags } k
      (H.map (Cell.updateAt c.pos g)) (R.map (Cell.updateAt c.pos g))
      (P.map (Cell.updateAt c.pos g)) := by
  have hspan := (h.lies c hc).span_ge
  exact h.update hc hp hsp (fun x hx => Mem.storeWord_of_not_mem (by omega)) hst

/-- The positions of pending cells come after those of the other cells. -/
lemma Layout.pending_pos (h : Layout rb k H R P) (hc : c ∈ P) : ∀ d ∈ H ++ R, d.pos ≠ c.pos := by
  intro d hd
  have h1 := Ring.chain_mem (Ring.chain_append.mpr ⟨k.read, h.held_chain, h.ready_chain⟩) hd
  have h2 := Ring.chain_mem h.pending_chain hc
  have h3 := (h.lies d (List.mem_append_left _ hd)).span_ge
  omega

/-- The positions of held cells come before those of the other cells. -/
lemma Layout.held_pos (h : Layout rb k H R P) (hc : c ∈ H) : ∀ d ∈ R ++ P, d.pos ≠ c.pos := by
  intro d hd
  have h1 := Ring.chain_mem (Ring.chain_append.mpr ⟨k.write, h.ready_chain, h.pending_chain⟩) hd
  have h2 := Ring.chain_mem h.held_chain hc
  have h3 := (h.lies c (List.mem_append_left _ (List.mem_append_left _ hc))).span_ge
  omega

/-- The address of an item passes the checks that are made on it. -/
lemma Layout.item_checks (h : Layout rb k H R P) (hc : c ∈ H ++ R ++ P) (hd : c.dummy = false) :
    rbCheckAligned (rb.place c.pos + 8) = true ∧ rb.pucHead ≤ rb.place c.pos + 8 ∧
      rb.place c.pos + 8 ≤ rb.pucTail ∧
      decide (rb.xItemLen (rb.place c.pos) ≤ rb.xMaxItemSize) = true ∧
      (!hasFlag (rb.uxItemFlags (rb.place c.pos)) rbItemDummyDataFlag) = true := by
  have hst := h.stored c hc
  have hs := h.storage
  have h1 := hst.lies.aligned
  have h2 := (hst.lies.item hd).1
  have h3 := hs.tail_eq
  have h4 := hs.head_aligned
  obtain ⟨h5, h6, _⟩ := hst.item hd
  refine ⟨?_, ?_, ?_, ?_, ?_⟩
  · rw [rbCheckAligned, Ringbuffer.place]
    simp
    omega
  · rw [Ringbuffer.place]
    omega
  · rw [Ringbuffer.place]
    omega
  · rw [h6]
    exact decide_eq_true h5
  · rw [hasFlag_dummy, hst.dummy, hd]
    rfl

/-- The bits of a header after an item has been marked as written. -/
lemma written_bits (f : BitVec 32) :
    ((f &&& ~~~rbItemSplitFlag) ||| rbItemWrittenFlag).getLsbD 0 = f.getLsbD 0 ∧
      ((f &&& ~~~rbItemSplitFlag) ||| rbItemWrittenFlag).getLsbD 1 = f.getLsbD 1 ∧
      ((f &&& ~~~rbItemSplitFlag) ||| rbItemWrittenFlag).getLsbD 2 = false ∧
      ((f &&& ~~~rbItemSplitFlag) ||| rbItemWrittenFlag).getLsbD 3 = true := by
  simp [rbItemSplitFlag, rbItemWrittenFlag]

/-- The bits of a header after an item has been marked as free. -/
lemma free_bits (f : BitVec 32) :
    ((f &&& ~~~rbItemSplitFlag) ||| rbItemFreeFlag).getLsbD 0 = true ∧
      ((f &&& ~~~rbItemSplitFlag) ||| rbItemFreeFlag).getLsbD 1 = f.getLsbD 1 ∧
      ((f &&& ~~~rbItemSplitFlag) ||| rbItemFreeFlag).getLsbD 2 = false ∧
      ((f &&& ~~~rbItemSplitFlag) ||| rbItemFreeFlag).getLsbD 3 = f.getLsbD 3 := by
  simp [rbItemSplitFlag, rbItemFreeFlag]

/-- Changing the bits for free and written and clearing the split bit keeps the rest of an
item. -/
lemma Layout.stored_flags (h : Layout rb k H R P) (hc : c ∈ H ++ R ++ P) (hd : c.dummy = false)
    {flags : BitVec 32} {b w s : Bool} (h1 : flags.getLsbD 1 = false) (h0 : flags.getLsbD 0 = b)
    (h2 : flags.getLsbD 2 = s) (h3 : flags.getLsbD 3 = w) :
    Stored { rb with mem := rb.mem.storeWord (rb.place c.pos + 4) flags }
      { c with free := b, written := w, split := s } := by
  have hst := h.stored c hc
  have hflags : Ringbuffer.uxItemFlags
      { rb with mem := rb.mem.storeWord (rb.place c.pos + 4) flags } (rb.place c.pos) = flags :=
    Mem.word_storeWord_self
  have hl := hst.lies
  refine ⟨⟨hl.aligned, hl.within, hl.dummy, hl.item⟩, ?_, fun _ => ?_⟩
  · exact (congrArg (fun f => f.getLsbD 1) hflags).trans (h1.trans hd.symm)
  · obtain ⟨h4, h5, _, _, _, h6⟩ := hst.item hd
    refine ⟨h4, ?_, (congrArg (fun f => f.getLsbD 0) hflags).trans h0,
      (congrArg (fun f => f.getLsbD 2) hflags).trans h2,
      (congrArg (fun f => f.getLsbD 3) hflags).trans h3, ?_⟩
    · rw [← h5]
      exact congrArg BitVec.toNat (Mem.word_storeWord_of_apart (.inl (Nat.le_refl _)))
    · exact (Mem.read_storeWord_of_apart (.inr (Nat.le_refl _))).trans h6

/-- The item has the contents `bs`. -/
def Cell.fill (bs : List Byte) (c : Cell) : Cell := { c with data := bs }

/-- A pending item is written by its producer. -/
lemma Layout.fill (h : Layout rb k H R P) (hc : c ∈ P) (hd : c.dummy = false) {bs : List Byte}
    (hlen : bs.length = c.data.length) :
    Layout { rb with mem := rb.mem.store (rb.place c.pos + 8) bs } k H R
      (P.map (Cell.updateAt c.pos (Cell.fill bs))) := by
  have hall : c ∈ H ++ R ++ P := List.mem_append_right _ hc
  have hst := h.stored c hall
  have hle := hst.lies.item_le hd
  have hal := le_alignUp c.data.length
  obtain ⟨h1, h2, h3, h4, h5, _⟩ := hst.item hd
  have hflags : Ringbuffer.uxItemFlags
      { rb with mem := rb.mem.store (rb.place c.pos + 8) bs } (rb.place c.pos) =
        rb.uxItemFlags (rb.place c.pos) :=
    Mem.word_store_of_apart (by omega)
  have h₁ := h.update (g := Cell.fill bs) (m := rb.mem.store (rb.place c.pos + 8) bs) hall
    (fun _ => rfl) (fun _ => rfl) (fun x hx => Mem.store_of_not_mem (by omega)) ?_
  · rw [map_updateAt_of_ne fun d hd => h.pending_pos hc d (List.mem_append_left _ hd),
      map_updateAt_of_ne fun d hd => h.pending_pos hc d (List.mem_append_right _ hd)] at h₁
    exact h₁
  · have hl := hst.lies
    refine ⟨⟨hl.aligned, hl.within, hl.dummy, fun hd => ?_⟩, ?_, fun _ => ⟨?_, ?_, ?_, ?_, ?_, ?_⟩⟩
    · have := hl.item hd
      rw [← hlen] at this
      exact this
    · exact (congrArg (fun f => f.getLsbD 1) hflags).trans hst.dummy
    · exact hlen.trans_le h1
    · refine Eq.trans ?_ (h2.trans hlen.symm)
      exact congrArg BitVec.toNat (Mem.word_store_of_apart
        (.inl (show rb.place c.pos + 4 ≤ rb.place c.pos + 8 by omega)))
    · exact (congrArg (fun f => f.getLsbD 0) hflags).trans h3
    · exact (congrArg (fun f => f.getLsbD 2) hflags).trans h4
    · exact (congrArg (fun f => f.getLsbD 3) hflags).trans h5
    · exact Mem.read_store_self

/-- The contents of an item lie in the storage. -/
lemma Layout.fill_same (h : Layout rb k H R P) (hc : c ∈ P) (hd : c.dummy = false)
    {bs : List Byte} (hlen : bs.length = c.data.length) :
    SameStorage { rb with mem := rb.mem.store (rb.place c.pos + 8) bs } rb := by
  have hst := h.stored c (List.mem_append_right _ hc)
  have hin := hst.within_storage h.storage
  have hle := hst.lies.item_le hd
  have hal := le_alignUp c.data.length
  exact ⟨rfl, rfl, rfl, rfl, rfl, fun x hx => Mem.store_of_not_mem (by omega)⟩

/-- Cells that are no longer pending are ready. -/
lemma Layout.advance_write (h : Layout rb k H R P) {r : ℕ} {P₁ P₂ : List Cell}
    (hs : SameStorage rb' rb) (hP : P = P₁ ++ P₂) (h₁ : CellChain k.write P₁ r)
    (h₂ : CellChain r P₂ k.acquire) (hst : ∀ c ∈ H ++ R ++ P, Stored rb' c)
    (hptr : rb'.pucFree = rb.pucFree ∧ rb'.pucRead = rb.pucRead ∧
      rb'.pucAcquire = rb.pucAcquire)
    (hw : rb'.pucWrite = rb.place r) (hfull : rb'.bufferFull = rb.bufferFull) :
    Layout rb' { k with write := r } H (R ++ P₁) P₂ where
  storage := hs.storage h.storage
  held_chain := h.held_chain
  ready_chain := Ring.chain_append.mpr ⟨k.write, h.ready_chain, h₁⟩
  pending_chain := h₂
  round := by rw [hs.size]; exact h.round
  free_eq := by rw [hptr.1, hs.place]; exact h.free_eq
  read_eq := by rw [hptr.2.1, hs.place]; exact h.read_eq
  write_eq := by rw [hw, hs.place]
  acquire_eq := by rw [hptr.2.2, hs.place]; exact h.acquire_eq
  full_eq := by rw [hfull, hs.size]; exact h.full_eq
  room := by rw [hs.size]; exact h.room
  stored := by
    intro c hc
    apply hst c
    rw [hP]
    simpa only [List.append_assoc] using hc

/-- A pending cell that does not keep the write pointer back. -/
def Cell.done (c : Cell) : Bool := c.dummy || c.written

/-- An acquired item is completed.  The write pointer moves past the cells that are done,
except when the pending cells are the whole ring: then it stands at the acquire pointer
already. -/
lemma prvSendItemDoneNoSplit_ok (h : Layout rb k H R P) (hc : c ∈ P) (hd : c.dummy = false)
    (hw : c.written = false) :
    ∃ rb' r P₁ P₂, prvSendItemDoneNoSplit (rb.place c.pos + 8) rb = (.ok (), rb') ∧
      Layout rb' { k with write := r } H (R ++ P₁) P₂ ∧ SameStorage rb' rb ∧
      rb'.xItemsWaiting = rb.xItemsWaiting + 1 ∧
      P.map (Cell.updateAt c.pos Cell.complete) = P₁ ++ P₂ ∧
      P₁ = (if k.acquire = k.write + rb.xSize then []
        else (P.map (Cell.updateAt c.pos Cell.complete)).takeWhile Cell.done) ∧
      P₂ = (if k.acquire = k.write + rb.xSize then P.map (Cell.updateAt c.pos Cell.complete)
        else (P.map (Cell.updateAt c.pos Cell.complete)).dropWhile Cell.done) := by
  have hall : c ∈ H ++ R ++ P := List.mem_append_right _ hc
  obtain ⟨hc1, hc2, hc3, hc4, hc5⟩ := h.item_checks hall hd
  obtain ⟨_, _, hfree, hsplit, hwr, _⟩ := (h.stored c hall).item hd
  have hdum := (h.stored c hall).dummy
  have hH : H.map (Cell.updateAt c.pos Cell.complete) = H :=
    map_updateAt_of_ne fun d hd => h.pending_pos hc d (List.mem_append_left _ hd)
  have hR : R.map (Cell.updateAt c.pos Cell.complete) = R :=
    map_updateAt_of_ne fun d hd => h.pending_pos hc d (List.mem_append_right _ hd)
  -- the item is marked
  obtain ⟨hb0, hb1, hb2, hb3⟩ := written_bits (rb.uxItemFlags (rb.place c.pos))
  have hst := h.stored_flags hall hd (hb1.trans (hdum.trans hd)) (hb0.trans hfree) hb2 hb3
  have h₁ := h.mark (g := Cell.complete) hall (fun _ => rfl) (fun _ => rfl) hst
  rw [hH, hR] at h₁
  generalize P.map (Cell.updateAt c.pos Cell.complete) = Q at h₁ ⊢
  rw [prvSendItemDoneNoSplit, Prog.get_bind, Prog.bind_ok (configAssert_true hc1 rb),
    Prog.bind_ok (configAssert_true (decide_eq_true hc2) rb),
    Prog.bind_ok (configAssert_true (decide_eq_true hc3) rb)]
  simp only [rbHeaderSize, Nat.add_sub_cancel]
  rw [Prog.bind_ok (configAssert_true hc4 rb), Prog.bind_ok (configAssert_true hc5 rb),
    Prog.bind_ok (configAssert_true (by rw [hasFlag_written, hwr, hw]; rfl) rb),
    setItemFlags, Prog.modify_bind, Prog.modify_bind]
  replace h₁ := h₁.with_waiting (rb.xItemsWaiting + 1)
  set rb₁ : Ringbuffer :=
    { rb with
      xItemsWaiting := rb.xItemsWaiting + 1
      mem := rb.mem.storeWord (rb.place c.pos + 4)
        (rb.uxItemFlags (rb.place c.pos) &&& ~~~rbItemSplitFlag ||| rbItemWrittenFlag) } with hrb₁
  have hsame : SameStorage rb₁ rb :=
    ⟨rfl, rfl, rfl, rfl, rfl, fun x hx => Mem.storeWord_of_not_mem (by
      have := (h.stored c hall).within_storage h.storage
      omega)⟩
  have hround := h.round
  have hord := h.order
  rw [h.acquire_eq, h.write_eq]
  by_cases hring : k.acquire = k.write + rb.xSize
  · -- the write pointer stands at the acquire pointer
    have hplace : rb.place k.write = rb.place k.acquire := by
      rw [hring, Ringbuffer.place, Ringbuffer.place, Nat.add_mod_right]
    rw [← hplace, Prog.bind_ok (skipItems_stop _ _ _ rb₁)]
    refine ⟨rb₁, k.write, [], Q, ?_, ?_, hsame, rfl, rfl, (if_pos hring).symm,
      (if_pos hring).symm⟩
    · rw [← h.write_eq]
      rfl
    · rw [List.append_nil]
      exact h₁
  · have hlen := Layout.length_le h₁.pending_chain
      fun c hc => (h₁.stored c (List.mem_append_right _ hc)).lies
    obtain ⟨mem, r, hskip, hst', ht, hdr, hout⟩ := skipItems_ok (m := Cell.written)
      (fun rb c hst hd => (hasFlag_written _).trans (hst.item hd).2.2.2.2.1) h₁.storage
      (fun c hc => List.mem_append_right _ hc) h₁.stored h₁.apart h₁.pending_chain
      (show k.acquire < k.write + rb.xSize by omega)
      (show Q.length < rb.xSize + 1 by omega)
    rw [hsame.place, hsame.place] at hskip
    rw [Prog.bind_ok hskip]
    refine ⟨{ rb₁ with mem := mem, pucWrite := rb.place r }, r, _, _, rfl, ?_,
      ⟨rfl, rfl, rfl, rfl, rfl, fun x hx => (hout x hx).trans (hsame.outside x hx)⟩, rfl,
      List.takeWhile_append_dropWhile.symm, (if_neg hring).symm, (if_neg hring).symm⟩
    refine h₁.advance_write ⟨rfl, rfl, rfl, rfl, rfl, hout⟩ List.takeWhile_append_dropWhile.symm ht hdr
      (fun c hc => ?_) ⟨rfl, rfl, rfl⟩ rfl rfl
    exact (hst' c hc).congr ⟨rfl, rfl, rfl, rfl, rfl, fun _ _ => rfl⟩ fun _ _ _ => rfl

end Marking

/-! ### Retrieving and returning -/

section Retrieving

variable {rb rb' : Ringbuffer} {k : Marks} {H D R P : List Cell} {c : Cell}

/-- With a cell ready to be read, the two pointers differ or the buffer is full. -/
lemma Layout.itemsToRead (h : Layout rb k H R P) (hR : R ≠ []) (hwait : 0 < rb.xItemsWaiting) :
    rb.itemsToRead = true := by
  have hord := h.order
  have hround := h.round
  have hne : k.read ≠ k.write := by
    intro heq
    apply hR
    refine Ring.chain_eq_nil (fun c hc => ?_) (heq ▸ h.ready_chain)
    have := (h.lies c (List.mem_append_left _ (List.mem_append_right _ hc))).span_ge
    omega
  have hiff := Ring.mod_eq_mod_iff h.storage.size_pos hord.2.1 (show k.write ≤ k.read + rb.xSize by
    omega)
  rw [Ringbuffer.itemsToRead, h.read_eq, h.write_eq, h.full_eq, Ringbuffer.place,
    Ringbuffer.place, decide_eq_true hwait, Bool.true_and, Bool.or_eq_true, decide_eq_true_eq,
    bne_iff_ne]
  omega

/-- The item at the read pointer is taken. -/
lemma takeItem_ok (hs : Storage rb) (hst : Stored rb c) (hd : c.dummy = false)
    (hread : rb.pucRead = rb.place c.pos) :
    takeItem rb = (.ok ⟨rb.place c.pos + 8, c.data.length, c.split⟩,
      { rb with
        pucRead := rb.place (c.pos + c.span)
        xItemsWaiting := rb.xItemsWaiting - 1 }) := by
  obtain ⟨_, hlen, _, hsplit, _, _⟩ := hst.item hd
  have hlast := (hst.lies.item hd).1
  have hle := le_alignUp c.data.length
  have htail := hs.tail_eq
  have hwrap := wrapAround_item hs hst hd
  rw [takeItem, Prog.get_bind]
  simp only [rbHeaderSize, hread, hlen, hasFlag_split, hsplit]
  have hmax := hs.max_lt
  have hsz := hs.size_lt
  have halign := align_itemLen hs hst hd
  rw [hlen] at halign
  have hend : rb.place c.pos + 8 + c.data.length ≤ rb.pucTail := by
    rw [Ringbuffer.place]
    omega
  have hhead : rb.pucHead ≤ rb.place c.pos + 8 := by
    rw [Ringbuffer.place]
    omega
  rw [halign, ← hwrap, ← hread]
  split_ifs with h0
  · rw [Prog.bind_ok (configAssert_true (by
      simp only [Bool.and_eq_true, decide_eq_true_eq]; omega) rb), Prog.modify_bind]
    rfl
  · rw [Prog.bind_ok (configAssert_true (by
      simp only [Bool.and_eq_true, decide_eq_true_eq]; omega) rb), Prog.modify_bind]
    rfl

/-- The next item is retrieved; dummy data before it is skipped. -/
lemma prvGetItemDefault_ok (h : Layout rb k H (D ++ c :: R) P)
    (hD : D = [] ∨ ∃ d, D = [d] ∧ d.dummy = true) (hd : c.dummy = false)
    (hwait : 0 < rb.xItemsWaiting) :
    ∃ rb', prvGetItemDefault rb =
        (.ok ⟨rb.place c.pos + 8, c.data.length, c.split⟩, rb') ∧
      Layout rb' { k with read := c.pos + c.span } (H ++ D ++ [c]) R P ∧ SameStorage rb' rb ∧
      rb'.mem = rb.mem ∧ rb'.xItemsWaiting = rb.xItemsWaiting - 1 := by
  have hs := h.storage
  have hcall : c ∈ H ++ (D ++ c :: R) ++ P := by simp
  have hst := h.stored c hcall
  obtain ⟨hm, hlen, _, hsplit, _, _⟩ := hst.item hd
  obtain ⟨r, hDc, hcR⟩ := Ring.chain_append.mp h.ready_chain
  have hbounds := hs.place_bounds k.read
  have hrr := h.read_room
  have hha := hs.head_aligned
  have htail := hs.tail_eq
  -- the state after the retrieval
  have hL : Layout
      { rb with pucRead := rb.place (c.pos + c.span), xItemsWaiting := rb.xItemsWaiting - 1 }
      { k with read := c.pos + c.span } (H ++ D ++ [c]) R P := by
    have hsame : SameStorage { rb with
      pucRead := rb.place (c.pos + c.span), xItemsWaiting := rb.xItemsWaiting - 1 } rb :=
      ⟨rfl, rfl, rfl, rfl, rfl, fun _ _ => rfl⟩
    refine ⟨hsame.storage hs, ?_, ?_, h.pending_chain, h.round, h.free_eq, rfl, h.write_eq,
      h.acquire_eq, h.full_eq, h.room, fun d hdm => ?_⟩
    · rw [List.append_assoc]
      refine Ring.chain_append.mpr ⟨k.read, h.held_chain, Ring.chain_append.mpr ⟨r, hDc, ?_⟩⟩
      exact ⟨hcR.1, by rw [hcR.1]; rfl⟩
    · rw [hcR.1]
      exact hcR.2
    · refine (h.stored d ?_).congr hsame fun _ _ _ => rfl
      simpa only [List.append_assoc, List.cons_append, List.nil_append] using hdm
  rw [prvGetItemDefault, Prog.get_bind,
    Prog.bind_ok (configAssert_true (h.itemsToRead (by simp) hwait) rb),
    Prog.bind_ok (configAssert_true (b := rbCheckAligned rb.pucRead) (by
      rw [rbCheckAligned, h.read_eq, Ringbuffer.place]; simp; omega) rb),
    Prog.bind_ok (configAssert_true (by rw [h.read_eq]; simpa using hbounds) rb)]
  refine ⟨_, ?_, hL, ⟨rfl, rfl, rfl, rfl, rfl, fun _ _ => rfl⟩, rfl, rfl⟩
  rcases hD with rfl | ⟨d, rfl, hdd⟩
  · obtain rfl : k.read = r := hDc
    have hread : rb.pucRead = rb.place c.pos := by rw [h.read_eq, hcR.1]
    have hdum : hasFlag (rb.uxItemFlags rb.pucRead) rbItemDummyDataFlag = false := by
      rw [hasFlag_dummy, hread, hst.dummy, hd]
    rw [Prog.bind_ok (configAssert_true (by
      rw [hread, hlen, decide_eq_true hm, Bool.true_or]) rb)]
    simp only [hdum, Bool.false_eq_true, ↓reduceIte]
    exact takeItem_ok hs hst hd hread
  · have hstd : Stored rb d := h.stored d (by simp)
    have hread : rb.pucRead = rb.place d.pos := by rw [h.read_eq, hDc.1]
    have hdum : hasFlag (rb.uxItemFlags rb.pucRead) rbItemDummyDataFlag = true := by
      rw [hasFlag_dummy, hread, hstd.dummy, hdd]
    have hhead : rb.place c.pos = rb.pucHead := by
      rw [hcR.1, ← hDc.2, ← hDc.1]
      exact place_end_dummy hs hstd hdd
    rw [Prog.bind_ok (configAssert_true (by rw [hdum, Bool.or_true]) rb)]
    simp only [hdum, ↓reduceIte]
    rw [Prog.modify_bind, Prog.bind_ok (configAssert_true (by
      rw [← hhead, hlen]; exact decide_eq_true hm) _)]
    have hsame : SameStorage { rb with pucRead := rb.pucHead } rb := ⟨rfl, rfl, rfl, rfl, rfl, fun _ _ => rfl⟩
    exact takeItem_ok (hsame.storage hs) (hst.congr hsame fun _ _ _ => rfl) hd hhead.symm

/-- Cells that the free pointer has moved past are no longer part of the layout. -/
lemma Layout.advance_free (h : Layout rb k H R P) {r : ℕ} {H₁ H₂ : List Cell}
    (hs : SameStorage rb' rb) (hH : H = H₁ ++ H₂) (h₁ : CellChain k.free H₁ r)
    (h₂ : CellChain r H₂ k.read) (hst : ∀ c ∈ H ++ R ++ P, Stored rb' c)
    (hptr : rb'.pucRead = rb.pucRead ∧ rb'.pucWrite = rb.pucWrite ∧
      rb'.pucAcquire = rb.pucAcquire)
    (hf : rb'.pucFree = rb.place r)
    (hfull : rb'.bufferFull = decide (k.acquire = r + rb.xSize)) :
    Layout rb' { k with free := r } H₂ R P where
  storage := hs.storage h.storage
  held_chain := h₂
  ready_chain := h.ready_chain
  pending_chain := h.pending_chain
  round := by
    have := h.round
    have := Ring.chain_le h₁
    rw [hs.size]
    show k.acquire ≤ r + rb.xSize
    omega
  free_eq := by rw [hf, hs.place]
  read_eq := by rw [hptr.1, hs.place]; exact h.read_eq
  write_eq := by rw [hptr.2.1, hs.place]; exact h.write_eq
  acquire_eq := by rw [hptr.2.2, hs.place]; exact h.acquire_eq
  full_eq := by rw [hfull, hs.size]
  room := by rw [hs.size]; exact h.room
  stored := by
    intro c hc
    apply hst c
    rw [hH, List.append_assoc, List.append_assoc]
    exact List.mem_append_right _ (by simpa only [List.append_assoc] using hc)

/-- A held cell that the free pointer moves past. -/
def Cell.gone (c : Cell) : Bool := c.dummy || c.free

/-- An item is returned: the free pointer moves up to the first item that is still held.  When
the whole ring is retrieved, it must be the only item that is held. -/
lemma prvReturnItemDefault_ok (h : Layout rb k H R P) (hc : c ∈ H) (hd : c.dummy = false)
    (hfree : c.free = false)
    (honly : k.read = k.free + rb.xSize →
      ∀ d ∈ H, d.dummy = false → d.free = false → d.pos = c.pos) :
    ∃ rb' r, prvReturnItemDefault (rb.place c.pos + 8) rb = (.ok (), rb') ∧
      Layout rb' { k with free := r }
        ((H.map (Cell.updateAt c.pos Cell.giveBack)).dropWhile Cell.gone) R P ∧
      SameStorage rb' rb ∧ rb'.xItemsWaiting = rb.xItemsWaiting := by
  have hall : c ∈ H ++ R ++ P := List.mem_append_left _ (List.mem_append_left _ hc)
  obtain ⟨hc1, hc2, hc3, hc4, hc5⟩ := h.item_checks hall hd
  obtain ⟨_, _, hfr, hsplit, hwr, _⟩ := (h.stored c hall).item hd
  have hdum := (h.stored c hall).dummy
  have hR : R.map (Cell.updateAt c.pos Cell.giveBack) = R :=
    map_updateAt_of_ne fun d hd => h.held_pos hc d (List.mem_append_left _ hd)
  have hP : P.map (Cell.updateAt c.pos Cell.giveBack) = P :=
    map_updateAt_of_ne fun d hd => h.held_pos hc d (List.mem_append_right _ hd)
  -- the item is marked
  obtain ⟨hb0, hb1, hb2, hb3⟩ := free_bits (rb.uxItemFlags (rb.place c.pos))
  have hst := h.stored_flags hall hd (hb1.trans (hdum.trans hd)) hb0 hb2 (hb3.trans hwr)
  have h₁ := h.mark (g := Cell.giveBack) hall (fun _ => rfl) (fun _ => rfl) hst
  rw [hR, hP] at h₁
  rw [prvReturnItemDefault, Prog.get_bind, Prog.bind_ok (configAssert_true hc1 rb),
    Prog.bind_ok (configAssert_true (decide_eq_true hc2) rb),
    Prog.bind_ok (configAssert_true (decide_eq_true hc3) rb)]
  simp only [rbHeaderSize, Nat.add_sub_cancel]
  rw [Prog.bind_ok (configAssert_true hc4 rb), Prog.bind_ok (configAssert_true hc5 rb),
    Prog.bind_ok (configAssert_true (by rw [hasFlag_free, hfr, hfree]; rfl) rb),
    setItemFlags, Prog.modify_bind]
  set rb₁ : Ringbuffer :=
    { rb with
      mem := rb.mem.storeWord (rb.place c.pos + 4)
        (rb.uxItemFlags (rb.place c.pos) &&& ~~~rbItemSplitFlag ||| rbItemFreeFlag) } with hrb₁
  have hsame : SameStorage rb₁ rb :=
    ⟨rfl, rfl, rfl, rfl, rfl, fun x hx => Mem.storeWord_of_not_mem (by
      have := (h.stored c hall).within_storage h.storage
      omega)⟩
  have hround := h.round
  have hord := h.order
  have hmem := Ring.chain_mem h.held_chain hc
  have hspan := (h.lies c hall).span_ge
  rw [h.free_eq, h.read_eq]
  by_cases hring : k.read = k.free + rb.xSize
  · -- everything has been retrieved, and this was the last item that was held
    have hplace : rb.place k.free = rb.place k.read := by
      rw [hring, Ringbuffer.place, Ringbuffer.place, Nat.add_mod_right]
    have hgone : ∀ d ∈ H.map (Cell.updateAt c.pos Cell.giveBack), Cell.gone d = true := by
      intro d' hd'
      obtain ⟨d, hdH, rfl⟩ := List.mem_map.mp hd'
      rw [Cell.updateAt, Cell.gone]
      split_ifs with hpos
      · exact Bool.or_true _
      · cases hdd : d.dummy with
        | true => rfl
        | false =>
          cases hdf : d.free with
          | true => rfl
          | false => exact absurd (honly hring d hdH hdd hdf) hpos
    rw [hplace, Prog.bind_ok (skipItems_stop _ _ _ rb₁), Prog.modify_bind,
      List.dropWhile_eq_nil_iff.mpr hgone]
    refine ⟨_, k.read, rfl, ?_, ⟨rfl, rfl, rfl, rfl, rfl, hsame.outside⟩, rfl⟩
    refine h₁.advance_free ⟨rfl, rfl, rfl, rfl, rfl, fun _ _ => rfl⟩ (List.append_nil _).symm h₁.held_chain rfl
      (fun d hd => (h₁.stored d hd).congr ⟨rfl, rfl, rfl, rfl, rfl, fun _ _ => rfl⟩ fun _ _ _ => rfl)
      ⟨rfl, rfl, rfl⟩ rfl ?_
    have hN := h.storage.size_pos
    rw [decide_eq_false (show ¬ k.acquire = k.read + rb.xSize by omega)]
    simp only [hrb₁, h.read_eq, beq_self_eq_true, Bool.or_true, Bool.not_true, Bool.and_false]
  · have hlen := Layout.length_le h₁.held_chain
      fun c hc => (h₁.stored c (List.mem_append_left _ (List.mem_append_left _ hc))).lies
    obtain ⟨mem, r, hskip, hst', ht, hdr, hout⟩ := skipItems_ok (m := Cell.free)
      (fun rb c hst hd => (hasFlag_free _).trans (hst.item hd).2.2.1) h₁.storage
      (fun c hc => List.mem_append_left _ (List.mem_append_left _ hc)) h₁.stored h₁.apart
      h₁.held_chain (show k.read < k.free + rb.xSize by omega)
      (show (H.map (Cell.updateAt c.pos Cell.giveBack)).length < rb.xSize + 1 by omega)
    rw [hsame.place, hsame.place] at hskip
    rw [Prog.bind_ok hskip, Prog.modify_bind]
    refine ⟨_, r, rfl, ?_,
      ⟨rfl, rfl, rfl, rfl, rfl, fun x hx => (hout x hx).trans (hsame.outside x hx)⟩, rfl⟩
    refine h₁.advance_free ⟨rfl, rfl, rfl, rfl, rfl, hout⟩ List.takeWhile_append_dropWhile.symm ht hdr
      (fun d hd => (hst' d hd).congr ⟨rfl, rfl, rfl, rfl, rfl, fun _ _ => rfl⟩ fun _ _ _ => rfl)
      ⟨rfl, rfl, rfl⟩ rfl ?_
    -- the pointers coincide after the loop only when it has not moved
    have hr1 := Ring.chain_le ht
    have hr2 := Ring.chain_le hdr
    have hN := h.storage.size_pos
    have hacq := Ring.mod_eq_mod_iff hN (show r ≤ k.acquire by omega)
      (show k.acquire ≤ r + rb.xSize by omega)
    have hread := Ring.mod_eq_mod_iff hN hr2 (show k.read ≤ r + rb.xSize by omega)
    show (rb.bufferFull && !(rb.place r != rb.pucAcquire || rb.place r == rb.pucRead)) =
      decide (k.acquire = r + rb.xSize)
    rw [h.full_eq, h.acquire_eq, h.read_eq, Ringbuffer.place, Ringbuffer.place, Ringbuffer.place,
      Bool.eq_iff_iff]
    simp only [Bool.and_eq_true, decide_eq_true_eq, Bool.not_eq_true', Bool.or_eq_false_iff,
      bne_eq_false_iff_eq, beq_eq_false_iff_ne]
    omega

end Retrieving

end EspIdf.RingBuffer
