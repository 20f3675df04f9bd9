/-
# Byte buffers

A byte buffer holds a stretch of bytes on the ring, without headers.  From the free pointer to
the read pointer they have been retrieved, from there to the acquire pointer they are waiting.
-/
import EspIdf.RingBuffer.Sending

namespace EspIdf.RingBuffer

open EspIdf.Lib

/-- The fixed fields of a byte buffer. -/
structure ByteStorage (rb : Ringbuffer) : Prop where
  size_pos : 0 < rb.xSize
  size_lt : rb.xSize < 2 ^ 31
  tail_eq : rb.pucTail = rb.pucHead + rb.xSize
  tail_lt : rb.pucTail < 2 ^ 32
  max_eq : rb.xMaxItemSize = rb.xSize
  type_eq : rb.type = .byteBuf

/-- The bytes that are waiting in a byte buffer, from position `read` to position `acquire`. -/
structure ByteQueue (rb : Ringbuffer) (free read acquire : ℕ) (unread : List Byte) : Prop where
  storage : ByteStorage rb
  free_le : free ≤ read
  length_eq : acquire = read + unread.length
  round : acquire ≤ free + rb.xSize
  free_eq : rb.pucFree = rb.place free
  read_eq : rb.pucRead = rb.place read
  write_eq : rb.pucWrite = rb.place acquire
  acquire_eq : rb.pucAcquire = rb.place acquire
  full_eq : rb.bufferFull = decide (acquire = free + rb.xSize)
  waiting : rb.xItemsWaiting = unread.length
  bytes : ∀ i < unread.length, rb.mem (rb.place (read + i)) = unread.getD i 0#8

namespace ByteStorage

variable {rb rb' : Ringbuffer}

lemma of_same (h : ByteStorage rb) (hs : SameStorage rb' rb) : ByteStorage rb' := by
  obtain ⟨h1, h2, h3, h4, h5, h6⟩ := h
  constructor <;> simp only [hs.size, hs.head, hs.tail, hs.max, hs.type] <;> assumption

lemma place_bounds (h : ByteStorage rb) (p : ℕ) :
    rb.pucHead ≤ rb.place p ∧ rb.place p < rb.pucTail := by
  have h1 := Nat.mod_lt p h.size_pos
  have h2 := h.tail_eq
  unfold Ringbuffer.place
  omega

end ByteStorage

namespace ByteQueue

variable {rb rb' : Ringbuffer} {f r a : ℕ} {bs : List Byte}

/-! ### Sending -/

/-- The fit check of a buffer that is not full accepts exactly what the rest of the ring can
hold. -/
lemma fits (h : ByteQueue rb f r a bs) {len : ℕ} (hmax : len ≤ rb.xMaxItemSize) :
    checkItemFits len rb =
      (.ok (decide (a < f + rb.xSize ∧ a + len ≤ f + rb.xSize)), rb) := by
  have hs := h.storage
  rw [hs.max_eq] at hmax
  have htail := hs.tail_eq
  have htl := hs.tail_lt
  have hsz := hs.size_lt
  have hle := h.free_le
  have hlen := h.length_eq
  have hround := h.round
  have hflt := Nat.mod_lt f hs.size_pos
  have halt := Nat.mod_lt a hs.size_pos
  obtain ⟨d, hd⟩ := Nat.exists_eq_add_of_le (show f ≤ a by omega)
  have hmod := Ring.add_mod_of_le (p := f) hs.size_pos (show d ≤ rb.xSize by omega)
  rw [← hd] at hmod
  rw [checkItemFits, Prog.get_bind, hs.type_eq]
  simp only []
  rw [prvCheckItemFitsByteBuffer, Prog.get_bind, Prog.bind_ok (configAssert_true (by
    rw [h.acquire_eq]; simpa using hs.place_bounds a) rb)]
  rw [h.acquire_eq, h.free_eq, Ringbuffer.place, Ringbuffer.place]
  rcases Nat.lt_trichotomy (a % rb.xSize) (f % rb.xSize) with hlt | heq | hgt
  · rw [if_neg (by omega), if_pos (by omega), u32Sub_of_le (by omega) (by omega),
      decide_eq_decide.mpr (show len ≤ rb.pucHead + f % rb.xSize - (rb.pucHead + a % rb.xSize) ↔
        a < f + rb.xSize ∧ a + len ≤ f + rb.xSize by split_ifs at hmod <;> omega)]
    rfl
  · rw [if_pos (by omega), h.full_eq, ← decide_not,
      decide_eq_decide.mpr (show ¬ a = f + rb.xSize ↔
        a < f + rb.xSize ∧ a + len ≤ f + rb.xSize by split_ifs at hmod <;> omega)]
    rfl
  · rw [if_neg (by omega), if_neg (by omega),
      u32Sub_of_le (a := rb.pucHead + a % rb.xSize) (by omega) (by omega),
      u32Sub_of_le (a := rb.xSize) (by omega) (by omega),
      decide_eq_decide.mpr (show len ≤ rb.xSize -
        (rb.pucHead + a % rb.xSize - (rb.pucHead + f % rb.xSize)) ↔
          a < f + rb.xSize ∧ a + len ≤ f + rb.xSize by split_ifs at hmod <;> omega)]
    rfl

/-- Bytes stored behind the acquire pointer are added to those that wait. -/
lemma append (h : ByteQueue rb f r a bs) {item : List Byte} (hs : SameStorage rb' rb)
    (hle : a + item.length ≤ f + rb.xSize) (hne : item ≠ [])
    (hnew : ∀ i < item.length, rb'.mem (rb.place (a + i)) = item.getD i 0#8)
    (hold : ∀ x, f ≤ x → x < a → rb'.mem (rb.place x) = rb.mem (rb.place x))
    (hptr : rb'.pucFree = rb.pucFree ∧ rb'.pucRead = rb.pucRead)
    (hw : rb'.pucWrite = rb'.pucAcquire) (ha : rb'.pucAcquire = rb.place (a + item.length))
    (hfull : rb'.bufferFull = (rb.bufferFull || rb'.pucAcquire == rb.pucFree))
    (hwait : rb'.xItemsWaiting = rb.xItemsWaiting + item.length) :
    ByteQueue rb' f r (a + item.length) (bs ++ item) := by
  have hlen := h.length_eq
  have hfr := h.free_le
  have hpos := List.length_pos_iff.mpr hne
  refine ⟨h.storage.of_same hs, hfr, ?_, ?_, ?_, ?_, ?_, ?_, ?_, ?_, fun i hi => ?_⟩
  · rw [List.length_append]
    omega
  · rw [hs.size]
    exact hle
  · rw [hptr.1, hs.place, h.free_eq]
  · rw [hptr.2, hs.place, h.read_eq]
  · rw [hw, ha, hs.place]
  · rw [ha, hs.place]
  · have hmod := Ring.mod_eq_mod_iff h.storage.size_pos (p := f) (q := a + item.length)
      (by omega) hle
    rw [hfull, h.full_eq, ha, h.free_eq, hs.size, decide_eq_false (by omega), Bool.false_or,
      beq_eq_decide, decide_eq_decide, Ringbuffer.place, Ringbuffer.place]
    omega
  · rw [hwait, h.waiting, List.length_append]
    push_cast
    rfl
  · rw [hs.place]
    by_cases hib : i < bs.length
    · rw [hold _ (by omega) (by omega), h.bytes i hib, List.getD, List.getD,
        List.getElem?_append_left hib]
    · rw [List.length_append] at hi
      obtain ⟨j, rfl⟩ := Nat.exists_eq_add_of_le (show bs.length ≤ i by omega)
      rw [← Nat.add_assoc, ← hlen, hnew j (by omega), List.getD, List.getD,
        List.getElem?_append_right (by omega), Nat.add_sub_cancel_left]

/-- What `memcpy` stores before the end of the ring. -/
lemma store_place {m : Mem} {x : ℕ} {item : List Byte}
    (hend : x % rb.xSize + item.length ≤ rb.xSize) {i : ℕ} (hi : i < item.length) :
    m.store (rb.place x) item (rb.place (x + i)) = item.getD i 0#8 := by
  have hplace : rb.place (x + i) = rb.place x + i := by
    rw [Ringbuffer.place, Ringbuffer.place, Ring.add_mod_of_lt (by omega), Nat.add_assoc]
  rw [hplace, Mem.store_of_mem (by omega), Nat.add_sub_cancel_left]

/-- What `memcpy` stores before the end of the ring leaves the rest of the round alone. -/
lemma store_other {m : Mem} {x y : ℕ} {item : List Byte} (hst : ByteStorage rb)
    (hend : x % rb.xSize + item.length ≤ rb.xSize) (hyx : y < x)
    (hround : x + item.length ≤ y + rb.xSize) :
    m.store (rb.place x) item (rb.place y) = m (rb.place y) := by
  have hap := Ring.apart (p := y) (q := x) (s := 1) (t := item.length) hst.size_pos hend
    (by omega) hround
  rw [Ringbuffer.place, Ringbuffer.place, Mem.store_of_not_mem (by omega)]

/-- A pointer that reaches the tail starts over. -/
lemma advance_place {x n : ℕ} (hst : ByteStorage rb) (hend : x % rb.xSize + n ≤ rb.xSize) :
    (if rb.place x + n = rb.pucTail then rb.pucHead else rb.place x + n) = rb.place (x + n) := by
  have htail := hst.tail_eq
  rw [Ringbuffer.place, Ringbuffer.place, Ring.add_mod_of_within hst.size_pos hend]
  split_ifs <;> omega

/-- The buffer after `bs` have been copied to the acquire pointer. -/
def withBytes (rb : Ringbuffer) (bs : List Byte) : Ringbuffer :=
  let p := if rb.pucAcquire + bs.length = rb.pucTail then rb.pucHead
    else rb.pucAcquire + bs.length
  { rb with
    mem := rb.mem.store rb.pucAcquire bs
    pucAcquire := p
    pucWrite := p
    bufferFull := rb.bufferFull || p == rb.pucFree
    xItemsWaiting := rb.xItemsWaiting + bs.length }

lemma copyBytes_eq (bs : List Byte) : copyBytes bs rb = (.ok (), withBytes rb bs) := rfl

/-- The buffer after `bs` have been copied up to the tail. -/
def withFirstBytes (rb : Ringbuffer) (bs : List Byte) : Ringbuffer :=
  { rb with
    mem := rb.mem.store rb.pucAcquire bs
    pucAcquire := rb.pucHead
    xItemsWaiting := rb.xItemsWaiting + bs.length }

/-- Bytes are copied behind the acquire pointer. -/
lemma copy (h : ByteQueue rb f r a bs) {item : List Byte} (hne : item ≠ [])
    (hle : a + item.length ≤ f + rb.xSize) :
    ∃ rb', prvCopyItemByteBuf item rb = (.ok (), rb') ∧
      ByteQueue rb' f r (a + item.length) (bs ++ item) ∧ SameStorage rb' rb ∧
      ∀ x, f ≤ x → x < a → rb'.mem (rb.place x) = rb.mem (rb.place x) := by
  have hs := h.storage
  have htail := hs.tail_eq
  have htl := hs.tail_lt
  have hsz := hs.size_lt
  have hfr := h.free_le
  have hlen := h.length_eq
  have halt := Nat.mod_lt a hs.size_pos
  have hacq := h.acquire_eq
  have hacqb := hs.place_bounds a
  rw [← hacq] at hacqb
  have hplace : rb.pucAcquire = rb.pucHead + a % rb.xSize := hacq
  have hrem : u32Sub rb.pucTail rb.pucAcquire = rb.xSize - a % rb.xSize := by
    rw [hacq, u32Sub_of_le htl (Nat.le_of_lt (hs.place_bounds a).2), htail, Ringbuffer.place]
    omega
  rw [prvCopyItemByteBuf, Prog.get_bind, Prog.bind_ok (configAssert_true (by
    rw [hacq]; simpa using hs.place_bounds a) rb)]
  simp only [hrem]
  by_cases hsplit : rb.xSize - a % rb.xSize < item.length
  · -- the bytes wrap around
    have hmod0 : (a + (rb.xSize - a % rb.xSize)) % rb.xSize = 0 := by
      rw [Ring.add_mod_of_within hs.size_pos (by omega), if_pos (by omega)]
    have hzero : rb.pucHead = rb.place (a + (rb.xSize - a % rb.xSize)) := by
      rw [Ringbuffer.place, hmod0, Nat.add_zero]
    obtain ⟨bs₁, bs₂, hitem, hl₁⟩ : ∃ bs₁ bs₂, item = bs₁ ++ bs₂ ∧
        bs₁.length = rb.xSize - a % rb.xSize :=
      ⟨item.take (rb.xSize - a % rb.xSize), item.drop (rb.xSize - a % rb.xSize),
        (List.take_append_drop _ _).symm, by rw [List.length_take]; omega⟩
    have hl₂ : item.length = bs₁.length + bs₂.length := by rw [hitem, List.length_append]
    have hmem : (withBytes (withFirstBytes rb bs₁) bs₂).mem =
        (rb.mem.store (rb.place a) bs₁).store (rb.place (a + bs₁.length)) bs₂ := by
      rw [hl₁, ← hzero, ← hacq]
      rfl
    have hold : ∀ x, f ≤ x → x < a →
        (withBytes (withFirstBytes rb bs₁) bs₂).mem (rb.place x) = rb.mem (rb.place x) := by
      intro x h1 h2
      rw [hmem, store_other hs (by rw [hl₁, hmod0]; omega) (by omega) (by omega),
        store_other hs (by omega) h2 (by omega)]
    have hsame : SameStorage (withBytes (withFirstBytes rb bs₁) bs₂) rb := by
      refine ⟨rfl, rfl, rfl, rfl, rfl, fun x hx => ?_⟩
      rw [hmem, hl₁, ← hzero, ← hacq, Mem.store_of_not_mem (by omega),
        Mem.store_of_not_mem (by omega)]
    refine ⟨withBytes (withFirstBytes rb bs₁) bs₂, ?_, ?_, hsame, hold⟩
    · rw [if_pos hsplit, memcpy, Prog.modify_bind, Prog.modify_bind, hitem, List.take_left' hl₁,
        List.drop_left' hl₁, copyBytes_eq, ← hl₁]
      rfl
    · refine h.append hsame hle hne (fun i hi => ?_) hold ⟨rfl, rfl⟩ rfl ?_ rfl ?_
      · rw [hmem, hitem]
        by_cases hib : i < bs₁.length
        · -- before the end of the ring
          rw [Mem.store_of_not_mem, store_place (by omega) hib, List.getD, List.getD,
            List.getElem?_append_left hib]
          rw [hl₁, ← hzero, Ringbuffer.place, Ring.add_mod_of_lt (by omega)]
          omega
        · obtain ⟨j, rfl⟩ := Nat.exists_eq_add_of_le (show bs₁.length ≤ i by omega)
          rw [← Nat.add_assoc, store_place (by rw [hl₁, hmod0]; omega) (by omega), List.getD,
            List.getD, List.getElem?_append_right (by omega), Nat.add_sub_cancel_left]
      · rw [hl₂, ← Nat.add_assoc, ← advance_place hs (by rw [hl₁, hmod0]; omega), hl₁, ← hzero]
        rfl
      · rw [hl₂]
        push_cast
        exact (Int.add_assoc _ _ _)
  · have hmem : (withBytes rb item).mem = rb.mem.store (rb.place a) item := by
      rw [← hacq]
      rfl
    have hold : ∀ x, f ≤ x → x < a →
        (withBytes rb item).mem (rb.place x) = rb.mem (rb.place x) := by
      intro x h1 h2
      rw [hmem, store_other hs (by omega) h2 (by omega)]
    have hsame : SameStorage (withBytes rb item) rb := by
      refine ⟨rfl, rfl, rfl, rfl, rfl, fun x hx => ?_⟩
      rw [hmem, ← hacq, Mem.store_of_not_mem (by omega)]
    refine ⟨withBytes rb item, ?_, ?_, hsame, hold⟩
    · rw [if_neg hsplit, copyBytes_eq]
    · refine h.append hsame hle hne (fun i hi => ?_) hold ⟨rfl, rfl⟩ rfl ?_ rfl rfl
      · rw [hmem]
        exact store_place (by omega) hi
      · rw [← advance_place hs (by omega), ← hacq]
        rfl

/-- The free size is computed without a failed check. -/
lemma prvGetFreeSize_ok (h : ByteQueue rb f r a bs) : ∃ n, prvGetFreeSize rb = (.ok n, rb) := by
  have hs := h.storage
  apply RingBuffer.prvGetFreeSize_ok _ _ hs.tail_eq hs.size_lt
  · rw [h.free_eq]
    exact hs.place_bounds _
  · rw [h.acquire_eq]
    exact hs.place_bounds _

/-- Sending bytes adds them to those that wait. -/
lemma send (h : ByteQueue rb f r a bs) (item : List Byte) :
    (xRingbufferSend item rb = (.ok false, rb) ∧
        ¬ (item.length ≤ rb.xMaxItemSize ∧ a + item.length ≤ f + rb.xSize)) ∨
      ∃ rb', xRingbufferSend item rb = (.ok true, rb') ∧
        ByteQueue rb' f r (a + item.length) (bs ++ item) ∧ SameStorage rb' rb ∧
        ∀ x, f ≤ x → x < a → rb'.mem (rb.place x) = rb.mem (rb.place x) := by
  have hty := h.storage.type_eq
  rw [xRingbufferSend, Prog.get_bind]
  by_cases hlen : rb.xMaxItemSize < item.length
  · rw [if_pos hlen]
    exact .inl ⟨rfl, by omega⟩
  rw [if_neg hlen]
  by_cases hnil : item = []
  · subst hnil
    rw [if_pos ⟨hty, rfl⟩]
    refine .inr ⟨rb, rfl, ?_, ⟨rfl, rfl, rfl, rfl, rfl, fun _ _ => rfl⟩, fun _ _ _ => rfl⟩
    rw [List.append_nil]
    exact h
  rw [if_neg fun hz => hnil (List.length_eq_zero_iff.mp hz.2)]
  have hpos := List.length_pos_iff.mpr hnil
  rw [Prog.bind_ok (h.fits (Nat.le_of_not_lt hlen))]
  by_cases hfit : a + item.length ≤ f + rb.xSize
  · rw [decide_eq_true ⟨by omega, hfit⟩]
    obtain ⟨rb', h1, hq, hs, hold⟩ := h.copy hnil hfit
    have hcopy : copyItem item rb = (.ok (), rb') := by
      rw [copyItem, Prog.get_bind, hty]
      exact h1
    obtain ⟨n, hn⟩ := hq.prvGetFreeSize_ok
    refine .inr ⟨rb', ?_, hq, hs, hold⟩
    rw [if_pos rfl, Prog.bind_ok hcopy, Prog.bind_ok hn]
    rfl
  · rw [decide_eq_false fun hc => hfit hc.2]
    exact .inl ⟨rfl, fun hc => hfit hc.2⟩

/-! ### Receiving and returning -/

/-- The buffer knows that bytes are waiting. -/
lemma itemsToRead (h : ByteQueue rb f f a bs) (hne : bs ≠ []) : rb.itemsToRead = true := by
  have hpos := List.length_pos_iff.mpr hne
  have hlen := h.length_eq
  have hround := h.round
  have hmod := Ring.mod_eq_mod_iff h.storage.size_pos (p := f) (q := a) (by omega) hround
  rw [Ringbuffer.itemsToRead, h.full_eq, h.read_eq, h.write_eq, h.waiting, Bool.and_eq_true,
    Bool.or_eq_true, decide_eq_true_eq, decide_eq_true_eq, bne_iff_ne, Ringbuffer.place,
    Ringbuffer.place]
  omega

/-- The read pointer moves past `n` bytes that lie before the tail. -/
lemma advance_read (h : ByteQueue rb f f a bs) {n : ℕ} (hn : n ≤ bs.length)
    (hend : f % rb.xSize + n ≤ rb.xSize) :
    ByteQueue { rb with pucRead := rb.place (f + n), xItemsWaiting := rb.xItemsWaiting - n }
      f (f + n) a (bs.drop n) ∧ rb.mem.read (rb.place f) n = bs.take n := by
  have hs := h.storage
  have hlen := h.length_eq
  refine ⟨⟨hs.of_same ⟨rfl, rfl, rfl, rfl, rfl, fun _ _ => rfl⟩, by omega, ?_, h.round, h.free_eq, rfl, h.write_eq,
    h.acquire_eq, h.full_eq, ?_, fun i hi => ?_⟩, ?_⟩
  · rw [List.length_drop]
    omega
  · show rb.xItemsWaiting - n = (bs.drop n).length
    rw [h.waiting, List.length_drop]
    omega
  · rw [List.length_drop] at hi
    show rb.mem (rb.place (f + n + i)) = (bs.drop n).getD i 0#8
    rw [Nat.add_assoc, h.bytes (n + i) (by omega), List.getD, List.getD, List.getElem?_drop]
  · apply List.ext_getElem
    · rw [Mem.length_read, List.length_take]
      omega
    · intro i hi hi'
      rw [Mem.length_read] at hi
      have hb := h.bytes i (by omega)
      rw [Ringbuffer.place, Ring.add_mod_of_lt (by omega), ← Nat.add_assoc, List.getD,
        List.getElem?_eq_getElem (by omega), Option.getD_some] at hb
      simp only [Mem.read, List.getElem_map, List.getElem_range, List.getElem_take]
      exact hb

/-- The next bytes are retrieved: a piece of the bytes that wait, at most `xMaxSize` of them
when that is not zero. -/
lemma get (h : ByteQueue rb f f a bs) (hne : bs ≠ []) (xMaxSize : ℕ) :
    ∃ rb' n, prvGetItemByteBuf xMaxSize rb = (.ok ⟨rb.place f, n, false⟩, rb') ∧
      ByteQueue rb' f (f + n) a (bs.drop n) ∧ SameStorage rb' rb ∧ rb'.mem = rb.mem ∧
      0 < n ∧ n ≤ bs.length ∧ f % rb.xSize + n ≤ rb.xSize ∧ (xMaxSize ≠ 0 → n ≤ xMaxSize) ∧
      (xMaxSize = 0 → n = bs.length ∨ f % rb.xSize + n = rb.xSize) ∧
      rb.mem.read (rb.place f) n = bs.take n := by
  have hs := h.storage
  have htail := hs.tail_eq
  have htl := hs.tail_lt
  have hsz := hs.size_lt
  have hlen := h.length_eq
  have hround := h.round
  have hpos := List.length_pos_iff.mpr hne
  have hflt := Nat.mod_lt f hs.size_pos
  have halt := Nat.mod_lt a hs.size_pos
  have hmod := Ring.add_mod_of_le (p := f) hs.size_pos (show bs.length ≤ rb.xSize by omega)
  rw [← hlen] at hmod
  have hread := h.read_eq
  have hwrite := h.write_eq
  have hfull := h.full_eq
  rw [Ringbuffer.place] at hread hwrite
  rw [prvGetItemByteBuf, Prog.get_bind, Prog.bind_ok (configAssert_true (h.itemsToRead hne) rb),
    Prog.bind_ok (configAssert_true (by rw [h.read_eq]; simpa using hs.place_bounds f) rb),
    Prog.bind_ok (configAssert_true (decide_eq_true (by rw [h.read_eq, h.free_eq])) rb)]
  -- the contiguous bytes, up to the tail or up to the write pointer
  obtain ⟨n, hn, hn0, hnb, hnend, hall, hnext⟩ : ∃ n,
      (if (decide (rb.pucWrite < rb.pucRead) || rb.bufferFull) = true
        then u32Sub rb.pucTail rb.pucRead else u32Sub rb.pucWrite rb.pucRead) = n ∧
      0 < n ∧ n ≤ bs.length ∧ f % rb.xSize + n ≤ rb.xSize ∧
      (n = bs.length ∨ f % rb.xSize + n = rb.xSize) ∧
      (if (decide (rb.pucWrite < rb.pucRead) || rb.bufferFull) = true
        then rb.pucHead else rb.pucWrite) = rb.place (f + n) := by
    by_cases hwrap : rb.pucWrite < rb.pucRead ∨ a = f + rb.xSize
    · have hcond : (decide (rb.pucWrite < rb.pucRead) || rb.bufferFull) = true := by
        simpa [hfull] using hwrap
      rw [if_pos hcond, if_pos hcond, u32Sub_of_le htl (by omega)]
      refine ⟨_, rfl, by omega, ?_, by omega, .inr (by omega), ?_⟩
      · split_ifs at hmod <;> omega
      · rw [Ringbuffer.place, Ring.add_mod_of_within hs.size_pos (by omega), if_pos (by omega),
          Nat.add_zero]
    · have hcond : ¬ (decide (rb.pucWrite < rb.pucRead) || rb.bufferFull) = true := by
        simpa [hfull] using hwrap
      rw [if_neg hcond, if_neg hcond, u32Sub_of_le (by omega) (by omega)]
      refine ⟨bs.length, ?_, hpos, Nat.le_refl _, ?_, .inl rfl, ?_⟩
      · split_ifs at hmod <;> omega
      · split_ifs at hmod <;> omega
      · rw [← hlen, h.write_eq]
  simp only [hn]
  by_cases hmax : xMaxSize = 0 ∨ n ≤ xMaxSize
  · obtain ⟨h1, h2⟩ := h.advance_read hnb hnend
    rw [if_pos hmax, Prog.modify_bind]
    refine ⟨_, n, ?_, h1, ⟨rfl, rfl, rfl, rfl, rfl, fun _ _ => rfl⟩, rfl, hn0, hnb, hnend, by omega,
      fun _ => hall, h2⟩
    rw [hnext, ← h.read_eq]
    rfl
  · obtain ⟨h1, h2⟩ := h.advance_read (n := xMaxSize) (by omega) (by omega)
    have hplace : rb.place f + xMaxSize = rb.place (f + xMaxSize) := by
      rw [Ringbuffer.place, Ringbuffer.place, Ring.add_mod_of_lt (by omega), Nat.add_assoc]
    rw [if_neg hmax, Prog.modify_bind]
    refine ⟨_, xMaxSize, ?_, h1, ⟨rfl, rfl, rfl, rfl, rfl, fun _ _ => rfl⟩, rfl, by omega, by omega,
      by omega, fun _ => Nat.le_refl _, fun hz => absurd (.inl hz) hmax, h2⟩
    rw [← hplace, ← h.read_eq]
    rfl

/-- Receiving takes the next bytes, if some are waiting. -/
lemma receive (h : ByteQueue rb f f a bs) (xMaxSize : ℕ) :
    (bs = [] ∧ receiveOne xMaxSize rb = (.ok none, rb)) ∨
      ∃ rb' n, receiveOne xMaxSize rb = (.ok (some ⟨rb.place f, n, false⟩), rb') ∧
        ByteQueue rb' f (f + n) a (bs.drop n) ∧ SameStorage rb' rb ∧ rb'.mem = rb.mem ∧
        0 < n ∧ n ≤ bs.length ∧ f % rb.xSize + n ≤ rb.xSize ∧ (xMaxSize ≠ 0 → n ≤ xMaxSize) ∧
        (xMaxSize = 0 → n = bs.length ∨ f % rb.xSize + n = rb.xSize) ∧
        rb.mem.read (rb.place f) n = bs.take n := by
  have hread : rb.pucRead = rb.pucFree := by rw [h.read_eq, h.free_eq]
  have havail : rb.prvCheckItemAvail = rb.itemsToRead := if_neg fun hc => hc.2 hread
  rw [receiveOne, Prog.get_bind, havail]
  by_cases hne : bs = []
  · have hno : rb.itemsToRead = false := by
      rw [Ringbuffer.itemsToRead, h.waiting, hne]
      rfl
    rw [hno]
    exact .inl ⟨hne, rfl⟩
  · obtain ⟨rb', n, h1, hq⟩ := h.get hne xMaxSize
    have hget : getItem xMaxSize rb = (.ok ⟨rb.place f, n, false⟩, rb') := by
      rw [getItem, Prog.get_bind, h.storage.type_eq]
      exact h1
    rw [h.itemsToRead hne, if_pos rfl, Prog.bind_ok hget]
    exact .inr ⟨rb', n, rfl, hq⟩

/-- The retrieved bytes are returned. -/
lemma giveBack (h : ByteQueue rb f r a bs) (hlt : f < r) (hhead : 0 < rb.pucHead) (x : ℕ) :
    ∃ rb', vRingbufferReturnItem (rb.place x) rb = (.ok (), rb') ∧ ByteQueue rb' r r a bs ∧
      SameStorage rb' rb := by
  have hround := h.round
  have hlen := h.length_eq
  have hp := h.storage.place_bounds x
  rw [vRingbufferReturnItem, Prog.get_bind,
    Prog.bind_ok (configAssert_true (decide_eq_true (by omega)) rb), h.storage.type_eq]
  simp only [prvReturnItemByteBuf]
  rw [Prog.get_bind, Prog.bind_ok (configAssert_true (decide_eq_true hp.1) rb),
    Prog.bind_ok (configAssert_true (decide_eq_true hp.2) rb)]
  refine ⟨_, rfl, ?_, ⟨rfl, rfl, rfl, rfl, rfl, fun _ _ => rfl⟩⟩
  refine ⟨h.storage.of_same ⟨rfl, rfl, rfl, rfl, rfl, fun _ _ => rfl⟩, Nat.le_refl _, hlen, ?_, h.read_eq, h.read_eq,
    h.write_eq, h.acquire_eq, ?_, h.waiting, h.bytes⟩
  · show a ≤ r + rb.xSize
    omega
  · exact (decide_eq_false (show ¬ a = r + rb.xSize by omega)).symm

end ByteQueue

/-! ### A new buffer -/

/-- A new byte buffer is empty. -/
lemma create_byteQueue {mem : Mem} {size storage : ℕ} (hsize : 0 < size)
    (hend : storage + size < 2 ^ 32) (hlt : size < 2 ^ 31) :
    ByteQueue (xRingbufferCreate mem size .byteBuf storage) 0 0 0 [] := by
  have hx : (xRingbufferCreate mem size .byteBuf storage).xSize = size := rfl
  have hp : (xRingbufferCreate mem size .byteBuf storage).place 0 = storage := by
    rw [Ringbuffer.place, Nat.zero_mod]
    rfl
  refine ⟨⟨hsize, hlt, rfl, hend, rfl, rfl⟩, Nat.le_refl _, rfl, Nat.zero_le _, hp.symm, hp.symm,
    hp.symm, hp.symm, ?_, rfl, by simp⟩
  rw [hx, decide_eq_false (show ¬ 0 = 0 + size by omega)]
  rfl

end EspIdf.RingBuffer
