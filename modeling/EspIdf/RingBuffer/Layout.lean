/-
# The cells of a ring buffer

The storage of a no-split or allow-split buffer is a ring.  From the free pointer to the
acquire pointer it is filled with cells: items with their headers, and dummy data that fills
the ring up to its end.  The positions of the four pointers only grow; the pointers themselves
are the places of these positions.
-/
import EspIdf.RingBuffer.Buffer
import EspIdf.Lib.Ring

namespace EspIdf.RingBuffer

open EspIdf.Lib

/-! ### Flags and sizes -/

lemma hasFlag_twoPow (f : BitVec 32) {k : ℕ} (hk : k < 32) :
    hasFlag f (BitVec.twoPow 32 k) = f.getLsbD k := by
  rw [hasFlag, BitVec.and_twoPow]
  have hne : BitVec.twoPow 32 k ≠ 0#32 := by
    intro h
    have := congrArg (fun v => v.getLsbD k) h
    simp [hk] at this
  cases f.getLsbD k <;> simp [hne]

@[simp] lemma hasFlag_free (f : BitVec 32) : hasFlag f rbItemFreeFlag = f.getLsbD 0 :=
  hasFlag_twoPow (k := 0) f (by decide)

@[simp] lemma hasFlag_dummy (f : BitVec 32) : hasFlag f rbItemDummyDataFlag = f.getLsbD 1 :=
  hasFlag_twoPow (k := 1) f (by decide)

@[simp] lemma hasFlag_split (f : BitVec 32) : hasFlag f rbItemSplitFlag = f.getLsbD 2 :=
  hasFlag_twoPow (k := 2) f (by decide)

@[simp] lemma hasFlag_written (f : BitVec 32) : hasFlag f rbItemWrittenFlag = f.getLsbD 3 :=
  hasFlag_twoPow (k := 3) f (by decide)

/-- `rbALIGN_SIZE` of a size that does not overflow. -/
def alignUp (n : ℕ) : ℕ := (n + 3) / 4 * 4

lemma rbAlignSize_eq {n : ℕ} (h : n + 3 < 2 ^ 32) : rbAlignSize n = alignUp n := by
  rw [rbAlignSize, u32_of_lt h, alignUp]

lemma configAssert_true {b : Bool} (h : b = true) (rb : Ringbuffer) :
    configAssert b rb = (.ok (), rb) := by
  rw [configAssert, if_pos h]
  rfl

/-! ### The storage area -/

/-- The fixed fields of a no-split or allow-split buffer whose storage is an object of the
32-bit address space. -/
structure Storage (rb : Ringbuffer) : Prop where
  size_aligned : rb.xSize % 4 = 0
  head_aligned : rb.pucHead % 4 = 0
  size_ge : 12 ≤ rb.xSize
  split_ge : rb.type = .allowSplit → 16 ≤ rb.xSize
  size_lt : rb.xSize < 2 ^ 31
  tail_eq : rb.pucTail = rb.pucHead + rb.xSize
  tail_lt : rb.pucTail < 2 ^ 32
  max_eq : rb.xMaxItemSize = maxItemSize rb.xSize rb.type
  type_ne : rb.type ≠ .byteBuf

namespace Ringbuffer

/-- The place of a position. -/
def place (rb : Ringbuffer) (p : ℕ) : ℕ := rb.pucHead + p % rb.xSize

end Ringbuffer

namespace Storage

variable {rb rb' : Ringbuffer}

lemma size_pos (h : Storage rb) : 0 < rb.xSize := by
  have := h.size_ge
  omega

/-- The largest item of a no-split buffer takes at most half of it, rounded up. -/
lemma max_le (h : Storage rb) :
    (rb.type = .noSplit → 2 * (rb.xMaxItemSize + 8) ≤ rb.xSize + 4) ∧
      (rb.type = .allowSplit → rb.xMaxItemSize + 16 = rb.xSize) ∧ rb.xMaxItemSize % 4 = 0 := by
  have h1 := h.size_aligned
  have h2 := h.size_ge
  have h3 := h.size_lt
  have h4 := h.max_eq
  have h5 := h.type_ne
  cases hty : rb.type with
  | noSplit =>
    rw [hty, maxItemSize, rbAlignSize, u32_of_lt (by omega),
      u32Sub_of_le (by omega) (by rw [rbHeaderSize]; omega), rbHeaderSize] at h4
    refine ⟨fun _ => by omega, fun h => by simp at h, by omega⟩
  | allowSplit =>
    have h6 := h.split_ge hty
    rw [hty, maxItemSize, u32Sub_of_le (by omega) (by rw [rbHeaderSize]; omega),
      rbHeaderSize] at h4
    refine ⟨fun h => by simp at h, fun _ => by omega, by omega⟩
  | byteBuf => exact absurd hty h5

lemma max_lt (h : Storage rb) : rb.xMaxItemSize + 8 ≤ rb.xSize := by
  obtain ⟨h1, h2, _⟩ := h.max_le
  have h3 := h.size_ge
  have h5 := h.type_ne
  cases hty : rb.type with
  | noSplit => have := h1 hty; omega
  | allowSplit => have := h2 hty; omega
  | byteBuf => exact absurd hty h5

/-- The storage only depends on the fixed fields. -/
lemma congr (h : Storage rb) (hs : rb'.xSize = rb.xSize) (hh : rb'.pucHead = rb.pucHead)
    (ht : rb'.pucTail = rb.pucTail) (hm : rb'.xMaxItemSize = rb.xMaxItemSize)
    (hty : rb'.type = rb.type) : Storage rb' := by
  obtain ⟨h1, h2, h3, h4, h5, h6, h7, h8, h9⟩ := h
  constructor <;> simp only [hs, hh, ht, hm, hty] <;> assumption

lemma place_bounds (h : Storage rb) (p : ℕ) :
    rb.pucHead ≤ rb.place p ∧ rb.place p < rb.pucTail := by
  have h1 := Nat.mod_lt p h.size_pos
  have h2 := h.tail_eq
  unfold Ringbuffer.place
  omega

end Storage

/-! ### Cells -/

/-- A cell of the ring: an item or dummy data. -/
structure Cell where
  pos : ℕ
  span : ℕ
  data : List Byte
  dummy : Bool
  free : Bool
  written : Bool
  split : Bool

/-- The room that an item at place `p` of `n` places takes: what is left before the end is
taken too when no header fits there. -/
def itemSpan (n p len : ℕ) : ℕ :=
  if n < p + 8 + alignUp len + 8 then n - p else 8 + alignUp len

/-- A cell lies in a ring of `n` places. -/
structure Cell.Lies (c : Cell) (n : ℕ) : Prop where
  aligned : c.pos % n % 4 = 0
  within : c.pos % n + c.span ≤ n
  dummy : c.dummy = true → c.pos % n + c.span = n ∧ 8 ≤ c.span
  item : c.dummy = false → c.pos % n + 8 + alignUp c.data.length ≤ n ∧
    c.span = itemSpan n (c.pos % n) c.data.length

/-- The header of a cell and the data of an item are in memory. -/
structure Stored (rb : Ringbuffer) (c : Cell) : Prop where
  lies : c.Lies rb.xSize
  dummy : (rb.uxItemFlags (rb.place c.pos)).getLsbD 1 = c.dummy
  item : c.dummy = false →
    c.data.length ≤ rb.xMaxItemSize ∧
    rb.xItemLen (rb.place c.pos) = c.data.length ∧
    (rb.uxItemFlags (rb.place c.pos)).getLsbD 0 = c.free ∧
    (rb.uxItemFlags (rb.place c.pos)).getLsbD 2 = c.split ∧
    (rb.uxItemFlags (rb.place c.pos)).getLsbD 3 = c.written ∧
    rb.mem.read (rb.place c.pos + 8) c.data.length = c.data

namespace Cell.Lies

variable {c : Cell} {n : ℕ}

lemma span_ge (h : c.Lies n) : 8 ≤ c.span := by
  cases hd : c.dummy with
  | true => exact (h.dummy hd).2
  | false =>
    obtain ⟨h1, h2⟩ := h.item hd
    rw [h2, itemSpan]
    split_ifs <;> omega

/-- An item and its header lie in its cell. -/
lemma item_le (h : c.Lies n) (hd : c.dummy = false) : 8 + alignUp c.data.length ≤ c.span := by
  obtain ⟨h1, h2⟩ := h.item hd
  rw [h2, itemSpan]
  split_ifs <;> omega

/-- A cell ends where another header can stand, or at the end of the ring. -/
lemma end_place (h : c.Lies n) (hn : 0 < n) (hn4 : n % 4 = 0) (hn8 : 8 ≤ n) :
    (c.pos + c.span) % n % 4 = 0 ∧ (c.pos + c.span) % n + 8 ≤ n := by
  have h0 := h.within
  rw [Ring.add_mod_of_within hn h0]
  split_ifs with he
  · omega
  · have ha := h.aligned
    cases hd : c.dummy with
    | true => exact absurd (h.dummy hd).1 he
    | false =>
      obtain ⟨h1, h2⟩ := h.item hd
      have h4 : alignUp c.data.length % 4 = 0 := by rw [alignUp]; omega
      rw [itemSpan] at h2
      split_ifs at h2 <;> omega

end Cell.Lies

lemma le_alignUp (n : ℕ) : n ≤ alignUp n := by
  rw [alignUp]
  omega

lemma alignUp_le_of_le {n m : ℕ} (h : n ≤ m) (hm : m % 4 = 0) : alignUp n ≤ m := by
  rw [alignUp]
  omega

/-! ### Memory changes -/

/-- Two cells take different places. -/
def Cell.Apart (n : ℕ) (c d : Cell) : Prop :=
  c.pos % n + c.span ≤ d.pos % n ∨ d.pos % n + d.span ≤ c.pos % n

instance (n : ℕ) : Std.Symm (Cell.Apart n) := ⟨fun _ _ h => h.symm⟩

/-- The fields that the meaning of a cell depends on, and the memory around the storage. -/
structure SameStorage (rb' rb : Ringbuffer) : Prop where
  size : rb'.xSize = rb.xSize
  head : rb'.pucHead = rb.pucHead
  tail : rb'.pucTail = rb.pucTail
  max : rb'.xMaxItemSize = rb.xMaxItemSize
  type : rb'.type = rb.type
  outside : ∀ x, x < rb.pucHead ∨ rb.pucTail ≤ x → rb'.mem x = rb.mem x

namespace SameStorage

variable {rb rb' rb'' : Ringbuffer}

lemma refl (rb : Ringbuffer) : SameStorage rb rb := ⟨rfl, rfl, rfl, rfl, rfl, fun _ _ => rfl⟩

lemma trans (h : SameStorage rb'' rb') (h' : SameStorage rb' rb) : SameStorage rb'' rb :=
  ⟨h.size.trans h'.size, h.head.trans h'.head, h.tail.trans h'.tail, h.max.trans h'.max,
    h.type.trans h'.type, fun x hx =>
      (h.outside x (by rwa [h'.head, h'.tail])).trans (h'.outside x hx)⟩

lemma storage (h : SameStorage rb' rb) (hs : Storage rb) : Storage rb' :=
  hs.congr h.size h.head h.tail h.max h.type

lemma place (h : SameStorage rb' rb) (p : ℕ) : rb'.place p = rb.place p := by
  rw [Ringbuffer.place, Ringbuffer.place, h.size, h.head]

end SameStorage

namespace Stored

variable {rb rb' : Ringbuffer} {c : Cell}

/-- A cell lies between the head and the tail. -/
lemma within_storage (h : Stored rb c) (hs : Storage rb) :
    rb.pucHead ≤ rb.place c.pos ∧ rb.place c.pos + 8 ≤ rb.pucTail ∧
      rb.place c.pos + c.span ≤ rb.pucTail := by
  have hspan := h.lies.span_ge
  have hwithin := h.lies.within
  have htail := hs.tail_eq
  rw [Ringbuffer.place]
  omega

/-- A cell stays when the memory it lies in does not change. -/
lemma congr (h : Stored rb c) (hs : SameStorage rb' rb)
    (hm : ∀ x, rb.place c.pos ≤ x → x < rb.place c.pos + c.span → rb'.mem x = rb.mem x) :
    Stored rb' c := by
  have hspan := h.lies.span_ge
  have hflags : rb'.uxItemFlags (rb'.place c.pos) = rb.uxItemFlags (rb.place c.pos) := by
    rw [hs.place]
    exact Mem.word_congr fun i hi => hm _ (by omega) (by omega)
  have hlen : rb'.xItemLen (rb'.place c.pos) = rb.xItemLen (rb.place c.pos) := by
    rw [hs.place]
    exact congrArg BitVec.toNat (Mem.word_congr fun i hi => hm _ (by omega) (by omega))
  refine ⟨by rw [hs.size]; exact h.lies, by rw [hflags]; exact h.dummy, fun hd => ?_⟩
  obtain ⟨h1, h2, h3, h4, h5, h6⟩ := h.item hd
  refine ⟨by rw [hs.max]; exact h1, by rw [hlen]; exact h2, by rw [hflags]; exact h3,
    by rw [hflags]; exact h4, by rw [hflags]; exact h5, ?_⟩
  have hle := h.lies.item_le hd
  have := le_alignUp c.data.length
  rw [hs.place, Mem.read_congr fun i hi => hm _ (by omega) (by omega), h6]

end Stored

/-- Changing the memory of one cell leaves the others alone. -/
lemma stored_of_other {rb rb' : Ringbuffer} {all : List Cell} {c d : Cell}
    (hst : ∀ d ∈ all, Stored rb d) (hap : all.Pairwise (Cell.Apart rb.xSize))
    (hs : SameStorage rb' rb) (hc : c ∈ all)
    (hm : ∀ x, ¬ (rb.place c.pos ≤ x ∧ x < rb.place c.pos + c.span) → rb'.mem x = rb.mem x)
    (hd : d ∈ all) (hne : d ≠ c) : Stored rb' d := by
  have hcd := hap.forall hd hc hne
  refine (hst d hd).congr hs fun x h1 h2 => hm x ?_
  unfold Cell.Apart at hcd
  unfold Ringbuffer.place at h1 h2 ⊢
  omega

/-! ### Moving a pointer past a cell -/

section Places

variable {rb : Ringbuffer} {c : Cell}

lemma wrapAround_item (hs : Storage rb) (h : Stored rb c) (hd : c.dummy = false) :
    wrapAround rb (rb.place c.pos + (8 + alignUp c.data.length)) =
      rb.place (c.pos + c.span) := by
  obtain ⟨h1, h2⟩ := h.lies.item hd
  have h3 := h.lies.within
  have ht := hs.tail_eq
  have hlt := hs.tail_lt
  rw [wrapAround, u32Sub_of_le hlt (by rw [Ringbuffer.place]; omega), rbHeaderSize,
    Ringbuffer.place, Ringbuffer.place, Ring.add_mod_of_within hs.size_pos h3]
  rw [itemSpan] at h2
  split_ifs at h2 ⊢ <;> omega

lemma place_end_dummy (hs : Storage rb) (h : Stored rb c) (hd : c.dummy = true) :
    rb.place (c.pos + c.span) = rb.pucHead := by
  rw [Ringbuffer.place, Ring.add_mod_of_within hs.size_pos h.lies.within,
    if_pos (h.lies.dummy hd).1, Nat.add_zero]

lemma wrapAround_dummy (hs : Storage rb) (h : Stored rb c) (hd : c.dummy = true) :
    wrapAround rb rb.pucHead = rb.place (c.pos + c.span) := by
  rw [wrapAround, ite_self, place_end_dummy hs h hd]

/-- The aligned length that the header of an item gives. -/
lemma align_itemLen (hs : Storage rb) (h : Stored rb c) (hd : c.dummy = false) :
    rbAlignSize (rb.xItemLen (rb.place c.pos)) = alignUp c.data.length := by
  obtain ⟨h1, h2, _⟩ := h.item hd
  have h3 := hs.max_lt
  have h4 := hs.size_lt
  rw [h2, rbAlignSize_eq (by omega)]

end Places

/-- The cells `cs` lie end to end from position `p` to position `q`. -/
abbrev CellChain : ℕ → List Cell → ℕ → Prop := Ring.Chain Cell.pos Cell.span

/-- The cells of one round take different places. -/
lemma apart_of_chain {n p q : ℕ} {cs : List Cell} (hn : 0 < n) (h : CellChain p cs q)
    (hq : q ≤ p + n) (hl : ∀ c ∈ cs, c.Lies n) : cs.Pairwise (Cell.Apart n) := by
  refine (Ring.chain_pairwise h).imp_of_mem fun {b c} hb hc hbc => ?_
  have h1 := Ring.chain_mem h hb
  have h2 := Ring.chain_mem h hc
  exact Ring.apart hn (hl c hc).within hbc (by omega)

/-- The loop over the items does not run from its limit. -/
lemma skipItems_stop (flag : BitVec 32) (p fuel : ℕ) (rb : Ringbuffer) :
    skipItems flag p (fuel + 1) p rb = (.ok p, rb) := by
  rw [skipItems, Prog.get_bind]
  simp only [bne_self_eq_false, Bool.and_false, Bool.false_eq_true, ↓reduceIte]
  rfl

/-- The loop over the items ends at the first cell that is neither dummy data nor has the
flag. -/
lemma skipItems_ok {flag : BitVec 32} {m : Cell → Bool}
    (hm : ∀ rb c, Stored rb c → c.dummy = false →
      hasFlag (rb.uxItemFlags (rb.place c.pos)) flag = m c)
    {rb : Ringbuffer} {all cs : List Cell} {p q fuel : ℕ} (hs : Storage rb)
    (hsub : ∀ c ∈ cs, c ∈ all) (hst : ∀ c ∈ all, Stored rb c)
    (hap : all.Pairwise (Cell.Apart rb.xSize)) (hc : CellChain p cs q)
    (hq : q < p + rb.xSize) (hfuel : cs.length < fuel) :
    ∃ mem r, skipItems flag (rb.place q) fuel (rb.place p) rb =
        (.ok (rb.place r), { rb with mem := mem }) ∧
      (∀ c ∈ all, Stored { rb with mem := mem } c) ∧
      CellChain p (cs.takeWhile fun c => c.dummy || m c) r ∧
      CellChain r (cs.dropWhile fun c => c.dummy || m c) q ∧
      ∀ x, x < rb.pucHead ∨ rb.pucTail ≤ x → mem x = rb.mem x := by
  induction cs generalizing p fuel rb with
  | nil =>
    obtain ⟨fuel, rfl⟩ := Nat.exists_eq_succ_of_ne_zero (Nat.ne_of_gt hfuel)
    obtain rfl : p = q := hc
    exact ⟨rb.mem, p, skipItems_stop flag _ fuel rb, hst, rfl, rfl, fun _ _ => rfl⟩
  | cons c cs ih =>
    obtain ⟨fuel, rfl⟩ := Nat.exists_eq_succ_of_ne_zero (by omega : fuel ≠ 0)
    obtain ⟨rfl, hcs⟩ := hc
    have hcall := hsub c List.mem_cons_self
    have hstc := hst c hcall
    have hspan := hstc.lies.span_ge
    have hle := Ring.chain_le hcs
    have hne : rb.place c.pos ≠ rb.place q := by
      have := (Ring.mod_eq_mod_iff hs.size_pos (by omega) (Nat.le_of_lt hq)).not.mpr (by omega)
      rw [Ringbuffer.place, Ringbuffer.place]
      omega
    rw [skipItems, Prog.get_bind]
    simp only [bne_iff_ne.mpr hne, Bool.and_true, hasFlag_dummy, hstc.dummy]
    cases hd : c.dummy with
    | true =>
      -- dummy data is marked and the pointer starts over
      simp only [Bool.or_true, ↓reduceIte]
      rw [setItemFlags, Prog.modify_bind, wrapAround_dummy hs hstc hd]
      set rb₁ : Ringbuffer :=
        { rb with
          mem := rb.mem.storeWord (rb.place c.pos + 4)
            (rb.uxItemFlags (rb.place c.pos) ||| flag) } with hrb₁
      have hsame : SameStorage rb₁ rb :=
        ⟨rfl, rfl, rfl, rfl, rfl, fun x hx => Mem.storeWord_of_not_mem (by
          have := hstc.within_storage hs
          omega)⟩
      have hst₁ : ∀ d ∈ all, Stored rb₁ d := by
        intro d hdall
        by_cases hdc : d = c
        · subst hdc
          refine ⟨hstc.lies, ?_, fun h => by rw [hd] at h; cases h⟩
          rw [hrb₁]
          simp only [Ringbuffer.uxItemFlags, Ringbuffer.place, Mem.word_storeWord_self]
          rw [BitVec.getLsbD_or]
          have := hstc.dummy
          rw [Ringbuffer.uxItemFlags, Ringbuffer.place] at this
          rw [this, hd, Bool.true_or]
        · exact stored_of_other hst hap hsame hcall
            (fun x hx => Mem.storeWord_of_not_mem (by omega)) hdall hdc
      obtain ⟨mem, r, h1, h2, h3, h4, h5⟩ := ih (hsame.storage hs)
        (fun d hd => hsub d (List.mem_cons_of_mem _ hd)) hst₁ hap hcs
        (show q < c.pos + c.span + rb.xSize by omega) (show cs.length < fuel by simpa using hfuel)
      refine ⟨mem, r, h1, h2, ?_, ?_, fun x hx => (h5 x hx).trans (hsame.outside x hx)⟩
      · rw [List.takeWhile_cons_of_pos (by simp [hd])]
        exact ⟨rfl, h3⟩
      · rw [List.dropWhile_cons_of_pos (by simp [hd])]
        exact h4
    | false =>
      simp only [hm rb c hstc hd, Bool.or_false]
      cases hmc : m c with
      | false =>
        refine ⟨rb.mem, c.pos, rfl, hst, ?_, ?_, fun _ _ => rfl⟩
        · rw [List.takeWhile_cons_of_neg (by simp [hd, hmc])]
          rfl
        · rw [List.dropWhile_cons_of_neg (by simp [hd, hmc])]
          exact ⟨rfl, hcs⟩
      | true =>
        simp only [↓reduceIte, Bool.false_eq_true]
        have hend := (hstc.lies.item hd).1
        have htail := hs.tail_eq
        have htail' := hs.tail_lt
        have hp' : rb.place c.pos + (8 + alignUp c.data.length) < 2 ^ 32 := by
          rw [Ringbuffer.place]
          omega
        rw [align_itemLen hs hstc hd, rbHeaderSize, Nat.add_comm (alignUp _) 8, u32_of_lt hp',
          Prog.bind_ok (configAssert_true (decide_eq_true ?_) rb), wrapAround_item hs hstc hd]
        · obtain ⟨mem, r, h1, h2, h3, h4, h5⟩ := ih hs
            (fun d hd => hsub d (List.mem_cons_of_mem _ hd)) hst hap hcs
            (by omega) (show cs.length < fuel by simpa using hfuel)
          refine ⟨mem, r, h1, h2, ?_, ?_, h5⟩
          · rw [List.takeWhile_cons_of_pos (by simp [hmc])]
            exact ⟨rfl, h3⟩
          · rw [List.dropWhile_cons_of_pos (by simp [hmc])]
            exact h4
        · rw [Ringbuffer.place]
          omega

end EspIdf.RingBuffer
