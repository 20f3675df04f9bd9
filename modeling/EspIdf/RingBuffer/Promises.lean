/-
# What a buffer promises

An item that is no longer than the free size that a buffer reports is accepted at once, and an
empty buffer takes its largest item wherever its pointers stand.
-/
import EspIdf.RingBuffer.InBounds

namespace EspIdf.RingBuffer.History

open EspIdf.Lib
open EspIdf.RingBuffer.Held (World)

variable {w : World} {rb : Ringbuffer} {k : Marks} {H R P : List Cell} {f r a n : ℕ}
  {bs : List Byte}

/-! ### The reported free size -/

lemma toBaseType_of_lt {x : ℤ} (h : -2 ^ 31 ≤ x) (h' : x < 2 ^ 31) : toBaseType x = x :=
  Int.bmod_eq_of_le_mul_two (by omega) (by omega)

/-- The limits leave no more than the space and the size of the largest item. -/
lemma le_of_le_limitFreeSize {x : ℤ} (hpos : 0 < n) (h : n ≤ rb.limitFreeSize x) :
    (n : ℤ) ≤ x ∧ n ≤ rb.xMaxItemSize := by
  rw [Ringbuffer.limitFreeSize] at h
  split_ifs at h <;> omega

/-- The free size of a no-split or allow-split buffer passes the fit check. -/
lemma itemFits_of_le_free (h : Layout rb k H R P) (hpos : 0 < n)
    (hle : n ≤ rb.xRingbufferGetCurFreeSize) :
    n ≤ rb.xMaxItemSize ∧ itemFits rb n = true := by
  have hs := h.storage
  have hsize := hs.size_aligned
  have hlt := hs.size_lt
  have htail := hs.tail_eq
  have htl := hs.tail_lt
  have hhead := hs.head_aligned
  have hA := hs.place_bounds k.acquire
  have hF := hs.place_bounds k.free
  have hA4 : rb.pucAcquire % 4 = 0 := by
    have := h.room.1
    rw [h.acquire_eq, Ringbuffer.place]
    omega
  have hF4 : rb.pucFree % 4 = 0 := by
    have := h.free_room.1
    rw [h.free_eq, Ringbuffer.place]
    omega
  rw [← h.acquire_eq] at hA
  rw [← h.free_eq] at hF
  rw [itemFits]
  cases hfull : rb.bufferFull with
  | true =>
    -- a full buffer reports nothing
    have hzero : rb.xRingbufferGetCurFreeSize = 0 := by
      cases hty : rb.type <;>
        simp [Ringbuffer.xRingbufferGetCurFreeSize, hty, Ringbuffer.prvGetCurMaxSizeNoSplit,
          Ringbuffer.prvGetCurMaxSizeAllowSplit, Ringbuffer.prvGetCurMaxSizeByteBuf, hfull]
    omega
  | false =>
    cases hty : rb.type with
    | byteBuf => exact absurd hty hs.type_ne
    | noSplit =>
      rw [Ringbuffer.xRingbufferGetCurFreeSize, hty] at hle
      simp only [Ringbuffer.prvGetCurMaxSizeNoSplit, hfull, Bool.false_eq_true, ↓reduceIte,
        rbHeaderSize] at hle
      rw [u32Sub_of_le htl (by omega), u32Sub_of_le (by omega) (by omega)] at hle
      by_cases hlt' : rb.pucAcquire < rb.pucFree
      · rw [if_pos hlt', toBaseType_of_lt (x := rb.pucFree - rb.pucAcquire) (by omega) (by omega),
          toBaseType_of_lt (by omega) (by omega)] at hle
        obtain ⟨h1, h2⟩ := le_of_le_limitFreeSize hpos hle
        refine ⟨h2, ?_⟩
        rw [if_neg (by omega), if_pos hlt', decide_eq_true_eq, alignUp]
        omega
      · -- the larger of the two ends
        have hends : (if rb.pucFree - rb.pucHead < rb.pucTail - rb.pucAcquire then
            ((rb.pucTail - rb.pucAcquire : ℕ) : ℤ) else ((rb.pucFree - rb.pucHead : ℕ) : ℤ)) <
              2 ^ 31 := by
          split_ifs <;> omega
        rw [if_neg hlt', toBaseType_of_lt (by split_ifs <;> omega) hends,
          toBaseType_of_lt (by split_ifs <;> omega) (by omega)] at hle
        obtain ⟨h1, h2⟩ := le_of_le_limitFreeSize hpos hle
        refine ⟨h2, ?_⟩
        rw [if_neg hlt']
        by_cases heq : rb.pucAcquire = rb.pucFree
        · rw [if_pos heq]
          rfl
        · rw [if_neg heq, if_neg (show ¬ RingbufferType.noSplit = .allowSplit by decide), alignUp]
          split_ifs at h1 ⊢ <;> simp only [decide_eq_true_eq] <;> omega
    | allowSplit =>
      rw [Ringbuffer.xRingbufferGetCurFreeSize, hty] at hle
      simp only [Ringbuffer.prvGetCurMaxSizeAllowSplit, hfull, Bool.false_eq_true, ↓reduceIte,
        rbHeaderSize] at hle
      by_cases hlt' : rb.pucAcquire < rb.pucFree
      · rw [if_neg (by omega), if_pos hlt', toBaseType_of_lt (by omega) (by omega)] at hle
        obtain ⟨h1, h2⟩ := le_of_le_limitFreeSize hpos hle
        refine ⟨h2, ?_⟩
        rw [if_neg (by omega), if_pos hlt', decide_eq_true_eq, alignUp]
        omega
      · by_cases heq : rb.pucAcquire = rb.pucFree
        · refine ⟨?_, by rw [if_pos heq]; rfl⟩
          split_ifs at hle <;> exact (le_of_le_limitFreeSize hpos hle).2
        · -- an item that wraps around has two headers
          rw [if_neg (by omega), if_neg hlt', toBaseType_of_lt (by omega) (by omega)] at hle
          obtain ⟨h1, h2⟩ := le_of_le_limitFreeSize hpos hle
          refine ⟨h2, ?_⟩
          rw [if_neg heq, if_neg hlt', if_pos rfl, alignUp]
          split_ifs
          · rfl
          · simp only [decide_eq_true_eq]
            omega

/-- The free size of a byte buffer is the rest of the ring. -/
lemma byte_free_eq (h : ByteQueue rb f r a bs) :
    rb.xRingbufferGetCurFreeSize = f + rb.xSize - a := by
  have hs := h.storage
  have hpos := hs.size_pos
  have hlt := hs.size_lt
  have htail := hs.tail_eq
  have htl := hs.tail_lt
  have hfr := h.free_le
  have hlen := h.length_eq
  have hround := h.round
  have hflt := Nat.mod_lt f hs.size_pos
  have halt := Nat.mod_lt a hs.size_pos
  obtain ⟨d, hd⟩ := Nat.exists_eq_add_of_le (show f ≤ a by omega)
  have hmod := Ring.add_mod_of_le (p := f) hs.size_pos (show d ≤ rb.xSize by omega)
  rw [← hd] at hmod
  rw [Ringbuffer.xRingbufferGetCurFreeSize, hs.type_eq]
  simp only [Ringbuffer.prvGetCurMaxSizeByteBuf]
  rw [h.full_eq]
  by_cases hfull : a = f + rb.xSize
  · rw [decide_eq_true hfull, if_pos rfl]
    omega
  · rw [decide_eq_false hfull, if_neg Bool.false_ne_true, h.acquire_eq, h.free_eq,
      Ringbuffer.place, Ringbuffer.place]
    rw [toBaseType_of_lt (by omega) (by omega)]
    by_cases hle : f % rb.xSize ≤ a % rb.xSize
    · rw [if_pos (by omega), toBaseType_of_lt (by omega) (by omega)]
      split_ifs at hmod <;> omega
    · rw [if_neg (by omega)]
      split_ifs at hmod <;> omega

/-! ### Accepting an item -/

/-- A buffer with the invariant takes every item that its fit check accepts. -/
lemma Inv.send_ok (h : Inv w) {item : List Byte} (hmax : item.length ≤ w.rb.xMaxItemSize)
    (hfit : checkItemFits item.length w.rb = (.ok true, w.rb)) :
    ∃ rb', xRingbufferSend item w.rb = (.ok true, rb') ∧ Inv ⟨rb', w.held⟩ := by
  by_cases htype : w.rb.type = .byteBuf
  · obtain ⟨f, r, a, bs, hq, hhead, hheld⟩ := (inv_bytes htype).mp h
    rcases hq.send item with ⟨_, hno⟩ | ⟨rb', h1, hq', hs, _⟩
    · refine absurd ⟨hmax, ?_⟩ hno
      rw [hq.fits hmax] at hfit
      have hb : a < f + w.rb.xSize ∧ a + item.length ≤ f + w.rb.xSize := by simpa using hfit
      exact hb.2
    · refine ⟨rb', h1, (inv_bytes (hs.type.trans htype)).mpr ⟨f, r, _, _, hq', ?_, hheld.congr hs⟩⟩
      rw [hs.head]
      exact hhead
  · obtain ⟨k, H, R, hq, hheld, hnone⟩ := (inv_items htype).mp h
    rcases hq.send item with ⟨_, hno⟩ | ⟨rb', a, cs, h1, hq', hs, _, _⟩
    · refine absurd ⟨hmax, ?_⟩ hno
      rw [checkItemFits_eq hq.layout hmax] at hfit
      simpa using hfit
    · refine ⟨rb', h1, (inv_items (by rw [hs.type]; exact htype)).mpr ⟨_, H, _, hq', ?_, hnone⟩⟩
      rw [hheld]
      exact List.map_congr_left fun d _ => by rw [Held.view, Held.view, hs.place]

/-- Every item up to the free size that the buffer reports is accepted at once, and the
invariant holds after it has been sent. -/
def FreeSizeKept (w : World) : Prop :=
  ∀ item : List Byte, 0 < item.length → item.length ≤ w.rb.xRingbufferGetCurFreeSize →
    checkItemFits item.length w.rb = (.ok true, w.rb) ∧
      ∃ rb', xRingbufferSend item w.rb = (.ok true, rb') ∧ Inv ⟨rb', w.held⟩

lemma Inv.freeSizeKept (h : Inv w) : FreeSizeKept w := by
  intro item hpos hle
  have hfit : item.length ≤ w.rb.xMaxItemSize ∧
      checkItemFits item.length w.rb = (.ok true, w.rb) := by
    by_cases htype : w.rb.type = .byteBuf
    · obtain ⟨f, r, a, bs, hq, _, _⟩ := (inv_bytes htype).mp h
      have hlen := hq.length_eq
      have hfr := hq.free_le
      have hmax := hq.storage.max_eq
      rw [byte_free_eq hq] at hle
      have hfits : item.length ≤ w.rb.xMaxItemSize := by omega
      rw [hq.fits hfits, decide_eq_true (by omega)]
      exact ⟨hfits, rfl⟩
    · obtain ⟨k, H, R, hq, _⟩ := (inv_items htype).mp h
      obtain ⟨h1, h2⟩ := itemFits_of_le_free hq.layout hpos hle
      rw [checkItemFits_eq hq.layout h1, h2]
      exact ⟨h1, rfl⟩
  exact ⟨hfit.2, h.send_ok hfit.1 hfit.2⟩

/-- A run after which sending `item`, no longer than the reported free size, changes the bytes of
a held item. -/
lemma exists_free_size_broken {w₀ : World} {ops : List Op} (item : List Byte)
    (hpos : 0 < item.length)
    (h : (match run w₀ ops with
      | .ok w =>
        let rb' := (xRingbufferSend item w.rb).2
        rb'.type != .byteBuf && decide (item.length ≤ w.rb.xRingbufferGetCurFreeSize) &&
          w.held.any fun other => rb'.mem.read other.1 other.2.length != other.2
      | .error _ => false) = true) :
    ∃ w, run w₀ ops = .ok w ∧ ¬ FreeSizeKept w := by
  cases hr : run w₀ ops with
  | error e => simp [hr] at h
  | ok w =>
    simp only [hr, Bool.and_eq_true, decide_eq_true_eq] at h
    obtain ⟨⟨htype, hle⟩, hany⟩ := h
    refine ⟨w, rfl, fun hkept => ?_⟩
    obtain ⟨_, rb', hsend, hinv⟩ := hkept item hpos hle
    rw [hsend] at htype hany
    obtain ⟨other, hmem, hne⟩ := List.any_eq_true.mp hany
    have hintact := ((inv_items (bne_iff_ne.mp htype)).mp hinv).intact
    exact bne_iff_ne.mp hne (hintact.unchanged other hmem)

/-- Nothing is waiting and nothing is held. -/
def Empty (w : World) : Prop := w.rb.xItemsWaiting = 0 ∧ w.held = []

/-- The bytes of a retrieved item. -/
def contents (rb : Ringbuffer) (x : Retrieved) : List Byte := rb.mem.read x.pvItem x.xItemSize

/-- A consumer of a byte buffer takes one piece and returns it. -/
def receivePiece : RbM (List Byte) := do
  match ← xRingbufferReceive with
  | none => pure []
  | some x =>
    let rb ← Prog.get
    vRingbufferReturnItem x.pvItem
    pure (contents rb x)

/-- A consumer takes one item whole: both parts of one that an allow-split buffer has split, and
the pieces of a byte buffer before and after the wrap-around. -/
def receiveWhole : RbM (Option (List Byte)) := do
  let rb ← Prog.get
  match rb.type with
  | .noSplit =>
    let x ← xRingbufferReceive
    let rb ← Prog.get
    pure (x.map (contents rb))
  | .allowSplit =>
    let x ← xRingbufferReceiveSplit
    let rb ← Prog.get
    pure (x.map fun x => contents rb x.1 ++ (x.2.map (contents rb)).getD [])
  | .byteBuf =>
    let first ← receivePiece
    let rest ← receivePiece
    pure (some (first ++ rest))

/-- Every item up to the size of the largest one passes the fit check, is sent and received
whole. -/
def TakesLargest (rb : Ringbuffer) : Prop :=
  ∀ item : List Byte, item.length ≤ rb.xRingbufferGetMaxItemSize →
    checkItemFits item.length rb = (.ok true, rb) ∧
      ∃ rb₁ rb₂, xRingbufferSend item rb = (.ok true, rb₁) ∧
        receiveWhole rb₁ = (.ok (some item), rb₂)

section Items

variable {item : List Byte} {cs D R' : List Cell} {c c₁ c₂ : Cell}

/-- An item that is not split is in the first cell that is not dummy data. -/
lemma carries_first (h : Carries item (D ++ c :: R')) (hD : ∀ d ∈ D, d.dummy = true)
    (hd : c.dummy = false) (hs : c.split = false) : c.data = item := by
  rcases h with ⟨e, he, hdata, _⟩ | ⟨d, e, he, hdum, hdata, _⟩ | ⟨e₁, e₂, he, _, hd₁, _, _, _, hs₁, _⟩
  · cases D with
    | nil => rw [(List.cons.inj he).1, hdata]
    | cons x xs => simp at he
  · rcases D with _ | ⟨x, _ | ⟨y, ys⟩⟩
    · rw [(List.cons.inj he).1, hdum] at hd
      simp at hd
    · rw [(List.cons.inj (List.cons.inj he).2).1, hdata]
    · simp at he
  · cases D with
    | nil =>
      rw [(List.cons.inj he).1, hs₁] at hs
      simp at hs
    | cons x xs =>
      have hx := hD x List.mem_cons_self
      rw [(List.cons.inj he).1, hd₁] at hx
      simp at hx

/-- Two cells that are not dummy data are the two parts of a split item. -/
lemma carries_parts (h : Carries item (D ++ c₁ :: c₂ :: R')) (hd₁ : c₁.dummy = false) :
    c₁.data ++ c₂.data = item := by
  rcases h with ⟨e, he, _⟩ | ⟨d, e, he, hdum, _⟩ | ⟨e₁, e₂, he, hdata, _⟩
  · have := congrArg List.length he
    simp at this
    omega
  · cases D with
    | nil =>
      rw [(List.cons.inj he).1, hdum] at hd₁
      simp at hd₁
    | cons x xs =>
      have := congrArg List.length he
      simp at this
      omega
  · cases D with
    | nil =>
      rw [(List.cons.inj he).1, (List.cons.inj (List.cons.inj he).2).1, hdata]
    | cons x xs =>
      have := congrArg List.length he
      simp at this
      omega

/-- In an empty buffer all the pointers stand at one place. -/
lemma empty_queue (h : Held.Inv w) (he : Empty w) : ∃ p, Queue w.rb ⟨p, p, p, p⟩ [] [] := by
  obtain ⟨⟨f, r, wr, a⟩, H, R, hq, _, hnone⟩ := h
  obtain rfl : H = [] := hnone he.2
  have hR : R = [] := by
    by_contra hne
    obtain ⟨D, c, rest, rfl, _, hd, _⟩ := hq.readable.next hne
    have hcount := hq.waiting
    rw [he.1, List.countP_append, List.countP_cons] at hcount
    simp only [hd, Bool.not_false, ↓reduceIte] at hcount
    omega
  subst hR
  obtain rfl : f = r := hq.layout.held_chain
  obtain rfl : f = wr := hq.layout.ready_chain
  obtain rfl : f = a := hq.layout.pending_chain
  exact ⟨f, hq⟩

/-- The next item that is retrieved is the one that has been sent to an empty buffer. -/
lemma receiveWhole_item (hq : Queue rb k [] cs) (hcar : Carries item cs)
    (hno : rb.type = .noSplit → ∀ c ∈ cs, c.split = false) :
    ∃ rb', receiveWhole rb = (.ok (some item), rb') := by
  have hwait : rb.xItemsWaiting ≠ 0 := by
    have hcount : 0 < cs.countP fun c => !c.dummy := by
      rw [List.countP_pos_iff]
      rcases hcar with ⟨c, rfl, _, hd, _⟩ | ⟨d, c, rfl, _, _, hd, _⟩ | ⟨c, d, rfl, _, hd, _⟩ <;>
      exact ⟨c, by simp, by simp [hd]⟩
    rw [hq.waiting]
    omega
  have hdata : ∀ {rb' k' H' R'} {c : Cell}, Queue rb' k' H' R' → SameStorage rb' rb → c ∈ H' →
      c.dummy = false →
      contents rb' ⟨rb.place c.pos + 8, c.data.length, c.split⟩ = c.data := by
    intro rb' k' H' R' c hq' hs hc hd
    rw [contents, ← hs.place]
    exact ((hq'.layout.stored c (by simp [hc])).item hd).2.2.2.2.2
  rw [receiveWhole, Prog.get_bind]
  cases hty : rb.type with
  | byteBuf => exact absurd hty hq.layout.storage.type_ne
  | noSplit =>
    rcases hq.receive with ⟨h0, _⟩ | ⟨rb', D, c, R', rfl, hD, hd, _, h1, hq', hs, _⟩
    · exact absurd h0 hwait
    · refine ⟨rb', ?_⟩
      simp only []
      rw [Prog.bind_ok h1, Prog.get_bind, Option.map_some, hdata hq' hs (by simp) hd,
        carries_first hcar hD hd (hno hty c (by simp))]
      rfl
  | allowSplit =>
    rcases hq.receiveSplit hty with ⟨h0, _⟩ | ⟨rb', D, c, R', rfl, hD, hd, _, hsp, h1, hq', hs, _⟩ |
      ⟨rb', D, c₁, c₂, R', rfl, hD, hd₁, _, hd₂, _, h1, hq', hs, _⟩
    · exact absurd h0 hwait
    · refine ⟨rb', ?_⟩
      simp only []
      rw [Prog.bind_ok h1, Prog.get_bind, Option.map_some, hdata hq' hs (by simp) hd,
        carries_first hcar hD hd hsp, Option.map_none, Option.getD_none, List.append_nil]
      rfl
    · refine ⟨rb', ?_⟩
      simp only []
      rw [Prog.bind_ok h1, Prog.get_bind, Option.map_some, hdata hq' hs (by simp) hd₁,
        Option.map_some, hdata hq' hs (by simp) hd₂, Option.getD_some, carries_parts hcar hd₁]
      rfl

lemma items_takesLargest (h : Held.Inv w) (he : Empty w) : TakesLargest w.rb := by
  obtain ⟨p, hq⟩ := empty_queue h he
  intro item hle
  have hpos := hq.layout.storage.size_pos
  have hfull : w.rb.bufferFull = false := by
    rw [hq.layout.full_eq]
    exact decide_eq_false (show ¬ p = p + w.rb.xSize by omega)
  have hfit : itemFits w.rb item.length = true := by
    rw [itemFits, if_pos (by rw [hq.layout.acquire_eq, hq.layout.free_eq]), hfull]
    rfl
  refine ⟨by rw [checkItemFits_eq hq.layout hle, hfit], ?_⟩
  rcases hq.send item with ⟨_, hno⟩ | ⟨rb', a, cs, h1, hq', hs, hcar, hnosplit⟩
  · exact absurd ⟨hle, hfit⟩ hno
  · obtain ⟨rb₂, h2⟩ := receiveWhole_item hq' hcar (by rw [hs.type]; exact hnosplit)
    exact ⟨rb', rb₂, h1, h2⟩

end Items

section Bytes

/-- A piece is taken from the waiting bytes: all of them, or those up to the end of the ring. -/
lemma receivePiece_ok (h : ByteQueue rb f f a bs) (hhead : 0 < rb.pucHead) :
    ∃ rb' n, receivePiece rb = (.ok (bs.take n), rb') ∧
      ByteQueue rb' (f + n) (f + n) a (bs.drop n) ∧ SameStorage rb' rb ∧ n ≤ bs.length ∧
      (n = bs.length ∨ 0 < n ∧ (f + n) % rb.xSize = 0) := by
  rcases h.receive 0 with ⟨rfl, h1⟩ | ⟨rb', n, h1, hq', hs, hm, hpos, hle, hend, _, hall, hread⟩
  · refine ⟨rb, 0, ?_, h, .refl _, Nat.le_refl _, .inl rfl⟩
    rw [receivePiece, xRingbufferReceive, Prog.bind_ok h1]
    rfl
  · obtain ⟨rb'', h2, hq'', hs'⟩ := hq'.giveBack (by omega) (by rw [hs.head]; exact hhead) f
    refine ⟨rb'', n, ?_, hq'', hs'.trans hs, hle, ?_⟩
    · rw [hs.place] at h2
      rw [receivePiece, xRingbufferReceive, Prog.bind_ok h1]
      simp only []
      rw [Prog.get_bind, Prog.bind_ok h2, contents, hm, hread]
      rfl
    · rcases hall rfl with hn | hn
      · exact .inl hn
      · refine .inr ⟨hpos, ?_⟩
        rw [Ring.add_mod_of_within h.storage.size_pos hend, if_pos hn]

/-- Two pieces are all the bytes of a buffer. -/
lemma receiveWhole_bytes (h : ByteQueue rb f f a bs) (hhead : 0 < rb.pucHead) :
    ∃ rb', receiveWhole rb = (.ok (some bs), rb') := by
  obtain ⟨rb₁, n, h1, hq₁, hs₁, hn, hcase⟩ := receivePiece_ok h hhead
  obtain ⟨rb₂, m, h2, _, _, hm, hcase'⟩ := receivePiece_ok hq₁ (by rw [hs₁.head]; exact hhead)
  refine ⟨rb₂, ?_⟩
  have hrest : m = (bs.drop n).length := by
    have hlen := h.length_eq
    have hround := h.round
    rw [List.length_drop] at hm hcase' ⊢
    rcases hcase' with hm' | ⟨hpos, hmod'⟩
    · exact hm'
    · rcases hcase with hn' | ⟨_, hmod⟩
      · omega
      · -- both pieces end with the ring
        rw [hs₁.size, Nat.add_mod, hmod, Nat.zero_add, Nat.mod_mod] at hmod'
        have hdvd := Nat.le_of_dvd hpos (Nat.dvd_of_mod_eq_zero hmod')
        omega
  rw [receiveWhole, Prog.get_bind, h.storage.type_eq]
  simp only []
  rw [Prog.bind_ok h1, Prog.bind_ok h2, hrest, List.take_length, List.take_append_drop]
  rfl

lemma bytes_takesLargest (h : ByteInv w) (he : Empty w) : TakesLargest w.rb := by
  obtain ⟨f, r, a, bs, hq, hhead, hheld⟩ := h
  have hr : r = f := by
    rcases hheld with ⟨_, hr⟩ | ⟨_, bs', hheld⟩
    · exact hr
    · rw [he.2] at hheld
      simp at hheld
  subst hr
  have hbs : bs.length = 0 := by
    have := hq.waiting
    rw [he.1] at this
    omega
  have hlen := hq.length_eq
  have hmax := hq.storage.max_eq
  have hpos := hq.storage.size_pos
  intro item hle
  have hle : item.length ≤ w.rb.xMaxItemSize := hle
  have hsent : ∃ rb₁, xRingbufferSend item w.rb = (.ok true, rb₁) ∧
      ByteQueue rb₁ r r (a + item.length) (bs ++ item) ∧ SameStorage rb₁ w.rb := by
    rcases hq.send item with ⟨_, hno⟩ | ⟨rb₁, h1, hq', hs, _⟩
    · exact absurd ⟨hle, by omega⟩ hno
    · exact ⟨rb₁, h1, hq', hs⟩
  obtain ⟨rb₁, h1, hq', hs⟩ := hsent
  rw [List.length_eq_zero_iff.mp hbs, List.nil_append] at hq'
  obtain ⟨rb₂, h2⟩ := receiveWhole_bytes hq' (by rw [hs.head]; exact hhead)
  exact ⟨by rw [hq.fits hle, decide_eq_true (by omega)], rb₁, rb₂, h1, h2⟩

end Bytes

/-- In every run in which no item is returned while the buffer is full, everything in it has
been retrieved and another item is held, an empty buffer takes its largest item. -/
theorem empty_takes_largest (mem : Mem) (size storage : ℕ) (type : RingbufferType)
    (ops : List Op) (h : Allocated type size storage) (hsize : 16 ≤ size)
    (hsafe : SafeRun (start mem size type storage) ops) :
    ∃ w, run (start mem size type storage) ops = .ok w ∧ (Empty w → TakesLargest w.rb) := by
  obtain ⟨w, h1, hinv, _⟩ := run_inv (start_inv h (hasRoom_of_le hsize)) hsafe
  refine ⟨w, h1, fun he => ?_⟩
  by_cases htype : w.rb.type = .byteBuf
  · exact bytes_takesLargest ((inv_bytes htype).mp hinv) he
  · exact items_takesLargest ((inv_items htype).mp hinv) he

/-- The pointers of an allow-split buffer of 40 bytes stand 8 bytes before its end. -/
theorem empty_takes_largest_near_end :
    ∃ w, run (start (fun _ => 0#8) 40 .allowSplit 0x3ffb0000)
      [.call (.send (List.replicate 24 0)), .call .receive, .call (.giveBack 0)] = .ok w ∧
        (Empty w → TakesLargest w.rb) :=
  empty_takes_largest _ _ _ _ _ (by constructor <;> decide) (by decide) (by decide +kernel)

/-- A run after which the buffer is empty and an item up to the largest one is rejected. -/
lemma exists_empty_rejects {w₀ : World} {ops : List Op} (item : List Byte)
    (h : (match run w₀ ops with
      | .ok w => decide (w.rb.xItemsWaiting = 0) && w.held.isEmpty &&
          decide (item.length ≤ w.rb.xRingbufferGetMaxItemSize) &&
          match (checkItemFits item.length w.rb).1 with
          | .ok b => !b
          | .error _ => true
      | .error _ => false) = true) :
    ∃ w, run w₀ ops = .ok w ∧ Empty w ∧ ¬ TakesLargest w.rb := by
  cases hr : run w₀ ops with
  | error e => simp [hr] at h
  | ok w =>
    simp only [hr, Bool.and_eq_true, decide_eq_true_eq, List.isEmpty_iff] at h
    obtain ⟨⟨⟨hwait, hheld⟩, hle⟩, hno⟩ := h
    refine ⟨w, rfl, ⟨hwait, hheld⟩, fun htakes => ?_⟩
    rw [(htakes item hle).1] at hno
    simp at hno

/-- A buffer of 96 bytes with three retrieved items that fill it.  The first one is returned and
the next items are stored over the others.  Returning one of those changes the length of a later
item, and the free pointer stops within the item after it: once everything has been returned,
an item of 40 bytes is rejected. -/
theorem empty_rejects_largest :
    ∃ w, run (start (fun _ => 0#8) 96 .noSplit 0x3ffb0000)
      [.call (.send (List.replicate 4 0)), .call (.send (List.replicate 40 0)),
        .call (.send (List.replicate 28 0)), .call .receive, .call .receive, .call .receive,
        .call (.giveBack 0), .call (.send (List.replicate 8 0)),
        .call (.send (List.replicate 8 0)), .call (.send (List.replicate 24 0)),
        .call .receive, .call .receive, .call .receive, .call (.giveBack 3),
        .call (.giveBack 3), .call (.giveBack 0), .call (.giveBack 1), .call (.giveBack 0)] =
        .ok w ∧ Empty w ∧ ¬ TakesLargest w.rb :=
  exists_empty_rejects (List.replicate 40 0) (by decide +kernel)

end EspIdf.RingBuffer.History
