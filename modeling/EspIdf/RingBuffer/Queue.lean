/-
# Buffers in which nothing is acquired

When items are only sent, every cell past the read pointer is ready, dummy data stands before
an item and the first part of an item before the second one.  Sending, receiving and returning
keep this, as long as no item is returned while the whole ring is retrieved and another item
is held.
-/
import EspIdf.RingBuffer.Sending

namespace EspIdf.RingBuffer

open EspIdf.Lib

/-- Cells as a reader finds them. -/
def Readable : List Cell → Prop
  | [] => True
  | c :: cs =>
    (c.dummy = false → c.free = false) ∧
      (c.dummy = true ∨ c.split = true →
        ∃ d ds, cs = d :: ds ∧ d.dummy = false ∧ d.split = false) ∧ Readable cs

/-- Every cell is an item or dummy data that is ready. -/
structure Queue (rb : Ringbuffer) (k : Marks) (held ready : List Cell) : Prop where
  layout : Layout rb k held ready []
  readable : Readable ready
  /-- A part whose rest is wrapped around stands behind it. -/
  wrapped : ∀ c ∈ ready, c.split = true → rb.place (c.pos + c.span) < rb.place c.pos
  waiting : rb.xItemsWaiting = (ready.countP fun c => !c.dummy : ℕ)

namespace Readable

variable {cs ds : List Cell} {item : List Byte}

lemma append (hc : Readable cs) (hd : Readable ds) : Readable (cs ++ ds) := by
  induction cs with
  | nil => exact hd
  | cons c cs ih =>
    obtain ⟨h1, h2, h3⟩ := hc
    refine ⟨h1, fun h => ?_, ih h3⟩
    obtain ⟨d, es, rfl, h4⟩ := h2 h
    exact ⟨d, es ++ ds, rfl, h4⟩

lemma of_carries (h : Carries item cs) : Readable cs := by
  rcases h with ⟨c, rfl, _, h1, h2, h3⟩ | ⟨d, c, rfl, h0, _, h1, h2, h3⟩ |
    ⟨c₁, c₂, rfl, _, h1, h2, h3, h4, h5, h6⟩
  · exact ⟨fun _ => h2, fun h => by simp [h1, h3] at h, trivial⟩
  · exact ⟨fun h => by simp [h0] at h, fun _ => ⟨c, [], rfl, h1, h3⟩,
      fun _ => h2, fun h => by simp [h1, h3] at h, trivial⟩
  · exact ⟨fun _ => h3, fun _ => ⟨c₂, [], rfl, h2, h6⟩,
      fun _ => h4, fun h => by simp [h2, h6] at h, trivial⟩

/-- The next item, behind dummy data perhaps. -/
lemma next (h : Readable cs) (hne : cs ≠ []) :
    ∃ D c rest, cs = D ++ c :: rest ∧ (D = [] ∨ ∃ d, D = [d] ∧ d.dummy = true) ∧
      c.dummy = false ∧ c.free = false ∧ Readable rest ∧
      (c.split = true → ∃ d ds, rest = d :: ds ∧ d.dummy = false ∧ d.split = false) := by
  cases cs with
  | nil => exact absurd rfl hne
  | cons c cs =>
    obtain ⟨h1, h2, h3⟩ := h
    cases hd : c.dummy with
    | false => exact ⟨[], c, cs, rfl, .inl rfl, hd, h1 hd, h3, fun hs => h2 (.inr hs)⟩
    | true =>
      obtain ⟨e, es, rfl, he1, he2⟩ := h2 (.inl hd)
      obtain ⟨h4, h5, h6⟩ := h3
      exact ⟨[c], e, es, rfl, .inr ⟨c, rfl, hd⟩, he1, h4 he1, h6, fun hs => h5 (.inr hs)⟩

end Readable

namespace Queue

variable {rb rb' : Ringbuffer} {k : Marks} {H R : List Cell} {c : Cell}

/-- Sending an item adds the cells that carry it. -/
lemma send (h : Queue rb k H R) (item : List Byte) :
    (xRingbufferSend item rb = (.ok false, rb) ∧
        ¬ (item.length ≤ rb.xMaxItemSize ∧ itemFits rb item.length = true)) ∨
      ∃ rb' a cs, xRingbufferSend item rb = (.ok true, rb') ∧
        Queue rb' { k with write := a, acquire := a } H (R ++ cs) ∧ SameStorage rb' rb ∧
        Carries item cs ∧ (rb.type = .noSplit → ∀ c ∈ cs, c.split = false) := by
  rcases xRingbufferSend_ok h.layout item with
    h1 | ⟨rb', a, cs, h1, hL, hs, hcar, hno, hsp, hw⟩
  · exact .inl h1
  refine .inr ⟨rb', a, cs, h1, ⟨hL, h.readable.append (.of_carries hcar), fun c hc => ?_, ?_⟩, hs,
    hcar, fun hty => (hno hty).choose_spec.2.2.2⟩
  · rw [hs.place, hs.place]
    rcases List.mem_append.mp hc with hc | hc
    · exact h.wrapped c hc
    · exact hsp c hc
  · rw [hw, h.waiting, List.countP_append]
    push_cast
    rfl

/-- There is something to read exactly when an item is waiting. -/
lemma avail (h : Queue rb k H R) :
    rb.prvCheckItemAvail = decide (0 < rb.xItemsWaiting) := by
  rw [Ringbuffer.prvCheckItemAvail, if_neg (by simp [h.layout.storage.type_ne])]
  by_cases hw : 0 < rb.xItemsWaiting
  · rw [decide_eq_true hw]
    refine h.layout.itemsToRead ?_ hw
    rintro rfl
    have := h.waiting
    simp at this
    omega
  · rw [Ringbuffer.itemsToRead, decide_eq_false hw, Bool.false_and]

/-- The next item of a buffer in which one is waiting. -/
lemma get (h : Queue rb k H R) (hw : 0 < rb.xItemsWaiting) :
    ∃ rb' D c R', R = D ++ c :: R' ∧ (∀ d ∈ D, d.dummy = true) ∧ c.dummy = false ∧
      c.free = false ∧
      prvGetItemDefault rb = (.ok ⟨rb.place c.pos + 8, c.data.length, c.split⟩, rb') ∧
      Queue rb' { k with read := c.pos + c.span } (H ++ D ++ [c]) R' ∧ SameStorage rb' rb ∧
      rb'.mem = rb.mem ∧ rb'.xItemsWaiting = rb.xItemsWaiting - 1 ∧
      (c.split = true → ∃ d ds, R' = d :: ds ∧ d.dummy = false ∧ d.split = false) := by
  have hne : R ≠ [] := by
    rintro rfl
    have := h.waiting
    simp at this
    omega
  obtain ⟨D, c, R', rfl, hD, hd, hf, hR', hsplit⟩ := h.readable.next hne
  obtain ⟨rb', h1, hL, hs, hm, hw'⟩ := prvGetItemDefault_ok h.layout hD hd hw
  have hDd : ∀ d ∈ D, d.dummy = true := by
    rcases hD with rfl | ⟨d, rfl, hd⟩
    · simp
    · simpa using hd
  refine ⟨rb', D, c, R', rfl, hDd, hd, hf, h1, ⟨hL, hR', fun e he => ?_, ?_⟩, hs, hm, hw', hsplit⟩
  · rw [hs.place, hs.place]
    exact h.wrapped e (List.mem_append_right _ (List.mem_cons_of_mem _ he))
  · have hcount : D.countP (fun c => !c.dummy) = 0 :=
      List.countP_eq_zero.mpr fun d hd => by simp [hDd d hd]
    rw [hw', h.waiting, List.countP_append, List.countP_cons, hcount]
    simp [hd]

/-- Receiving takes the next item, if one is waiting. -/
lemma receive (h : Queue rb k H R) :
    (rb.xItemsWaiting = 0 ∧ xRingbufferReceive rb = (.ok none, rb)) ∨
      ∃ rb' D c R', R = D ++ c :: R' ∧ (∀ d ∈ D, d.dummy = true) ∧ c.dummy = false ∧
        c.free = false ∧
        xRingbufferReceive rb =
          (.ok (some ⟨rb.place c.pos + 8, c.data.length, c.split⟩), rb') ∧
        Queue rb' { k with read := c.pos + c.span } (H ++ D ++ [c]) R' ∧ SameStorage rb' rb ∧
        rb'.mem = rb.mem := by
  rw [xRingbufferReceive, receiveOne, Prog.get_bind, h.avail]
  have hty := h.layout.storage.type_ne
  by_cases hw : 0 < rb.xItemsWaiting
  · obtain ⟨rb', D, c, R', hR, hD, hd, hf, h1, hq, hs, hm, _, _⟩ := h.get hw
    refine .inr ⟨rb', D, c, R', hR, hD, hd, hf, ?_, hq, hs, hm⟩
    have hget : getItem 0 rb = (.ok ⟨rb.place c.pos + 8, c.data.length, c.split⟩, rb') := by
      rw [getItem, Prog.get_bind, ← h1]
      cases hty' : rb.type with
      | byteBuf => exact absurd hty' hty
      | noSplit => rfl
      | allowSplit => rfl
    rw [decide_eq_true hw, if_pos rfl, Prog.bind_ok hget]
    rfl
  · left
    have := h.waiting
    rw [decide_eq_false hw]
    exact ⟨by omega, rfl⟩

/-- Receiving from an allow-split buffer takes both parts of a split item. -/
lemma receiveSplit (h : Queue rb k H R) (hty : rb.type = .allowSplit) :
    (rb.xItemsWaiting = 0 ∧ xRingbufferReceiveSplit rb = (.ok none, rb)) ∨
      (∃ rb' D c R', R = D ++ c :: R' ∧ (∀ d ∈ D, d.dummy = true) ∧ c.dummy = false ∧
        c.free = false ∧ c.split = false ∧
        xRingbufferReceiveSplit rb =
          (.ok (some (⟨rb.place c.pos + 8, c.data.length, c.split⟩, none)), rb') ∧
        Queue rb' { k with read := c.pos + c.span } (H ++ D ++ [c]) R' ∧ SameStorage rb' rb ∧
        rb'.mem = rb.mem) ∨
      ∃ rb' D c₁ c₂ R', R = D ++ c₁ :: c₂ :: R' ∧ (∀ d ∈ D, d.dummy = true) ∧
        c₁.dummy = false ∧ c₁.free = false ∧ c₂.dummy = false ∧ c₂.free = false ∧
        xRingbufferReceiveSplit rb =
          (.ok (some (⟨rb.place c₁.pos + 8, c₁.data.length, c₁.split⟩,
            some ⟨rb.place c₂.pos + 8, c₂.data.length, c₂.split⟩)), rb') ∧
        Queue rb' { k with read := c₂.pos + c₂.span } (H ++ D ++ [c₁, c₂]) R' ∧
        SameStorage rb' rb ∧ rb'.mem = rb.mem := by
  rw [xRingbufferReceiveSplit, Prog.get_bind,
    Prog.bind_ok (configAssert_true (decide_eq_true hty) rb), h.avail]
  by_cases hw : 0 < rb.xItemsWaiting
  · obtain ⟨rb₁, D, c, R₁, hR, hD, hd, hf, h1, hq, hs, hm, hw₁, hsplit⟩ := h.get hw
    rw [decide_eq_true hw, if_pos rfl, Prog.bind_ok h1]
    cases hc : c.split with
    | false =>
      rw [hc] at h1
      exact .inr (.inl ⟨rb₁, D, c, R₁, hR, hD, hd, hf, hc, by rw [hc]; rfl, hq, hs, hm⟩)
    | true =>
      -- the second part is the next cell
      obtain ⟨d, ds, hR₁, hd1, hd2⟩ := hsplit hc
      have hw' : 0 < rb₁.xItemsWaiting := by
        rw [hq.waiting, hR₁, List.countP_cons]
        simp [hd1]
      obtain ⟨rb₂, D₂, c₂, R₂, hR₂, hD₂, hcd₂, hf₂, h2, hq₂, hs₂, hm₂, _, _⟩ := hq.get hw'
      have hD₂nil : D₂ = [] := by
        cases D₂ with
        | nil => rfl
        | cons e es =>
          have he := hD₂ e List.mem_cons_self
          rw [hR₁, List.cons_append, List.cons.injEq] at hR₂
          rw [← hR₂.1, hd1] at he
          simp at he
      subst hD₂nil
      rw [hR₁, List.nil_append, List.cons.injEq] at hR₂
      obtain ⟨rfl, rfl⟩ := hR₂
      have hpos : d.pos = c.pos + c.span := by
        have := hq.layout.ready_chain
        rw [hR₁] at this
        exact this.1
      have hlt := h.wrapped c (by rw [hR]; simp) hc
      rw [← hpos] at hlt
      refine .inr (.inr ⟨rb₂, D, c, d, ds, by rw [hR, hR₁], hD, hd, hf, hd1, hf₂, ?_, ?_,
        hs₂.trans hs, hm₂.trans hm⟩)
      · rw [hs.place] at h2
        rw [if_pos rfl, Prog.bind_ok h2,
          Prog.bind_ok (configAssert_true (decide_eq_true (by simpa using hlt)) rb₂),
          Prog.bind_ok (configAssert_true (by rw [hd2]; rfl) rb₂), hc]
        rfl
      · simpa only [List.append_nil, List.append_assoc, List.cons_append, List.nil_append] using hq₂
  · left
    have := h.waiting
    rw [decide_eq_false hw]
    exact ⟨by omega, rfl⟩

/-- Returning a held item.  When the whole ring is retrieved, no other item may be held. -/
lemma giveBack (h : Queue rb k H R) (hc : c ∈ H) (hd : c.dummy = false) (hf : c.free = false)
    (honly : rb.bufferFull = true → rb.pucFree = rb.pucRead →
      ∀ d ∈ H, d.dummy = false → d.free = false → d.pos = c.pos) :
    ∃ rb' r, vRingbufferReturnItem (rb.place c.pos + 8) rb = (.ok (), rb') ∧
      Queue rb' { k with free := r }
        ((H.map (Cell.updateAt c.pos Cell.giveBack)).dropWhile Cell.gone) R ∧
      SameStorage rb' rb := by
  have hL := h.layout
  have hty := hL.storage.type_ne
  obtain ⟨rb', r, h1, hL', hs, hw⟩ := prvReturnItemDefault_ok hL hc hd hf (by
    intro hring
    have hord := hL.order
    have hround := hL.round
    apply honly
    · rw [hL.full_eq]
      exact decide_eq_true (by omega)
    · rw [hL.free_eq, hL.read_eq, hring, Ringbuffer.place, Ringbuffer.place, Nat.add_mod_right])
  refine ⟨rb', r, ?_, ⟨hL', h.readable, fun e he => ?_, by rw [hw, h.waiting]⟩, hs⟩
  · rw [vRingbufferReturnItem, Prog.get_bind,
      Prog.bind_ok (configAssert_true (decide_eq_true (by omega)) rb), ← h1]
    cases hty' : rb.type with
    | byteBuf => exact absurd hty' hty
    | noSplit => rfl
    | allowSplit => rfl
  · rw [hs.place, hs.place]
    exact h.wrapped e he

end Queue

/-! ### A new buffer -/

/-- A new no-split or allow-split buffer that has room for an item is empty. -/
lemma create_queue {mem : Mem} {size storage : ℕ} {type : RingbufferType} (hsize : 9 ≤ size)
    (hsplit : type = .allowSplit → 13 ≤ size) (halign : storage % 4 = 0)
    (hend : storage + alignUp size < 2 ^ 32) (hlt : alignUp size < 2 ^ 31)
    (htype : type ≠ .byteBuf) :
    Queue (xRingbufferCreate mem size type storage) ⟨0, 0, 0, 0⟩ [] [] := by
  have h0 := le_alignUp size
  have h1 : alignUp size % 4 = 0 := by rw [alignUp]; omega
  have h2 : size + 3 < 2 ^ 32 := by omega
  have hx : (xRingbufferCreate mem size type storage).xSize = alignUp size := by
    rw [xRingbufferCreate, if_pos htype, prvInitializeNewRingbuffer, rbAlignSize_eq h2]
  have hp : (xRingbufferCreate mem size type storage).place 0 = storage := by
    rw [Ringbuffer.place, Nat.zero_mod]
    rfl
  refine ⟨⟨⟨by rw [hx]; exact h1, halign, by rw [hx]; omega, fun hty => ?_, by rw [hx]; omega,
    rfl, ?_, rfl, htype⟩, rfl, rfl, rfl, ?_, hp.symm, hp.symm, hp.symm, hp.symm, ?_, ?_, by simp⟩,
    trivial, by simp, rfl⟩
  · have := hsplit hty
    rw [hx]
    omega
  · show storage + (xRingbufferCreate mem size type storage).xSize < 2 ^ 32
    rw [hx]
    exact hend
  · exact Nat.zero_le _
  · rw [hx, decide_eq_false (show ¬ 0 = 0 + alignUp size by omega)]
    rfl
  · rw [hx, Nat.zero_mod]
    omega

end EspIdf.RingBuffer
