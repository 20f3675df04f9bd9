/-
# Acquired items

Producers of a no-split buffer may acquire the memory of several items and complete them in any
order.  Items are received in the order in which they were acquired, each after it and all
earlier ones have been completed, as long as nothing is received while the read pointer has
caught up with the write pointer and an item is incomplete.
-/
import EspIdf.RingBuffer.Held

namespace EspIdf.RingBuffer.Acquired

open EspIdf.Lib

/-! ### Runs -/

/-- An item that was acquired: its address, its contents and whether it has been completed. -/
structure Slot where
  addr : ℕ
  data : List Byte
  completed : Bool
deriving DecidableEq, Repr

/-- What a consumer sees of an item. -/
def Slot.item (s : Slot) : ℕ × List Byte := (s.addr, s.data)

/-- The item has been completed. -/
def Slot.complete (s : Slot) : Slot := { s with completed := true }

/-- The producer has written `bs`. -/
def Slot.fill (bs : List Byte) (s : Slot) : Slot := { s with data := bs }

/-- A buffer, all the items that were ever acquired and all that were ever received, in order,
and the addresses of those that consumers hold. -/
structure World where
  rb : Ringbuffer
  acquired : List Slot
  received : List (ℕ × List Byte)
  held : List ℕ

/-- What tasks do with the buffer.  `write` and `complete` are about the acquired item of index
`i`, `giveBack` about the held one. -/
inductive Op where
  | acquire (xItemSize : ℕ)
  | write (i : ℕ) (bs : List Byte)
  | complete (i : ℕ)
  | send (item : List Byte)
  | receive
  | giveBack (i : ℕ)
deriving DecidableEq, Repr

/-- The address at which `prvCopyItemNoSplit` stores an item. -/
def sentAddr (rb : Ringbuffer) (item : List Byte) : ℕ :=
  match prvAcquireItemNoSplit item.length rb with
  | (.ok p, _) => p
  | (.error _, _) => 0

/-- One operation.  Producers only write and complete items that are not complete, and only held
items are returned. -/
def step (w : World) : Op → Except Stop World
  | .acquire xItemSize =>
    match xRingbufferSendAcquire xItemSize w.rb with
    | (.ok none, rb) => .ok { w with rb := rb }
    | (.ok (some p), rb) =>
      .ok { w with rb := rb, acquired := w.acquired ++ [⟨p, rb.mem.read p xItemSize, false⟩] }
    | (.error e, _) => .error e
  | .write i bs =>
    match w.acquired[i]? with
    | none => .ok w
    | some s =>
      if s.completed = false ∧ bs.length = s.data.length then
        .ok { w with
          rb := { w.rb with mem := w.rb.mem.store s.addr bs }
          acquired := w.acquired.modify i (Slot.fill bs) }
      else
        .ok w
  | .complete i =>
    match w.acquired[i]? with
    | none => .ok w
    | some s =>
      if s.completed then
        .ok w
      else
        match xRingbufferSendComplete s.addr w.rb with
        | (.ok (), rb) => .ok { w with rb := rb, acquired := w.acquired.modify i Slot.complete }
        | (.error e, _) => .error e
  | .send item =>
    match xRingbufferSend item w.rb with
    | (.ok true, rb) =>
      .ok { w with rb := rb, acquired := w.acquired ++ [⟨sentAddr w.rb item, item, true⟩] }
    | (.ok false, rb) => .ok { w with rb := rb }
    | (.error e, _) => .error e
  | .receive =>
    match xRingbufferReceive w.rb with
    | (.ok none, rb) => .ok { w with rb := rb }
    | (.ok (some r), rb) =>
      .ok { w with
        rb := rb
        received := w.received ++ [(r.pvItem, rb.mem.read r.pvItem r.xItemSize)]
        held := w.held ++ [r.pvItem] }
    | (.error e, _) => .error e
  | .giveBack i =>
    match w.held[i]? with
    | none => .ok w
    | some p =>
      match vRingbufferReturnItem p w.rb with
      | (.ok (), rb) => .ok { w with rb := rb, held := w.held.filter (· != p) }
      | (.error e, _) => .error e

/-- A sequence of operations. -/
def run : World → List Op → Except Stop World := List.foldlM step

/-- A new buffer. -/
def start (rb : Ringbuffer) : World := ⟨rb, [], [], []⟩

/-- Nothing is received while an item is incomplete and the write pointer does not keep the
reader from it: the two pointers coincide in a full buffer, or only the dummy data before the
write pointer is left.  No item is returned while the buffer is full, everything in it has been
retrieved and another item is held. -/
def Safe (w : World) : Op → Prop
  | .receive => ¬ (w.rb.prvCheckItemAvail = true ∧ (∃ s ∈ w.acquired, s.completed = false) ∧
    (w.rb.pucRead = w.rb.pucWrite ∨
      hasFlag (w.rb.uxItemFlags w.rb.pucRead) rbItemDummyDataFlag = true ∧
        w.rb.pucWrite = w.rb.pucHead))
  | .giveBack _ => ¬ (w.rb.bufferFull = true ∧ w.rb.pucFree = w.rb.pucRead ∧ 1 < w.held.length)
  | _ => True

instance (w : World) : (op : Op) → Decidable (Safe w op)
  | .receive => inferInstanceAs (Decidable (¬ (_ = true ∧ (∃ s ∈ _, _ = false) ∧ (_ = _ ∨ _))))
  | .giveBack _ => inferInstanceAs (Decidable (¬ (_ = true ∧ _ = _ ∧ 1 < _)))
  | .acquire _ => isTrue trivial
  | .write _ _ => isTrue trivial
  | .complete _ => isTrue trivial
  | .send _ => isTrue trivial

/-- Every operation of a run is safe in the state in which it is made. -/
def SafeRun : World → List Op → Prop
  | _, [] => True
  | w, op :: ops => Safe w op ∧
    match step w op with
    | .ok w' => SafeRun w' ops
    | .error _ => True

instance decidableSafeRun : (w : World) → (ops : List Op) → Decidable (SafeRun w ops)
  | _, [] => isTrue trivial
  | w, op :: ops =>
    @instDecidableAnd _ _ inferInstance
      (match step w op with
      | .ok w' => decidableSafeRun w' ops
      | .error _ => isTrue trivial)

/-- The received items are the first of the acquired ones. -/
structure Ordered (w : World) : Prop where
  /-- They were received in the order in which they were acquired, once each, and all of them
  have been completed. -/
  received : ∃ done rest, w.acquired = done ++ rest ∧ w.received = done.map Slot.item ∧
    ∀ s ∈ done, s.completed = true
  /-- The next one is received once it has been completed. -/
  next : ∀ s, w.acquired[w.received.length]? = some s → s.completed = true → Safe w .receive →
    ∃ w', step w .receive = .ok w' ∧ w'.received = w.received ++ [s.item]

/-! ### The invariant -/

/-- An item as its producer knows it. -/
def slot (rb : Ringbuffer) (c : Cell) : Slot := ⟨rb.place c.pos + 8, c.data, c.written⟩

/-- The cells that are not dummy data. -/
def items (cs : List Cell) : List Cell := cs.filter fun c => !c.dummy

/-- Why cells are pending: the first item is not complete, or the pending cells are the whole
ring and some item is not complete. -/
def Waits (rb : Ringbuffer) (k : Marks) (P : List Cell) : Prop :=
  P = [] ∨
    (∃ pre c post, P = pre ++ c :: post ∧ (∀ d ∈ pre, d.dummy = true) ∧ c.done = false) ∨
    k.acquire = k.write + rb.xSize ∧ ∃ c ∈ P, c.done = false

/-- The cells of the buffer and the items of its history. -/
structure Ring (w : World) (k : Marks) (H R P : List Cell) (past : List Slot) : Prop where
  layout : Layout w.rb k H R P
  type_eq : w.rb.type = .noSplit
  readable : Readable (R ++ P)
  done : ∀ c ∈ R, c.done = true
  waits : Waits w.rb k P
  acquired : w.acquired = past ++ (items (R ++ P)).map (slot w.rb)
  received : w.received = past.map Slot.item
  completed : ∀ s ∈ past, s.completed = true
  waiting : w.rb.xItemsWaiting = (w.acquired.countP Slot.completed : ℤ) - w.received.length
  held : w.held = (H.filter Held.isHeld).map fun c => w.rb.place c.pos + 8

def Inv (w : World) : Prop := ∃ k H R P past, Ring w k H R P past

section Lists

variable {rb rb' : Ringbuffer} {cs : List Cell} {c : Cell}

lemma items_append (cs ds : List Cell) : items (cs ++ ds) = items cs ++ items ds :=
  List.filter_append ..

lemma slot_congr (hs : SameStorage rb' rb) (cs : List Cell) :
    cs.map (slot rb') = cs.map (slot rb) :=
  List.map_congr_left fun c _ => by rw [slot, slot, hs.place]

lemma modify_append_length {α : Type} (xs ys : List α) (j : ℕ) (g : α → α) :
    (xs ++ ys).modify (xs.length + j) g = xs ++ ys.modify j g := by
  induction xs with
  | nil => rw [List.nil_append, List.nil_append, List.length_nil, Nat.zero_add]
  | cons x xs ih =>
    rw [List.cons_append, List.length_cons, Nat.add_right_comm, List.modify_succ_cons, ih,
      List.cons_append]

/-- Changing the cell at the position of one cell changes the slot of that cell. -/
lemma map_slot_updateAt {j : ℕ} {g : Cell → Cell} {g' : Slot → Slot}
    (hpos : cs.Pairwise fun a b => a.pos < b.pos) (hj : cs[j]? = some c)
    (hg : ∀ d, slot rb (g d) = g' (slot rb d)) :
    (cs.map (Cell.updateAt c.pos g)).map (slot rb) = (cs.map (slot rb)).modify j g' := by
  induction cs generalizing j with
  | nil => simp at hj
  | cons d ds ih =>
    obtain ⟨hd, hds⟩ := List.pairwise_cons.mp hpos
    cases j with
    | zero =>
      obtain rfl : d = c := by simpa using hj
      rw [List.map_cons, List.map_cons, map_updateAt_of_ne fun e he => Nat.ne_of_gt (hd e he),
        Cell.updateAt, if_pos rfl, hg, List.map_cons, List.modify_zero_cons]
    | succ j =>
      rw [List.getElem?_cons_succ] at hj
      have hlt := hd c (List.mem_of_getElem? hj)
      rw [List.map_cons, List.map_cons, ih hds hj, Cell.updateAt, if_neg (Nat.ne_of_lt hlt),
        List.map_cons, List.modify_succ_cons]

lemma items_updateAt {g : Cell → Cell} (hg : ∀ d, (g d).dummy = d.dummy) (x : ℕ) :
    items (cs.map (Cell.updateAt x g)) = (items cs).map (Cell.updateAt x g) := by
  rw [items, List.filter_map, items]
  refine congrArg _ (List.filter_congr fun d _ => ?_)
  rw [Function.comp, Cell.updateAt]
  split_ifs
  · rw [hg]
  · rfl

/-- The number of slots with a property when one of them gets it. -/
lemma countP_modify_add {xs : List Slot} {j : ℕ} {s : Slot} (hj : xs[j]? = some s)
    (hs : s.completed = false) :
    (xs.modify j Slot.complete).countP Slot.completed = xs.countP Slot.completed + 1 := by
  induction xs generalizing j with
  | nil => simp at hj
  | cons x xs ih =>
    cases j with
    | zero =>
      obtain rfl : x = s := by simpa using hj
      rw [List.modify_zero_cons, List.countP_cons_of_pos rfl, List.countP_cons_of_neg (by simp [hs])]
    | succ j =>
      rw [List.getElem?_cons_succ] at hj
      rw [List.modify_succ_cons, List.countP_cons, List.countP_cons, ih hj]
      omega

lemma countP_modify_fill (xs : List Slot) (j : ℕ) (bs : List Byte) :
    (xs.modify j (Slot.fill bs)).countP Slot.completed = xs.countP Slot.completed := by
  induction xs generalizing j with
  | nil => rw [List.modify_nil]
  | cons x xs ih =>
    cases j with
    | zero => rw [List.modify_zero_cons, List.countP_cons, List.countP_cons]; rfl
    | succ j => rw [List.modify_succ_cons, List.countP_cons, List.countP_cons, ih]

end Lists

/-! ### The functions on acquired items -/

section Functions

variable {rb rb' : Ringbuffer} {k : Marks} {H R P Q P₁ P₂ : List Cell} {c : Cell} {a r : ℕ}

/-- What is left pending when the write pointer has moved past the cells that are done. -/
lemma settle (hL : Layout rb' { k with write := r, acquire := a } H (R ++ P₁) P₂)
    (hsize : rb'.xSize = rb.xSize) (hR : CellChain k.read R k.write) (hQ : Q = P₁ ++ P₂)
    (h₁ : P₁ = if a = k.write + rb.xSize then [] else Q.takeWhile Cell.done)
    (h₂ : P₂ = if a = k.write + rb.xSize then Q else Q.dropWhile Cell.done) :
    ∃ k' P₁' P₂', Layout rb' k' H (R ++ P₁') P₂' ∧ Q = P₁' ++ P₂' ∧
      (∀ c ∈ P₁', c.done = true) ∧ Waits rb' k' P₂' := by
  by_cases hring : a = k.write + rb.xSize
  · rw [if_pos hring] at h₁ h₂
    subst h₁ h₂
    have hr : r = k.write := by
      have := hL.ready_chain
      rw [List.append_nil] at this
      exact Ring.chain_end this hR
    by_cases hall : ∀ c ∈ P₂, c.done = true
    · -- the whole ring is complete, and the write pointer stands at its end already
      have hw : rb'.pucWrite = rb'.place a := by
        rw [hL.write_eq, hring, ← hr, Ringbuffer.place, Ringbuffer.place, hsize,
          Nat.add_mod_right]
      have hL' := hL.promote hw
      rw [List.append_nil] at hL'
      exact ⟨_, P₂, [], hL', (List.append_nil _).symm, hall, .inl rfl⟩
    · push Not at hall
      obtain ⟨c, hc, hcd⟩ := hall
      refine ⟨_, [], P₂, hL, rfl, by simp, .inr (.inr ⟨?_, c, hc, by simpa using hcd⟩)⟩
      rw [hsize, hr]
      exact hring
  · rw [if_neg hring] at h₁ h₂
    refine ⟨_, P₁, P₂, hL, hQ, fun c hc => ?_, ?_⟩
    · rw [h₁] at hc
      exact List.mem_takeWhile_imp hc
    · cases hP : P₂ with
      | nil => exact .inl rfl
      | cons c post =>
        refine .inr (.inl ⟨[], c, post, rfl, by simp, ?_⟩)
        have := List.head_dropWhile_not (p := Cell.done) (l := Q) (by rw [← h₂, hP]; simp)
        simpa [← h₂, hP] using this

/-- The cells that acquiring an item adds. -/
lemma readable_new {len : ℕ} (hd : c.dummy = false) (hf : c.free = false)
    (hs : c.split = false) : Readable (skipped rb k len ++ [c]) := by
  have hc : Readable [c] := ⟨fun _ => hf, fun h => by simp [hd, hs] at h, trivial⟩
  rw [skipped]
  split_ifs
  · exact hc
  · exact ⟨fun h => by simp [dummyCell] at h, fun _ => ⟨c, [], rfl, hd, hs⟩, hc⟩

lemma items_new {len : ℕ} (hd : c.dummy = false) : items (skipped rb k len ++ [c]) = [c] := by
  rw [skipped]
  split_ifs <;> simp [items, dummyCell, hd]

/-- Acquiring an item, if there is room for it. -/
lemma acquire_ok (h : Layout rb k H R P) (htype : rb.type = .noSplit) (len : ℕ) :
    xRingbufferSendAcquire len rb = (.ok none, rb) ∨
      ∃ rb' a c, xRingbufferSendAcquire len rb = (.ok (some (rb.place c.pos + 8)), rb') ∧
        Layout rb' { k with acquire := a } H R (P ++ skipped rb k len ++ [c]) ∧
        SameStorage rb' rb ∧ rb'.xItemsWaiting = rb.xItemsWaiting ∧ c.data.length = len ∧
        c.dummy = false ∧ c.free = false ∧ c.written = false ∧ c.split = false := by
  rw [xRingbufferSendAcquire, Prog.get_bind,
    Prog.bind_ok (configAssert_true (decide_eq_true htype) rb)]
  by_cases hlen : rb.xMaxItemSize < len
  · rw [if_pos hlen]
    exact .inl rfl
  have hlen : len ≤ rb.xMaxItemSize := by omega
  rw [if_neg (by omega), Prog.bind_ok (checkItemFits_eq h hlen)]
  cases hfit : itemFits rb len with
  | false => exact .inl rfl
  | true =>
    obtain ⟨rb', a, c, h1, hL, hs, hw⟩ := prvAcquireItemNoSplit_ok h hlen ((itemFits_room h hlen).1 hfit htype)
    obtain ⟨n, hn⟩ := hL.prvGetFreeSize_ok
    refine .inr ⟨rb', a, c, ?_, hL, hs, hw⟩
    rw [if_pos rfl, Prog.bind_ok h1, Prog.bind_ok hn]
    rfl

/-- Sending an item behind those that are acquired, if there is room for it. -/
lemma send_ok (h : Layout rb k H R P) (htype : rb.type = .noSplit) (item : List Byte) :
    xRingbufferSend item rb = (.ok false, rb) ∨
      ∃ rb' k' c P₁ P₂, xRingbufferSend item rb = (.ok true, rb') ∧
        sentAddr rb item = rb.place c.pos + 8 ∧
        Layout rb' k' H (R ++ P₁) P₂ ∧ SameStorage rb' rb ∧
        rb'.xItemsWaiting = rb.xItemsWaiting + 1 ∧
        P ++ (skipped rb k item.length ++ [c]) = P₁ ++ P₂ ∧ (∀ d ∈ P₁, d.done = true) ∧
        Waits rb' k' P₂ ∧
        c.data = item ∧ c.dummy = false ∧ c.free = false ∧ c.written = true ∧
        c.split = false := by
  rw [xRingbufferSend, Prog.get_bind]
  by_cases hlen : rb.xMaxItemSize < item.length
  · rw [if_pos hlen]
    exact .inl rfl
  have hlen : item.length ≤ rb.xMaxItemSize := by omega
  rw [if_neg (by omega), if_neg (by simp [htype]), Prog.bind_ok (checkItemFits_eq h hlen)]
  cases hfit : itemFits rb item.length with
  | false => exact .inl rfl
  | true =>
    obtain ⟨rb', r, a, c, P₁, P₂, h1, hL, hs, hw, hP, hP₁, hP₂, hc1, hc2, hc3, hc4, hc5, rb₁, h2⟩ :=
      prvCopyItemNoSplit_ok h hlen ((itemFits_room h hlen).1 hfit htype)
    rw [List.append_assoc] at hP hP₁ hP₂
    obtain ⟨n, hn⟩ := hL.prvGetFreeSize_ok
    obtain ⟨k', P₁', P₂', hL', hP', hdone, hwaits⟩ :=
      settle hL hs.size h.ready_chain hP hP₁ hP₂
    have hcopy : copyItem item rb = (.ok (), rb') := by
      rw [copyItem, Prog.get_bind, htype]
      exact h1
    refine .inr ⟨rb', k', c, P₁', P₂', ?_, by rw [sentAddr, h2], hL', hs, hw, hP', hdone, hwaits,
      hc1, hc2, hc3, hc4, hc5⟩
    rw [if_pos rfl, Prog.bind_ok hcopy, Prog.bind_ok hn]
    rfl

end Functions

/-! ### Producers -/

section Producers

variable {w : World} {k : Marks} {H R P : List Cell} {past : List Slot}

lemma Ring.acquire (h : Ring w k H R P past) (len : ℕ) :
    ∃ w', step w (.acquire len) = .ok w' ∧ Inv w' := by
  rcases acquire_ok h.layout h.type_eq len with
    h1 | ⟨rb', a, c, h1, hL, hs, hw, hlen, hd, hf, hwr, hsp⟩
  · exact ⟨w, by rw [step, h1], k, H, R, P, past, h⟩
  have hst := hL.stored c (by simp)
  have hdata : rb'.mem.read (w.rb.place c.pos + 8) len = c.data := by
    rw [← hs.place, ← hlen]
    exact (hst.item hd).2.2.2.2.2
  have hassoc : R ++ (P ++ skipped w.rb k len ++ [c]) =
      R ++ P ++ (skipped w.rb k len ++ [c]) := by
    simp only [List.append_assoc]
  have hstep : step w (.acquire len) = .ok { w with
      rb := rb'
      acquired := w.acquired ++ [⟨w.rb.place c.pos + 8, c.data, false⟩] } := by
    rw [step, h1, ← hdata]
  refine ⟨_, hstep, _, H, R, _, past, ⟨hL, hs.type.trans h.type_eq, ?_, h.done, ?_, ?_,
    h.received, h.completed, ?_, ?_⟩⟩
  · rw [hassoc]
    exact h.readable.append (readable_new hd hf hsp)
  · rcases h.waits with rfl | ⟨pre, d, post, rfl, hpre, hdd⟩ | ⟨hring, d, hdP, hdd⟩
    · -- the new item is the first pending one
      refine .inr (.inl ⟨skipped w.rb k len, c, [], rfl, fun d hd => ?_, by rw [Cell.done, hd, hwr]; rfl⟩)
      rw [skipped] at hd
      split_ifs at hd
      · simp at hd
      · rw [List.mem_singleton.mp hd]
        rfl
    · refine .inr (.inl ⟨pre, d, post ++ (skipped w.rb k len ++ [c]), ?_, hpre, hdd⟩)
      simp only [List.append_assoc, List.cons_append]
    · refine .inr (.inr ⟨?_, d, by simp [hdP], hdd⟩)
      have hchain := hL.pending_chain
      rw [List.append_assoc] at hchain
      obtain ⟨r, hr1, hr2⟩ := Ring.chain_append.mp hchain
      have hr := Ring.chain_end h.layout.pending_chain hr1
      have hle := Ring.chain_le hr2
      have hround := hL.round
      have hord := h.layout.order
      rw [hs.size] at hround ⊢
      show a = k.write + w.rb.xSize
      have hround : a ≤ k.free + w.rb.xSize := hround
      have hle : r ≤ a := hle
      omega
  · rw [hassoc, items_append, List.map_append, items_new hd, slot_congr hs, slot_congr hs,
      ← List.append_assoc, ← h.acquired, List.map_singleton, slot, hwr]
  · rw [hw, h.waiting, List.countP_append]
    rfl
  · rw [h.held]
    exact List.map_congr_left fun d _ => by rw [hs.place]

lemma Ring.send (h : Ring w k H R P past) (item : List Byte) :
    ∃ w', step w (.send item) = .ok w' ∧ Inv w' := by
  rcases send_ok h.layout h.type_eq item with
    h1 | ⟨rb', k', c, P₁, P₂, h1, haddr, hL, hs, hw, hP, hdone, hwaits, hdata, hd, hf, hwr, hsp⟩
  · exact ⟨w, by rw [step, h1], k, H, R, P, past, h⟩
  have hassoc : R ++ P₁ ++ P₂ = R ++ P ++ (skipped w.rb k item.length ++ [c]) := by
    rw [List.append_assoc, ← hP, List.append_assoc]
  have hstep : step w (.send item) = .ok { w with
      rb := rb', acquired := w.acquired ++ [⟨w.rb.place c.pos + 8, item, true⟩] } := by
    rw [step, h1, haddr]
  refine ⟨_, hstep, k', H, _, P₂, past, ⟨hL, hs.type.trans h.type_eq, ?_, ?_, hwaits, ?_,
    h.received, h.completed, ?_, ?_⟩⟩
  · rw [hassoc]
    exact h.readable.append (readable_new hd hf hsp)
  · intro d hd
    rcases List.mem_append.mp hd with hd | hd
    · exact h.done d hd
    · exact hdone d hd
  · rw [hassoc, items_append, List.map_append, items_new hd, slot_congr hs, slot_congr hs,
      ← List.append_assoc, ← h.acquired, List.map_singleton, slot, hdata, hwr]
  · rw [hw, h.waiting, List.countP_append]
    simp
    omega
  · rw [h.held]
    exact List.map_congr_left fun d _ => by rw [hs.place]

/-- An item that is not complete is a pending cell. -/
lemma Ring.pending_of_slot (h : Ring w k H R P past) {i : ℕ} {s : Slot}
    (hi : w.acquired[i]? = some s) (hs : s.completed = false) :
    ∃ j c, i = past.length + j ∧ (items (R ++ P))[j]? = some c ∧ s = slot w.rb c ∧ c ∈ P ∧
      c.dummy = false ∧ c.written = false := by
  rw [h.acquired] at hi
  have hge : past.length ≤ i := by
    by_contra hlt
    rw [List.getElem?_append_left (by omega)] at hi
    have := h.completed s (List.mem_of_getElem? hi)
    rw [hs] at this
    simp at this
  rw [List.getElem?_append_right hge, List.getElem?_map, Option.map_eq_some_iff] at hi
  obtain ⟨c, hj, rfl⟩ := hi
  have hmem := List.mem_filter.mp (List.mem_of_getElem? hj)
  have hd : c.dummy = false := by simpa using hmem.2
  have hw : c.written = false := hs
  refine ⟨i - past.length, c, by omega, hj, rfl, ?_, hd, hw⟩
  rcases List.mem_append.mp hmem.1 with hR | hP
  · have := h.done c hR
    rw [Cell.done, hd, hw] at this
    simp at this
  · exact hP

/-- The positions of the cells past the read pointer increase. -/
lemma Ring.increasing (h : Ring w k H R P past) :
    (items (R ++ P)).Pairwise fun a b => a.pos < b.pos := by
  have hchain := Ring.chain_append.mpr ⟨k.write, h.layout.ready_chain, h.layout.pending_chain⟩
  have hpair : (R ++ P).Pairwise fun a b => a.pos < b.pos := by
    refine (Ring.chain_pairwise hchain).imp_of_mem fun {a b} ha hb hab => ?_
    have := (h.layout.lies a (by
      rw [List.append_assoc]; exact List.mem_append_right _ ha)).span_ge
    omega
  exact hpair.sublist List.filter_sublist

/-- Changing a pending cell changes the item of the history that it stands for. -/
lemma Ring.acquired_updateAt (h : Ring w k H R P past) {j : ℕ} {c : Cell} {g : Cell → Cell}
    {g' : Slot → Slot} (hj : (items (R ++ P))[j]? = some c) (hc : c ∈ P)
    (hg : ∀ d, slot w.rb (g d) = g' (slot w.rb d)) (hd : ∀ d, (g d).dummy = d.dummy) :
    w.acquired.modify (past.length + j) g' =
      past ++ (items (R ++ P.map (Cell.updateAt c.pos g))).map (slot w.rb) := by
  have hR : R.map (Cell.updateAt c.pos g) = R :=
    map_updateAt_of_ne fun d hd => h.layout.pending_pos hc d (List.mem_append_right _ hd)
  have hmap : R ++ P.map (Cell.updateAt c.pos g) = (R ++ P).map (Cell.updateAt c.pos g) := by
    rw [List.map_append, hR]
  rw [h.acquired, modify_append_length, hmap, items_updateAt hd,
    map_slot_updateAt h.increasing hj hg]

/-- Changes of cells that a reader does not see. -/
lemma readable_map {g : Cell → Cell} {cs : List Cell}
    (hg : ∀ d, (g d).dummy = d.dummy ∧ (g d).free = d.free ∧
      ((g d).split = true → d.split = true)) (h : Readable cs) : Readable (cs.map g) := by
  induction cs with
  | nil => trivial
  | cons c cs ih =>
    obtain ⟨h1, h2, h3⟩ := h
    obtain ⟨hg1, hg2, hg3⟩ := hg c
    refine ⟨by rw [hg1, hg2]; exact h1, fun hc => ?_, ih h3⟩
    obtain ⟨d, ds, rfl, hd1, hd2⟩ := h2 (by rw [hg1] at hc; exact hc.imp_right hg3)
    obtain ⟨hg4, hg5, hg6⟩ := hg d
    refine ⟨g d, ds.map g, rfl, hg4.trans hd1, ?_⟩
    cases hs : (g d).split with
    | false => rfl
    | true => rw [← hd2, hg6 hs]

lemma updateAt_keeps {x : ℕ} {g : Cell → Cell} {d : Cell}
    (hg : (g d).dummy = d.dummy ∧ (g d).free = d.free ∧ ((g d).split = true → d.split = true)) :
    (Cell.updateAt x g d).dummy = d.dummy ∧ (Cell.updateAt x g d).free = d.free ∧
      ((Cell.updateAt x g d).split = true → d.split = true) := by
  rw [Cell.updateAt]
  split_ifs
  · exact hg
  · exact ⟨rfl, rfl, id⟩

lemma readable_updateAt {x : ℕ} {g : Cell → Cell}
    (hg : ∀ d, (g d).dummy = d.dummy ∧ (g d).free = d.free ∧
      ((g d).split = true → d.split = true)) (hR : ∀ d ∈ R, d.pos ≠ x)
    (h : Readable (R ++ P)) : Readable (R ++ P.map (Cell.updateAt x g)) := by
  have := readable_map (g := Cell.updateAt x g) (fun d => updateAt_keeps (hg d)) h
  rw [List.map_append, map_updateAt_of_ne hR] at this
  exact this

lemma Ring.write (h : Ring w k H R P past) (i : ℕ) (bs : List Byte) :
    ∃ w', step w (.write i bs) = .ok w' ∧ Inv w' := by
  have hinv : Inv w := ⟨k, H, R, P, past, h⟩
  cases hi : w.acquired[i]? with
  | none => exact ⟨w, by rw [step, hi], hinv⟩
  | some s =>
    by_cases hcond : s.completed = false ∧ bs.length = s.data.length
    swap
    · exact ⟨w, by simp only [step, hi, if_neg hcond], hinv⟩
    obtain ⟨j, c, rfl, hj, rfl, hc, hd, hwr⟩ := h.pending_of_slot hi hcond.1
    have hL := h.layout.fill hc hd hcond.2
    have hstep : step w (.write (past.length + j) bs) = .ok { w with
        rb := { w.rb with mem := w.rb.mem.store (w.rb.place c.pos + 8) bs }
        acquired := w.acquired.modify (past.length + j) (Slot.fill bs) } := by
      simp only [step, hi, if_pos hcond]
      rfl
    refine ⟨_, hstep, k, H, R, _, past, ⟨hL, h.type_eq, ?_, h.done, ?_, ?_, h.received, h.completed,
      ?_, h.held⟩⟩
    · exact readable_updateAt (fun d => ⟨rfl, rfl, id⟩)
        (fun d hd => h.layout.pending_pos hc d (List.mem_append_right _ hd)) h.readable
    · -- the cells are as complete as before
      have hdone : ∀ d, (Cell.updateAt c.pos (Cell.fill bs) d).done = d.done := by
        intro d
        rw [Cell.updateAt]
        split_ifs <;> rfl
      have hdum : ∀ d, (Cell.updateAt c.pos (Cell.fill bs) d).dummy = d.dummy := by
        intro d
        rw [Cell.updateAt]
        split_ifs <;> rfl
      rcases h.waits with rfl | ⟨pre, d, post, rfl, hpre, hdd⟩ | ⟨hring, d, hdP, hdd⟩
      · exact .inl rfl
      · refine .inr (.inl ⟨pre.map _, _, post.map _, List.map_append.trans (by rw [List.map_cons]),
          fun e he => ?_, (hdone d).trans hdd⟩)
        obtain ⟨e', he', rfl⟩ := List.mem_map.mp he
        rw [hdum]
        exact hpre e' he'
      · exact .inr (.inr ⟨hring, _, List.mem_map_of_mem hdP, (hdone d).trans hdd⟩)
    · rw [h.acquired_updateAt (g := Cell.fill bs) hj hc (fun _ => rfl) fun _ => rfl]
      rfl
    · show w.rb.xItemsWaiting = _
      rw [h.waiting, countP_modify_fill]

lemma Ring.complete (h : Ring w k H R P past) (i : ℕ) :
    ∃ w', step w (.complete i) = .ok w' ∧ Inv w' := by
  have hinv : Inv w := ⟨k, H, R, P, past, h⟩
  cases hi : w.acquired[i]? with
  | none => exact ⟨w, by rw [step, hi], hinv⟩
  | some s =>
    cases hs : s.completed with
    | true => exact ⟨w, by simp only [step, hi, hs, ↓reduceIte], hinv⟩
    | false =>
      obtain ⟨j, c, rfl, hj, rfl, hc, hd, hwr⟩ := h.pending_of_slot hi hs
      obtain ⟨rb', r, P₁, P₂, h1, hL, hsame, hw, hP, hP₁, hP₂⟩ :=
        prvSendItemDoneNoSplit_ok h.layout hc hd hwr
      obtain ⟨k', P₁', P₂', hL', hP', hdone, hwaits⟩ :=
        settle hL hsame.size h.layout.ready_chain hP hP₁ hP₂
      have hne : (slot w.rb c).addr ≠ 0 := by
        show w.rb.place c.pos + 8 ≠ 0
        omega
      have hcomplete : xRingbufferSendComplete (slot w.rb c).addr w.rb = (.ok (), rb') := by
        rw [xRingbufferSendComplete, Prog.get_bind,
          Prog.bind_ok (configAssert_true (decide_eq_true hne) w.rb),
          Prog.bind_ok (configAssert_true (decide_eq_true h.type_eq) w.rb)]
        exact h1
      have hstep : step w (.complete (past.length + j)) = .ok { w with
          rb := rb', acquired := w.acquired.modify (past.length + j) Slot.complete } := by
        simp only [step, hi, hs, hcomplete, Bool.false_eq_true, ↓reduceIte]
      have hassoc : R ++ P₁' ++ P₂' = R ++ P.map (Cell.updateAt c.pos Cell.complete) := by
        rw [List.append_assoc, ← hP']
      refine ⟨_, hstep, k', H, _, P₂', past, ⟨hL', hsame.type.trans h.type_eq, ?_, ?_, hwaits, ?_,
        h.received, h.completed, ?_, ?_⟩⟩
      · rw [hassoc]
        exact readable_updateAt (fun d => ⟨rfl, rfl, fun h => by simp [Cell.complete] at h⟩)
          (fun d hd => h.layout.pending_pos hc d (List.mem_append_right _ hd)) h.readable
      · intro d hd
        rcases List.mem_append.mp hd with hd | hd
        · exact h.done d hd
        · exact hdone d hd
      · rw [hassoc, slot_congr hsame,
          h.acquired_updateAt (g := Cell.complete) hj hc (fun _ => rfl) fun _ => rfl]
      · rw [hw, h.waiting, countP_modify_add hi hs]
        push_cast
        omega
      · rw [h.held]
        exact List.map_congr_left fun d _ => by rw [hsame.place]

end Producers

/-! ### Consumers -/

section Consumers

variable {w : World} {k : Marks} {H R P : List Cell} {past : List Slot}

/-- A cell that is not done is an item of the history that is not complete. -/
lemma Ring.incomplete (h : Ring w k H R P past) {c : Cell} (hc : c ∈ P) (hdone : c.done = false) :
    ∃ s ∈ w.acquired, s.completed = false := by
  rw [Cell.done, Bool.or_eq_false_iff] at hdone
  refine ⟨slot w.rb c, ?_, hdone.2⟩
  rw [h.acquired]
  refine List.mem_append_right _ (List.mem_map_of_mem (List.mem_filter.mpr ⟨?_, ?_⟩))
  · exact List.mem_append_right _ hc
  · rw [hdone.1]
    rfl

/-- When all items are complete, no cells are pending. -/
lemma Ring.pending_nil (h : Ring w k H R P past)
    (hall : ¬ ∃ s ∈ w.acquired, s.completed = false) : P = [] := by
  rcases h.waits with hP | ⟨pre, c, post, rfl, _, hc⟩ | ⟨_, c, hcP, hc⟩
  · exact hP
  · exact absurd (h.incomplete (by simp) hc) hall
  · exact absurd (h.incomplete hcP hc) hall

/-- An item that is ready is counted. -/
lemma Ring.waiting_pos (h : Ring w k H R P past) {c : Cell} (hc : c ∈ R) (hd : c.dummy = false) :
    0 < w.rb.xItemsWaiting := by
  have hcount : 0 < ((items (R ++ P)).map (slot w.rb)).countP Slot.completed := by
    refine List.countP_pos_iff.mpr ⟨slot w.rb c, List.mem_map_of_mem (List.mem_filter.mpr ⟨?_, ?_⟩),
      ?_⟩
    · exact List.mem_append_left _ hc
    · rw [hd]
      rfl
    · have := h.done c hc
      rw [Cell.done, hd, Bool.false_or] at this
      exact this
  have hpast : past.countP Slot.completed = past.length :=
    List.countP_eq_length.mpr h.completed
  rw [h.waiting, h.acquired, List.countP_append, hpast, h.received, List.length_map]
  omega

/-- What is ready: nothing, dummy data whose item is pending, or an item, behind dummy data
perhaps. -/
lemma Ring.ready_cases (h : Ring w k H R P past) :
    R = [] ∨ (∃ d, R = [d] ∧ d.dummy = true ∧ P ≠ []) ∨
      ∃ D c R', R = D ++ c :: R' ∧ (D = [] ∨ ∃ d, D = [d] ∧ d.dummy = true) ∧
        c.dummy = false ∧ c.free = false := by
  have hread := h.readable
  rcases R with _ | ⟨c, _ | ⟨d, R'⟩⟩
  · exact .inl rfl
  · obtain ⟨h1, h2, _⟩ := hread
    cases hd : c.dummy with
    | false => exact .inr (.inr ⟨[], c, [], rfl, .inl rfl, hd, h1 hd⟩)
    | true =>
      obtain ⟨d, ds, hds, _⟩ := h2 (.inl hd)
      refine .inr (.inl ⟨c, rfl, hd, ?_⟩)
      rintro rfl
      simp at hds
  · obtain ⟨h1, h2, h3, _⟩ := hread
    cases hd : c.dummy with
    | false => exact .inr (.inr ⟨[], c, d :: R', rfl, .inl rfl, hd, h1 hd⟩)
    | true =>
      obtain ⟨e, es, hes, he1, _⟩ := h2 (.inl hd)
      obtain ⟨rfl, _⟩ : d = e ∧ _ := List.cons.inj hes
      exact .inr (.inr ⟨[c], d, R', rfl, .inr ⟨c, rfl, hd⟩, he1, h3 he1⟩)

/-- When nothing but dummy data is ready, a receive that is safe finds nothing. -/
lemma Ring.avail_ready (h : Ring w k H R P past) (hsafe : Safe w .receive)
    (havail : w.rb.prvCheckItemAvail = true) :
    ∃ D c R', R = D ++ c :: R' ∧ (D = [] ∨ ∃ d, D = [d] ∧ d.dummy = true) ∧
      c.dummy = false ∧ c.free = false := by
  have hL := h.layout
  rcases h.ready_cases with rfl | ⟨d, rfl, hd, hP⟩ | hitem
  · -- the pointers coincide
    exfalso
    have heq : k.read = k.write := hL.ready_chain
    have hptr : w.rb.pucRead = w.rb.pucWrite := by rw [hL.read_eq, hL.write_eq, heq]
    have hP := h.pending_nil fun hinc => hsafe ⟨havail, hinc, .inl hptr⟩
    have hwait : 0 < w.rb.xItemsWaiting := by
      rw [Ringbuffer.prvCheckItemAvail, if_neg (by simp [h.type_eq]), Ringbuffer.itemsToRead,
        Bool.and_eq_true, decide_eq_true_eq] at havail
      exact havail.1
    have hle := List.countP_le_length (p := Slot.completed) (l := w.acquired)
    have hlen : w.acquired.length = w.received.length := by
      rw [h.acquired, h.received, hP, List.length_map]
      simp [items]
    rw [h.waiting] at hwait
    omega
  · exfalso
    apply hP
    have hst := hL.stored d (by simp)
    have hchain : d.pos = k.read ∧ k.read + d.span = k.write := hL.ready_chain
    have hflag : hasFlag (w.rb.uxItemFlags w.rb.pucRead) rbItemDummyDataFlag = true := by
      rw [hasFlag_dummy, hL.read_eq, ← hchain.1, hst.dummy, hd]
    have hhead : w.rb.pucWrite = w.rb.pucHead := by
      rw [hL.write_eq, ← hchain.2, ← hchain.1]
      exact place_end_dummy hL.storage hst hd
    exact h.pending_nil fun hinc => hsafe ⟨havail, hinc, .inr ⟨hflag, hhead⟩⟩
  · exact hitem

/-- A receive takes the first item that is ready, if there is one. -/
lemma Ring.receive (h : Ring w k H R P past) (hsafe : Safe w .receive) :
    (w.rb.prvCheckItemAvail = false ∧ step w .receive = .ok w) ∨
      ∃ w' D c R', R = D ++ c :: R' ∧ (∀ d ∈ D, d.dummy = true) ∧ c.dummy = false ∧
        step w .receive = .ok w' ∧
        w'.received = w.received ++ [(slot w.rb c).item] ∧ Inv w' := by
  have hL := h.layout
  cases havail : w.rb.prvCheckItemAvail with
  | false =>
    left
    have hrec : xRingbufferReceive w.rb = (.ok none, w.rb) := by
      rw [xRingbufferReceive, receiveOne, Prog.get_bind, havail]
      rfl
    exact ⟨rfl, by rw [step, hrec]⟩
  | true =>
    right
    obtain ⟨D, c, R', rfl, hD, hd, hf⟩ := h.avail_ready hsafe havail
    have hDd : ∀ d ∈ D, d.dummy = true := by
      rcases hD with rfl | ⟨d, rfl, hd⟩
      · simp
      · simpa using hd
    obtain ⟨rb', h1, hL', hs, hm, hw⟩ :=
      prvGetItemDefault_ok hL hD hd (h.waiting_pos (by simp) hd)
    have hget : getItem 0 w.rb = (.ok ⟨w.rb.place c.pos + 8, c.data.length, c.split⟩, rb') := by
      rw [getItem, Prog.get_bind, h.type_eq]
      exact h1
    have hrec : xRingbufferReceive w.rb =
        (.ok (some ⟨w.rb.place c.pos + 8, c.data.length, c.split⟩), rb') := by
      rw [xRingbufferReceive, receiveOne, Prog.get_bind, havail, if_pos rfl, Prog.bind_ok hget]
      rfl
    have hdata : rb'.mem.read (w.rb.place c.pos + 8) c.data.length = c.data := by
      rw [hm]
      exact ((hL.stored c (by simp)).item hd).2.2.2.2.2
    have hstep : step w .receive = .ok { w with
        rb := rb'
        received := w.received ++ [(slot w.rb c).item]
        held := w.held ++ [w.rb.place c.pos + 8] } := by
      simp only [step, hrec, hdata]
      rfl
    have hwr : c.written = true := by
      have := h.done c (by simp)
      rw [Cell.done, hd, Bool.false_or] at this
      exact this
    -- the item leaves the cells past the read pointer
    have hDnil : items D = [] := List.filter_eq_nil_iff.mpr fun d hd => by simp [hDd d hd]
    have hitems : items (D ++ c :: R' ++ P) = c :: items (R' ++ P) := by
      rw [List.append_assoc, items_append, hDnil, List.nil_append, List.cons_append, items,
        List.filter_cons_of_pos (by simp [hd])]
      rfl
    have hread := h.readable
    refine ⟨_, D, c, R', rfl, hDd, hd, hstep, rfl, _, _, R', P, past ++ [slot w.rb c],
      ⟨hL', hs.type.trans h.type_eq, ?_, fun e he => h.done e (by simp [he]), ?_, ?_, ?_, ?_, ?_, ?_⟩⟩
    · rcases hD with rfl | ⟨d, rfl, _⟩
      · exact hread.2.2
      · exact hread.2.2.2.2
    · rcases h.waits with hP | hP | hP
      · exact .inl hP
      · exact .inr (.inl hP)
      · right
        right
        rw [hs.size]
        exact hP
    · show w.acquired = _
      rw [h.acquired, hitems, List.map_cons, slot_congr hs, List.append_assoc,
        List.singleton_append]
    · show w.received ++ [(slot w.rb c).item] = _
      rw [h.received, List.map_append, List.map_singleton]
    · intro s hs
      rcases List.mem_append.mp hs with hs | hs
      · exact h.completed s hs
      · rw [List.mem_singleton.mp hs]
        exact hwr
    · show rb'.xItemsWaiting = (w.acquired.countP Slot.completed : ℤ) -
        (w.received ++ [(slot w.rb c).item]).length
      rw [hw, h.waiting, List.length_append, List.length_singleton]
      push_cast
      omega
    · show w.held ++ [w.rb.place c.pos + 8] = _
      have hDh : D.filter Held.isHeld = [] :=
        List.filter_eq_nil_iff.mpr fun d hd => by simp [Held.isHeld, hDd d hd]
      rw [h.held, List.filter_append, List.filter_append, hDh, List.append_nil,
        List.filter_cons_of_pos (by simp [Held.isHeld, hd, hf]), List.filter_nil, List.map_append,
        List.map_singleton, hs.place]
      congr 1
      exact List.map_congr_left fun d _ => by rw [hs.place]

lemma Ring.giveBack (h : Ring w k H R P past) {i : ℕ} (hsafe : Safe w (.giveBack i)) :
    ∃ w', step w (.giveBack i) = .ok w' ∧ Inv w' := by
  have hL := h.layout
  cases hi : w.held[i]? with
  | none => exact ⟨w, by rw [step, hi], k, H, R, P, past, h⟩
  | some p =>
    have hi' := hi
    rw [h.held, List.getElem?_map, Option.map_eq_some_iff] at hi'
    obtain ⟨c, hci, rfl⟩ := hi'
    have hcf : c ∈ H.filter Held.isHeld := List.mem_of_getElem? hci
    obtain ⟨hcH, hch⟩ := List.mem_filter.mp hcf
    have hch' : c.dummy = false ∧ c.free = false := by simpa [Held.isHeld] using hch
    obtain ⟨rb', r, h1, hL', hs, hw⟩ := prvReturnItemDefault_ok hL hcH hch'.1 hch'.2 (by
      -- the only held item
      intro hring d hd hdd hdf
      have hord := hL.order
      have hround := hL.round
      have hfull : w.rb.bufferFull = true := by
        rw [hL.full_eq]
        exact decide_eq_true (by omega)
      have hptr : w.rb.pucFree = w.rb.pucRead := by
        rw [hL.free_eq, hL.read_eq, hring, Ringbuffer.place, Ringbuffer.place, Nat.add_mod_right]
      have hlen : (H.filter Held.isHeld).length ≤ 1 := by
        have := hsafe
        simp only [Safe, hfull, hptr, true_and, h.held, List.length_map] at this
        omega
      exact Held.only_held hlen hcf hd hdd hdf)
    have hret : vRingbufferReturnItem (w.rb.place c.pos + 8) w.rb = (.ok (), rb') := by
      rw [vRingbufferReturnItem, Prog.get_bind,
        Prog.bind_ok (configAssert_true (decide_eq_true (by omega)) w.rb), h.type_eq]
      exact h1
    have hstep : step w (.giveBack i) = .ok { w with
        rb := rb', held := w.held.filter (· != w.rb.place c.pos + 8) } := by
      simp only [step, hi, hret]
    refine ⟨_, hstep, _, _, R, P, past, ⟨hL', hs.type.trans h.type_eq, h.readable, h.done, ?_, ?_,
      h.received, h.completed, hw.trans h.waiting, ?_⟩⟩
    · rcases h.waits with hP | hP | hP
      · exact .inl hP
      · exact .inr (.inl hP)
      · right
        right
        rw [hs.size]
        exact hP
    · rw [slot_congr hs]
      exact h.acquired
    · show w.held.filter (· != w.rb.place c.pos + 8) = _
      have hplace : (fun d : Cell => rb'.place d.pos + 8) = fun d => w.rb.place d.pos + 8 :=
        funext fun d => by rw [hs.place]
      rw [Held.filter_dropWhile, Held.filter_giveBack, h.held, List.filter_map, hplace]
      refine congrArg (List.map _) (List.filter_congr fun d hd => ?_)
      exact Held.view_ne hL hcH (List.mem_filter.mp hd).1

end Consumers

/-! ### Every run -/

section Runs

variable {w : World}

/-- Every safe operation keeps the invariant. -/
lemma step_inv (h : Inv w) {op : Op} (hsafe : Safe w op) : ∃ w', step w op = .ok w' ∧ Inv w' := by
  have hinv := h
  obtain ⟨k, H, R, P, past, h⟩ := h
  cases op with
  | acquire len => exact h.acquire len
  | write i bs => exact h.write i bs
  | complete i => exact h.complete i
  | send item => exact h.send item
  | receive =>
    rcases h.receive hsafe with ⟨_, h1⟩ | ⟨w', _, _, _, _, _, _, h1, _, h2⟩
    · exact ⟨w, h1, hinv⟩
    · exact ⟨w', h1, h2⟩
  | giveBack i => exact h.giveBack hsafe

/-- Every safe run keeps the invariant. -/
lemma run_inv (h : Inv w) {ops : List Op} (hsafe : SafeRun w ops) :
    ∃ w', run w ops = .ok w' ∧ Inv w' := by
  induction ops generalizing w with
  | nil => exact ⟨w, rfl, h⟩
  | cons op ops ih =>
    obtain ⟨hop, hrest⟩ := hsafe
    obtain ⟨w₁, h1, hinv⟩ := step_inv h hop
    rw [h1] at hrest
    obtain ⟨w', h2, hinv'⟩ := ih hinv hrest
    exact ⟨w', by rw [run, List.foldlM_cons, h1]; exact h2, hinv'⟩

/-- The item that is next in the history is the first item past the read pointer. -/
lemma Ring.next_item {k : Marks} {H R P : List Cell} {past : List Slot}
    (h : Ring w k H R P past) {s : Slot} (hs : w.acquired[w.received.length]? = some s) :
    ∃ c rest, items (R ++ P) = c :: rest ∧ s = slot w.rb c := by
  rw [h.received, List.length_map, h.acquired, List.getElem?_append_right (Nat.le_refl _),
    Nat.sub_self, List.getElem?_map] at hs
  cases hi : items (R ++ P) with
  | nil => simp [hi] at hs
  | cons c rest =>
    refine ⟨c, rest, rfl, ?_⟩
    simpa [hi] using hs.symm

/-- The first pending item is complete only when the pending cells are the whole ring. -/
lemma Ring.avail_of_next {k : Marks} {H R P : List Cell} {past : List Slot}
    (h : Ring w k H R P past) {c : Cell} {rest : List Cell} (hnext : items (R ++ P) = c :: rest)
    (hwr : c.written = true) : w.rb.prvCheckItemAvail = true := by
  have hL := h.layout
  have hcm := List.mem_filter.mp (show c ∈ items (R ++ P) by rw [hnext]; exact List.mem_cons_self)
  have hcd : c.dummy = false := by simpa using hcm.2
  have hpast : past.countP Slot.completed = past.length :=
    List.countP_eq_length.mpr h.completed
  have hwait : 0 < w.rb.xItemsWaiting := by
    have hc : Slot.completed (slot w.rb c) = true := hwr
    rw [h.waiting, h.acquired, List.countP_append, hpast, h.received, List.length_map, hnext,
      List.map_cons, List.countP_cons_of_pos hc]
    omega
  rw [Ringbuffer.prvCheckItemAvail, if_neg (by simp [h.type_eq])]
  by_cases hR : R = []
  · subst hR
    rw [List.nil_append] at hnext hcm
    rcases h.waits with rfl | ⟨pre, d, post, rfl, hpre, hdd⟩ | ⟨hring, _⟩
    · simp [items] at hnext
    · -- the first pending item is not complete
      exfalso
      rw [Cell.done, Bool.or_eq_false_iff] at hdd
      have hpre' : items pre = [] := List.filter_eq_nil_iff.mpr fun e he => by simp [hpre e he]
      rw [items_append, hpre', List.nil_append, items,
        List.filter_cons_of_pos (by simp [hdd.1])] at hnext
      obtain ⟨rfl, _⟩ := List.cons.inj hnext
      rw [hwr] at hdd
      simp at hdd
    · have hord := hL.order
      have hround := hL.round
      rw [Ringbuffer.itemsToRead, decide_eq_true hwait, hL.full_eq,
        decide_eq_true (show k.acquire = k.free + w.rb.xSize by omega), Bool.or_true]
      rfl
  · exact hL.itemsToRead hR hwait

/-- What the invariant says about the history. -/
lemma Inv.ordered (h : Inv w) : Ordered w := by
  obtain ⟨k, H, R, P, past, h⟩ := h
  refine ⟨⟨past, _, h.acquired, h.received, h.completed⟩, fun s hs hcomp hsafe => ?_⟩
  obtain ⟨c, rest, hnext, rfl⟩ := h.next_item hs
  have havail := h.avail_of_next hnext hcomp
  rcases h.receive hsafe with ⟨hno, _⟩ | ⟨w', D, d, R', rfl, hD, hd, h1, h2, _⟩
  · rw [havail] at hno
    simp at hno
  · refine ⟨w', h1, ?_⟩
    have hDnil : items D = [] := List.filter_eq_nil_iff.mpr fun e he => by simp [hD e he]
    rw [List.append_assoc, items_append, hDnil, List.nil_append, List.cons_append, items,
      List.filter_cons_of_pos (by simp [hd])] at hnext
    obtain ⟨rfl, _⟩ := List.cons.inj hnext
    exact h2

lemma start_inv {mem : Mem} {size storage : ℕ} (hsize : 16 ≤ size) (halign : storage % 4 = 0)
    (hend : storage + size + 3 < 2 ^ 32) (hlt : size + 3 < 2 ^ 31) :
    Inv (start (xRingbufferCreate mem size .noSplit storage)) := by
  have hup : alignUp size ≤ size + 3 := by rw [alignUp]; omega
  have hq : Queue (xRingbufferCreate mem size .noSplit storage) ⟨0, 0, 0, 0⟩ [] [] :=
    create_queue (by omega) (by simp) halign (by omega) (by omega) (by decide)
  exact ⟨_, [], [], [], [], ⟨hq.layout, rfl, trivial, by simp, .inl rfl, rfl, rfl, by simp, rfl,
    rfl⟩⟩

/-- In every run of producers and consumers on a no-split buffer in which nothing is received
while an item is incomplete and the write pointer does not keep the reader from it, and no item
is returned while the buffer is full, everything in it has been retrieved and another item is
held, no check fails and items are received in order, after they have been completed. -/
theorem received_in_order (mem : Mem) (size storage : ℕ) (ops : List Op) (hsize : 16 ≤ size)
    (halign : storage % 4 = 0) (hend : storage + size + 3 < 2 ^ 32) (hlt : size + 3 < 2 ^ 31)
    (hsafe : SafeRun (start (xRingbufferCreate mem size .noSplit storage)) ops) :
    ∃ w, run (start (xRingbufferCreate mem size .noSplit storage)) ops = .ok w ∧ Ordered w := by
  obtain ⟨w, h1, hw⟩ := run_inv (start_inv hsize halign hend hlt) hsafe
  exact ⟨w, h1, hw.ordered⟩

/-- Two items of a buffer of 48 bytes are completed out of order. -/
theorem received_in_order_two_items :
    ∃ w, run (start (xRingbufferCreate (fun _ => 0#8) 48 .noSplit 0x3ffb0000))
      [.acquire 8, .acquire 8, .write 1 [1, 2, 3, 4, 5, 6, 7, 8], .complete 1, .receive, .complete 0,
        .receive, .giveBack 0, .receive] = .ok w ∧ Ordered w :=
  received_in_order _ _ _ _ (by decide) (by decide) (by decide) (by decide) (by decide +kernel)

/-- A run in which an item is received that is not complete. -/
lemma exists_not_ordered {w₀ : World} {ops : List Op}
    (h : (match run w₀ ops with
      | .ok w => (w.acquired.take w.received.length).any fun s => !s.completed
      | .error _ => false) = true) : ∃ w, run w₀ ops = .ok w ∧ ¬ Ordered w := by
  cases hr : run w₀ ops with
  | error e => simp [hr] at h
  | ok w =>
    rw [hr] at h
    obtain ⟨s, hs, hnot⟩ := List.any_eq_true.mp h
    refine ⟨w, rfl, fun hw => ?_⟩
    obtain ⟨done, rest, hacq, hrec, hdone⟩ := hw.received
    have htake : w.acquired.take w.received.length = done := by
      rw [hacq, hrec, List.length_map, List.take_left]
    rw [htake] at hs
    rw [hdone s hs] at hnot
    simp at hnot

/-- Two items of 8 bytes are acquired in a buffer of 32 bytes, which is full then, and the
second one is completed.  The first one is received, though it has not been completed. -/
theorem incomplete_item_received :
    ∃ w, run (start (xRingbufferCreate (fun _ => 0#8) 32 .noSplit 0x3ffb0000))
      [.acquire 8, .acquire 8, .complete 1, .receive] = .ok w ∧ ¬ Ordered w := by
  apply exists_not_ordered
  decide +kernel

end Runs

end EspIdf.RingBuffer.Acquired
