/-
# Held items

Consumers may hold several retrieved items at once and return them in any order.  As long as
no item is returned while the whole ring is retrieved and another item is held, the bytes of a
held item stay as they were and its space does not count as free.
-/
import EspIdf.RingBuffer.Queue

namespace EspIdf.RingBuffer.Held

open EspIdf.Lib

/-! ### Runs -/

/-- A buffer and the items that consumers hold: the address of each and the bytes that were
there when it was retrieved, oldest first. -/
structure World where
  rb : Ringbuffer
  held : List (ℕ × List Byte)

/-- What tasks do with the buffer; `giveBack i` returns the item of index `i`. -/
inductive Op where
  | send (item : List Byte)
  | receive
  | receiveSplit
  | giveBack (i : ℕ)
deriving DecidableEq, Repr

/-- The item that a consumer holds from now on. -/
def hold (mem : Mem) (r : Retrieved) : ℕ × List Byte := (r.pvItem, mem.read r.pvItem r.xItemSize)

/-- One operation.  `xRingbufferReceiveSplit` is only called on allow-split buffers and only
held items are returned. -/
def step (w : World) : Op → Except Stop World
  | .send item =>
    match xRingbufferSend item w.rb with
    | (.ok _, rb) => .ok { w with rb := rb }
    | (.error e, _) => .error e
  | .receive =>
    match xRingbufferReceive w.rb with
    | (.ok none, rb) => .ok { w with rb := rb }
    | (.ok (some r), rb) => .ok ⟨rb, w.held ++ [hold rb.mem r]⟩
    | (.error e, _) => .error e
  | .receiveSplit =>
    if w.rb.type = .allowSplit then
      match xRingbufferReceiveSplit w.rb with
      | (.ok none, rb) => .ok { w with rb := rb }
      | (.ok (some (r, none)), rb) => .ok ⟨rb, w.held ++ [hold rb.mem r]⟩
      | (.ok (some (r, some r')), rb) => .ok ⟨rb, w.held ++ [hold rb.mem r, hold rb.mem r']⟩
      | (.error e, _) => .error e
    else
      .ok w
  | .giveBack i =>
    match w.held[i]? with
    | none => .ok w
    | some item =>
      match vRingbufferReturnItem item.1 w.rb with
      | (.ok (), rb) => .ok ⟨rb, w.held.filter fun other => other.1 != item.1⟩
      | (.error e, _) => .error e

/-- A sequence of operations. -/
def run : World → List Op → Except Stop World := List.foldlM step

/-! ### Free space -/

/-- The addresses that `prvCheckItemFitsDefault` takes to be free: from the acquire pointer up
to the free pointer, around the end of the storage when the free pointer is not ahead. -/
def CountsFree (rb : Ringbuffer) (a : ℕ) : Prop :=
  rb.bufferFull = false ∧
    (rb.pucAcquire < rb.pucFree ∧ rb.pucAcquire ≤ a ∧ a < rb.pucFree ∨
      rb.pucFree ≤ rb.pucAcquire ∧
        (rb.pucAcquire ≤ a ∧ a < rb.pucTail ∨ rb.pucHead ≤ a ∧ a < rb.pucFree))

/-- The header and the data of an item. -/
def InItem (item : ℕ × List Byte) (a : ℕ) : Prop :=
  item.1 - 8 ≤ a ∧ a < item.1 + alignUp item.2.length

/-- No item is returned while the buffer is full, everything in it has been retrieved and
another item is held. -/
def Safe (w : World) : Op → Prop
  | .giveBack _ => ¬ (w.rb.bufferFull = true ∧ w.rb.pucFree = w.rb.pucRead ∧ 1 < w.held.length)
  | _ => True

instance (w : World) : (op : Op) → Decidable (Safe w op)
  | .giveBack _ => inferInstanceAs (Decidable (¬ (_ = true ∧ _ = _ ∧ 1 < _)))
  | .send _ => isTrue trivial
  | .receive => isTrue trivial
  | .receiveSplit => isTrue trivial

/-- Every operation of a run is safe in the state in which it is made. -/
def SafeRun : World → List Op → Prop
  | _, [] => True
  | w, op :: ops => Safe w op ∧
    match step w op with
    | .ok w' => SafeRun w' ops
    | .error _ => True

instance decidableSafeRun : (w : World) → (ops : List Op) → Decidable (SafeRun w ops)
  | _, [] => isTrue trivial
  | w, op :: ops =>
    @instDecidableAnd _ _ inferInstance
      (match step w op with
      | .ok w' => decidableSafeRun w' ops
      | .error _ => isTrue trivial)

/-- Held items are left alone, and returning one frees its space. -/
structure Intact (w : World) : Prop where
  /-- The bytes of a held item are those that were retrieved. -/
  unchanged : ∀ item ∈ w.held, w.rb.mem.read item.1 item.2.length = item.2
  /-- The space of a held item does not count as free. -/
  kept : ∀ item ∈ w.held, ∀ a, InItem item a → ¬ CountsFree w.rb a
  /-- Once an item has been returned, the space that counts as free ends at the oldest item
  that is still held; the oldest one of all frees its space. -/
  freed : ∀ i item, w.held[i]? = some item → Safe w (.giveBack i) →
    ∃ w', step w (.giveBack i) = .ok w' ∧
      w'.rb.pucFree = (w'.held.head?.map fun oldest => oldest.1 - 8).getD w'.rb.pucRead ∧
      (i = 0 → ∀ a, InItem item a → CountsFree w'.rb a)

/-! ### The invariant -/

/-- A cell that a consumer holds. -/
def isHeld (c : Cell) : Bool := !c.dummy && !c.free

/-- A held cell as the consumer knows it. -/
def view (rb : Ringbuffer) (c : Cell) : ℕ × List Byte := (rb.place c.pos + 8, c.data)

/-- The cells before the read pointer that are not free are the held items; when there are
none, the free pointer has caught up with the read pointer. -/
def Inv (w : World) : Prop :=
  ∃ k H R, Queue w.rb k H R ∧ w.held = (H.filter isHeld).map (view w.rb) ∧
    (w.held = [] → H = [])

section FreeSpace

variable {rb rb' : Ringbuffer} {k : Marks} {H R P : List Cell} {c : Cell} {a : ℕ}

/-- The free space is the rest of the round. -/
lemma countsFree_iff (h : Layout rb k H R P) :
    CountsFree rb a ↔ ∃ x, k.acquire ≤ x ∧ x < k.free + rb.xSize ∧ a = rb.place x := by
  have hs := h.storage
  have hpos := hs.size_pos
  have hord := h.order
  have hround := h.round
  have htail := hs.tail_eq
  have hflt := Nat.mod_lt k.free hpos
  have halt := Nat.mod_lt k.acquire hpos
  obtain ⟨d, hd⟩ := Nat.exists_eq_add_of_le (show k.free ≤ k.acquire by omega)
  have hmod := Ring.add_mod_of_le (p := k.free) hpos (show d ≤ rb.xSize by omega)
  rw [← hd] at hmod
  rw [CountsFree, h.full_eq, decide_eq_false_iff_not, h.acquire_eq, h.free_eq, htail]
  simp only [Ringbuffer.place]
  constructor
  · rintro ⟨hne, ⟨hlt, ha1, ha2⟩ | ⟨hge, ⟨ha1, ha2⟩ | ⟨ha1, ha2⟩⟩⟩
    · -- the free space does not wrap around
      obtain ⟨e, he⟩ := Nat.exists_eq_add_of_le ha1
      refine ⟨k.acquire + e, by omega, ?_, ?_⟩
      · split_ifs at hmod <;> omega
      · rw [Ring.add_mod_of_lt (by omega)]
        omega
    · obtain ⟨e, he⟩ := Nat.exists_eq_add_of_le ha1
      refine ⟨k.acquire + e, by omega, ?_, ?_⟩
      · split_ifs at hmod <;> omega
      · rw [Ring.add_mod_of_lt (by omega)]
        omega
    · obtain ⟨e, he⟩ := Nat.exists_eq_add_of_le ha1
      refine ⟨k.acquire + (rb.xSize - k.acquire % rb.xSize + e), by omega, ?_, ?_⟩
      · split_ifs at hmod <;> omega
      · rw [Ring.add_mod_of_le hpos (by omega), if_neg (by omega)]
        omega
  · rintro ⟨x, hx1, hx2, rfl⟩
    obtain ⟨e, rfl⟩ := Nat.exists_eq_add_of_le hx1
    have hx := Ring.add_mod_of_le (p := k.acquire) hpos (show e ≤ rb.xSize by omega)
    refine ⟨by omega, ?_⟩
    rw [hx]
    split_ifs at hmod ⊢ <;> omega

/-- The places of a cell. -/
lemma mem_cell_iff (hst : Stored rb c) :
    rb.place c.pos ≤ a ∧ a < rb.place c.pos + c.span ↔
      ∃ y, c.pos ≤ y ∧ y < c.pos + c.span ∧ a = rb.place y := by
  have hw := hst.lies.within
  simp only [Ringbuffer.place]
  constructor
  · rintro ⟨h1, h2⟩
    obtain ⟨e, he⟩ := Nat.exists_eq_add_of_le h1
    refine ⟨c.pos + e, by omega, by omega, ?_⟩
    rw [Ring.add_mod_of_lt (by omega)]
    omega
  · rintro ⟨y, h1, h2, rfl⟩
    obtain ⟨e, rfl⟩ := Nat.exists_eq_add_of_le h1
    rw [Ring.add_mod_of_lt (by omega)]
    omega

/-- No place of a cell counts as free. -/
lemma not_countsFree (h : Layout rb k H R P) (hc : c ∈ H ++ R ++ P)
    (ha : rb.place c.pos ≤ a ∧ a < rb.place c.pos + c.span) : ¬ CountsFree rb a := by
  intro hfree
  obtain ⟨x, hx1, hx2, hx⟩ := (countsFree_iff h).mp hfree
  obtain ⟨y, hy1, hy2, hy⟩ := (mem_cell_iff (h.stored c hc)).mp ha
  have hmem := Ring.chain_mem h.all_chain hc
  have hmod := Ring.mod_eq_mod_iff h.storage.size_pos (show y ≤ x by omega)
    (show x ≤ y + rb.xSize by omega)
  rw [hx, Ringbuffer.place, Ringbuffer.place] at hy
  omega

/-- The places of an item lie in its cell. -/
lemma inItem_cell (hst : Stored rb c) (hd : c.dummy = false) (ha : InItem (view rb c) a) :
    rb.place c.pos ≤ a ∧ a < rb.place c.pos + c.span := by
  have hle := hst.lies.item_le hd
  simp only [InItem, view] at ha
  omega

end FreeSpace

section Held

variable {rb rb' : Ringbuffer} {k : Marks} {H R : List Cell} {c : Cell}

/-- Cells that the free pointer skips are not held. -/
lemma filter_dropWhile (cs : List Cell) :
    (cs.dropWhile Cell.gone).filter isHeld = cs.filter isHeld := by
  induction cs with
  | nil => rfl
  | cons c cs ih =>
    cases hg : c.gone with
    | true =>
      have hh : isHeld c = false := by
        rw [Cell.gone] at hg
        rw [isHeld]
        cases hd : c.dummy <;> simp_all
      rw [List.dropWhile_cons_of_pos hg, ih, List.filter_cons_of_neg (by simp [hh])]
    | false => rw [List.dropWhile_cons_of_neg (by simp [hg])]

/-- A returned item is no longer held, and nothing else changes. -/
lemma filter_giveBack (cs : List Cell) (x : ℕ) :
    (cs.map (Cell.updateAt x Cell.giveBack)).filter isHeld =
      (cs.filter isHeld).filter fun d => d.pos != x := by
  rw [List.filter_map, List.filter_filter]
  have hcomp : (isHeld ∘ Cell.updateAt x Cell.giveBack) = fun d => d.pos != x && isHeld d := by
    funext d
    rw [Function.comp, Cell.updateAt]
    split_ifs with h <;> simp [isHeld, Cell.giveBack, h]
  rw [hcomp]
  refine (List.map_congr_left fun d hd => ?_).trans (List.map_id' _)
  have := (List.mem_filter.mp hd).2
  simp only [Bool.and_eq_true, bne_iff_ne] at this
  exact if_neg this.1

/-- Held cells at different positions have different addresses. -/
lemma view_ne {P : List Cell} (h : Layout rb k H R P) {c d : Cell} (hc : c ∈ H) (hd : d ∈ H) :
    ((view rb d).1 != (view rb c).1) = (d.pos != c.pos) := by
  by_cases hdc : d = c
  · subst hdc
    simp
  · have hap := h.apart.forall (List.mem_append_left _ (List.mem_append_left _ hd))
      (List.mem_append_left _ (List.mem_append_left _ hc)) hdc
    have h1 := (h.lies d (List.mem_append_left _ (List.mem_append_left _ hd))).span_ge
    have h2 := (h.lies c (List.mem_append_left _ (List.mem_append_left _ hc))).span_ge
    have hne : d.pos % rb.xSize ≠ c.pos % rb.xSize := by
      rw [Cell.Apart] at hap
      omega
    have hpos : d.pos ≠ c.pos := fun heq => hne (by rw [heq])
    rw [bne_iff_ne.mpr hpos, bne_iff_ne, view, view, Ringbuffer.place, Ringbuffer.place]
    simp only
    omega

/-- Once the first held item of a row has been returned, everything up to its end is skipped. -/
lemma drop_past {p q r : ℕ} {rest : List Cell} (hc : CellChain p H q)
    (hr : CellChain r ((H.map (Cell.updateAt c.pos Cell.giveBack)).dropWhile Cell.gone) q)
    (hfirst : H.filter isHeld = c :: rest) : c.pos + c.span ≤ r := by
  induction H generalizing p with
  | nil => simp at hfirst
  | cons d ds ih =>
    have hchain : CellChain (p + d.span) (ds.map (Cell.updateAt c.pos Cell.giveBack)) q :=
      (Ring.chain_congr (f := Cell.updateAt c.pos Cell.giveBack)
        (fun e _ => updateAt_pos (g := Cell.giveBack) (fun _ => rfl) e)
        (fun e _ => updateAt_span (g := Cell.giveBack) (fun _ => rfl) e)).mpr hc.2
    -- the row behind `d` starts no later than what is left
    have hle : ∀ {cs : List Cell} {x : ℕ}, CellChain x cs q →
        CellChain r (cs.dropWhile Cell.gone) q → x ≤ r := by
      intro cs x hx hr
      rw [← List.takeWhile_append_dropWhile (p := Cell.gone) (l := cs)] at hx
      obtain ⟨y, h1, h2⟩ := Ring.chain_append.mp hx
      rw [← Ring.chain_begin h2 hr]
      exact Ring.chain_le h1
    cases hd : isHeld d with
    | true =>
      rw [List.filter_cons_of_pos hd, List.cons.injEq] at hfirst
      obtain ⟨rfl, -⟩ := hfirst
      rw [List.map_cons, Cell.updateAt, if_pos rfl,
        List.dropWhile_cons_of_pos (by simp [Cell.gone, Cell.giveBack])] at hr
      rw [hc.1]
      exact hle hchain hr
    | false =>
      rw [List.filter_cons_of_neg (by simp [hd])] at hfirst
      have hgone : ∀ e : Cell, isHeld e = false → e.gone = true := by
        intro e he
        rw [Cell.gone]
        rw [isHeld] at he
        cases hed : e.dummy <;> simp_all
      have hgone' : (Cell.updateAt c.pos Cell.giveBack d).gone = true := by
        rw [Cell.updateAt]
        split_ifs
        · simp [Cell.gone, Cell.giveBack]
        · exact hgone d hd
      rw [List.map_cons, List.dropWhile_cons_of_pos hgone'] at hr
      exact ih hc.2 hr hfirst

/-- When at most one item is held, it is the held cell. -/
lemma only_held (hlen : (H.filter isHeld).length ≤ 1) (hc : c ∈ H.filter isHeld) {d : Cell}
    (hd : d ∈ H) (hdd : d.dummy = false) (hdf : d.free = false) : d.pos = c.pos := by
  have hdm : d ∈ H.filter isHeld := List.mem_filter.mpr ⟨hd, by simp [isHeld, hdd, hdf]⟩
  rcases hl : H.filter isHeld with _ | ⟨x, _ | ⟨y, t⟩⟩
  · simp [hl] at hdm
  · rw [hl, List.mem_singleton] at hdm hc
    rw [hdm, hc]
  · rw [hl] at hlen
    simp at hlen

/-- What is left after a return starts with a held item. -/
lemma isHeld_first {cs ds : List Cell} {d : Cell} (h : cs.dropWhile Cell.gone = d :: ds) :
    isHeld d = true := by
  have hhead := List.head?_dropWhile_not Cell.gone cs
  rw [h] at hhead
  have hgone : d.gone = false := hhead
  rw [Cell.gone, Bool.or_eq_false_iff] at hgone
  rw [isHeld, hgone.1, hgone.2]
  rfl

/-- Returning a held item. -/
lemma giveBack_ok {w : World} (hinv : Inv w) {i : ℕ} {item : ℕ × List Byte}
    (hi : w.held[i]? = some item) (hsafe : Safe w (.giveBack i)) :
    ∃ w', step w (.giveBack i) = .ok w' ∧ Inv w' ∧ SameStorage w'.rb w.rb ∧
      w'.rb.pucFree = (w'.held.head?.map fun oldest => oldest.1 - 8).getD w'.rb.pucRead ∧
      (i = 0 → ∀ a, InItem item a → CountsFree w'.rb a) := by
  obtain ⟨k, H, R, hq, hheld, _⟩ := hinv
  rw [hheld, List.getElem?_map, Option.map_eq_some_iff] at hi
  obtain ⟨c, hci, rfl⟩ := hi
  have hcf : c ∈ H.filter isHeld := List.mem_of_getElem? hci
  obtain ⟨hcH, hch⟩ := List.mem_filter.mp hcf
  have hch' : c.dummy = false ∧ c.free = false := by simpa [isHeld] using hch
  obtain ⟨rb', r, h1, hq', hs⟩ := hq.giveBack hcH hch'.1 hch'.2 (by
    -- the only held item
    intro hfull hptr d hd hdd hdf
    have hlen : (H.filter isHeld).length ≤ 1 := by
      have := hsafe
      simp only [Safe, hfull, hptr, true_and, hheld, List.length_map] at this
      omega
    exact only_held hlen hcf hd hdd hdf)
  have hplace : ∀ d : Cell, view rb' d = view w.rb d := fun d => by rw [view, view, hs.place]
  have hheld' : w.held.filter (fun other => other.1 != (view w.rb c).1) =
      (((H.map (Cell.updateAt c.pos Cell.giveBack)).dropWhile Cell.gone).filter isHeld).map
        (view rb') := by
    rw [filter_dropWhile, filter_giveBack, hheld, List.filter_map,
      List.map_congr_left fun d _ => hplace d]
    refine congrArg (List.map (view w.rb)) (List.filter_congr fun d hd => ?_)
    exact view_ne hq.layout hcH (List.mem_filter.mp hd).1
  have hstep : step w (.giveBack i) =
      .ok ⟨rb', w.held.filter fun other => other.1 != (view w.rb c).1⟩ := by
    rw [step, hheld, List.getElem?_map, hci]
    simp only [Option.map_some]
    rw [show (view w.rb c).1 = w.rb.place c.pos + 8 from rfl, h1]
  refine ⟨_, hstep, ⟨_, _, R, hq', hheld', fun hnil => ?_⟩, hs, ?_, ?_⟩
  · rw [hheld', List.map_eq_nil_iff] at hnil
    cases hH' : (H.map (Cell.updateAt c.pos Cell.giveBack)).dropWhile Cell.gone with
    | nil => rfl
    | cons d ds =>
      rw [hH', List.filter_cons_of_pos (isHeld_first hH')] at hnil
      simp at hnil
  · -- what is left starts with a held item
    have hfree := hq'.layout.free_eq
    have hread := hq'.layout.read_eq
    have hchain := hq'.layout.held_chain
    rw [hheld']
    cases hH' : (H.map (Cell.updateAt c.pos Cell.giveBack)).dropWhile Cell.gone with
    | nil =>
      rw [hH'] at hchain
      rw [hfree, show r = k.read from hchain]
      exact hread.symm
    | cons d ds =>
      rw [hH'] at hchain
      rw [List.filter_cons_of_pos (isHeld_first hH'), List.map_cons, hfree, ← show d.pos = r from hchain.1]
      rfl
  · rintro rfl a ha
    have hst := hq.layout.stored c (List.mem_append_left _ (List.mem_append_left _ hcH))
    obtain ⟨y, hy1, hy2, rfl⟩ := (mem_cell_iff hst).mp (inItem_cell hst hch'.1 ha)
    obtain ⟨rest, hrest⟩ : ∃ rest, H.filter isHeld = c :: rest := by
      cases hl : H.filter isHeld with
      | nil => simp [hl] at hci
      | cons x t =>
        rw [hl] at hci
        exact ⟨t, by simpa using hci⟩
    have hr : c.pos + c.span ≤ r :=
      drop_past hq.layout.held_chain hq'.layout.held_chain hrest
    have hmem := Ring.chain_mem hq.layout.held_chain hcH
    have hround := hq.layout.round
    rw [countsFree_iff hq'.layout]
    refine ⟨y + w.rb.xSize, ?_, ?_, ?_⟩
    · show k.acquire ≤ y + w.rb.xSize
      omega
    · rw [hs.size]
      show y + w.rb.xSize < r + w.rb.xSize
      omega
    · rw [hs.place, Ringbuffer.place, Ringbuffer.place, Nat.add_mod_right]

end Held

/-! ### Every run -/

section Runs

variable {w : World}

/-- What the invariant says about the held items. -/
lemma Inv.intact (h : Inv w) : Intact w := by
  refine ⟨?_, ?_, fun i item hi hsafe => ?_⟩
  · obtain ⟨k, H, R, hq, hheld, hnone⟩ := h
    intro item hitem
    rw [hheld] at hitem
    obtain ⟨c, hc, rfl⟩ := List.mem_map.mp hitem
    obtain ⟨hcH, hch⟩ := List.mem_filter.mp hc
    have hch' : c.dummy = false ∧ c.free = false := by simpa [isHeld] using hch
    have hst := hq.layout.stored c (List.mem_append_left _ (List.mem_append_left _ hcH))
    exact (hst.item hch'.1).2.2.2.2.2
  · obtain ⟨k, H, R, hq, hheld, hnone⟩ := h
    intro item hitem a ha
    rw [hheld] at hitem
    obtain ⟨c, hc, rfl⟩ := List.mem_map.mp hitem
    obtain ⟨hcH, hch⟩ := List.mem_filter.mp hc
    have hch' : c.dummy = false ∧ c.free = false := by simpa [isHeld] using hch
    have hcall : c ∈ H ++ R ++ [] := List.mem_append_left _ (List.mem_append_left _ hcH)
    exact not_countsFree hq.layout hcall (inItem_cell (hq.layout.stored c hcall) hch'.1 ha)
  · obtain ⟨w', h1, _, _, h2, h3⟩ := giveBack_ok h hi hsafe
    exact ⟨w', h1, h2, h3⟩

/-- Retrieved cells are held from now on. -/
lemma held_append {rb rb' : Ringbuffer} {H D cs : List Cell} (hs : SameStorage rb' rb)
    (hD : ∀ d ∈ D, d.dummy = true) (hcs : ∀ c ∈ cs, isHeld c = true) :
    ((H ++ D ++ cs).filter isHeld).map (view rb') =
      (H.filter isHeld).map (view rb) ++ cs.map (view rb) := by
  have hDnil : D.filter isHeld = [] :=
    List.filter_eq_nil_iff.mpr fun d hd => by simp [isHeld, hD d hd]
  rw [List.filter_append, List.filter_append, hDnil, List.append_nil,
    List.filter_eq_self.mpr hcs, List.map_append]
  rw [List.map_congr_left fun d _ => show view rb' d = view rb d by rw [view, view, hs.place],
    List.map_congr_left fun d _ => show view rb' d = view rb d by rw [view, view, hs.place]]

/-- Every safe operation keeps the invariant. -/
lemma step_inv (h : Inv w) {op : Op} (hsafe : Safe w op) :
    ∃ w', step w op = .ok w' ∧ Inv w' ∧ SameStorage w'.rb w.rb := by
  cases op with
  | send item =>
    obtain ⟨k, H, R, hq, hheld, hnone⟩ := h
    rcases hq.send item with ⟨h1, _⟩ | ⟨rb', a, cs, h1, hq', hs, _, _⟩
    · exact ⟨w, by rw [step, h1], ⟨k, H, R, hq, hheld, hnone⟩, .refl _⟩
    · refine ⟨⟨rb', w.held⟩, by rw [step, h1], ⟨_, H, _, hq', ?_, hnone⟩, hs⟩
      rw [hheld]
      exact List.map_congr_left fun d _ => by rw [view, view, hs.place]
  | receive =>
    obtain ⟨k, H, R, hq, hheld, hnone⟩ := h
    rcases hq.receive with ⟨_, h1⟩ | ⟨rb', D, c, R', rfl, hD, hd, hf, h1, hq', hs, hm⟩
    · exact ⟨w, by rw [step, h1], ⟨k, H, R, hq, hheld, hnone⟩, .refl _⟩
    · have hst := hq'.layout.stored c (by simp)
      refine ⟨_, by rw [step, h1], ⟨_, _, R', hq', ?_, fun h => by simp at h⟩, hs⟩
      rw [held_append hs hD (by simp [isHeld, hd, hf]), hheld]
      rw [List.map_singleton, hold, view, ← hs.place, (hst.item hd).2.2.2.2.2]
  | receiveSplit =>
    obtain ⟨k, H, R, hq, hheld, hnone⟩ := h
    by_cases hty : w.rb.type = .allowSplit
    · rcases hq.receiveSplit hty with ⟨_, h1⟩ | ⟨rb', D, c, R', rfl, hD, hd, hf, _, h1, hq', hs, hm⟩ |
        ⟨rb', D, c₁, c₂, R', rfl, hD, hd₁, hf₁, hd₂, hf₂, h1, hq', hs, hm⟩
      · exact ⟨w, by rw [step, if_pos hty, h1], ⟨k, H, R, hq, hheld, hnone⟩, .refl _⟩
      · have hst := hq'.layout.stored c (by simp)
        refine ⟨_, by rw [step, if_pos hty, h1], ⟨_, _, R', hq', ?_, fun h => by simp at h⟩, hs⟩
        rw [held_append hs hD (by simp [isHeld, hd, hf]), hheld]
        rw [List.map_singleton, hold, view, ← hs.place, (hst.item hd).2.2.2.2.2]
      · have hst₁ := hq'.layout.stored c₁ (by simp)
        have hst₂ := hq'.layout.stored c₂ (by simp)
        refine ⟨_, by rw [step, if_pos hty, h1], ⟨_, _, R', hq', ?_, fun h => by simp at h⟩, hs⟩
        rw [held_append hs hD (by simp [isHeld, hd₁, hf₁, hd₂, hf₂]), hheld]
        rw [List.map_cons, List.map_singleton, hold, hold, view, view, ← hs.place, ← hs.place,
          (hst₁.item hd₁).2.2.2.2.2, (hst₂.item hd₂).2.2.2.2.2]
    · exact ⟨w, by rw [step, if_neg hty], ⟨k, H, R, hq, hheld, hnone⟩, .refl _⟩
  | giveBack i =>
    cases hi : w.held[i]? with
    | none => exact ⟨w, by rw [step, hi], h, .refl _⟩
    | some item =>
      obtain ⟨w', h1, h2, hs, _, _⟩ := giveBack_ok h hi hsafe
      exact ⟨w', h1, h2, hs⟩

/-- Every safe run keeps the invariant. -/
lemma run_inv (h : Inv w) {ops : List Op} (hsafe : SafeRun w ops) :
    ∃ w', run w ops = .ok w' ∧ Inv w' := by
  induction ops generalizing w with
  | nil => exact ⟨w, rfl, h⟩
  | cons op ops ih =>
    obtain ⟨hop, hrest⟩ := hsafe
    obtain ⟨w₁, h1, hinv, _⟩ := step_inv h hop
    rw [h1] at hrest
    obtain ⟨w', h2, hinv'⟩ := ih hinv hrest
    exact ⟨w', by rw [run, List.foldlM_cons, h1]; exact h2, hinv'⟩

/-- In every run on a no-split or allow-split buffer in which no item is returned while the
buffer is full, everything in it has been retrieved and another item is held, no check fails,
held items are left alone and returning one frees its space. -/
theorem held_items_intact (mem : Mem) (size storage : ℕ) (type : RingbufferType) (ops : List Op)
    (hsize : 16 ≤ size) (halign : storage % 4 = 0) (hend : storage + size + 3 < 2 ^ 32)
    (hlt : size + 3 < 2 ^ 31) (htype : type ≠ .byteBuf)
    (hsafe : SafeRun ⟨xRingbufferCreate mem size type storage, []⟩ ops) :
    ∃ w, run ⟨xRingbufferCreate mem size type storage, []⟩ ops = .ok w ∧ Intact w := by
  have hup : alignUp size ≤ size + 3 := by rw [alignUp]; omega
  have hinv : Inv ⟨xRingbufferCreate mem size type storage, []⟩ :=
    ⟨_, [], [], create_queue (by omega) (fun _ => by omega) halign (by omega) (by omega)
      htype, rfl, fun _ => rfl⟩
  obtain ⟨w, h1, hw⟩ := run_inv hinv hsafe
  exact ⟨w, h1, hw.intact⟩

/-- Two items fill a buffer of 32 bytes and one is returned before it is full again. -/
theorem held_items_intact_two_items :
    ∃ w, run ⟨xRingbufferCreate (fun _ => 0#8) 32 .noSplit 0x3ffb0000, []⟩
      [.send [1, 2, 3, 4, 5, 6, 7, 8], .receive, .send [9, 10, 11, 12, 13, 14, 15, 16],
        .giveBack 0, .receive, .send [17, 18, 19, 20, 21, 22, 23, 24]] = .ok w ∧ Intact w :=
  held_items_intact _ _ _ _ _ (by decide) (by decide) (by decide) (by decide) (by decide)
    (by decide +kernel)

/-- A run after which the bytes of a held item are not those that were retrieved. -/
lemma exists_not_intact {w₀ : World} {ops : List Op}
    (h : (match run w₀ ops with
      | .ok w => w.held.any fun item => w.rb.mem.read item.1 item.2.length != item.2
      | .error _ => false) = true) : ∃ w, run w₀ ops = .ok w ∧ ¬ Intact w := by
  cases hr : run w₀ ops with
  | error e => simp [hr] at h
  | ok w =>
    rw [hr] at h
    obtain ⟨item, hitem, hne⟩ := List.any_eq_true.mp h
    exact ⟨w, rfl, fun hw => bne_iff_ne.mp hne (hw.unchanged item hitem)⟩

/-- Two items fill a buffer of 32 bytes and both are retrieved.  Returning the second one makes
the whole buffer free, and the next item is stored over the first one. -/
theorem held_item_overwritten :
    ∃ w, run ⟨xRingbufferCreate (fun _ => 0#8) 32 .noSplit 0x3ffb0000, []⟩
      [.send [1, 2, 3, 4, 5, 6, 7, 8], .send [9, 10, 11, 12, 13, 14, 15, 16], .receive, .receive,
        .giveBack 1, .send [17, 18, 19, 20, 21, 22, 23, 24]] = .ok w ∧ ¬ Intact w := by
  apply exists_not_intact
  decide +kernel

end Runs

end EspIdf.RingBuffer.Held
