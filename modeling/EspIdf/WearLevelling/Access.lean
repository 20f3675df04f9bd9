/-
# Accesses see a plain memory

The logical pages are images of slots of the data area, so an access to one logical page is
an access to its slot, and leaves the other pages alone.  Every operation of a mounted driver
therefore acts on the logical contents as it would act on a plain memory.
-/
import EspIdf.WearLevelling.Moves

namespace EspIdf.WearLevelling

open EspIdf.Lib

variable {w w' : World} {N a n : ℕ} {bs : List Byte}

/-! ### Logical addresses -/

/-- `calcAddr` keeps the offset inside a page and maps the page to its slot. -/
lemma calcAddr_eq (hL : Laid w N) (hm : w.wl.state.moveCount < N) (a : ℕ) :
    calcAddr w.wl a = slot N w.wl.state.moveCount w.wl.state.pos (a / w.wl.cfg.pageSize) *
      w.wl.cfg.pageSize + a % w.wl.cfg.pageSize := by
  have hpage := hL.page_pos
  have hsize := hL.flashSize_eq
  set page := w.wl.cfg.pageSize with hp
  set m := w.wl.state.moveCount with hmc
  have hoff : a % page < page := Nat.mod_lt _ hpage
  have hdiv := Nat.div_add_mod a page
  have hle : m * page ≤ N * page := Nat.mul_le_mul_right _ hm.le
  have hsum : N * page - m * page + a = (N - m + a / page) * page + a % page := by
    rw [Nat.add_mul, Nat.sub_mul, Nat.add_assoc, Nat.mul_comm (a / page), hdiv]
  have hres : (w.wl.flashSize - m * page + a) % w.wl.flashSize =
      rot N m (a / page) * page + a % page := by
    rw [hsize, hsum, Nat.mul_comm N page, Nat.mod_mul]
    have h1 : ((N - m + a / page) * page + a % page) % page = a % page := by
      rw [Nat.mul_comm, Nat.mul_add_mod, Nat.mod_mod]
    have h2 : ((N - m + a / page) * page + a % page) / page = N - m + a / page := by
      rw [Nat.mul_comm, Nat.mul_add_div hpage, Nat.div_eq_of_lt hoff, Nat.add_zero]
    rw [h1, h2, rot, Nat.mul_comm page, Nat.add_comm]
  have hcmp : rot N m (a / page) * page + a % page < w.wl.state.pos * page ↔
      rot N m (a / page) < w.wl.state.pos := by
    constructor
    · intro h
      by_contra hge
      have := Nat.mul_le_mul_right page (Nat.le_of_not_lt hge)
      omega
    · intro h
      have : (rot N m (a / page) + 1) * page ≤ w.wl.state.pos * page := Nat.mul_le_mul_right _ h
      rw [Nat.add_mul] at this
      omega
  unfold calcAddr slot
  simp only [← hmc, ← hp]
  rw [hres]
  by_cases h : rot N m (a / page) < w.wl.state.pos
  · rw [if_pos (hcmp.mpr h), if_pos h]
  · rw [if_neg (fun h' => h (hcmp.mp h')), if_neg h, Nat.add_mul]
    omega

lemma page_lt (hL : Laid w N) (ha : a < w.wl.flashSize) : a / w.wl.cfg.pageSize < N := by
  rw [hL.flashSize_eq] at ha
  exact Nat.div_lt_of_lt_mul (by rwa [Nat.mul_comm])

lemma calcAddr_lt (hL : Laid w N) (hm : w.wl.state.moveCount < N) (a : ℕ) :
    calcAddr w.wl a < (N + 1) * w.wl.cfg.pageSize := by
  rw [calcAddr_eq hL hm a]
  have h1 := slot_bytes_le w.wl.cfg.pageSize
    (slot_le (m := w.wl.state.moveCount) (p := w.wl.state.pos) (l := a / w.wl.cfg.pageSize) hL.pages_pos)
  have h2 := Nat.mod_lt a hL.page_pos
  omega

/-- An address of the slot of `a`'s page is the image of an address of `a`'s page only. -/
lemma calcAddr_same_page (hL : Laid w N) (hm : w.wl.state.moveCount < N) {c : ℕ}
    (hpage : a / w.wl.cfg.pageSize = c / w.wl.cfg.pageSize) :
    calcAddr w.wl c + a % w.wl.cfg.pageSize = calcAddr w.wl a + c % w.wl.cfg.pageSize := by
  rw [calcAddr_eq hL hm a, calcAddr_eq hL hm c, hpage]
  omega

lemma calcAddr_other_page (hL : Laid w N) (hm : w.wl.state.moveCount < N) {c : ℕ}
    (ha : a < w.wl.flashSize) (hc : c < w.wl.flashSize)
    (hpage : a / w.wl.cfg.pageSize ≠ c / w.wl.cfg.pageSize) :
    calcAddr w.wl c + (w.wl.cfg.pageSize - c % w.wl.cfg.pageSize) ≤ calcAddr w.wl a ∨
      calcAddr w.wl a < calcAddr w.wl c - c % w.wl.cfg.pageSize := by
  have hne : slot N w.wl.state.moveCount w.wl.state.pos (a / w.wl.cfg.pageSize) ≠
      slot N w.wl.state.moveCount w.wl.state.pos (c / w.wl.cfg.pageSize) :=
    fun h => hpage (slot_injective hm (page_lt hL ha) (page_lt hL hc) h)
  have h1 := Nat.mod_lt a hL.page_pos
  have h2 := Nat.mod_lt c hL.page_pos
  rw [calcAddr_eq hL hm a, calcAddr_eq hL hm c]
  rcases slot_disjoint w.wl.cfg.pageSize hne with h | h
  · right; omega
  · left; omega

/-- The mapping of logical addresses is an injection into the data area that avoids the
dummy page. -/
lemma calcAddr_injective (hL : Laid w N) (hm : w.wl.state.moveCount < N) {c : ℕ}
    (ha : a < w.wl.flashSize) (hc : c < w.wl.flashSize) (h : calcAddr w.wl a = calcAddr w.wl c) :
    a = c := by
  have h1 := Nat.div_add_mod a w.wl.cfg.pageSize
  have h2 := Nat.div_add_mod c w.wl.cfg.pageSize
  by_cases hpage : a / w.wl.cfg.pageSize = c / w.wl.cfg.pageSize
  · have := calcAddr_same_page hL hm hpage
    rw [hpage] at h1
    omega
  · have h3 := Nat.mod_lt c hL.page_pos
    rcases calcAddr_other_page hL hm ha hc hpage with h | h <;> omega

/-! ### The logical contents after a move -/

/-- A data step does not change the logical contents. -/
lemma view_dataStep (hL : Laid w N) (hs : StateOk w.wl.state w.wl.cfg.version N)
    (hset : SameSetup w w') (hstep : DataStep w w' N) (ha : a < w.wl.flashSize) :
    view w' a = view w a := by
  have hm := hs.moveCount_lt
  unfold view
  rw [hset.cfg]
  cases hstep with
  | count hpos hmove hmem =>
    rw [hmem]
    unfold calcAddr
    rw [hset.flashSize, hset.cfg, hpos, hmove]
  | move hpos hmove hmem =>
    have hL' := hL.of_sameSetup hset
    have hm' : w'.wl.state.moveCount < N := by rw [hmove]; exact nextMove_lt hm
    have hlt := calcAddr_lt hL' hm' a
    have hoff := Nat.mod_lt a hL.page_pos
    have hN := hL.pages_pos
    rw [hset.cfg] at hlt
    rw [hmem _ (by omega) (by omega), calcAddr_eq hL' hm' a, calcAddr_eq hL hm a, hset.cfg, hpos,
      hmove, slot_next hm hs.pos_le (page_lt hL ha)]
    set q := slot N w.wl.state.moveCount w.wl.state.pos (a / w.wl.cfg.pageSize) with hq
    unfold copied
    by_cases hmoved : q = nextSlot N w.wl.state.pos
    · rw [if_pos hmoved, if_pos (by omega), hmoved]
      congr 1
      omega
    · have hhole : q ≠ w.wl.state.pos := slot_ne_hole
      rw [if_neg hmoved, if_neg]
      rcases slot_disjoint w.wl.cfg.pageSize hhole with h | h <;> omega

/-! ### Accesses inside one logical page -/

/-- A change of the data area leaves the driver mounted. -/
lemma Mounted.of_data (hM : Mounted w N) (hset : SameSetup w w') (hwl : w'.wl = w.wl)
    (h : ∀ x, w.wl.addrState1 ≤ x → w'.drv.mem x = w.drv.mem x) : Mounted w' N where
  laid := hM.laid.of_sameSetup hset
  initialized := by rw [hwl]; exact hM.initialized
  state := by rw [hwl]; exact hM.state
  area1 := by
    rw [hwl]
    exact hM.area1.congr hM.laid.wrSize_ge (Nat.le_succ_of_le hM.state.pos_le)
      (fun x hx _ => h x hx) rfl rfl rfl
  area2 := by
    rw [hwl]
    exact hM.area2.congr hM.laid.wrSize_ge (Nat.le_succ_of_le hM.state.pos_le)
      (fun x hx _ => h x (by have := hM.laid.state1_le; omega)) rfl rfl rfl

/-- Bytes that fit behind `c`'s offset lie in `c`'s page. -/
lemma div_eq_of_fits {p c : ℕ} (hp : 0 < p) (hn : c % p + n ≤ p) (ha : c ≤ a ∧ a < c + n) :
    a / p = c / p := by
  have h := Nat.div_add_mod c p
  have hlow : c / p ≤ a / p := Nat.div_le_div_right ha.1
  have hhigh : a / p < c / p + 1 := by
    rw [Nat.div_lt_iff_lt_mul hp, Nat.add_mul, Nat.mul_comm]
    omega
  omega

/-- Whether an address lies in `n` bytes from `c` on is decided in the slot of `c`'s page. -/
lemma calcAddr_mem_iff (hL : Laid w N) (hm : w.wl.state.moveCount < N) {c : ℕ}
    (ha : a < w.wl.flashSize) (hc : c < w.wl.flashSize)
    (hn : c % w.wl.cfg.pageSize + n ≤ w.wl.cfg.pageSize) :
    (calcAddr w.wl c ≤ calcAddr w.wl a ∧ calcAddr w.wl a < calcAddr w.wl c + n) ↔
      (c ≤ a ∧ a < c + n) := by
  have h1 := Nat.div_add_mod a w.wl.cfg.pageSize
  have h2 := Nat.div_add_mod c w.wl.cfg.pageSize
  have h3 := Nat.mod_lt a hL.page_pos
  have h4 := Nat.mod_lt c hL.page_pos
  by_cases hpage : a / w.wl.cfg.pageSize = c / w.wl.cfg.pageSize
  · have := calcAddr_same_page hL hm hpage
    rw [hpage] at h1
    omega
  · have hout : ¬ (c ≤ a ∧ a < c + n) := fun h => hpage (div_eq_of_fits hL.page_pos hn h)
    simp only [hout, iff_false]
    rcases calcAddr_other_page hL hm ha hc hpage with h | h <;> omega

/-- The offset from `c` is the same in the slot. -/
lemma calcAddr_add (hL : Laid w N) (hm : w.wl.state.moveCount < N) {c : ℕ}
    (hn : c % w.wl.cfg.pageSize + n ≤ w.wl.cfg.pageSize) (ha : c ≤ a ∧ a < c + n) :
    calcAddr w.wl a = calcAddr w.wl c + (a - c) := by
  have h2 := Nat.div_add_mod c w.wl.cfg.pageSize
  have h4 := Nat.mod_lt c hL.page_pos
  have hpage := div_eq_of_fits hL.page_pos hn ha
  have h1 := Nat.div_add_mod a w.wl.cfg.pageSize
  have := calcAddr_same_page hL hm hpage
  rw [hpage] at h1
  omega

/-- Bytes that stay inside a logical page stay inside the data area. -/
lemma calcAddr_add_le (hL : Laid w N) (hm : w.wl.state.moveCount < N) {c : ℕ}
    (hn : c % w.wl.cfg.pageSize + n ≤ w.wl.cfg.pageSize) :
    w.wl.cfg.startAddr + calcAddr w.wl c + n ≤ w.wl.addrState1 := by
  have hdata := hL.data_le
  have hslot := slot_bytes_le w.wl.cfg.pageSize (slot_le (m := w.wl.state.moveCount)
    (p := w.wl.state.pos) (l := c / w.wl.cfg.pageSize) hL.pages_pos)
  rw [calcAddr_eq hL hm c]
  omega

lemma addrState1_le_chip (hL : Laid w N) : w.wl.addrState1 ≤ w.drv.chipSize := by
  have h1 := hL.state1_le
  have h2 := hL.state2_le
  have h3 := hL.cfg_le
  omega

/-- Erasing a sector inside a logical page. -/
lemma drvEraseSector_page (hM : Mounted w N) {c : ℕ} (hc : c < w.wl.flashSize)
    (hd : w.wl.cfg.sectorSize ∣ c) :
    ∃ w', drvEraseSector ((w.wl.cfg.startAddr + calcAddr w.wl c) / w.wl.cfg.sectorSize) w =
        (.ok (), w') ∧ Mounted w' N ∧ SameSetup w w' ∧ w'.wl.state = w.wl.state ∧
      ∀ a < w.wl.flashSize, view w' a = Mem.erase (view w) c w.wl.cfg.sectorSize a := by
  have hL := hM.laid
  have hm := hM.state.moveCount_lt
  have hsec := hL.sector_pos
  -- the sector of an aligned address lies inside its page
  have hn : c % w.wl.cfg.pageSize + w.wl.cfg.sectorSize ≤ w.wl.cfg.pageSize := by
    obtain ⟨k, hk⟩ := hL.page_dvd
    obtain ⟨j, hj⟩ := hd
    have hlt := Nat.mod_lt c hL.page_pos
    rw [hk, hj, Nat.mul_mod_mul_left] at hlt ⊢
    have hjk : j % k < k := Nat.lt_of_mul_lt_mul_left hlt
    calc w.wl.cfg.sectorSize * (j % k) + w.wl.cfg.sectorSize
        = w.wl.cfg.sectorSize * (j % k + 1) := by rw [Nat.mul_add, Nat.mul_one]
      _ ≤ w.wl.cfg.sectorSize * k := Nat.mul_le_mul_left _ hjk
  have hin := calcAddr_add_le hL hm hn
  have hchip := addrState1_le_chip hL
  have hdvd : w.wl.cfg.sectorSize ∣ w.wl.cfg.startAddr + calcAddr w.wl c := by
    refine Nat.dvd_add hL.start_dvd ?_
    rw [calcAddr_eq hL hm c]
    exact Nat.dvd_add (Dvd.dvd.mul_left hL.page_dvd _) ((Nat.dvd_mod_iff hL.page_dvd).mpr hd)
  have haddr : (w.wl.cfg.startAddr + calcAddr w.wl c) / w.wl.cfg.sectorSize * w.drv.secSize =
      w.wl.cfg.startAddr + calcAddr w.wl c := by
    rw [hL.secSize_eq]
    exact Nat.div_mul_cancel hdvd
  have hrun : drvEraseSector ((w.wl.cfg.startAddr + calcAddr w.wl c) / w.wl.cfg.sectorSize) w =
      (.ok (), w.upd w.wl.tempBuff (w.drv.mem.erase (w.wl.cfg.startAddr + calcAddr w.wl c)
        w.wl.cfg.sectorSize)) := by
    unfold drvEraseSector
    rw [Prog.get_bind, haddr, hL.secSize_eq]
    exact drvEraseRange_ok (by omega) (by rw [hL.secSize_eq]) (by rw [hL.secSize_eq]; exact hdvd)
  refine ⟨_, hrun, hM.of_data (SameSetup.upd rfl) rfl ?_, SameSetup.upd rfl, rfl, ?_⟩
  · intro x hx
    exact Mem.erase_of_not_mem (by omega)
  · intro a ha
    have hiff := calcAddr_mem_iff hL hm ha hc hn
    show Mem.erase w.drv.mem (w.wl.cfg.startAddr + calcAddr w.wl c) w.wl.cfg.sectorSize
      (w.wl.cfg.startAddr + calcAddr w.wl a) = _
    by_cases hmem : c ≤ a ∧ a < c + w.wl.cfg.sectorSize
    · have hmem' := hiff.mpr hmem
      rw [Mem.erase_of_mem hmem, Mem.erase_of_mem (by omega)]
    · have hmem' := fun h => hmem (hiff.mp h)
      rw [Mem.erase_of_not_mem hmem, Mem.erase_of_not_mem (by omega)]
      rfl

/-! ### Accesses to bytes that lie in order -/

/-- The `n` bytes from `c` on lie one behind the other in the data area. -/
structure InOrder (w : World) (c n : ℕ) : Prop where
  add : ∀ i < n, calcAddr w.wl (c + i) = calcAddr w.wl c + i
  le : w.wl.cfg.startAddr + calcAddr w.wl c + n ≤ w.wl.addrState1

lemma InOrder.congr {c : ℕ} (h : InOrder w c n) (hwl : w'.wl = w.wl) : InOrder w' c n :=
  ⟨by rw [hwl]; exact h.add, by rw [hwl]; exact h.le⟩

/-- Bytes that stay inside a logical page lie in order. -/
lemma inOrder_of_fits (hL : Laid w N) (hm : w.wl.state.moveCount < N) {c : ℕ}
    (hn : c % w.wl.cfg.pageSize + n ≤ w.wl.cfg.pageSize) : InOrder w c n where
  add i hi := by
    have h := calcAddr_add hL hm hn (a := c + i) ⟨by omega, by omega⟩
    rwa [Nat.add_sub_cancel_left] at h
  le := calcAddr_add_le hL hm hn

/-- The page before `l` does not lie right before it: `l` is the first page of the rotation, or
the dummy page lies between them. -/
def Breaks (wl : WlFlash) (l : ℕ) : Prop :=
  rot (wl.flashSize / wl.cfg.pageSize) wl.state.moveCount l = 0 ∨
    rot (wl.flashSize / wl.cfg.pageSize) wl.state.moveCount l = wl.state.pos

instance (wl : WlFlash) (l : ℕ) : Decidable (Breaks wl l) := inferInstanceAs (Decidable (_ ∨ _))

lemma pages_eq (hL : Laid w N) : w.wl.flashSize / w.wl.cfg.pageSize = N := by
  rw [hL.flashSize_eq, Nat.mul_div_cancel _ hL.page_pos]

/-- Two consecutive pages lie in consecutive slots where the mapping does not break. -/
lemma slot_succ_iff {m p l : ℕ} (hm : m < N) (hl : l + 1 < N) :
    slot N m p (l + 1) = slot N m p l + 1 ↔ ¬ (rot N m (l + 1) = 0 ∨ rot N m (l + 1) = p) := by
  have h1 := rot_eq hm (show l < N by omega)
  have h2 := rot_eq hm hl
  unfold slot
  split at h1 <;> split at h2 <;> split <;> split <;> omega

/-- Bytes that reach into the next page lie in order where the mapping does not break. -/
lemma inOrder_of_not_breaks (hL : Laid w N) (hm : w.wl.state.moveCount < N) {c : ℕ}
    (hn : n ≤ w.wl.cfg.pageSize) (hle : c + n ≤ w.wl.flashSize)
    (hb : w.wl.cfg.pageSize < c % w.wl.cfg.pageSize + n → ¬ Breaks w.wl (c / w.wl.cfg.pageSize + 1)) :
    InOrder w c n := by
  by_cases hfits : c % w.wl.cfg.pageSize + n ≤ w.wl.cfg.pageSize
  · exact inOrder_of_fits hL hm hfits
  have hbreak := hb (by omega)
  unfold Breaks at hbreak
  rw [pages_eq hL] at hbreak
  set page := w.wl.cfg.pageSize with hp
  have hpage : 0 < page := hL.page_pos
  have hsize : w.wl.flashSize = N * page := hL.flashSize_eq
  have hdata : w.wl.cfg.startAddr + (N + 1) * page ≤ w.wl.addrState1 := hL.data_le
  have hc := Nat.div_add_mod c page
  have hmod := Nat.mod_lt c hpage
  set l := c / page with hl
  clear_value page l
  have hlN : l + 1 < N := by
    by_contra hge
    have : N * page ≤ (l + 1) * page := Nat.mul_le_mul_right _ (by omega)
    rw [Nat.add_mul, Nat.mul_comm l] at this
    omega
  have hslot := (slot_succ_iff (p := w.wl.state.pos) hm hlN).mpr hbreak
  have hcalc := calcAddr_eq hL hm c
  rw [← hp, ← hl] at hcalc
  constructor
  · intro i hi
    by_cases hin : c % page + i < page
    · have h := calcAddr_add hL hm (c := c) (n := i + 1) (by rw [← hp]; omega) (a := c + i)
        ⟨by omega, by omega⟩
      rwa [Nat.add_sub_cancel_left] at h
    · -- the byte lies in the next page
      have hci : c + i = (c % page + i - page) + page * (l + 1) := by
        rw [Nat.mul_add, Nat.mul_one]
        omega
      have hdiv : (c + i) / page = l + 1 := by
        rw [hci, Nat.add_mul_div_left _ _ hpage, Nat.div_eq_of_lt (by omega), Nat.zero_add]
      have hrem : (c + i) % page = c % page + i - page := by
        rw [hci, Nat.add_mul_mod_self_left, Nat.mod_eq_of_lt (by omega)]
      rw [calcAddr_eq hL hm (c + i), ← hp, hdiv, hrem, hslot, hcalc, Nat.add_mul]
      omega
  · have hend := slot_bytes_le page (slot_le (m := w.wl.state.moveCount) (p := w.wl.state.pos)
      (l := l + 1) hL.pages_pos)
    rw [hslot, Nat.add_mul] at hend
    rw [hcalc]
    omega

/-- The bytes `bs` have been programmed at the logical addresses from `addr` on, and nothing
else has changed. -/
structure Programmed (w w' : World) (addr : ℕ) (bs : List Byte) : Prop where
  wl_eq : w'.wl = w.wl
  chipSize_eq : w'.drv.chipSize = w.drv.chipSize
  secSize_eq : w'.drv.secSize = w.drv.secSize
  view_eq : ∀ a < w.wl.flashSize, view w' a = Mem.program (view w) addr bs a
  others : ∀ x, (∀ i < bs.length, x ≠ w.wl.cfg.startAddr + calcAddr w.wl (addr + i)) →
    w'.drv.mem x = w.drv.mem x

lemma Programmed.nil (w : World) (addr : ℕ) : Programmed w w addr [] where
  wl_eq := rfl
  chipSize_eq := rfl
  secSize_eq := rfl
  view_eq a _ := (Mem.program_of_not_mem (by simp)).symm
  others _ _ := rfl

lemma Programmed.append {w₁ w₂ : World} {addr : ℕ} {cs : List Byte}
    (h : Programmed w w₁ addr bs) (h' : Programmed w₁ w₂ (addr + bs.length) cs) :
    Programmed w w₂ addr (bs ++ cs) where
  wl_eq := h'.wl_eq.trans h.wl_eq
  chipSize_eq := h'.chipSize_eq.trans h.chipSize_eq
  secSize_eq := h'.secSize_eq.trans h.secSize_eq
  view_eq a ha := by
    rw [h'.view_eq a (by rwa [h.wl_eq]), ← Mem.program_program]
    unfold Mem.program
    simp only [h.view_eq a ha]
    rfl
  others x hx := by
    rw [h'.others x, h.others x]
    · intro i hi
      exact hx i (by rw [List.length_append]; omega)
    · intro i hi
      have := hx (bs.length + i) (by rw [List.length_append]; omega)
      rwa [h.wl_eq, Nat.add_assoc]

/-- Programming does not reach the state areas. -/
lemma Programmed.state_eq {addr : ℕ} (h : Programmed w w' addr bs) (hL : Laid w N)
    (hm : w.wl.state.moveCount < N) {x : ℕ} (hx : w.wl.addrState1 ≤ x) :
    w'.drv.mem x = w.drv.mem x := by
  refine h.others x fun i _ => ?_
  have := calcAddr_lt hL hm (addr + i)
  have := hL.data_le
  omega

lemma Programmed.sameSetup {addr : ℕ} (h : Programmed w w' addr bs) : SameSetup w w' := by
  constructor <;> first | rw [h.wl_eq] | exact h.chipSize_eq | exact h.secSize_eq

lemma Programmed.mounted {addr : ℕ} (h : Programmed w w' addr bs) (hM : Mounted w N) :
    Mounted w' N :=
  hM.of_data h.sameSetup h.wl_eq fun _ hx => h.state_eq hM.laid hM.state.moveCount_lt hx

/-- Programming bytes that lie in order. -/
lemma drvWrite_inOrder (hL : Laid w N) (hm : w.wl.state.moveCount < N) {c : ℕ}
    (hc : InOrder w c bs.length) (hle : c + bs.length ≤ w.wl.flashSize) :
    ∃ w', drvWrite (w.wl.cfg.startAddr + calcAddr w.wl c) bs w = (.ok (), w') ∧
      Programmed w w' c bs := by
  have hin := hc.le
  have hchip := addrState1_le_chip hL
  refine ⟨_, drvWrite_ok (by omega), rfl, rfl, rfl, ?_, ?_⟩
  · intro a ha
    show Mem.program w.drv.mem (w.wl.cfg.startAddr + calcAddr w.wl c) bs
      (w.wl.cfg.startAddr + calcAddr w.wl a) = _
    by_cases hmem : c ≤ a ∧ a < c + bs.length
    · have hadd := hc.add (a - c) (by omega)
      rw [Nat.add_sub_cancel' hmem.1] at hadd
      rw [Mem.program_of_mem hmem, Mem.program_of_mem (by omega), hadd,
        show w.wl.cfg.startAddr + (calcAddr w.wl c + (a - c)) -
          (w.wl.cfg.startAddr + calcAddr w.wl c) = a - c by omega, view, hadd]
    · rw [Mem.program_of_not_mem hmem, Mem.program_of_not_mem]
      · rfl
      · -- the image of an address outside is no image of one inside
        rintro ⟨hlow, hhigh⟩
        have hadd := hc.add (calcAddr w.wl a - calcAddr w.wl c) (by omega)
        have := calcAddr_injective hL hm ha (c := c + (calcAddr w.wl a - calcAddr w.wl c))
          (by omega) (by omega)
        omega
  · intro x hx
    refine Mem.program_of_not_mem ?_
    rintro ⟨hlow, hhigh⟩
    have hadd := hc.add (x - (w.wl.cfg.startAddr + calcAddr w.wl c)) (by omega)
    have := hx (x - (w.wl.cfg.startAddr + calcAddr w.wl c)) (by omega)
    omega

/-- Reading bytes that lie in order. -/
lemma drvRead_inOrder (hL : Laid w N) {c : ℕ} (hc : InOrder w c n) :
    drvRead (w.wl.cfg.startAddr + calcAddr w.wl c) n w = (.ok (Mem.read (view w) c n), w) := by
  have hin := hc.le
  have hchip := addrState1_le_chip hL
  rw [drvRead_ok (by omega)]
  congr 2
  apply Mem.read_congr
  intro i hi
  rw [view, hc.add i hi, Nat.add_assoc]

end EspIdf.WearLevelling
