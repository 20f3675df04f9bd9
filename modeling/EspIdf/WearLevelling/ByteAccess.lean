/-
# Accesses to arbitrary bytes

A transfer is cut into steps of a page counted from its first address.  From an address inside a
page every step reaches into the next page, which lies behind the first one only where the
mapping does not break there.  Transfers therefore see plain bytes exactly when they start at a
page or meet no such break.  A transfer of no bytes is cut into 2³² / page steps.
-/
import EspIdf.WearLevelling.Refinement

namespace EspIdf.WearLevelling

open EspIdf.Lib

variable {w w' : World} {N addr size : ℕ}

/-- `read` returns and `write` programs `size` bytes from `addr` on as a plain memory with the
logical contents does. -/
structure PlainAccess (w : World) (addr size : ℕ) : Prop where
  read_eq : read addr size w = (.ok (Mem.read (view w) addr size), w)
  write_eq : ∀ src, ∃ w', write addr src size w = (.ok (), w') ∧
    Programmed w w' addr (src.read 0 size)

/-- Two worlds that differ in what lies in the data area only. -/
structure SameButData (w w' : World) : Prop where
  wl_eq : w'.wl = w.wl
  chipSize_eq : w'.drv.chipSize = w.drv.chipSize
  secSize_eq : w'.drv.secSize = w.drv.secSize
  mem_eq : ∀ x, w.wl.addrState1 ≤ x → w'.drv.mem x = w.drv.mem x

lemma SameButData.sameSetup (h : SameButData w w') : SameSetup w w' := by
  constructor <;> first | rw [h.wl_eq] | exact h.chipSize_eq | exact h.secSize_eq

/-- The transfer starts at a page, or the mapping breaks at no page that starts inside it. -/
def Unbroken (wl : WlFlash) (addr size : ℕ) : Prop :=
  wl.cfg.pageSize ∣ addr ∨
    ∀ l, addr < l * wl.cfg.pageSize → l * wl.cfg.pageSize < addr + size → ¬ Breaks wl l

/-! ### Enough -/

/-- The pages of an unbroken transfer each lie in order. -/
lemma pieces_of_unbroken (hL : Laid w N) (hm : w.wl.state.moveCount < N)
    (hle : addr + size ≤ w.wl.flashSize) (hu : Unbroken w.wl addr size) : Pieces w addr size := by
  rcases hu with hd | hu
  · exact pieces_of_dvd hL hm hd
  intro i hi
  set page := w.wl.cfg.pageSize with hpg
  have hpos : 0 < page := hL.page_pos
  refine inOrder_of_not_breaks hL hm (Nat.min_le_left _ _) (by omega) fun hreach => ?_
  rw [← hpg] at hreach ⊢
  have hdiv := Nat.div_add_mod (addr + i * page) page
  have hmod := Nat.mod_lt (addr + i * page) hpos
  apply hu
  · rw [Nat.add_mul, Nat.mul_comm]
    omega
  · rw [Nat.add_mul, Nat.mul_comm]
    omega

/-- An unbroken transfer of at least one byte sees plain memory. -/
lemma plainAccess_of_unbroken (hL : Laid w N) (hinit : w.wl.initialized = true)
    (hm : w.wl.state.moveCount < N) (hsize : 0 < size) (hle : addr + size ≤ w.wl.flashSize)
    (hu : Unbroken w.wl addr size) : PlainAccess w addr size := by
  have hp := pieces_of_unbroken hL hm hle hu
  exact ⟨read_inOrder hL hinit hp hsize hle, write_programmed hL hinit hm hp hsize hle⟩

/-! ### What a read returns in any case -/

lemma drvRead_returns {a n : ℕ} {bs : List Byte} (h : drvRead a n w = (.ok bs, w')) :
    bs = w.drv.mem.read a n ∧ w = w' := by
  unfold drvRead at h
  split at h
  · simp [refuse] at h
  · simp only [Prod.mk.injEq, Except.ok.injEq] at h
    exact ⟨h.1.symm, h.2⟩

lemma checkInitialized_returns {u : Unit} (h : checkInitialized w = (.ok u, w')) : w = w' := by
  unfold checkInitialized at h
  rw [Prog.get_bind] at h
  cases hinit : w.wl.initialized with
  | true =>
    rw [if_pos hinit, Prog.pure_apply] at h
    exact (Prod.mk.inj h).2
  | false =>
    rw [if_neg (by simp [hinit])] at h
    simp [Prog.throw] at h

/-- Byte `j` of a read comes from the page that `calcAddr` finds for the step it belongs to. -/
def stepByte (w : World) (addr j : ℕ) : Byte :=
  w.drv.mem (w.wl.cfg.startAddr + calcAddr w.wl (addr + j / w.wl.cfg.pageSize * w.wl.cfg.pageSize) +
    j % w.wl.cfg.pageSize)

/-- A piece of a read that starts with a step. -/
lemma getD_step {i k n : ℕ} (hk : k < n) (hn : n ≤ w.wl.cfg.pageSize) :
    (w.drv.mem.read (w.wl.cfg.startAddr + calcAddr w.wl (addr + i * w.wl.cfg.pageSize)) n).getD k
      0xff#8 = stepByte w addr (i * w.wl.cfg.pageSize + k) := by
  have hpos : 0 < w.wl.cfg.pageSize := by omega
  unfold stepByte
  rw [Mem.getD_read hk, Nat.mul_comm i, Nat.mul_add_div hpos, Nat.div_eq_of_lt (by omega),
    Nat.add_zero, Nat.mul_add_mod, Nat.mod_eq_of_lt (by omega), Nat.mul_comm i]

lemma readPages_returns :
    ∀ {left i : ℕ} {bs : List Byte} {w' : World},
      readPages addr w.wl.cfg.pageSize left i w = (.ok bs, w') →
      w = w' ∧ bs.length = left * w.wl.cfg.pageSize ∧
        ∀ k < bs.length, bs.getD k 0xff#8 = stepByte w addr (i * w.wl.cfg.pageSize + k) := by
  intro left
  induction left with
  | zero =>
    intro i bs w' h
    obtain ⟨rfl, rfl⟩ : [] = bs ∧ w = w' := by
      rw [readPages, Prog.pure_apply] at h
      simpa using h
    exact ⟨rfl, by simp, by simp⟩
  | succ left ih =>
    intro i bs w' h
    rw [readPages, Prog.get_bind] at h
    obtain ⟨cs, w₁, hread, h⟩ := Prog.bind_returns h
    obtain ⟨rfl, rfl⟩ := drvRead_returns hread
    obtain ⟨rest, w₂, hrest, h⟩ := Prog.bind_returns h
    obtain ⟨rfl, hlen, hbytes⟩ := ih hrest
    obtain ⟨rfl, rfl⟩ : _ ++ rest = bs ∧ w = w' := by
      rw [Prog.pure_apply] at h
      simpa using h
    set page := w.wl.cfg.pageSize with hpg
    refine ⟨rfl, ?_, ?_⟩
    · rw [List.length_append, Mem.length_read, hlen, Nat.add_mul, Nat.one_mul, Nat.add_comm]
    · intro k hk
      rw [List.length_append, Mem.length_read] at hk
      by_cases hin : k < page
      · rw [List.getD_append _ _ _ _ (by simpa using hin)]
        exact getD_step hin le_rfl
      · rw [List.getD_append_right _ _ _ _ (by simpa using hin), Mem.length_read,
          hbytes _ (by omega), Nat.add_mul, Nat.one_mul]
        congr 1
        omega

/-- A read that returns has read step by step, and whole pages and a rest. -/
lemma read_returns {bs : List Byte} (h : read addr size w = (.ok bs, w')) :
    bs.length = u32Sub size 1 / w.wl.cfg.pageSize * w.wl.cfg.pageSize +
        u32Sub size (u32Sub size 1 / w.wl.cfg.pageSize * w.wl.cfg.pageSize) ∧
      (u32Sub size (u32Sub size 1 / w.wl.cfg.pageSize * w.wl.cfg.pageSize) ≤ w.wl.cfg.pageSize →
        ∀ k < bs.length, bs.getD k 0xff#8 = stepByte w addr k) := by
  unfold read at h
  obtain ⟨u, w₁, hcheck, h⟩ := Prog.bind_returns h
  obtain rfl := checkInitialized_returns hcheck
  rw [Prog.get_bind] at h
  obtain ⟨front, w₂, hfront, h⟩ := Prog.bind_returns h
  obtain ⟨rfl, hlen, hbytes⟩ := readPages_returns hfront
  rw [Prog.get_bind] at h
  obtain ⟨last, w₃, hlast, h⟩ := Prog.bind_returns h
  obtain ⟨rfl, rfl⟩ := drvRead_returns hlast
  obtain ⟨rfl, rfl⟩ : front ++ _ = bs ∧ w = w' := by
    rw [Prog.pure_apply] at h
    simpa using h
  refine ⟨by rw [List.length_append, hlen, Mem.length_read], fun hn k hk => ?_⟩
  rw [List.length_append, Mem.length_read] at hk
  by_cases hin : k < front.length
  · rw [List.getD_append _ _ _ _ hin, hbytes k hin, Nat.zero_mul, Nat.zero_add]
  · rw [List.getD_append_right _ _ _ _ (by omega), getD_step (by omega) hn, ← hlen]
    congr 1
    omega

/-! ### No more than enough -/

/-- A read of no bytes returns bytes. -/
lemma not_plainAccess_zero (hL : Laid w N) : ¬ PlainAccess w addr 0 := by
  intro h
  have hlen := (read_returns h.read_eq).1
  rw [Mem.length_read] at hlen
  have hpos := hL.page_pos
  have hlt := hL.flashSize_lt
  have hle : 1 * w.wl.cfg.pageSize ≤ N * w.wl.cfg.pageSize := Nat.mul_le_mul_right _ hL.pages_pos
  rw [← hL.flashSize_eq] at hle
  have hcount : 0 < u32Sub 0 1 / w.wl.cfg.pageSize := by
    apply Nat.div_pos _ hpos
    rw [u32Sub]
    omega
  have := Nat.mul_pos hcount hpos
  omega

/-- The world whose data area holds `b` in every cell but `y`. -/
def markedWorld (w : World) (y : ℕ) (b : Byte) : World :=
  w.upd w.wl.tempBuff fun x =>
    if w.wl.addrState1 ≤ x then w.drv.mem x else if x = y then ~~~b else b

lemma sameButData_markedWorld (w : World) (y : ℕ) (b : Byte) :
    SameButData w (markedWorld w y b) where
  wl_eq := rfl
  chipSize_eq := rfl
  secSize_eq := rfl
  mem_eq _ hx := if_pos hx

/-- An address other than the marked one that holds `b` in the state areas holds it anywhere. -/
lemma markedWorld_apply {x y : ℕ} (h : x ≠ y) :
    (markedWorld w y (w.drv.mem x)).drv.mem x = w.drv.mem x := by
  unfold markedWorld World.upd
  simp only [if_neg h, ite_self]

/-- Where the mapping breaks inside a transfer that starts inside a page, the first byte of the
page behind the break is read from elsewhere. -/
lemma calcAddr_ne_of_breaks (hL : Laid w N) (hm : w.wl.state.moveCount < N)
    (hle : addr + size ≤ w.wl.flashSize) (hd : ¬ w.wl.cfg.pageSize ∣ addr) {l : ℕ}
    (hlow : addr < l * w.wl.cfg.pageSize) (hhigh : l * w.wl.cfg.pageSize < addr + size)
    (hb : Breaks w.wl l) :
    calcAddr w.wl (addr + (l * w.wl.cfg.pageSize - addr) / w.wl.cfg.pageSize * w.wl.cfg.pageSize) +
      (l * w.wl.cfg.pageSize - addr) % w.wl.cfg.pageSize ≠ calcAddr w.wl (l * w.wl.cfg.pageSize) := by
  have hpos := hL.page_pos
  have hsize := hL.flashSize_eq
  have hcalc := calcAddr_eq hL hm
  unfold Breaks at hb
  rw [pages_eq hL] at hb
  set page := w.wl.cfg.pageSize with hpg
  clear_value page
  have hoff : addr % page ≠ 0 := fun h => hd (Nat.dvd_of_mod_eq_zero h)
  have hmod := Nat.mod_lt addr hpos
  have hdiv := Nat.div_add_mod addr page
  -- the step that holds the start of page `l` begins in page `l - 1`
  obtain ⟨q, rfl⟩ : ∃ q, l = q + 1 := ⟨l - 1, by
    rcases Nat.eq_zero_or_pos l with rfl | h
    · omega
    · omega⟩
  have hqN : q + 1 < N := by
    by_contra hge
    have := Nat.mul_le_mul_right page (show N ≤ q + 1 by omega)
    omega
  have hle' : addr / page ≤ q := by
    have := Nat.div_lt_of_lt_mul (show addr < page * (q + 1) by rw [Nat.mul_comm]; exact hlow)
    omega
  obtain ⟨d, hdq⟩ := Nat.exists_eq_add_of_le hle'
  have hj : (q + 1) * page - addr = (page - addr % page) + page * d := by
    have : (q + 1) * page = page * (addr / page) + page * d + page := by
      rw [hdq, Nat.mul_comm, Nat.mul_add, Nat.mul_add, Nat.mul_one]
    omega
  have hjdiv : ((q + 1) * page - addr) / page = d := by
    rw [hj, Nat.add_mul_div_left _ _ hpos, Nat.div_eq_of_lt (by omega), Nat.zero_add]
  have hjmod : ((q + 1) * page - addr) % page = page - addr % page := by
    rw [hj, Nat.add_mul_mod_self_left, Nat.mod_eq_of_lt (by omega)]
  have hstart : addr + d * page = addr % page + page * q := by
    rw [hdq, Nat.mul_add, Nat.mul_comm d]
    omega
  have hsdiv : (addr + d * page) / page = q := by
    rw [hstart, Nat.add_mul_div_left _ _ hpos, Nat.div_eq_of_lt hmod, Nat.zero_add]
  have hsmod : (addr + d * page) % page = addr % page := by
    rw [hstart, Nat.add_mul_mod_self_left, Nat.mod_eq_of_lt hmod]
  rw [hjdiv, hjmod, hcalc, hcalc, hsdiv, hsmod, Nat.mul_div_cancel _ hpos, Nat.mul_mod_left]
  intro heq
  have hslot : (slot N w.wl.state.moveCount w.wl.state.pos q + 1) * page =
      slot N w.wl.state.moveCount w.wl.state.pos (q + 1) * page := by
    rw [Nat.add_mul]
    omega
  exact (slot_succ_iff hm hqN).mp (Nat.eq_of_mul_eq_mul_right hpos hslot).symm hb

/-- A broken transfer shows a byte of another page for some contents of the data area. -/
lemma not_plainAccess_of_breaks (hL : Laid w N) (hm : w.wl.state.moveCount < N)
    (hle : addr + size ≤ w.wl.flashSize) (hd : ¬ w.wl.cfg.pageSize ∣ addr) {l : ℕ}
    (hlow : addr < l * w.wl.cfg.pageSize) (hhigh : l * w.wl.cfg.pageSize < addr + size)
    (hb : Breaks w.wl l) :
    ∃ w', SameButData w w' ∧ ¬ PlainAccess w' addr size := by
  have hne := calcAddr_ne_of_breaks hL hm hle hd hlow hhigh hb
  have hpos := hL.page_pos
  have hlt := hL.flashSize_lt
  have hchip := calcAddr_lt hL hm (l * w.wl.cfg.pageSize)
  have hdata := hL.data_le
  set y := w.wl.cfg.startAddr + calcAddr w.wl (l * w.wl.cfg.pageSize) with hy
  set j := l * w.wl.cfg.pageSize - addr with hj
  set x := w.wl.cfg.startAddr + calcAddr w.wl (addr + j / w.wl.cfg.pageSize * w.wl.cfg.pageSize) +
    j % w.wl.cfg.pageSize with hx
  have hxy : x ≠ y := by omega
  refine ⟨markedWorld w y (w.drv.mem x), sameButData_markedWorld _ _ _, fun h => ?_⟩
  obtain ⟨-, hbytes⟩ := read_returns h.read_eq
  -- plain memory holds the marked byte at the start of page `l`
  have hplain : (Mem.read (view (markedWorld w y (w.drv.mem x))) addr size).getD j 0xff#8 =
      ~~~(w.drv.mem x) := by
    rw [Mem.getD_read (by omega), show addr + j = l * w.wl.cfg.pageSize by omega]
    show (if w.wl.addrState1 ≤ y then w.drv.mem y else if y = y then _ else _) = _
    rw [if_neg (by omega), if_pos rfl]
  obtain ⟨hlow', hhigh'⟩ := rest_le hpos (show 0 < size by omega)
  have hbyte := hbytes (by
    rw [u32Sub_of_le (by omega) (show 1 ≤ size by omega)]
    change u32Sub size ((size - 1) / w.wl.cfg.pageSize * w.wl.cfg.pageSize) ≤ w.wl.cfg.pageSize
    rw [u32Sub_of_le (by omega) hlow'.le]
    omega) j (by rw [Mem.length_read]; omega)
  -- and the step reads another address
  have hstep : stepByte (markedWorld w y (w.drv.mem x)) addr j = w.drv.mem x :=
    markedWorld_apply hxy
  rw [hplain, hstep] at hbyte
  exact absurd hbyte (by simp)

/-- A transfer of a driver that is laid out, initialised and in one of its rounds sees plain
memory, whatever the data area holds, exactly when it transfers something and starts at a page or
meets no break of the mapping. -/
theorem plainAccess_iff (hL : Laid w N) (hinit : w.wl.initialized = true)
    (hm : w.wl.state.moveCount < N) (hle : addr + size ≤ w.wl.flashSize) :
    (∀ w', SameButData w w' → PlainAccess w' addr size) ↔ size ≠ 0 ∧ Unbroken w.wl addr size := by
  constructor
  · intro h
    refine ⟨?_, ?_⟩
    · rintro rfl
      exact not_plainAccess_zero hL (h w ⟨rfl, rfl, rfl, fun _ _ => rfl⟩)
    · by_contra hu
      unfold Unbroken at hu
      push Not at hu
      obtain ⟨hd, l, hlow, hhigh, hb⟩ := hu
      obtain ⟨w', hw', hnot⟩ := not_plainAccess_of_breaks hL hm hle hd hlow hhigh hb
      exact hnot (h w' hw')
  · rintro ⟨hsize, hu⟩ w' hw'
    have hset := hw'.sameSetup
    exact plainAccess_of_unbroken (hL.of_sameSetup hset) (by rwa [hw'.wl_eq])
      (by rwa [hw'.wl_eq]) (Nat.pos_of_ne_zero hsize) (by rwa [hset.flashSize])
      (by rwa [hw'.wl_eq])

/-- A new memory is mounted with four pages. -/
lemma mountedWith_sixteen : Mounted (mountedWith 16) 4 := by
  have hgood : GoodConfig (configWith 16) erasedWorld.drv := by
    constructor <;> decide +kernel
  have hconf : config (configWith 16) (fun _ => 0#8) erasedWorld = (.ok (), configuredWith 16) :=
    Prod.ext (by decide +kernel) (by rw [configuredWith])
  have hL := config_laid hgood hconf
  obtain ⟨w₁, hinit, hM, -⟩ := init_format_ok 7 hL (by decide +kernel) (by decide +kernel)
    (by decide +kernel) (by decide +kernel)
  have hw₁ : mountedWith 16 = w₁ := by rw [mountedWith, hinit]
  rw [hw₁]
  exact hM

/-- The first 33 bytes from address 32 on, in a memory that has just been mounted. -/
theorem plainAccess_iff_new :
    (∀ w', SameButData (mountedWith 16) w' → PlainAccess w' 32 33) ↔
      33 ≠ 0 ∧ Unbroken (mountedWith 16).wl 32 33 :=
  plainAccess_iff mountedWith_sixteen.laid mountedWith_sixteen.initialized
    mountedWith_sixteen.state.moveCount_lt (by decide +kernel)

/-- Move the first page and program the first byte of the second one. -/
def moveAndWrite : List Op := [.flush, .write 64 [0x00#8]]

/-- The driver after these operations. -/
def movedAndWritten : World := (runOps (configWith 16) moveAndWrite (mountedWith 16)).2

/-- A read from inside the first page returns a byte of the dummy page in place of the first byte
of the second page. -/
theorem plainAccess_broken_read :
    (runOps (configWith 16) moveAndWrite (mountedWith 16)).1 = .ok [[], []] ∧
      32 + 33 ≤ chipSize movedAndWritten.wl ∧
      (read 32 33 movedAndWritten).1 = .ok (List.replicate 33 0xff#8) ∧
      Mem.read (view movedAndWritten) 32 33 = List.replicate 32 0xff#8 ++ [0x00#8] := by
  refine ⟨?_, ?_, ?_, ?_⟩ <;> decide +kernel

end EspIdf.WearLevelling
