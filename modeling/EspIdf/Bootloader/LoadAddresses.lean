/-
# Where segments may be loaded

Before a segment is loaded, the bootloader checks that it does not overwrite its own stack, data
and code.  The words of the D/IRAM can be reached through two buses, in reverse order.
-/
import EspIdf.Lib.Signed

namespace EspIdf.Bootloader

open Lib

/-- `bootloader_util_regions_overlap`; `none` if an `assert` fires. -/
def regionsOverlap (start1 end1 start2 end2 : ℤ) : Option Bool :=
  if start1 < end1 ∧ start2 < end2 then some (decide (start2 < end1 ∧ start1 < end2)) else none

/-! ### The memory map of the ESP32 -/

/-- `should_map`. -/
def shouldMap (loadAddr : ℕ) : Bool :=
  (0x400D0000 ≤ loadAddr && loadAddr < 0x40400000) ||
    (0x3F400000 ≤ loadAddr && loadAddr < 0x3F800000)

/-- `esp_ptr_in_dram`. -/
def inDram (p : ℤ) : Prop := 0x3FFAE000 ≤ p ∧ p < 0x40000000

/-- `esp_ptr_in_iram`; `unicore` is `CONFIG_FREERTOS_UNICORE`. -/
def inIram (unicore : Bool) (p : ℤ) : Prop :=
  (if unicore then 0x40078000 else 0x40080000) ≤ p ∧ p < 0x400A0000

/-- `esp_ptr_in_diram_dram`. -/
def inDiramDram (p : ℤ) : Prop := 0x3FFE0000 ≤ p ∧ p < 0x40000000

/-- `esp_ptr_in_diram_iram`. -/
def inDiramIram (p : ℤ) : Prop := 0x400A0000 ≤ p ∧ p < 0x400C0000

/-- `esp_ptr_in_rtc_iram_fast`, `esp_ptr_in_rtc_dram_fast` and `esp_ptr_in_rtc_slow`. -/
def inRtcIramFast (p : ℤ) : Prop := 0x400C0000 ≤ p ∧ p < 0x400C2000
def inRtcDramFast (p : ℤ) : Prop := 0x3FF80000 ≤ p ∧ p < 0x3FF82000
def inRtcSlow (p : ℤ) : Prop := 0x50000000 ≤ p ∧ p < 0x50002000

instance (p : ℤ) : Decidable (inDram p) := inferInstanceAs (Decidable (_ ∧ _))
instance (unicore : Bool) (p : ℤ) : Decidable (inIram unicore p) :=
  inferInstanceAs (Decidable (_ ∧ _))
instance (p : ℤ) : Decidable (inDiramDram p) := inferInstanceAs (Decidable (_ ∧ _))
instance (p : ℤ) : Decidable (inDiramIram p) := inferInstanceAs (Decidable (_ ∧ _))
instance (p : ℤ) : Decidable (inRtcIramFast p) := inferInstanceAs (Decidable (_ ∧ _))
instance (p : ℤ) : Decidable (inRtcDramFast p) := inferInstanceAs (Decidable (_ ∧ _))
instance (p : ℤ) : Decidable (inRtcSlow p) := inferInstanceAs (Decidable (_ ∧ _))

/-- `esp_ptr_diram_dram_to_iram`. -/
def diramDramToIram (p : ℤ) : ℤ := 0x400A0000 + (0x40000000 - p) - 4

/-- `esp_ptr_diram_iram_to_dram`. -/
def diramIramToDram (p : ℤ) : ℤ := 0x3FFE0000 + (0x400C0000 - p) - 4

/-- `SOC_ROM_STACK_START`. -/
def romStackStart : ℤ := 0x3ffe3f20

/-- `STACK_LOAD_HEADROOM`. -/
def stackLoadHeadroom : ℤ := 32768

/-! ### The checks -/

/-- `esp_image_segment_header_t`. -/
structure SegmentHeader where
  loadAddr : ℕ
  dataLen : ℕ
deriving DecidableEq, Repr

/-- `verify_segment_header`. -/
def verifySegmentHeader (segment : SegmentHeader) (segmentDataOffs : ℕ) : Bool :=
  if segment.dataLen % 4 ≠ 0 ∨ 0x1000000 ≤ segment.dataLen then false
  else if shouldMap segment.loadAddr ∧ segmentDataOffs % 0x10000 ≠ segment.loadAddr % 0x10000 then
    false
  else true

/-- Where the linker has put the bootloader: its static data in `dram_seg`, and the code of the
loader in `iram_loader_seg`. -/
structure Linked where
  dramStart : ℤ
  dramEnd : ℤ
  loaderTextStart : ℤ
  loaderTextEnd : ℤ
  dram_ge : 0x3FFF0000 ≤ dramStart
  dram_le : dramEnd ≤ 0x40000000
  loaderText_ge : 0x40078000 ≤ loaderTextStart
  loaderText_le : loaderTextEnd ≤ 0x40080000

variable (l : Linked) (unicore : Bool) (sp : ℤ)

/-- The addresses on the instruction bus of the part of a region that lies in the D/IRAM. -/
def iramLoadAddr (loadAddr : ℤ) : ℤ :=
  if inDiramDram loadAddr then diramDramToIram loadAddr else diramDramToIram 0x3FFE0000
def iramLoadEnd (loadEnd : ℤ) : ℤ :=
  if inDiramDram loadEnd then diramDramToIram loadEnd else diramDramToIram 0x40000000

/-- The addresses on the data bus of the part of a region that lies in the D/IRAM. -/
def dramLoadAddr (loadAddr : ℤ) : ℤ :=
  if inDiramIram loadAddr then diramIramToDram loadAddr else diramIramToDram 0x400A0000
def dramLoadEnd (loadEnd : ℤ) : ℤ :=
  if inDiramIram loadEnd then diramIramToDram loadEnd else diramIramToDram 0x400C0000

/-- The last check of either bus: the part of the region in the D/IRAM is checked at its addresses
on the other bus, which may be in reverse order. -/
def checkOther (recurse : ℤ → ℤ → Option Bool) (loadAddr loadEnd : ℤ) : Option Bool :=
  if loadEnd < loadAddr then recurse loadEnd loadAddr else recurse loadAddr loadEnd

/-- `verify_load_addresses` for a region of the data bus; `none` if an `assert` fires.  `recurse` is
the call for the other bus, if it is to be made. -/
def checkDram (recurse : Option (ℤ → ℤ → Option Bool)) (loadAddr loadEnd : ℤ) : Option Bool := do
  if ← regionsOverlap (sp - stackLoadHeadroom) romStackStart loadAddr loadEnd then
    return false
  else if ← regionsOverlap l.dramStart l.dramEnd loadAddr loadEnd then
    return false
  else
    match recurse with
    | none => return true
    | some recurse =>
      if ← regionsOverlap 0x3FFE0000 0x40000000 loadAddr loadEnd then
        checkOther recurse (iramLoadAddr loadAddr) (iramLoadEnd loadEnd)
      else
        return true

/-- `verify_load_addresses` for a region of the instruction bus. -/
def checkIram (recurse : Option (ℤ → ℤ → Option Bool)) (loadAddr loadEnd : ℤ) : Option Bool := do
  if ← regionsOverlap l.loaderTextStart l.loaderTextEnd loadAddr loadEnd then
    return false
  else
    match recurse with
    | none => return true
    | some recurse =>
      if ← regionsOverlap 0x400A0000 0x400C0000 loadAddr loadEnd then
        checkOther recurse (dramLoadAddr loadAddr) (dramLoadEnd loadEnd)
      else
        return true

/-- The body of `verify_load_addresses`. -/
def checkAddresses (recurse : Option (ℤ → ℤ → Option Bool)) (loadAddr loadEnd : ℤ) :
    Option Bool :=
  if loadEnd = loadAddr then
    some true
  else if ¬ loadAddr < loadEnd then
    none
  else if inDram loadAddr ∧ inDram loadEnd then
    checkDram l sp recurse loadAddr loadEnd
  else if inIram unicore loadAddr ∧ inIram unicore loadEnd then
    checkIram l recurse loadAddr loadEnd
  else if inRtcIramFast loadAddr ∧ inRtcIramFast loadEnd then
    some true
  else if inRtcDramFast loadAddr ∧ inRtcDramFast loadEnd then
    some true
  else if inRtcSlow loadAddr ∧ inRtcSlow loadEnd then
    some true
  else
    -- a bad load address range
    some false

/-- `verify_load_addresses`. -/
def verifyLoadAddresses (noRecurse : Bool) (loadAddr loadEnd : ℤ) : Option Bool :=
  checkAddresses l unicore sp
    (if noRecurse then none else some (checkAddresses l unicore sp none)) loadAddr loadEnd

/-- The checks that a segment has to pass in `process_segment` before it is loaded. -/
def accepted (segment : SegmentHeader) (dataAddr : ℕ) : Prop :=
  verifySegmentHeader segment dataAddr = true ∧
    verifyLoadAddresses l unicore sp false (intptr segment.loadAddr)
      (intptr (u32 (segment.loadAddr + segment.dataLen))) = some true

/-! ### What is accepted -/

variable {l : Linked} {unicore : Bool} {sp : ℤ} {a e : ℤ}

lemma regionsOverlap_bind {s e s' e' : ℤ} {f : Bool → Option Bool}
    (h : (regionsOverlap s e s' e' >>= f) = some true) :
    f (decide (s' < e ∧ s < e')) = some true := by
  unfold regionsOverlap at h
  split_ifs at h
  · exact h
  · cases h

/-- The D/IRAM is not writable through its other bus. -/
lemma checkAddresses_diram {lo hi : ℤ} (h0 : 0x4009FFFC < lo) (h1 : lo < hi) (h2 : 0x400A0000 ≤ hi)
    (h3 : hi < 0x400C0000) : checkAddresses l unicore sp none lo hi ≠ some true := by
  unfold checkAddresses
  have hdram : ¬ (inDram lo ∧ inDram hi) := by
    unfold inDram
    omega
  have hiram : ¬ (inIram unicore lo ∧ inIram unicore hi) := by
    unfold inIram
    omega
  have hrtc : ¬ (inRtcIramFast lo ∧ inRtcIramFast hi) := by
    unfold inRtcIramFast
    omega
  have hfast : ¬ (inRtcDramFast lo ∧ inRtcDramFast hi) := by
    unfold inRtcDramFast
    omega
  have hslow : ¬ (inRtcSlow lo ∧ inRtcSlow hi) := by
    unfold inRtcSlow
    omega
  rw [if_neg (by omega), if_neg (by omega), if_neg hdram, if_neg hiram, if_neg hrtc, if_neg hfast,
    if_neg hslow]
  simp

/-- Where an accepted region lies. -/
inductive Placed (l : Linked) (unicore : Bool) (sp a e : ℤ) : Prop where
  | empty (h : e = a)
  | dram (ge : 0x3FFAE000 ≤ a) (le : e ≤ 0x3FFE0000)
    (stack : romStackStart ≤ a ∨ e ≤ sp - stackLoadHeadroom)
    (data : l.dramEnd ≤ a ∨ e ≤ l.dramStart)
  | iram (ge : 0x40078000 ≤ a) (lt : e < 0x400A0000)
    (loader : l.loaderTextEnd ≤ a ∨ e ≤ l.loaderTextStart)
  | rtcIramFast (ge : 0x400C0000 ≤ a) (lt : e < 0x400C2000)
  | rtcDramFast (ge : 0x3FF80000 ≤ a) (lt : e < 0x3FF82000)
  | rtcSlow (ge : 0x50000000 ≤ a) (lt : e < 0x50002000)

variable {recurse : ℤ → ℤ → Option Bool}

/-- The other bus of the D/IRAM is refused. -/
def Refuses (recurse : ℤ → ℤ → Option Bool) : Prop :=
  ∀ lo hi, 0x4009FFFC < lo → lo < hi → 0x400A0000 ≤ hi → hi < 0x400C0000 →
    recurse lo hi ≠ some true

lemma checkDram_placed (hrec : Refuses recurse) (hae : a + 4 ≤ e) (ha : inDram a) (he : inDram e)
    (h : checkDram l sp (some recurse) a e = some true) : Placed l unicore sp a e := by
  have h := regionsOverlap_bind h
  split_ifs at h with hstack
  · cases h
  have h := regionsOverlap_bind h
  split_ifs at h with hdata
  · cases h
  have h := regionsOverlap_bind h
  simp only [decide_eq_true_eq] at hstack hdata h
  obtain ⟨ha1, ha2⟩ := ha
  obtain ⟨he1, he2⟩ := he
  by_cases hdiram : a < 0x40000000 ∧ 0x3FFE0000 < e
  · -- the addresses on the other bus are no valid load addresses
    exfalso
    have hend : inDiramDram e := ⟨by omega, he2⟩
    rw [if_pos (by omega)] at h
    have hlo : iramLoadEnd e = 0x400A0000 + (0x40000000 - e) - 4 := if_pos hend
    have hhi : iramLoadEnd e < iramLoadAddr a ∧ 0x400A0000 ≤ iramLoadAddr a ∧
        iramLoadAddr a < 0x400C0000 := by
      rw [hlo]
      unfold iramLoadAddr inDiramDram diramDramToIram
      split_ifs <;> omega
    unfold checkOther at h
    rw [if_pos hhi.1] at h
    exact hrec _ _ (by omega) hhi.1 hhi.2.1 hhi.2.2 h
  · exact .dram ha1 (by omega) (by omega) (by omega)

lemma checkIram_placed (ha : inIram unicore a) (he : inIram unicore e)
    (h : checkIram l (some recurse) a e = some true) : Placed l unicore sp a e := by
  have h := regionsOverlap_bind h
  split_ifs at h with hloader
  · cases h
  simp only [decide_eq_true_eq] at hloader
  have hge : 0x40078000 ≤ a := by
    unfold inIram at ha
    split_ifs at ha <;> omega
  exact .iram hge he.2 (by omega)

lemma checkAddresses_placed (hrec : Refuses recurse) (hlen : a < e → a + 4 ≤ e)
    (h : checkAddresses l unicore sp (some recurse) a e = some true) :
    Placed l unicore sp a e ∧ a ≤ e := by
  unfold checkAddresses at h
  split_ifs at h with h0 h1 hdram hiram hrtc hfast hslow
  · exact ⟨.empty h0, by omega⟩
  · exact ⟨checkDram_placed hrec (hlen h1) hdram.1 hdram.2 h, by omega⟩
  · exact ⟨checkIram_placed hiram.1 hiram.2 h, by omega⟩
  · exact ⟨.rtcIramFast hrtc.1.1 hrtc.2.2, by omega⟩
  · exact ⟨.rtcDramFast hfast.1.1 hfast.2.2, by omega⟩
  · exact ⟨.rtcSlow hslow.1.1 hslow.2.2, by omega⟩
  · cases h

/-! ### The words of a segment -/

/-- The word at `w` has a byte in the stack window, in the static data or in the loader. -/
def Touches (l : Linked) (sp w : ℤ) : Prop :=
  (sp - stackLoadHeadroom < w + 4 ∧ w < romStackStart) ∨ (l.dramStart < w + 4 ∧ w < l.dramEnd) ∨
    (l.loaderTextStart < w + 4 ∧ w < l.loaderTextEnd)

instance (l : Linked) (sp w : ℤ) : Decidable (Touches l sp w) :=
  inferInstanceAs (Decidable (_ ∨ _ ∨ _))

/-- The address of a word of the D/IRAM on the other bus. -/
def otherBus (w : ℤ) : Option ℤ :=
  if inDiramDram w then some (diramDramToIram w)
  else if inDiramIram w then some (diramIramToDram w)
  else none

lemma otherBus_eq_none {w : ℤ} (hdram : w < 0x3FFE0000 ∨ 0x40000000 ≤ w)
    (hiram : w < 0x400A0000 ∨ 0x400C0000 ≤ w) : otherBus w = none := by
  unfold otherBus
  rw [if_neg (show ¬ inDiramDram w by unfold inDiramDram; omega),
    if_neg (show ¬ inDiramIram w by unfold inDiramIram; omega)]

/-- No word of the segment, and no word that is the same on the other bus, is used by the
bootloader. -/
def Apart (l : Linked) (sp : ℤ) (segment : SegmentHeader) : Prop :=
  ∀ i < segment.dataLen / 4, ¬ Touches l sp (intptr segment.loadAddr + 4 * i) ∧
    ∀ w, otherBus (intptr segment.loadAddr + 4 * i) = some w → ¬ Touches l sp w

/-- The end of an accepted segment. -/
lemma loadEnd_eq {loadAddr dataLen : ℕ} (hload : loadAddr < 2 ^ 32) (hlen : dataLen < 0x1000000)
    (hle : intptr loadAddr ≤ intptr (u32 (loadAddr + dataLen)))
    (h : intptr (u32 (loadAddr + dataLen)) = intptr loadAddr ∨ 0 ≤ intptr loadAddr) :
    intptr (u32 (loadAddr + dataLen)) = intptr loadAddr + dataLen := by
  have hu : u32 (loadAddr + dataLen) = (loadAddr + dataLen) % 2 ^ 32 := rfl
  unfold intptr at *
  split_ifs at * <;> omega

/-- The segments that are accepted are apart from what the bootloader uses, if its stack is not next
to the RTC memory. -/
theorem accepted_apart (l : Linked) (unicore : Bool) (sp : ℤ) (hsp : 0x3FF8A000 ≤ sp)
    (segment : SegmentHeader) (dataAddr : ℕ) (hload : segment.loadAddr < 2 ^ 32)
    (h : accepted l unicore sp segment dataAddr) : Apart l sp segment := by
  obtain ⟨hheader, haddr⟩ := h
  have hdata : segment.dataLen % 4 = 0 ∧ segment.dataLen < 0x1000000 := by
    unfold verifySegmentHeader at hheader
    split_ifs at hheader
    omega
  have hlen : intptr segment.loadAddr < intptr (u32 (segment.loadAddr + segment.dataLen)) →
      intptr segment.loadAddr + 4 ≤ intptr (u32 (segment.loadAddr + segment.dataLen)) := by
    have hu : u32 (segment.loadAddr + segment.dataLen) =
      (segment.loadAddr + segment.dataLen) % 2 ^ 32 := rfl
    unfold intptr
    split_ifs <;> omega
  obtain ⟨hplaced, hle⟩ := checkAddresses_placed
    (fun lo hi h0 h1 h2 h3 => checkAddresses_diram h0 h1 h2 h3) hlen haddr
  have hsum := loadEnd_eq hload hdata.2 hle
  generalize intptr (u32 (segment.loadAddr + segment.dataLen)) = e at *
  intro i hi
  generalize intptr segment.loadAddr = a at *
  have hw : e = a ∨ 0 ≤ a → a ≤ a + 4 * i ∧ a + 4 * i + 4 ≤ e := by
    intro h
    have := hsum h
    omega
  generalize a + 4 * (i : ℤ) = w at *
  obtain ⟨_, _, _, _, hdram, hdram', htext, htext'⟩ := l
  unfold Touches romStackStart stackLoadHeadroom
  cases hplaced with
  | empty h0 =>
    have := hw (.inl h0)
    omega
  | dram ge le stack data =>
    unfold romStackStart stackLoadHeadroom at stack
    have := hw (.inr (by omega))
    rw [otherBus_eq_none (by omega) (by omega)]
    exact ⟨by simp only at *; omega, by simp⟩
  | iram ge lt loader =>
    have := hw (.inr (by omega))
    rw [otherBus_eq_none (by omega) (by omega)]
    exact ⟨by simp only at *; omega, by simp⟩
  | rtcIramFast ge lt =>
    have := hw (.inr (by omega))
    rw [otherBus_eq_none (by omega) (by omega)]
    exact ⟨by simp only at *; omega, by simp⟩
  | rtcDramFast ge lt =>
    have := hw (.inr (by omega))
    rw [otherBus_eq_none (by omega) (by omega)]
    exact ⟨by simp only at *; omega, by simp⟩
  | rtcSlow ge lt =>
    have := hw (.inr (by omega))
    rw [otherBus_eq_none (by omega) (by omega)]
    exact ⟨by simp only at *; omega, by simp⟩

/-- A bootloader with 16 KB of data and of loader code. -/
def smallLinked : Linked where
  dramStart := 0x3FFF0000
  dramEnd := 0x3FFF4000
  loaderTextStart := 0x40078000
  loaderTextEnd := 0x4007C000
  dram_ge := by decide
  dram_le := by decide
  loaderText_ge := by decide
  loaderText_le := by decide

/-- A segment that ends where the headroom of the stack begins. -/
theorem accepted_apart_dram : Apart smallLinked 0x3FFE3000 ⟨0x3FFD0000, 0xB000⟩ :=
  accepted_apart smallLinked false 0x3FFE3000 (by decide) ⟨0x3FFD0000, 0xB000⟩ 0x20 (by decide)
    ⟨by decide, by decide⟩

/-- With a stack in the RTC memory, a segment is loaded over it. -/
theorem accepted_not_apart :
    ¬ ∀ (l : Linked) (unicore : Bool) (sp : ℤ) (segment : SegmentHeader) (dataAddr : ℕ),
      segment.loadAddr < 2 ^ 32 → accepted l unicore sp segment dataAddr → Apart l sp segment := by
  intro h
  have := h smallLinked false 0x3FF81000 ⟨0x3FF80000, 0x1000⟩ 0x20 (by decide)
    ⟨by decide, by decide⟩ 0 (by decide)
  exact this.1 (by decide)

end EspIdf.Bootloader
