/-
# The calibration of the slow clock

The time since boot is the tick count of the RTC times its calibration.  When the calibration
changes, the boot time is corrected by what the time since boot has jumped, so that the wall clock
goes on.  The correction is a signed product that is divided towards zero.
-/
import Mathlib

namespace EspIdf.Newlib

/-- `RTC_CLK_CAL_FRACT`. -/
def rtcClkCalFract : ℕ := 19

/-- The registers of the RTC that keep the boot time and the calibration. -/
structure RtcRegs where
  bootTimeLow : BitVec 32
  bootTimeHigh : BitVec 32
  slowClkCal : BitVec 32

variable {s : RtcRegs} {ticks : BitVec 64} {cal newCal : BitVec 32}

/-! ### The functions -/

/-- `set_boot_time`. -/
def RtcRegs.setBootTime (s : RtcRegs) (timeUs : BitVec 64) : RtcRegs :=
  { s with
    bootTimeLow := (timeUs &&& 0xffffffff#64).setWidth 32
    bootTimeHigh := (timeUs >>> 32).setWidth 32 }

/-- `get_boot_time`. -/
def RtcRegs.getBootTime (s : RtcRegs) : BitVec 64 :=
  s.bootTimeLow.setWidth 64 + (s.bootTimeHigh.setWidth 64 <<< 32)

/-- `esp_clk_slowclk_cal_get`. -/
def RtcRegs.slowclkCalGet (s : RtcRegs) : BitVec 32 := s.slowClkCal

/-- `get_rtc_time_us` when the RTC has counted `ticks`. -/
def RtcRegs.getRtcTimeUs (s : RtcRegs) (ticks : BitVec 64) : BitVec 64 :=
  let cal := s.slowclkCalGet
  let ticksLow := ticks &&& 0xffffffff#64
  let ticksHigh := ticks >>> 32
  ((ticksLow * cal.setWidth 64) >>> rtcClkCalFract) +
    ((ticksHigh * cal.setWidth 64) <<< (32 - rtcClkCalFract))

/-- `esp_clk_slowclk_cal_set`. -/
def RtcRegs.slowclkCalSet (s : RtcRegs) (ticks : BitVec 64) (newCal : BitVec 32) : RtcRegs :=
  let curCal := s.slowClkCal
  let calDiff := curCal - newCal
  let bootTimeDiff := (ticks * calDiff.signExtend 64).sdiv (1#64 <<< rtcClkCalFract)
  { s.setBootTime (s.getBootTime + bootTimeDiff) with slowClkCal := newCal }

/-- The wall clock: the boot time and the time since boot. -/
def RtcRegs.wallClock (s : RtcRegs) (ticks : BitVec 64) : BitVec 64 :=
  s.getBootTime + s.getRtcTimeUs ticks

/-! ### The time since boot -/

/-- The low word of a number of 64 bits. -/
lemma toNat_lowWord (t : BitVec 64) : (t &&& 0xffffffff#64).toNat = t.toNat % 2 ^ 32 := by
  rw [BitVec.toNat_and]
  exact Nat.and_two_pow_sub_one_eq_mod t.toNat 32

@[simp] lemma getBootTime_setBootTime (t : BitVec 64) : (s.setBootTime t).getBootTime = t := by
  apply BitVec.eq_of_toNat_eq
  have ht := t.isLt
  simp only [RtcRegs.getBootTime, RtcRegs.setBootTime, BitVec.toNat_add, BitVec.toNat_setWidth,
    BitVec.toNat_shiftLeft, toNat_lowWord, BitVec.toNat_ushiftRight, Nat.shiftLeft_eq,
    Nat.shiftRight_eq_div_pow]
  omega

/-- The product is cut at the low word of the tick count, and nothing is lost. -/
lemma getRtcTimeUs_toNat (ht : ticks.toNat < 2 ^ 48) (hc : s.slowClkCal.toNat < 2 ^ 25) :
    (s.getRtcTimeUs ticks).toNat = ticks.toNat * s.slowClkCal.toNat / 2 ^ 19 := by
  have hlow : ticks.toNat % 2 ^ 32 * s.slowClkCal.toNat < 2 ^ 32 * 2 ^ 25 :=
    Nat.mul_lt_mul'' (Nat.mod_lt _ (by decide)) hc
  have hhigh : ticks.toNat / 2 ^ 32 * s.slowClkCal.toNat < 2 ^ 16 * 2 ^ 25 :=
    Nat.mul_lt_mul'' (by omega) hc
  have hsplit : ticks.toNat * s.slowClkCal.toNat =
      2 ^ 32 * (ticks.toNat / 2 ^ 32 * s.slowClkCal.toNat) +
        ticks.toNat % 2 ^ 32 * s.slowClkCal.toNat := by
    rw [← Nat.mul_assoc, ← Nat.add_mul, Nat.div_add_mod]
  have hcal : s.slowClkCal.toNat % 2 ^ 64 = s.slowClkCal.toNat := Nat.mod_eq_of_lt (by omega)
  simp only [RtcRegs.getRtcTimeUs, RtcRegs.slowclkCalGet, rtcClkCalFract, BitVec.toNat_add,
    BitVec.toNat_ushiftRight, BitVec.toNat_shiftLeft, BitVec.toNat_mul, toNat_lowWord,
    BitVec.toNat_setWidth, hcal, Nat.shiftLeft_eq, Nat.shiftRight_eq_div_pow]
  rw [hsplit]
  omega

/-! ### The correction of the boot time -/

/-- The product of the tick count and the change of the calibration. -/
def calProduct (ticks cal newCal : ℕ) : ℤ := (ticks : ℤ) * ((cal : ℤ) - newCal)

lemma calProduct_eq (t c c' : ℕ) : calProduct t c c' = ((t * c : ℕ) : ℤ) - (t * c' : ℕ) := by
  rw [calProduct, Int.mul_sub, Int.natCast_mul, Int.natCast_mul]

/-- Division towards zero by the scale of the calibration. -/
lemma tdiv_scale (x : ℤ) :
    x.tdiv (2 ^ 19) = if 0 ≤ x then x / 2 ^ 19 else -(-x / 2 ^ 19) := by
  split
  · next h => exact Int.tdiv_eq_ediv_of_nonneg h
  · next h =>
    rw [← Int.tdiv_eq_ediv_of_nonneg (show 0 ≤ -x by omega), Int.neg_tdiv, Int.neg_neg]

/-- The product is kept in 64 bits and divided towards zero. -/
lemma toInt_bootTimeDiff (ht : ticks.toNat < 2 ^ 48) (hc : cal.toNat < 2 ^ 25)
    (hn : newCal.toNat < 2 ^ 25) :
    ((ticks * (cal - newCal).signExtend 64).sdiv (1#64 <<< rtcClkCalFract)).toInt =
      ((calProduct ticks.toNat cal.toNat newCal.toNat).bmod (2 ^ 64)).tdiv (2 ^ 19) := by
  have hticks : ticks.toInt = ticks.toNat := by
    rw [BitVec.toInt_eq_toNat_of_lt]
    omega
  have hdiff : (cal - newCal).toInt = (cal.toNat : ℤ) - newCal.toNat := by
    rw [BitVec.toInt_sub, BitVec.toInt_eq_toNat_of_lt (by omega),
      BitVec.toInt_eq_toNat_of_lt (by omega)]
    exact Int.bmod_eq_of_le (by omega) (by omega)
  have hone : (1#64 <<< rtcClkCalFract).toInt = 2 ^ 19 := by decide
  rw [BitVec.toInt_sdiv, BitVec.toInt_mul, BitVec.toInt_signExtend_of_le (by decide), hticks, hdiff,
    hone, ← calProduct]
  have hlow : -2 ^ 63 ≤ (calProduct ticks.toNat cal.toNat newCal.toNat).bmod (2 ^ 64) :=
    Int.le_bmod (by decide)
  have hhigh : (calProduct ticks.toNat cal.toNat newCal.toNat).bmod (2 ^ 64) < 2 ^ 63 :=
    Int.bmod_lt (by decide)
  refine Int.bmod_eq_of_le ?_ ?_
  · rw [tdiv_scale]
    split <;> omega
  · rw [tdiv_scale]
    split <;> omega

/-! ### The wall clock -/

/-- The fractions of a microsecond of the product and of the smaller time give a whole one. -/
def Carries (ticks cal newCal : ℕ) : Prop :=
  2 ^ 19 ≤ (calProduct ticks cal newCal).natAbs % 2 ^ 19 + ticks * min cal newCal % 2 ^ 19

instance (ticks cal newCal : ℕ) : Decidable (Carries ticks cal newCal) :=
  inferInstanceAs (Decidable (_ ≤ _))

/-- A change of the calibration at the tick count `ticks` keeps the time: it is read exactly, and
the wall clock does not go back and goes on by a microsecond at most. -/
structure KeepsTime (s : RtcRegs) (ticks : BitVec 64) (newCal : BitVec 32) : Prop where
  exact_before : (s.getRtcTimeUs ticks).toNat = ticks.toNat * s.slowClkCal.toNat / 2 ^ 19
  exact_after : ((s.slowclkCalSet ticks newCal).getRtcTimeUs ticks).toNat =
    ticks.toNat * newCal.toNat / 2 ^ 19
  le : (s.wallClock ticks).toNat ≤ ((s.slowclkCalSet ticks newCal).wallClock ticks).toNat
  close : ((s.slowclkCalSet ticks newCal).wallClock ticks).toNat ≤ (s.wallClock ticks).toNat + 1

lemma toNat_wallClock (ht : ticks.toNat < 2 ^ 48) (hc : s.slowClkCal.toNat < 2 ^ 25) :
    (s.wallClock ticks).toNat =
      (s.getBootTime.toNat + ticks.toNat * s.slowClkCal.toNat / 2 ^ 19) % 2 ^ 64 := by
  rw [RtcRegs.wallClock, BitVec.toNat_add, getRtcTimeUs_toNat ht hc]

/-- The wall clock after the change. -/
lemma toNat_wallClock_slowclkCalSet (ht : ticks.toNat < 2 ^ 48) (hc : s.slowClkCal.toNat < 2 ^ 25)
    (hn : newCal.toNat < 2 ^ 25) :
    (((s.slowclkCalSet ticks newCal).wallClock ticks).toNat : ℤ) =
      (s.getBootTime.toNat +
        ((calProduct ticks.toNat s.slowClkCal.toNat newCal.toNat).bmod (2 ^ 64)).tdiv (2 ^ 19) +
        (ticks.toNat * newCal.toNat / 2 ^ 19 : ℕ)) % 2 ^ 64 := by
  rw [toNat_wallClock ht (s := s.slowclkCalSet ticks newCal) hn, ← toInt_bootTimeDiff ht hc hn]
  have hboot : (s.slowclkCalSet ticks newCal).getBootTime = s.getBootTime +
      (ticks * (s.slowClkCal - newCal).signExtend 64).sdiv (1#64 <<< rtcClkCalFract) :=
    getBootTime_setBootTime (s := s) _
  rw [hboot, BitVec.toNat_add]
  generalize (ticks * (s.slowClkCal - newCal).signExtend 64).sdiv (1#64 <<< rtcClkCalFract) = d
  have hd := d.isLt
  have hcond := BitVec.toInt_eq_toNat_cond d
  show (((_ % 2 ^ 64 + ticks.toNat * newCal.toNat / 2 ^ 19) % 2 ^ 64 : ℕ) : ℤ) = _
  omega

/-- What the two roundings of the times and the one of the correction add up to.  Products that do
not fit into 64 bits are off by a multiple of `2 ^ 45` microseconds. -/
lemma keeps_iff {b x y : ℕ} (hx : x < 2 ^ 73) (hy : y < 2 ^ 73) {before after : ℤ}
    (hbefore : before = (b + x / 2 ^ 19 : ℕ) % 2 ^ 64)
    (hafter : after =
      (b + ((x - y : ℤ).bmod (2 ^ 64)).tdiv (2 ^ 19) + (y / 2 ^ 19 : ℕ)) % 2 ^ 64) :
    (before ≤ after ∧ after ≤ before + 1) ↔
      (-2 ^ 63 ≤ (x - y : ℤ) ∧ (x - y : ℤ) < 2 ^ 63) ∧
      (2 ^ 19 ≤ (x - y : ℤ).natAbs % 2 ^ 19 + min x y % 2 ^ 19 →
        x < y ∧ before ≠ 2 ^ 64 - 1) := by
  rw [tdiv_scale] at hafter
  by_cases hr : -2 ^ 63 ≤ (x - y : ℤ) ∧ (x - y : ℤ) < 2 ^ 63
  · have hmod : (x - y : ℤ).bmod (2 ^ 64) = x - y :=
      Int.bmod_eq_of_le (by omega) (by omega)
    rw [hmod] at hafter
    rcases Nat.lt_or_ge x y with hlt | hge
    · rw [if_neg (by omega)] at hafter
      rw [Nat.min_eq_left hlt.le]
      omega
    · rw [if_pos (by omega)] at hafter
      rw [Nat.min_eq_right hge]
      omega
  · refine iff_of_false ?_ fun h => hr h.1
    have hlow : -2 ^ 63 ≤ (x - y : ℤ).bmod (2 ^ 64) := Int.le_bmod (by decide)
    have hhigh : (x - y : ℤ).bmod (2 ^ 64) < 2 ^ 63 := Int.bmod_lt (by decide)
    have hwrap := Int.bmod_add_bdiv' (x - y : ℤ) (2 ^ 64)
    generalize (x - y : ℤ).bmod (2 ^ 64) = d at *
    generalize (x - y : ℤ).bdiv (2 ^ 64) = m at *
    split at hafter <;> omega

/-- The wall clock keeps the time when a new calibration is set if and only if the product fits into
64 bits, and the fractions of the two times do not add up to a microsecond, or the calibration
becomes larger and the clock can still go on. -/
theorem slowclkCalSet_keepsTime_iff (ht : ticks.toNat < 2 ^ 48)
    (hc : s.slowClkCal.toNat < 2 ^ 25) (hn : newCal.toNat < 2 ^ 25) :
    KeepsTime s ticks newCal ↔
      (-2 ^ 63 ≤ calProduct ticks.toNat s.slowClkCal.toNat newCal.toNat ∧
        calProduct ticks.toNat s.slowClkCal.toNat newCal.toNat < 2 ^ 63) ∧
      (Carries ticks.toNat s.slowClkCal.toNat newCal.toNat →
        s.slowClkCal.toNat < newCal.toNat ∧ (s.wallClock ticks).toNat ≠ 2 ^ 64 - 1) := by
  have hx : ticks.toNat * s.slowClkCal.toNat < 2 ^ 48 * 2 ^ 25 := Nat.mul_lt_mul'' ht hc
  have hy : ticks.toNat * newCal.toNat < 2 ^ 48 * 2 ^ 25 := Nat.mul_lt_mul'' ht hn
  have hbefore := congrArg (Nat.cast (R := ℤ)) (toNat_wallClock ht hc)
  have hafter := toNat_wallClock_slowclkCalSet ht hc hn
  rw [calProduct_eq] at hafter
  have hiff := keeps_iff hx hy (b := s.getBootTime.toNat) hbefore hafter
  have hsmaller : Carries ticks.toNat s.slowClkCal.toNat newCal.toNat →
      (s.slowClkCal.toNat < newCal.toNat ↔
        ticks.toNat * s.slowClkCal.toNat < ticks.toNat * newCal.toNat) := by
    intro hcarry
    have hpos : 0 < ticks.toNat := by
      rcases Nat.eq_zero_or_pos ticks.toNat with h0 | h0
      · simp [Carries, calProduct, h0] at hcarry
      · exact h0
    exact (Nat.mul_lt_mul_left hpos).symm
  have hcarry : Carries ticks.toNat s.slowClkCal.toNat newCal.toNat ↔
      2 ^ 19 ≤ (((ticks.toNat * s.slowClkCal.toNat : ℕ) : ℤ) -
        (ticks.toNat * newCal.toNat : ℕ)).natAbs % 2 ^ 19 +
        min (ticks.toNat * s.slowClkCal.toNat) (ticks.toNat * newCal.toNat) % 2 ^ 19 := by
    rw [Carries, calProduct_eq, Nat.mul_min_mul_left]
  rw [calProduct_eq]
  constructor
  · intro h
    obtain ⟨hrange, hrest⟩ := hiff.mp ⟨by exact_mod_cast h.le, by exact_mod_cast h.close⟩
    refine ⟨hrange, fun hc' => ?_⟩
    obtain ⟨hlt, hne⟩ := hrest (hcarry.mp hc')
    exact ⟨(hsmaller hc').mpr hlt, fun he => hne (by rw [he]; rfl)⟩
  · rintro ⟨hrange, hrest⟩
    obtain ⟨hle, hclose⟩ := hiff.mpr ⟨hrange, fun hc' => by
      obtain ⟨hlt, hne⟩ := hrest (hcarry.mpr hc')
      exact ⟨(hsmaller (hcarry.mpr hc')).mp hlt, fun he => hne (by omega)⟩⟩
    exact ⟨getRtcTimeUs_toNat ht hc, getRtcTimeUs_toNat ht (s := s.slowclkCalSet ticks newCal) hn,
      by exact_mod_cast hle, by exact_mod_cast hclose⟩

/-- Three ticks after a boot at the time `1000`, with a slow clock of 150 kHz. -/
def threeTicks : RtcRegs where
  bootTimeLow := 1000
  bootTimeHigh := 0
  slowClkCal := 3495254

theorem slowclkCalSet_keepsTime_three :
    (3#64).toNat < 2 ^ 48 ∧ threeTicks.slowClkCal.toNat < 2 ^ 25 ∧ (3495300#32).toNat < 2 ^ 25 ∧
      KeepsTime threeTicks 3 3495300 := by
  refine ⟨by decide, by decide, by decide,
    (slowclkCalSet_keepsTime_iff (by decide) (by decide) (by decide)).mpr ⟨by decide, ?_⟩⟩
  exact fun h => absurd h (by decide)

/-- A slightly smaller calibration turns the wall clock back by a microsecond. -/
theorem slowclkCalSet_turns_back :
    ¬ KeepsTime threeTicks 3 3495200 ∧ (threeTicks.wallClock 3).toNat = 1020 ∧
      ((threeTicks.slowclkCalSet 3 3495200).wallClock 3).toNat = 1019 := by
  refine ⟨fun h => ?_, by decide, by decide⟩
  exact absurd h.le (by decide)

end EspIdf.Newlib
