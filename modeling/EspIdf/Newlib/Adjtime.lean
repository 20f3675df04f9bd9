/-
# Slewing the clock

`adjtime` starts a correction of the boot time, of which every later look at the time applies as
much as is due.  `gettimeofday` reads the clock for the correction and then once more for the time.
-/
import Mathlib

namespace EspIdf.Newlib

/-- A `uint64_t`. -/
def u64 (i : ℤ) : ℕ := (i % 2 ^ 64).toNat

/-- A `time_t` of `w` bits and a sign. -/
def timeT (w : ℕ) (i : ℤ) : ℤ := (i + 2 ^ w) % 2 ^ (w + 1) - 2 ^ w

/-- The readings of `get_time_since_boot`, one after the other. -/
abbrev Clock : Type := ℕ → ℕ

/-- `struct timeval`. -/
structure Timeval where
  sec : ℤ
  usec : ℤ
deriving DecidableEq

/-- The boot time and the running correction. -/
structure Adj where
  bootTime : ℕ
  adjtimeStart : ℕ
  adjtimeTotalCorrection : ℤ
  /-- How often the clock has been read. -/
  reads : ℕ

/-- `ADJTIME_CORRECTION_FACTOR`. -/
def adjtimeCorrectionFactor : ℕ := 6

/-- `INT_MAX / 1000000L - 1L`. -/
def maxSec : ℤ := 2146

/-- The clock is read. -/
def Adj.tick (s : Adj) : Adj := { s with reads := s.reads + 1 }

/-- The check at the beginning of `adjust_boot_time`; the clock is not read for a boot time of 0. -/
def Adj.checkStart (clock : Clock) (s : Adj) : Adj :=
  if s.bootTime = 0 then { s with adjtimeStart := 0 }
  else if clock s.reads < s.adjtimeStart then { s.tick with adjtimeStart := 0 }
  else s.tick

/-- `adjust_boot_time`: it returns the boot time that it leaves. -/
def adjustBootTime (clock : Clock) (s : Adj) : Adj :=
  let s := s.checkStart clock
  if s.adjtimeStart > 0 then
    let sinceBoot := clock s.reads
    let s := s.tick
    let correction : ℤ := (sinceBoot >>> adjtimeCorrectionFactor : ℕ) -
      (s.adjtimeStart >>> adjtimeCorrectionFactor : ℕ)
    if correction > 0 then
      if s.adjtimeTotalCorrection < 0 then
        if s.adjtimeTotalCorrection + correction ≥ 0 then
          { s with
            bootTime := u64 (s.bootTime + s.adjtimeTotalCorrection), adjtimeStart := 0 }
        else
          { s with
            adjtimeStart := sinceBoot
            adjtimeTotalCorrection := s.adjtimeTotalCorrection + correction
            bootTime := u64 (s.bootTime - correction) }
      else
        if s.adjtimeTotalCorrection - correction ≤ 0 then
          { s with
            bootTime := u64 (s.bootTime + s.adjtimeTotalCorrection), adjtimeStart := 0 }
        else
          { s with
            adjtimeStart := sinceBoot
            adjtimeTotalCorrection := s.adjtimeTotalCorrection - correction
            bootTime := u64 (s.bootTime + correction) }
    else s
  else s

/-- What is written to `outdelta`. -/
def Adj.outdelta (s : Adj) : Timeval :=
  if s.adjtimeStart ≠ 0 then
    ⟨s.adjtimeTotalCorrection.tdiv 1000000, s.adjtimeTotalCorrection.tmod 1000000⟩
  else ⟨0, 0⟩

/-- The part of `adjtime` for a `delta` that is not `NULL`: the result, and the state. -/
def setDelta (clock : Clock) (s : Adj) (delta : Timeval) : ℤ × Adj :=
  if |delta.sec| > maxSec then (-1, s)
  else
    let s := adjustBootTime clock s
    (0, { s.tick with
      adjtimeStart := clock s.reads
      adjtimeTotalCorrection := delta.sec * 1000000 + delta.usec })

/-- `adjtime`: the result, what is written to `outdelta` if it is not `NULL`, and the state. -/
def adjtime (clock : Clock) (s : Adj) (delta : Option Timeval) (wantOut : Bool) :
    ℤ × Option Timeval × Adj :=
  let s' := if wantOut then adjustBootTime clock s else s
  let out := if wantOut then some s'.outdelta else none
  match delta with
  | none => (0, out, s')
  | some delta => ((setDelta clock s' delta).1, out, (setDelta clock s' delta).2)

/-- `_gettimeofday_r`, with a `time_t` of `w` bits and a sign. -/
def gettimeofday (w : ℕ) (clock : Clock) (s : Adj) : Timeval × Adj :=
  let s := adjustBootTime clock s
  let microseconds := u64 (s.bootTime + clock s.reads)
  (⟨timeT w (microseconds / 1000000 : ℕ), (microseconds % 1000000 : ℕ)⟩, s.tick)

/-! ### One adjustment -/

/-- The correction that is still to be applied. -/
def Adj.outstanding (s : Adj) : ℤ := if s.adjtimeStart ≠ 0 then s.adjtimeTotalCorrection else 0

/-- What is due of the correction at the reading `t`. -/
def Adj.due (s : Adj) (t : ℕ) : ℤ :=
  let elapsed : ℤ := (t / 64 : ℕ) - (s.adjtimeStart / 64 : ℕ)
  if s.adjtimeStart = 0 then 0
  else if s.adjtimeTotalCorrection < 0 then max s.adjtimeTotalCorrection (-elapsed)
  else min s.adjtimeTotalCorrection elapsed

/-- The time that a call would give if every reading in it were `t`. -/
def Adj.timeAt (s : Adj) (t : ℕ) : ℤ := s.bootTime + s.due t + t

/-- What holds of the state while the boot time stays a positive `uint64_t`, with `low` and `high`
to spare. -/
structure Adj.Good (clock : Clock) (low high : ℤ) (s : Adj) : Prop where
  start : s.adjtimeStart ≤ clock s.reads
  low : low < s.bootTime + min s.outstanding 0
  high : s.bootTime + max s.outstanding 0 < high

variable {clock : Clock} {s : Adj} {low high : ℤ} {t : ℕ}

lemma u64_of_range {i : ℤ} (h0 : 0 ≤ i) (h : i < 2 ^ 64) : (u64 i : ℤ) = i := by
  rw [u64, Int.toNat_of_nonneg (Int.emod_nonneg _ (by decide)), Int.emod_eq_of_lt h0 h]

/-- The clock has not gone back behind the start of the correction. -/
lemma checkStart_eq (hlow : 0 ≤ low) (h : s.Good clock low high) :
    s.checkStart clock = s.tick := by
  have h1 := h.low
  have h2 := h.start
  rw [Adj.checkStart, if_neg (by omega), if_neg (by omega)]

/-- What an adjustment leaves when its second reading of the clock is `b`. -/
def Adj.adjusted (s : Adj) (b : ℕ) : Adj where
  bootTime := (s.bootTime + s.due b).toNat
  adjtimeStart :=
    if b / 64 = s.adjtimeStart / 64 then s.adjtimeStart
    else if s.due b = s.adjtimeTotalCorrection then 0 else b
  adjtimeTotalCorrection :=
    if s.due b = s.adjtimeTotalCorrection then s.adjtimeTotalCorrection
    else s.adjtimeTotalCorrection - s.due b
  reads := s.reads + 2

lemma adjustBootTime_idle (hlow : 0 ≤ low) (h : s.Good clock low high)
    (hidle : s.adjtimeStart = 0) : adjustBootTime clock s = s.tick := by
  rw [adjustBootTime, checkStart_eq hlow h]
  exact if_neg (by simp [Adj.tick, hidle])

lemma adjustBootTime_eq (hmono : Monotone clock) (hlow : 0 ≤ low) (hhigh : high ≤ 2 ^ 64)
    (h : s.Good clock low high) (hrun : s.adjtimeStart ≠ 0) :
    adjustBootTime clock s = s.adjusted (clock (s.reads + 1)) := by
  have hstart : s.adjtimeStart ≤ clock (s.reads + 1) :=
    h.start.trans (hmono (Nat.le_succ _))
  have h1 := h.low
  have h2 := h.high
  rw [Adj.outstanding, if_pos hrun] at h1 h2
  have hpos : s.adjtimeStart > 0 := Nat.pos_of_ne_zero hrun
  rw [adjustBootTime, checkStart_eq hlow h]
  simp only [Adj.tick, adjtimeCorrectionFactor, Nat.shiftRight_eq_div_pow, if_pos hpos,
    show (2 : ℕ) ^ 6 = 64 from rfl]
  generalize clock (s.reads + 1) = b at *
  have hu64 : ∀ i : ℤ, 0 ≤ i → i < 2 ^ 64 → u64 i = i.toNat := by
    intro i h0 h
    have := u64_of_range h0 h
    omega
  have hdiv : s.adjtimeStart / 64 ≤ b / 64 := Nat.div_le_div_right hstart
  unfold Adj.adjusted Adj.due
  simp only [if_neg hrun]
  generalize s.adjtimeStart / 64 = k at *
  generalize b / 64 = l at *
  by_cases hdue : ((l : ℤ) - k) > 0
  · have hkl : ¬ l = k := by omega
    rw [if_pos hdue, if_neg hkl]
    by_cases hneg : s.adjtimeTotalCorrection < 0
    · rw [if_pos hneg, if_pos hneg]
      by_cases hlast : s.adjtimeTotalCorrection + (l - k) ≥ 0
      · have hmax : max s.adjtimeTotalCorrection (-(l - k)) = s.adjtimeTotalCorrection := by omega
        rw [if_pos hlast, hmax, if_pos rfl, if_pos rfl, hu64 _ (by omega) (by omega)]
      · have hmax : max s.adjtimeTotalCorrection (-(l - k)) = -(l - k) := by omega
        rw [if_neg hlast, hmax, if_neg (by omega), if_neg (by omega), hu64 _ (by omega) (by omega),
          sub_neg_eq_add, ← sub_eq_add_neg]
    · rw [if_neg hneg, if_neg hneg]
      by_cases hlast : s.adjtimeTotalCorrection - (l - k) ≤ 0
      · have hmin : min s.adjtimeTotalCorrection (l - k) = s.adjtimeTotalCorrection := by omega
        rw [if_pos hlast, hmin, if_pos rfl, if_pos rfl, hu64 _ (by omega) (by omega)]
      · have hmin : min s.adjtimeTotalCorrection (l - k) = l - k := by omega
        rw [if_neg hlast, hmin, if_neg (by omega), if_neg (by omega),
          hu64 _ (by omega) (by omega)]
  · obtain rfl : l = k := by omega
    have hzero : (if s.adjtimeTotalCorrection < 0 then
        max s.adjtimeTotalCorrection (-((l : ℤ) - l)) else
        min s.adjtimeTotalCorrection (l - l)) = 0 := by
      split <;> omega
    rw [if_neg hdue, if_pos rfl, hzero, add_zero, Int.toNat_natCast, sub_zero, ite_self]

lemma due_range (s : Adj) (hle : s.adjtimeStart ≤ t) :
    min s.outstanding 0 ≤ s.due t ∧ s.due t ≤ max s.outstanding 0 := by
  have hdiv : s.adjtimeStart / 64 ≤ t / 64 := Nat.div_le_div_right hle
  unfold Adj.due Adj.outstanding
  by_cases hrun : s.adjtimeStart = 0
  · simp [hrun]
  · simp only [ne_eq, hrun, not_false_eq_true, if_true, if_false]
    generalize s.adjtimeStart / 64 = k at *
    generalize t / 64 = l at *
    split <;> omega

lemma due_eq (hrun : s.adjtimeStart ≠ 0) (t : ℕ) :
    s.due t = if s.adjtimeTotalCorrection < 0 then
        max s.adjtimeTotalCorrection ((s.adjtimeStart / 64 : ℕ) - (t / 64 : ℕ))
      else min s.adjtimeTotalCorrection ((t / 64 : ℕ) - (s.adjtimeStart / 64 : ℕ)) := by
  rw [Adj.due, if_neg hrun, neg_sub]

lemma due_congr {t' : ℕ} (h : t / 64 = t' / 64) : s.due t = s.due t' := by
  rw [Adj.due, Adj.due, h]

/-- What has been applied is neither outstanding nor due any more. -/
lemma adjusted_outstanding {b : ℕ} (hrun : s.adjtimeStart ≠ 0) (hb : s.adjtimeStart ≤ b) :
    (s.adjusted b).outstanding = s.outstanding - s.due b ∧
      (∀ t ≥ b, (s.adjusted b).due t = s.due t - s.due b) ∧ (s.adjusted b).adjtimeStart ≤ b := by
  have hdue := due_eq hrun b
  have hdiv : s.adjtimeStart / 64 ≤ b / 64 := Nat.div_le_div_right hb
  have hout : s.outstanding = s.adjtimeTotalCorrection := if_pos hrun
  by_cases hblock : b / 64 = s.adjtimeStart / 64
  · -- nothing is due within the block of the last adjustment
    have hzero : s.due b = 0 := by
      rw [hdue, hblock]
      split <;> omega
    have hadj : s.adjusted b = { s with
        bootTime := (s.bootTime + s.due b).toNat, reads := s.reads + 2 } := by
      rw [Adj.adjusted, if_pos hblock, hzero, sub_zero, ite_self]
    rw [hadj, hzero, sub_zero]
    exact ⟨rfl, fun t _ => (sub_zero _).symm, hb⟩
  · by_cases hlast : s.due b = s.adjtimeTotalCorrection
    · -- the rest is applied, and nothing is left
      have hstart : (s.adjusted b).adjtimeStart = 0 := by
        rw [Adj.adjusted, if_neg hblock, if_pos hlast]
      refine ⟨?_, fun t ht => ?_, by omega⟩
      · rw [Adj.outstanding, hstart, hout, hlast, sub_self]
        rfl
      · have hdiv' : b / 64 ≤ t / 64 := Nat.div_le_div_right ht
        have hdue' := due_eq hrun t
        have hnone : (s.adjusted b).due t = 0 := by
          rw [Adj.due]
          exact if_pos hstart
        rw [hnone, hdue']
        generalize s.adjtimeStart / 64 = k at *
        generalize b / 64 = l at *
        generalize t / 64 = m at *
        split at hdue <;> rename_i hneg
        · rw [if_pos hneg]
          omega
        · rw [if_neg hneg]
          omega
    · have hstart : (s.adjusted b).adjtimeStart = b := by
        rw [Adj.adjusted, if_neg hblock, if_neg hlast]
      have htotal : (s.adjusted b).adjtimeTotalCorrection =
          s.adjtimeTotalCorrection - s.due b := if_neg hlast
      have hne : (s.adjusted b).adjtimeStart ≠ 0 := by omega
      refine ⟨?_, fun t ht => ?_, hstart.le⟩
      · rw [Adj.outstanding, if_pos hne, htotal, hout]
      · have hdiv' : b / 64 ≤ t / 64 := Nat.div_le_div_right ht
        rw [due_eq hne, due_eq hrun, htotal, hstart, hdue]
        rw [hdue] at hlast
        generalize s.adjtimeStart / 64 = k at *
        generalize b / 64 = l at *
        generalize t / 64 = m at *
        split at hlast <;> rename_i hneg
        · rw [if_pos hneg, if_pos (by omega)]
          omega
        · rw [if_neg hneg, if_neg (by omega)]
          omega

/-- What an adjustment does: it applies what is due at its second reading of the clock, and leaves
everything else as it was. -/
lemma adjustBootTime_spec (hmono : Monotone clock) (hlow : 0 ≤ low) (hhigh : high ≤ 2 ^ 64)
    (h : s.Good clock low high) :
    ∃ b, clock s.reads ≤ b ∧ b ≤ clock (adjustBootTime clock s).reads ∧
      (s.adjtimeStart ≠ 0 → b = clock (s.reads + 1)) ∧
      (adjustBootTime clock s).reads = s.reads + (if s.adjtimeStart = 0 then 1 else 2) ∧
      ((adjustBootTime clock s).bootTime : ℤ) = s.bootTime + s.due b ∧
      (adjustBootTime clock s).outstanding = s.outstanding - s.due b ∧
      (∀ t ≥ b, (adjustBootTime clock s).due t = s.due t - s.due b) ∧
      (adjustBootTime clock s).adjtimeStart ≤ b := by
  by_cases hrun : s.adjtimeStart = 0
  · rw [adjustBootTime_idle hlow h hrun]
    refine ⟨clock s.reads, le_rfl, hmono (Nat.le_succ _), fun hne => absurd hrun hne,
      ?_, ?_, ?_, ?_, ?_⟩ <;> simp [Adj.tick, Adj.due, Adj.outstanding, hrun]
  · have hstart : s.adjtimeStart ≤ clock (s.reads + 1) := h.start.trans (hmono (Nat.le_succ _))
    have hrange := due_range s hstart
    have h1 := h.low
    rw [adjustBootTime_eq hmono hlow hhigh h hrun]
    refine ⟨clock (s.reads + 1), hmono (Nat.le_succ _), hmono (Nat.le_succ _), fun _ => rfl, ?_, ?_,
      adjusted_outstanding hrun hstart⟩
    · rw [if_neg hrun]
      rfl
    · dsimp only [Adj.adjusted]
      omega

lemma Adj.Good.adjust (hmono : Monotone clock) (hlow : 0 ≤ low) (hhigh : high ≤ 2 ^ 64)
    (h : s.Good clock low high) : (adjustBootTime clock s).Good clock low high := by
  obtain ⟨b, hb, hb', -, -, hboot, hout, -, hstart⟩ := adjustBootTime_spec hmono hlow hhigh h
  have hrange := due_range s (h.start.trans hb)
  have h1 := h.low
  have h2 := h.high
  exact ⟨hstart.trans hb', by omega, by omega⟩

/-- The time that is given goes on with the clock. -/
lemma timeAt_mono {t' : ℕ} (htt : t ≤ t') : s.timeAt t ≤ s.timeAt t' := by
  unfold Adj.timeAt
  by_cases hrun : s.adjtimeStart = 0
  · simp only [Adj.due, if_pos hrun]
    omega
  · rw [due_eq hrun, due_eq hrun]
    split <;> omega

lemma timeAt_adjust (hmono : Monotone clock) (hlow : 0 ≤ low) (hhigh : high ≤ 2 ^ 64)
    (h : s.Good clock low high) (ht : clock (adjustBootTime clock s).reads ≤ t) :
    (adjustBootTime clock s).timeAt t = s.timeAt t := by
  obtain ⟨b, -, hb', -, -, hboot, -, hdue, -⟩ := adjustBootTime_spec hmono hlow hhigh h
  rw [Adj.timeAt, Adj.timeAt, hboot, hdue t (hb'.trans ht)]
  omega

/-! ### Calls -/

/-- What holds between two calls: no time that will be given is before `last`. -/
structure Adj.Inv (clock : Clock) (low high last : ℤ) (s : Adj) : Prop where
  good : s.Good clock low high
  last : ∀ t, clock s.reads ≤ t → last ≤ s.timeAt t

variable {last : ℤ}

lemma Adj.Inv.adjust (hmono : Monotone clock) (hlow : 0 ≤ low) (hhigh : high ≤ 2 ^ 64)
    (h : s.Inv clock low high last) : (adjustBootTime clock s).Inv clock low high last := by
  refine ⟨h.good.adjust hmono hlow hhigh, fun t ht => ?_⟩
  obtain ⟨b, hb, hb', -⟩ := adjustBootTime_spec hmono hlow hhigh h.good
  rw [timeAt_adjust hmono hlow hhigh h.good ht]
  exact h.last t ((hb.trans hb').trans ht)

/-- Where a call reads the clock a second time while a negative correction is running, both readings
are in the same block of 64 microseconds. -/
def SameBlock (clock : Clock) (s : Adj) : Prop :=
  s.adjtimeStart ≠ 0 →
    s.adjtimeTotalCorrection + ((clock (s.reads + 1) / 64 : ℕ) - (s.adjtimeStart / 64 : ℕ)) < 0 →
    clock (s.reads + 2) / 64 = clock (s.reads + 1) / 64

/-- The microseconds that a call gives. -/
def micros (clock : Clock) (s : Adj) : ℤ :=
  (adjustBootTime clock s).bootTime + clock (adjustBootTime clock s).reads

/-- A call gives no earlier time than those before it, and no later call gives an earlier one. -/
lemma Adj.Inv.gettimeofday (hmono : Monotone clock) (hlow : 0 ≤ low) (hhigh : high ≤ 2 ^ 64)
    (h : s.Inv clock low high last) (hblock : SameBlock clock s) :
    last ≤ micros clock s ∧
      (adjustBootTime clock s).tick.Inv clock low high (micros clock s) := by
  have hadj := h.adjust hmono hlow hhigh
  have hgood := hadj.good
  obtain ⟨b, hb, hb', hsecond, hreads, hboot, hout, hdue, hstart⟩ :=
    adjustBootTime_spec hmono hlow hhigh h.good
  have hzero : (adjustBootTime clock s).due b = 0 := by
    rw [hdue b le_rfl, sub_self]
  have hlast := h.last b hb
  rw [Adj.timeAt, ← hboot] at hlast
  -- nothing is taken off between the two readings
  have hc : 0 ≤ (adjustBootTime clock s).due (clock (adjustBootTime clock s).reads) := by
    by_contra hneg
    have hrange := due_range _ (hstart.trans hb')
    have hrun : s.adjtimeStart ≠ 0 := by
      intro h0
      rw [adjustBootTime_idle hlow h.good h0] at hneg
      exact hneg (by simp [Adj.due, Adj.tick, h0])
    have hsecond' := hsecond hrun
    rw [if_neg hrun] at hreads
    have hout' : s.outstanding = s.adjtimeTotalCorrection := if_pos hrun
    have hdueb := due_eq hrun b
    have hsame := hblock hrun (by rw [← hsecond']; split at hdueb <;> omega)
    rw [hreads, due_congr hsame, ← hsecond', hzero] at hneg
    exact hneg le_rfl
  refine ⟨by unfold micros; omega, ⟨?_, ?_, ?_⟩, fun t ht => ?_⟩
  · exact hgood.start.trans (hmono (Nat.le_succ _))
  · exact hgood.low
  · exact hgood.high
  · have hnext : clock (adjustBootTime clock s).reads ≤ t :=
      (hmono (Nat.le_succ _)).trans ht
    refine le_trans ?_ (timeAt_mono hnext)
    have htick : (adjustBootTime clock s).tick.timeAt (clock (adjustBootTime clock s).reads) =
        (adjustBootTime clock s).timeAt (clock (adjustBootTime clock s).reads) := rfl
    rw [htick]
    unfold micros Adj.timeAt
    omega

/-- What `adjtime` takes of a `delta`. -/
def Timeval.amount (delta : Timeval) : ℤ := delta.sec * 1000000 + delta.usec

/-- The state that `adjtime` leaves when it takes `delta`. -/
lemma setDelta_eq {delta : Timeval} (hsec : |delta.sec| ≤ maxSec) :
    (setDelta clock s delta).2 = { (adjustBootTime clock s).tick with
      adjtimeStart := clock (adjustBootTime clock s).reads
      adjtimeTotalCorrection := delta.amount } := by
  rw [setDelta, if_neg (not_lt.2 hsec)]
  rfl

/-- A new correction is outstanding as a whole. -/
lemma setDelta_outstanding (hmono : Monotone clock) (hpos : 0 < clock 0) {delta : Timeval}
    (hsec : |delta.sec| ≤ maxSec) : (setDelta clock s delta).2.outstanding = delta.amount := by
  have hne : clock (adjustBootTime clock s).reads ≠ 0 := by
    have := hmono (Nat.zero_le (adjustBootTime clock s).reads)
    omega
  rw [setDelta_eq hsec]
  exact if_pos hne

/-- A new correction takes the place of the old one. -/
lemma Adj.Inv.setDelta (hmono : Monotone clock) (hpos : 0 < clock 0) (hlow : 0 ≤ low)
    (hhigh : high ≤ 2 ^ 64) {delta : Timeval} (hsec : |delta.sec| ≤ maxSec)
    (h : s.Inv clock (low + max (-delta.amount) 0) (high - max delta.amount 0) last) :
    (Newlib.setDelta clock s delta).2.Inv clock low high last := by
  have houtstanding := setDelta_outstanding (s := s) hmono hpos hsec
  have hlow' : 0 ≤ low + max (-delta.amount) 0 := by omega
  have hhigh' : high - max delta.amount 0 ≤ 2 ^ 64 := by omega
  have hadj := h.adjust hmono hlow' hhigh'
  obtain ⟨b, hb, hb', -, -, hboot, hout, hdue, hstart⟩ :=
    adjustBootTime_spec hmono hlow' hhigh' h.good
  have hlast := h.last b hb
  rw [Adj.timeAt, ← hboot] at hlast
  have h1 := hadj.good.low
  have h2 := hadj.good.high
  have hne : clock (adjustBootTime clock s).reads ≠ 0 := by
    have := hmono (Nat.zero_le (adjustBootTime clock s).reads)
    omega
  rw [setDelta_eq hsec] at houtstanding ⊢
  generalize adjustBootTime clock s = s' at *
  refine ⟨⟨hmono (Nat.le_succ _), ?_, ?_⟩, fun t ht => ?_⟩
  · rw [houtstanding]
    dsimp only [Adj.tick]
    omega
  · rw [houtstanding]
    dsimp only [Adj.tick]
    omega
  · -- nothing is due at the moment when the correction starts
    have hle : clock s'.reads ≤ t := (hmono (Nat.le_succ _)).trans ht
    refine le_trans ?_ (timeAt_mono hle)
    have hzero : Adj.due { s'.tick with
        adjtimeStart := clock s'.reads, adjtimeTotalCorrection := delta.amount }
          (clock s'.reads) = 0 := by
      rw [due_eq hne]
      dsimp only
      split <;> omega
    rw [Adj.timeAt, hzero]
    dsimp only [Adj.tick]
    omega

/-! ### Runs -/

inductive Call where
  | adjtime (delta : Option Timeval) (wantOut : Bool)
  | gettimeofday

/-- The state after a call. -/
def Call.run (w : ℕ) (clock : Clock) (s : Adj) : Call → Adj
  | .adjtime delta wantOut => (Newlib.adjtime clock s delta wantOut).2.2
  | .gettimeofday => (Newlib.gettimeofday w clock s).2

/-- The state after some calls. -/
def after (w : ℕ) (clock : Clock) (s : Adj) (calls : List Call) : Adj :=
  calls.foldl (Call.run w clock) s

/-- The results of the calls of `gettimeofday`. -/
def times (w : ℕ) (clock : Clock) : Adj → List Call → List Timeval
  | _, [] => []
  | s, .gettimeofday :: calls =>
    (gettimeofday w clock s).1 :: times w clock (Call.run w clock s .gettimeofday) calls
  | s, call :: calls => times w clock (call.run w clock s) calls

/-- The correction that a call starts. -/
def Call.accepted : Call → Option Timeval
  | .adjtime (some delta) _ => if |delta.sec| ≤ maxSec then some delta else none
  | _ => none

/-- How far the calls ask for the clock to be put back, and forward. -/
def Call.down (call : Call) : ℤ := call.accepted.elim 0 fun delta => max (-delta.amount) 0
def Call.up (call : Call) : ℤ := call.accepted.elim 0 fun delta => max delta.amount 0
def down (calls : List Call) : ℤ := (calls.map Call.down).sum
def up (calls : List Call) : ℤ := (calls.map Call.up).sum

/-- The microseconds from which on they do not fit into a `uint64_t`, or the seconds not into a
`time_t`. -/
def limit (w : ℕ) : ℤ := min (2 ^ 64) (2 ^ w * 1000000)

/-- One time is not after another. -/
def Timeval.le (a b : Timeval) : Prop := a.sec < b.sec ∨ a.sec = b.sec ∧ a.usec ≤ b.usec

/-- The time after `m` microseconds. -/
def timevalOf (m : ℤ) : Timeval := ⟨m / 1000000, m % 1000000⟩

/-- The calls of a run, with a clock that does not go back and does not get beyond `clockMax`, from
a boot time that is larger than the corrections asked for. -/
structure SlewRun (w : ℕ) (clock : Clock) (clockMax : ℕ) (s : Adj) (calls : List Call) : Prop where
  mono : Monotone clock
  pos : 0 < clock 0
  idle : s.adjtimeStart = 0
  boot : down calls < s.bootTime
  max : ∀ n, clock n ≤ clockMax
  fits : s.bootTime + up calls + clockMax < limit w
  smooth : ∀ pre post, calls = pre ++ .gettimeofday :: post → SameBlock clock (after w clock s pre)

/-- What a run of calls shows. -/
structure Slews (w : ℕ) (clock : Clock) (s : Adj) (calls : List Call) : Prop where
  /-- No time is before an earlier one. -/
  times : (times w clock s calls).Pairwise Timeval.le
  /-- An adjustment leaves the boot time and the correction outstanding together as they are. -/
  unchanged : ((adjustBootTime clock (after w clock s calls)).bootTime : ℤ) +
      (adjustBootTime clock (after w clock s calls)).outstanding =
    (after w clock s calls).bootTime + (after w clock s calls).outstanding
  /-- It does not take the correction beyond zero. -/
  overshoot : min (after w clock s calls).outstanding 0 ≤
      (adjustBootTime clock (after w clock s calls)).outstanding ∧
    (adjustBootTime clock (after w clock s calls)).outstanding ≤
      max (after w clock s calls).outstanding 0
  /-- What is written to `outdelta` is the last `delta` without what has been applied since. -/
  reported : ∀ pre delta out post, calls = pre ++ .adjtime (some delta) out :: post →
    |delta.sec| ≤ maxSec → (∀ call ∈ post, call.accepted = none) →
    ∀ next, ∃ tv, (adjtime clock (after w clock s calls) next true).2.1 = some tv ∧
      tv.amount = delta.amount -
        ((adjustBootTime clock (after w clock s calls)).bootTime -
          (after w clock s (pre ++ [.adjtime (some delta) out])).bootTime)

variable {w clockMax : ℕ} {calls : List Call}

lemma timevalOf_le {m m' : ℤ} (h : m ≤ m') : (timevalOf m).le (timevalOf m') := by
  unfold Timeval.le timevalOf
  dsimp only
  omega

/-- What `gettimeofday` gives while everything fits. -/
lemma gettimeofday_eq (h0 : 0 ≤ micros clock s) (hlt : micros clock s < limit w) :
    (gettimeofday w clock s).1 = timevalOf (micros clock s) := by
  unfold limit at hlt
  have hu64 : (u64 ((adjustBootTime clock s).bootTime + clock (adjustBootTime clock s).reads) : ℤ) =
      micros clock s := u64_of_range h0 (lt_of_lt_of_le hlt (min_le_left _ _))
  have hsec : timeT w (micros clock s / 1000000) = micros clock s / 1000000 := by
    have hlt' := lt_of_lt_of_le hlt (min_le_right _ _)
    generalize micros clock s = m at *
    have hpow : (2 : ℤ) ^ (w + 1) = 2 * 2 ^ w := by
      rw [pow_succ, mul_comm]
    have hw : (0 : ℤ) < 2 ^ w := Int.pow_pos (by decide)
    have hdiv : m / 1000000 < 2 ^ w := Int.ediv_lt_of_lt_mul (by decide) hlt'
    rw [timeT, hpow, Int.emod_eq_of_lt] <;> omega
  unfold gettimeofday timevalOf
  dsimp only
  rw [Int.natCast_ediv, Int.natCast_emod, hu64]
  exact congrArg₂ _ hsec rfl

/-- What a call that starts no correction does to the state. -/
lemma run_of_not_accepted {delta : Option Timeval} {wantOut : Bool}
    (h : (Call.adjtime delta wantOut).accepted = none) :
    Call.run w clock s (.adjtime delta wantOut) =
      if wantOut then adjustBootTime clock s else s := by
  unfold Call.run adjtime
  cases delta with
  | none => rfl
  | some delta =>
    have hsec : |delta.sec| > maxSec := by
      by_contra hle
      rw [Call.accepted, if_pos (not_lt.1 hle)] at h
      cases h
    dsimp only
    rw [setDelta, if_pos hsec]

lemma run_of_accepted {delta : Timeval} (wantOut : Bool) (hsec : |delta.sec| ≤ maxSec) :
    (Call.adjtime (some delta) wantOut).accepted = some delta ∧
      Call.run w clock s (.adjtime (some delta) wantOut) =
        (setDelta clock (if wantOut then adjustBootTime clock s else s) delta).2 :=
  ⟨if_pos hsec, rfl⟩

/-- A call of `adjtime` makes no time that will be given earlier. -/
lemma Adj.Inv.adjtime (hmono : Monotone clock) (hpos : 0 < clock 0) (hlow : 0 ≤ low)
    (hhigh : high ≤ 2 ^ 64) (delta : Option Timeval) (wantOut : Bool)
    (h : s.Inv clock (low + (Call.adjtime delta wantOut).down)
      (high - (Call.adjtime delta wantOut).up) last) :
    (Call.run w clock s (.adjtime delta wantOut)).Inv clock low high last := by
  have hadjust : ∀ {low high : ℤ}, 0 ≤ low → high ≤ 2 ^ 64 → s.Inv clock low high last →
      (if wantOut then adjustBootTime clock s else s).Inv clock low high last := by
    intro low high hlow hhigh h
    split
    · exact h.adjust hmono hlow hhigh
    · exact h
  cases hacc : (Call.adjtime delta wantOut).accepted with
  | none =>
    rw [Call.down, Call.up, hacc, Option.elim_none, Option.elim_none, add_zero, sub_zero] at h
    rw [run_of_not_accepted hacc]
    exact hadjust hlow hhigh h
  | some taken =>
    rw [Call.down, Call.up, hacc, Option.elim_some, Option.elim_some] at h
    obtain ⟨rfl, hsec⟩ : delta = some taken ∧ |taken.sec| ≤ maxSec := by
      cases delta with
      | none => cases hacc
      | some delta =>
        rw [Call.accepted] at hacc
        split at hacc
        · cases hacc
          exact ⟨rfl, ‹_›⟩
        · cases hacc
    rw [(run_of_accepted wantOut hsec).2]
    exact Adj.Inv.setDelta hmono hpos hlow hhigh hsec (hadjust (by omega) (by omega) h)

@[simp] lemma down_cons (call : Call) (calls : List Call) :
    down (call :: calls) = down calls + call.down := by
  simp [down, add_comm]

@[simp] lemma up_cons (call : Call) (calls : List Call) :
    up (call :: calls) = up calls + call.up := by
  simp [up, add_comm]

lemma down_up_nonneg (calls : List Call) : 0 ≤ down calls ∧ 0 ≤ up calls := by
  have hcall : ∀ call : Call, 0 ≤ call.down ∧ 0 ≤ call.up := by
    intro call
    unfold Call.down Call.up
    cases call.accepted with
    | none => exact ⟨le_rfl, le_rfl⟩
    | some delta => exact ⟨le_max_right _ _, le_max_right _ _⟩
  induction calls with
  | nil => exact ⟨le_rfl, le_rfl⟩
  | cons call calls ih =>
    have := hcall call
    rw [down_cons, up_cons]
    omega

lemma limit_le (w : ℕ) : limit w ≤ 2 ^ 64 := min_le_left _ _

/-- The times of a run do not go back. -/
lemma times_run (hmono : Monotone clock) (hpos : 0 < clock 0) (hmax : ∀ n, clock n ≤ clockMax) :
    ∀ (calls : List Call) (s : Adj) (last : ℤ),
      s.Inv clock (down calls) (limit w - clockMax - up calls) last →
      (∀ pre post, calls = pre ++ .gettimeofday :: post →
        SameBlock clock (after w clock s pre)) →
      (∃ ms : List ℤ, times w clock s calls = ms.map timevalOf ∧ ms.Pairwise (· ≤ ·) ∧
        ∀ m ∈ ms, last ≤ m) ∧
      (after w clock s calls).Good clock 0 (limit w - clockMax) := by
  intro calls
  induction calls with
  | nil =>
    intro s last h _
    exact ⟨⟨[], rfl, .nil, nofun⟩, by simpa [down, up, after] using h.good⟩
  | cons call calls ih =>
    intro s last h hsmooth
    have hlimit := limit_le w
    obtain ⟨hdown, hup⟩ := down_up_nonneg calls
    have hsmooth' : ∀ pre post, calls = pre ++ .gettimeofday :: post →
        SameBlock clock (after w clock (call.run w clock s) pre) :=
      fun pre post heq => hsmooth (call :: pre) post (by rw [heq, List.cons_append])
    rw [down_cons, up_cons, ← sub_sub] at h
    cases call with
    | adjtime delta wantOut =>
      exact ih _ last (h.adjtime hmono hpos hdown (by omega) delta wantOut) hsmooth'
    | gettimeofday =>
      have hzero : Call.down .gettimeofday = 0 ∧ Call.up .gettimeofday = 0 := ⟨rfl, rfl⟩
      rw [hzero.1, hzero.2, add_zero, sub_zero] at h
      have hblock := hsmooth [] calls rfl
      obtain ⟨hlast, hnext⟩ := h.gettimeofday hmono hdown (by omega) hblock
      obtain ⟨⟨ms, htimes, hms, hle⟩, hgood⟩ := ih _ _ hnext hsmooth'
      have hadj := (h.adjust hmono hdown (by omega)).good
      have h1 := hadj.low
      have h2 := hadj.high
      have hc := hmax (adjustBootTime clock s).reads
      refine ⟨⟨micros clock s :: ms, ?_, List.pairwise_cons.2 ⟨hle, hms⟩, ?_⟩, hgood⟩
      · rw [times, List.map_cons, ← htimes, gettimeofday_eq]
        · rfl
        · unfold micros
          omega
        · unfold micros
          omega
      · intro m hm
        rcases List.mem_cons.1 hm with rfl | hm
        · exact hlast
        · exact hlast.trans (hle m hm)

/-! ### What a run shows -/

lemma outdelta_amount (s : Adj) : s.outdelta.amount = s.outstanding := by
  unfold Adj.outdelta Adj.outstanding Timeval.amount
  split
  · dsimp only
    rw [mul_comm]
    exact Int.mul_tdiv_add_tmod _ _
  · rfl

/-- An adjustment takes nothing away. -/
lemma adjust_conserved (hmono : Monotone clock) (hlow : 0 ≤ low) (hhigh : high ≤ 2 ^ 64)
    (h : s.Good clock low high) :
    ((adjustBootTime clock s).bootTime : ℤ) + (adjustBootTime clock s).outstanding =
      s.bootTime + s.outstanding := by
  obtain ⟨b, -, -, -, -, hboot, hout, -⟩ := adjustBootTime_spec hmono hlow hhigh h
  omega

/-- Calls that start no correction take nothing away. -/
lemma after_conserved (hmono : Monotone clock) (hlow : 0 ≤ low) (hhigh : high ≤ 2 ^ 64) :
    ∀ (calls : List Call) (s : Adj), s.Good clock low high →
      (∀ call ∈ calls, call.accepted = none) →
      ((after w clock s calls).bootTime : ℤ) + (after w clock s calls).outstanding =
        s.bootTime + s.outstanding := by
  intro calls
  induction calls with
  | nil => exact fun _ _ _ => rfl
  | cons call calls ih =>
    intro s h hnone
    have hrun : (call.run w clock s).Good clock low high ∧
        ((call.run w clock s).bootTime : ℤ) + (call.run w clock s).outstanding =
          s.bootTime + s.outstanding := by
      have hadj := h.adjust hmono hlow hhigh
      have hcons := adjust_conserved hmono hlow hhigh h
      cases call with
      | adjtime delta wantOut =>
        rw [run_of_not_accepted (hnone _ List.mem_cons_self)]
        split
        · exact ⟨hadj, hcons⟩
        · exact ⟨h, rfl⟩
      | gettimeofday =>
        exact ⟨⟨hadj.start.trans (hmono (Nat.le_succ _)), hadj.low, hadj.high⟩, hcons⟩
    have hrest := ih (call.run w clock s) hrun.1 fun c hc => hnone c (List.mem_cons_of_mem _ hc)
    exact hrest.trans hrun.2

lemma SlewRun.inv (h : SlewRun w clock clockMax s calls) :
    s.Inv clock (down calls) (limit w - clockMax - up calls) 0 := by
  have hout : s.outstanding = 0 := if_neg (not_not.2 h.idle)
  have hdue : ∀ t, s.due t = 0 := fun t => if_pos h.idle
  have hboot := h.boot
  have hfits := h.fits
  refine ⟨⟨by rw [h.idle]; exact Nat.zero_le _, by rw [hout]; omega, by rw [hout]; omega⟩,
    fun t _ => ?_⟩
  rw [Adj.timeAt, hdue]
  omega

/-- The first calls of a run are a run. -/
lemma SlewRun.of_append {pre post : List Call} (h : SlewRun w clock clockMax s (pre ++ post)) :
    SlewRun w clock clockMax s pre := by
  have hsum : down (pre ++ post) = down pre + down post ∧ up (pre ++ post) = up pre + up post := by
    simp [down, up]
  have hpost := down_up_nonneg post
  have hboot := h.boot
  have hfits := h.fits
  exact ⟨h.mono, h.pos, h.idle, by omega, h.max, by omega, fun p q heq =>
    h.smooth p (q ++ post) (by rw [heq, List.append_assoc, List.cons_append])⟩

lemma SlewRun.good (h : SlewRun w clock clockMax s calls) :
    (after w clock s calls).Good clock 0 (limit w - clockMax) :=
  (times_run h.mono h.pos h.max calls s 0 h.inv h.smooth).2

/-- A run in which no call reads the clock in two different blocks while a negative correction is
running slews exactly, and never turns the clock back. -/
theorem slews_of_run (w : ℕ) (clock : Clock) (clockMax : ℕ) (s : Adj) (calls : List Call)
    (h : SlewRun w clock clockMax s calls) : Slews w clock s calls := by
  have hhigh : limit w - clockMax ≤ 2 ^ 64 := by
    have := limit_le w
    omega
  have hgood := h.good
  have hcons := adjust_conserved h.mono le_rfl hhigh hgood
  obtain ⟨b, hb, -, -, -, -, hout, -⟩ := adjustBootTime_spec h.mono le_rfl hhigh hgood
  have hrange := due_range _ (hgood.start.trans hb)
  refine ⟨?_, hcons, by omega, ?_⟩
  · obtain ⟨⟨ms, htimes, hms, -⟩, -⟩ := times_run h.mono h.pos h.max calls s 0 h.inv h.smooth
    rw [htimes, List.pairwise_map]
    exact hms.imp timevalOf_le
  · rintro pre delta out post rfl hsec hnone next
    have hsplit : pre ++ .adjtime (some delta) out :: post =
        (pre ++ [.adjtime (some delta) out]) ++ post := by simp
    have hafter : ∀ p q, after w clock s (p ++ q) = after w clock (after w clock s p) q :=
      fun p q => List.foldl_append
    rw [hsplit] at h hcons ⊢
    have hset : (after w clock s (pre ++ [.adjtime (some delta) out])).outstanding =
        delta.amount := by
      rw [hafter]
      exact setDelta_outstanding h.mono h.pos hsec
    have hrest := after_conserved (w := w) h.mono le_rfl hhigh post _ h.of_append.good hnone
    rw [hset, ← hafter] at hrest
    have hwritten : ∀ s, (adjtime clock s next true).2.1 =
        some (adjustBootTime clock s).outdelta := by
      intro s
      cases next <;> rfl
    refine ⟨_, hwritten _, ?_⟩
    rw [outdelta_amount]
    omega

/-- A boot time of a millisecond, and no correction. -/
def idleAt1000 : Adj := ⟨1000, 0, 0, 0⟩

/-- The clock is put back by 100 microseconds, and read twice. -/
def backTwice : List Call := [.adjtime (some ⟨0, -100⟩) true, .gettimeofday, .gettimeofday]

theorem slews_of_run_standing : Slews 31 (fun _ => 64) idleAt1000 backTwice :=
  slews_of_run 31 (fun _ => 64) 64 idleAt1000 backTwice
    ⟨fun _ _ _ => le_rfl, by decide, rfl, by decide, fun _ => le_rfl, by decide,
      fun _ _ _ _ _ => rfl⟩

/-- A clock that goes from one block of 64 microseconds to the next one. -/
def tickingClock (n : ℕ) : ℕ := if n < 4 then 63 else 64

/-- The clock ticks between the two readings of the first call, and the second call gives an earlier
time. -/
theorem gettimeofday_turns_back :
    times 31 tickingClock idleAt1000
        [.adjtime (some ⟨0, -100⟩) false, .gettimeofday, .gettimeofday] =
      [⟨0, 1064⟩, ⟨0, 1063⟩] := by
  decide

end EspIdf.Newlib
