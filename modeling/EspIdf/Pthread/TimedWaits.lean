/-
# Timed waits

`pthread_mutex_timedlock` and `pthread_cond_timedwait` wait until an absolute time.  Each computes
the milliseconds that are left in a `long`, and the ticks from them; the first one converts the
milliseconds to an unsigned number before it divides, whether or not the time has passed.
-/
import EspIdf.Pthread.CondVar

namespace EspIdf.Pthread

/-- `struct timespec`, with nanoseconds that are valid. -/
structure Timespec where
  sec : ℤ
  nsec : ℤ
  nsec_nonneg : 0 ≤ nsec
  nsec_lt : nsec < 1000000000

/-- `portTICK_PERIOD_MS`, which is `1000 / configTICK_RATE_HZ`. -/
structure TickPeriod where
  ms : ℤ
  pos : 1 ≤ ms
  le : ms ≤ 1000

/-- `portMAX_DELAY`. -/
def portMaxDelay : ℤ := 2 ^ 32 - 1

/-- The milliseconds that `pthread_mutex_timedlock` computes, in a `long`. -/
def timedlockMsec (timeout currtime : Timespec) : ℤ :=
  ((timeout.sec - currtime.sec) * 1000 + (timeout.nsec - currtime.nsec).tdiv 1000000).bmod (2 ^ 32)

/-- `tmo` of `pthread_mutex_timedlock`: the division is one of unsigned numbers. -/
def timedlockTicks (p : TickPeriod) (timeout currtime : Timespec) : ℤ :=
  timedlockMsec timeout currtime % 2 ^ 32 / p.ms

/-- The deadline of `pthread_cond_timedwait`. -/
def Timespec.toTimeval (t : Timespec) : Timeval := ⟨t.sec, t.nsec.tdiv 1000⟩

/-- `timeout_ticks` of `pthread_cond_timedwait`, or 0 where it returns without waiting. -/
def timedwaitTicks (p : TickPeriod) (deadline : Timespec) (cur : Timeval) : ℤ :=
  let timeoutMsec :=
    if deadline.toTimeval.before cur then 0 else deadline.toTimeval.msecSince cur
  if timeoutMsec ≤ 0 then 0 else timeoutMsec.tdiv p.ms

/-- The time in nanoseconds that is left until a deadline. -/
def Timespec.remaining (deadline cur : Timespec) : ℤ :=
  (deadline.sec - cur.sec) * 1000000000 + (deadline.nsec - cur.nsec)

/-- A thread does not block if nothing is left of the time, and otherwise for about as long as
there is left. -/
def WaitRight (p : TickPeriod) (remaining ticks : ℤ) : Prop :=
  (remaining ≤ 0 → ticks = 0) ∧
    (0 < remaining → ticks ≠ portMaxDelay ∧
      |ticks * p.ms * 1000000 - remaining| < (p.ms + 1) * 1000000)

variable {p : TickPeriod} {deadline cur : Timespec} {n d : ℤ}

/-! ### Milliseconds -/

/-- The milliseconds that are left, before they are stored to a `long`. -/
def Timespec.msecUntil (deadline cur : Timespec) : ℤ :=
  (deadline.sec - cur.sec) * 1000 + (deadline.nsec - cur.nsec).tdiv 1000000

/-- A quotient is rounded towards zero. -/
lemma tdiv_million (n : ℤ) : (0 ≤ n → 0 ≤ n.tdiv 1000000 ∧ n.tdiv 1000000 * 1000000 ≤ n ∧
      n < n.tdiv 1000000 * 1000000 + 1000000) ∧
    (n ≤ 0 → n.tdiv 1000000 ≤ 0 ∧ n ≤ n.tdiv 1000000 * 1000000 ∧
      n.tdiv 1000000 * 1000000 - 1000000 < n) := by
  constructor
  · intro hn
    rw [Int.tdiv_eq_ediv_of_nonneg hn]
    omega
  · intro hn
    have hneg : n.tdiv 1000000 = -((-n).tdiv 1000000) := by rw [Int.neg_tdiv, Int.neg_neg]
    rw [hneg, Int.tdiv_eq_ediv_of_nonneg (by omega)]
    omega

/-- The milliseconds are right up to less than one of them, and do not have the wrong sign. -/
lemma msecUntil_spec (deadline cur : Timespec) :
    deadline.remaining cur - 1000000 < deadline.msecUntil cur * 1000000 ∧
      deadline.msecUntil cur * 1000000 < deadline.remaining cur + 1000000 ∧
      (deadline.remaining cur ≤ 0 → deadline.msecUntil cur ≤ 0) ∧
      (0 ≤ deadline.remaining cur → 0 ≤ deadline.msecUntil cur) := by
  have h1 := deadline.nsec_nonneg
  have h2 := deadline.nsec_lt
  have h3 := cur.nsec_nonneg
  have h4 := cur.nsec_lt
  obtain ⟨hpos, hneg⟩ := tdiv_million (deadline.nsec - cur.nsec)
  rw [Timespec.remaining, Timespec.msecUntil]
  rcases le_total 0 (deadline.nsec - cur.nsec) with h | h
  · obtain ⟨h5, h6, h7⟩ := hpos h
    omega
  · obtain ⟨h5, h6, h7⟩ := hneg h
    omega

/-- Ticks that come from so many milliseconds. -/
lemma ticks_spec (p : TickPeriod) (n : ℤ) : n / p.ms * p.ms ≤ n ∧ n < n / p.ms * p.ms + p.ms := by
  have hpos : 0 < p.ms := p.pos
  have hlt := Int.lt_ediv_add_one_mul_self n hpos
  rw [Int.add_mul, Int.one_mul] at hlt
  exact ⟨Int.ediv_mul_le n (by omega), hlt⟩

/-- The ticks of so many milliseconds, but for those that mean for ever, are right for a time that
differs by less than one of them. -/
lemma abs_ticks_lt {r : ℤ} (p : TickPeriod) (hlow : r - 1000000 < n * 1000000)
    (hhigh : n * 1000000 < r + 1000000) :
    |n / p.ms * p.ms * 1000000 - r| < (p.ms + 1) * 1000000 := by
  obtain ⟨h1, h2⟩ := ticks_spec p n
  rw [abs_lt]
  omega

/-! ### The mutex -/

/-- The deadline has passed and the milliseconds past it make up less than a tick as an unsigned
number; or it is ahead by less than `2 ^ 32` milliseconds, and the ticks are not `portMAX_DELAY`. -/
def TimedlockInRange (p : TickPeriod) (deadline cur : Timespec) : Prop :=
  (deadline.remaining cur ≤ 0 → deadline.msecUntil cur % 2 ^ 32 < p.ms) ∧
    (0 < deadline.remaining cur → deadline.msecUntil cur < 2 ^ 32 ∧
      deadline.msecUntil cur / p.ms ≠ portMaxDelay)

lemma timedlock_right_iff (p : TickPeriod) (deadline cur : Timespec) :
    WaitRight p (deadline.remaining cur) (timedlockTicks p deadline cur) ↔
      TimedlockInRange p deadline cur := by
  obtain ⟨hlow, hhigh, hpast, hahead⟩ := msecUntil_spec deadline cur
  have hticks : timedlockTicks p deadline cur = deadline.msecUntil cur % 2 ^ 32 / p.ms := by
    rw [timedlockTicks, timedlockMsec, Timespec.msecUntil]
    exact congrArg (· / p.ms) Int.bmod_emod
  have hpos := p.pos
  have hle := p.le
  rw [WaitRight, TimedlockInRange, hticks]
  generalize deadline.msecUntil cur = m at *
  generalize deadline.remaining cur = r at *
  obtain ⟨hlt, hgt⟩ := ticks_spec p (m % 2 ^ 32)
  refine and_congr (forall_congr' fun hr => ?_) (forall_congr' fun hr => ?_)
  · constructor
    · intro hzero
      rw [hzero, Int.zero_mul, Int.zero_add] at hgt
      exact hgt
    · exact fun hless => Int.ediv_eq_zero_of_lt (by omega) hless
  · have hm := hahead hr.le
    by_cases hin : m < 2 ^ 32
    · rw [Int.emod_eq_of_lt hm hin]
      exact ⟨fun h => ⟨hin, h.1⟩, fun h => ⟨h.2, abs_ticks_lt p hlow hhigh⟩⟩
    · -- the time is shorter by `2 ^ 32` milliseconds at least
      refine iff_of_false (fun h => ?_) fun h => hin h.1
      have hless : m % 2 ^ 32 ≤ m - 2 ^ 32 := by omega
      have habs := (abs_lt.1 h.2).1
      omega

/-! ### The condition variable -/

/-- `gettimeofday`. -/
structure CurrentTime extends Timeval where
  usec_nonneg : 0 ≤ usec
  usec_lt : usec < 1000000

/-- The time in nanoseconds until a deadline, on a clock with microseconds. -/
def Timespec.remainingFrom (deadline : Timespec) (cur : Timeval) : ℤ :=
  (deadline.sec - cur.sec) * 1000000000 + (deadline.nsec - cur.usec * 1000)

/-- The microseconds between two times. -/
def Timeval.usecSince (a b : Timeval) : ℤ := (a.sec - b.sec) * 1000000 + (a.usec - b.usec)

lemma before_iff {a b : Timeval} (ha : 0 ≤ a.usec) (ha' : a.usec < 1000000) (hb : 0 ≤ b.usec)
    (hb' : b.usec < 1000000) : a.before b = true ↔ a.usecSince b < 0 := by
  rw [Timeval.before, Timeval.usecSince]
  split_ifs with h
  · rw [decide_eq_true_iff, h]
    omega
  · rw [decide_eq_true_iff]
    omega

/-- `timersub` borrows a second where it has to, and so the milliseconds are rounded down. -/
lemma msecSince_eq {a b : Timeval} (ha : 0 ≤ a.usec) (ha' : a.usec < 1000000) (hb : 0 ≤ b.usec)
    (hb' : b.usec < 1000000) : a.msecSince b = (a.usecSince b / 1000).bmod (2 ^ 32) := by
  rw [Timeval.msecSince, Timeval.usecSince]
  congr 1
  split_ifs with h
  · rw [Int.tdiv_eq_ediv_of_nonneg (by omega)]
    omega
  · rw [Int.tdiv_eq_ediv_of_nonneg (by omega)]
    omega

/-- The microseconds of a deadline are less than one of them short. -/
lemma toTimeval_spec (deadline : Timespec) :
    0 ≤ deadline.toTimeval.usec ∧ deadline.toTimeval.usec < 1000000 ∧
      deadline.toTimeval.usec * 1000 ≤ deadline.nsec ∧
      deadline.nsec < deadline.toTimeval.usec * 1000 + 1000 := by
  have h1 := deadline.nsec_nonneg
  have h2 := deadline.nsec_lt
  rw [Timespec.toTimeval]
  dsimp only
  rw [Int.tdiv_eq_ediv_of_nonneg h1]
  omega

/-- The milliseconds that are left, or a number that is not positive if the time is over. -/
lemma timedwaitTicks_eq (p : TickPeriod) (deadline : Timespec) (cur : CurrentTime) :
    ∃ m : ℤ, m * 1000000 ≤ deadline.remainingFrom cur.toTimeval ∧
      deadline.remainingFrom cur.toTimeval < m * 1000000 + 1000000 ∧
      timedwaitTicks p deadline cur.toTimeval =
        if m < 0 ∨ m.bmod (2 ^ 32) ≤ 0 then 0 else m.bmod (2 ^ 32) / p.ms := by
  have hc := cur.usec_nonneg
  have hc' := cur.usec_lt
  obtain ⟨h1, h2, h3, h4⟩ := toTimeval_spec deadline
  have hbefore := before_iff h1 h2 hc hc'
  have hsec : deadline.toTimeval.sec = deadline.sec := rfl
  refine ⟨deadline.toTimeval.usecSince cur.toTimeval / 1000, ?_, ?_, ?_⟩
  · rw [Timespec.remainingFrom, Timeval.usecSince]
    omega
  · rw [Timespec.remainingFrom, Timeval.usecSince]
    omega
  · rw [timedwaitTicks, msecSince_eq h1 h2 hc hc']
    generalize deadline.toTimeval.usecSince cur.toTimeval = u at *
    by_cases hb : deadline.toTimeval.before cur.toTimeval = true
    · rw [if_pos hb, if_pos le_rfl, if_pos (Or.inl (by have := hbefore.1 hb; omega))]
    · have hu : ¬ u < 0 := fun h => hb (hbefore.2 h)
      rw [if_neg hb]
      by_cases hle : (u / 1000).bmod (2 ^ 32) ≤ 0
      · rw [if_pos hle, if_pos (Or.inr hle)]
      · rw [if_neg hle, if_neg (by rintro (h | h) <;> omega),
          Int.tdiv_eq_ediv_of_nonneg (by omega)]

/-- The deadline is ahead by less than `2 ^ 31` milliseconds, if at all. -/
def TimedwaitInRange (deadline : Timespec) (cur : Timeval) : Prop :=
  deadline.remainingFrom cur < 2 ^ 31 * 1000000

lemma timedwait_right_iff (p : TickPeriod) (deadline : Timespec) (cur : CurrentTime) :
    WaitRight p (deadline.remainingFrom cur.toTimeval) (timedwaitTicks p deadline cur.toTimeval) ↔
      TimedwaitInRange deadline cur.toTimeval := by
  obtain ⟨m, hlow, hhigh, hticks⟩ := timedwaitTicks_eq p deadline cur
  have hpos := p.pos
  rw [WaitRight, TimedwaitInRange, hticks]
  generalize deadline.remainingFrom cur.toTimeval = r at *
  by_cases hneg : m < 0
  · rw [if_pos (Or.inl hneg)]
    exact iff_of_true ⟨fun _ => rfl, fun hr => by omega⟩ (by omega)
  by_cases hin : m < 2 ^ 31
  · have hbmod : m.bmod (2 ^ 32) = m := Int.bmod_eq_of_le (by omega) (by omega)
    refine iff_of_true ?_ (by omega)
    rw [hbmod]
    by_cases hzero : m ≤ 0
    · rw [if_pos (Or.inr hzero)]
      refine ⟨fun _ => rfl, fun hr => ⟨by decide, ?_⟩⟩
      rw [abs_lt]
      omega
    · rw [if_neg (by rintro (h | h) <;> omega)]
      refine ⟨fun hr => by omega, fun hr => ⟨?_, abs_ticks_lt p (by omega) (by omega)⟩⟩
      have hle : m / p.ms ≤ m := Int.ediv_le_self p.ms (by omega)
      rw [portMaxDelay]
      omega
  · -- the time is shorter by `2 ^ 32` milliseconds at least, or there is none
    refine iff_of_false (fun h => ?_) (by omega)
    have hmod := Int.bmod_def m (2 ^ 32)
    have hless : m.bmod (2 ^ 32) ≤ m - 2 ^ 32 := by
      rw [hmod]
      omega
    obtain ⟨h1, h2⟩ := ticks_spec p (m.bmod (2 ^ 32))
    have habs := (abs_lt.1 (h.2 (by omega)).2).1
    have hle := p.le
    split_ifs at habs with hif
    · omega
    · omega

/-! ### Both -/

end EspIdf.Pthread
