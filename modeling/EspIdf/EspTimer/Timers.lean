/-
# Timers

Armed timers stand in `s_timers` by the time of their alarms.  `timer_process_alarm` takes the
timers whose alarms are over from the head of the list and calls their callbacks; the lock is
not held meanwhile, and the callback may start, stop and delete timers.
-/
import EspIdf.Lib.Deadlines

namespace EspIdf.EspTimer

/-- `struct esp_timer`. -/
structure Timer where
  /-- When the callback is due; zero if the timer is not armed. -/
  alarm : ℕ
  period : ℕ
  /-- `event_id` is `EVENT_ID_DELETE_TIMER`. -/
  deleteEvent : Bool
  /-- The timer has not been freed. -/
  allocated : Bool

/-- The timers, the list of armed timers, and what `esp_timer_impl_set_alarm` was given
last. -/
structure State where
  timers : ℕ → Timer
  sTimers : List ℕ
  alarmSet : ℕ
  initialized : Bool

inductive Err where
  | invalidArg
  | invalidState
deriving DecidableEq

/-- `esp_timer_impl_get_min_period_us`. -/
def espTimerImplGetMinPeriodUs : ℕ := 50

variable (s : State) (now : ℕ)

/-- Write to a timer. -/
def State.setTimer (timer : ℕ) (t : Timer) : State :=
  { s with timers := Function.update s.timers timer t }

/-- `timer_armed`. -/
def timerArmed (timer : ℕ) : Bool := (s.timers timer).alarm > 0

/-- `timer_insert`. -/
def timerInsert (timer : ℕ) : State :=
  let l := Deadlines.insert (fun it => (s.timers it).alarm) timer s.sTimers
  { s with
    sTimers := l
    alarmSet := if l.head? = some timer then (s.timers timer).alarm else s.alarmSet }

/-- `timer_remove`. -/
def timerRemove (timer : ℕ) : State :=
  { s with
    sTimers := s.sTimers.erase timer
    timers := Function.update s.timers timer
      { s.timers timer with
        alarm := 0
        period := 0 } }

/-- `esp_timer_start_once`. -/
def espTimerStartOnce (timer : Option ℕ) (timeoutUs : ℕ) : Except Err Unit × State :=
  match timer with
  | none => (.error .invalidArg, s)
  | some timer =>
    if !s.initialized || timerArmed s timer then (.error .invalidState, s)
    else
      (.ok (), timerInsert
        (s.setTimer timer
          { s.timers timer with
            alarm := (now + timeoutUs) % 2 ^ 64
            period := 0 })
        timer)

/-- `esp_timer_start_periodic`. -/
def espTimerStartPeriodic (timer : Option ℕ) (periodUs : ℕ) : Except Err Unit × State :=
  match timer with
  | none => (.error .invalidArg, s)
  | some timer =>
    if !s.initialized || timerArmed s timer then (.error .invalidState, s)
    else
      let periodUs := max periodUs espTimerImplGetMinPeriodUs
      (.ok (), timerInsert
        (s.setTimer timer
          { s.timers timer with
            alarm := (now + periodUs) % 2 ^ 64
            period := periodUs })
        timer)

/-- `esp_timer_stop`. -/
def espTimerStop (timer : Option ℕ) : Except Err Unit × State :=
  match timer with
  | none => (.error .invalidArg, s)
  | some timer =>
    if !s.initialized || !timerArmed s timer then (.error .invalidState, s)
    else (.ok (), timerRemove s timer)

/-- `esp_timer_delete`. -/
def espTimerDelete (timer : Option ℕ) : Except Err Unit × State :=
  match timer with
  | none => (.error .invalidArg, s)
  | some timer =>
    if timerArmed s timer then (.error .invalidState, s)
    else
      (.ok (), timerInsert
        (s.setTimer timer
          { s.timers timer with
            deleteEvent := true
            alarm := now
            period := 0 })
        timer)

/-- The loop of `timer_process_alarm` up to the next callback, with the list that is left.  The
timer whose callback is called is returned with its alarm; if the loop ends, the alarm of the
first timer is set. -/
def timerProcessAlarm : List ℕ → State → Option (ℕ × ℕ) × State
  | [], s => (none, { s with sTimers := [] })
  | it :: rest, s =>
    if (s.timers it).alarm < now then
      if (s.timers it).deleteEvent then
        timerProcessAlarm rest (s.setTimer it { s.timers it with allocated := false })
      else if (s.timers it).period > 0 then
        (some (it, (s.timers it).alarm), timerInsert
          ({ s with sTimers := rest }.setTimer it
            { s.timers it with
              alarm := ((s.timers it).alarm + (s.timers it).period) % 2 ^ 64 })
          it)
      else
        (some (it, (s.timers it).alarm),
          { s with sTimers := rest }.setTimer it { s.timers it with alarm := 0 })
    else
      (none,
        { s with
          sTimers := it :: rest
          alarmSet := (s.timers it).alarm })

end EspIdf.EspTimer
