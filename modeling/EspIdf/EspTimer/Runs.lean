/-
# Runs of timers

A run is a sequence of calls and of callbacks that return, at the times of a clock.  While a
callback runs, anything else may happen, the processing of other alarms included.
-/
import EspIdf.EspTimer.Timers

namespace EspIdf.EspTimer

/-! ### What happens -/

/-- What happens in a run. -/
inductive Event where
  /-- A start returned `ESP_OK`; the period is zero if the timer fires once. -/
  | started (timer now period : ℕ)
  | stopped (timer : ℕ)
  | deleted (timer : ℕ)
  | inserted (timer : ℕ)
  /-- The callback is called. -/
  | fired (timer alarm now : ℕ)

/-- When the timer was started last and its period, unless it was stopped or deleted since.
The latest event comes first. -/
def lastStart (timer : ℕ) : List Event → Option (ℕ × ℕ)
  | [] => none
  | .started timer' now period :: events =>
    if timer' = timer then some (now, period) else lastStart timer events
  | .stopped timer' :: events => if timer' = timer then none else lastStart timer events
  | .deleted timer' :: events => if timer' = timer then none else lastStart timer events
  | .inserted _ :: events => lastStart timer events
  | .fired _ _ _ :: events => lastStart timer events

/-- How often the callback was called since the timer was started. -/
def firings (timer : ℕ) : List Event → ℕ
  | [] => 0
  | .started timer' _ _ :: events => if timer' = timer then 0 else firings timer events
  | .fired timer' _ _ :: events => (if timer' = timer then 1 else 0) + firings timer events
  | _ :: events => firings timer events

/-- The place of the last insertion of the timer. -/
def insertedAt (timer : ℕ) : List Event → ℕ
  | [] => 0
  | .inserted timer' :: events =>
    if timer' = timer then events.length + 1 else insertedAt timer events
  | _ :: events => insertedAt timer events

/-- The alarms whose callbacks were called. -/
def firedAlarms : List Event → List ℕ
  | [] => []
  | .fired _ alarm _ :: events => alarm :: firedAlarms events
  | _ :: events => firedAlarms events

/-- A callback is called only after its alarm, in the order of the alarms, and while the timer
is started: once, or one period after the other. -/
def Punctual : List Event → Prop
  | [] => True
  | .fired timer alarm now :: events =>
    Punctual events ∧ alarm < now ∧ (∀ a ∈ firedAlarms events, a ≤ alarm) ∧
      ∃ t₀ period, lastStart timer events = some (t₀, period) ∧
        (period = 0 → firings timer events = 0) ∧
        (0 < period → alarm = t₀ + (firings timer events + 1) * period)
  | _ :: events => Punctual events

/-! ### Runs -/

/-- The timers, the time, how many calls of `timer_process_alarm` are in callbacks, and what
has happened. -/
structure World where
  state : State
  now : ℕ
  depth : ℕ
  events : List Event

/-- No timer is armed. -/
def World.init (now : ℕ) (initialized : Bool) : World :=
  ⟨⟨fun _ => ⟨0, 0, false, true⟩, [], 0, initialized⟩, now, 0, []⟩

/-- What may happen next. -/
inductive Op where
  | tick (now : ℕ)
  | startOnce (timer : Option ℕ) (timeoutUs : ℕ)
  | startPeriodic (timer : Option ℕ) (periodUs : ℕ)
  | stop (timer : Option ℕ)
  | delete (timer : Option ℕ)
  | processAlarm
  | callbackReturns

/-- The state after a call, with the events if it succeeded. -/
def World.after (w : World) (timer : Option ℕ) (events : ℕ → List Event) :
    Except Err Unit × State → World
  | (.ok _, s) =>
    { w with
      state := s
      events := (timer.map events).getD [] ++ w.events }
  | (.error _, s) => { w with state := s }

/-- The loop of `timer_process_alarm` goes on. -/
def World.goOn (w : World) (depth : ℕ) : World :=
  match timerProcessAlarm w.now w.state.sTimers w.state with
  | (some (timer, alarm), s) =>
    ⟨s, w.now, depth,
      .fired timer alarm w.now ::
        if (s.timers timer).period > 0 then .inserted timer :: w.events else w.events⟩
  | (none, s) => ⟨s, w.now, depth - 1, w.events⟩

/-- One step. -/
def World.step (w : World) : Op → World
  | .tick now => { w with now := now }
  | .startOnce timer timeoutUs =>
    w.after timer (fun timer => [.inserted timer, .started timer w.now 0])
      (espTimerStartOnce w.state w.now timer timeoutUs)
  | .startPeriodic timer periodUs =>
    w.after timer
      (fun timer =>
        [.inserted timer, .started timer w.now (max periodUs espTimerImplGetMinPeriodUs)])
      (espTimerStartPeriodic w.state w.now timer periodUs)
  | .stop timer => w.after timer (fun timer => [.stopped timer]) (espTimerStop w.state timer)
  | .delete timer =>
    w.after timer (fun timer => [.inserted timer, .deleted timer])
      (espTimerDelete w.state w.now timer)
  | .processAlarm => w.goOn (w.depth + 1)
  | .callbackReturns => w.goOn w.depth

/-- Timers that were deleted are not used, the clock does not go back, timeouts do not reach
beyond `2 ^ 63`, and only callbacks that were called return. -/
def Op.Valid (w : World) : Op → Prop
  | .tick now => w.now ≤ now ∧ now < 2 ^ 63
  | .startOnce timer timeoutUs =>
    (∀ i, timer = some i → (w.state.timers i).deleteEvent = false) ∧ w.now + timeoutUs ≤ 2 ^ 63
  | .startPeriodic timer periodUs =>
    (∀ i, timer = some i → (w.state.timers i).deleteEvent = false) ∧ w.now + periodUs ≤ 2 ^ 63
  | .stop timer => ∀ i, timer = some i → (w.state.timers i).deleteEvent = false
  | .delete timer => ∀ i, timer = some i → (w.state.timers i).deleteEvent = false
  | .processAlarm => True
  | .callbackReturns => 0 < w.depth

/-- All steps of the run are valid. -/
def ValidRun : World → List Op → Prop
  | _, [] => True
  | w, op :: ops => op.Valid w ∧ ValidRun (w.step op) ops

/-- Exactly the armed timers stand in the list, in the order of their alarms and of their
insertion; the alarm that was set is not later than the first; and the callbacks were called
when they were due. -/
structure Correct (w : World) : Prop where
  armed : ∀ timer, (w.state.timers timer).allocated = true →
    (timer ∈ w.state.sTimers ↔ (w.state.timers timer).alarm ≠ 0)
  nodup : w.state.sTimers.Nodup
  sorted : w.state.sTimers.Pairwise (Deadlines.Before
    (fun timer => (w.state.timers timer).alarm) (insertedAt · w.events))
  alarmSet : ∀ timer, w.state.sTimers.head? = some timer →
    w.state.alarmSet ≤ (w.state.timers timer).alarm
  punctual : Punctual w.events

/-- All periods that are over were fired, and no other. -/
def CaughtUp (w : World) : Prop :=
  ∀ timer t₀ period, lastStart timer w.events = some (t₀, period) → 0 < period →
    ∀ k ≥ 1, t₀ + k * period < w.now ↔ k ≤ firings timer w.events

/-- With this step the loop of `timer_process_alarm` ends. -/
def Op.Finishes (w : World) : Op → Prop
  | .processAlarm => (timerProcessAlarm w.now w.state.sTimers w.state).1 = none
  | .callbackReturns => (timerProcessAlarm w.now w.state.sTimers w.state).1 = none
  | _ => False

/-- All states of the run are correct, and all periods are caught up with whenever the loop
ends. -/
def AlwaysCorrect : World → List Op → Prop
  | w, [] => Correct w
  | w, op :: ops => Correct w ∧ (op.Finishes w → CaughtUp (w.step op)) ∧
      AlwaysCorrect (w.step op) ops

end EspIdf.EspTimer
