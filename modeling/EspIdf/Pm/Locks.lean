/-
# Power management locks

A lock keeps the power mode from going below the mode of the lock.  The number of locks that are
held is counted for each mode, and when the first lock of a mode is taken or the last one is
released, the mode that is demanded is computed in one critical section and switched to in
another.
-/
import Mathlib

namespace EspIdf.Pm

/-- `pm_mode_t`. -/
inductive PmMode where
  | lightSleep
  | apbMin
  | apbMax
  | cpuMax
deriving DecidableEq

/-- The value of the enumerator. -/
def PmMode.index : PmMode → ℕ
  | .lightSleep => 0
  | .apbMin => 1
  | .apbMax => 2
  | .cpuMax => 3

/-- `BIT(mode)`. -/
def PmMode.bit (m : PmMode) : BitVec 32 := 1#32 <<< m.index

/-- `esp_pm_lock_type_t`. -/
inductive LockType where
  | cpuFreqMax
  | apbFreqMax
  | noLightSleep
deriving DecidableEq

/-- `esp_pm_impl_get_mode`. -/
def LockType.mode : LockType → PmMode
  | .cpuFreqMax => .cpuMax
  | .apbFreqMax => .apbMax
  | .noLightSleep => .apbMin

/-- The two cores. -/
inductive Core where
  | pro
  | app
deriving DecidableEq

/-- The other core. -/
def Core.other : Core → Core
  | .pro => .app
  | .app => .pro

/-- Where a core is in a call. -/
inductive Phase (L : Type) where
  | outside
  /-- In `do_switch(newMode)`, before the section that looks at `s_mode`; the core has the
  spinlock of the handle. -/
  | deciding (handle : L) (newMode : PmMode)
  /-- In `do_switch(newMode)`, between its two sections. -/
  | switching (handle : L) (newMode : PmMode)
deriving DecidableEq

/-- The lock whose spinlock the core has. -/
def Phase.handle {L : Type} : Phase L → Option L
  | .outside => none
  | .deciding handle _ => some handle
  | .switching handle _ => some handle

/-- The state of the locks, of the modes and of the cores. -/
structure Power (L : Type) where
  sMode : PmMode
  isSwitching : Bool
  modeLockCounts : PmMode → ℕ
  modeMask : BitVec 32
  /-- The field `count` of the handles. -/
  count : L → ℕ
  /-- How often each lock has been acquired and not released. -/
  held : L → ℕ
  phase : Core → Phase L

variable {L : Type}

/-- `get_lowest_allowed_mode`. -/
def getLowestAllowedMode (lightSleepEn : Bool) (modeMask : BitVec 32) : PmMode :=
  if PmMode.bit .cpuMax ≤ modeMask then .cpuMax
  else if PmMode.bit .apbMax ≤ modeMask then .apbMax
  else if PmMode.bit .apbMin ≤ modeMask || !lightSleepEn then .apbMin
  else .lightSleep

/-- The section of `esp_pm_impl_switch_mode` with `MODE_LOCK`, and the mode that it passes to
`do_switch`. -/
def Power.switchModeLock (lightSleepEn : Bool) (s : Power L) (mode : PmMode) :
    Option PmMode × Power L :=
  let count := (s.modeLockCounts mode + 1) % 2 ^ 32
  let s := { s with modeLockCounts := Function.update s.modeLockCounts mode count }
  if count = 1 then
    let s := { s with modeMask := s.modeMask ||| mode.bit }
    (some (getLowestAllowedMode lightSleepEn s.modeMask), s)
  else (none, s)

/-- The section of `esp_pm_impl_switch_mode` with `MODE_UNLOCK`. -/
def Power.switchModeUnlock (lightSleepEn : Bool) (s : Power L) (mode : PmMode) :
    Option PmMode × Power L :=
  let count := s.modeLockCounts mode
  let s := { s with
    modeLockCounts := Function.update s.modeLockCounts mode ((count + (2 ^ 32 - 1)) % 2 ^ 32) }
  if count = 1 then
    let s := { s with modeMask := s.modeMask &&& ~~~mode.bit }
    (some (getLowestAllowedMode lightSleepEn s.modeMask), s)
  else (none, s)

/-- Continue a call on `handle` with `do_switch`, or return from it. -/
def goOn (core : Core) (handle : L) : Option PmMode × Power L → Power L
  | (some newMode, s) => { s with phase := Function.update s.phase core (.deciding handle newMode) }
  | (none, s) => s

/-- `esp_pm_lock_acquire`, up to `do_switch`.  Nobody else reads the count of the handle before
the spinlock is released, so it changes together with the section. -/
def Power.acquire [DecidableEq L] (lightSleepEn : Bool) (type : L → LockType) (s : Power L)
    (core : Core) (handle : L) : Power L :=
  let count := s.count handle
  let s := { s with
    count := Function.update s.count handle ((count + 1) % 2 ^ 32)
    held := Function.update s.held handle (s.held handle + 1) }
  if count = 0 then goOn core handle (s.switchModeLock lightSleepEn (type handle).mode)
  else s

/-- `esp_pm_lock_release`, up to `do_switch`; with the count `0` it returns
`ESP_ERR_INVALID_STATE`. -/
def Power.release [DecidableEq L] (lightSleepEn : Bool) (type : L → LockType) (s : Power L)
    (core : Core) (handle : L) : Power L :=
  let count := s.count handle
  if count = 0 then s
  else
    let s := { s with
      count := Function.update s.count handle (count - 1)
      held := Function.update s.held handle (s.held handle - 1) }
    if count - 1 = 0 then goOn core handle (s.switchModeUnlock lightSleepEn (type handle).mode)
    else s

/-- The first section of `do_switch`, when no switch is in progress. -/
def Power.decide (s : Power L) (core : Core) (handle : L) (newMode : PmMode) : Power L :=
  if newMode = s.sMode then { s with phase := Function.update s.phase core .outside }
  else
    { s with
      isSwitching := true
      phase := Function.update s.phase core (.switching handle newMode) }

/-- The last section of `do_switch`. -/
def Power.finish (s : Power L) (core : Core) (newMode : PmMode) : Power L :=
  { s with
    sMode := newMode
    isSwitching := false
    phase := Function.update s.phase core .outside }

/-- The atomic steps of a core. -/
inductive Event (L : Type) where
  | acquire (core : Core) (handle : L)
  | release (core : Core) (handle : L)
  | decide (core : Core)
  | finish (core : Core)

/-- The state after a step.  A call begins on a core that is in no call, with a lock that the
other core is not in a call on; `do_switch` waits while a switch is in progress. -/
def Power.step [DecidableEq L] (lightSleepEn : Bool) (type : L → LockType) (s : Power L) :
    Event L → Option (Power L)
  | .acquire core handle =>
    if s.phase core = .outside ∧ (s.phase core.other).handle ≠ some handle then
      some (s.acquire lightSleepEn type core handle)
    else none
  | .release core handle =>
    if s.phase core = .outside ∧ (s.phase core.other).handle ≠ some handle then
      some (s.release lightSleepEn type core handle)
    else none
  | .decide core =>
    match s.phase core with
    | .deciding handle newMode => if s.isSwitching then none else some (s.decide core handle newMode)
    | _ => none
  | .finish core =>
    match s.phase core with
    | .switching _ newMode => some (s.finish core newMode)
    | _ => none

/-- The variables before `esp_pm_impl_init`. -/
def Power.boot : Power L where
  sMode := .cpuMax
  isSwitching := false
  modeLockCounts _ := 0
  modeMask := 0
  count _ := 0
  held _ := 0
  phase _ := .outside

/-- `esp_pm_impl_init`: the first core acquires `s_rtos_lock_handle[0]`, with a switch to the mode
that there is, and `s_rtos_lock_handle[1]`. -/
def Power.init [DecidableEq L] (lightSleepEn : Bool) (type : L → LockType) (rtos : Core → L) :
    Power L :=
  let s := Power.boot.acquire lightSleepEn type .pro (rtos .pro)
  (s.decide .pro (rtos .pro) .cpuMax).acquire lightSleepEn type .pro (rtos .app)

end EspIdf.Pm
