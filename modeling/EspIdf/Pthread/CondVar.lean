/-
# Condition variables

A waiting thread puts itself at the end of a list, with a semaphore of its own, and takes itself
off the list when it runs again.  A signal gives the semaphore of the first thread of the list,
whether or not it was given before, and whether or not the thread has timed out meanwhile.  No
signal is lost in the runs in which neither happens.
-/
import Mathlib

namespace EspIdf.Pthread

/-- What `pthread_cond_timedwait` returns. -/
inductive WaitRet where
  | ok
  | etimedout
deriving DecidableEq

/-- Where a thread is in `pthread_cond_timedwait`. -/
inductive WaitPhase where
  | outside
  /-- In `xSemaphoreTake`, for a number of ticks or for ever. -/
  | waiting (timeoutTicks : Option ℕ)
  /-- After `xSemaphoreTake`, and before the section that leaves the list. -/
  | woken (ret : WaitRet)
deriving DecidableEq

/-- `esp_pthread_cond_t`, and the semaphores and places of the threads. -/
structure Cond (T : Type) where
  waiterList : List T
  waitSem : T → Bool
  phase : T → WaitPhase

variable {T : Type}

/-- `pthread_cond_init`. -/
def Cond.init : Cond T := ⟨[], fun _ => false, fun _ => .outside⟩

/-- `portTICK_PERIOD_MS`, at the default tick rate. -/
def portTickPeriodMs : ℤ := 10

/-- A time in seconds and microseconds. -/
structure Timeval where
  sec : ℤ
  usec : ℤ
deriving DecidableEq

/-- `timercmp` with `<`. -/
def Timeval.before (a b : Timeval) : Bool :=
  if a.sec = b.sec then a.usec < b.usec else a.sec < b.sec

/-- The milliseconds of `timersub`, in a `long`. -/
def Timeval.msecSince (a b : Timeval) : ℤ :=
  let borrow := a.usec - b.usec < 0
  let sec := a.sec - b.sec - if borrow then 1 else 0
  let usec := a.usec - b.usec + if borrow then 1000000 else 0
  (sec * 1000 + usec.tdiv 1000).bmod (2 ^ 32)

/-- The ticks to wait until a time, or an immediate `ETIMEDOUT`. -/
def timeoutTicks (deadline : Option Timeval) (cur : Timeval) : Except WaitRet (Option ℕ) :=
  match deadline with
  | none => .ok none
  | some absTime =>
    let timeoutMsec := if absTime.before cur then 0 else absTime.msecSince cur
    if timeoutMsec ≤ 0 then .error .etimedout
    else .ok (some (timeoutMsec.tdiv portTickPeriodMs).toNat)

/-! ### Steps -/

/-- The sections under the lock, and the operations on the semaphores. -/
inductive CondEvent (T : Type) where
  /-- `pthread_cond_timedwait` is called, and enters the list unless the time is over. -/
  | timedwait (thread : T) (deadline : Option Timeval) (cur : Timeval)
  /-- `xSemaphoreTake` succeeds. -/
  | take (thread : T)
  /-- `xSemaphoreTake` times out. -/
  | timeout (thread : T)
  /-- `pthread_cond_timedwait` leaves the list and returns. -/
  | leave (thread : T)
  | signal
  | broadcast

/-- `pthread_cond_signal`. -/
def pthreadCondSignal [DecidableEq T] (c : Cond T) : Cond T :=
  match c.waiterList with
  | [] => c
  | entry :: _ => { c with waitSem := Function.update c.waitSem entry true }

/-- `pthread_cond_broadcast`. -/
def pthreadCondBroadcast [DecidableEq T] (c : Cond T) : Cond T :=
  { c with waitSem := fun t => decide (t ∈ c.waiterList) || c.waitSem t }

/-- The section of `pthread_cond_timedwait` that enters the list with a new semaphore. -/
def timedwaitEnter [DecidableEq T] (c : Cond T) (thread : T) (ticks : Option ℕ) : Cond T where
  waiterList := c.waiterList ++ [thread]
  waitSem := Function.update c.waitSem thread false
  phase := Function.update c.phase thread (.waiting ticks)

/-- The section of `pthread_cond_timedwait` that leaves the list. -/
def timedwaitLeave [DecidableEq T] (c : Cond T) (thread : T) : Cond T where
  waiterList := c.waiterList.erase thread
  waitSem := c.waitSem
  phase := Function.update c.phase thread .outside

/-- One step, if it is possible. -/
def Cond.step [DecidableEq T] (c : Cond T) : CondEvent T → Option (Cond T)
  | .timedwait thread deadline cur =>
    if c.phase thread = .outside then
      match timeoutTicks deadline cur with
      | .ok ticks => some (timedwaitEnter c thread ticks)
      | .error _ => some c
    else none
  | .take thread =>
    match c.phase thread with
    | .waiting _ =>
      if c.waitSem thread then
        some { c with
          waitSem := Function.update c.waitSem thread false
          phase := Function.update c.phase thread (.woken .ok) }
      else none
    | _ => none
  | .timeout thread =>
    match c.phase thread with
    | .waiting (some _) =>
      if c.waitSem thread then none
      else some { c with phase := Function.update c.phase thread (.woken .etimedout) }
    | _ => none
  | .leave thread =>
    match c.phase thread with
    | .woken _ => some (timedwaitLeave c thread)
    | _ => none
  | .signal => some (pthreadCondSignal c)
  | .broadcast => some (pthreadCondBroadcast c)

/-! ### Lost signals -/

/-- The thread has been given its semaphore in this wait. -/
def Given (c : Cond T) (t : T) : Prop := c.waitSem t = true ∨ c.phase t = .woken .ok

/-- A signal gives a semaphore that was not given before, if there is one on the list; a
broadcast gives all of them; and a thread that was given its semaphore returns `0`. -/
def NothingLost (c : Cond T) (e : CondEvent T) (c' : Cond T) : Prop :=
  match e with
  | .signal => (∃ t ∈ c.waiterList, ¬ Given c t) →
      ∃ t ∈ c.waiterList, ¬ Given c t ∧ Given c' t
  | .broadcast => ∀ t ∈ c.waiterList, Given c' t
  | .leave t => Given c t → c.phase t = .woken .ok
  | _ => True

/-- No step of the run loses anything. -/
inductive NeverLost [DecidableEq T] : Cond T → List (CondEvent T) → Prop
  | nil (c : Cond T) : NeverLost c []
  | cons {c c' : Cond T} {e : CondEvent T} {es : List (CondEvent T)} (hstep : c.step e = some c')
      (hkeep : NothingLost c e c') (hrest : NeverLost c' es) : NeverLost c (e :: es)

/-- A signal finds the first thread of the list still without its semaphore, unless all have
got theirs, and neither it nor a broadcast finds a thread that has timed out. -/
def Timely (c : Cond T) : CondEvent T → Prop
  | .signal => ∀ t, c.waiterList.head? = some t →
      c.phase t ≠ .woken .etimedout ∧ (Given c t → ∀ u ∈ c.waiterList, Given c u)
  | .broadcast => ∀ t ∈ c.waiterList, c.phase t ≠ .woken .etimedout
  | _ => True

/-- The steps of the run are possible, and its signals and broadcasts timely. -/
inductive TimelyRun [DecidableEq T] : Cond T → List (CondEvent T) → Prop
  | nil (c : Cond T) : TimelyRun c []
  | cons {c c' : Cond T} {e : CondEvent T} {es : List (CondEvent T)} (hstep : c.step e = some c')
      (htimely : Timely c e) (hrest : TimelyRun c' es) : TimelyRun c (e :: es)

/-! ### The invariant -/

/-- The threads in a wait are on the list, and none that has timed out has its semaphore. -/
structure CondInv (c : Cond T) : Prop where
  nodup : c.waiterList.Nodup
  mem_iff : ∀ t, t ∈ c.waiterList ↔ c.phase t ≠ .outside
  timedOut : ∀ t, c.phase t = .woken .etimedout → c.waitSem t = false

lemma condInv_init : CondInv (Cond.init : Cond T) :=
  ⟨List.nodup_nil, fun t => by simp [Cond.init], fun t h => rfl⟩

/-- A semaphore is given to threads that have not timed out. -/
lemma CondInv.give {c : Cond T} (h : CondInv c) (sem : T → Bool)
    (hsem : ∀ t, c.phase t = .woken .etimedout → sem t = c.waitSem t) :
    CondInv { c with waitSem := sem } :=
  ⟨h.nodup, h.mem_iff, fun t ht => (hsem t ht).trans (h.timedOut t ht)⟩

variable [DecidableEq T] {c c' : Cond T}

lemma CondInv.enter (h : CondInv c) {thread : T} (hout : c.phase thread = .outside)
    (ticks : Option ℕ) : CondInv (timedwaitEnter c thread ticks) := by
  have hnot : thread ∉ c.waiterList := fun hmem => (h.mem_iff thread).mp hmem hout
  refine ⟨?_, fun t => ?_, fun t ht => ?_⟩
  · refine List.nodup_append.mpr ⟨h.nodup, List.nodup_singleton _, ?_⟩
    rintro t ht _ hmem rfl
    exact hnot (List.mem_singleton.mp hmem ▸ ht)
  · by_cases heq : t = thread
    · subst heq
      simp [timedwaitEnter]
    · simpa [timedwaitEnter, heq] using h.mem_iff t
  · by_cases heq : t = thread
    · subst heq
      simp [timedwaitEnter]
    · simp only [timedwaitEnter, Function.update_of_ne heq] at ht ⊢
      exact h.timedOut t ht

lemma CondInv.leave (h : CondInv c) (thread : T) : CondInv (timedwaitLeave c thread) := by
  refine ⟨h.nodup.erase thread, fun t => ?_, fun t ht => ?_⟩
  · by_cases heq : t = thread
    · subst heq
      simp [timedwaitLeave, h.nodup.not_mem_erase]
    · simpa [timedwaitLeave, heq, List.mem_erase_of_ne heq] using h.mem_iff t
  · by_cases heq : t = thread
    · subst heq
      simp [timedwaitLeave] at ht
    · simp only [timedwaitLeave, Function.update_of_ne heq] at ht ⊢
      exact h.timedOut t ht

lemma CondInv.wake (h : CondInv c) {thread : T} (hin : c.phase thread ≠ .outside) {ret : WaitRet}
    {sem : T → Bool} (hsem : ∀ t ≠ thread, sem t = c.waitSem t) (hthread : sem thread = false) :
    CondInv { c with
      waitSem := sem
      phase := Function.update c.phase thread (.woken ret) } := by
  refine ⟨h.nodup, fun t => ?_, fun t ht => ?_⟩
  · by_cases heq : t = thread
    · subst heq
      simpa [hin] using h.mem_iff t
    · simpa [heq] using h.mem_iff t
  · by_cases heq : t = thread
    · subst heq
      exact hthread
    · simp only [Function.update_of_ne heq] at ht
      exact (hsem t heq).trans (h.timedOut t ht)

lemma CondInv.signal (h : CondInv c) (htimely : Timely c .signal) :
    CondInv (pthreadCondSignal c) := by
  unfold pthreadCondSignal
  split
  · exact h
  · next entry rest hlist =>
    refine h.give (Function.update c.waitSem entry true) fun t ht => Function.update_of_ne ?_ _ _
    rintro rfl
    exact (htimely t (by rw [hlist]; rfl)).1 ht

lemma CondInv.broadcast (h : CondInv c) (htimely : Timely c .broadcast) :
    CondInv (pthreadCondBroadcast c) := by
  refine h.give _ fun t ht => ?_
  have hnot : t ∉ c.waiterList := fun hmem => htimely t hmem ht
  simp [hnot]

/-- A timely step keeps the invariant. -/
lemma CondInv.step (h : CondInv c) {e : CondEvent T} (hstep : c.step e = some c')
    (htimely : Timely c e) : CondInv c' := by
  cases e with
  | timedwait thread deadline cur =>
    simp only [Cond.step] at hstep
    split at hstep
    · next hout =>
      split at hstep
      · obtain rfl := Option.some_inj.mp hstep
        exact h.enter hout _
      · obtain rfl := Option.some_inj.mp hstep
        exact h
    · exact absurd hstep (by simp)
  | take thread =>
    simp only [Cond.step] at hstep
    split at hstep
    · next hwait =>
      split at hstep
      · obtain rfl := Option.some_inj.mp hstep
        exact h.wake (by simp [hwait]) (fun t ht => Function.update_of_ne ht _ _)
          (Function.update_self _ _ _)
      · exact absurd hstep (by simp)
    · exact absurd hstep (by simp)
  | timeout thread =>
    simp only [Cond.step] at hstep
    split at hstep
    · next hwait =>
      split at hstep
      · exact absurd hstep (by simp)
      · next hsem =>
        obtain rfl := Option.some_inj.mp hstep
        exact h.wake (by simp [hwait]) (fun _ _ => rfl) (by simpa using hsem)
    · exact absurd hstep (by simp)
  | leave thread =>
    simp only [Cond.step] at hstep
    split at hstep
    · obtain rfl := Option.some_inj.mp hstep
      exact h.leave thread
    · exact absurd hstep (by simp)
  | signal =>
    obtain rfl := Option.some_inj.mp hstep
    exact h.signal htimely
  | broadcast =>
    obtain rfl := Option.some_inj.mp hstep
    exact h.broadcast htimely

/-! ### Timely signals are not lost -/

lemma signal_nothingLost (htimely : Timely c .signal) :
    NothingLost c .signal (pthreadCondSignal c) := by
  rintro ⟨u, hu, hungiven⟩
  cases hlist : c.waiterList with
  | nil => simp [hlist] at hu
  | cons entry rest =>
    have hentry : ¬ Given c entry := fun hgiven =>
      hungiven ((htimely entry (by rw [hlist]; rfl)).2 hgiven u hu)
    exact ⟨entry, List.mem_cons_self, hentry, .inl (by simp [pthreadCondSignal, hlist])⟩

lemma broadcast_nothingLost : NothingLost c .broadcast (pthreadCondBroadcast c) :=
  fun t ht => .inl (by simp [pthreadCondBroadcast, ht])

/-- A timely step loses nothing. -/
lemma CondInv.nothingLost (h : CondInv c) {e : CondEvent T} (hstep : c.step e = some c')
    (htimely : Timely c e) : NothingLost c e c' := by
  cases e with
  | timedwait thread deadline cur => trivial
  | take thread => trivial
  | timeout thread => trivial
  | leave thread =>
    rintro (hgiven | hok)
    · -- the thread has run again, and not because of a time-out
      simp only [Cond.step] at hstep
      split at hstep
      · next ret hret =>
        cases ret with
        | ok => exact hret
        | etimedout => exact absurd hgiven (by simp [h.timedOut thread hret])
      · exact absurd hstep (by simp)
    · exact hok
  | signal =>
    obtain rfl := Option.some_inj.mp hstep
    exact signal_nothingLost htimely
  | broadcast =>
    obtain rfl := Option.some_inj.mp hstep
    exact broadcast_nothingLost

lemma CondInv.neverLost {es : List (CondEvent T)} (h : CondInv c) (hrun : TimelyRun c es) :
    NeverLost c es := by
  induction hrun with
  | nil c => exact .nil c
  | cons hstep htimely _ ih =>
    exact .cons hstep (h.nothingLost hstep htimely) (ih (h.step hstep htimely))

/-- In every run whose signals find the first thread of the list without its semaphore, unless
all have theirs, and whose signals and broadcasts find no thread that has timed out, a signal
releases a thread that was not released before, a broadcast releases all, and a thread that was
released returns `0`. -/
theorem no_signal_lost {es : List (CondEvent T)} (hrun : TimelyRun (Cond.init : Cond T) es) :
    NeverLost (Cond.init : Cond T) es :=
  condInv_init.neverLost hrun

instance (c : Cond T) (t : T) : Decidable (Given c t) := inferInstanceAs (Decidable (_ ∨ _))

/-- Two threads wait and are released one after the other. -/
theorem no_signal_lost_example :
    NeverLost (Cond.init : Cond Bool)
      [.timedwait true none ⟨0, 0⟩, .timedwait false none ⟨0, 0⟩, .signal, .take true, .leave true,
        .signal, .take false, .leave false] := by
  refine no_signal_lost ?_
  refine .cons rfl trivial (.cons rfl trivial (.cons rfl ?_ (.cons rfl trivial (.cons rfl trivial
    (.cons rfl ?_ (.cons rfl trivial (.cons rfl trivial (.nil _))))))))
  all_goals
    rintro t ⟨⟩
    exact ⟨by decide, fun h => absurd h (by decide)⟩

/-- The state after a run. -/
def Cond.run (c : Cond T) (es : List (CondEvent T)) : Option (Cond T) := es.foldlM Cond.step c

/-- The second of two signals gives the semaphore of the first thread again, so that the other
thread is not released; and a thread that times out is given its semaphore before it has left
the list, and returns `ETIMEDOUT`. -/
theorem signal_lost :
    (∃ c c' : Cond Bool,
      Cond.init.run [.timedwait true none ⟨0, 0⟩, .timedwait false none ⟨0, 0⟩, .signal] = some c ∧
        c.step .signal = some c' ∧ ¬ NothingLost c .signal c') ∧
    ∃ c c' : Cond Bool,
      Cond.init.run [.timedwait true (some ⟨1, 0⟩) ⟨0, 0⟩, .timeout true, .signal] = some c ∧
        c.step (.leave true) = some c' ∧ ¬ NothingLost c (.leave true) c' := by
  refine ⟨⟨_, _, rfl, rfl, fun h => ?_⟩, _, _, rfl, rfl, fun h => ?_⟩
  · obtain ⟨t, -, hungiven, hgiven⟩ := h ⟨false, by decide, by decide⟩
    cases t with
    | false => exact absurd hgiven (by decide)
    | true => exact hungiven (by decide)
  · exact absurd (h (by decide)) (by decide)

end EspIdf.Pthread
