/-
# Timers fire when they are due

The list is ordered by the alarms, and what a started timer fired so far is determined by its
alarm.  Both are kept by every call, and by the loop that calls the callbacks.
-/
import EspIdf.EspTimer.Runs

namespace EspIdf.EspTimer

variable {s : State} {stamp stamp' : ℕ → ℕ} {timer : ℕ} {t : Timer}

/-! ### The list -/

/-- The armed timers stand in the list, in order. -/
structure Listed (s : State) (stamp : ℕ → ℕ) : Prop where
  mem_iff : ∀ timer, timer ∈ s.sTimers ↔
    (s.timers timer).allocated = true ∧ (s.timers timer).alarm ≠ 0
  nodup : s.sTimers.Nodup
  sorted : s.sTimers.Pairwise (Deadlines.Before (fun timer => (s.timers timer).alarm) stamp)
  alarmSet : ∀ timer, s.sTimers.head? = some timer → s.alarmSet ≤ (s.timers timer).alarm

@[simp] lemma setTimer_sTimers : (s.setTimer timer t).sTimers = s.sTimers := rfl

lemma setTimer_self : (s.setTimer timer t).timers timer = t := Function.update_self ..

lemma setTimer_of_ne {other : ℕ} (h : other ≠ timer) :
    (s.setTimer timer t).timers other = s.timers other := Function.update_of_ne h ..

@[simp] lemma timerInsert_timers : (timerInsert s timer).timers = s.timers := rfl

@[simp] lemma mem_timerInsert {other : ℕ} :
    other ∈ (timerInsert s timer).sTimers ↔ other = timer ∨ other ∈ s.sTimers :=
  Deadlines.mem_insert

lemma Listed.alarmSet_le (h : Listed s stamp) (hmem : timer ∈ s.sTimers) :
    s.alarmSet ≤ (s.timers timer).alarm := by
  cases hl : s.sTimers with
  | nil =>
    rw [hl] at hmem
    exact absurd hmem List.not_mem_nil
  | cons first rest =>
    have hfirst := h.alarmSet first (by rw [hl]; rfl)
    have hsorted := h.sorted
    rw [hl] at hmem hsorted
    have hle := Deadlines.head_le hsorted hmem
    exact Nat.le_trans hfirst hle

/-- A timer that is not in the list is armed and inserted. -/
lemma Listed.insert (h : Listed s stamp) (hnot : timer ∉ s.sTimers) (halloc : t.allocated = true)
    (halarm : t.alarm ≠ 0) (hstamp : ∀ other ∈ s.sTimers, stamp' other = stamp other)
    (hlast : ∀ other ∈ s.sTimers, stamp' other < stamp' timer) :
    Listed (timerInsert (s.setTimer timer t) timer) stamp' := by
  have hother (other : ℕ) (hmem : other ∈ s.sTimers) :
      (s.setTimer timer t).timers other = s.timers other :=
    setTimer_of_ne fun heq => hnot (heq ▸ hmem)
  constructor
  case mem_iff =>
    intro other
    rw [mem_timerInsert, timerInsert_timers]
    by_cases heq : other = timer
    · subst heq
      rw [setTimer_self]
      exact ⟨fun _ => ⟨halloc, halarm⟩, fun _ => .inl rfl⟩
    · rw [setTimer_of_ne heq, setTimer_sTimers, h.mem_iff]
      exact ⟨fun hor => hor.resolve_left heq, .inr⟩
  case nodup => exact Deadlines.nodup_insert hnot h.nodup
  case sorted =>
    refine Deadlines.pairwise_insert (Deadlines.pairwise_congr h.sorted (fun other hmem => ?_)
      hstamp) hlast
    exact congrArg Timer.alarm (hother other hmem)
  case alarmSet =>
    intro first hfirst
    change (if (timerInsert (s.setTimer timer t) timer).sTimers.head? = some timer then _
      else s.alarmSet) ≤ _
    split
    · next heq =>
      rw [heq, Option.some.injEq] at hfirst
      rw [← hfirst]
      exact Nat.le_refl _
    · next hne =>
      rcases Deadlines.head?_insert (fun it => ((s.setTimer timer t).timers it).alarm) timer
        s.sTimers with heq | ⟨b, hb, hhead, -⟩
      · exact absurd heq hne
      · obtain rfl : b = first := Option.some.inj (hb.symm.trans hfirst)
        rw [timerInsert_timers, hother b (List.mem_of_mem_head? hhead)]
        exact h.alarmSet b hhead

/-- A timer that is not armed any more leaves the list. -/
lemma Listed.remove (h : Listed s stamp) (hgone : t.allocated = true → t.alarm = 0)
    {l : List ℕ} (hl : l = s.sTimers.erase timer) (hstamp : ∀ other, stamp' other = stamp other) :
    Listed ({ s with sTimers := l }.setTimer timer t) stamp' := by
  have hmem (other : ℕ) : other ∈ l ↔ other ≠ timer ∧ other ∈ s.sTimers := by
    rw [hl, h.nodup.mem_erase_iff]
  have hother (other : ℕ) (hin : other ∈ l) :
      ({ s with sTimers := l }.setTimer timer t).timers other = s.timers other :=
    setTimer_of_ne ((hmem other).mp hin).1
  constructor
  case mem_iff =>
    intro other
    rw [setTimer_sTimers, hmem]
    by_cases heq : other = timer
    · subst heq
      rw [setTimer_self]
      exact ⟨fun hne => absurd rfl hne.1, fun hand => absurd (hgone hand.1) hand.2⟩
    · rw [setTimer_of_ne heq, h.mem_iff]
      exact ⟨fun hand => hand.2, fun hand => ⟨heq, hand⟩⟩
  case nodup => exact hl ▸ h.nodup.erase timer
  case sorted =>
    refine Deadlines.pairwise_congr (hl ▸ h.sorted.sublist List.erase_sublist)
      (fun other hin => ?_) fun other _ => hstamp other
    exact congrArg Timer.alarm (hother other hin)
  case alarmSet =>
    intro first hfirst
    have hin := List.mem_of_mem_head? hfirst
    rw [hother first hin]
    exact h.alarmSet_le ((hmem first).mp hin).2

/-! ### The invariant -/

lemma insertedAt_le (timer : ℕ) (events : List Event) : insertedAt timer events ≤ events.length := by
  induction events with
  | nil => exact Nat.le_refl _
  | cons event events ih =>
    cases event with
    | inserted timer' =>
      rw [insertedAt, List.length_cons]
      split
      · exact Nat.le_refl _
      · exact Nat.le_succ_of_le ih
    | _ => exact Nat.le_succ_of_le ih

/-- The list is in order, the alarms of started timers say what was fired, and what was fired
was due. -/
structure Inv (w : World) : Prop where
  pos : 0 < w.now
  lt : w.now < 2 ^ 63
  allocated : ∀ timer, (w.state.timers timer).deleteEvent = false →
    (w.state.timers timer).allocated = true
  listed : Listed w.state (insertedAt · w.events)
  period_le : ∀ timer ∈ w.state.sTimers, (w.state.timers timer).period ≤ 2 ^ 63
  fired_lt : ∀ alarm ∈ firedAlarms w.events, alarm < w.now
  fired_le : ∀ alarm ∈ firedAlarms w.events, ∀ timer ∈ w.state.sTimers,
    alarm ≤ (w.state.timers timer).alarm
  track : ∀ timer ∈ w.state.sTimers, (w.state.timers timer).deleteEvent = false →
    ∃ t₀, lastStart timer w.events = some (t₀, (w.state.timers timer).period) ∧
      ((w.state.timers timer).period = 0 → firings timer w.events = 0) ∧
      (0 < (w.state.timers timer).period → (w.state.timers timer).alarm =
        t₀ + (firings timer w.events + 1) * (w.state.timers timer).period)
  periodic : ∀ timer t₀ period, lastStart timer w.events = some (t₀, period) → 0 < period →
    timer ∈ w.state.sTimers ∧ (w.state.timers timer).deleteEvent = false ∧
      (w.state.timers timer).period = period ∧
      (0 < firings timer w.events → t₀ + firings timer w.events * period < w.now)
  punctual : Punctual w.events

variable {w : World}

lemma Inv.correct (h : Inv w) : Correct w where
  armed := by
    intro timer halloc
    rw [h.listed.mem_iff]
    exact ⟨fun hand => hand.2, fun hne => ⟨halloc, hne⟩⟩
  nodup := h.listed.nodup
  sorted := h.listed.sorted
  alarmSet := h.listed.alarmSet
  punctual := h.punctual

/-- If no alarm is over, all periods are caught up with. -/
lemma Inv.caughtUp (h : Inv w) (hdone : ∀ timer ∈ w.state.sTimers,
    w.now ≤ (w.state.timers timer).alarm) : CaughtUp w := by
  intro timer t₀ period hstart hpos k hk
  obtain ⟨hmem, hdelete, hperiod, hpassed⟩ := h.periodic timer t₀ period hstart hpos
  obtain ⟨t₁, hstart', -, halarm⟩ := h.track timer hmem hdelete
  rw [hstart, hperiod, Option.some.injEq, Prod.mk.injEq] at hstart'
  obtain ⟨rfl, -⟩ := hstart'
  rw [hperiod] at halarm
  have hnow := hdone timer hmem
  rw [halarm hpos] at hnow
  constructor
  · intro hlt
    by_contra hgt
    have := Nat.mul_le_mul_right period (show firings timer w.events + 1 ≤ k by omega)
    omega
  · intro hle
    have := Nat.mul_le_mul_right period hle
    have := hpassed (by omega)
    omega

lemma inv_init {now : ℕ} (initialized : Bool) (hpos : 0 < now) (hlt : now < 2 ^ 63) :
    Inv (World.init now initialized) where
  pos := hpos
  lt := hlt
  allocated := fun _ _ => rfl
  listed := {
    mem_iff := by simp [World.init]
    nodup := List.nodup_nil
    sorted := List.Pairwise.nil
    alarmSet := by simp [World.init] }
  period_le := by simp [World.init]
  fired_lt := by simp [World.init, firedAlarms]
  fired_le := by simp [World.init]
  track := by simp [World.init]
  periodic := by simp [World.init, lastStart]
  punctual := trivial

/-! ### Steps -/

/-- The clock goes on. -/
lemma Inv.tick (h : Inv w) {now : ℕ} (hle : w.now ≤ now) (hlt : now < 2 ^ 63) :
    Inv { w with now := now } where
  pos := Nat.lt_of_lt_of_le h.pos hle
  lt := hlt
  allocated := h.allocated
  listed := h.listed
  period_le := h.period_le
  fired_lt := fun alarm hmem => Nat.lt_of_lt_of_le (h.fired_lt alarm hmem) hle
  fired_le := h.fired_le
  track := h.track
  periodic := by
    intro timer t₀ period hstart hpos
    obtain ⟨hmem, hdelete, hperiod, hpassed⟩ := h.periodic timer t₀ period hstart hpos
    exact ⟨hmem, hdelete, hperiod, fun hfired => Nat.lt_of_lt_of_le (hpassed hfired) hle⟩
  punctual := h.punctual

/-- A timer is started or deleted. -/
lemma Inv.insert (h : Inv w) {event : Event} (hnot : timer ∉ w.state.sTimers)
    (halloc : t.allocated = true) (hnow : w.now ≤ t.alarm) (hperiod : t.period ≤ 2 ^ 63)
    (hevent : event = .started timer w.now t.period ∧ t.deleteEvent = false ∧
        (0 < t.period → t.alarm = w.now + t.period) ∨
      event = .deleted timer ∧ t.deleteEvent = true) :
    Inv { w with
      state := timerInsert (w.state.setTimer timer t) timer
      events := .inserted timer :: event :: w.events } := by
  have hne (other : ℕ) (hmem : other ∈ w.state.sTimers) : other ≠ timer :=
    fun heq => hnot (heq ▸ hmem)
  have hstart (other : ℕ) (ho : other ≠ timer) :
      lastStart other (.inserted timer :: event :: w.events) = lastStart other w.events := by
    rcases hevent with ⟨rfl, -⟩ | ⟨rfl, -⟩
    · simp only [lastStart, if_neg ho.symm]
    · simp only [lastStart, if_neg ho.symm]
  have hfirings (other : ℕ) (ho : other ≠ timer) :
      firings other (.inserted timer :: event :: w.events) = firings other w.events := by
    rcases hevent with ⟨rfl, -⟩ | ⟨rfl, -⟩
    · simp only [firings, if_neg ho.symm]
    · rfl
  have hfired : firedAlarms (.inserted timer :: event :: w.events) = firedAlarms w.events := by
    rcases hevent with ⟨rfl, -⟩ | ⟨rfl, -⟩
    · rfl
    · rfl
  have hinserted (other : ℕ) : insertedAt other (event :: w.events) = insertedAt other w.events := by
    rcases hevent with ⟨rfl, -⟩ | ⟨rfl, -⟩
    · rfl
    · rfl
  constructor
  case pos => exact h.pos
  case lt => exact h.lt
  case allocated =>
    intro other hdelete
    change ((w.state.setTimer timer t).timers other).deleteEvent = false at hdelete
    change ((w.state.setTimer timer t).timers other).allocated = true
    by_cases ho : other = timer
    · rw [ho, setTimer_self]
      exact halloc
    · rw [setTimer_of_ne ho] at hdelete ⊢
      exact h.allocated other hdelete
  case listed =>
    refine h.listed.insert hnot halloc ?_ (fun other hmem => ?_) fun other hmem => ?_
    · have := h.pos
      omega
    · simp only [insertedAt, if_neg (hne other hmem).symm, hinserted]
    · have := insertedAt_le other w.events
      simp only [insertedAt, if_neg (hne other hmem).symm, hinserted, List.length_cons, if_true]
      omega
  case period_le =>
    intro other hmem
    change ((w.state.setTimer timer t).timers other).period ≤ 2 ^ 63
    by_cases ho : other = timer
    · rw [ho, setTimer_self]
      exact hperiod
    · rw [setTimer_of_ne ho]
      exact h.period_le other ((mem_timerInsert.mp hmem).resolve_left ho)
  case fired_lt =>
    intro alarm hmem
    rw [hfired] at hmem
    exact h.fired_lt alarm hmem
  case fired_le =>
    intro alarm halarm other hmem
    rw [hfired] at halarm
    change alarm ≤ ((w.state.setTimer timer t).timers other).alarm
    by_cases ho : other = timer
    · rw [ho, setTimer_self]
      have := h.fired_lt alarm halarm
      omega
    · rw [setTimer_of_ne ho]
      exact h.fired_le alarm halarm other ((mem_timerInsert.mp hmem).resolve_left ho)
  case track =>
    intro other hmem hdelete
    change ((w.state.setTimer timer t).timers other).deleteEvent = false at hdelete
    change ∃ t₀, lastStart other _ =
      some (t₀, ((w.state.setTimer timer t).timers other).period) ∧ _
    by_cases ho : other = timer
    · subst ho
      rw [setTimer_self] at hdelete
      rcases hevent with ⟨rfl, -, halarm⟩ | ⟨-, hdel⟩
      · refine ⟨w.now, by simp only [lastStart, if_true, setTimer_self], fun _ => ?_, ?_⟩
        · simp only [firings, if_true]
        · simp only [firings, if_true, timerInsert_timers, setTimer_self, Nat.zero_add,
            Nat.one_mul]
          exact halarm
      · rw [hdel] at hdelete
        exact absurd hdelete (by simp)
    · simp only [timerInsert_timers, setTimer_of_ne ho, hstart other ho, hfirings other ho] at *
      exact h.track other ((mem_timerInsert.mp hmem).resolve_left ho) hdelete
  case periodic =>
    intro other t₀ period hlast hpos
    by_cases ho : other = timer
    · subst ho
      rcases hevent with ⟨rfl, hdelete, -⟩ | ⟨rfl, -⟩
      · simp only [lastStart, if_true, Option.some.injEq, Prod.mk.injEq] at hlast
        refine ⟨mem_timerInsert.mpr (.inl rfl), ?_, ?_, fun hfir => ?_⟩
        · simp only [timerInsert_timers, setTimer_self, hdelete]
        · simp only [timerInsert_timers, setTimer_self, hlast.2]
        · simp only [firings, if_true] at hfir
          exact absurd hfir (Nat.lt_irrefl 0)
      · simp only [lastStart, if_true] at hlast
        exact absurd hlast (by simp)
    · rw [hstart other ho] at hlast
      obtain ⟨hmem, hrest⟩ := h.periodic other t₀ period hlast hpos
      simp only [timerInsert_timers, setTimer_of_ne ho, hfirings other ho]
      exact ⟨mem_timerInsert.mpr (.inr hmem), hrest⟩
  case punctual =>
    rcases hevent with ⟨rfl, -⟩ | ⟨rfl, -⟩
    · exact h.punctual
    · exact h.punctual

/-- A timer leaves the list: it is stopped, freed, or it fired once. -/
lemma Inv.remove (h : Inv w) {l : List ℕ} {events : List Event} (depth : ℕ)
    (hgone : t.allocated = true → t.alarm = 0)
    (halloc : t.deleteEvent = false → t.allocated = true) (hl : l = w.state.sTimers.erase timer)
    (hinserted : ∀ other, insertedAt other events = insertedAt other w.events)
    (hfired : ∀ alarm ∈ firedAlarms events, alarm ∈ firedAlarms w.events ∨
      alarm < w.now ∧ ∀ other ∈ w.state.sTimers, alarm ≤ (w.state.timers other).alarm)
    (hother : ∀ other ≠ timer, lastStart other events = lastStart other w.events ∧
      firings other events = firings other w.events)
    (hself : ∀ t₀ period, lastStart timer events = some (t₀, period) → period = 0)
    (hpunctual : Punctual events) :
    Inv ⟨{ w.state with sTimers := l }.setTimer timer t, w.now, depth, events⟩ := by
  have hmem (other : ℕ) : other ∈ l ↔ other ≠ timer ∧ other ∈ w.state.sTimers := by
    rw [hl, h.listed.nodup.mem_erase_iff]
  have hkeep (other : ℕ) (ho : other ≠ timer) :
      ({ w.state with sTimers := l }.setTimer timer t).timers other = w.state.timers other :=
    setTimer_of_ne ho
  constructor
  case pos => exact h.pos
  case lt => exact h.lt
  case allocated =>
    intro other hdelete
    by_cases ho : other = timer
    · subst ho
      rw [setTimer_self] at hdelete ⊢
      exact halloc hdelete
    · rw [hkeep other ho] at hdelete ⊢
      exact h.allocated other hdelete
  case listed => exact h.listed.remove hgone hl hinserted
  case period_le =>
    intro other hin
    have hin := (hmem other).mp hin
    rw [hkeep other hin.1]
    exact h.period_le other hin.2
  case fired_lt =>
    intro alarm halarm
    rcases hfired alarm halarm with hold | hnew
    · exact h.fired_lt alarm hold
    · exact hnew.1
  case fired_le =>
    intro alarm halarm other hin
    have hin := (hmem other).mp hin
    rw [hkeep other hin.1]
    rcases hfired alarm halarm with hold | hnew
    · exact h.fired_le alarm hold other hin.2
    · exact hnew.2 other hin.2
  case track =>
    intro other hin hdelete
    have hin := (hmem other).mp hin
    simp only [hkeep other hin.1, (hother other hin.1).1, (hother other hin.1).2] at hdelete ⊢
    exact h.track other hin.2 hdelete
  case periodic =>
    intro other t₀ period hstart hpos
    by_cases ho : other = timer
    · subst ho
      exact absurd (hself t₀ period hstart) (Nat.ne_of_gt hpos)
    · rw [(hother other ho).1] at hstart
      obtain ⟨hin, hrest⟩ := h.periodic other t₀ period hstart hpos
      simp only [hkeep other ho, (hother other ho).2]
      exact ⟨(hmem other).mpr ⟨ho, hin⟩, hrest⟩
  case punctual => exact hpunctual

/-- What is called is due, and comes after what was called before. -/
lemma Inv.punctual_fired (h : Inv w) {events : List Event} (hmem : timer ∈ w.state.sTimers)
    (hdelete : (w.state.timers timer).deleteEvent = false)
    (hdue : (w.state.timers timer).alarm < w.now) (hpunctual : Punctual events)
    (hfired : firedAlarms events = firedAlarms w.events)
    (hsame : lastStart timer events = lastStart timer w.events ∧
      firings timer events = firings timer w.events) :
    Punctual (.fired timer (w.state.timers timer).alarm w.now :: events) := by
  obtain ⟨t₀, hstart, honce, halarm⟩ := h.track timer hmem hdelete
  refine ⟨hpunctual, hdue, fun alarm hal => ?_, t₀, _, hsame.1.trans hstart, ?_, ?_⟩
  · rw [hfired] at hal
    exact h.fired_le alarm hal timer hmem
  · rw [hsame.2]
    exact honce
  · rw [hsame.2]
    exact halarm

/-- The first timer is periodic, and its alarm is over. -/
lemma Inv.rearm (h : Inv w) {rest : List ℕ} (depth : ℕ) (hl : w.state.sTimers = timer :: rest)
    (hdelete : (w.state.timers timer).deleteEvent = false)
    (hdue : (w.state.timers timer).alarm < w.now) (hperiod : 0 < (w.state.timers timer).period) :
    Inv ⟨timerInsert ({ w.state with sTimers := rest }.setTimer timer
      { w.state.timers timer with
        alarm := ((w.state.timers timer).alarm + (w.state.timers timer).period) % 2 ^ 64 }) timer,
      w.now, depth,
      .fired timer (w.state.timers timer).alarm w.now :: .inserted timer :: w.events⟩ := by
  have hmem : timer ∈ w.state.sTimers := by
    rw [hl]
    exact List.mem_cons_self
  have hnodup := h.listed.nodup
  rw [hl, List.nodup_cons] at hnodup
  have hrest (other : ℕ) (hin : other ∈ rest) : other ∈ w.state.sTimers ∧ other ≠ timer := by
    rw [hl]
    exact ⟨List.mem_cons_of_mem _ hin, fun heq => hnodup.1 (heq ▸ hin)⟩
  have hwrap : ((w.state.timers timer).alarm + (w.state.timers timer).period) % 2 ^ 64 =
      (w.state.timers timer).alarm + (w.state.timers timer).period := by
    have := h.lt
    have := h.period_le timer hmem
    exact Nat.mod_eq_of_lt (by omega)
  have hfirst (other : ℕ) (hin : other ∈ w.state.sTimers) :
      (w.state.timers timer).alarm ≤ (w.state.timers other).alarm := by
    have hsorted := h.listed.sorted
    rw [hl] at hin hsorted
    have hle := Deadlines.head_le hsorted hin
    exact hle
  obtain ⟨t₀, hstart, -, halarm⟩ := h.track timer hmem hdelete
  rw [hwrap]
  constructor
  case pos => exact h.pos
  case lt => exact h.lt
  case allocated =>
    intro other hdel
    rw [timerInsert_timers] at hdel ⊢
    by_cases ho : other = timer
    · subst ho
      rw [setTimer_self] at hdel ⊢
      exact h.allocated other hdel
    · rw [setTimer_of_ne ho] at hdel ⊢
      exact h.allocated other hdel
  case listed =>
    -- the timer is taken off the list and put back
    have hoff := h.listed.remove (t := { w.state.timers timer with alarm := 0 }) (fun _ => rfl)
      (show rest = w.state.sTimers.erase timer by rw [hl, List.erase_cons_head]) fun _ => rfl
    have hnot : timer ∉ ({ w.state with sTimers := rest }.setTimer timer
        { w.state.timers timer with alarm := 0 }).sTimers := hnodup.1
    have hon : Listed _ fun other => insertedAt other
        (.fired timer (w.state.timers timer).alarm w.now :: .inserted timer :: w.events) :=
      hoff.insert (t := { w.state.timers timer with
        alarm := (w.state.timers timer).alarm + (w.state.timers timer).period }) hnot ((h.listed.mem_iff timer).mp hmem).1 (by dsimp only; omega)
      (fun other hin => ?_) fun other hin => ?_
    · rw [State.setTimer, State.setTimer, Function.update_idem] at hon
      exact hon
    · simp only [insertedAt, if_neg (hrest other hin).2.symm]
    · have := insertedAt_le other w.events
      simp only [insertedAt, if_neg (hrest other hin).2.symm, if_true]
      omega
  case period_le =>
    intro other hin
    rw [timerInsert_timers]
    by_cases ho : other = timer
    · rw [ho, setTimer_self]
      exact h.period_le timer hmem
    · rw [setTimer_of_ne ho]
      exact h.period_le other (hrest other ((mem_timerInsert.mp hin).resolve_left ho)).1
  case fired_lt =>
    intro alarm hal
    rcases List.mem_cons.mp hal with rfl | hal
    · exact hdue
    · exact h.fired_lt alarm hal
  case fired_le =>
    intro alarm hal other hin
    rw [timerInsert_timers]
    have hle : alarm ≤ (w.state.timers timer).alarm := by
      rcases List.mem_cons.mp hal with rfl | hal
      · exact Nat.le_refl _
      · exact h.fired_le alarm hal timer hmem
    by_cases ho : other = timer
    · rw [ho, setTimer_self]
      exact Nat.le_trans hle (Nat.le_add_right ..)
    · rw [setTimer_of_ne ho]
      exact Nat.le_trans hle
        (hfirst other (hrest other ((mem_timerInsert.mp hin).resolve_left ho)).1)
  case track =>
    intro other hin hdel
    rw [timerInsert_timers] at hdel ⊢
    by_cases ho : other = timer
    · subst ho
      rw [setTimer_self]
      refine ⟨t₀, hstart, fun hzero => absurd hzero (Nat.ne_of_gt hperiod), fun _ => ?_⟩
      dsimp only [firings]
      rw [if_pos rfl, halarm hperiod, Nat.add_assoc, ← Nat.succ_mul, Nat.add_comm 1]
    · rw [setTimer_of_ne ho] at hdel ⊢
      simp only [lastStart, firings, if_neg (Ne.symm ho), Nat.zero_add]
      exact h.track other (hrest other ((mem_timerInsert.mp hin).resolve_left ho)).1 hdel
  case periodic =>
    intro other t₁ period hlast hpos
    rw [timerInsert_timers]
    simp only [lastStart] at hlast
    obtain ⟨hin, hdel, hper, hpassed⟩ := h.periodic other t₁ period hlast hpos
    by_cases ho : other = timer
    · subst ho
      rw [setTimer_self]
      refine ⟨mem_timerInsert.mpr (.inl rfl), hdel, hper, fun _ => ?_⟩
      rw [hstart, Option.some.injEq, Prod.mk.injEq] at hlast
      rw [halarm hperiod, hlast.1, hper, Nat.add_comm (firings _ _)] at hdue
      simp only [firings, if_true]
      exact hdue
    · rw [setTimer_of_ne ho]
      simp only [firings, if_neg (Ne.symm ho), Nat.zero_add]
      refine ⟨mem_timerInsert.mpr (.inr ?_), hdel, hper, hpassed⟩
      rw [hl] at hin
      exact (List.mem_cons.mp hin).resolve_left ho
  case punctual =>
    exact h.punctual_fired hmem hdelete hdue h.punctual rfl ⟨rfl, rfl⟩

/-- The loop of `timer_process_alarm`.  If it ends, no alarm is over. -/
lemma inv_timerProcessAlarm (now depth : ℕ) (events : List Event) :
    ∀ (l : List ℕ) (s : State), Inv ⟨{ s with sTimers := l }, now, depth, events⟩ →
    (∀ timer alarm s', timerProcessAlarm now l s = (some (timer, alarm), s') → ∀ depth',
      Inv ⟨s', now, depth', .fired timer alarm now ::
        if (s'.timers timer).period > 0 then .inserted timer :: events else events⟩) ∧
    (∀ s', timerProcessAlarm now l s = (none, s') → ∀ depth', Inv ⟨s', now, depth', events⟩ ∧
      ∀ timer ∈ s'.sTimers, now ≤ (s'.timers timer).alarm) := by
  intro l
  induction l with
  | nil =>
    intro s h
    refine ⟨fun timer alarm s' heq => absurd heq (by simp [timerProcessAlarm]),
      fun s' heq depth' => ?_⟩
    obtain rfl : { s with sTimers := [] } = s' := congrArg Prod.snd heq
    exact ⟨{ h with }, fun timer hmem => absurd hmem List.not_mem_nil⟩
  | cons it rest ih =>
    intro s h
    have hit : it ∈ it :: rest := List.mem_cons_self
    rw [timerProcessAlarm]
    split
    · next hdue =>
      split
      · next hdelete =>
        -- the timer is freed, and the loop goes on
        refine ih _ (h.remove (t := { s.timers it with allocated := false }) depth (fun halloc => absurd halloc Bool.false_ne_true)
          (fun hdel => absurd (hdelete.symm.trans hdel) (by simp)) (List.erase_cons_head ..).symm (fun _ => rfl) (fun _ => .inl) (fun _ _ => ⟨rfl, rfl⟩)
          (fun t₀ period hstart => ?_) h.punctual)
        by_contra hne
        have hdel := (h.periodic it t₀ period hstart (Nat.pos_of_ne_zero hne)).2.1
        exact absurd (hdelete.symm.trans hdel) (by simp)
      · next hdelete =>
        rw [Bool.not_eq_true] at hdelete
        split
        · next hperiod =>
          refine ⟨fun timer alarm s' heq depth' => ?_, fun s' heq => absurd heq (by simp)⟩
          obtain ⟨⟨rfl, rfl⟩, rfl⟩ := by simpa only [Prod.mk.injEq, Option.some.injEq] using heq
          rw [timerInsert_timers, setTimer_self, if_pos hperiod]
          exact h.rearm depth' rfl hdelete hdue hperiod
        · next hperiod =>
          refine ⟨fun timer alarm s' heq depth' => ?_, fun s' heq => absurd heq (by simp)⟩
          obtain ⟨⟨rfl, rfl⟩, rfl⟩ := by simpa only [Prod.mk.injEq, Option.some.injEq] using heq
          rw [setTimer_self, if_neg hperiod]
          obtain ⟨t₀, hstart, -⟩ := h.track it hit hdelete
          refine h.remove depth' (fun _ => rfl) (fun hdel => h.allocated it hdel)
            (List.erase_cons_head ..).symm (fun _ => rfl)
            (fun alarm hal => ?_) (fun other ho => ⟨rfl, ?_⟩) (fun t₁ period hlast => ?_)
            (h.punctual_fired hit hdelete hdue h.punctual rfl ⟨rfl, rfl⟩)
          · rcases List.mem_cons.mp hal with rfl | hal
            · refine .inr ⟨hdue, fun other hin => ?_⟩
              have hle := Deadlines.head_le h.listed.sorted hin
              exact hle
            · exact .inl hal
          · simp only [firings, if_neg (Ne.symm ho), Nat.zero_add]
          · simp only [lastStart] at hlast
            rw [hstart, Option.some.injEq, Prod.mk.injEq] at hlast
            rw [← hlast.2]
            exact Nat.eq_zero_of_not_pos hperiod
    · next hdue =>
      refine ⟨fun timer alarm s' heq => absurd heq (by simp), fun s' heq depth' => ?_⟩
      obtain rfl := congrArg Prod.snd heq
      refine ⟨{ h with listed := { h.listed with alarmSet := ?_ } }, fun timer hmem => ?_⟩
      · rintro timer hhead
        obtain rfl : it = timer := Option.some.inj hhead
        exact Nat.le_refl _
      · have hle := Deadlines.head_le h.listed.sorted hmem
        exact Nat.le_trans (Nat.le_of_not_lt hdue) hle

/-- A timer that is not armed is not in the list. -/
lemma Inv.not_mem (h : Inv w) (hnot : timerArmed w.state timer = false) :
    timer ∉ w.state.sTimers := by
  intro hmem
  rw [timerArmed, decide_eq_false_iff_not] at hnot
  have := ((h.listed.mem_iff timer).mp hmem).2
  omega

/-- A call that succeeds or leaves the state as it is. -/
lemma Inv.start (h : Inv w) {t : Timer} {timer : ℕ} {initialized : Bool}
    (hdelete : (w.state.timers timer).deleteEvent = false) (ht : t.deleteEvent = false)
    (halloc : t.allocated = (w.state.timers timer).allocated) (hnow : w.now ≤ t.alarm)
    (hperiod : t.period ≤ 2 ^ 63) (halarm : 0 < t.period → t.alarm = w.now + t.period) :
    Inv (w.after (some timer)
      (fun timer => [.inserted timer, .started timer w.now t.period])
      (if !initialized || timerArmed w.state timer then (.error .invalidState, w.state)
      else (.ok (), timerInsert (w.state.setTimer timer t) timer))) := by
  split
  · exact h
  · next hno =>
    simp only [Bool.or_eq_true, not_or, Bool.not_eq_true] at hno
    exact h.insert (h.not_mem hno.2) (halloc.trans (h.allocated timer hdelete)) hnow hperiod
      (.inl ⟨rfl, ht, halarm⟩)

lemma Inv.goOn (h : Inv w) (depth : ℕ) : Inv (w.goOn depth) := by
  have hloop := inv_timerProcessAlarm w.now w.depth w.events w.state.sTimers w.state h
  rw [World.goOn]
  cases hres : timerProcessAlarm w.now w.state.sTimers w.state with
  | mk result s =>
    cases result with
    | none => exact (hloop.2 s hres _).1
    | some fired => exact hloop.1 fired.1 fired.2 s hres depth

lemma inv_step (h : Inv w) {op : Op} (hvalid : op.Valid w) : Inv (w.step op) := by
  have hlt := h.lt
  cases op with
  | tick now => exact h.tick hvalid.1 hvalid.2
  | startOnce timer timeoutUs =>
    cases timer with
    | none => exact h
    | some timer =>
      obtain ⟨hdelete, hle⟩ := hvalid
      have hwrap : (w.now + timeoutUs) % 2 ^ 64 = w.now + timeoutUs := Nat.mod_eq_of_lt (by omega)
      rw [World.step, espTimerStartOnce, hwrap]
      exact h.start (hdelete timer rfl) (hdelete timer rfl) rfl (Nat.le_add_right ..)
        (Nat.zero_le _) (fun hpos => absurd hpos (Nat.lt_irrefl 0))
  | startPeriodic timer periodUs =>
    cases timer with
    | none => exact h
    | some timer =>
      obtain ⟨hdelete, hle⟩ := hvalid
      have hmax : max periodUs espTimerImplGetMinPeriodUs ≤ 2 ^ 63 :=
        Nat.max_le.mpr ⟨by omega, by decide⟩
      have hwrap : (w.now + max periodUs espTimerImplGetMinPeriodUs) % 2 ^ 64 =
          w.now + max periodUs espTimerImplGetMinPeriodUs := Nat.mod_eq_of_lt (by omega)
      rw [World.step, espTimerStartPeriodic]
      dsimp only
      rw [hwrap]
      exact h.start (hdelete timer rfl) (hdelete timer rfl) rfl (Nat.le_add_right ..) hmax
        fun _ => rfl
  | stop timer =>
    cases timer with
    | none => exact h
    | some timer =>
      rw [World.step, espTimerStop]
      split
      · exact h
      · refine h.remove (t := { w.state.timers timer with
            alarm := 0
            period := 0 }) w.depth (fun _ => rfl) (fun hdel => h.allocated timer hdel) rfl
          (fun _ => rfl) (fun _ => .inl) (fun other ho => ?_) (fun t₀ period hstart => ?_)
          h.punctual
        · simp [lastStart, firings, Ne.symm ho]
        · simp [lastStart] at hstart
  | delete timer =>
    cases timer with
    | none => exact h
    | some timer =>
      rw [World.step, espTimerDelete]
      split
      · exact h
      · next hno =>
        exact h.insert (h.not_mem (by simpa using hno)) (h.allocated timer (hvalid timer rfl))
          (Nat.le_refl _) (Nat.zero_le _) (.inr ⟨rfl, rfl⟩)
  | processAlarm => exact h.goOn _
  | callbackReturns => exact h.goOn _

/-- When the loop ends, all periods are caught up with. -/
lemma Inv.finishes (h : Inv w) {op : Op} (hfin : op.Finishes w) : CaughtUp (w.step op) := by
  have hloop := inv_timerProcessAlarm w.now w.depth w.events w.state.sTimers w.state h
  have hend (depth : ℕ) (hnone : (timerProcessAlarm w.now w.state.sTimers w.state).1 = none) :
      CaughtUp (w.goOn depth) := by
    rw [World.goOn]
    cases hres : timerProcessAlarm w.now w.state.sTimers w.state with
    | mk result s =>
      rw [hres] at hnone
      obtain rfl : result = none := hnone
      obtain ⟨hinv, hdone⟩ := hloop.2 s hres (depth - 1)
      exact hinv.caughtUp hdone
  cases op with
  | processAlarm => exact hend _ hfin
  | callbackReturns => exact hend _ hfin
  | _ => exact hfin.elim

/-! ### Runs -/

lemma Inv.alwaysCorrect {ops : List Op} (h : Inv w) (hvalid : ValidRun w ops) :
    AlwaysCorrect w ops := by
  induction ops generalizing w with
  | nil => exact h.correct
  | cons op ops ih =>
    exact ⟨h.correct, h.finishes, ih (inv_step h hvalid.1) hvalid.2⟩

/-- In every run the armed timers stand in the list in order, the alarm that is set is not
later than the first, and callbacks are called when they are due, in order, while their timer
is started, once or one period after the other. -/
theorem always_correct (now : ℕ) (initialized : Bool) (ops : List Op) (hpos : 0 < now)
    (hlt : now < 2 ^ 63) (hvalid : ValidRun (World.init now initialized) ops) :
    AlwaysCorrect (World.init now initialized) ops :=
  (inv_init initialized hpos hlt).alwaysCorrect hvalid

/-- A periodic timer fires twice, and its second callback stops it. -/
theorem always_correct_example :
    AlwaysCorrect (World.init 1 true)
      [.startPeriodic (some 0) 100, .tick 250, .processAlarm, .callbackReturns, .stop (some 0),
        .callbackReturns] := by
  refine always_correct 1 true _ Nat.one_pos (by decide) ⟨?_, ?_, trivial, ?_, ?_, ?_, trivial⟩
  · exact ⟨fun i hi => rfl, by decide⟩
  · exact ⟨by decide, by decide⟩
  · exact Nat.one_pos
  · rintro i ⟨⟩
    rfl
  · exact Nat.one_pos

end EspIdf.EspTimer
