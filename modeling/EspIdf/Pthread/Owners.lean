/-
# Every thread is ended once

A descriptor is freed by the first of the joiner, the detacher and the thread that finds that the
thread has exited and is detached or joined; whoever frees it deletes the task, and nobody else
does.
-/
import EspIdf.Pthread.LifeCycle

namespace EspIdf.Pthread

variable {D H V : Type}

/-! ### What the life of a thread must be -/

/-- The task `c` is about to delete the task of the thread `n`. -/
def Deleting (s : Threads D H V) (n : ℕ) (c : H) : Prop :=
  (∃ handle v, s.place c = some (.joinDeleting handle v) ∧ s.thread handle = some n) ∨
    (s.place c = some .exitDeleting ∧ s.thread c = some n)

/-- The life of a thread is right. -/
structure LifeRight (s : Threads D H V) (n : ℕ) : Prop where
  /-- A join returns `0` only after the exit, and yields its value. -/
  value : ∀ v ∈ (s.life n).joins, (s.life n).exited = some v
  joinedOnce : (s.life n).joins.length ≤ 1
  freedOnce : (s.life n).frees ≤ 1
  deletedOnce : (s.life n).deletes ≤ (s.life n).frees
  /-- Nothing is freed before the exit. -/
  freed : (s.life n).frees = 1 → (s.life n).exited.isSome
  /-- After the descriptor is freed exactly one task has to delete the task. -/
  owner : (s.life n).deletes < (s.life n).frees → ∃! c, Deleting s n c
  joined : (s.life n).joins ≠ [] → (s.life n).frees = 1 ∧ (s.life n).deletes = 1
  detached : (s.life n).detached = true → (s.life n).joins = []
  detachedFreed : (s.life n).detached = true → (s.life n).exited.isSome → (s.life n).frees = 1

/-- A join that returns `0` is of a thread that has exited with the value. -/
def ReturnRight (s : Threads D H V) (ret : Option (Return V)) : Prop :=
  ∀ v, ret = some (.join none v) → ∃ n, (s.life n).exited = some v ∧ (s.life n).joins = [v]

/-- A step does not fault, unless a task that is not a thread calls `pthread_exit`. -/
structure StepRight [DecidableEq D] [DecidableEq H] [Zero V] (s : Threads D H V)
    (e : LifeEvent D H V) : Prop where
  fault : ∀ f, s.step e = some (.error f) →
    ∃ cur v, e = .exit cur v ∧ s.thread cur = none ∧ f = .assertion
  ret : ∀ s' ret, s.step e = some (.ok (s', ret)) → ReturnRight s' ret

/-! ### The invariant -/

/-- The new task that a task in `pthread_create` has not started. -/
def Place.creating : Place D H V → Option H
  | .inserting _ xHandle => some xHandle
  | .starting xHandle => some xHandle
  | _ => none

/-- The descriptor and the task that a task in `pthread_join` waits for. -/
def Place.joining : Place D H V → Option (D × H)
  | .joinWaiting pthread handle => some (pthread, handle)
  | .joinWoken pthread handle => some (pthread, handle)
  | _ => none

/-- The task that a task in `pthread_join` has to delete. -/
def Place.deleting : Place D H V → Option H
  | .joinDeleting handle _ => some handle
  | _ => none

/-- The list, the descriptors and the tasks belong together. -/
structure BaseInv (s : Threads D H V) : Prop where
  nodup : s.list.Nodup
  listed : ∀ d ∈ s.list, ∃ p, s.heap d = some p
  /-- A thread has one task. -/
  task : ∀ h n, s.thread h = some n → (∃ p, s.place h = some p) ∧ n < s.next
  taskInj : ∀ h h' n, s.thread h = some n → s.thread h' = some n → h = h'
  uncreated : ∀ n, s.next ≤ n → s.life n = Life.none
  /-- A descriptor belongs to a thread, and to one only. -/
  owner : ∀ d p, s.heap d = some p → s.thread p.handle = some p.id
  ownerInj : ∀ d d' p p', s.heap d = some p → s.heap d' = some p' → p.handle = p'.handle → d = d'
  /-- A descriptor that is not on the list is still with its creator. -/
  unlisted : ∀ d p, s.heap d = some p → d ∉ s.list → ∃ c, s.place c = some (.inserting d p.handle)
  inserting : ∀ c d h, s.place c = some (.inserting d h) →
    d ∉ s.list ∧ ∃ p, s.heap d = some p ∧ p.handle = h
  creating : ∀ c w h, s.place c = some w → w.creating = some h →
    s.place h = some .notStarted ∧ s.notified h = false
  creatingInj : ∀ c c' w w' h, s.place c = some w → s.place c' = some w' →
    w.creating = some h → w'.creating = some h → c = c'

/-- A descriptor, its joiner and its thread agree. -/
structure JoinInv (s : Threads D H V) : Prop where
  life : ∀ d p, s.heap d = some p → s.life p.id = ⟨(s.life p.id).exited, p.detached, [], 0, 0⟩
  /-- Before `pthread_exit`. -/
  alive : ∀ d p, s.heap d = some p → (s.life p.id).exited = none →
    p.state = .run ∧ s.place p.handle ≠ some .exitDeleting ∧
      s.place p.handle ≠ some .exitSuspending
  /-- After `pthread_exit` the descriptor waits for a joiner or a detacher. -/
  exited : ∀ d p v, s.heap d = some p → (s.life p.id).exited = some v →
    p.retval = v ∧ p.detached = false ∧ s.place p.handle = some .exitSuspending ∧
      (p.state = .run → ∃ j, p.joinTask = some j)
  /-- The joiner waits until the exit. -/
  joiner : ∀ d p j, s.heap d = some p → p.joinTask = some j →
    p.state = .run ∧ p.detached = false ∧ d ∈ s.list ∧
      (s.place j = some (.joinWaiting d p.handle) ∧
          (s.notified j = true ↔ (s.life p.id).exited.isSome) ∨
        s.place j = some (.joinWoken d p.handle) ∧ (s.life p.id).exited.isSome)
  joining : ∀ j w d h, s.place j = some w → w.joining = some (d, h) →
    ∃ p, s.heap d = some p ∧ p.joinTask = some j ∧ p.handle = h
  notified : ∀ h, s.notified h = true →
    s.place h = some .notStarted ∨ ∃ d h', s.place h = some (.joinWaiting d h')

/-- The task of a thread without a descriptor is with the one task that has to delete it. -/
structure EndInv (s : Threads D H V) : Prop where
  /-- The joiner that has freed the descriptor. -/
  joinDeleting : ∀ j h v, s.place j = some (.joinDeleting h v) →
    s.place h = some .exitSuspending ∧
      ∃ n, s.thread h = some n ∧ s.life n = ⟨some v, false, [], 1, 0⟩
  deletingInj : ∀ j j' w w' h, s.place j = some w → s.place j' = some w' →
    w.deleting = some h → w'.deleting = some h → j = j'
  /-- The detached thread that has freed its own. -/
  exitDeleting : ∀ h, s.place h = some .exitDeleting →
    ∃ n v, s.thread h = some n ∧ s.life n = ⟨some v, true, [], 1, 0⟩
  pending : ∀ h n, s.thread h = some n → (∃ d p, s.heap d = some p ∧ p.handle = h) ∨
    s.place h = some .exitDeleting ∨ ∃ j v, s.place j = some (.joinDeleting h v)
  ended : ∀ n, n < s.next → (∀ h, s.thread h ≠ some n) →
    ∃ v, s.life n = ⟨some v, true, [], 1, 1⟩ ∨ s.life n = ⟨some v, false, [v], 1, 1⟩

/-- The invariant. -/
structure OwnersInv (s : Threads D H V) : Prop extends BaseInv s, JoinInv s, EndInv s

lemma ownersInv_init (tasks : H → Bool) : OwnersInv (Threads.init tasks : Threads D H V) := by
  refine ⟨?_, ?_, ?_⟩ <;> constructor <;> simp [Threads.init] <;>
    grind [Place.joining, Place.creating, Place.deleting]

/-! ### The life that the invariant gives -/

variable {s : Threads D H V}

/-- Where a thread is in its life. -/
lemma OwnersInv.life_cases (h : OwnersInv s) (n : ℕ) :
    s.life n = Life.none ∨
    (∃ d p, s.heap d = some p ∧ p.id = n ∧
      s.life n = ⟨(s.life n).exited, p.detached, [], 0, 0⟩ ∧
      ((s.life n).exited ≠ none → p.detached = false)) ∨
    (∃ v b c, s.life n = ⟨some v, b, [], 1, 0⟩ ∧ Deleting s n c) ∨
    ∃ v, s.life n = ⟨some v, true, [], 1, 1⟩ ∨ s.life n = ⟨some v, false, [v], 1, 1⟩ := by
  by_cases hnext : n < s.next
  · by_cases hthread : ∃ handle, s.thread handle = some n
    · obtain ⟨handle, hthread⟩ := hthread
      refine Or.inr ?_
      rcases h.pending handle n hthread with ⟨d, p, hp, rfl⟩ | hplace | ⟨j, v, hplace⟩
      · left
        have hid : p.id = n := by
          have := h.owner d p hp
          grind
        subst hid
        refine ⟨d, p, hp, rfl, h.life d p hp, fun hne => ?_⟩
        obtain ⟨v, hv⟩ := Option.ne_none_iff_exists'.mp hne
        exact (h.exited d p v hp hv).2.1
      · obtain ⟨m, v, hm, hlife⟩ := h.exitDeleting handle hplace
        obtain rfl : m = n := by grind
        exact Or.inr (Or.inl ⟨v, true, handle, hlife, Or.inr ⟨hplace, hthread⟩⟩)
      · obtain ⟨-, m, hm, hlife⟩ := h.joinDeleting j handle v hplace
        obtain rfl : m = n := by grind
        exact Or.inr (Or.inl ⟨v, false, j, hlife, Or.inl ⟨handle, v, hplace, hthread⟩⟩)
    · push Not at hthread
      exact Or.inr (Or.inr (Or.inr (h.ended n hnext hthread)))
  · exact Or.inl (h.uncreated n (by omega))

/-- Nobody else is about to delete the same task. -/
lemma OwnersInv.deleting_unique (h : OwnersInv s) {n : ℕ} {c c' : H} (hc : Deleting s n c)
    (hc' : Deleting s n c') : c = c' := by
  rcases hc with ⟨x, v, hplace, hx⟩ | ⟨hplace, hx⟩ <;>
    rcases hc' with ⟨x', v', hplace', hx'⟩ | ⟨hplace', hx'⟩ <;>
    obtain rfl := h.taskInj _ _ n hx hx'
  · exact h.deletingInj c c' _ _ x hplace hplace' rfl rfl
  · have := (h.joinDeleting c x v hplace).1
    grind
  · have := (h.joinDeleting c' c v' hplace').1
    grind
  · rfl

lemma OwnersInv.lifeRight (h : OwnersInv s) (n : ℕ) : LifeRight s n := by
  rcases h.life_cases n with hlife | ⟨d, p, -, -, hlife, hdetached⟩ | ⟨v, b, c, hlife, hc⟩ |
    ⟨v, hlife | hlife⟩
  · constructor <;> simp [hlife, Life.none]
  · constructor <;> rw [hlife] <;> simp
    grind
  · constructor <;> simp only [hlife] <;> try simp
    exact ⟨c, hc, fun c' hc' => h.deleting_unique hc' hc⟩
  · constructor <;> simp [hlife]
  · constructor <;> simp [hlife]

/-! ### Operations -/

set_option linter.unusedSectionVars false

variable [DecidableEq D] [DecidableEq H] {cur h : H} {d : D} {p p' : EspPthread H V} {n : ℕ}
  {w w' : Place D H V} {f : Life V → Life V}

/-- The state after `pthread_delete`. -/
def Threads.removed (s : Threads D H V) (d : D) (p : EspPthread H V) : Threads D H V :=
  { s with list := s.list.erase d, heap := Function.update s.heap d none }.note p.id
    fun l => { l with frees := l.frees + 1 }

/-- The state after `vTaskDelete` of the task of a thread. -/
def Threads.taskRemoved (s : Threads D H V) (h : H) (n : ℕ) : Threads D H V :=
  { s with
    place := Function.update s.place h none
    notified := Function.update s.notified h false
    thread := Function.update s.thread h none }.note n
      fun l => { l with deletes := l.deletes + 1 }

lemma BaseInv.id_lt (hb : BaseInv s) (hp : s.heap d = some p) : p.id < s.next :=
  (hb.task _ _ (hb.owner d p hp)).2

/-- Different descriptors belong to different threads and tasks. -/
lemma BaseInv.others (hb : BaseInv s) (hp : s.heap d = some p) (d' : D) (p' : EspPthread H V)
    (hp' : s.heap d' = some p') (hne : d' ≠ d) : p'.id ≠ p.id ∧ p'.handle ≠ p.handle := by
  have h1 := hb.owner d p hp
  have h2 := hb.owner d' p' hp'
  have hhandle : p'.handle ≠ p.handle := fun heq => hne (hb.ownerInj d' d p' p hp' hp heq)
  refine ⟨fun hid => hhandle (hb.taskInj _ _ p.id ?_ h1), hhandle⟩
  rw [h2, hid]

lemma JoinInv.not_exited (hj : JoinInv s) (hp : s.heap d = some p) (hst : p.state = .run)
    (hjoin : p.joinTask = none) : (s.life p.id).exited = none := by
  by_contra hsome
  obtain ⟨v, hv⟩ := Option.ne_none_iff_exists'.mp hsome
  obtain ⟨j, hj⟩ := (hj.exited d p v hp hv).2.2.2 hst
  rw [hjoin] at hj
  exact absurd hj (by simp)

/-- Only a task that waits has a notification. -/
lemma JoinInv.not_notified (hj : JoinInv s) (hcur : s.place cur = some w) (hw : w ≠ .notStarted)
    (hjoining : w.joining = none) : s.notified cur = false := by
  by_contra htrue
  rcases hj.notified cur (by simpa using htrue) with hplace | ⟨d, h', hplace⟩
  · exact hw (Option.some.inj (hcur.symm.trans hplace))
  · rw [Option.some.inj (hcur.symm.trans hplace)] at hjoining
    exact absurd hjoining (by simp [Place.joining])

lemma BaseInv.write (hb : BaseInv s) (hp : s.heap d = some p) (hhandle : p'.handle = p.handle)
    (hid : p'.id = p.id) : BaseInv (s.write d p') := by
  constructor <;> simp only [Threads.write, Function.update_apply]
  case nodup => exact hb.nodup
  case listed => have := hb.listed; grind
  case task => exact hb.task
  case taskInj => exact hb.taskInj
  case uncreated => exact hb.uncreated
  case owner => have := hb.owner; grind
  case ownerInj => have := hb.ownerInj; grind
  case unlisted => have := hb.unlisted; grind
  case inserting => have := hb.inserting; grind
  case creating => exact hb.creating
  case creatingInj => exact hb.creatingInj

lemma BaseInv.goTo (hb : BaseInv s) (hcur : s.place cur = some w) (hw : w ≠ .notStarted)
    (hcreating : w.creating = none) (hcreating' : w'.creating = none) :
    BaseInv (s.goTo cur w') := by
  constructor <;> simp only [Threads.goTo, Function.update_apply]
  case nodup => exact hb.nodup
  case listed => exact hb.listed
  case task => have := hb.task; grind
  case taskInj => exact hb.taskInj
  case uncreated => exact hb.uncreated
  case owner => exact hb.owner
  case ownerInj => exact hb.ownerInj
  case unlisted => have := hb.unlisted; grind [Place.creating]
  case inserting => have := hb.inserting; grind [Place.creating]
  case creating => have := hb.creating; grind
  case creatingInj => have := hb.creatingInj; grind

lemma BaseInv.note (hb : BaseInv s) (hn : n < s.next) : BaseInv (s.note n f) := by
  constructor <;> simp only [Threads.note, Function.update_apply]
  case nodup => exact hb.nodup
  case listed => exact hb.listed
  case task => exact hb.task
  case taskInj => exact hb.taskInj
  case uncreated => have := hb.uncreated; grind
  case owner => exact hb.owner
  case ownerInj => exact hb.ownerInj
  case unlisted => exact hb.unlisted
  case inserting => exact hb.inserting
  case creating => exact hb.creating
  case creatingInj => exact hb.creatingInj

lemma BaseInv.removed (hb : BaseInv s) (hd : d ∈ s.list) (hp : s.heap d = some p) :
    BaseInv (s.removed d p) := by
  have hmem : ∀ e, e ∈ s.list.erase d ↔ e ≠ d ∧ e ∈ s.list := fun e => hb.nodup.mem_erase_iff
  have hlt : p.id < s.next := (hb.task _ _ (hb.owner d p hp)).2
  have hunlisted := hb.unlisted
  have hinserting := hb.inserting
  refine BaseInv.note ?_ hlt
  constructor <;> simp only [Function.update_apply]
  case nodup => exact hb.nodup.erase d
  case listed => have := hb.listed; grind
  case task => exact hb.task
  case taskInj => exact hb.taskInj
  case uncreated => exact hb.uncreated
  case owner => have := hb.owner; grind
  case ownerInj => have := hb.ownerInj; grind
  case unlisted => grind
  case inserting => grind
  case creating => exact hb.creating
  case creatingInj => exact hb.creatingInj

lemma BaseInv.taskRemoved (hb : BaseInv s) (hh : s.place h = some w) (hw : w ≠ .notStarted)
    (hcreating : w.creating = none) (hheap : ∀ d p, s.heap d = some p → p.handle ≠ h)
    (hn : n < s.next) : BaseInv (s.taskRemoved h n) := by
  refine BaseInv.note ?_ hn
  constructor <;> simp only [Function.update_apply]
  case nodup => exact hb.nodup
  case listed => exact hb.listed
  case task => have := hb.task; grind
  case taskInj => have := hb.taskInj; grind
  case uncreated => exact hb.uncreated
  case owner => have := hb.owner; grind
  case ownerInj => exact hb.ownerInj
  case unlisted => have := hb.unlisted; grind [Place.creating]
  case inserting => have := hb.inserting; grind
  case creating => have := hb.creating; grind
  case creatingInj => have := hb.creatingInj; grind

lemma BaseInv.notify (hb : BaseInv s) {b : Bool}
    (hh : b = false ∨ s.place h ≠ some .notStarted) :
    BaseInv { s with notified := Function.update s.notified h b } := by
  constructor <;> simp only [Function.update_apply]
  case nodup => exact hb.nodup
  case listed => exact hb.listed
  case task => exact hb.task
  case taskInj => exact hb.taskInj
  case uncreated => exact hb.uncreated
  case owner => exact hb.owner
  case ownerInj => exact hb.ownerInj
  case unlisted => exact hb.unlisted
  case inserting => exact hb.inserting
  case creating => have := hb.creating; grind
  case creatingInj => exact hb.creatingInj

/-! ### Creating -/

/-- A task in no call goes on, or a task comes back to no call. -/
lemma JoinInv.goTo (hj : JoinInv s) (hcur : s.place cur = some w)
    (hnot : s.notified cur = false) (hw : w ≠ .exitSuspending) (hw' : w' ≠ .exitSuspending)
    (hw'' : w' ≠ .exitDeleting) (hjoining : w.joining = none) (hjoining' : w'.joining = none) :
    JoinInv (s.goTo cur w') := by
  constructor <;> simp only [Threads.goTo, Function.update_apply]
  case life => exact hj.life
  case alive => have := hj.alive; grind
  case exited => have := hj.exited; grind
  case joiner => have := hj.joiner; grind [Place.joining]
  case joining => have := hj.joining; grind
  case notified => have := hj.notified; grind

lemma EndInv.goTo (he : EndInv s) (hcur : s.place cur = some w) (hw : w ≠ .exitSuspending)
    (hw' : w ≠ .exitDeleting) (hw'' : w' ≠ .exitDeleting) (hdeleting : w.deleting = none)
    (hdeleting' : w'.deleting = none) : EndInv (s.goTo cur w') := by
  constructor <;> simp only [Threads.goTo, Function.update_apply]
  case joinDeleting => have := he.joinDeleting; grind [Place.deleting]
  case deletingInj => have := he.deletingInj; grind
  case exitDeleting => have := he.exitDeleting; grind
  case pending => have := he.pending; grind [Place.deleting]
  case ended => exact he.ended

lemma OwnersInv.create [Zero V] (hi : OwnersInv s) {det : Bool} (hcur : s.place cur = some .running)
    (hd : s.heap d = none) (hh : s.place h = none) : OwnersInv (s.create cur det d h) := by
  have hthread : ∀ n, s.thread h ≠ some n := by
    have := hi.task
    grind
  have hnew : ∀ h', s.thread h' ≠ some s.next := by
    have := hi.task
    grind
  have hid : ∀ d p, s.heap d = some p → p.id ≠ s.next ∧ p.handle ≠ h := by
    have := hi.owner
    grind
  have hlist : d ∉ s.list := by
    have := hi.listed
    grind
  have hcreating : ∀ c w, s.place c = some w → w.creating ≠ some h := by
    have := hi.creating
    grind
  have hnot := hi.toJoinInv.not_notified hcur (by simp) rfl
  refine ⟨?_, ?_, ?_⟩ <;> constructor <;>
    simp only [Threads.create, Threads.write, Threads.goTo, Function.update_apply]
  case nodup => exact hi.nodup
  case listed => have := hi.listed; grind
  case task => have := hi.task; grind
  case taskInj => have := hi.taskInj; grind
  case uncreated => have := hi.uncreated; grind
  case owner => have := hi.owner; grind
  case ownerInj => have := hi.ownerInj; grind
  case unlisted => have := hi.unlisted; grind
  case inserting =>
    intro c d' h' hc
    by_cases hcur' : c = cur
    · rw [if_pos hcur', Option.some.injEq, Place.inserting.injEq] at hc
      obtain ⟨rfl, rfl⟩ := hc
      exact ⟨hlist, _, if_pos rfl, rfl⟩
    · obtain ⟨hlist', p, hp, hhandle⟩ := hi.inserting c d' h' (by grind)
      exact ⟨hlist', p, by grind, hhandle⟩
  case creating => have := hi.creating; grind [Place.creating]
  case creatingInj => have := hi.creatingInj; grind [Place.creating]
  case life => have := hi.life; grind [Life.none]
  case alive => have := hi.alive; grind
  case exited => have := hi.exited; grind [Life.none]
  case joiner => have := hi.joiner; grind
  case joining => have := hi.joining; grind [Place.joining]
  case notified => have := hi.notified; grind
  case joinDeleting => have := hi.joinDeleting; grind
  case deletingInj => have := hi.deletingInj; grind [Place.deleting]
  case exitDeleting => have := hi.exitDeleting; grind
  case pending =>
    intro h' n hn
    by_cases hh' : h' = h
    · exact Or.inl ⟨d, _, if_pos rfl, hh'.symm⟩
    · rcases hi.pending h' n (by grind) with ⟨d', p, hp, hhandle⟩ | hplace | ⟨j, v, hplace⟩
      · exact Or.inl ⟨d', p, by grind, hhandle⟩
      · exact Or.inr (Or.inl (by grind))
      · exact Or.inr (Or.inr ⟨j, v, by grind⟩)
  case ended =>
    intro n hn hno
    have hne' : n ≠ s.next := by
      rintro rfl
      exact hno h (if_pos rfl)
    rw [if_neg hne']
    refine hi.ended n (by omega) fun h' hthread' => hno h' ?_
    grind

lemma OwnersInv.insert (hi : OwnersInv s) (hcur : s.place cur = some (.inserting d h)) :
    OwnersInv (s.insert cur d h) := by
  obtain ⟨hlist, hheap⟩ := hi.inserting cur d h hcur
  have hinj := hi.creatingInj cur
  have hnot := hi.toJoinInv.not_notified hcur (by simp) rfl
  refine ⟨?_, JoinInv.goTo ?_ hcur hnot (by simp) (by simp) (by simp) rfl rfl,
    EndInv.goTo ⟨hi.joinDeleting, hi.deletingInj, hi.exitDeleting, hi.pending, hi.ended⟩ hcur
      (by simp) (by simp) (by simp) rfl rfl⟩
  · constructor <;> simp only [Threads.insert, Threads.goTo, Function.update_apply]
    case nodup => exact hi.nodup.cons hlist
    case listed => have := hi.listed; grind
    case task => have := hi.task; grind
    case taskInj => exact hi.taskInj
    case uncreated => exact hi.uncreated
    case owner => exact hi.owner
    case ownerInj => exact hi.ownerInj
    case unlisted => have := hi.unlisted; grind
    case inserting =>
      intro c d' h' hc
      have hplace : s.place c = some (.inserting d' h') := by grind
      obtain ⟨hlist', p, hp, hhandle⟩ := hi.inserting c d' h' hplace
      have hne : d' ≠ d := by
        rintro rfl
        have := hinj c _ _ h' hcur hplace (by grind [Place.creating]) rfl
        grind
      exact ⟨by simp [hne, hlist'], p, hp, hhandle⟩
    case creating => have := hi.creating; grind [Place.creating]
    case creatingInj => have := hi.creatingInj; grind [Place.creating]
  · refine ⟨hi.life, hi.alive, hi.exited, fun d p j hp hjoin => ?_, hi.joining, hi.notified⟩
    obtain ⟨hrun, hdet, hmem, hplace⟩ := hi.joiner d p j hp hjoin
    exact ⟨hrun, hdet, List.mem_cons_of_mem _ hmem, hplace⟩

lemma OwnersInv.start (hi : OwnersInv s) (hcur : s.place cur = some (.starting h)) :
    OwnersInv (({ s with notified := Function.update s.notified h true }).goTo cur .running) := by
  obtain ⟨hplace, hnoth⟩ := hi.creating cur _ h hcur rfl
  have hnot := hi.toJoinInv.not_notified hcur (by simp) rfl
  refine ⟨?_, JoinInv.goTo ?_ hcur ?_ (by simp) (by simp) (by simp) rfl rfl,
    EndInv.goTo ⟨hi.joinDeleting, hi.deletingInj, hi.exitDeleting, hi.pending, hi.ended⟩ hcur
      (by simp) (by simp) (by simp) rfl rfl⟩
  · constructor <;> simp only [Threads.goTo, Function.update_apply]
    case nodup => exact hi.nodup
    case listed => exact hi.listed
    case task => have := hi.task; grind
    case taskInj => exact hi.taskInj
    case uncreated => exact hi.uncreated
    case owner => exact hi.owner
    case ownerInj => exact hi.ownerInj
    case unlisted => have := hi.unlisted; grind
    case inserting => have := hi.inserting; grind
    case creating => have := hi.creating; have := hi.creatingInj; grind [Place.creating]
    case creatingInj => have := hi.creatingInj; grind [Place.creating]
  · refine ⟨hi.life, hi.alive, hi.exited, ?_, hi.joining, ?_⟩ <;>
      simp only [Function.update_apply]
    · have := hi.joiner
      grind
    · have := hi.notified
      grind
  · simp only [Function.update_apply]
    grind

lemma OwnersInv.begin (hi : OwnersInv s) (hcur : s.place cur = some .notStarted)
    (hnot : s.notified cur = true) :
    OwnersInv (({ s with notified := Function.update s.notified cur false }).goTo cur
      .running) := by
  have hcreating := hi.creating
  refine ⟨?_, JoinInv.goTo ?_ hcur (by simp) (by simp) (by simp) (by simp) rfl rfl,
    EndInv.goTo ⟨hi.joinDeleting, hi.deletingInj, hi.exitDeleting, hi.pending, hi.ended⟩ hcur
      (by simp) (by simp) (by simp) rfl rfl⟩
  · constructor <;> simp only [Threads.goTo, Function.update_apply]
    case nodup => exact hi.nodup
    case listed => exact hi.listed
    case task => have := hi.task; grind
    case taskInj => exact hi.taskInj
    case uncreated => exact hi.uncreated
    case owner => exact hi.owner
    case ownerInj => exact hi.ownerInj
    case unlisted => have := hi.unlisted; grind
    case inserting => have := hi.inserting; grind
    case creating => grind [Place.creating]
    case creatingInj => have := hi.creatingInj; grind [Place.creating]
  · refine ⟨hi.life, hi.alive, hi.exited, ?_, hi.joining, ?_⟩ <;>
      simp only [Function.update_apply]
    · have := hi.joiner
      grind
    · have := hi.notified
      grind

/-! ### Joining -/

lemma OwnersInv.joinWait (hi : OwnersInv s) (hcur : s.place cur = some .running)
    (hd : d ∈ s.list) (hp : s.heap d = some p) (hjoin : p.joinTask = none)
    (hdet : p.detached = false) (hst : p.state = .run) :
    OwnersInv ((s.write d { p with joinTask := some cur }).goTo cur
      (.joinWaiting d p.handle)) := by
  have hexited := hi.toJoinInv.not_exited hp hst hjoin
  have hnot := hi.toJoinInv.not_notified hcur (by simp) rfl
  refine ⟨BaseInv.goTo (hi.toBaseInv.write hp rfl rfl) hcur (by simp) rfl rfl, ?_,
    EndInv.goTo ?_ hcur (by simp) (by simp) (by simp) rfl rfl⟩
  · constructor <;> simp only [Threads.write, Threads.goTo, Function.update_apply]
    case life => have := hi.life; grind
    case alive => have := hi.alive; grind
    case exited => have := hi.exited; grind
    case joiner => have := hi.joiner; grind
    case joining => have := hi.joining; grind [Place.joining]
    case notified => have := hi.notified; grind
  · refine ⟨hi.joinDeleting, hi.deletingInj, hi.exitDeleting, ?_, hi.ended⟩
    have := hi.pending
    simp only [Threads.write, Function.update_apply]
    grind

lemma OwnersInv.wake (hi : OwnersInv s) (hcur : s.place cur = some (.joinWaiting d h))
    (hnot : s.notified cur = true) :
    OwnersInv (({ s with notified := Function.update s.notified cur false }).goTo cur
      (.joinWoken d h)) := by
  obtain ⟨p, hp, hjoin, rfl⟩ := hi.joining cur _ d h hcur rfl
  refine ⟨BaseInv.goTo (hi.toBaseInv.notify (Or.inl rfl)) hcur (by simp) rfl rfl, ?_,
    EndInv.goTo ⟨hi.joinDeleting, hi.deletingInj, hi.exitDeleting, hi.pending, hi.ended⟩ hcur
      (by simp) (by simp) (by simp) rfl rfl⟩
  constructor <;> simp only [Threads.goTo, Function.update_apply]
  case life => exact hi.life
  case alive => have := hi.alive; grind
  case exited => have := hi.exited; grind
  case joiner => have := hi.joiner; grind
  case joining => have := hi.joining; grind [Place.joining]
  case notified => have := hi.notified; grind

/-- The joiner of a thread that has exited frees the descriptor. -/
lemma OwnersInv.joinRemove (hi : OwnersInv s) {v : V} (hcur : s.place cur = some w)
    (hw : w = .running ∨ w = .joinWoken d p.handle) (hnot : s.notified cur = false)
    (hd : d ∈ s.list) (hp : s.heap d = some p) (hv : (s.life p.id).exited = some v)
    (hjoin : ∀ j, p.joinTask = some j → j = cur) :
    OwnersInv ((s.removed d p).goTo cur (.joinDeleting p.handle p.retval)) := by
  obtain ⟨rfl, hdet, hplace, -⟩ := hi.exited d p v hp hv
  have hlife := hi.life d p hp
  have hthread := hi.owner d p hp
  have hid := hi.toBaseInv.others hp
  have hnone : ∀ j w, s.place j = some w → w.deleting ≠ some p.handle := by
    intro j w hj hdel
    have := hi.joinDeleting j
    cases w <;> grind [Place.deleting]
  refine ⟨BaseInv.goTo (hi.toBaseInv.removed hd hp) hcur ?_ ?_ rfl, ?_, ?_⟩
  · grind
  · grind [Place.creating]
  · have hmem : ∀ e, e ∈ s.list.erase d ↔ e ≠ d ∧ e ∈ s.list := fun e => hi.nodup.mem_erase_iff
    constructor <;>
      simp only [Threads.removed, Threads.note, Threads.goTo, Function.update_apply]
    case life => have := hi.life; grind
    case alive => have := hi.alive; grind
    case exited => have := hi.exited; grind
    case joiner => have := hi.joiner; grind
    case joining => have := hi.joining; grind [Place.joining]
    case notified => have := hi.notified; grind
  · constructor <;>
      simp only [Threads.removed, Threads.note, Threads.goTo, Function.update_apply]
    case joinDeleting => have := hi.joinDeleting; grind
    case deletingInj => have := hi.deletingInj; grind [Place.deleting]
    case exitDeleting => have := hi.exitDeleting; grind
    case pending =>
      intro h' n hn
      by_cases hh' : h' = p.handle
      · exact Or.inr (Or.inr ⟨cur, p.retval, by rw [if_pos rfl, hh']⟩)
      · rcases hi.pending h' n hn with ⟨d', p', hp', rfl⟩ | hplace' | ⟨j, v, hplace'⟩
        · exact Or.inl ⟨d', p', by grind, rfl⟩
        · exact Or.inr (Or.inl (by grind))
        · exact Or.inr (Or.inr ⟨j, v, by grind⟩)
    case ended => have := hi.ended; grind

lemma OwnersInv.joinEnd (hi : OwnersInv s) {v : V}
    (hcur : s.place cur = some (.joinDeleting h v)) (hn : s.thread h = some n) :
    OwnersInv (((s.taskRemoved h n).note n fun l => { l with joins := l.joins ++ [v] }).goTo cur
      .running) := by
  obtain ⟨hplace, m, hm, hlife⟩ := hi.joinDeleting cur h v hcur
  obtain rfl : m = n := by grind
  have hlt : m < s.next := (hi.task h m hn).2
  have hne : h ≠ cur := by grind
  have hnot := hi.toJoinInv.not_notified hcur (by simp) rfl
  have hheap : ∀ d p, s.heap d = some p → p.id ≠ m ∧ p.handle ≠ h := by
    have h1 := hi.owner
    have h2 := hi.taskInj
    have h3 := hi.life
    grind
  have hb := hi.toBaseInv.taskRemoved hplace (by simp) rfl (fun d p hp => (hheap d p hp).2) hlt
  refine ⟨BaseInv.goTo (hb.note hlt) (w := .joinDeleting h v) ?_ (by simp) rfl rfl, ?_, ?_⟩
  · simp [Threads.note, Threads.taskRemoved, hne.symm, hcur]
  · constructor <;>
      simp only [Threads.taskRemoved, Threads.note, Threads.goTo, Function.update_apply]
    case life => have := hi.life; grind
    case alive => have := hi.alive; grind
    case exited => have := hi.exited; grind
    case joiner => have := hi.joiner; grind
    case joining => have := hi.joining; grind [Place.joining]
    case notified => have := hi.notified; grind
  · constructor <;>
      simp only [Threads.taskRemoved, Threads.note, Threads.goTo, Function.update_apply]
    case joinDeleting =>
      intro j h' v' hj
      have hplace' : s.place j = some (.joinDeleting h' v') := by grind
      have hne' : h' ≠ h := by
        rintro rfl
        have := hi.deletingInj j cur _ _ h' hplace' hcur rfl rfl
        grind
      obtain ⟨hplace'', n, hn', hlife'⟩ := hi.joinDeleting j h' v' hplace'
      have := hi.taskInj
      exact ⟨by grind, n, by grind, by grind⟩
    case deletingInj => have := hi.deletingInj; grind [Place.deleting]
    case exitDeleting => have := hi.exitDeleting; have := hi.taskInj; grind
    case pending => have := hi.pending; grind
    case ended => have := hi.ended; grind

/-! ### Detaching -/

lemma OwnersInv.detachFlag (hi : OwnersInv s) (hp : s.heap d = some p) (hjoin : p.joinTask = none)
    (hst : p.state = .run) :
    OwnersInv ((s.note p.id fun l => { l with detached := true }).write d
      { p with detached := true }) := by
  have hexited := hi.toJoinInv.not_exited hp hst hjoin
  have hlt := hi.toBaseInv.id_lt hp
  have hthread := hi.owner d p hp
  have hlife := hi.life d p hp
  have hid := hi.toBaseInv.others hp
  refine ⟨BaseInv.write (hi.toBaseInv.note hlt) hp rfl rfl, ?_, ?_⟩
  · constructor <;> simp only [Threads.write, Threads.note, Function.update_apply]
    case life => have := hi.life; grind
    case alive => have := hi.alive; grind
    case exited => have := hi.exited; grind
    case joiner => have := hi.joiner; grind
    case joining => have := hi.joining; grind
    case notified => exact hi.notified
  · constructor <;> simp only [Threads.write, Threads.note, Function.update_apply]
    case joinDeleting => have := hi.joinDeleting; grind
    case deletingInj => exact hi.deletingInj
    case exitDeleting => have := hi.exitDeleting; grind
    case pending => have := hi.pending; grind
    case ended => have := hi.ended; grind

lemma OwnersInv.detachRemove (hi : OwnersInv s) {v : V} (hd : d ∈ s.list)
    (hp : s.heap d = some p) (hv : (s.life p.id).exited = some v) (hjoin : p.joinTask = none) :
    OwnersInv (((s.note p.id fun l => { l with detached := true }).removed d p).taskRemoved
      p.handle p.id) := by
  obtain ⟨-, -, hplace, -⟩ := hi.exited d p v hp hv
  have hlt := hi.toBaseInv.id_lt hp
  have hthread := hi.owner d p hp
  have hlife := hi.life d p hp
  have hid := hi.toBaseInv.others hp
  refine ⟨BaseInv.taskRemoved ((hi.toBaseInv.note hlt).removed hd hp) hplace (by simp) rfl ?_ hlt,
    ?_, ?_⟩
  · simp only [Threads.removed, Threads.note, Function.update_apply]
    grind
  · have hmem : ∀ e, e ∈ s.list.erase d ↔ e ≠ d ∧ e ∈ s.list := fun e => hi.nodup.mem_erase_iff
    constructor <;>
      simp only [Threads.taskRemoved, Threads.removed, Threads.note, Function.update_apply]
    case life => have := hi.life; grind
    case alive => have := hi.alive; grind
    case exited => have := hi.exited; grind
    case joiner => have := hi.joiner; grind
    case joining => have := hi.joining; grind [Place.joining]
    case notified => have := hi.notified; grind
  · constructor <;>
      simp only [Threads.taskRemoved, Threads.removed, Threads.note, Function.update_apply]
    case joinDeleting => have := hi.joinDeleting; have := hi.taskInj; grind
    case deletingInj => have := hi.deletingInj; grind
    case exitDeleting => have := hi.exitDeleting; have := hi.taskInj; grind
    case pending => have := hi.pending; grind
    case ended => have := hi.ended; grind

/-! ### Exiting -/

lemma OwnersInv.exitRemove (hi : OwnersInv s) {v : V} (hcur : s.place cur = some .running)
    (hd : d ∈ s.list) (hp : s.heap d = some p) (hhandle : p.handle = cur)
    (hdet : p.detached = true) :
    OwnersInv (((s.note p.id fun l => { l with exited := some v }).removed d p).goTo cur
      .exitDeleting) := by
  have hjoin : ∀ j, p.joinTask ≠ some j := by
    have := hi.joiner d p
    grind
  have hnot := hi.toJoinInv.not_notified hcur (by simp) rfl
  have hlt := hi.toBaseInv.id_lt hp
  have hthread := hi.owner d p hp
  have hlife := hi.life d p hp
  have hid := hi.toBaseInv.others hp
  refine ⟨BaseInv.goTo ((hi.toBaseInv.note hlt).removed hd hp) hcur (by simp) rfl rfl, ?_, ?_⟩
  · have hmem : ∀ e, e ∈ s.list.erase d ↔ e ≠ d ∧ e ∈ s.list := fun e => hi.nodup.mem_erase_iff
    constructor <;>
      simp only [Threads.removed, Threads.note, Threads.goTo, Function.update_apply]
    case life => have := hi.life; grind
    case alive => have := hi.alive; grind
    case exited => have := hi.exited; grind
    case joiner => have := hi.joiner; grind
    case joining => have := hi.joining; grind [Place.joining]
    case notified => have := hi.notified; grind
  · constructor <;>
      simp only [Threads.removed, Threads.note, Threads.goTo, Function.update_apply]
    case joinDeleting => have := hi.joinDeleting; grind
    case deletingInj => have := hi.deletingInj; grind [Place.deleting]
    case exitDeleting =>
      intro h' hh'
      by_cases hcur' : h' = cur
      · exact ⟨p.id, v, by rw [hcur', ← hhandle, hthread], by grind⟩
      · have := hi.exitDeleting h'
        grind
    case pending =>
      intro h' n hn
      by_cases hh' : h' = cur
      · exact Or.inr (Or.inl (if_pos hh'))
      · rcases hi.pending h' n hn with ⟨d', p', hp', rfl⟩ | hplace' | ⟨j, v, hplace'⟩
        · exact Or.inl ⟨d', p', by grind, rfl⟩
        · exact Or.inr (Or.inl (by grind))
        · exact Or.inr (Or.inr ⟨j, v, by grind⟩)
    case ended => have := hi.ended; grind

/-- The state after the exit of a thread that is not detached, with the joiner notified if there
is one. -/
lemma OwnersInv.exitSuspend (hi : OwnersInv s) {v : V} (st : TaskState) (notified : H → Bool)
    (hcur : s.place cur = some .running) (hp : s.heap d = some p) (hhandle : p.handle = cur)
    (hd : d ∈ s.list) (hdet : p.detached = false) (hst : st = .run ↔ p.joinTask.isSome)
    (hnotified : ∀ j, notified j = true ↔ s.notified j = true ∨ p.joinTask = some j) :
    OwnersInv ({ (s.note p.id fun l => { l with exited := some v }).write d
        { p with retval := v, state := st } with notified }.goTo cur .exitSuspending) := by
  have hnot := hi.toJoinInv.not_notified hcur (by simp) rfl
  have hexited : (s.life p.id).exited = none := by
    by_contra hsome
    obtain ⟨u, hu⟩ := Option.ne_none_iff_exists'.mp hsome
    have := (hi.exited d p u hp hu).2.2.1
    rw [hhandle, hcur] at this
    exact absurd this (by simp)
  have hlt := hi.toBaseInv.id_lt hp
  have hthread := hi.owner d p hp
  have hlife := hi.life d p hp
  have hid := hi.toBaseInv.others hp
  have hjoiner : ∀ j, p.joinTask = some j →
      s.place j = some (.joinWaiting d p.handle) ∧ s.notified j = false := by
    have := hi.joiner d p
    grind
  refine ⟨BaseInv.goTo ?_ hcur (by simp) rfl rfl, ?_, EndInv.goTo ?_ hcur (by simp) (by simp)
    (by simp) rfl rfl⟩
  · have hb : BaseInv ((s.note p.id fun l => { l with exited := some v }).write d
        { p with retval := v, state := st }) :=
      BaseInv.write (hi.toBaseInv.note hlt) hp rfl rfl
    refine ⟨hb.nodup, hb.listed, hb.task, hb.taskInj, hb.uncreated, hb.owner, hb.ownerInj,
      hb.unlisted, hb.inserting, ?_, hb.creatingInj⟩
    intro c w x hc hx
    obtain ⟨hplace, hfalse⟩ := hi.creating c w x hc hx
    refine ⟨hplace, ?_⟩
    have := hnotified x
    grind
  · constructor <;> simp only [Threads.write, Threads.note, Threads.goTo, Function.update_apply]
    case life => have := hi.life; grind
    case alive => have := hi.alive; grind
    case exited =>
      intro d' p' u hp' hu
      by_cases hd' : d' = d
      · subst hd'
        rw [if_pos rfl, Option.some.injEq] at hp'
        subst hp'
        rw [if_pos rfl] at hu
        exact ⟨Option.some.inj hu, hdet, if_pos hhandle,
          fun hrun => Option.isSome_iff_exists.mp (hst.mp hrun)⟩
      · have := hi.exited d' p' u
        grind
    case joiner =>
      intro d' p' j hp' hj
      by_cases hd' : d' = d
      · subst hd'
        rw [if_pos rfl, Option.some.injEq] at hp'
        subst hp'
        have hplace := (hjoiner j hj).1
        have hne : j ≠ cur := by grind
        refine ⟨hst.mpr (Option.isSome_iff_exists.mpr ⟨j, hj⟩), hdet, hd, Or.inl ⟨?_, ?_⟩⟩
        · rw [if_neg hne, hplace]
        · simp [(hnotified j).mpr (Or.inr hj)]
      · rw [if_neg hd'] at hp'
        have hother : p.joinTask ≠ some j := by
          have := hjoiner j
          have := hi.joiner d' p' j hp' hj
          grind
        have := hi.joiner d' p' j hp' hj
        have := hnotified j
        grind
    case joining => have := hi.joining; grind [Place.joining]
    case notified => have := hi.notified; grind
  · constructor <;> simp only [Threads.write, Threads.note, Function.update_apply]
    case joinDeleting => have := hi.joinDeleting; grind
    case deletingInj => exact hi.deletingInj
    case exitDeleting => have := hi.exitDeleting; grind
    case pending => have := hi.pending; grind
    case ended => have := hi.ended; grind

lemma OwnersInv.exitEnd (hi : OwnersInv s) (hcur : s.place cur = some .exitDeleting)
    (hn : s.thread cur = some n) : OwnersInv (s.taskRemoved cur n) := by
  obtain ⟨m, v, hm, hlife⟩ := hi.exitDeleting cur hcur
  obtain rfl : m = n := by grind
  have hheap : ∀ d p, s.heap d = some p → p.id ≠ m ∧ p.handle ≠ cur := by
    have h1 := hi.owner
    have h2 := hi.taskInj
    have h3 := hi.life
    grind
  refine ⟨hi.toBaseInv.taskRemoved hcur (by simp) rfl (fun d p hp => (hheap d p hp).2)
    (hi.task cur m hn).2, ?_, ?_⟩
  · constructor <;> simp only [Threads.taskRemoved, Threads.note, Function.update_apply]
    case life => have := hi.life; grind
    case alive => have := hi.alive; grind
    case exited => have := hi.exited; grind
    case joiner => have := hi.joiner; grind
    case joining => have := hi.joining; grind
    case notified => have := hi.notified; grind
  · constructor <;> simp only [Threads.taskRemoved, Threads.note, Function.update_apply]
    case joinDeleting => have := hi.joinDeleting; have := hi.taskInj; grind
    case deletingInj => have := hi.deletingInj; grind
    case exitDeleting => have := hi.exitDeleting; have := hi.taskInj; grind
    case pending => have := hi.pending; grind
    case ended => have := hi.ended; grind

/-! ### What the functions do -/

lemma ok_bind {R R' : Type} (r : R) (g : R → Except Fault R') : (Except.ok r >>= g) = g r := rfl

lemma deref_eq (hp : s.heap d = some p) : s.deref d = .ok p := by
  rw [Threads.deref, hp]

lemma findItem_eq {R : Type} (hlist : ∀ d ∈ s.list, ∃ p, s.heap d = some p)
    (itemCheck : D → EspPthread H V → Option R) :
    s.findItem itemCheck s.list =
      .ok (s.list.findSome? fun d => (s.heap d).bind (itemCheck d)) := by
  suffices ∀ l, (∀ d ∈ l, ∃ p, s.heap d = some p) → s.findItem itemCheck l =
      .ok (l.findSome? fun d => (s.heap d).bind (itemCheck d)) from this s.list hlist
  intro l
  induction l with
  | nil => intro _; rfl
  | cons it rest ih =>
    intro hl
    obtain ⟨item, hitem⟩ := hl it (by simp)
    have hrest := ih fun d hd => hl d (by simp [hd])
    rw [Threads.findItem, deref_eq hitem, ok_bind, List.findSome?_cons, hitem, Option.bind_some]
    cases itemCheck it item with
    | none => exact hrest
    | some val => rfl

lemma findHandle_mem (hb : BaseInv s) (hd : d ∈ s.list) (hp : s.heap d = some p) :
    s.findHandle d = .ok (some p.handle) := by
  rw [Threads.findHandle, findItem_eq hb.listed]
  congr 1
  cases hfind : s.list.findSome? fun it => (s.heap it).bind fun item =>
      if it = d then some item.handle else none with
  | none =>
    have := List.findSome?_eq_none_iff.mp hfind d hd
    rw [hp, Option.bind_some, if_pos rfl] at this
    exact absurd this (by simp)
  | some handle =>
    obtain ⟨it, -, hit⟩ := List.exists_of_findSome?_eq_some hfind
    obtain ⟨item, hitem, hcheck⟩ := Option.bind_eq_some_iff.mp hit
    grind

lemma findHandle_not_mem (hb : BaseInv s) (hd : d ∉ s.list) : s.findHandle d = .ok none := by
  rw [Threads.findHandle, findItem_eq hb.listed]
  congr 1
  refine List.findSome?_eq_none_iff.mpr fun it hit => ?_
  have hne : it ≠ d := by
    rintro rfl
    exact hd hit
  cases s.heap it <;> simp [hne]

/-- `pthread_find` gives the descriptor on the list with the handle, if there is one. -/
lemma find_cases (hb : BaseInv s) (h : H) :
    (∃ d p, s.find h = .ok (some d) ∧ d ∈ s.list ∧ s.heap d = some p ∧ p.handle = h) ∨
      (s.find h = .ok none ∧ ∀ d p, d ∈ s.list → s.heap d = some p → p.handle ≠ h) := by
  rw [Threads.find, findItem_eq hb.listed]
  cases hfind : s.list.findSome? fun it => (s.heap it).bind fun item =>
      if h = item.handle then some it else none with
  | none =>
    refine Or.inr ⟨rfl, fun d p hd hp heq => ?_⟩
    have := List.findSome?_eq_none_iff.mp hfind d hd
    rw [hp, Option.bind_some, if_pos heq.symm] at this
    exact absurd this (by simp)
  | some d =>
    obtain ⟨it, hmem, hit⟩ := List.exists_of_findSome?_eq_some hfind
    obtain ⟨item, hitem, hcheck⟩ := Option.bind_eq_some_iff.mp hit
    obtain ⟨heq, rfl⟩ : h = item.handle ∧ it = d := by grind
    exact Or.inl ⟨it, item, rfl, hmem, hitem, heq.symm⟩

lemma slistRemove_eq (hd : d ∈ s.list) (hlist : ∀ d ∈ s.list, ∃ p, s.heap d = some p) :
    s.slistRemove d s.list = .ok (s.list.erase d) := by
  suffices ∀ l, d ∈ l → (∀ d ∈ l, ∃ p, s.heap d = some p) →
      s.slistRemove d l = .ok (l.erase d) from this s.list hd hlist
  intro l
  induction l with
  | nil => intro hd; exact absurd hd (by simp)
  | cons it rest ih =>
    intro hd hl
    obtain ⟨item, hitem⟩ := hl it (by simp)
    rw [Threads.slistRemove, deref_eq hitem, ok_bind]
    by_cases hit : it = d
    · rw [if_pos hit, hit, List.erase_cons_head]
    · rw [if_neg hit, List.erase_cons_tail (by simpa using hit),
        ih (by grind) fun d hd => hl d (by simp [hd])]
      rfl

lemma delete_eq (hlist : ∀ d ∈ s.list, ∃ p, s.heap d = some p) (hd : d ∈ s.list)
    (hp : s.heap d = some p) : s.delete d = .ok (s.removed d p) := by
  rw [Threads.delete, deref_eq hp, ok_bind, slistRemove_eq hd hlist]
  rfl

lemma taskDelete_eq (hh : s.place h = some w) (hn : s.thread h = some n) :
    s.taskDelete h = .ok (s.taskRemoved h n) := by
  rw [Threads.taskDelete, hh]
  dsimp only
  rw [hn]
  rfl

lemma taskNotify_eq (hh : s.place h = some w) :
    s.taskNotify h = .ok { s with notified := Function.update s.notified h true } := by
  rw [Threads.taskNotify, hh]

/-! ### Steps -/

/-- A step gives a state with the invariant. -/
def Lands (r : Except Fault (After D H V)) : Prop :=
  ∃ s' ret, r = .ok (s', ret) ∧ OwnersInv s' ∧ ReturnRight s' ret

lemma returnRight_none (s : Threads D H V) : ReturnRight s none := fun _ h => absurd h (by simp)

lemma joinedBy_ok (hb : BaseInv s) (cur h : H) : ∃ b, s.joinedBy cur h = .ok b := by
  rw [Threads.joinedBy]
  rcases find_cases hb cur with ⟨d, p, hfind, -, hp, -⟩ | ⟨hfind, -⟩
  · rw [hfind, ok_bind]
    dsimp only
    rw [deref_eq hp, ok_bind]
    exact ⟨_, rfl⟩
  · rw [hfind, ok_bind]
    exact ⟨_, rfl⟩

/-- A descriptor that has no joiner and is not in its first state has exited. -/
lemma JoinInv.exited_of_state (hj : JoinInv s) (hp : s.heap d = some p) (hst : p.state ≠ .run) :
    ∃ v, (s.life p.id).exited = some v :=
  Option.ne_none_iff_exists'.mp fun hnone => hst (hj.alive d p hp hnone).1

lemma OwnersInv.join_lands [Zero V] (hi : OwnersInv s) (hcur : s.place cur = some .running)
    (d : D) : Lands (s.join cur d) := by
  by_cases hd : d ∈ s.list
  swap
  · rw [Threads.join, findHandle_not_mem hi.toBaseInv hd, ok_bind]
    exact ⟨s, _, rfl, hi, by simp [ReturnRight]⟩
  obtain ⟨p, hp⟩ := hi.listed d hd
  obtain ⟨eachOther, heach⟩ := joinedBy_ok hi.toBaseInv cur p.handle
  rw [Threads.join, findHandle_mem hi.toBaseInv hd hp, ok_bind]
  dsimp only
  rw [deref_eq hp, ok_bind, heach, ok_bind]
  split_ifs with hdet hjoin hself heachOther hst
  · exact ⟨s, _, rfl, hi, by simp [ReturnRight]⟩
  · exact ⟨s, _, rfl, hi, by simp [ReturnRight]⟩
  · exact ⟨s, _, rfl, hi, by simp [ReturnRight]⟩
  · exact ⟨s, _, rfl, hi, by simp [ReturnRight]⟩
  · exact ⟨_, _, rfl, hi.joinWait hcur hd hp (by simpa using hjoin) (by simpa using hdet) hst,
      returnRight_none _⟩
  · obtain ⟨v, hv⟩ := hi.exited_of_state hp hst
    have hnot := hi.toJoinInv.not_notified hcur (by simp) rfl
    rw [delete_eq hi.listed hd hp, ok_bind]
    refine ⟨_, _, rfl, hi.joinRemove hcur (Or.inl rfl) hnot hd hp hv fun j hj => ?_,
      returnRight_none _⟩
    simp [hj] at hjoin

lemma OwnersInv.joinTake_lands (hi : OwnersInv s) (hcur : s.place cur = some (.joinWoken d h)) :
    Lands (s.joinTake cur d h) := by
  obtain ⟨p, hp, hjoin, rfl⟩ := hi.joining cur _ d h hcur rfl
  obtain ⟨-, -, hd, hplace⟩ := hi.joiner d p cur hp hjoin
  have hsome : (s.life p.id).exited.isSome := by
    rcases hplace with ⟨hplace, -⟩ | ⟨-, hsome⟩
    · rw [hcur] at hplace
      exact absurd hplace (by simp)
    · exact hsome
  obtain ⟨v, hv⟩ := Option.isSome_iff_exists.mp hsome
  have hnot : s.notified cur = false := by
    have := hi.notified cur
    grind
  rw [Threads.joinTake, deref_eq hp, ok_bind, delete_eq hi.listed hd hp, ok_bind]
  exact ⟨_, _, rfl, hi.joinRemove hcur (Or.inr rfl) hnot hd hp hv (fun j hj => by grind),
    returnRight_none _⟩

lemma OwnersInv.joinEnd_lands (hi : OwnersInv s) {v : V}
    (hcur : s.place cur = some (.joinDeleting h v)) : Lands (s.joinEnd cur h v) := by
  obtain ⟨hplace, n, hn, hlife⟩ := hi.joinDeleting cur h v hcur
  rw [Threads.joinEnd, taskDelete_eq hplace hn, ok_bind, hn]
  refine ⟨_, _, rfl, hi.joinEnd hcur hn, fun u hu => ⟨n, ?_⟩⟩
  obtain rfl : v = u := by simpa using hu
  simp [Threads.goTo, Threads.note, Threads.taskRemoved, hlife]

lemma OwnersInv.detach_lands (hi : OwnersInv s) (d : D) : Lands (s.detach d) := by
  by_cases hd : d ∈ s.list
  swap
  · rw [Threads.detach, findHandle_not_mem hi.toBaseInv hd, ok_bind]
    exact ⟨s, _, rfl, hi, by simp [ReturnRight]⟩
  obtain ⟨p, hp⟩ := hi.listed d hd
  rw [Threads.detach, findHandle_mem hi.toBaseInv hd hp, ok_bind]
  dsimp only
  rw [deref_eq hp, ok_bind]
  split_ifs with hdet hjoin hst
  · exact ⟨s, _, rfl, hi, by simp [ReturnRight]⟩
  · exact ⟨s, _, rfl, hi, by simp [ReturnRight]⟩
  · exact ⟨_, _, rfl, hi.detachFlag hp (by simpa using hjoin) hst, by simp [ReturnRight]⟩
  · obtain ⟨v, hv⟩ := hi.exited_of_state hp hst
    obtain ⟨-, -, hplace, -⟩ := hi.exited d p v hp hv
    rw [delete_eq (s := s.note p.id _) hi.listed hd hp, ok_bind,
      taskDelete_eq (s := (s.note p.id _).removed d p) hplace (hi.owner d p hp), ok_bind]
    exact ⟨_, _, rfl, hi.detachRemove hd hp hv (by simpa using hjoin), by simp [ReturnRight]⟩

lemma OwnersInv.exit_lands (hi : OwnersInv s) (hcur : s.place cur = some .running) (v : V) :
    Lands (s.exit cur v) ∨ s.thread cur = none ∧ s.exit cur v = .error .assertion := by
  rcases find_cases hi.toBaseInv cur with ⟨d, p, hfind, hd, hp, hhandle⟩ | ⟨hfind, hno⟩
  · left
    rw [Threads.exit, hfind, ok_bind]
    dsimp only
    rw [deref_eq hp, ok_bind]
    by_cases hdet : p.detached = true
    · rw [if_pos hdet, delete_eq (s := s.note p.id _) hi.listed hd hp, ok_bind]
      exact ⟨_, _, rfl, hi.exitRemove hcur hd hp hhandle hdet, returnRight_none _⟩
    · rw [if_neg hdet]
      have hdet' : p.detached = false := by simpa using hdet
      cases hjoin : p.joinTask with
      | none =>
        have hsuspend := hi.exitSuspend (v := v) .exit s.notified hcur hp hhandle hd hdet'
          (by simp [hjoin]) (by simp [hjoin])
        rw [hjoin] at hsuspend
        exact ⟨_, _, rfl, hsuspend, returnRight_none _⟩
      | some j =>
        obtain ⟨hst, -, -, hplace⟩ := hi.joiner d p j hp hjoin
        obtain ⟨w, hw⟩ : ∃ w, s.place j = some w := by grind
        have hsuspend := hi.exitSuspend (v := v) p.state (Function.update s.notified j true) hcur hp
          hhandle hd hdet' (by simp [hjoin, hst]) fun i => by
            rw [Function.update_apply, hjoin]
            grind
        rw [hjoin] at hsuspend
        dsimp only
        rw [taskNotify_eq (s := (s.note p.id _).write d _) hw, ok_bind]
        exact ⟨_, _, rfl, hsuspend, returnRight_none _⟩
  · right
    refine ⟨?_, by rw [Threads.exit, hfind, ok_bind]⟩
    by_contra hthread
    obtain ⟨n, hn⟩ := Option.ne_none_iff_exists'.mp hthread
    rcases hi.pending cur n hn with ⟨d, p, hp, hhandle⟩ | hplace | ⟨j, u, hplace⟩
    · by_cases hd : d ∈ s.list
      · exact hno d p hd hp hhandle
      · obtain ⟨c, hc⟩ := hi.unlisted d p hp hd
        have hplace := (hi.creating c _ _ hc rfl).1
        rw [hhandle, hcur] at hplace
        exact absurd hplace (by simp)
    · rw [hcur] at hplace
      exact absurd hplace (by simp)
    · have hplace' := (hi.joinDeleting j cur u hplace).1
      rw [hcur] at hplace'
      exact absurd hplace' (by simp)

/-- A step keeps the invariant, and only the assertion of `pthread_exit` can fail. -/
lemma OwnersInv.step_lands [Zero V] (hi : OwnersInv s) {e : LifeEvent D H V}
    {r : Except Fault (After D H V)} (he : s.step e = some r) :
    Lands r ∨ ∃ cur v, e = .exit cur v ∧ s.thread cur = none ∧ r = .error .assertion := by
  cases e with
  | create cur det d h =>
    simp only [Threads.step] at he
    split at he
    · next hcur hd hh =>
      obtain rfl := Option.some.inj he
      exact Or.inl ⟨_, _, rfl, hi.create hcur hd hh, returnRight_none _⟩
    · exact absurd he (by simp)
  | insert cur =>
    simp only [Threads.step] at he
    split at he
    · next hcur =>
      obtain rfl := Option.some.inj he
      exact Or.inl ⟨_, _, rfl, hi.insert hcur, returnRight_none _⟩
    · exact absurd he (by simp)
  | start cur =>
    simp only [Threads.step] at he
    split at he
    · next h hcur =>
      rw [taskNotify_eq (hi.creating cur _ h hcur rfl).1] at he
      obtain rfl := Option.some.inj he
      exact Or.inl ⟨_, _, rfl, hi.start hcur, by simp [ReturnRight]⟩
    · exact absurd he (by simp)
  | begin cur =>
    simp only [Threads.step] at he
    split at he
    · next hcur hnot =>
      obtain rfl := Option.some.inj he
      exact Or.inl ⟨_, _, rfl, hi.begin hcur hnot, returnRight_none _⟩
    · exact absurd he (by simp)
  | join cur d =>
    simp only [Threads.step] at he
    split at he
    · next hcur =>
      obtain rfl := Option.some.inj he
      exact Or.inl (hi.join_lands hcur d)
    · exact absurd he (by simp)
  | wake cur =>
    simp only [Threads.step] at he
    split at he
    · next hcur hnot =>
      obtain rfl := Option.some.inj he
      exact Or.inl ⟨_, _, rfl, hi.wake hcur hnot, returnRight_none _⟩
    · exact absurd he (by simp)
  | joinTake cur =>
    simp only [Threads.step] at he
    split at he
    · next hcur =>
      obtain rfl := Option.some.inj he
      exact Or.inl (hi.joinTake_lands hcur)
    · exact absurd he (by simp)
  | joinEnd cur =>
    simp only [Threads.step] at he
    split at he
    · next hcur =>
      obtain rfl := Option.some.inj he
      exact Or.inl (hi.joinEnd_lands hcur)
    · exact absurd he (by simp)
  | detach cur d =>
    simp only [Threads.step] at he
    split at he
    · obtain rfl := Option.some.inj he
      exact Or.inl (hi.detach_lands d)
    · exact absurd he (by simp)
  | exit cur v =>
    simp only [Threads.step] at he
    split at he
    · next hcur =>
      obtain rfl := Option.some.inj he
      rcases hi.exit_lands hcur v with hlands | ⟨hthread, hr⟩
      · exact Or.inl hlands
      · exact Or.inr ⟨cur, v, rfl, hthread, hr⟩
    · exact absurd he (by simp)
  | exitEnd cur =>
    simp only [Threads.step] at he
    split at he
    · next hcur =>
      obtain ⟨n, v, hn, -⟩ := hi.exitDeleting cur hcur
      rw [taskDelete_eq hcur hn] at he
      obtain rfl := Option.some.inj he
      exact Or.inl ⟨_, _, rfl, hi.exitEnd hcur hn, returnRight_none _⟩
    · exact absurd he (by simp)

lemma OwnersInv.of_reachable [Zero V] {tasks : H → Bool} (hs : Threads.Reachable tasks s) :
    OwnersInv s := by
  induction hs with
  | init => exact ownersInv_init tasks
  | step hs he ih =>
    rcases ih.step_lands he with ⟨s', ret, heq, hi, -⟩ | ⟨cur, v, -, -, heq⟩
    · cases heq
      exact hi
    · exact absurd heq (by simp)

end EspIdf.Pthread
