/-
# Creating, joining, detaching and exiting threads

A thread has a descriptor in a list and a task.  Who ends it, the joiner, the detacher or the
thread itself, is decided in sections under one mutex by three fields of the descriptor.  The
descriptor is freed in such a section, and the task is often deleted after it.
-/
import Mathlib

namespace EspIdf.Pthread

/-- `enum esp_pthread_task_state`. -/
inductive TaskState where
  | run
  | exit
deriving DecidableEq

/-- `esp_pthread_t`, for tasks `H` and values `V`. -/
structure EspPthread (H V : Type) where
  handle : H
  joinTask : Option H
  state : TaskState
  detached : Bool
  retval : V
  /-- The number of the thread, which the code does not have. -/
  id : ℕ
deriving DecidableEq

/-- The error numbers that the functions return. -/
inductive LifeErrno where
  | esrch
  | edeadlk
  | einval
deriving DecidableEq

/-- Where a task is, for descriptors at the addresses `D`. -/
inductive Place (D H V : Type) where
  /-- In `pthread_task_func`, before the notification that starts it. -/
  | notStarted
  /-- In no call. -/
  | running
  /-- In `pthread_create`, before the section that puts the descriptor on the list. -/
  | inserting (pthread : D) (xHandle : H)
  /-- In `pthread_create`, before the notification of the new task. -/
  | starting (xHandle : H)
  /-- In `xTaskNotifyWait` of `pthread_join`. -/
  | joinWaiting (pthread : D) (handle : H)
  /-- In `pthread_join`, before its second section. -/
  | joinWoken (pthread : D) (handle : H)
  /-- In `pthread_join`, before `vTaskDelete`. -/
  | joinDeleting (handle : H) (childTaskRetval : V)
  /-- In `pthread_exit`, before `vTaskDelete(NULL)`. -/
  | exitDeleting
  /-- In `pthread_exit`, after its section: suspended, or about to be. -/
  | exitSuspending
deriving DecidableEq

/-- What has happened to a thread. -/
structure Life (V : Type) where
  /-- The argument of `pthread_exit`. -/
  exited : Option V
  /-- A thread created detached, or a call of `pthread_detach` that succeeded. -/
  detached : Bool
  /-- The values that calls of `pthread_join` returned with `0`. -/
  joins : List V
  frees : ℕ
  deletes : ℕ
deriving DecidableEq

/-- The life of a thread that has not been created. -/
def Life.none {V : Type} : Life V := ⟨.none, false, [], 0, 0⟩

/-- The list, the heap and the tasks.  The last three fields are there to speak about threads
whose descriptor or task is gone, and no function reads them. -/
structure Threads (D H V : Type) where
  /-- `s_threads_list`. -/
  list : List D
  /-- The descriptors that are allocated. -/
  heap : D → Option (EspPthread H V)
  /-- The tasks that there are. -/
  place : H → Option (Place D H V)
  notified : H → Bool
  /-- The thread that a task was created for. -/
  thread : H → Option ℕ
  next : ℕ
  life : ℕ → Life V

/-- What a call must not do. -/
inductive Fault where
  /-- Access to a descriptor that is not allocated. -/
  | badAccess
  /-- `SLIST_REMOVE` of a descriptor that is not on the list. -/
  | notListed
  /-- A notification or deletion of a task that does not exist. -/
  | noTask
  /-- The assertion of `pthread_exit` that there is a descriptor of the current task. -/
  | assertion
deriving DecidableEq

variable {D H V : Type} [DecidableEq D] [DecidableEq H]

/-- Access to a descriptor. -/
def Threads.deref (s : Threads D H V) (pthread : D) : Except Fault (EspPthread H V) :=
  match s.heap pthread with
  | some item => .ok item
  | none => .error .badAccess

/-- `pthread_list_find_item`, from an entry of the list on. -/
def Threads.findItem {R : Type} (s : Threads D H V) (itemCheck : D → EspPthread H V → Option R) :
    List D → Except Fault (Option R)
  | [] => .ok none
  | it :: rest => do
    let item ← s.deref it
    match itemCheck it item with
    | some val => .ok (some val)
    | none => s.findItem itemCheck rest

/-- `pthread_find_handle`. -/
def Threads.findHandle (s : Threads D H V) (thread : D) : Except Fault (Option H) :=
  s.findItem (fun it item => if it = thread then some item.handle else none) s.list

/-- `pthread_find`. -/
def Threads.find (s : Threads D H V) (taskHandle : H) : Except Fault (Option D) :=
  s.findItem (fun it item => if taskHandle = item.handle then some it else none) s.list

/-- `SLIST_REMOVE`, from an entry of the list on. -/
def Threads.slistRemove (s : Threads D H V) (pthread : D) : List D → Except Fault (List D)
  | [] => .error .notListed
  | it :: rest => do
    let _ ← s.deref it
    if it = pthread then .ok rest
    else
      let rest ← s.slistRemove pthread rest
      .ok (it :: rest)

/-- Note what has happened to a thread. -/
def Threads.note (s : Threads D H V) (id : ℕ) (f : Life V → Life V) : Threads D H V :=
  { s with life := Function.update s.life id (f (s.life id)) }

/-- `pthread_delete`. -/
def Threads.delete (s : Threads D H V) (pthread : D) : Except Fault (Threads D H V) := do
  let item ← s.deref pthread
  let list ← s.slistRemove pthread s.list
  let s := { s with list, heap := Function.update s.heap pthread none }
  .ok (s.note item.id fun l => { l with frees := l.frees + 1 })

/-- `vTaskDelete`. -/
def Threads.taskDelete (s : Threads D H V) (handle : H) : Except Fault (Threads D H V) :=
  match s.place handle with
  | none => .error .noTask
  | some _ =>
    let s' := { s with
      place := Function.update s.place handle none
      notified := Function.update s.notified handle false
      thread := Function.update s.thread handle none }
    match s.thread handle with
    | some id => .ok (s'.note id fun l => { l with deletes := l.deletes + 1 })
    | none => .ok s'

/-- `xTaskNotify` with `eNoAction`. -/
def Threads.taskNotify (s : Threads D H V) (handle : H) : Except Fault (Threads D H V) :=
  match s.place handle with
  | none => .error .noTask
  | some _ => .ok { s with notified := Function.update s.notified handle true }

/-- Change a descriptor. -/
def Threads.write (s : Threads D H V) (pthread : D) (item : EspPthread H V) : Threads D H V :=
  { s with heap := Function.update s.heap pthread (some item) }

/-- Go on with a task. -/
def Threads.goTo (s : Threads D H V) (cur : H) (place : Place D H V) : Threads D H V :=
  { s with place := Function.update s.place cur (some place) }

/-! ### Sections -/

/-- What a call returns. -/
inductive Return (V : Type) where
  | create
  | join (ret : Option LifeErrno) (retval : V)
  | detach (ret : Option LifeErrno)
deriving DecidableEq

/-- The state after a step, and what is returned if a call returns. -/
abbrev After (D H V : Type) := Threads D H V × Option (Return V)

/-- `pthread_create`, up to the section: `calloc` and `xTaskCreatePinnedToCore` give a new
descriptor and a new task. -/
def Threads.create [Zero V] (s : Threads D H V) (cur : H) (detached : Bool) (pthread : D)
    (xHandle : H) : Threads D H V :=
  let item : EspPthread H V :=
    { handle := xHandle, joinTask := none, state := .run, detached, retval := 0, id := s.next }
  let s := { s.write pthread item with
    place := Function.update s.place xHandle (some .notStarted)
    notified := Function.update s.notified xHandle false
    thread := Function.update s.thread xHandle (some s.next)
    next := s.next + 1
    life := Function.update s.life s.next { Life.none with detached } }
  s.goTo cur (.inserting pthread xHandle)

/-- The section of `pthread_create`. -/
def Threads.insert (s : Threads D H V) (cur : H) (pthread : D) (xHandle : H) : Threads D H V :=
  { s with list := pthread :: s.list }.goTo cur (.starting xHandle)

/-- `cur_pthread && cur_pthread->join_task == handle`, for the descriptor of the current task. -/
def Threads.joinedBy (s : Threads D H V) (cur handle : H) : Except Fault Bool := do
  match ← s.find cur with
  | some curPthread =>
    let curItem ← s.deref curPthread
    .ok (decide (curItem.joinTask = some handle))
  | none => .ok false

/-- The first section of `pthread_join`. -/
def Threads.join [Zero V] (s : Threads D H V) (cur : H) (pthread : D) : Except Fault (After D H V) := do
  match ← s.findHandle pthread with
  | none => .ok (s, some (.join (some .esrch) 0))
  | some handle =>
    let item ← s.deref pthread
    if item.detached then .ok (s, some (.join (some .edeadlk) 0))
    else if item.joinTask.isSome then .ok (s, some (.join (some .einval) 0))
    else if handle = cur then .ok (s, some (.join (some .edeadlk) 0))
    else
      let eachOther ← s.joinedBy cur handle
      if eachOther then .ok (s, some (.join (some .edeadlk) 0))
      else if item.state = .run then
        let s := s.write pthread { item with joinTask := some cur }
        .ok (s.goTo cur (.joinWaiting pthread handle), none)
      else
        let s ← s.delete pthread
        .ok (s.goTo cur (.joinDeleting handle item.retval), none)

/-- The second section of `pthread_join`. -/
def Threads.joinTake (s : Threads D H V) (cur : H) (pthread : D) (handle : H) :
    Except Fault (After D H V) := do
  let item ← s.deref pthread
  let s ← s.delete pthread
  .ok (s.goTo cur (.joinDeleting handle item.retval), none)

/-- `vTaskDelete` of `pthread_join`, which returns. -/
def Threads.joinEnd (s : Threads D H V) (cur handle : H) (childTaskRetval : V) :
    Except Fault (After D H V) := do
  let s' ← s.taskDelete handle
  let s' := match s.thread handle with
    | some id => s'.note id fun l => { l with joins := l.joins ++ [childTaskRetval] }
    | none => s'
  .ok (s'.goTo cur .running, some (.join none childTaskRetval))

/-- `pthread_detach`, which is one section. -/
def Threads.detach (s : Threads D H V) (pthread : D) : Except Fault (After D H V) := do
  match ← s.findHandle pthread with
  | none => .ok (s, some (.detach (some .esrch)))
  | some handle =>
    let item ← s.deref pthread
    let marked := s.note item.id fun l => { l with detached := true }
    if item.detached then .ok (s, some (.detach (some .einval)))
    else if item.joinTask.isSome then .ok (s, some (.detach (some .einval)))
    else if item.state = .run then
      .ok (marked.write pthread { item with detached := true }, some (.detach none))
    else
      let s ← marked.delete pthread
      let s ← s.taskDelete handle
      .ok (s, some (.detach none))

/-- The section of `pthread_exit`. -/
def Threads.exit (s : Threads D H V) (cur : H) (valuePtr : V) : Except Fault (After D H V) := do
  match ← s.find cur with
  | none => .error .assertion
  | some pthread =>
    let item ← s.deref pthread
    let s := s.note item.id fun l => { l with exited := some valuePtr }
    if item.detached then
      let s ← s.delete pthread
      .ok (s.goTo cur .exitDeleting, none)
    else
      match item.joinTask with
      | some joinTask =>
        let s := s.write pthread { item with retval := valuePtr }
        let s ← s.taskNotify joinTask
        .ok (s.goTo cur .exitSuspending, none)
      | none =>
        let s := s.write pthread { item with retval := valuePtr, state := .exit }
        .ok (s.goTo cur .exitSuspending, none)

/-! ### Steps -/

/-- The atomic steps of a task. -/
inductive LifeEvent (D H V : Type) where
  /-- `pthread_create` is called, and the allocators give `pthread` and `xHandle`. -/
  | create (cur : H) (detached : Bool) (pthread : D) (xHandle : H)
  | insert (cur : H)
  /-- `xTaskNotify` of `pthread_create`, which returns. -/
  | start (cur : H)
  /-- `xTaskNotifyWait` of `pthread_task_func` returns. -/
  | begin (cur : H)
  | join (cur : H) (pthread : D)
  /-- `xTaskNotifyWait` of `pthread_join` returns. -/
  | wake (cur : H)
  | joinTake (cur : H)
  | joinEnd (cur : H)
  | detach (cur : H) (pthread : D)
  | exit (cur : H) (valuePtr : V)
  /-- `vTaskDelete(NULL)` of `pthread_exit`. -/
  | exitEnd (cur : H)

/-- The result of a step, if it is possible. -/
def Threads.step [Zero V] (s : Threads D H V) : LifeEvent D H V → Option (Except Fault (After D H V))
  | .create cur detached pthread xHandle =>
    match s.place cur, s.heap pthread, s.place xHandle with
    | some .running, none, none => some (.ok (s.create cur detached pthread xHandle, none))
    | _, _, _ => none
  | .insert cur =>
    match s.place cur with
    | some (.inserting pthread xHandle) => some (.ok (s.insert cur pthread xHandle, none))
    | _ => none
  | .start cur =>
    match s.place cur with
    | some (.starting xHandle) =>
      some ((s.taskNotify xHandle).map fun s => (s.goTo cur .running, some .create))
    | _ => none
  | .begin cur =>
    match s.place cur, s.notified cur with
    | some .notStarted, true =>
      some (.ok ({ s with notified := Function.update s.notified cur false }.goTo cur .running,
        none))
    | _, _ => none
  | .join cur pthread =>
    match s.place cur with
    | some .running => some (s.join cur pthread)
    | _ => none
  | .wake cur =>
    match s.place cur, s.notified cur with
    | some (.joinWaiting pthread handle), true =>
      some (.ok ({ s with notified := Function.update s.notified cur false }.goTo cur
        (.joinWoken pthread handle), none))
    | _, _ => none
  | .joinTake cur =>
    match s.place cur with
    | some (.joinWoken pthread handle) => some (s.joinTake cur pthread handle)
    | _ => none
  | .joinEnd cur =>
    match s.place cur with
    | some (.joinDeleting handle childTaskRetval) => some (s.joinEnd cur handle childTaskRetval)
    | _ => none
  | .detach cur pthread =>
    match s.place cur with
    | some .running => some (s.detach pthread)
    | _ => none
  | .exit cur valuePtr =>
    match s.place cur with
    | some .running => some (s.exit cur valuePtr)
    | _ => none
  | .exitEnd cur =>
    match s.place cur with
    | some .exitDeleting => some ((s.taskDelete cur).map fun s => (s, none))
    | _ => none

/-- `esp_pthread_init`, with the tasks that there are then. -/
def Threads.init (tasks : H → Bool) : Threads D H V where
  list := []
  heap _ := none
  place h := if tasks h then some .running else none
  notified _ := false
  thread _ := none
  next := 0
  life _ := Life.none

/-- The states of the runs. -/
inductive Threads.Reachable [Zero V] (tasks : H → Bool) : Threads D H V → Prop
  | init : Reachable tasks (.init tasks)
  | step {s s' : Threads D H V} {e : LifeEvent D H V} {ret : Option (Return V)}
      (hs : Reachable tasks s) (he : s.step e = some (.ok (s', ret))) : Reachable tasks s'

end EspIdf.Pthread
