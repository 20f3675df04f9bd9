/-
# Event loops

The handlers of an event loop are kept in a tree: loop nodes hold handlers for all events and
a list of base nodes, base nodes hold handlers for all events of one base and a list of id
nodes, and id nodes hold handlers for single events.  New handlers are added to the last
nodes; where a handler for more events is registered after one for fewer, a new node is
started, so that the order of registration is kept.
-/
import EspIdf.Lib.Nodes

namespace EspIdf.Event

open EspIdf.Lib

/-- `ESP_EVENT_ANY_ID`. -/
def anyId : BitVec 32 := 0xffffffff#32

variable {β η α : Type}

/-! ### Nodes -/

/-- `esp_event_handler_instance_t`. -/
structure HandlerInstance (η α : Type) where
  handler : η
  arg : α

/-- `esp_event_id_node_t`. -/
structure IdNode (η α : Type) where
  id : BitVec 32
  handlers : List (HandlerInstance η α)

/-- `esp_event_base_node_t`.  The base `none` is `esp_event_any_base`. -/
structure BaseNode (β η α : Type) where
  base : Option β
  handlers : List (HandlerInstance η α)
  idNodes : List (IdNode η α)

/-- `esp_event_loop_node_t`. -/
structure LoopNode (β η α : Type) where
  handlers : List (HandlerInstance η α)
  baseNodes : List (BaseNode β η α)

/-- The loop nodes of an `esp_event_loop_instance_t`. -/
abbrev Loop (β η α : Type) : Type := List (LoopNode β η α)

section Functions

variable [DecidableEq β] [DecidableEq η]

/-! ### Adding handlers, when the memory suffices -/

/-- `handler_instances_add`. -/
def handlerInstancesAdd (handler : η) (arg : α) :
    List (HandlerInstance η α) → List (HandlerInstance η α)
  | [] => [⟨handler, arg⟩]
  | it :: rest =>
    if handler = it.handler then { it with arg := arg } :: rest
    else it :: handlerInstancesAdd handler arg rest

/-- `base_node_add_handler`. -/
def baseNodeAddHandler (baseNode : BaseNode β η α) (id : BitVec 32) (handler : η) (arg : α) :
    BaseNode β η α :=
  if id = anyId then
    { baseNode with handlers := handlerInstancesAdd handler arg baseNode.handlers }
  else
    match splitLast (fun it : IdNode η α => it.id == id) baseNode.idNodes with
    | some (before, idNode, after) =>
      { baseNode with
        idNodes := before ++
          { idNode with handlers := handlerInstancesAdd handler arg idNode.handlers } :: after }
    | none =>
      { baseNode with idNodes := baseNode.idNodes ++ [⟨id, handlerInstancesAdd handler arg []⟩] }

/-- Handlers for more events come after ones for fewer: the base node that was found, or the
last one if it has another base, has id nodes, and the handler is for all ids. -/
def needsBaseNode (baseNodes : List (BaseNode β η α)) (base : Option β) (id : BitVec 32)
    (baseNode : BaseNode β η α) : Bool :=
  (!baseNode.idNodes.isEmpty && id == anyId) ||
    baseNodes.getLast?.any fun last => last.base != base && !last.idNodes.isEmpty && id == anyId

/-- `loop_node_add_handler`. -/
def loopNodeAddHandler (loopNode : LoopNode β η α) (base : Option β) (id : BitVec 32)
    (handler : η) (arg : α) : LoopNode β η α :=
  if base = none ∧ id = anyId then
    { loopNode with handlers := handlerInstancesAdd handler arg loopNode.handlers }
  else
    let appended : LoopNode β η α :=
      { loopNode with
        baseNodes := loopNode.baseNodes ++ [baseNodeAddHandler ⟨base, [], []⟩ id handler arg] }
    match splitLast (fun it : BaseNode β η α => it.base == base) loopNode.baseNodes with
    | some (before, baseNode, after) =>
      if needsBaseNode loopNode.baseNodes base id baseNode then appended
      else
        { loopNode with
          baseNodes := before ++ baseNodeAddHandler baseNode id handler arg :: after }
    | none => appended

/-- `esp_event_handler_register_with`.  The base `none` with a certain id is refused. -/
def espEventHandlerRegisterWith (loop : Loop β η α) (base : Option β) (id : BitVec 32)
    (handler : η) (arg : α) : Loop β η α :=
  if base = none ∧ id ≠ anyId then loop
  else
    let appended := loop ++ [loopNodeAddHandler ⟨[], []⟩ base id handler arg]
    match splitLast (fun _ : LoopNode β η α => true) loop with
    | some (before, last, _) =>
      if !last.baseNodes.isEmpty ∧ base = none ∧ id = anyId then appended
      else before ++ [loopNodeAddHandler last base id handler arg]
    | none => appended

/-! ### Removing handlers -/

/-- `handler_instances_remove`, with whether the handler was found. -/
def handlerInstancesRemove (handler : η) :
    List (HandlerInstance η α) → Bool × List (HandlerInstance η α)
  | [] => (false, [])
  | it :: rest =>
    if it.handler = handler then (true, rest)
    else ((handlerInstancesRemove handler rest).1, it :: (handlerInstancesRemove handler rest).2)

/-- `base_node_remove_handler`; the flag is `ESP_OK`. -/
def baseNodeRemoveHandler (baseNode : BaseNode β η α) (id : BitVec 32) (handler : η) :
    Bool × BaseNode β η α :=
  if id = anyId then
    ((handlerInstancesRemove handler baseNode.handlers).1,
      { baseNode with handlers := (handlerInstancesRemove handler baseNode.handlers).2 })
  else
    let r := removeIn (fun it : IdNode η α => it.id == id)
      (fun it => ((handlerInstancesRemove handler it.handlers).1,
        { it with handlers := (handlerInstancesRemove handler it.handlers).2 }))
      (fun it => it.handlers.isEmpty) baseNode.idNodes
    (r.1, { baseNode with idNodes := r.2 })

/-- `loop_node_remove_handler`; the flag is `ESP_OK`. -/
def loopNodeRemoveHandler (loopNode : LoopNode β η α) (base : Option β) (id : BitVec 32)
    (handler : η) : Bool × LoopNode β η α :=
  if base = none ∧ id = anyId then
    ((handlerInstancesRemove handler loopNode.handlers).1,
      { loopNode with handlers := (handlerInstancesRemove handler loopNode.handlers).2 })
  else
    let r := removeIn (fun it : BaseNode β η α => it.base == base)
      (fun it => baseNodeRemoveHandler it id handler)
      (fun it => it.handlers.isEmpty && it.idNodes.isEmpty) loopNode.baseNodes
    (r.1, { loopNode with baseNodes := r.2 })

/-- `esp_event_handler_unregister_with`. -/
def espEventHandlerUnregisterWith (loop : Loop β η α) (base : Option β) (id : BitVec 32)
    (handler : η) : Loop β η α :=
  if base = none ∧ id ≠ anyId then loop
  else
    (removeIn (fun _ => true) (fun it => loopNodeRemoveHandler it base id handler)
      (fun it => it.baseNodes.isEmpty && it.handlers.isEmpty) loop).2

/-! ### Running the loop -/

/-- The handlers of a base node that `esp_event_loop_run` executes for an event. -/
def runBaseNode (baseNode : BaseNode β η α) (base : β) (id : BitVec 32) :
    List (HandlerInstance η α) :=
  if baseNode.base = some base then
    baseNode.handlers ++
      ((baseNode.idNodes.find? fun it => it.id == id).map IdNode.handlers).getD []
  else []

/-- The handlers that `esp_event_loop_run` executes for an event, in order. -/
def espEventLoopRun (loop : Loop β η α) (base : β) (id : BitVec 32) :
    List (HandlerInstance η α) :=
  loop.flatMap fun loopNode =>
    loopNode.handlers ++ loopNode.baseNodes.flatMap fun baseNode => runBaseNode baseNode base id

end Functions

end EspIdf.Event
