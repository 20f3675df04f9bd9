/-
# Dispatch over nodes in memory

`esp_event_loop_run` walks the tree of an event loop with pointers, and before it enters the
body of a loop it saves the pointer to the next node.  The handlers that it calls may register and
unregister handlers of the same loop, which allocates and frees nodes while the pointers are held.
Here the nodes have addresses, and a dispatch takes one step after another: following a pointer
whose node is not in the tree any more is a fault.
-/
import EspIdf.Event.Tree

namespace EspIdf.Event

open EspIdf.Lib

variable {β η α : Type}

namespace Addressed

/-! ### Nodes -/

/-- `esp_event_handler_instance_t` at an address. -/
structure HandlerInstance (η α : Type) where
  addr : ℕ
  handler : η
  arg : α
deriving DecidableEq

/-- `esp_event_id_node_t` at an address. -/
structure IdNode (η α : Type) where
  addr : ℕ
  id : BitVec 32
  handlers : List (HandlerInstance η α)
deriving DecidableEq

/-- `esp_event_base_node_t` at an address. -/
structure BaseNode (β η α : Type) where
  addr : ℕ
  base : Option β
  handlers : List (HandlerInstance η α)
  idNodes : List (IdNode η α)
deriving DecidableEq

/-- `esp_event_loop_node_t` at an address. -/
structure LoopNode (β η α : Type) where
  addr : ℕ
  handlers : List (HandlerInstance η α)
  baseNodes : List (BaseNode β η α)
deriving DecidableEq

/-- The loop nodes of an `esp_event_loop_instance_t`. -/
abbrev Loop (β η α : Type) : Type := List (LoopNode β η α)

section Functions

variable [DecidableEq β] [DecidableEq η]

/-! ### Adding handlers

Each call gets four addresses that have not been used: `a` for the handler, `a + 1` for an id
node, `a + 2` for a base node and `a + 3` for a loop node. -/

/-- `handler_instances_add`. -/
def handlerInstancesAdd (a : ℕ) (handler : η) (arg : α) :
    List (HandlerInstance η α) → List (HandlerInstance η α)
  | [] => [⟨a, handler, arg⟩]
  | it :: rest =>
    if handler = it.handler then { it with arg := arg } :: rest
    else it :: handlerInstancesAdd a handler arg rest

/-- `base_node_add_handler`. -/
def baseNodeAddHandler (a : ℕ) (baseNode : BaseNode β η α) (id : BitVec 32) (handler : η)
    (arg : α) : BaseNode β η α :=
  if id = anyId then
    { baseNode with handlers := handlerInstancesAdd a handler arg baseNode.handlers }
  else
    match splitLast (fun it : IdNode η α => it.id == id) baseNode.idNodes with
    | some (before, idNode, after) =>
      { baseNode with
        idNodes := before ++
          { idNode with handlers := handlerInstancesAdd a handler arg idNode.handlers } :: after }
    | none =>
      { baseNode with
        idNodes := baseNode.idNodes ++ [⟨a + 1, id, handlerInstancesAdd a handler arg []⟩] }

/-- Where `loop_node_add_handler` starts a new base node although there is one for the base. -/
def needsBaseNode (baseNodes : List (BaseNode β η α)) (base : Option β) (id : BitVec 32)
    (baseNode : BaseNode β η α) : Bool :=
  (!baseNode.idNodes.isEmpty && id == anyId) ||
    baseNodes.getLast?.any fun last => last.base != base && !last.idNodes.isEmpty && id == anyId

/-- `loop_node_add_handler`. -/
def loopNodeAddHandler (a : ℕ) (loopNode : LoopNode β η α) (base : Option β) (id : BitVec 32)
    (handler : η) (arg : α) : LoopNode β η α :=
  if base = none ∧ id = anyId then
    { loopNode with handlers := handlerInstancesAdd a handler arg loopNode.handlers }
  else
    let appended : LoopNode β η α :=
      { loopNode with
        baseNodes := loopNode.baseNodes ++
          [baseNodeAddHandler a ⟨a + 2, base, [], []⟩ id handler arg] }
    match splitLast (fun it : BaseNode β η α => it.base == base) loopNode.baseNodes with
    | some (before, baseNode, after) =>
      if needsBaseNode loopNode.baseNodes base id baseNode then appended
      else
        { loopNode with
          baseNodes := before ++ baseNodeAddHandler a baseNode id handler arg :: after }
    | none => appended

/-- `esp_event_handler_register_with`.  The base `none` with a certain id is refused. -/
def espEventHandlerRegisterWith (a : ℕ) (loop : Loop β η α) (base : Option β) (id : BitVec 32)
    (handler : η) (arg : α) : Loop β η α :=
  if base = none ∧ id ≠ anyId then loop
  else
    let appended := loop ++ [loopNodeAddHandler a ⟨a + 3, [], []⟩ base id handler arg]
    match splitLast (fun _ : LoopNode β η α => true) loop with
    | some (before, last, _) =>
      if !last.baseNodes.isEmpty ∧ base = none ∧ id = anyId then appended
      else before ++ [loopNodeAddHandler a last base id handler arg]
    | none => appended

/-! ### Removing handlers -/

/-- `handler_instances_remove`, with whether the handler was found. -/
def handlerInstancesRemove (handler : η) :
    List (HandlerInstance η α) → Bool × List (HandlerInstance η α)
  | [] => (false, [])
  | it :: rest =>
    if it.handler = handler then (true, rest)
    else ((handlerInstancesRemove handler rest).1, it :: (handlerInstancesRemove handler rest).2)

/-- `base_node_remove_handler`; the flag is `ESP_OK`. -/
def baseNodeRemoveHandler (baseNode : BaseNode β η α) (id : BitVec 32) (handler : η) :
    Bool × BaseNode β η α :=
  if id = anyId then
    ((handlerInstancesRemove handler baseNode.handlers).1,
      { baseNode with handlers := (handlerInstancesRemove handler baseNode.handlers).2 })
  else
    let r := removeIn (fun it : IdNode η α => it.id == id)
      (fun it => ((handlerInstancesRemove handler it.handlers).1,
        { it with handlers := (handlerInstancesRemove handler it.handlers).2 }))
      (fun it => it.handlers.isEmpty) baseNode.idNodes
    (r.1, { baseNode with idNodes := r.2 })

/-- `loop_node_remove_handler`; the flag is `ESP_OK`. -/
def loopNodeRemoveHandler (loopNode : LoopNode β η α) (base : Option β) (id : BitVec 32)
    (handler : η) : Bool × LoopNode β η α :=
  if base = none ∧ id = anyId then
    ((handlerInstancesRemove handler loopNode.handlers).1,
      { loopNode with handlers := (handlerInstancesRemove handler loopNode.handlers).2 })
  else
    let r := removeIn (fun it : BaseNode β η α => it.base == base)
      (fun it => baseNodeRemoveHandler it id handler)
      (fun it => it.handlers.isEmpty && it.idNodes.isEmpty) loopNode.baseNodes
    (r.1, { loopNode with baseNodes := r.2 })

/-- `esp_event_handler_unregister_with`. -/
def espEventHandlerUnregisterWith (loop : Loop β η α) (base : Option β) (id : BitVec 32)
    (handler : η) : Loop β η α :=
  if base = none ∧ id ≠ anyId then loop
  else
    (removeIn (fun _ => true) (fun it => loopNodeRemoveHandler it base id handler)
      (fun it => it.baseNodes.isEmpty && it.handlers.isEmpty) loop).2

end Functions

/-! ### Following pointers -/

/-- The node at `a` in a list, with the pointer to the next one. -/
def nodeAt {γ : Type} (addr : γ → ℕ) (a : ℕ) : List γ → Option (γ × Option ℕ)
  | [] => none
  | x :: xs => if addr x = a then some (x, xs.head?.map addr) else nodeAt addr a xs

/-- The loop node at `a`. -/
def loopNodeAt (loop : Loop β η α) (a : ℕ) : Option (LoopNode β η α × Option ℕ) :=
  nodeAt LoopNode.addr a loop

/-- The base node at `a`. -/
def baseNodeAt (loop : Loop β η α) (a : ℕ) : Option (BaseNode β η α × Option ℕ) :=
  loop.findSome? fun n => nodeAt BaseNode.addr a n.baseNodes

/-- The id node at `a`. -/
def idNodeAt (loop : Loop β η α) (a : ℕ) : Option (IdNode η α × Option ℕ) :=
  loop.findSome? fun n => n.baseNodes.findSome? fun m => nodeAt IdNode.addr a m.idNodes

/-- What a handler is registered for: a base or any base, an id or any id, and the function. -/
abbrev Key (β η : Type) : Type := Option β × BitVec 32 × η

/-- The handler at `a` in a list of handlers for `base` and `id`. -/
def handlerIn (base : Option β) (id : BitVec 32) (a : ℕ) (hs : List (HandlerInstance η α)) :
    Option (Key β η × Option ℕ) :=
  (nodeAt HandlerInstance.addr a hs).map fun r => ((base, id, r.1.handler), r.2)

/-- The handler at `a`, with what it is registered for. -/
def handlerAt (loop : Loop β η α) (a : ℕ) : Option (Key β η × Option ℕ) :=
  loop.findSome? fun n => (handlerIn none anyId a n.handlers).or <|
    n.baseNodes.findSome? fun m => (handlerIn m.base anyId a m.handlers).or <|
      m.idNodes.findSome? fun i => handlerIn m.base i.id a i.handlers

/-! ### One step of a dispatch -/

/-- Where `esp_event_loop_run` is between two handlers, with the pointers that it will follow. -/
inductive Pc where
  /-- At the loop over the loop nodes. -/
  | loopNodes (loopNode : Option ℕ)
  /-- At the loop over the handlers of `loopNode`. -/
  | loopHandlers (tempNode : Option ℕ) (loopNode : ℕ) (handler : Option ℕ)
  /-- At the loop over base nodes. -/
  | baseNodes (tempNode : Option ℕ) (baseNode : Option ℕ)
  /-- At the loop over the handlers of `baseNode`. -/
  | baseHandlers (tempNode tempBase : Option ℕ) (baseNode : ℕ) (handler : Option ℕ)
  /-- At the loop over id nodes. -/
  | idNodes (tempNode tempBase : Option ℕ) (idNode : Option ℕ)
  /-- At the loop over the handlers of an id node, which is the last one looked at. -/
  | idHandlers (tempNode tempBase : Option ℕ) (handler : Option ℕ)
deriving DecidableEq

/-- What the task of the loop does. -/
inductive Status (β η : Type) where
  /-- It waits for an event. -/
  | idle
  /-- It dispatches the event `base`, `id`. -/
  | running (base : β) (id : BitVec 32) (pc : Pc)
  /-- It is inside a handler, after which it goes on at `pc`. -/
  | executing (base : β) (id : BitVec 32) (key : Key β η) (pc : Pc)
  /-- It has followed a pointer to a node that is not in the tree. -/
  | fault
deriving DecidableEq

section Run

variable [DecidableEq β]

/-- Enter a handler: the next one has been saved. -/
def handlerExecute (loop : Loop β η α) (base : β) (id : BitVec 32) (handler : ℕ)
    (pc : Option ℕ → Pc) : Status β η :=
  match handlerAt loop handler with
  | some (key, tempHandler) => .executing base id key (pc tempHandler)
  | none => .fault

/-- The next step of `esp_event_loop_run` between two handlers. -/
def advance (loop : Loop β η α) (base : β) (id : BitVec 32) : Pc → Status β η
  | .loopNodes none => .idle
  | .loopNodes (some a) =>
    match loopNodeAt loop a with
    | some (n, tempNode) =>
      .running base id (.loopHandlers tempNode a (n.handlers.head?.map HandlerInstance.addr))
    | none => .fault
  | .loopHandlers tempNode a none =>
    match loopNodeAt loop a with
    | some (n, _) => .running base id (.baseNodes tempNode (n.baseNodes.head?.map BaseNode.addr))
    | none => .fault
  | .loopHandlers tempNode a (some h) =>
    handlerExecute loop base id h (Pc.loopHandlers tempNode a)
  | .baseNodes tempNode none => .running base id (.loopNodes tempNode)
  | .baseNodes tempNode (some a) =>
    match baseNodeAt loop a with
    | some (m, tempBase) =>
      if m.base = some base then
        .running base id
          (.baseHandlers tempNode tempBase a (m.handlers.head?.map HandlerInstance.addr))
      else .running base id (.baseNodes tempNode tempBase)
    | none => .fault
  | .baseHandlers tempNode tempBase a none =>
    match baseNodeAt loop a with
    | some (m, _) =>
      .running base id (.idNodes tempNode tempBase (m.idNodes.head?.map IdNode.addr))
    | none => .fault
  | .baseHandlers tempNode tempBase a (some h) =>
    handlerExecute loop base id h (Pc.baseHandlers tempNode tempBase a)
  | .idNodes tempNode tempBase none => .running base id (.baseNodes tempNode tempBase)
  | .idNodes tempNode tempBase (some a) =>
    match idNodeAt loop a with
    | some (i, tempIdNode) =>
      if i.id = id then
        .running base id
          (.idHandlers tempNode tempBase (i.handlers.head?.map HandlerInstance.addr))
      else .running base id (.idNodes tempNode tempBase tempIdNode)
    | none => .fault
  -- skip to the next base node
  | .idHandlers tempNode tempBase none => .running base id (.baseNodes tempNode tempBase)
  | .idHandlers tempNode tempBase (some h) =>
    handlerExecute loop base id h (Pc.idHandlers tempNode tempBase)

end Run

/-! ### Runs -/

/-- A handler of the tree, with the nodes that it hangs on. -/
structure Path (β η : Type) where
  loopNode : ℕ
  baseNode : Option ℕ
  handler : ℕ
  key : Key β η
deriving DecidableEq

/-- The path to a handler. -/
def HandlerInstance.path (loopNode : ℕ) (baseNode : Option ℕ) (base : Option β) (id : BitVec 32)
    (it : HandlerInstance η α) : Path β η :=
  ⟨loopNode, baseNode, it.addr, (base, id, it.handler)⟩

def IdNode.paths (loopNode baseNode : ℕ) (base : Option β) (n : IdNode η α) : List (Path β η) :=
  n.handlers.map (HandlerInstance.path loopNode (some baseNode) base n.id)

def BaseNode.paths (loopNode : ℕ) (n : BaseNode β η α) : List (Path β η) :=
  n.handlers.map (HandlerInstance.path loopNode (some n.addr) n.base anyId) ++
    n.idNodes.flatMap (IdNode.paths loopNode n.addr n.base)

def LoopNode.paths (n : LoopNode β η α) : List (Path β η) :=
  n.handlers.map (HandlerInstance.path n.addr none none anyId) ++
    n.baseNodes.flatMap (BaseNode.paths n.addr)

/-- The paths to all handlers of the tree. -/
def paths (loop : Loop β η α) : List (Path β η) := loop.flatMap LoopNode.paths

/-- What all handlers of the tree are registered for. -/
def keys (loop : Loop β η α) : List (Key β η) := (paths loop).map Path.key

/-- An event loop and the task that runs it. -/
structure State (β η α : Type) where
  loop : Loop β η α
  /-- The addresses from here on have not been used. -/
  fresh : ℕ
  status : Status β η
  /-- What has been unregistered in this dispatch, and has not been registered again. -/
  gone : List (Key β η)
deriving DecidableEq

/-- `esp_event_loop_create`. -/
def espEventLoopCreate : State β η α := ⟨[], 0, .idle, []⟩

/-- What can happen: an event is received, `esp_event_loop_run` takes a step, the handler
returns, and calls by a handler, or by anyone while no event is dispatched. -/
inductive Act (β η α : Type) where
  | receive (base : β) (id : BitVec 32)
  | advance
  | returns
  | register (base : Option β) (id : BitVec 32) (handler : η) (arg : α)
  | unregister (base : Option β) (id : BitVec 32) (handler : η)
deriving DecidableEq

/-- While `esp_event_loop_run` is between two handlers, it holds the mutex of the loop. -/
def Status.callable : Status β η → Bool
  | .idle | .executing .. => true
  | .running .. | .fault => false

section Steps

variable [DecidableEq β] [DecidableEq η]

/-- One step, or `none` if it cannot happen. -/
def step (s : State β η α) : Act β η α → Option (State β η α)
  | .receive base id =>
    match s.status with
    | .idle =>
      some { s with
        status := .running base id (.loopNodes (s.loop.head?.map LoopNode.addr)), gone := [] }
    | _ => none
  | .advance =>
    match s.status with
    | .running base id pc => some { s with status := advance s.loop base id pc }
    | _ => none
  | .returns =>
    match s.status with
    | .executing base id _ pc => some { s with status := .running base id pc }
    | _ => none
  | .register base id handler arg =>
    if s.status.callable then
      some { s with
        loop := espEventHandlerRegisterWith s.fresh s.loop base id handler arg
        fresh := s.fresh + 4
        gone := s.gone.filter fun key => key ≠ (base, id, handler) }
    else none
  | .unregister base id handler =>
    if s.status.callable then
      some { s with
        loop := espEventHandlerUnregisterWith s.loop base id handler
        gone := if base = none ∧ id ≠ anyId then s.gone else (base, id, handler) :: s.gone }
    else none

/-- Some steps in turn. -/
def run (s : State β η α) : List (Act β η α) → Option (State β η α)
  | [] => some s
  | act :: acts => (step s act).bind fun s' => run s' acts

end Steps

/-! ### What a dispatch still needs -/

/-- The loop nodes whose pointers are held. -/
def Pc.heldLoopNodes : Pc → List ℕ
  | .loopNodes loopNode => loopNode.toList
  | .loopHandlers tempNode loopNode _ => loopNode :: tempNode.toList
  | .baseNodes tempNode _ | .baseHandlers tempNode .. | .idNodes tempNode .. |
    .idHandlers tempNode .. => tempNode.toList

/-- The base nodes whose pointers are held. -/
def Pc.heldBaseNodes : Pc → List ℕ
  | .loopNodes _ | .loopHandlers .. => []
  | .baseNodes _ baseNode => baseNode.toList
  | .baseHandlers _ tempBase baseNode _ => baseNode :: tempBase.toList
  | .idNodes _ tempBase _ | .idHandlers _ tempBase _ => tempBase.toList

/-- The id node whose pointer is held. -/
def Pc.heldIdNode : Pc → Option ℕ
  | .idNodes _ _ idNode => idNode
  | _ => none

/-- The handler whose pointer is held. -/
def Pc.heldHandler : Pc → Option ℕ
  | .loopHandlers _ _ handler | .baseHandlers _ _ _ handler | .idHandlers _ _ handler => handler
  | _ => none

section Safety

variable [DecidableEq β] [DecidableEq η]

/-- A call that unregisters `key` spares a dispatch that goes on at `pc`: the key is registered
once at most and is not the next one of the list that is being run, and of every loop node and
base node that the dispatch will follow or read again something else is left. -/
structure Pc.Spared (pc : Pc) (loop : Loop β η α) (key : Key β η) :
    Prop where
  once : (keys loop).count key ≤ 1
  handler : ∀ p ∈ paths loop, p.key = key → pc.heldHandler ≠ some p.handler
  loopNodes : ∀ a ∈ pc.heldLoopNodes, ∃ p ∈ paths loop, p.loopNode = a ∧ p.key ≠ key
  baseNodes : ∀ a ∈ pc.heldBaseNodes, ∃ p ∈ paths loop, p.baseNode = some a ∧ p.key ≠ key

instance (pc : Pc) (loop : Loop β η α) (key : Key β η) : Decidable (pc.Spared loop key) :=
  decidable_of_iff ((keys loop).count key ≤ 1 ∧
      (∀ p ∈ paths loop, p.key = key → pc.heldHandler ≠ some p.handler) ∧
      (∀ a ∈ pc.heldLoopNodes, ∃ p ∈ paths loop, p.loopNode = a ∧ p.key ≠ key) ∧
      ∀ a ∈ pc.heldBaseNodes, ∃ p ∈ paths loop, p.baseNode = some a ∧ p.key ≠ key)
    ⟨fun h => ⟨h.1, h.2.1, h.2.2.1, h.2.2.2⟩,
      fun h => ⟨h.once, h.handler, h.loopNodes, h.baseNodes⟩⟩

/-- A handler that unregisters something spares the dispatch that it is called from. -/
def Spares (s : State β η α) (act : Act β η α) : Prop :=
  match act, s.status with
  | .unregister base id handler, .executing _ _ _ pc => pc.Spared s.loop (base, id, handler)
  | _, _ => True

instance (s : State β η α) (act : Act β η α) : Decidable (Spares s act) := by
  unfold Spares
  split <;> infer_instance

/-- Every step of a run does. -/
def AlwaysSpares (s : State β η α) : List (Act β η α) → Prop
  | [] => True
  | act :: acts => Spares s act ∧ ∀ s' ∈ step s act, AlwaysSpares s' acts

instance decidableAlwaysSpares :
    ∀ (acts : List (Act β η α)) (s : State β η α), Decidable (AlwaysSpares s acts)
  | [], _ => isTrue trivial
  | act :: acts, s =>
    have := decidableAlwaysSpares acts
    inferInstanceAs (Decidable (Spares s act ∧ ∀ s' ∈ step s act, AlwaysSpares s' acts))

/-- The next step enters the handler for `key`. -/
def Enters (s : State β η α) (key : Key β η) : Prop :=
  ∃ base id pc ret, s.status = .running base id pc ∧
    advance s.loop base id pc = .executing base id key ret

/-- No pointer to a node that was removed has been followed, and no handler is run that was
unregistered in this dispatch. -/
structure Safe (s : State β η α) : Prop where
  alive : s.status ≠ .fault
  current : ∀ key, Enters s key → key ∉ s.gone

end Safety

end Addressed

end EspIdf.Event
