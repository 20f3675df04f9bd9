/-
# The list of registrations

What an event loop is for: an ordered list of registrations, each for all events, for the
events of one base, or for one event.  Registering what is registered already replaces the
argument; an event runs the handlers of the registrations that match it, in the order of the
list.  The tree of an event loop stands for the list of its handlers from front to back.
-/
import EspIdf.Event.Loop

namespace EspIdf.Event

open EspIdf.Lib

variable {β η α : Type}

/-- A handler that is registered for a base and an id, or for any of them. -/
structure Registration (β η α : Type) where
  base : Option β
  id : BitVec 32
  handler : η
  arg : α

/-- What is executed. -/
def Registration.call (r : Registration β η α) : HandlerInstance η α := ⟨r.handler, r.arg⟩

section List

variable [DecidableEq β] [DecidableEq η]

/-- The registration of the handler for the base and the id. -/
def Registration.isFor (base : Option β) (id : BitVec 32) (handler : η)
    (r : Registration β η α) : Bool :=
  r.base == base && r.id == id && r.handler == handler

/-- The registration is for the event. -/
def Registration.matches (base : β) (id : BitVec 32) (r : Registration β η α) : Bool :=
  (r.base == none || r.base == some base) && (r.id == anyId || r.id == id)

/-- Replace the argument of a registration. -/
def Registration.update (base : Option β) (id : BitVec 32) (handler : η) (arg : α)
    (r : Registration β η α) : Registration β η α :=
  if r.isFor base id handler then { r with arg := arg } else r

/-- Register a handler. -/
def register (regs : List (Registration β η α)) (base : Option β) (id : BitVec 32) (handler : η)
    (arg : α) : List (Registration β η α) :=
  if base = none ∧ id ≠ anyId then regs
  else if regs.any (Registration.isFor base id handler) then
    regs.map (Registration.update base id handler arg)
  else regs ++ [⟨base, id, handler, arg⟩]

/-- Unregister a handler. -/
def unregister (regs : List (Registration β η α)) (base : Option β) (id : BitVec 32)
    (handler : η) : List (Registration β η α) :=
  if base = none ∧ id ≠ anyId then regs
  else regs.filter fun r => !r.isFor base id handler

/-- The handlers that an event runs. -/
def run (regs : List (Registration β η α)) (base : β) (id : BitVec 32) :
    List (HandlerInstance η α) :=
  (regs.filter (Registration.matches base id)).map Registration.call

end List

/-! ### The registrations of a tree -/

/-- A handler of a node. -/
def HandlerInstance.at (base : Option β) (id : BitVec 32) (it : HandlerInstance η α) :
    Registration β η α :=
  ⟨base, id, it.handler, it.arg⟩

def IdNode.entries (base : Option β) (n : IdNode η α) : List (Registration β η α) :=
  n.handlers.map (HandlerInstance.at base n.id)

def BaseNode.entries (n : BaseNode β η α) : List (Registration β η α) :=
  n.handlers.map (HandlerInstance.at n.base anyId) ++ n.idNodes.flatMap (IdNode.entries n.base)

def LoopNode.entries (n : LoopNode β η α) : List (Registration β η α) :=
  n.handlers.map (HandlerInstance.at none anyId) ++ n.baseNodes.flatMap BaseNode.entries

/-- All handlers of the tree, from front to back. -/
def entries (loop : Loop β η α) : List (Registration β η α) := loop.flatMap LoopNode.entries

/-- A base node has a base, and its id nodes have ids that differ. -/
structure BaseNode.WellFormed (n : BaseNode β η α) : Prop where
  base : n.base ≠ none
  ids : ∀ it ∈ n.idNodes, it.id ≠ anyId
  distinct : (n.idNodes.map IdNode.id).Nodup

def WellFormed (loop : Loop β η α) : Prop := ∀ n ∈ loop, ∀ b ∈ n.baseNodes, b.WellFormed

/-! ### Running a tree -/

lemma map_call_at (base : Option β) (id : BitVec 32) (hs : List (HandlerInstance η α)) :
    (hs.map (HandlerInstance.at base id)).map Registration.call = hs := by
  rw [List.map_map]
  exact List.map_id' hs

/-- All handlers of a base node are for its base. -/
lemma base_of_mem_entries {n : BaseNode β η α} {r : Registration β η α} (h : r ∈ n.entries) :
    r.base = n.base := by
  rcases List.mem_append.mp h with h | h
  · obtain ⟨it, -, rfl⟩ := List.mem_map.mp h
    rfl
  · obtain ⟨m, -, h⟩ := List.mem_flatMap.mp h
    obtain ⟨it, -, rfl⟩ := List.mem_map.mp h
    rfl

section Run

variable [DecidableEq β]

lemma matches_at {b : β} {i : BitVec 32} {base : Option β} {id : BitVec 32}
    {it : HandlerInstance η α} : (it.at base id).matches b i =
      ((base == none || base == some b) && (id == anyId || id == i)) := rfl

/-- The handlers of a node match together. -/
lemma filter_map_at {b : β} {i : BitVec 32} {base : Option β} {id : BitVec 32}
    (hs : List (HandlerInstance η α)) :
    (hs.map (HandlerInstance.at base id)).filter (Registration.matches b i) =
      if (base == none || base == some b) && (id == anyId || id == i) then
        hs.map (HandlerInstance.at base id) else [] := by
  split
  · next h =>
    rw [List.filter_eq_self]
    intro r hr
    obtain ⟨it, -, rfl⟩ := List.mem_map.mp hr
    rw [matches_at, h]
  · next h =>
    rw [List.filter_eq_nil_iff]
    intro r hr
    obtain ⟨it, -, rfl⟩ := List.mem_map.mp hr
    rw [matches_at]
    exact h

/-- The first id node for the event is the only one. -/
lemma run_idNodes {b : β} {i : BitVec 32} {nodes : List (IdNode η α)}
    (hids : ∀ it ∈ nodes, it.id ≠ anyId) (hdistinct : (nodes.map IdNode.id).Nodup) :
    run (nodes.flatMap (IdNode.entries (some b))) b i =
      ((nodes.find? fun it => it.id == i).map IdNode.handlers).getD [] := by
  induction nodes with
  | nil => rfl
  | cons n ns ih =>
    rw [List.map_cons, List.nodup_cons] at hdistinct
    have hn := hids n (List.mem_cons_self ..)
    have hns := fun it hit => hids it (List.mem_cons_of_mem _ hit)
    rw [List.flatMap_cons, run, List.filter_append, List.map_append, IdNode.entries, filter_map_at]
    by_cases hi : n.id = i
    · -- no other node has this id
      have hrest : (ns.flatMap (IdNode.entries (some b))).filter
          (Registration.matches b i) = [] := by
        rw [List.filter_eq_nil_iff]
        intro r hr
        obtain ⟨m, hm, hr⟩ := List.mem_flatMap.mp hr
        obtain ⟨it, -, rfl⟩ := List.mem_map.mp hr
        have hne : m.id ≠ i := by
          intro h
          exact hdistinct.1 (by rw [hi, ← h]; exact List.mem_map_of_mem hm)
        simp [matches_at, hns m hm, hne]
      rw [if_pos (by simp [hi]), hrest, map_call_at, List.find?_cons_of_pos (by simp [hi])]
      simp
    · rw [if_neg (by simp [hi, hn]), List.find?_cons_of_neg (by simp [hi])]
      exact ih hns hdistinct.2

lemma run_append (T T' : List (Registration β η α)) (b : β) (i : BitVec 32) :
    run (T ++ T') b i = run T b i ++ run T' b i := by
  rw [run, List.filter_append, List.map_append]
  rfl

lemma run_flatMap {γ : Type} (f : γ → List (Registration β η α)) (xs : List γ) (b : β)
    (i : BitVec 32) : run (xs.flatMap f) b i = xs.flatMap fun x => run (f x) b i := by
  induction xs with
  | nil => rfl
  | cons x xs ih => rw [List.flatMap_cons, List.flatMap_cons, run_append, ih]

lemma run_baseNode {n : BaseNode β η α} (h : n.WellFormed) (b : β) (i : BitVec 32) :
    run n.entries b i = runBaseNode n b i := by
  rw [BaseNode.entries, run_append, runBaseNode]
  by_cases hb : n.base = some b
  · rw [if_pos hb, hb, run_idNodes h.ids h.distinct, run, filter_map_at, if_pos (by simp),
      map_call_at]
  · have hnone : ∀ r ∈ n.entries, Registration.matches b i r = false := by
      intro r hr
      have hbase := base_of_mem_entries hr
      simp [Registration.matches, hbase, h.base, hb]
    rw [if_neg hb, ← run_append, run, List.filter_eq_nil_iff.mpr]
    · rfl
    · intro r hr
      rw [hnone r hr]
      exact Bool.false_ne_true

/-- The loop runs the registrations of its tree that match the event. -/
lemma espEventLoopRun_eq {loop : Loop β η α} (h : WellFormed loop) (b : β) (i : BitVec 32) :
    espEventLoopRun loop b i = run (entries loop) b i := by
  rw [entries, run_flatMap, espEventLoopRun]
  induction loop with
  | nil => rfl
  | cons n ns ih =>
    rw [List.flatMap_cons, List.flatMap_cons, ih fun m hm => h m (List.mem_cons_of_mem _ hm),
      LoopNode.entries, run_append, run_flatMap, run, filter_map_at, if_pos (by simp), map_call_at]
    congr 2
    apply List.flatMap_congr
    intro c hc
    exact (run_baseNode (h n (List.mem_cons_self ..) c hc) b i).symm

end Run

end EspIdf.Event
