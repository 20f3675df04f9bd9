/-
# Handlers that change the loop while it is run

Unregistering a handler frees the nodes that it leaves empty.  A dispatch survives the calls of
its handlers as long as none of them frees what the dispatch holds a pointer to: the next
handler of the list, the node whose handlers are run, and the next nodes of the lists around it.
-/
import EspIdf.Event.Dispatch

namespace EspIdf.Event.Addressed

open EspIdf.Lib

variable {β η α : Type}


/-! ### The tree without addresses -/

def HandlerInstance.plain (it : HandlerInstance η α) : Event.HandlerInstance η α :=
  ⟨it.handler, it.arg⟩

def IdNode.plain (n : IdNode η α) : Event.IdNode η α := ⟨n.id, n.handlers.map HandlerInstance.plain⟩

def BaseNode.plain (n : BaseNode β η α) : Event.BaseNode β η α :=
  ⟨n.base, n.handlers.map HandlerInstance.plain, n.idNodes.map IdNode.plain⟩

def LoopNode.plain (n : LoopNode β η α) : Event.LoopNode β η α :=
  ⟨n.handlers.map HandlerInstance.plain, n.baseNodes.map BaseNode.plain⟩

/-- The tree that the loop stands for. -/
def plain (loop : Loop β η α) : Event.Loop β η α := loop.map LoopNode.plain

lemma isEmpty_map {γ δ : Type} (f : γ → δ) (xs : List γ) : (xs.map f).isEmpty = xs.isEmpty := by
  cases xs <;> rfl

section Plain

variable [DecidableEq β] [DecidableEq η]

omit [DecidableEq β] in
lemma plain_handlersAdd (a : ℕ) (handler : η) (arg : α) (hs : List (HandlerInstance η α)) :
    (handlerInstancesAdd a handler arg hs).map HandlerInstance.plain =
      Event.handlerInstancesAdd handler arg (hs.map HandlerInstance.plain) := by
  induction hs with
  | nil => rfl
  | cons it rest ih =>
    rw [handlerInstancesAdd, List.map_cons, Event.handlerInstancesAdd, ← ih]
    by_cases h : handler = it.handler
    · rw [if_pos h, if_pos (show handler = it.plain.handler from h)]
      rfl
    · rw [if_neg h, if_neg (show ¬ handler = it.plain.handler from h)]
      rfl

omit [DecidableEq β] in
lemma plain_baseNodeAdd (a : ℕ) (n : BaseNode β η α) (id : BitVec 32) (handler : η) (arg : α) :
    (baseNodeAddHandler a n id handler arg).plain =
      Event.baseNodeAddHandler n.plain id handler arg := by
  rw [baseNodeAddHandler, Event.baseNodeAddHandler]
  by_cases hid : id = anyId
  · rw [if_pos hid, if_pos hid]
    simp only [BaseNode.plain, plain_handlersAdd]
  · rw [if_neg hid, if_neg hid]
    have hsplit := splitLast_map IdNode.plain (fun it : Event.IdNode η α => it.id == id) n.idNodes
    simp only [BaseNode.plain, hsplit]
    cases h : splitLast (fun it : IdNode η α => it.id == id) n.idNodes with
    | none =>
      have h' : splitLast (fun it : IdNode η α => it.plain.id == id) n.idNodes = none := h
      simp only [h', Option.map_none, List.map_append]
      simp only [IdNode.plain, List.map_cons, List.map_nil, plain_handlersAdd]
    | some r =>
      have h' : splitLast (fun it : IdNode η α => it.plain.id == id) n.idNodes = some r := h
      simp only [h', Option.map_some, List.map_append, List.map_cons]
      simp only [IdNode.plain, plain_handlersAdd]

omit [DecidableEq η] in
lemma plain_needsBaseNode (nodes : List (BaseNode β η α)) (base : Option β) (id : BitVec 32)
    (n : BaseNode β η α) :
    Event.needsBaseNode (nodes.map BaseNode.plain) base id n.plain =
      needsBaseNode nodes base id n := by
  rw [Event.needsBaseNode, needsBaseNode, List.getLast?_map]
  cases nodes.getLast? with
  | none => simp [BaseNode.plain]
  | some last => simp [BaseNode.plain]

lemma plain_loopNodeAdd (a : ℕ) (n : LoopNode β η α) (base : Option β) (id : BitVec 32)
    (handler : η) (arg : α) :
    (loopNodeAddHandler a n base id handler arg).plain =
      Event.loopNodeAddHandler n.plain base id handler arg := by
  rw [loopNodeAddHandler, Event.loopNodeAddHandler]
  by_cases hbase : base = none ∧ id = anyId
  · rw [if_pos hbase, if_pos hbase]
    simp only [LoopNode.plain, plain_handlersAdd]
  · rw [if_neg hbase, if_neg hbase]
    have hsplit := splitLast_map BaseNode.plain (fun it : Event.BaseNode β η α => it.base == base)
      n.baseNodes
    have hnew : (baseNodeAddHandler a ⟨a + 2, base, [], []⟩ id handler arg).plain =
        Event.baseNodeAddHandler (⟨base, [], []⟩ : Event.BaseNode β η α) id handler arg :=
      plain_baseNodeAdd a ⟨a + 2, base, [], []⟩ id handler arg
    simp only [LoopNode.plain, hsplit]
    cases h : splitLast (fun it : BaseNode β η α => it.base == base) n.baseNodes with
    | none =>
      have h' : splitLast (fun it : BaseNode β η α => it.plain.base == base) n.baseNodes =
        none := h
      simp [h', hnew]
    | some r =>
      have h' : splitLast (fun it : BaseNode β η α => it.plain.base == base) n.baseNodes =
        some r := h
      simp only [h', Option.map_some, plain_needsBaseNode]
      split <;> simp [hnew, plain_baseNodeAdd]

lemma plain_register (a : ℕ) (loop : Loop β η α) (base : Option β) (id : BitVec 32) (handler : η)
    (arg : α) :
    plain (espEventHandlerRegisterWith a loop base id handler arg) =
      Event.espEventHandlerRegisterWith (plain loop) base id handler arg := by
  rw [espEventHandlerRegisterWith, Event.espEventHandlerRegisterWith]
  by_cases hbase : base = none ∧ id ≠ anyId
  · rw [if_pos hbase, if_pos hbase]
  · rw [if_neg hbase, if_neg hbase]
    have hsplit := splitLast_map LoopNode.plain (fun _ : Event.LoopNode β η α => true) loop
    have hnew : (loopNodeAddHandler a (⟨a + 3, [], []⟩ : LoopNode β η α) base id handler arg).plain =
        Event.loopNodeAddHandler ⟨[], []⟩ base id handler arg :=
      plain_loopNodeAdd a ⟨a + 3, [], []⟩ base id handler arg
    simp only [plain, hsplit]
    cases h : splitLast (fun _ : LoopNode β η α => true) loop with
    | none => simp [hnew]
    | some r =>
      have hempty : r.2.1.plain.baseNodes.isEmpty = r.2.1.baseNodes.isEmpty := isEmpty_map _ _
      simp only [Option.map_some, hempty]
      split <;> simp [hnew, plain_loopNodeAdd]

omit [DecidableEq β] in
lemma plain_handlersRemove (handler : η) (hs : List (HandlerInstance η α)) :
    Event.handlerInstancesRemove handler (hs.map HandlerInstance.plain) =
      ((handlerInstancesRemove handler hs).1,
        (handlerInstancesRemove handler hs).2.map HandlerInstance.plain) := by
  induction hs with
  | nil => rfl
  | cons it rest ih =>
    rw [handlerInstancesRemove, List.map_cons, Event.handlerInstancesRemove, ih]
    by_cases h : it.handler = handler
    · rw [if_pos h, if_pos (show it.plain.handler = handler from h)]
    · rw [if_neg h, if_neg (show ¬ it.plain.handler = handler from h)]
      rfl

omit [DecidableEq β] in
lemma plain_baseNodeRemove (n : BaseNode β η α) (id : BitVec 32) (handler : η) :
    Event.baseNodeRemoveHandler n.plain id handler =
      ((baseNodeRemoveHandler n id handler).1, (baseNodeRemoveHandler n id handler).2.plain) := by
  rw [baseNodeRemoveHandler, Event.baseNodeRemoveHandler]
  by_cases hid : id = anyId
  · rw [if_pos hid, if_pos hid]
    simp only [BaseNode.plain, plain_handlersRemove]
  · rw [if_neg hid, if_neg hid]
    refine congrArg (fun r => (r.1, (⟨n.base, n.handlers.map HandlerInstance.plain, r.2⟩ :
      Event.BaseNode β η α))) (removeIn_map IdNode.plain ?_ ?_ ?_ n.idNodes)
    · exact fun _ => rfl
    · intro it
      simp only [IdNode.plain, plain_handlersRemove]
    · exact fun it => isEmpty_map _ _

lemma plain_loopNodeRemove (n : LoopNode β η α) (base : Option β) (id : BitVec 32) (handler : η) :
    Event.loopNodeRemoveHandler n.plain base id handler =
      ((loopNodeRemoveHandler n base id handler).1,
        (loopNodeRemoveHandler n base id handler).2.plain) := by
  rw [loopNodeRemoveHandler, Event.loopNodeRemoveHandler]
  by_cases hbase : base = none ∧ id = anyId
  · rw [if_pos hbase, if_pos hbase]
    simp only [LoopNode.plain, plain_handlersRemove]
  · rw [if_neg hbase, if_neg hbase]
    refine congrArg (fun r => (r.1, (⟨n.handlers.map HandlerInstance.plain, r.2⟩ :
      Event.LoopNode β η α))) (removeIn_map BaseNode.plain ?_ ?_ ?_ n.baseNodes)
    · exact fun _ => rfl
    · exact fun it => plain_baseNodeRemove it id handler
    · intro it
      simp only [BaseNode.plain, isEmpty_map]

/-- Unregistering in the tree without addresses. -/
lemma plain_unregister (loop : Loop β η α) (base : Option β) (id : BitVec 32) (handler : η) :
    plain (espEventHandlerUnregisterWith loop base id handler) =
      Event.espEventHandlerUnregisterWith (plain loop) base id handler := by
  rw [espEventHandlerUnregisterWith, Event.espEventHandlerUnregisterWith]
  split
  · rfl
  · refine (congrArg Prod.snd (removeIn_map LoopNode.plain ?_ ?_ ?_ loop)).symm
    · exact fun _ => rfl
    · exact fun it => plain_loopNodeRemove it base id handler
    · intro it
      simp only [LoopNode.plain, isEmpty_map]

/-! ### What is registered -/

/-- What a registration is for. -/
def Key.of (r : Registration β η α) : Key β η := (r.base, r.id, r.handler)

omit [DecidableEq β] [DecidableEq η] in
lemma keys_eq (loop : Loop β η α) : keys loop = (entries (plain loop)).map Key.of := by
  have hhandlers : ∀ (l : ℕ) (b : Option ℕ) (base : Option β) (id : BitVec 32)
      (hs : List (HandlerInstance η α)),
      (hs.map (HandlerInstance.path l b base id)).map Path.key =
        ((hs.map HandlerInstance.plain).map (HandlerInstance.at base id)).map Key.of := by
    intro l b base id hs
    rw [List.map_map, List.map_map, List.map_map]
    rfl
  have hids : ∀ (l b : ℕ) (base : Option β) (m : IdNode η α),
      (m.paths l b base).map Path.key = (m.plain.entries base).map Key.of :=
    fun l b base m => hhandlers l (some b) base m.id m.handlers
  have hbases : ∀ (l : ℕ) (n : BaseNode β η α),
      (n.paths l).map Path.key = n.plain.entries.map Key.of := by
    intro l n
    rw [BaseNode.paths, BaseNode.entries, List.map_append, List.map_append]
    refine congrArg₂ _ (hhandlers l (some n.addr) n.base anyId n.handlers) ?_
    rw [List.map_flatMap, List.map_flatMap, BaseNode.plain, List.flatMap_map]
    exact List.flatMap_congr fun m _ => hids l n.addr n.base m
  have hloops : ∀ n : LoopNode β η α, n.paths.map Path.key = n.plain.entries.map Key.of := by
    intro n
    rw [LoopNode.paths, LoopNode.entries, List.map_append, List.map_append]
    refine congrArg₂ _ (hhandlers n.addr none none anyId n.handlers) ?_
    rw [List.map_flatMap, List.map_flatMap, LoopNode.plain, List.flatMap_map]
    exact List.flatMap_congr fun m _ => hbases n.addr m
  rw [keys, paths, entries, plain, List.flatMap_map, List.map_flatMap, List.map_flatMap]
  exact List.flatMap_congr fun n _ => hloops n

lemma isFor_iff {r : Registration β η α} {base : Option β} {id : BitVec 32} {handler : η} :
    r.isFor base id handler = true ↔ Key.of r = (base, id, handler) := by
  simp [Registration.isFor, Key.of, and_assoc]

lemma count_keys (loop : Loop β η α) (base : Option β) (id : BitVec 32) (handler : η) :
    (keys loop).count (base, id, handler) =
      (entries (plain loop)).countP (Registration.isFor base id handler) := by
  rw [keys_eq, List.count_eq_countP, List.countP_map]
  congr 1
  funext r
  rw [Function.comp_apply, Bool.eq_iff_iff, beq_iff_eq, isFor_iff]

/-- What is registered once at most and unregistered is not registered any more. -/
lemma not_mem_keys_unregister {loop : Loop β η α} (hwf : WellFormed (plain loop))
    {base : Option β} {id : BitVec 32} {handler : η} (hbase : ¬ (base = none ∧ id ≠ anyId))
    (hone : (keys loop).count (base, id, handler) ≤ 1) {key : Key β η}
    (h : key ∈ keys (espEventHandlerUnregisterWith loop base id handler)) :
    key ∈ keys loop ∧ key ≠ (base, id, handler) := by
  rw [keys_eq, plain_unregister, entries_unregister hwf hbase (by rwa [← count_keys])] at h
  obtain ⟨r, hr, rfl⟩ := List.mem_map.mp h
  obtain ⟨hr, hne⟩ := List.mem_filter.mp hr
  refine ⟨by rw [keys_eq]; exact List.mem_map_of_mem hr, fun heq => ?_⟩
  rw [isFor_iff.mpr heq] at hne
  exact absurd hne (by decide)

/-- Registering adds what is registered. -/
lemma mem_keys_register {loop : Loop β η α} (hwf : WellFormed (plain loop)) (a : ℕ)
    {base : Option β} {id : BitVec 32} {handler : η} {arg : α} {key : Key β η}
    (h : key ∈ keys (espEventHandlerRegisterWith a loop base id handler arg)) :
    key ∈ keys loop ∨ key = (base, id, handler) := by
  by_cases hbase : base = none ∧ id ≠ anyId
  · rw [espEventHandlerRegisterWith, if_pos hbase] at h
    exact .inl h
  · have hadded := added_loop hwf handler arg hbase
    rw [keys_eq, plain_register] at h
    rw [keys_eq]
    obtain ⟨r, hr, rfl⟩ := List.mem_map.mp h
    generalize entries (plain loop) = T at hadded
    generalize entries (Event.espEventHandlerRegisterWith (plain loop) base id handler arg) = T'
      at hadded hr
    generalize holds (plain loop) base id handler = found at hadded
    have hmem : r ∈ T ∨ r = ⟨base, id, handler, arg⟩ := by
      cases hadded with
      | replaced before after x _ =>
        simp only [List.mem_append, List.mem_cons] at hr ⊢
        tauto
      | inserted before after _ =>
        simp only [List.mem_append, List.mem_cons] at hr ⊢
        tauto
    rcases hmem with hr | rfl
    · exact .inl (List.mem_map_of_mem hr)
    · exact .inr rfl

/-! ### What stays in the tree -/

omit [DecidableEq β] in
lemma mem_handlersRemove {handler : η} {it : HandlerInstance η α} (hne : it.handler ≠ handler) :
    ∀ {hs : List (HandlerInstance η α)}, it ∈ hs → it ∈ (handlerInstancesRemove handler hs).2 := by
  intro hs
  induction hs with
  | nil => exact id
  | cons x xs ih =>
    intro h
    rw [handlerInstancesRemove]
    split
    · next hx =>
      rcases List.mem_cons.mp h with rfl | h
      · exact absurd hx hne
      · exact h
    · rcases List.mem_cons.mp h with rfl | h
      · exact List.mem_cons_self ..
      · exact List.mem_cons_of_mem _ (ih h)

omit [DecidableEq β] in
/-- The handlers of a node but one. -/
lemma mem_map_path_remove {l : ℕ} {b : Option ℕ} {base : Option β} {id : BitVec 32} {handler : η}
    {hs : List (HandlerInstance η α)} {p : Path β η}
    (hp : p ∈ hs.map (HandlerInstance.path l b base id)) (hne : p.key ≠ (base, id, handler)) :
    p ∈ (handlerInstancesRemove handler hs).2.map (HandlerInstance.path l b base id) := by
  obtain ⟨it, hit, rfl⟩ := List.mem_map.mp hp
  refine List.mem_map_of_mem (mem_handlersRemove (fun h => hne ?_) hit)
  rw [HandlerInstance.path, h]

omit [DecidableEq β] in
lemma mem_paths_baseNodeRemove {l : ℕ} {n : BaseNode β η α} {id : BitVec 32} {handler : η}
    {p : Path β η} (hp : p ∈ n.paths l) (hne : p.key ≠ (n.base, id, handler)) :
    p ∈ (baseNodeRemoveHandler n id handler).2.paths l := by
  rw [baseNodeRemoveHandler]
  rw [BaseNode.paths, List.mem_append] at hp
  by_cases hid : id = anyId
  · subst hid
    rw [if_pos rfl, BaseNode.paths, List.mem_append]
    exact hp.imp_left fun hp => mem_map_path_remove hp hne
  · rw [if_neg hid, BaseNode.paths, List.mem_append]
    refine hp.imp_right fun hp => mem_flatMap_removeIn (fun m hm hp => ?_) (fun m hm => ?_) hp
    · obtain rfl : m.id = id := by simpa using hm
      exact mem_map_path_remove hp hne
    · rw [IdNode.paths, List.isEmpty_iff.mp hm]
      rfl

lemma mem_paths_loopNodeRemove {n : LoopNode β η α} {base : Option β} {id : BitVec 32}
    {handler : η} {p : Path β η} (hp : p ∈ n.paths) (hne : p.key ≠ (base, id, handler)) :
    p ∈ (loopNodeRemoveHandler n base id handler).2.paths := by
  rw [loopNodeRemoveHandler]
  rw [LoopNode.paths, List.mem_append] at hp
  by_cases hbase : base = none ∧ id = anyId
  · obtain ⟨rfl, rfl⟩ := hbase
    rw [if_pos ⟨rfl, rfl⟩, LoopNode.paths, List.mem_append]
    exact hp.imp_left fun hp => mem_map_path_remove hp hne
  · rw [if_neg hbase, LoopNode.paths, List.mem_append]
    refine hp.imp_right fun hp => mem_flatMap_removeIn (fun m hm hp => ?_) (fun m hm => ?_) hp
    · obtain rfl : m.base = base := by simpa using hm
      exact mem_paths_baseNodeRemove hp hne
    · rw [Bool.and_eq_true] at hm
      rw [BaseNode.paths, List.isEmpty_iff.mp hm.1, List.isEmpty_iff.mp hm.2]
      rfl

/-- Unregistering keeps what is registered for something else, where it is. -/
lemma mem_paths_unregister {loop : Loop β η α} {base : Option β} {id : BitVec 32} {handler : η}
    {p : Path β η} (hp : p ∈ paths loop) (hne : p.key ≠ (base, id, handler)) :
    p ∈ paths (espEventHandlerUnregisterWith loop base id handler) := by
  rw [espEventHandlerUnregisterWith]
  split
  · exact hp
  · refine mem_flatMap_removeIn (fun m _ hp => mem_paths_loopNodeRemove hp hne)
      (fun m hm => ?_) hp
    rw [Bool.and_eq_true] at hm
    rw [LoopNode.paths, List.isEmpty_iff.mp hm.1, List.isEmpty_iff.mp hm.2]
    rfl

omit [DecidableEq β] in
lemma paths_handlersAdd (l : ℕ) (b : Option ℕ) (base : Option β) (id : BitVec 32) (a : ℕ)
    (handler : η) (arg : α) (hs : List (HandlerInstance η α)) :
    hs.map (HandlerInstance.path l b base id) ⊆
      (handlerInstancesAdd a handler arg hs).map (HandlerInstance.path l b base id) := by
  induction hs with
  | nil => exact List.nil_subset _
  | cons it rest ih =>
    rw [handlerInstancesAdd]
    split
    · exact List.Subset.refl _
    · exact List.cons_subset_cons _ ih

omit [DecidableEq β] in
lemma paths_baseNodeAdd (l a : ℕ) (n : BaseNode β η α) (id : BitVec 32) (handler : η) (arg : α) :
    n.paths l ⊆ (baseNodeAddHandler a n id handler arg).paths l := by
  intro p hp
  rw [BaseNode.paths, List.mem_append] at hp
  rw [baseNodeAddHandler]
  by_cases hid : id = anyId
  · rw [if_pos hid, BaseNode.paths, List.mem_append]
    exact hp.imp_left fun hp => paths_handlersAdd l (some n.addr) n.base anyId a handler arg _ hp
  · rw [if_neg hid]
    cases hsplit : splitLast (fun it : IdNode η α => it.id == id) n.idNodes with
    | none =>
      rw [BaseNode.paths, List.mem_append, List.flatMap_append]
      exact hp.imp_right (List.mem_append_left _)
    | some r =>
      obtain ⟨heq, -, -⟩ := splitLast_eq_some hsplit
      rw [BaseNode.paths, List.mem_append]
      rw [heq] at hp
      refine hp.imp_right fun hp => flatMap_replace_subset ?_ _ _ hp
      exact paths_handlersAdd l (some n.addr) n.base r.2.1.id a handler arg _

omit [DecidableEq β] in
lemma addr_baseNodeAdd (a : ℕ) (n : BaseNode β η α) (id : BitVec 32) (handler : η) (arg : α) :
    (baseNodeAddHandler a n id handler arg).addr = n.addr := by
  rw [baseNodeAddHandler]
  split
  · rfl
  · split <;> rfl

/-- What a call does to the base nodes of a loop node. -/
lemma loopNodeAdd_cases (a : ℕ) (n : LoopNode β η α) (base : Option β) (id : BitVec 32)
    (handler : η) (arg : α) :
    loopNodeAddHandler a n base id handler arg =
        { n with handlers := handlerInstancesAdd a handler arg n.handlers } ∨
      (∃ m, loopNodeAddHandler a n base id handler arg =
        { n with baseNodes := n.baseNodes ++ [m] }) ∨
      ∃ before m after, n.baseNodes = before ++ m :: after ∧
        loopNodeAddHandler a n base id handler arg =
          { n with baseNodes := before ++ baseNodeAddHandler a m id handler arg :: after } := by
  rw [loopNodeAddHandler]
  split
  · exact .inl rfl
  · right
    cases hsplit : splitLast (fun it : BaseNode β η α => it.base == base) n.baseNodes with
    | none => exact .inl ⟨_, rfl⟩
    | some r =>
      obtain ⟨heq, -, -⟩ := splitLast_eq_some hsplit
      simp only
      split
      · exact .inl ⟨_, rfl⟩
      · exact .inr ⟨_, _, _, heq, rfl⟩

lemma paths_loopNodeAdd (a : ℕ) (n : LoopNode β η α) (base : Option β) (id : BitVec 32)
    (handler : η) (arg : α) : n.paths ⊆ (loopNodeAddHandler a n base id handler arg).paths := by
  intro p hp
  rw [LoopNode.paths, List.mem_append] at hp
  rcases loopNodeAdd_cases a n base id handler arg with h | ⟨m, h⟩ | ⟨before, m, after, heq, h⟩
  · rw [h, LoopNode.paths, List.mem_append]
    exact hp.imp_left fun hp => paths_handlersAdd n.addr none none anyId a handler arg _ hp
  · rw [h, LoopNode.paths, List.mem_append, List.flatMap_append]
    exact hp.imp_right (List.mem_append_left _)
  · rw [h, LoopNode.paths, List.mem_append]
    rw [heq] at hp
    exact hp.imp_right fun hp =>
      flatMap_replace_subset (paths_baseNodeAdd n.addr a m id handler arg) _ _ hp

/-- The addresses of the loop nodes. -/
def loopAddrs (loop : Loop β η α) : List ℕ := loop.map LoopNode.addr

/-- The addresses of the base nodes. -/
def baseAddrs (loop : Loop β η α) : List ℕ :=
  loop.flatMap fun n => n.baseNodes.map BaseNode.addr

lemma addr_loopNodeAdd (a : ℕ) (n : LoopNode β η α) (base : Option β) (id : BitVec 32)
    (handler : η) (arg : α) :
    (loopNodeAddHandler a n base id handler arg).addr = n.addr ∧
      n.baseNodes.map BaseNode.addr ⊆
        (loopNodeAddHandler a n base id handler arg).baseNodes.map BaseNode.addr := by
  rcases loopNodeAdd_cases a n base id handler arg with h | ⟨m, h⟩ | ⟨before, m, after, heq, h⟩
  · rw [h]
    exact ⟨rfl, List.Subset.refl _⟩
  · rw [h, List.map_append]
    exact ⟨rfl, List.subset_append_left ..⟩
  · rw [h, heq, List.map_append, List.map_append, List.map_cons, List.map_cons, addr_baseNodeAdd]
    exact ⟨rfl, List.Subset.refl _⟩

/-- What a call does to the loop nodes. -/
lemma register_cases (a : ℕ) (loop : Loop β η α) (base : Option β) (id : BitVec 32) (handler : η)
    (arg : α) :
    espEventHandlerRegisterWith a loop base id handler arg = loop ∨
      (∃ m, espEventHandlerRegisterWith a loop base id handler arg = loop ++ [m]) ∨
      ∃ before m, loop = before ++ [m] ∧ espEventHandlerRegisterWith a loop base id handler arg =
        before ++ [loopNodeAddHandler a m base id handler arg] := by
  rw [espEventHandlerRegisterWith]
  split
  · exact .inl rfl
  · right
    cases hsplit : splitLast (fun _ : LoopNode β η α => true) loop with
    | none => exact .inl ⟨_, rfl⟩
    | some r =>
      simp only
      split
      · exact .inl ⟨_, rfl⟩
      · exact .inr ⟨_, _, splitLast_true hsplit, rfl⟩

/-- Registering keeps all handlers and nodes. -/
lemma subset_register (a : ℕ) (loop : Loop β η α) (base : Option β) (id : BitVec 32)
    (handler : η) (arg : α) :
    paths loop ⊆ paths (espEventHandlerRegisterWith a loop base id handler arg) ∧
      loopAddrs loop ⊆ loopAddrs (espEventHandlerRegisterWith a loop base id handler arg) ∧
      baseAddrs loop ⊆ baseAddrs (espEventHandlerRegisterWith a loop base id handler arg) := by
  rcases register_cases a loop base id handler arg with h | ⟨m, h⟩ | ⟨before, m, heq, h⟩
  · rw [h]
    exact ⟨List.Subset.refl _, List.Subset.refl _, List.Subset.refl _⟩
  · rw [h, paths, paths, loopAddrs, loopAddrs, baseAddrs, baseAddrs, List.flatMap_append,
      List.map_append, List.flatMap_append]
    exact ⟨List.subset_append_left .., List.subset_append_left .., List.subset_append_left ..⟩
  · have haddr := addr_loopNodeAdd a m base id handler arg
    rw [h, heq]
    refine ⟨flatMap_replace_subset (paths_loopNodeAdd a m base id handler arg) _ _, ?_, ?_⟩
    · simp only [loopAddrs, List.map_append, List.map_cons, haddr.1]
      exact List.Subset.refl _
    · rw [baseAddrs, baseAddrs]
      exact flatMap_replace_subset (f := fun n : LoopNode β η α => n.baseNodes.map BaseNode.addr)
        haddr.2 _ _

end Plain

/-! ### Following pointers to nodes of the tree -/

section Follow

variable {γ : Type} {addr : γ → ℕ} {a : ℕ}

lemma nodeAt_isSome {xs : List γ} (h : a ∈ xs.map addr) : (nodeAt addr a xs).isSome = true := by
  induction xs with
  | nil => exact absurd h List.not_mem_nil
  | cons x xs ih =>
    rw [nodeAt]
    split
    · rfl
    · next hne =>
      rcases List.mem_cons.mp h with h | h
      · exact absurd h.symm hne
      · exact ih h

lemma nodeAt_spec {xs : List γ} {x : γ} {next : Option ℕ} (h : nodeAt addr a xs = some (x, next)) :
    x ∈ xs ∧ ∀ b ∈ next, b ∈ xs.map addr := by
  induction xs with
  | nil => exact absurd h.symm (Option.some_ne_none _)
  | cons y ys ih =>
    rw [nodeAt] at h
    split at h
    · obtain ⟨rfl, rfl⟩ := Prod.mk.inj (Option.some.inj h)
      refine ⟨List.mem_cons_self .., fun b hb => List.mem_cons_of_mem _ ?_⟩
      obtain ⟨z, hz, rfl⟩ := Option.map_eq_some_iff.mp hb
      exact List.mem_map_of_mem (List.mem_of_mem_head? hz)
    · obtain ⟨hx, hnext⟩ := ih h
      exact ⟨List.mem_cons_of_mem _ hx, fun b hb => List.mem_cons_of_mem _ (hnext b hb)⟩

end Follow

/-- The addresses of the id nodes. -/
def idAddrs (loop : Loop β η α) : List ℕ :=
  loop.flatMap fun n => n.baseNodes.flatMap fun m => m.idNodes.map IdNode.addr

/-- The addresses of the handlers. -/
def handlerAddrs (loop : Loop β η α) : List ℕ := (paths loop).map Path.handler

variable {loop : Loop β η α} {a : ℕ}

lemma mem_head {γ : Type} {addr : γ → ℕ} {xs : List γ} {b : ℕ} (h : b ∈ xs.head?.map addr) :
    b ∈ xs.map addr := by
  obtain ⟨z, hz, rfl⟩ := Option.map_eq_some_iff.mp h
  exact List.mem_map_of_mem (List.mem_of_mem_head? hz)

lemma loopNodeAt_of_mem (h : a ∈ loopAddrs loop) :
    ∃ n next, loopNodeAt loop a = some (n, next) ∧ n ∈ loop ∧ ∀ b ∈ next, b ∈ loopAddrs loop := by
  obtain ⟨⟨n, next⟩, hr⟩ := Option.isSome_iff_exists.mp (nodeAt_isSome h)
  exact ⟨n, next, hr, nodeAt_spec hr⟩

lemma baseNodeAt_of_mem (h : a ∈ baseAddrs loop) :
    ∃ m next, baseNodeAt loop a = some (m, next) ∧ (∃ n ∈ loop, m ∈ n.baseNodes) ∧
      ∀ b ∈ next, b ∈ baseAddrs loop := by
  obtain ⟨n, hn, ha⟩ := List.mem_flatMap.mp h
  have hsome : (baseNodeAt loop a).isSome = true :=
    List.findSome?_isSome_iff.mpr ⟨n, hn, nodeAt_isSome ha⟩
  obtain ⟨⟨m, next⟩, hr⟩ := Option.isSome_iff_exists.mp hsome
  obtain ⟨n', hn', hm⟩ := List.exists_of_findSome?_eq_some hr
  obtain ⟨hm, hnext⟩ := nodeAt_spec hm
  exact ⟨m, next, hr, ⟨n', hn', hm⟩, fun b hb => List.mem_flatMap.mpr ⟨n', hn', hnext b hb⟩⟩

lemma idNodeAt_of_mem (h : a ∈ idAddrs loop) :
    ∃ i next, idNodeAt loop a = some (i, next) ∧
      (∃ n ∈ loop, ∃ m ∈ n.baseNodes, i ∈ m.idNodes) ∧ ∀ b ∈ next, b ∈ idAddrs loop := by
  obtain ⟨n, hn, ha⟩ := List.mem_flatMap.mp h
  obtain ⟨m, hm, ha⟩ := List.mem_flatMap.mp ha
  have hsome : (idNodeAt loop a).isSome = true :=
    List.findSome?_isSome_iff.mpr ⟨n, hn, List.findSome?_isSome_iff.mpr ⟨m, hm, nodeAt_isSome ha⟩⟩
  obtain ⟨⟨i, next⟩, hr⟩ := Option.isSome_iff_exists.mp hsome
  obtain ⟨n', hn', hr'⟩ := List.exists_of_findSome?_eq_some hr
  obtain ⟨m', hm', hr'⟩ := List.exists_of_findSome?_eq_some hr'
  obtain ⟨hi, hnext⟩ := nodeAt_spec hr'
  refine ⟨i, next, hr, ⟨n', hn', m', hm', hi⟩, fun b hb => ?_⟩
  exact List.mem_flatMap.mpr ⟨n', hn', List.mem_flatMap.mpr ⟨m', hm', hnext b hb⟩⟩

lemma handlerIn_isSome {l : ℕ} {b : Option ℕ} {base : Option β} {id : BitVec 32}
    {hs : List (HandlerInstance η α)} {p : Path β η}
    (hp : p ∈ hs.map (HandlerInstance.path l b base id)) :
    (handlerIn base id p.handler hs).isSome = true := by
  obtain ⟨it, hit, rfl⟩ := List.mem_map.mp hp
  rw [handlerIn, Option.isSome_map]
  exact nodeAt_isSome (List.mem_map_of_mem hit)

/-- The handler at `a` is one of the list, and so is the one after it. -/
lemma handlerIn_spec {base : Option β} {id : BitVec 32} {hs : List (HandlerInstance η α)}
    {key : Key β η} {next : Option ℕ} (h : handlerIn base id a hs = some (key, next)) (l : ℕ)
    (b : Option ℕ) : key ∈ (hs.map (HandlerInstance.path l b base id)).map Path.key ∧
      ∀ c ∈ next, c ∈ (hs.map (HandlerInstance.path l b base id)).map Path.handler := by
  obtain ⟨⟨it, next'⟩, hr, heq⟩ := Option.map_eq_some_iff.mp h
  obtain ⟨rfl, rfl⟩ := Prod.mk.inj heq
  obtain ⟨hit, hnext⟩ := nodeAt_spec hr
  rw [List.map_map, List.map_map]
  exact ⟨List.mem_map_of_mem hit, hnext⟩

lemma mem_paths_loop {n : LoopNode β η α} (hn : n ∈ loop) {p : Path β η}
    (hp : p ∈ n.handlers.map (HandlerInstance.path n.addr none none anyId)) : p ∈ paths loop :=
  List.mem_flatMap.mpr ⟨n, hn, List.mem_append_left _ hp⟩

lemma mem_paths_base {n : LoopNode β η α} (hn : n ∈ loop) {m : BaseNode β η α}
    (hm : m ∈ n.baseNodes) {p : Path β η}
    (hp : p ∈ m.handlers.map (HandlerInstance.path n.addr (some m.addr) m.base anyId)) :
    p ∈ paths loop :=
  List.mem_flatMap.mpr ⟨n, hn, List.mem_append_right _
    (List.mem_flatMap.mpr ⟨m, hm, List.mem_append_left _ hp⟩)⟩

lemma mem_paths_id {n : LoopNode β η α} (hn : n ∈ loop) {m : BaseNode β η α}
    (hm : m ∈ n.baseNodes) {i : IdNode η α} (hi : i ∈ m.idNodes) {p : Path β η}
    (hp : p ∈ i.handlers.map (HandlerInstance.path n.addr (some m.addr) m.base i.id)) :
    p ∈ paths loop :=
  List.mem_flatMap.mpr ⟨n, hn, List.mem_append_right _ (List.mem_flatMap.mpr
    ⟨m, hm, List.mem_append_right _ (List.mem_flatMap.mpr ⟨i, hi, hp⟩)⟩)⟩

/-- Where a handler of the tree is. -/
lemma mem_paths_cases {p : Path β η} (hp : p ∈ paths loop) : ∃ n ∈ loop,
    p ∈ n.handlers.map (HandlerInstance.path n.addr none none anyId) ∨
      ∃ m ∈ n.baseNodes,
        p ∈ m.handlers.map (HandlerInstance.path n.addr (some m.addr) m.base anyId) ∨
        ∃ i ∈ m.idNodes,
          p ∈ i.handlers.map (HandlerInstance.path n.addr (some m.addr) m.base i.id) := by
  obtain ⟨n, hn, hp⟩ := List.mem_flatMap.mp hp
  refine ⟨n, hn, (List.mem_append.mp hp).imp_right fun hp => ?_⟩
  obtain ⟨m, hm, hp⟩ := List.mem_flatMap.mp hp
  exact ⟨m, hm, (List.mem_append.mp hp).imp_right List.mem_flatMap.mp⟩

/-- The nodes that a handler hangs on are nodes of the tree. -/
lemma addrs_of_mem_paths {p : Path β η} (hp : p ∈ paths loop) :
    p.loopNode ∈ loopAddrs loop ∧ ∀ a, p.baseNode = some a → a ∈ baseAddrs loop := by
  obtain ⟨n, hn, hp⟩ := mem_paths_cases hp
  have hloop : n.addr ∈ loopAddrs loop := List.mem_map_of_mem hn
  rcases hp with hp | ⟨m, hm, hp⟩
  · obtain ⟨it, -, rfl⟩ := List.mem_map.mp hp
    exact ⟨hloop, fun a ha => by cases ha⟩
  · have hbase : m.addr ∈ baseAddrs loop := List.mem_flatMap.mpr ⟨n, hn, List.mem_map_of_mem hm⟩
    rcases hp with hp | ⟨i, -, hp⟩
    · obtain ⟨it, -, rfl⟩ := List.mem_map.mp hp
      exact ⟨hloop, fun a ha => by cases ha; exact hbase⟩
    · obtain ⟨it, -, rfl⟩ := List.mem_map.mp hp
      exact ⟨hloop, fun a ha => by cases ha; exact hbase⟩

lemma handlerAt_isSome (h : a ∈ handlerAddrs loop) : (handlerAt loop a).isSome = true := by
  obtain ⟨p, hp, rfl⟩ := List.mem_map.mp h
  obtain ⟨n, hn, hp⟩ := mem_paths_cases hp
  refine List.findSome?_isSome_iff.mpr ⟨n, hn, ?_⟩
  rw [Option.isSome_or, Bool.or_eq_true]
  refine hp.imp handlerIn_isSome ?_
  rintro ⟨m, hm, hp⟩
  refine List.findSome?_isSome_iff.mpr ⟨m, hm, ?_⟩
  rw [Option.isSome_or, Bool.or_eq_true]
  refine hp.imp handlerIn_isSome ?_
  rintro ⟨i, hi, hp⟩
  exact List.findSome?_isSome_iff.mpr ⟨i, hi, handlerIn_isSome hp⟩

lemma handlerAt_spec {key : Key β η} {next : Option ℕ}
    (h : handlerAt loop a = some (key, next)) :
    key ∈ keys loop ∧ ∀ b ∈ next, b ∈ handlerAddrs loop := by
  -- from the list that the handler is in
  have hlist : ∀ {base : Option β} {id : BitVec 32} {hs : List (HandlerInstance η α)} (l : ℕ)
      (b : Option ℕ), hs.map (HandlerInstance.path l b base id) ⊆ paths loop →
      handlerIn base id a hs = some (key, next) →
      key ∈ keys loop ∧ ∀ b ∈ next, b ∈ handlerAddrs loop := by
    intro base id hs l b hsub h
    obtain ⟨hkey, hnext⟩ := handlerIn_spec h l b
    exact ⟨List.map_subset _ hsub hkey, fun c hc => List.map_subset _ hsub (hnext c hc)⟩
  obtain ⟨n, hn, h⟩ := List.exists_of_findSome?_eq_some h
  rcases Option.or_eq_some_iff.mp h with h | ⟨-, h⟩
  · exact hlist n.addr none (fun p hp => mem_paths_loop hn hp) h
  · obtain ⟨m, hm, h⟩ := List.exists_of_findSome?_eq_some h
    rcases Option.or_eq_some_iff.mp h with h | ⟨-, h⟩
    · exact hlist n.addr (some m.addr) (fun p hp => mem_paths_base hn hm hp) h
    · obtain ⟨i, hi, h⟩ := List.exists_of_findSome?_eq_some h
      exact hlist n.addr (some m.addr) (fun p hp => mem_paths_id hn hm hi hp) h

/-! ### Pointers that are held -/

/-- What a dispatch holds a pointer to is in the tree. -/
structure Pc.Alive (pc : Pc) (loop : Loop β η α) : Prop where
  loopNodes : ∀ a ∈ pc.heldLoopNodes, a ∈ loopAddrs loop
  baseNodes : ∀ a ∈ pc.heldBaseNodes, a ∈ baseAddrs loop
  idNode : ∀ a ∈ pc.heldIdNode, a ∈ idAddrs loop
  handler : ∀ a ∈ pc.heldHandler, a ∈ handlerAddrs loop

example : (Pc.idHandlers none (some 3) (some 4)).heldLoopNodes = [] ∧
    (Pc.idHandlers none (some 3) (some 4)).heldBaseNodes = [3] ∧
    (Pc.idHandlers none (some 3) (some 4)).heldIdNode = none ∧
    (Pc.idHandlers none (some 3) (some 4)).heldHandler = some 4 := by
  simp [Pc.heldLoopNodes, Pc.heldBaseNodes, Pc.heldIdNode, Pc.heldHandler]

section Held

variable {tempNode tempBase next : Option ℕ}

lemma alive_iff {pc : Pc} : pc.Alive loop ↔ (∀ a ∈ pc.heldLoopNodes, a ∈ loopAddrs loop) ∧
    (∀ a ∈ pc.heldBaseNodes, a ∈ baseAddrs loop) ∧ (∀ a ∈ pc.heldIdNode, a ∈ idAddrs loop) ∧
      ∀ a ∈ pc.heldHandler, a ∈ handlerAddrs loop :=
  ⟨fun h => ⟨h.loopNodes, h.baseNodes, h.idNode, h.handler⟩,
    fun h => ⟨h.1, h.2.1, h.2.2.1, h.2.2.2⟩⟩

lemma alive_loopNodes :
    (Pc.loopNodes next).Alive loop ↔ ∀ a ∈ next, a ∈ loopAddrs loop := by
  simp [alive_iff, Pc.heldLoopNodes, Pc.heldBaseNodes, Pc.heldIdNode, Pc.heldHandler]

lemma alive_loopHandlers : (Pc.loopHandlers tempNode a next).Alive loop ↔
    (∀ a ∈ tempNode, a ∈ loopAddrs loop) ∧ a ∈ loopAddrs loop ∧
      ∀ a ∈ next, a ∈ handlerAddrs loop := by
  simp [alive_iff, Pc.heldLoopNodes, Pc.heldBaseNodes, Pc.heldIdNode, Pc.heldHandler, and_assoc,
    and_left_comm]

lemma alive_baseNodes : (Pc.baseNodes tempNode next).Alive loop ↔
    (∀ a ∈ tempNode, a ∈ loopAddrs loop) ∧ ∀ a ∈ next, a ∈ baseAddrs loop := by
  simp [alive_iff, Pc.heldLoopNodes, Pc.heldBaseNodes, Pc.heldIdNode, Pc.heldHandler]

lemma alive_baseHandlers : (Pc.baseHandlers tempNode tempBase a next).Alive loop ↔
    (∀ a ∈ tempNode, a ∈ loopAddrs loop) ∧ (∀ a ∈ tempBase, a ∈ baseAddrs loop) ∧
      a ∈ baseAddrs loop ∧ ∀ a ∈ next, a ∈ handlerAddrs loop := by
  simp [alive_iff, Pc.heldLoopNodes, Pc.heldBaseNodes, Pc.heldIdNode, Pc.heldHandler, and_assoc,
    and_left_comm]

lemma alive_idNodes : (Pc.idNodes tempNode tempBase next).Alive loop ↔
    (∀ a ∈ tempNode, a ∈ loopAddrs loop) ∧ (∀ a ∈ tempBase, a ∈ baseAddrs loop) ∧
      ∀ a ∈ next, a ∈ idAddrs loop := by
  simp [alive_iff, Pc.heldLoopNodes, Pc.heldBaseNodes, Pc.heldIdNode, Pc.heldHandler]

lemma alive_idHandlers : (Pc.idHandlers tempNode tempBase next).Alive loop ↔
    (∀ a ∈ tempNode, a ∈ loopAddrs loop) ∧ (∀ a ∈ tempBase, a ∈ baseAddrs loop) ∧
      ∀ a ∈ next, a ∈ handlerAddrs loop := by
  simp [alive_iff, Pc.heldLoopNodes, Pc.heldBaseNodes, Pc.heldIdNode, Pc.heldHandler]

end Held

/-- In a handler no pointer to an id node is held. -/
def Status.Alive (status : Status β η) (loop : Loop β η α) : Prop :=
  match status with
  | .idle => True
  | .running _ _ pc => pc.Alive loop
  | .executing _ _ _ pc => pc.Alive loop ∧ pc.heldIdNode = none
  | .fault => False

section Advance

variable [DecidableEq β] {base : β} {id : BitVec 32}

omit [DecidableEq β] in
lemma handlerExecute_alive {pc : Option ℕ → Pc} (ha : a ∈ handlerAddrs loop)
    (hpc : ∀ next : Option ℕ, (∀ b ∈ next, b ∈ handlerAddrs loop) → (pc next).Alive loop)
    (hid : ∀ next, (pc next).heldIdNode = none) :
    (handlerExecute loop base id a pc).Alive loop := by
  obtain ⟨⟨key, next⟩, hr⟩ := Option.isSome_iff_exists.mp (handlerAt_isSome ha)
  rw [handlerExecute, hr]
  exact ⟨hpc next (handlerAt_spec hr).2, hid next⟩

/-- A step follows pointers to nodes of the tree, and holds such pointers after it. -/
lemma advance_alive {pc : Pc} (h : pc.Alive loop) : (advance loop base id pc).Alive loop := by
  cases pc with
  | loopNodes loopNode =>
    cases loopNode with
    | none => exact trivial
    | some a =>
      have ha := alive_loopNodes.mp h a rfl
      obtain ⟨n, next, hr, hn, hnext⟩ := loopNodeAt_of_mem ha
      simp only [advance, hr, Status.Alive]
      refine alive_loopHandlers.mpr ⟨hnext, ha, fun b hb => ?_⟩
      obtain ⟨it, hit, rfl⟩ := List.mem_map.mp (mem_head hb)
      exact List.mem_map_of_mem (mem_paths_loop hn (List.mem_map_of_mem hit))
  | loopHandlers tempNode loopNode handler =>
    obtain ⟨htemp, ha, hhandler⟩ := alive_loopHandlers.mp h
    cases handler with
    | none =>
      obtain ⟨n, next, hr, hn, -⟩ := loopNodeAt_of_mem ha
      simp only [advance, hr, Status.Alive]
      exact alive_baseNodes.mpr ⟨htemp, fun b hb =>
        List.mem_flatMap.mpr ⟨n, hn, mem_head hb⟩⟩
    | some b =>
      exact handlerExecute_alive (hhandler b rfl)
        (fun next hnext => alive_loopHandlers.mpr ⟨htemp, ha, hnext⟩) (fun _ => rfl)
  | baseNodes tempNode baseNode =>
    obtain ⟨htemp, hbase⟩ := alive_baseNodes.mp h
    cases baseNode with
    | none => exact alive_loopNodes.mpr htemp
    | some a =>
      have ha := hbase a rfl
      obtain ⟨m, next, hr, ⟨n, hn, hm⟩, hnext⟩ := baseNodeAt_of_mem ha
      simp only [advance, hr]
      split
      · refine alive_baseHandlers.mpr ⟨htemp, hnext, ha, fun b hb => ?_⟩
        obtain ⟨it, hit, rfl⟩ := List.mem_map.mp (mem_head hb)
        exact List.mem_map_of_mem (mem_paths_base hn hm (List.mem_map_of_mem hit))
      · exact alive_baseNodes.mpr ⟨htemp, hnext⟩
  | baseHandlers tempNode tempBase baseNode handler =>
    obtain ⟨htemp, hbase, ha, hhandler⟩ := alive_baseHandlers.mp h
    cases handler with
    | none =>
      obtain ⟨m, next, hr, ⟨n, hn, hm⟩, -⟩ := baseNodeAt_of_mem ha
      simp only [advance, hr, Status.Alive]
      exact alive_idNodes.mpr ⟨htemp, hbase, fun b hb =>
        List.mem_flatMap.mpr ⟨n, hn, List.mem_flatMap.mpr ⟨m, hm, mem_head hb⟩⟩⟩
    | some b =>
      exact handlerExecute_alive (hhandler b rfl)
        (fun next hnext => alive_baseHandlers.mpr ⟨htemp, hbase, ha, hnext⟩) (fun _ => rfl)
  | idNodes tempNode tempBase idNode =>
    obtain ⟨htemp, hbase, hid⟩ := alive_idNodes.mp h
    cases idNode with
    | none => exact alive_baseNodes.mpr ⟨htemp, hbase⟩
    | some a =>
      obtain ⟨i, next, hr, ⟨n, hn, m, hm, hi⟩, hnext⟩ := idNodeAt_of_mem (hid a rfl)
      simp only [advance, hr]
      split
      · refine alive_idHandlers.mpr ⟨htemp, hbase, fun b hb => ?_⟩
        obtain ⟨it, hit, rfl⟩ := List.mem_map.mp (mem_head hb)
        exact List.mem_map_of_mem (mem_paths_id hn hm hi (List.mem_map_of_mem hit))
      · exact alive_idNodes.mpr ⟨htemp, hbase, hnext⟩
  | idHandlers tempNode tempBase handler =>
    obtain ⟨htemp, hbase, hhandler⟩ := alive_idHandlers.mp h
    cases handler with
    | none => exact alive_baseNodes.mpr ⟨htemp, hbase⟩
    | some b =>
      exact handlerExecute_alive (hhandler b rfl)
        (fun next hnext => alive_idHandlers.mpr ⟨htemp, hbase, hnext⟩) (fun _ => rfl)

/-- What a step enters is in the tree. -/
lemma mem_keys_of_advance {pc ret : Pc} {key : Key β η}
    (h : advance loop base id pc = .executing base id key ret) : key ∈ keys loop := by
  have hexecute : ∀ {a : ℕ} {f : Option ℕ → Pc},
      handlerExecute loop base id a f = .executing base id key ret → key ∈ keys loop := by
    intro a f h
    rw [handlerExecute] at h
    split at h
    · next r =>
      obtain ⟨-, -, rfl, -⟩ := Status.executing.inj h
      exact (handlerAt_spec r).1
    · cases h
  cases pc with
  | loopNodes loopNode =>
    cases loopNode with
    | none => cases h
    | some a => simp only [advance] at h; split at h <;> cases h
  | loopHandlers tempNode loopNode handler =>
    cases handler with
    | none => simp only [advance] at h; split at h <;> cases h
    | some b => exact hexecute h
  | baseNodes tempNode baseNode =>
    cases baseNode with
    | none => cases h
    | some a => simp only [advance] at h; split at h <;> [split at h <;> cases h; cases h]
  | baseHandlers tempNode tempBase baseNode handler =>
    cases handler with
    | none => simp only [advance] at h; split at h <;> cases h
    | some b => exact hexecute h
  | idNodes tempNode tempBase idNode =>
    cases idNode with
    | none => cases h
    | some a => simp only [advance] at h; split at h <;> [split at h <;> cases h; cases h]
  | idHandlers tempNode tempBase handler =>
    cases handler with
    | none => cases h
    | some b => exact hexecute h

end Advance

/-! ### Every run -/

section Runs

variable [DecidableEq β] [DecidableEq η]

/-- A spared dispatch keeps its pointers. -/
lemma Pc.Alive.unregister {pc : Pc} {base : Option β} {id : BitVec 32} {handler : η}
    (h : pc.Alive loop) (hid : pc.heldIdNode = none)
    (hspared : pc.Spared loop (base, id, handler)) :
    pc.Alive (espEventHandlerUnregisterWith loop base id handler) := by
  constructor
  case loopNodes =>
    intro a ha
    obtain ⟨p, hp, rfl, hne⟩ := hspared.loopNodes a ha
    exact (addrs_of_mem_paths (mem_paths_unregister hp hne)).1
  case baseNodes =>
    intro a ha
    obtain ⟨p, hp, hpa, hne⟩ := hspared.baseNodes a ha
    exact (addrs_of_mem_paths (mem_paths_unregister hp hne)).2 a hpa
  case idNode =>
    intro a ha
    rw [hid] at ha
    cases ha
  case handler =>
    intro a ha
    obtain ⟨p, hp, rfl⟩ := List.mem_map.mp (h.handler a ha)
    have hne : p.key ≠ (base, id, handler) := fun heq => hspared.handler p hp heq ha
    exact List.mem_map_of_mem (mem_paths_unregister hp hne)

/-- Registering frees nothing. -/
lemma Pc.Alive.register {pc : Pc} (h : pc.Alive loop) (hid : pc.heldIdNode = none) (a : ℕ)
    (base : Option β) (id : BitVec 32) (handler : η) (arg : α) :
    pc.Alive (espEventHandlerRegisterWith a loop base id handler arg) := by
  obtain ⟨hpaths, hloops, hbases⟩ := subset_register a loop base id handler arg
  constructor
  case loopNodes => exact fun b hb => hloops (h.loopNodes b hb)
  case baseNodes => exact fun b hb => hbases (h.baseNodes b hb)
  case idNode =>
    intro b hb
    rw [hid] at hb
    cases hb
  case handler => exact fun b hb => List.map_subset _ hpaths (h.handler b hb)

/-- What holds before and after every step. -/
structure Inv (s : State β η α) : Prop where
  wf : WellFormed (plain s.loop)
  alive : s.status.Alive s.loop
  gone : s.status ≠ .idle → ∀ key ∈ s.gone, key ∉ keys s.loop

variable {s s' : State β η α} {act : Act β η α}

omit [DecidableEq β] [DecidableEq η] in
lemma inv_create : Inv (espEventLoopCreate : State β η α) where
  wf := fun _ hn => absurd hn List.not_mem_nil
  alive := trivial
  gone := fun h => absurd rfl h

lemma Inv.register (h : Inv s) (hcall : s.status.callable = true) (base : Option β)
    (id : BitVec 32) (handler : η) (arg : α) :
    Inv { s with
      loop := espEventHandlerRegisterWith s.fresh s.loop base id handler arg
      fresh := s.fresh + 4
      gone := s.gone.filter fun key => key ≠ (base, id, handler) } := by
  constructor
  case wf =>
    show WellFormed (plain (espEventHandlerRegisterWith s.fresh s.loop base id handler arg))
    rw [plain_register]
    exact wellFormed_register h.wf base id handler arg
  case alive =>
    have halive := h.alive
    cases hstatus : s.status with
    | idle => exact trivial
    | running b i pc => rw [hstatus] at hcall; cases hcall
    | executing b i key pc =>
      rw [hstatus] at halive
      exact ⟨halive.1.register halive.2 s.fresh base id handler arg, halive.2⟩
    | fault => rw [hstatus] at hcall; cases hcall
  case gone =>
    intro hidle key hkey hmem
    obtain ⟨hkey, hne⟩ := List.mem_filter.mp hkey
    rcases mem_keys_register h.wf s.fresh hmem with hold | heq
    · exact h.gone hidle key hkey hold
    · rw [heq] at hne
      simp at hne

lemma Inv.unregister (h : Inv s) (hcall : s.status.callable = true) {base : Option β}
    {id : BitVec 32} {handler : η} (hspares : Spares s (.unregister base id handler)) :
    Inv { s with
      loop := espEventHandlerUnregisterWith s.loop base id handler
      gone := if base = none ∧ id ≠ anyId then s.gone else (base, id, handler) :: s.gone } := by
  by_cases hbase : base = none ∧ id ≠ anyId
  · rw [if_pos hbase, espEventHandlerUnregisterWith, if_pos hbase]
    exact h
  · have halive := h.alive
    rw [if_neg hbase]
    constructor
    case wf =>
      show WellFormed (plain (espEventHandlerUnregisterWith s.loop base id handler))
      rw [plain_unregister]
      exact wellFormed_unregister h.wf base id handler
    case alive =>
      cases hstatus : s.status with
      | idle => exact trivial
      | running b i pc => rw [hstatus] at hcall; cases hcall
      | executing b i key pc =>
        rw [hstatus] at halive
        simp only [Spares, hstatus] at hspares
        exact ⟨halive.1.unregister halive.2 hspares, halive.2⟩
      | fault => rw [hstatus] at hcall; cases hcall
    case gone =>
      intro hidle key hkey hmem
      cases hstatus : s.status with
      | idle => exact hidle hstatus
      | running b i pc => rw [hstatus] at hcall; cases hcall
      | executing b i key' pc =>
        simp only [Spares, hstatus] at hspares
        obtain ⟨hold, hne⟩ := not_mem_keys_unregister h.wf hbase hspares.once hmem
        rcases List.mem_cons.mp hkey with heq | hkey
        · exact hne heq
        · exact h.gone hidle key hkey hold
      | fault => rw [hstatus] at hcall; cases hcall

lemma Inv.step (h : Inv s) (hspares : Spares s act) (hstep : step s act = some s') : Inv s' := by
  have halive := h.alive
  have hgone := h.gone
  cases act with
  | receive base id =>
    simp only [Addressed.step] at hstep
    split at hstep
    · obtain rfl := Option.some.inj hstep
      exact ⟨h.wf, alive_loopNodes.mpr fun a ha => mem_head ha, fun _ key hkey => by cases hkey⟩
    · cases hstep
  | advance =>
    simp only [Addressed.step] at hstep
    split at hstep
    · next base id pc hstatus =>
      rw [hstatus] at halive hgone
      obtain rfl := Option.some.inj hstep
      exact ⟨h.wf, advance_alive halive, fun _ => hgone (by simp)⟩
    · cases hstep
  | returns =>
    simp only [Addressed.step] at hstep
    split at hstep
    · next base id key pc hstatus =>
      rw [hstatus] at halive hgone
      obtain rfl := Option.some.inj hstep
      exact ⟨h.wf, halive.1, fun _ => hgone (by simp)⟩
    · cases hstep
  | register base id handler arg =>
    simp only [Addressed.step] at hstep
    split at hstep
    · next hcall =>
      obtain rfl := Option.some.inj hstep
      exact h.register hcall base id handler arg
    · cases hstep
  | unregister base id handler =>
    simp only [Addressed.step] at hstep
    split at hstep
    · next hcall =>
      obtain rfl := Option.some.inj hstep
      exact h.unregister hcall hspares
    · cases hstep

lemma Inv.run {acts : List (Act β η α)} : ∀ {s : State β η α}, Inv s → AlwaysSpares s acts →
    run s acts = some s' → Inv s' := by
  induction acts with
  | nil =>
    intro s h _ hrun
    obtain rfl := Option.some.inj hrun
    exact h
  | cons act acts ih =>
    intro s h hspares hrun
    obtain ⟨s₁, hstep, hrun⟩ := Option.bind_eq_some_iff.mp hrun
    exact ih (h.step hspares.1 hstep) (hspares.2 s₁ hstep) hrun

omit [DecidableEq η] in
lemma Inv.safe (h : Inv s) : Safe s where
  alive := by
    intro hfault
    have halive := h.alive
    rw [hfault] at halive
    exact halive
  current := by
    rintro key ⟨base, id, pc, ret, hstatus, hadvance⟩ hgone
    refine h.gone ?_ key hgone (mem_keys_of_advance hadvance)
    rw [hstatus]
    exact fun hc => by cases hc

/-- In a run whose calls spare the dispatch that they are made from, no pointer to a removed node
is followed, and no handler is entered after it has been unregistered. -/
theorem run_safe (acts : List (Act β η α)) (hspares : AlwaysSpares espEventLoopCreate acts)
    (h : run espEventLoopCreate acts = some s) : Safe s :=
  (inv_create.run hspares h).safe

/-- A handler for all events that unregisters the one of an event. -/
theorem run_safe_other : Safe (⟨[⟨3, [⟨0, 1, 0⟩, ⟨4, 2, 0⟩], []⟩], 12,
    .running 7 3 (.loopHandlers none 3 (some 4)), [(some 7, 3, 3)]⟩ : State ℕ ℕ ℕ) :=
  run_safe [.register none anyId 1 0, .register none anyId 2 0, .register (some 7) 3 3 0,
    .receive 7 3, .advance, .advance, .unregister (some 7) 3 3, .returns] (by decide) (by decide)

/-- A handler that unregisters the next one: it is freed, but it is the one that is saved. -/
theorem run_unsafe_next : ¬ ∀ (acts : List (Act ℕ ℕ ℕ)) (s : State ℕ ℕ ℕ),
    run espEventLoopCreate acts = some s → Safe s := by
  intro h
  have hrun : run (espEventLoopCreate : State ℕ ℕ ℕ)
      [.register none anyId 1 0, .register none anyId 2 0, .receive 7 3, .advance, .advance,
        .unregister none anyId 2, .returns, .advance] =
      some ⟨[⟨3, [⟨0, 1, 0⟩], []⟩], 8, .fault, [(none, anyId, 2)]⟩ := by decide
  exact (h _ _ hrun).alive rfl

/-- A handler that is the only one and unregisters itself: the loop node is freed, and its base
nodes are read afterwards. -/
example : (run (espEventLoopCreate : State ℕ ℕ ℕ)
    [.register none anyId 1 0, .receive 7 3, .advance, .advance, .unregister none anyId 1,
      .returns, .advance]).map State.status = some .fault := by decide

end Runs

end EspIdf.Event.Addressed
