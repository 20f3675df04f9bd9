/-
# The registrations of an event loop

What the calls do to the list of handlers of the tree: adding puts a handler behind all
handlers with which it shares an event, unless the node that it is added to has it already,
and removing takes a handler out that stands in the tree once.
-/
import EspIdf.Event.Registrations

namespace EspIdf.Event

open EspIdf.Lib

variable {β η α : Type} [DecidableEq β] [DecidableEq η]

/-! ### Where a handler is added -/

/-- The handlers that a call for this base node adds to hold the handler. -/
def BaseNode.holds (n : BaseNode β η α) (id : BitVec 32) (handler : η) : Bool :=
  if id = anyId then n.handlers.any fun it => it.handler == handler
  else
    match splitLast (fun it : IdNode η α => it.id == id) n.idNodes with
    | some (_, idNode, _) => idNode.handlers.any fun it => it.handler == handler
    | none => false

/-- The handlers that a call for this loop node adds to hold the handler. -/
def LoopNode.holds (n : LoopNode β η α) (base : Option β) (id : BitVec 32) (handler : η) : Bool :=
  if base = none ∧ id = anyId then n.handlers.any fun it => it.handler == handler
  else
    match splitLast (fun it : BaseNode β η α => it.base == base) n.baseNodes with
    | some (_, baseNode, _) =>
      !needsBaseNode n.baseNodes base id baseNode && baseNode.holds id handler
    | none => false

/-- The node that the call adds to, which is not a new one, holds the handler. -/
def holds (loop : Loop β η α) (base : Option β) (id : BitVec 32) (handler : η) : Bool :=
  match splitLast (fun _ : LoopNode β η α => true) loop with
  | some (_, last, _) =>
    !(!last.baseNodes.isEmpty && base == none && id == anyId) && last.holds base id handler
  | none => false

/-- Two registrations that match a common event. -/
def Registration.Overlaps (r s : Registration β η α) : Prop :=
  ∃ b i, r.matches b i = true ∧ s.matches b i = true

/-- Adding `e`: it replaces a registration with its base, id and handler, or it is inserted
behind all registrations that it overlaps. -/
inductive Added (e : Registration β η α) :
    Bool → List (Registration β η α) → List (Registration β η α) → Prop
  | replaced (before after : List (Registration β η α)) (x : Registration β η α)
      (hx : x.isFor e.base e.id e.handler = true) :
      Added e true (before ++ x :: after) (before ++ e :: after)
  | inserted (before after : List (Registration β η α)) (h : ∀ x ∈ after, ¬ x.Overlaps e) :
      Added e false (before ++ after) (before ++ e :: after)

variable {e : Registration β η α} {found : Bool} {T T' : List (Registration β η α)}

/-- Adding in the middle of a list. -/
lemma Added.context (h : Added e found T T') (before after : List (Registration β η α))
    (hafter : ∀ x ∈ after, ¬ x.Overlaps e) :
    Added e found (before ++ T ++ after) (before ++ T' ++ after) := by
  cases h with
  | replaced b a x hx =>
    have := Added.replaced (before ++ b) (a ++ after) x hx
    simpa using this
  | inserted b a ha =>
    have := Added.inserted (e := e) (before ++ b) (a ++ after) fun x hx =>
      (List.mem_append.mp hx).elim (ha x) (hafter x)
    simpa using this

lemma added_handlers (base : Option β) (id : BitVec 32) (handler : η) (arg : α)
    (hs : List (HandlerInstance η α)) :
    Added ⟨base, id, handler, arg⟩ (hs.any fun it => it.handler == handler)
      (hs.map (HandlerInstance.at base id))
      ((handlerInstancesAdd handler arg hs).map (HandlerInstance.at base id)) := by
  induction hs with
  | nil => exact Added.inserted [] [] (by simp)
  | cons it rest ih =>
    rw [handlerInstancesAdd]
    by_cases h : handler = it.handler
    · subst h
      rw [if_pos rfl, List.any_cons, beq_self_eq_true, Bool.true_or]
      exact Added.replaced [] _ (it.at base id) (by simp [Registration.isFor, HandlerInstance.at])
    · rw [if_neg h, List.any_cons, beq_false_of_ne (Ne.symm h), Bool.false_or]
      have := ih.context [it.at base id] [] (by simp)
      simpa using this

omit [DecidableEq η] in
/-- Handlers of different bases share no event. -/
lemma not_overlaps_of_base {x : Registration β η α} (hx : x.base ≠ none) (he : e.base ≠ none)
    (hne : x.base ≠ e.base) : ¬ x.Overlaps e := by
  rintro ⟨b, i, h1, h2⟩
  simp only [Registration.matches, Bool.and_eq_true, Bool.or_eq_true, beq_iff_eq] at h1 h2
  exact hne ((h1.1.resolve_left hx).trans (h2.1.resolve_left he).symm)

omit [DecidableEq η] in
/-- Handlers of different ids share no event. -/
lemma not_overlaps_of_id {x : Registration β η α} (hx : x.id ≠ anyId) (he : e.id ≠ anyId)
    (hne : x.id ≠ e.id) : ¬ x.Overlaps e := by
  rintro ⟨b, i, h1, h2⟩
  simp only [Registration.matches, Bool.and_eq_true, Bool.or_eq_true, beq_iff_eq] at h1 h2
  exact hne ((h1.2.resolve_left hx).trans (h2.2.resolve_left he).symm)

lemma added_baseNode {n : BaseNode β η α} (id : BitVec 32) (handler : η) (arg : α)
    (hids : ∀ it ∈ n.idNodes, it.id ≠ anyId) (hnew : id = anyId → n.idNodes = []) :
    Added ⟨n.base, id, handler, arg⟩ (n.holds id handler) n.entries
      (baseNodeAddHandler n id handler arg).entries := by
  rw [BaseNode.holds, baseNodeAddHandler]
  by_cases hid : id = anyId
  · rw [if_pos hid, if_pos hid, BaseNode.entries, BaseNode.entries, hnew hid]
    subst hid
    exact (added_handlers n.base anyId handler arg n.handlers).context [] [] (by simp)
  · rw [if_neg hid, if_neg hid]
    cases hsplit : splitLast (fun it : IdNode η α => it.id == id) n.idNodes with
    | none =>
      have := (added_handlers n.base id handler arg []).context n.entries [] (by simp)
      simpa [BaseNode.entries, IdNode.entries] using this
    | some r =>
      obtain ⟨before, idNode, after⟩ := r
      obtain ⟨heq, hp, hafter⟩ := splitLast_eq_some hsplit
      obtain rfl : idNode.id = id := by simpa using hp
      have := (added_handlers n.base idNode.id handler arg idNode.handlers).context
        (n.handlers.map (HandlerInstance.at n.base anyId) ++
          before.flatMap (IdNode.entries n.base)) (after.flatMap (IdNode.entries n.base))
        (by
          intro x hx
          obtain ⟨m, hm, hx⟩ := List.mem_flatMap.mp hx
          obtain ⟨it, -, rfl⟩ := List.mem_map.mp hx
          have hm' : m ∈ n.idNodes := by rw [heq]; simp [hm]
          have hne : m.id ≠ idNode.id := by simpa using hafter m hm
          exact not_overlaps_of_id (hids m hm') hid hne)
      simpa [BaseNode.entries, IdNode.entries, heq] using this

lemma added_loopNode {n : LoopNode β η α} (base : Option β) (id : BitVec 32) (handler : η)
    (arg : α) (hwf : ∀ b ∈ n.baseNodes, b.WellFormed)
    (hnew : base = none → id = anyId ∧ n.baseNodes = []) :
    Added ⟨base, id, handler, arg⟩ (n.holds base id handler) n.entries
      (loopNodeAddHandler n base id handler arg).entries := by
  rw [LoopNode.holds, loopNodeAddHandler]
  by_cases hbase : base = none ∧ id = anyId
  · rw [if_pos hbase, if_pos hbase, LoopNode.entries, LoopNode.entries, (hnew hbase.1).2]
    obtain ⟨rfl, rfl⟩ := hbase
    exact (added_handlers none anyId handler arg n.handlers).context [] [] (by simp)
  · rw [if_neg hbase, if_neg hbase]
    have hsome : base ≠ none := fun h => hbase ⟨h, (hnew h).1⟩
    -- a new base node at the end
    have happend : Added ⟨base, id, handler, arg⟩ false n.entries
        (LoopNode.entries { n with
          baseNodes := n.baseNodes ++ [baseNodeAddHandler ⟨base, [], []⟩ id handler arg] }) := by
      have hempty : BaseNode.holds ⟨base, [], ([] : List (IdNode η α))⟩ id handler = false := by
        rw [BaseNode.holds]
        split <;> rfl
      have := (added_baseNode (n := ⟨base, [], []⟩) id handler arg (by simp)
        (fun _ => rfl)).context n.entries [] (by simp)
      rw [hempty] at this
      simpa [LoopNode.entries, BaseNode.entries] using this
    cases hsplit : splitLast (fun it : BaseNode β η α => it.base == base) n.baseNodes with
    | none => exact happend
    | some r =>
      obtain ⟨before, baseNode, after⟩ := r
      obtain ⟨heq, hp, hafter⟩ := splitLast_eq_some hsplit
      obtain rfl : baseNode.base = base := by simpa using hp
      have hmem : baseNode ∈ n.baseNodes := by rw [heq]; simp
      by_cases hneeds : needsBaseNode n.baseNodes baseNode.base id baseNode = true
      · simp only [hneeds, if_true, Bool.not_true, Bool.false_and]
        exact happend
      · have hno : id = anyId → baseNode.idNodes = [] := by
          intro h
          by_contra hne
          exact hneeds (by simp [needsBaseNode, h, hne])
        simp only [Bool.eq_false_iff.mpr hneeds, Bool.false_eq_true, if_false, Bool.not_false,
          Bool.true_and]
        have := (added_baseNode id handler arg (hwf _ hmem).ids hno).context
          (n.handlers.map (HandlerInstance.at none anyId) ++ before.flatMap BaseNode.entries)
          (after.flatMap BaseNode.entries) (by
            intro x hx
            obtain ⟨m, hm, hx⟩ := List.mem_flatMap.mp hx
            have hm' : m ∈ n.baseNodes := by rw [heq]; simp [hm]
            have hxb : x.base = m.base := base_of_mem_entries hx
            exact not_overlaps_of_base (by rw [hxb]; exact (hwf m hm').base) hsome
              (by rw [hxb]; simpa using hafter m hm))
        simpa [LoopNode.entries, heq] using this

/-- A call that is not refused adds to the list of the tree. -/
lemma added_loop {loop : Loop β η α} (hwf : WellFormed loop) {base : Option β} {id : BitVec 32}
    (handler : η) (arg : α) (hbase : ¬ (base = none ∧ id ≠ anyId)) :
    Added ⟨base, id, handler, arg⟩ (holds loop base id handler) (entries loop)
      (entries (espEventHandlerRegisterWith loop base id handler arg)) := by
  have hany : base = none → id = anyId := fun h => by
    by_contra hid
    exact hbase ⟨h, hid⟩
  -- a new loop node at the end
  have happend : Added ⟨base, id, handler, arg⟩ false (entries loop)
      (entries (loop ++ [loopNodeAddHandler ⟨[], []⟩ base id handler arg])) := by
    have hempty : LoopNode.holds ⟨[], ([] : List (BaseNode β η α))⟩ base id handler = false := by
      rw [LoopNode.holds]
      split <;> rfl
    have := (added_loopNode (n := ⟨[], []⟩) base id handler arg (by simp)
      (fun h => ⟨hany h, rfl⟩)).context (entries loop) [] (by simp)
    rw [hempty] at this
    simpa [entries, LoopNode.entries] using this
  rw [holds, espEventHandlerRegisterWith, if_neg hbase]
  cases hsplit : splitLast (fun _ : LoopNode β η α => true) loop with
  | none => exact happend
  | some r =>
    obtain ⟨before, last, after⟩ := r
    have heq := splitLast_true hsplit
    have hmem : last ∈ loop := by rw [heq]; simp
    by_cases hnew : (!last.baseNodes.isEmpty) = true ∧ base = none ∧ id = anyId
    · have hbool : (!last.baseNodes.isEmpty && base == none && id == anyId) = true := by
        simp [hnew.1, hnew.2.1, hnew.2.2]
      simp only [if_pos hnew, hbool, Bool.not_true, Bool.false_and]
      exact happend
    · have hbool : (!last.baseNodes.isEmpty && base == none && id == anyId) = false := by
        rw [Bool.eq_false_iff]
        intro h
        simp only [Bool.and_eq_true, beq_iff_eq] at h
        exact hnew ⟨h.1.1, h.1.2, h.2⟩
      have hempty : base = none → id = anyId ∧ last.baseNodes = [] := fun h => by
        refine ⟨hany h, ?_⟩
        by_contra hne
        exact hnew ⟨by simpa using hne, h, hany h⟩
      simp only [if_neg hnew, hbool, Bool.not_false, Bool.true_and]
      have := (added_loopNode base id handler arg (hwf last hmem) hempty).context
        (before.flatMap LoopNode.entries) [] (by simp)
      simpa [entries, heq] using this

/-! ### The tree stays well-formed -/

omit [DecidableEq β] in
lemma wellFormed_baseNodeAdd {n : BaseNode β η α} (h : n.WellFormed) (id : BitVec 32)
    (handler : η) (arg : α) : (baseNodeAddHandler n id handler arg).WellFormed := by
  rw [baseNodeAddHandler]
  by_cases hid : id = anyId
  · rw [if_pos hid]
    exact ⟨h.base, h.ids, h.distinct⟩
  · rw [if_neg hid]
    cases hsplit : splitLast (fun it : IdNode η α => it.id == id) n.idNodes with
    | none =>
      refine ⟨h.base, fun it hit => ?_, ?_⟩
      · rcases List.mem_append.mp hit with hit | hit
        · exact h.ids it hit
        · rw [List.mem_singleton.mp hit]
          exact hid
      · simp only [List.map_append, List.map_cons, List.map_nil]
        rw [List.nodup_append]
        refine ⟨h.distinct, by simp, ?_⟩
        intro a ha b hb
        obtain ⟨it, hit, rfl⟩ := List.mem_map.mp ha
        rw [List.mem_singleton.mp hb]
        simpa using splitLast_eq_none hsplit hit
    | some r =>
      obtain ⟨before, idNode, after⟩ := r
      obtain ⟨heq, -, -⟩ := splitLast_eq_some hsplit
      have hids := h.ids
      have hdistinct := h.distinct
      rw [heq] at hids hdistinct
      refine ⟨h.base, fun it hit => ?_, by simpa using hdistinct⟩
      simp only [List.mem_append, List.mem_cons] at hit hids
      rcases hit with hit | rfl | hit
      · exact hids it (.inl hit)
      · exact hids idNode (.inr (.inl rfl))
      · exact hids it (.inr (.inr hit))

lemma wellFormed_loopNodeAdd {n : LoopNode β η α} {base : Option β} {id : BitVec 32}
    (h : ∀ b ∈ n.baseNodes, b.WellFormed) (hany : base = none → id = anyId) (handler : η)
    (arg : α) : ∀ b ∈ (loopNodeAddHandler n base id handler arg).baseNodes, b.WellFormed := by
  rw [loopNodeAddHandler]
  by_cases hbase : base = none ∧ id = anyId
  · rw [if_pos hbase]
    exact h
  · rw [if_neg hbase]
    have hnew : (baseNodeAddHandler ⟨base, [], []⟩ id handler arg).WellFormed :=
      wellFormed_baseNodeAdd ⟨fun h => hbase ⟨h, hany h⟩, by simp, by simp⟩ id handler arg
    have happend : ∀ b ∈ n.baseNodes ++ [baseNodeAddHandler ⟨base, [], []⟩ id handler arg],
        b.WellFormed := by
      intro b hb
      rcases List.mem_append.mp hb with hb | hb
      · exact h b hb
      · rw [List.mem_singleton.mp hb]
        exact hnew
    cases hsplit : splitLast (fun it : BaseNode β η α => it.base == base) n.baseNodes with
    | none => exact happend
    | some r =>
      obtain ⟨before, baseNode, after⟩ := r
      obtain ⟨heq, -, -⟩ := splitLast_eq_some hsplit
      simp only
      split
      · exact happend
      · intro b hb
        have hall := h
        rw [heq] at hall
        simp only [List.mem_append, List.mem_cons] at hb hall
        rcases hb with hb | rfl | hb
        · exact hall b (.inl hb)
        · exact wellFormed_baseNodeAdd (hall baseNode (.inr (.inl rfl))) id handler arg
        · exact hall b (.inr (.inr hb))

lemma wellFormed_register {loop : Loop β η α} (h : WellFormed loop) (base : Option β)
    (id : BitVec 32) (handler : η) (arg : α) :
    WellFormed (espEventHandlerRegisterWith loop base id handler arg) := by
  rw [espEventHandlerRegisterWith]
  by_cases hbase : base = none ∧ id ≠ anyId
  · rw [if_pos hbase]
    exact h
  · have hany : base = none → id = anyId := fun hb => by
      by_contra hid
      exact hbase ⟨hb, hid⟩
    have happend : WellFormed (loop ++ [loopNodeAddHandler ⟨[], []⟩ base id handler arg]) := by
      intro n hn
      rcases List.mem_append.mp hn with hn | hn
      · exact h n hn
      · rw [List.mem_singleton.mp hn]
        exact wellFormed_loopNodeAdd (by simp) hany handler arg
    rw [if_neg hbase]
    cases hsplit : splitLast (fun _ : LoopNode β η α => true) loop with
    | none => exact happend
    | some r =>
      obtain ⟨before, last, after⟩ := r
      have heq := splitLast_true hsplit
      simp only
      split
      · exact happend
      · intro n hn
        have hall := h
        rw [heq] at hall
        rcases List.mem_append.mp hn with hn | hn
        · exact hall n (List.mem_append_left _ hn)
        · rw [List.mem_singleton.mp hn]
          exact wellFormed_loopNodeAdd (hall last (by simp)) hany handler arg

/-! ### Removing -/

lemma isFor_at {base base' : Option β} {id id' : BitVec 32} {handler : η}
    {it : HandlerInstance η α} : (it.at base' id').isFor base id handler = true ↔
      base' = base ∧ id' = id ∧ it.handler = handler := by
  simp [Registration.isFor, HandlerInstance.at, and_assoc]

/-- Handlers that are registered for something else stay. -/
lemma filter_eq_self_of_not_isFor {base : Option β} {id : BitVec 32} {handler : η}
    (h : ∀ x ∈ T, ¬ (x.base = base ∧ x.id = id)) :
    T.filter (fun r => !r.isFor base id handler) = T := by
  rw [List.filter_eq_self]
  intro x hx
  simp only [Registration.isFor, Bool.not_eq_true', Bool.and_eq_false_iff, beq_eq_false_iff_ne]
  left
  by_contra hne
  rw [not_or, not_ne_iff, not_ne_iff] at hne
  exact h x hx hne

lemma found_handlers (base : Option β) (id : BitVec 32) {handler : η}
    {hs : List (HandlerInstance η α)} (h : (handlerInstancesRemove handler hs).1 = true) :
    ∃ e ∈ hs.map (HandlerInstance.at base id), e.isFor base id handler = true := by
  induction hs with
  | nil => exact absurd h Bool.false_ne_true
  | cons it rest ih =>
    rw [handlerInstancesRemove] at h
    split at h
    · next hit => exact ⟨_, List.mem_cons_self .., isFor_at.mpr ⟨rfl, rfl, hit⟩⟩
    · obtain ⟨e, he, hq⟩ := ih h
      exact ⟨e, List.mem_cons_of_mem _ he, hq⟩

lemma entries_handlersRemove (base : Option β) (id : BitVec 32) (handler : η)
    {hs : List (HandlerInstance η α)}
    (hone : (hs.map (HandlerInstance.at base id)).countP (Registration.isFor base id handler) ≤ 1) :
    (handlerInstancesRemove handler hs).2.map (HandlerInstance.at base id) =
      (hs.map (HandlerInstance.at base id)).filter fun r => !r.isFor base id handler := by
  induction hs with
  | nil => rfl
  | cons it rest ih =>
    rw [List.map_cons, List.countP_cons] at hone
    rw [handlerInstancesRemove]
    by_cases h : it.handler = handler
    · have hit : (it.at base id).isFor base id handler = true := isFor_at.mpr ⟨rfl, rfl, h⟩
      rw [if_pos hit] at hone
      rw [if_pos h, List.map_cons, List.filter_cons, if_neg (by simp [hit]),
        List.filter_eq_self.mpr]
      intro e he
      simpa using List.countP_eq_zero.mp (show _ = 0 by omega) e he
    · have hit : ¬ (it.at base id).isFor base id handler = true := fun hc => h (isFor_at.mp hc).2.2
      rw [if_neg hit] at hone
      rw [if_neg h, List.map_cons, List.map_cons, List.filter_cons, if_pos (by simpa using hit),
        ih (by omega)]

lemma found_baseNode {n : BaseNode β η α} {id : BitVec 32} {handler : η}
    (h : (baseNodeRemoveHandler n id handler).1 = true) :
    ∃ e ∈ n.entries, e.isFor n.base id handler = true := by
  rw [baseNodeRemoveHandler] at h
  split at h
  · next hid =>
    subst hid
    obtain ⟨e, he, hq⟩ := found_handlers n.base anyId h
    exact ⟨e, List.mem_append_left _ he, hq⟩
  · obtain ⟨e, he, hq⟩ := exists_of_removeIn (IdNode.entries n.base)
      (Registration.isFor n.base id handler) (fun m _ hm hok => by
        obtain rfl : m.id = id := by simpa using hm
        exact found_handlers n.base m.id hok) h
    exact ⟨e, List.mem_append_right _ he, hq⟩

lemma entries_baseNodeRemove {n : BaseNode β η α} (hids : ∀ it ∈ n.idNodes, it.id ≠ anyId)
    (id : BitVec 32) (handler : η)
    (hone : n.entries.countP (Registration.isFor n.base id handler) ≤ 1) :
    (baseNodeRemoveHandler n id handler).2.entries =
      n.entries.filter fun r => !r.isFor n.base id handler := by
  rw [BaseNode.entries, List.countP_append] at hone
  rw [baseNodeRemoveHandler]
  by_cases hid : id = anyId
  · subst hid
    rw [if_pos rfl, BaseNode.entries, BaseNode.entries, List.filter_append,
      entries_handlersRemove n.base anyId handler (by omega)]
    congr 1
    symm
    apply filter_eq_self_of_not_isFor
    rintro x hx ⟨-, hx'⟩
    obtain ⟨m, hm, hx⟩ := List.mem_flatMap.mp hx
    obtain ⟨it, -, rfl⟩ := List.mem_map.mp hx
    exact hids m hm hx'
  · rw [if_neg hid, BaseNode.entries, BaseNode.entries, List.filter_append]
    congr 1
    · symm
      apply filter_eq_self_of_not_isFor
      rintro x hx ⟨-, hx'⟩
      obtain ⟨it, -, rfl⟩ := List.mem_map.mp hx
      exact hid hx'.symm
    · refine flatMap_removeIn (IdNode.entries n.base) (Registration.isFor n.base id handler)
        (fun m _ hm e he => ?_) (fun m _ hm hone => ?_) (fun m _ hm hok => ?_) (fun m hm => ?_)
        (by omega)
      · obtain ⟨it, -, rfl⟩ := List.mem_map.mp he
        rw [Bool.eq_false_iff]
        intro hc
        exact absurd (isFor_at.mp hc).2.1 (by simpa using hm)
      · obtain rfl : m.id = id := by simpa using hm
        exact entries_handlersRemove n.base m.id handler hone
      · obtain rfl : m.id = id := by simpa using hm
        exact found_handlers n.base m.id hok
      · rw [IdNode.entries, List.isEmpty_iff.mp hm]
        rfl

lemma found_loopNode {n : LoopNode β η α} {base : Option β} {id : BitVec 32} {handler : η}
    (h : (loopNodeRemoveHandler n base id handler).1 = true) :
    ∃ e ∈ n.entries, e.isFor base id handler = true := by
  rw [loopNodeRemoveHandler] at h
  split at h
  · next hbase =>
    obtain ⟨rfl, rfl⟩ := hbase
    obtain ⟨e, he, hq⟩ := found_handlers (none : Option β) anyId h
    exact ⟨e, List.mem_append_left _ he, hq⟩
  · obtain ⟨e, he, hq⟩ := exists_of_removeIn BaseNode.entries
      (Registration.isFor base id handler) (fun m _ hm hok => by
        obtain rfl : m.base = base := by simpa using hm
        exact found_baseNode hok) h
    exact ⟨e, List.mem_append_right _ he, hq⟩

lemma entries_loopNodeRemove {n : LoopNode β η α} (hwf : ∀ b ∈ n.baseNodes, b.WellFormed)
    {base : Option β} {id : BitVec 32} {handler : η} (hany : base = none → id = anyId)
    (hone : n.entries.countP (Registration.isFor base id handler) ≤ 1) :
    (loopNodeRemoveHandler n base id handler).2.entries =
      n.entries.filter fun r => !r.isFor base id handler := by
  rw [LoopNode.entries, List.countP_append] at hone
  rw [loopNodeRemoveHandler]
  by_cases hbase : base = none ∧ id = anyId
  · obtain ⟨rfl, rfl⟩ := hbase
    rw [if_pos ⟨rfl, rfl⟩, LoopNode.entries, LoopNode.entries, List.filter_append,
      entries_handlersRemove none anyId handler (by omega)]
    congr 1
    symm
    apply filter_eq_self_of_not_isFor
    rintro x hx ⟨hx', -⟩
    obtain ⟨m, hm, hx⟩ := List.mem_flatMap.mp hx
    exact (hwf m hm).base ((base_of_mem_entries hx).symm.trans hx')
  · have hsome : base ≠ none := fun h => hbase ⟨h, hany h⟩
    rw [if_neg hbase, LoopNode.entries, LoopNode.entries, List.filter_append]
    congr 1
    · symm
      apply filter_eq_self_of_not_isFor
      rintro x hx ⟨hx', -⟩
      obtain ⟨it, -, rfl⟩ := List.mem_map.mp hx
      exact hsome hx'.symm
    · refine flatMap_removeIn BaseNode.entries (Registration.isFor base id handler)
        (fun m hmem hm e he => ?_) (fun m hmem hm hone => ?_) (fun m _ hm hok => ?_)
        (fun m hm => ?_) (by omega)
      · rw [Bool.eq_false_iff]
        intro hc
        simp only [Registration.isFor, Bool.and_eq_true, beq_iff_eq] at hc
        exact absurd ((base_of_mem_entries he).symm.trans hc.1.1) (by simpa using hm)
      · obtain rfl : m.base = base := by simpa using hm
        exact entries_baseNodeRemove (hwf m hmem).ids id handler hone
      · obtain rfl : m.base = base := by simpa using hm
        exact found_baseNode hok
      · rw [Bool.and_eq_true] at hm
        rw [BaseNode.entries, List.isEmpty_iff.mp hm.1, List.isEmpty_iff.mp hm.2]
        rfl

/-- A registration that is there once is taken out. -/
lemma entries_unregister {loop : Loop β η α} (hwf : WellFormed loop) {base : Option β}
    {id : BitVec 32} {handler : η} (hbase : ¬ (base = none ∧ id ≠ anyId))
    (hone : (entries loop).countP (Registration.isFor base id handler) ≤ 1) :
    entries (espEventHandlerUnregisterWith loop base id handler) =
      (entries loop).filter fun r => !r.isFor base id handler := by
  have hany : base = none → id = anyId := fun h => by
    by_contra hid
    exact hbase ⟨h, hid⟩
  rw [espEventHandlerUnregisterWith, if_neg hbase]
  refine flatMap_removeIn LoopNode.entries (Registration.isFor base id handler)
    (fun m _ hm => absurd hm (by decide)) (fun m hmem _ hone => ?_) (fun m _ _ hok => ?_)
    (fun m hm => ?_) hone
  · exact entries_loopNodeRemove (hwf m hmem) hany hone
  · exact found_loopNode hok
  · rw [Bool.and_eq_true] at hm
    rw [LoopNode.entries, List.isEmpty_iff.mp hm.1, List.isEmpty_iff.mp hm.2]
    rfl

omit [DecidableEq β] in
lemma wellFormed_baseNodeRemove {n : BaseNode β η α} (h : n.WellFormed) (id : BitVec 32)
    (handler : η) : (baseNodeRemoveHandler n id handler).2.WellFormed := by
  rw [baseNodeRemoveHandler]
  split
  · exact ⟨h.base, h.ids, h.distinct⟩
  · refine ⟨h.base, fun it hit => ?_, ?_⟩
    · rcases mem_removeIn hit with hit | ⟨m, hm, rfl⟩
      · exact h.ids it hit
      · exact h.ids m hm
    · exact (map_removeIn_sublist IdNode.id (fun _ => rfl) n.idNodes).nodup h.distinct

lemma wellFormed_loopNodeRemove {n : LoopNode β η α} (h : ∀ b ∈ n.baseNodes, b.WellFormed)
    (base : Option β) (id : BitVec 32) (handler : η) :
    ∀ b ∈ (loopNodeRemoveHandler n base id handler).2.baseNodes, b.WellFormed := by
  rw [loopNodeRemoveHandler]
  split
  · exact h
  · intro b hb
    rcases mem_removeIn hb with hb | ⟨m, hm, rfl⟩
    · exact h b hb
    · exact wellFormed_baseNodeRemove (h m hm) id handler

lemma wellFormed_unregister {loop : Loop β η α} (h : WellFormed loop) (base : Option β)
    (id : BitVec 32) (handler : η) :
    WellFormed (espEventHandlerUnregisterWith loop base id handler) := by
  rw [espEventHandlerUnregisterWith]
  split
  · exact h
  · intro n hn
    rcases mem_removeIn hn with hn | ⟨m, hm, rfl⟩
    · exact h n hn
    · exact wellFormed_loopNodeRemove (h m hm) base id handler

end EspIdf.Event
