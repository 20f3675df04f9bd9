/-
# Dispatch refines the list of registrations

The tree of an event loop runs the list of registrations, in its order, as long as a handler
that is registered again is found where the call adds it.  Where a handler for more events has
started a new node in between, the call does not find it and adds it a second time.
-/
import EspIdf.Event.Tree

namespace EspIdf.Event

open EspIdf.Lib

variable {β η α : Type} [DecidableEq β] [DecidableEq η]

/-! ### Calls -/

/-- The calls that change the handlers of a loop. -/
inductive Call (β η α : Type) where
  | register (base : Option β) (id : BitVec 32) (handler : η) (arg : α)
  | unregister (base : Option β) (id : BitVec 32) (handler : η)

/-- A call on the loop. -/
def stepLoop (loop : Loop β η α) : Call β η α → Loop β η α
  | .register base id handler arg => espEventHandlerRegisterWith loop base id handler arg
  | .unregister base id handler => espEventHandlerUnregisterWith loop base id handler

/-- A call on the list. -/
def stepList (regs : List (Registration β η α)) : Call β η α → List (Registration β η α)
  | .register base id handler arg => register regs base id handler arg
  | .unregister base id handler => unregister regs base id handler

/-- Every event that can be posted runs the handlers of the list. -/
def Refines (loop : Loop β η α) (regs : List (Registration β η α)) : Prop :=
  ∀ base id, id ≠ anyId → espEventLoopRun loop base id = run regs base id

/-- The loop runs the list after every one of the calls. -/
def AlwaysRefines : Loop β η α → List (Registration β η α) → List (Call β η α) → Prop
  | loop, regs, [] => Refines loop regs
  | loop, regs, call :: calls =>
    Refines loop regs ∧ AlwaysRefines (stepLoop loop call) (stepList regs call) calls

/-- What is registered already is found by the call. -/
def Call.Found (loop : Loop β η α) (regs : List (Registration β η α)) : Call β η α → Prop
  | .register base id handler _ => ¬ (base = none ∧ id ≠ anyId) →
      regs.any (Registration.isFor base id handler) = true → holds loop base id handler = true
  | .unregister _ _ _ => True

/-- In every call what is registered already is found. -/
def AlwaysFound : Loop β η α → List (Registration β η α) → List (Call β η α) → Prop
  | _, _, [] => True
  | loop, regs, call :: calls =>
    call.Found loop regs ∧ AlwaysFound (stepLoop loop call) (stepList regs call) calls

/-! ### The tree and the list -/

/-- The tree holds the registrations of the list, each once, and in its order as far as events
can tell. -/
structure Agrees (loop : Loop β η α) (regs : List (Registration β η α)) : Prop where
  wf : WellFormed loop
  perm : (entries loop).Perm regs
  once : ∀ base id handler, (entries loop).countP (Registration.isFor base id handler) ≤ 1
  order : ∀ b i, (entries loop).filter (Registration.matches b i) =
    regs.filter (Registration.matches b i)

variable {loop : Loop β η α} {regs : List (Registration β η α)}

lemma Agrees.refines (h : Agrees loop regs) : Refines loop regs := by
  intro b i _
  rw [espEventLoopRun_eq h.wf, run, run, h.order]

lemma agrees_nil : Agrees ([] : Loop β η α) [] where
  wf := by simp [WellFormed]
  perm := List.Perm.refl _
  once := fun _ _ _ => Nat.zero_le 1
  order := fun _ _ => rfl

lemma Agrees.unregister (h : Agrees loop regs) (base : Option β) (id : BitVec 32) (handler : η) :
    Agrees (espEventHandlerUnregisterWith loop base id handler)
      (unregister regs base id handler) := by
  rw [Event.unregister]
  by_cases hbase : base = none ∧ id ≠ anyId
  · rw [if_pos hbase, espEventHandlerUnregisterWith, if_pos hbase]
    exact h
  · have hentries := entries_unregister h.wf hbase (h.once base id handler)
    rw [if_neg hbase]
    refine ⟨wellFormed_unregister h.wf base id handler, ?_, fun base' id' handler' => ?_,
      fun b i => ?_⟩
    · rw [hentries]
      exact h.perm.filter _
    · rw [hentries]
      exact Nat.le_trans List.filter_sublist.countP_le (h.once base' id' handler')
    · rw [hentries, List.filter_filter, List.filter_filter]
      simp only [Bool.and_comm (Registration.matches b i _)]
      rw [← List.filter_filter, ← List.filter_filter, h.order]

/-! ### Registering -/

@[simp] lemma isFor_update {base base' : Option β} {id id' : BitVec 32} {handler handler' : η}
    {arg : α} {r : Registration β η α} :
    (r.update base id handler arg).isFor base' id' handler' = r.isFor base' id' handler' := by
  rw [Registration.update]
  split <;> rfl

@[simp] lemma matches_update {base : Option β} {id : BitVec 32} {handler : η} {arg : α} {b : β}
    {i : BitVec 32} {r : Registration β η α} :
    (r.update base id handler arg).matches b i = r.matches b i := by
  rw [Registration.update]
  split <;> rfl

lemma filter_map_update (T : List (Registration β η α)) (base : Option β) (id : BitVec 32)
    (handler : η) (arg : α) (b : β) (i : BitVec 32) :
    (T.map (Registration.update base id handler arg)).filter (Registration.matches b i) =
      (T.filter (Registration.matches b i)).map (Registration.update base id handler arg) := by
  rw [List.filter_map]
  congr 2
  funext r
  exact matches_update

/-- A replaced registration is the only one that an update changes. -/
lemma update_of_replaced {base : Option β} {id : BitVec 32} {handler : η} (arg : α)
    {before after : List (Registration β η α)} {x : Registration β η α}
    (hx : x.isFor base id handler = true)
    (hone : (before ++ x :: after).countP (Registration.isFor base id handler) ≤ 1) :
    (before ++ x :: after).map (Registration.update base id handler arg) =
      before ++ ⟨base, id, handler, arg⟩ :: after := by
  rw [List.countP_append, List.countP_cons, if_pos hx] at hone
  have hself : ∀ {L : List (Registration β η α)},
      L.countP (Registration.isFor base id handler) = 0 →
        L.map (Registration.update base id handler arg) = L := fun {L} h => by
    conv_rhs => rw [← List.map_id L]
    apply List.map_congr_left
    intro r hr
    rw [Registration.update, if_neg (List.countP_eq_zero.mp h r hr)]
    rfl
  have hxeq : x.update base id handler arg = ⟨base, id, handler, arg⟩ := by
    rw [Registration.update, if_pos hx]
    simp only [Registration.isFor, Bool.and_eq_true, beq_iff_eq] at hx
    rw [hx.1.1, hx.1.2, hx.2]
  rw [List.map_append, List.map_cons, hxeq, hself (by omega), hself (by omega)]

lemma any_isFor_iff (h : Agrees loop regs) (base : Option β) (id : BitVec 32) (handler : η) :
    regs.any (Registration.isFor base id handler) = true ↔
      (entries loop).countP (Registration.isFor base id handler) ≠ 0 := by
  rw [h.perm.countP_eq, ← Nat.pos_iff_ne_zero, List.countP_pos_iff, List.any_eq_true]

/-- A registration that is new, or found where it is added. -/
lemma Agrees.register (h : Agrees loop regs) {base : Option β} {id : BitVec 32} {handler : η}
    {arg : α} (hfound : (Call.register base id handler arg).Found loop regs) :
    Agrees (espEventHandlerRegisterWith loop base id handler arg)
      (register regs base id handler arg) := by
  rw [Event.register]
  by_cases hbase : base = none ∧ id ≠ anyId
  · rw [if_pos hbase, espEventHandlerRegisterWith, if_pos hbase]
    exact h
  · have hwf := wellFormed_register h.wf base id handler arg
    have hadded := added_loop h.wf handler arg hbase
    have hone := h.once base id handler
    have hany := any_isFor_iff h base id handler
    rw [if_neg hbase]
    generalize hT : entries loop = T at hadded
    generalize hT' : entries (espEventHandlerRegisterWith loop base id handler arg) = T' at hadded
    generalize hholds : holds loop base id handler = found at hadded
    cases hadded with
    | replaced before after x hx =>
      -- the call replaces the one registration
      rw [hT] at hone hany
      have hupdate := update_of_replaced arg hx hone
      have hreg : regs.any (Registration.isFor base id handler) = true := by
        rw [hany, List.countP_append, List.countP_cons, if_pos hx]
        omega
      rw [if_pos hreg]
      refine ⟨hwf, ?_, fun base' id' handler' => ?_, fun b i => ?_⟩
      · rw [hT', ← hupdate, ← hT]
        exact h.perm.map _
      · rw [hT', ← hupdate, ← hT, List.countP_map]
        refine Nat.le_trans (Nat.le_of_eq ?_) (h.once base' id' handler')
        congr 1
        funext r
        exact isFor_update
      · rw [hT', ← hupdate, ← hT, filter_map_update, filter_map_update, h.order]
    | inserted before after hafter =>
      -- the registration is new, as the call does not find it
      have hnew : ¬ regs.any (Registration.isFor base id handler) = true := by
        intro hreg
        have := hfound hbase hreg
        rw [hholds] at this
        exact absurd this (by decide)
      have hzero : (entries loop).countP (Registration.isFor base id handler) = 0 := by
        by_contra hne
        exact hnew (hany.mpr hne)
      rw [if_neg hnew]
      refine ⟨hwf, ?_, fun base' id' handler' => ?_, fun b i => ?_⟩
      · rw [hT']
        refine List.perm_middle.trans ?_
        rw [← hT]
        exact ((h.perm.cons _).trans (List.perm_append_singleton _ _).symm)
      · rw [hT', List.countP_append, List.countP_cons]
        have hold := h.once base' id' handler'
        rw [hT, List.countP_append] at hold
        by_cases hsame : Registration.isFor base' id' handler'
            (⟨base, id, handler, arg⟩ : Registration β η α) = true
        · simp only [Registration.isFor, Bool.and_eq_true, beq_iff_eq] at hsame
          obtain ⟨⟨rfl, rfl⟩, rfl⟩ := hsame
          rw [hT, List.countP_append] at hzero
          split <;> omega
        · rw [if_neg hsame]
          omega
      · rw [hT', List.filter_append, List.filter_cons, List.filter_append, ← h.order, hT,
          List.filter_append]
        by_cases hmatch : Registration.matches b i
            (⟨base, id, handler, arg⟩ : Registration β η α) = true
        · have hnil : after.filter (Registration.matches b i) = [] := by
            rw [List.filter_eq_nil_iff]
            exact fun x hx hxm => hafter x hx ⟨b, i, hxm, hmatch⟩
          rw [if_pos hmatch, hnil, List.append_nil, List.filter_cons, if_pos hmatch]
          rfl
        · rw [if_neg hmatch, List.filter_cons, if_neg hmatch]
          simp

/-- A registration that is not found where it is added is there twice. -/
lemma not_refines_of_not_found [Inhabited β] (h : Agrees loop regs) {base : Option β}
    {id : BitVec 32} {handler : η} {arg : α}
    (hnot : ¬ (Call.register base id handler arg).Found loop regs) :
    ¬ Refines (espEventHandlerRegisterWith loop base id handler arg)
      (register regs base id handler arg) := by
  rw [Call.Found, Classical.not_imp, Classical.not_imp] at hnot
  obtain ⟨hbase, hreg, hholds⟩ := hnot
  have hany : base = none → id = anyId := fun hb => by
    by_contra hid
    exact hbase ⟨hb, hid⟩
  -- an event that the registration is for
  obtain ⟨b, i, hi, hmatch⟩ : ∃ b i, i ≠ anyId ∧
      Registration.matches b i (⟨base, id, handler, arg⟩ : Registration β η α) = true := by
    refine ⟨base.getD default, if id = anyId then 0 else id, ?_, ?_⟩
    · split
      · decide
      · assumption
    · cases base with
      | none => simp [Registration.matches, hany rfl]
      | some c =>
        by_cases hid : id = anyId
        · simp [Registration.matches, hid]
        · simp [Registration.matches, hid]
  have hwf := wellFormed_register h.wf base id handler arg
  have hadded := added_loop h.wf handler arg hbase
  rw [Bool.eq_false_iff.mpr hholds] at hadded
  have horder := congrArg List.length (h.order b i)
  intro hrefines
  have hlen := congrArg List.length (hrefines b i hi)
  rw [espEventLoopRun_eq hwf, Event.register, if_neg hbase, if_pos hreg, run, run,
    filter_map_update, List.length_map, List.length_map, List.length_map] at hlen
  generalize entries loop = T at hadded horder
  generalize entries (espEventHandlerRegisterWith loop base id handler arg) = T' at hadded hlen
  cases hadded with
  | inserted before after _ =>
    rw [List.filter_append, List.filter_cons, if_pos hmatch, List.length_append,
      List.length_cons] at hlen
    rw [List.filter_append, List.length_append] at horder
    omega

/-! ### The result -/

lemma alwaysRefines_iff [Inhabited β] {calls : List (Call β η α)} :
    ∀ {loop : Loop β η α} {regs : List (Registration β η α)}, Agrees loop regs →
      (AlwaysRefines loop regs calls ↔ AlwaysFound loop regs calls) := by
  induction calls with
  | nil => exact fun h => ⟨fun _ => trivial, fun _ => h.refines⟩
  | cons call calls ih =>
    intro loop regs h
    cases call with
    | unregister base id handler =>
      have hnext := ih (h.unregister base id handler)
      exact ⟨fun hr => ⟨trivial, hnext.mp hr.2⟩, fun hf => ⟨h.refines, hnext.mpr hf.2⟩⟩
    | register base id handler arg =>
      constructor
      · rintro ⟨-, hrest⟩
        have hfound : (Call.register base id handler arg).Found loop regs := by
          by_contra hnot
          -- the next state does not refine the list
          refine not_refines_of_not_found h hnot ?_
          cases calls with
          | nil => exact hrest
          | cons next rest => exact hrest.1
        exact ⟨hfound, (ih (h.register hfound)).mp hrest⟩
      · rintro ⟨hfound, hrest⟩
        exact ⟨h.refines, (ih (h.register hfound)).mpr hrest⟩

/-- From an empty loop on, the handlers that run are those of the list of registrations after
every call exactly if every handler that is registered again is found where it is added. -/
theorem dispatch_refines_iff [Inhabited β] (calls : List (Call β η α)) :
    AlwaysRefines ([] : Loop β η α) [] calls ↔ AlwaysFound ([] : Loop β η α) [] calls :=
  alwaysRefines_iff agrees_nil

/-- A handler for all events is registered, one for the events of a base, and the first one
again: an event of the base runs it twice, with the old and the new argument. -/
theorem handler_runs_twice :
    ¬ AlwaysRefines ([] : Loop Bool Bool ℕ) []
        [.register none anyId true 1, .register (some true) 5#32 false 0,
          .register none anyId true 2] ∧
      ((espEventLoopRun (espEventHandlerRegisterWith (espEventHandlerRegisterWith
        (espEventHandlerRegisterWith ([] : Loop Bool Bool ℕ) none anyId true 1) (some true) 5#32
          false 0) none anyId true 2) true 5#32).map fun it => (it.handler, it.arg)) =
        [(true, 1), (false, 0), (true, 2)] := by
  refine ⟨?_, by decide⟩
  rintro ⟨-, -, -, hrefines⟩
  have hlen := congrArg List.length (hrefines true 5#32 (by decide))
  exact absurd hlen (by decide)

end EspIdf.Event
