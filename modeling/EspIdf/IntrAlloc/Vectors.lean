/-
# Allocation of interrupts

An interrupt of a CPU has a descriptor from the time when it is first allocated or reserved.  A
descriptor stays in the list when its last handle is freed, and the next allocation of a source
looks in the list for a descriptor with the source before it searches through all interrupts.
-/
import Mathlib

namespace EspIdf.IntrAlloc

/-- There are two CPUs. -/
scoped instance neZeroCpus : NeZero 2 := ⟨two_ne_zero⟩

/-- There are 69 sources of the interrupt matrix. -/
scoped instance neZeroSources : NeZero 69 := ⟨by decide⟩

/-! ### The interrupts of a CPU -/

/-- `int_desc_flag_t`. -/
inductive IntDescFlag where
  | normal
  | resvd
  | special
deriving DecidableEq

/-- `int_type_t`. -/
inductive IntType where
  | level
  | edge
  | na
deriving DecidableEq

/-- `int_desc_t`. -/
structure IntDesc where
  level : ℕ
  type : IntType
  /-- `cpuflags[0]` and `cpuflags[1]`. -/
  cpuflags : IntDescFlag × IntDescFlag

/-- The CPU that the calls are made on, and what is fixed for it. -/
structure Config where
  /-- `xPortGetCoreID()`. -/
  cpu : Fin 2
  /-- `CONFIG_FREERTOS_CORETIMER_0` or `CONFIG_FREERTOS_CORETIMER_1`. -/
  coretimer : Fin 2
  /-- `Xthal_intlevel[n] > XCHAL_EXCM_LEVEL`. -/
  highLevel : Fin 32 → Bool

/-- `INT6RES`. -/
def Config.int6res (c : Config) : IntDescFlag := if c.coretimer = 0 then .resvd else .special

/-- `INT15RES`. -/
def Config.int15res (c : Config) : IntDescFlag := if c.coretimer = 1 then .resvd else .special

/-- `int_desc`. -/
def Config.intDescs (c : Config) : List IntDesc := [
  ⟨1, .level, .resvd, .resvd⟩,
  ⟨1, .level, .resvd, .resvd⟩,
  ⟨1, .level, .normal, .normal⟩,
  ⟨1, .level, .normal, .normal⟩,
  ⟨1, .level, .resvd, .normal⟩,
  ⟨1, .level, .resvd, .resvd⟩,
  ⟨1, .na, c.int6res, c.int6res⟩,
  ⟨1, .na, .special, .special⟩,
  ⟨1, .level, .resvd, .resvd⟩,
  ⟨1, .level, .normal, .normal⟩,
  ⟨1, .edge, .normal, .normal⟩,
  ⟨3, .na, .special, .special⟩,
  ⟨1, .level, .normal, .normal⟩,
  ⟨1, .level, .normal, .normal⟩,
  ⟨7, .level, .resvd, .resvd⟩,
  ⟨3, .na, c.int15res, c.int15res⟩,
  ⟨5, .na, .special, .special⟩,
  ⟨1, .level, .normal, .normal⟩,
  ⟨1, .level, .normal, .normal⟩,
  ⟨2, .level, .normal, .normal⟩,
  ⟨2, .level, .normal, .normal⟩,
  ⟨2, .level, .normal, .normal⟩,
  ⟨3, .edge, .resvd, .normal⟩,
  ⟨3, .level, .normal, .normal⟩,
  ⟨4, .level, .resvd, .normal⟩,
  ⟨4, .level, .resvd, .resvd⟩,
  ⟨5, .level, .normal, .resvd⟩,
  ⟨3, .level, .resvd, .resvd⟩,
  ⟨4, .edge, .normal, .normal⟩,
  ⟨3, .na, .special, .special⟩,
  ⟨4, .edge, .resvd, .resvd⟩,
  ⟨5, .level, .resvd, .resvd⟩]

/-- `int_desc[x]`. -/
def Config.intDesc (c : Config) (x : Fin 32) : IntDesc := c.intDescs.get (x.cast rfl)

/-- `int_desc[x].cpuflags[cpu]`. -/
def Config.cpuflag (c : Config) (x : Fin 32) : IntDescFlag :=
  if c.cpu = 0 then (c.intDesc x).cpuflags.1 else (c.intDesc x).cpuflags.2

/-- The sources: those of the interrupt matrix, and those of the CPU itself. -/
inductive Source where
  | mux (n : Fin 69)
  | internalTimer0
  | internalTimer1
  | internalTimer2
  | internalSw0
  | internalSw1
  | internalProfiling
deriving DecidableEq

/-- The one interrupt of a source of the CPU, which is the argument `force`. -/
def Source.force : Source → Option (Fin 32)
  | .mux _ => none
  | .internalTimer0 => some 6
  | .internalTimer1 => some 15
  | .internalTimer2 => some 16
  | .internalSw0 => some 7
  | .internalSw1 => some 29
  | .internalProfiling => some 11

/-- `INT_MUX_DISABLED_INTNO`, and the number that `intr_matrix_clear` sets. -/
def intMuxDisabledIntno : Fin 32 := 6

/-! ### Flags -/

/-- A test of flags with a mask. -/
def has {w : ℕ} (flags mask : BitVec w) : Bool := flags &&& mask != 0

/-- The bit of an interrupt. -/
def bit (n : Fin 32) : BitVec 32 := 1#32 <<< n.val

def espIntrFlagLevel1 : BitVec 32 := 1#32 <<< 1
def espIntrFlagShared : BitVec 32 := 1#32 <<< 8
def espIntrFlagEdge : BitVec 32 := 1#32 <<< 9
def espIntrFlagIram : BitVec 32 := 1#32 <<< 10
def espIntrFlagIntrdisabled : BitVec 32 := 1#32 <<< 11
def espIntrFlagLowmed : BitVec 32 := 1#32 <<< 1 ||| 1#32 <<< 2 ||| 1#32 <<< 3
def espIntrFlagHigh : BitVec 32 := 1#32 <<< 4 ||| 1#32 <<< 5 ||| 1#32 <<< 6 ||| 1#32 <<< 7
def espIntrFlagLevelmask : BitVec 32 := espIntrFlagLowmed ||| espIntrFlagHigh

def vecdescFlReserved : BitVec 16 := 1#16 <<< 0
def vecdescFlIniram : BitVec 16 := 1#16 <<< 1
def vecdescFlShared : BitVec 16 := 1#16 <<< 2
def vecdescFlNonshared : BitVec 16 := 1#16 <<< 3

/-! ### Descriptors and handles -/

/-- `shared_vector_desc_t`, with its address in `A`. -/
structure SharedVectorDesc (A : Type) where
  addr : A
  disabled : Bool
  source : Source
  statusreg : BitVec 32
  statusmask : BitVec 32
  isr : BitVec 32
  arg : BitVec 32

/-- `vector_desc_t`. -/
structure VectorDesc (A : Type) where
  flags : BitVec 16
  cpu : Fin 2
  intno : Fin 32
  source : Source
  sharedVecInfo : List (SharedVectorDesc A)

/-- `intr_handle_data_t`: the descriptor is given by its number.  The last three fields say how the
handle was allocated and whether it is enabled, and no function reads them. -/
structure IntrHandle (A : Type) where
  vectorDesc : Fin 32
  sharedVectorDesc : Option A
  source : Source
  flags : BitVec 32
  enabled : Bool

/-- The entry `handler` of `_xt_interrupt_table`. -/
inductive XtHandler where
  | unhandled
  | isr (handler arg : BitVec 32)
  | sharedIntrIsr (vd : Fin 32)
deriving DecidableEq

/-- The variables and the registers of the CPU, and the handles `H` that are live. -/
structure IntrState (A H : Type) where
  vectorDescs : List (VectorDesc A)
  xtInterruptTable : Fin 32 → XtHandler
  nonIramIntMask : BitVec 32
  intenable : BitVec 32
  intrMatrix : Fin 69 → Fin 32
  handles : H → Option (IntrHandle A)

/-- What must not happen. -/
inductive Fault where
  | assertion
  /-- Access to a descriptor that is not there. -/
  | badAccess
deriving DecidableEq

/-- What the functions return. -/
inductive EspErr where
  | ok
  | invalidArg
  | noMem
  | notFound
deriving DecidableEq

variable {A H : Type}

/-! ### The list of descriptors -/

/-- `insert_vector_desc`. -/
def insertVectorDesc (toInsert : VectorDesc A) : List (VectorDesc A) → List (VectorDesc A)
  | [] => [toInsert]
  | vd :: rest =>
    if vd.cpu > toInsert.cpu ∨ (vd.cpu = toInsert.cpu ∧ vd.intno ≥ toInsert.intno) then
      toInsert :: vd :: rest
    else vd :: insertVectorDesc toInsert rest

/-- `find_desc_for_int`. -/
def findDescForInt (intno : Fin 32) (cpu : Fin 2) (l : List (VectorDesc A)) :
    Option (VectorDesc A) :=
  l.find? fun vd => vd.cpu = cpu ∧ vd.intno = intno

/-- A descriptor after `memset`. -/
def emptyVectDesc (cpu : Fin 2) (intno : Fin 32) : VectorDesc A := ⟨0, cpu, intno, .mux 0, []⟩

/-- `get_desc_for_int`: the list with a descriptor of the interrupt, if there is memory. -/
def getDescForInt (intno : Fin 32) (cpu : Fin 2) (memory : Bool) (l : List (VectorDesc A)) :
    Option (List (VectorDesc A)) :=
  match findDescForInt intno cpu l with
  | some _ => some l
  | none => if memory then some (insertVectorDesc (emptyVectDesc cpu intno) l) else none

/-- `find_desc_for_source`. -/
def findDescForSource (source : Source) (cpu : Fin 2) :
    List (VectorDesc A) → Except Fault (Option (VectorDesc A))
  | [] => .ok none
  | vd :: rest =>
    if !has vd.flags vecdescFlShared then
      if vd.source = source ∧ cpu = vd.cpu then .ok (some vd)
      else findDescForSource source cpu rest
    else if vd.cpu = cpu then
      if vd.sharedVecInfo.isEmpty then .error .assertion
      else if vd.sharedVecInfo.any fun svd => svd.source = source then .ok (some vd)
      else findDescForSource source cpu rest
    else findDescForSource source cpu rest

/-- Write to the descriptor of an interrupt. -/
def IntrState.modify (c : Config) (s : IntrState A H) (intno : Fin 32)
    (f : VectorDesc A → VectorDesc A) : IntrState A H :=
  { s with
    vectorDescs := s.vectorDescs.map fun vd => if vd.cpu = c.cpu ∧ vd.intno = intno then f vd else vd }

/-- `xt_set_interrupt_handler`. -/
def IntrState.xtSetInterruptHandler (c : Config) (s : IntrState A H) (n : Fin 32) (f : XtHandler) :
    IntrState A H :=
  if c.highLevel n then s
  else { s with xtInterruptTable := Function.update s.xtInterruptTable n f }

/-- `intr_matrix_set`. -/
def IntrState.intrMatrixSet (s : IntrState A H) (source : Fin 69) (intno : Fin 32) :
    IntrState A H :=
  { s with intrMatrix := Function.update s.intrMatrix source intno }

/-! ### Looking for an interrupt -/

/-- `is_vect_desc_usable`. -/
def isVectDescUsable (c : Config) (table : Fin 32 → XtHandler) (vd : VectorDesc A)
    (flags : BitVec 32) (force : Option (Fin 32)) : Except Fault Bool :=
  let x := vd.intno
  if c.cpuflag x = .resvd then .ok false
  else if c.cpuflag x = .special ∧ force = none then .ok false
  else if !has flags (1#32 <<< (c.intDesc x).level) then .ok false
  else if (has flags espIntrFlagEdge ∧ (c.intDesc x).type = .level) ∨
      (!has flags espIntrFlagEdge ∧ (c.intDesc x).type = .edge) then .ok false
  else if has vd.flags vecdescFlReserved then .ok false
  else if has vd.flags vecdescFlShared ∧ has vd.flags vecdescFlNonshared then .error .assertion
  else if has vd.flags vecdescFlNonshared then .ok false
  else if has vd.flags vecdescFlShared then
    if has flags espIntrFlagShared then
      if has vd.flags vecdescFlIniram ≠ has flags espIntrFlagIram then .ok false else .ok true
    else .ok false
  else if table x ≠ .unhandled then .ok false
  else .ok true

/-- The variables of the loop of `get_available_int`. -/
structure Search where
  best : Option (Fin 32)
  bestLevel : ℕ
  bestSharedCt : ℕ

/-- The body of the loop of `get_available_int`. -/
def searchStep (c : Config) (s : IntrState A H) (flags : BitVec 32) (b : Search) (x : Fin 32) :
    Except Fault Search := do
  let vd := (findDescForInt x c.cpu s.vectorDescs).getD (emptyVectDesc 0 x)
  let level := (c.intDesc x).level
  let usable ← isVectDescUsable c s.xtInterruptTable vd flags none
  if !usable then .ok b
  else if has flags espIntrFlagShared then
    if has vd.flags vecdescFlShared then
      let no := vd.sharedVecInfo.length
      if no < b.bestSharedCt ∨ b.bestLevel > level then .ok ⟨some x, level, no⟩ else .ok b
    else if b.best = none then
      if b.bestLevel > level then .ok { b with best := some x, bestLevel := level } else .ok b
    else .ok b
  else if b.bestLevel > level then .ok { b with best := some x, bestLevel := level }
  else .ok b

/-- `get_available_int`. -/
def getAvailableInt (c : Config) (s : IntrState A H) (flags : BitVec 32) (source : Source) :
    Except Fault (Option (Fin 32)) := do
  let flags := if !has flags espIntrFlagLevelmask then flags ||| espIntrFlagLowmed else flags
  match ← findDescForSource source c.cpu s.vectorDescs with
  | some vd =>
    if source.force ≠ none ∧ source.force ≠ some vd.intno then .ok none
    else
      let usable ← isVectDescUsable c s.xtInterruptTable vd flags source.force
      .ok (if usable then some vd.intno else none)
  | none =>
    match source.force with
    | some force =>
      let vd := (findDescForInt force c.cpu s.vectorDescs).getD (emptyVectDesc 0 force)
      let usable ← isVectDescUsable c s.xtInterruptTable vd flags source.force
      .ok (if usable then some vd.intno else none)
    | none =>
      let b ← (List.finRange 32).foldlM (searchStep c s flags) ⟨none, 9, 2 ^ 31 - 1⟩
      .ok b.best

/-! ### Enabling and disabling -/

/-- The descriptor of a handle. -/
def IntrState.vectorDesc (c : Config) (s : IntrState A H) (handle : IntrHandle A) :
    Except Fault (VectorDesc A) :=
  match findDescForInt handle.vectorDesc c.cpu s.vectorDescs with
  | some vd => .ok vd
  | none => .error .badAccess

/-- The shared descriptor at an address. -/
def VectorDesc.shared [DecidableEq A] (vd : VectorDesc A) (addr : A) :
    Except Fault (SharedVectorDesc A) :=
  match vd.sharedVecInfo.find? fun svd => svd.addr = addr with
  | some svd => .ok svd
  | none => .error .badAccess

/-- Write the field `disabled` of the shared descriptor at an address. -/
def VectorDesc.setDisabled [DecidableEq A] (vd : VectorDesc A) (addr : A) (disabled : Bool) :
    VectorDesc A :=
  { vd with
    sharedVecInfo := vd.sharedVecInfo.map fun svd =>
      if svd.addr = addr then { svd with disabled } else svd }

/-- `esp_intr_enable`. -/
def IntrState.enable [DecidableEq A] (c : Config) (s : IntrState A H) (handle : IntrHandle A) :
    Except Fault (EspErr × IntrState A H) := do
  let vd ← s.vectorDesc c handle
  let (source, s) ← match handle.sharedVectorDesc with
    | some addr => do
      let svd ← vd.shared addr
      pure (svd.source, s.modify c handle.vectorDesc fun vd => vd.setDisabled addr false)
    | none => pure (vd.source, s)
  match source with
  | .mux n => .ok (.ok, s.intrMatrixSet n vd.intno)
  | _ => .ok (.ok, { s with intenable := s.intenable ||| bit vd.intno })

/-- `esp_intr_disable`. -/
def IntrState.disable [DecidableEq A] (c : Config) (s : IntrState A H) (handle : IntrHandle A) :
    Except Fault (EspErr × IntrState A H) := do
  let vd ← s.vectorDesc c handle
  let (source, disabled, s) ← match handle.sharedVectorDesc with
    | some addr => do
      let svd ← vd.shared addr
      let vd := vd.setDisabled addr true
      if vd.sharedVecInfo.isEmpty then Except.error Fault.assertion
      else
        let disabled := !vd.sharedVecInfo.any fun svd' => svd'.source = svd.source ∧ !svd'.disabled
        pure (svd.source, disabled, s.modify c handle.vectorDesc fun vd => vd.setDisabled addr true)
    | none => pure (vd.source, true, s)
  match source with
  | .mux n => .ok (.ok, if disabled then s.intrMatrixSet n intMuxDisabledIntno else s)
  | _ => .ok (.ok, { s with intenable := s.intenable &&& ~~~bit vd.intno })

/-! ### Allocating, freeing and reserving -/

/-- The arguments of `esp_intr_alloc_intrstatus`. -/
structure AllocArgs where
  source : Source
  flags : BitVec 32
  intrstatusreg : BitVec 32
  intrstatusmask : BitVec 32
  handler : BitVec 32
  arg : BitVec 32

/-- What the allocations of `esp_intr_alloc_intrstatus` give, in their order. -/
structure AllocMemory (A H : Type) where
  ret : Option H
  vectorDesc : Bool
  shVec : Option A

/-- The checks of the arguments. -/
def AllocArgs.valid (a : AllocArgs) : Bool :=
  if has a.flags espIntrFlagShared ∧ has a.flags espIntrFlagEdge then false
  else if has a.flags espIntrFlagHigh ∧ a.handler ≠ 0 then false
  else if has a.flags espIntrFlagShared ∧ (a.handler = 0 ∨ a.source.force ≠ none) then false
  else if a.intrstatusreg ≠ 0 ∧ a.intrstatusmask = 0 then false
  else if has a.flags espIntrFlagIram ∧ 0x400C2000 ≤ a.handler.toInt ∧
      a.handler.toInt < 0x50000000 then false
  else true

/-- The flags with the levels that are accepted. -/
def AllocArgs.levelFlags (a : AllocArgs) : BitVec 32 :=
  if !has a.flags espIntrFlagLevelmask then
    if has a.flags espIntrFlagShared then a.flags ||| espIntrFlagLevel1
    else a.flags ||| espIntrFlagLowmed
  else a.flags

/-- `esp_intr_alloc_intrstatus` after the interrupt is given its handler. -/
def IntrState.allocEnd [DecidableEq A] [DecidableEq H] (c : Config) (s : IntrState A H)
    (source : Source) (flags : BitVec 32) (intr : Fin 32) (ret : H) :
    Except Fault (EspErr × IntrState A H) := do
  let s :=
    if has flags espIntrFlagIram then
      { s.modify c intr fun vd => { vd with flags := vd.flags ||| vecdescFlIniram } with
        nonIramIntMask := s.nonIramIntMask &&& ~~~bit intr }
    else
      { s.modify c intr fun vd => { vd with flags := vd.flags &&& ~~~vecdescFlIniram } with
        nonIramIntMask := s.nonIramIntMask ||| bit intr }
  let s := match source with
    | .mux n => s.intrMatrixSet n intr
    | _ => s
  let sharedVectorDesc := match findDescForInt intr c.cpu s.vectorDescs with
    | some vd => vd.sharedVecInfo.head?.map SharedVectorDesc.addr
    | none => none
  let handle : IntrHandle A :=
    { vectorDesc := intr, sharedVectorDesc, source, flags
      enabled := !has flags espIntrFlagIntrdisabled }
  let s := { s with intenable := s.intenable ||| bit intr }
  let s ←
    if has flags espIntrFlagIntrdisabled then do
      let (_, s) ← s.disable c handle
      pure s
    else pure s
  .ok (.ok, { s with handles := Function.update s.handles ret (some handle) })

/-- `esp_intr_alloc_intrstatus`. -/
def IntrState.alloc [DecidableEq A] [DecidableEq H] (c : Config) (s : IntrState A H) (a : AllocArgs)
    (m : AllocMemory A H) : Except Fault (EspErr × IntrState A H) := do
  if !a.valid then .ok (.invalidArg, s)
  else
    match m.ret with
    | none => .ok (.noMem, s)
    | some ret =>
      match ← getAvailableInt c s a.levelFlags a.source with
      | none => .ok (.notFound, s)
      | some intr =>
        match getDescForInt intr c.cpu m.vectorDesc s.vectorDescs with
        | none => .ok (.noMem, s)
        | some vectorDescs =>
          let s := { s with vectorDescs }
          if has a.levelFlags espIntrFlagShared then
            match m.shVec with
            | none => .ok (.noMem, s)
            | some addr =>
              let shVec : SharedVectorDesc A :=
                { addr, disabled := false, source := a.source, statusreg := a.intrstatusreg
                  statusmask := a.intrstatusmask, isr := a.handler, arg := a.arg }
              let s := s.modify c intr fun vd =>
                { vd with
                  sharedVecInfo := shVec :: vd.sharedVecInfo
                  flags := vd.flags ||| vecdescFlShared }
              (s.xtSetInterruptHandler c intr (.sharedIntrIsr intr)).allocEnd c a.source
                a.levelFlags intr ret
          else
            let s := s.modify c intr fun vd =>
              { vd with flags := vecdescFlNonshared, source := a.source }
            let s :=
              if a.handler ≠ 0 then s.xtSetInterruptHandler c intr (.isr a.handler a.arg) else s
            s.allocEnd c a.source a.levelFlags intr ret

/-- `esp_intr_free`. -/
def IntrState.free [DecidableEq A] [DecidableEq H] (c : Config) (s : IntrState A H) (ret : H)
    (handle : IntrHandle A) : Except Fault (EspErr × IntrState A H) := do
  let (_, s) ← s.disable c handle
  let vd ← s.vectorDesc c handle
  let svds := vd.sharedVecInfo.eraseP fun svd => some svd.addr = handle.sharedVectorDesc
  let (freeSharedVector, s) ←
    if has vd.flags vecdescFlShared then
      if vd.sharedVecInfo.isEmpty then Except.error Fault.assertion
      else
        pure (svds.isEmpty, s.modify c handle.vectorDesc fun vd => { vd with sharedVecInfo := svds })
    else pure (false, s)
  let s :=
    if has vd.flags vecdescFlNonshared ∨ freeSharedVector then
      let s := s.xtSetInterruptHandler c vd.intno .unhandled
      -- the operator before the mask is `!` and not `~`, so all flags are cleared
      let s := s.modify c handle.vectorDesc fun vd => { vd with flags := vd.flags &&& 0 }
      { s with nonIramIntMask := s.nonIramIntMask &&& ~~~bit vd.intno }
    else s
  .ok (.ok, { s with handles := Function.update s.handles ret none })

/-- `esp_intr_reserve`. -/
def IntrState.reserve (c : Config) (s : IntrState A H) (intno : ℕ) (memory : Bool) :
    EspErr × IntrState A H :=
  if h : intno < 32 then
    match getDescForInt ⟨intno, h⟩ c.cpu memory s.vectorDescs with
    | none => (.noMem, s)
    | some vectorDescs =>
      (.ok, { s with vectorDescs }.modify c ⟨intno, h⟩ fun vd =>
        { vd with flags := vecdescFlReserved })
  else (.invalidArg, s)

/-! ### Runs -/

/-- The calls. -/
inductive IntrEvent (A H : Type) where
  | reserve (intno : ℕ) (memory : Bool)
  | alloc (a : AllocArgs) (m : AllocMemory A H)
  | enable (ret : H)
  | disable (ret : H)
  | free (ret : H)

/-- What a call does; the handles of the calls must be live. -/
def IntrState.step [DecidableEq A] [DecidableEq H] (c : Config) (s : IntrState A H) :
    IntrEvent A H → Except Fault (EspErr × IntrState A H)
  | .reserve intno memory => .ok (s.reserve c intno memory)
  | .alloc a m => s.alloc c a m
  | .enable ret =>
    match s.handles ret with
    | some handle => do
      let (err, s) ← s.enable c handle
      .ok (err, { s with
        handles := Function.update s.handles ret (some { handle with enabled := true }) })
    | none => .error .badAccess
  | .disable ret =>
    match s.handles ret with
    | some handle => do
      let (err, s) ← s.disable c handle
      .ok (err, { s with
        handles := Function.update s.handles ret (some { handle with enabled := false }) })
    | none => .error .badAccess
  | .free ret =>
    match s.handles ret with
    | some handle => s.free c ret handle
    | none => .error .badAccess

/-- The calls that a run may make: interrupts with a live handle are not reserved, memory that is
in use is not allocated, and handles are live. -/
def IntrEvent.Allowed (s : IntrState A H) : IntrEvent A H → Prop
  | .reserve intno _ => ∀ ret h, s.handles ret = some h → h.vectorDesc.val ≠ intno
  | .alloc _ m => (∀ ret, m.ret = some ret → s.handles ret = none) ∧
    ∀ addr, m.shVec = some addr → ∀ vd ∈ s.vectorDescs, ∀ svd ∈ vd.sharedVecInfo, svd.addr ≠ addr
  | .enable ret => ∃ h, s.handles ret = some h
  | .disable ret => ∃ h, s.handles ret = some h
  | .free ret => ∃ h, s.handles ret = some h

/-- The variables after startup, with the handlers that are set then. -/
def IntrState.init (table : Fin 32 → XtHandler) : IntrState A H where
  vectorDescs := []
  xtInterruptTable := table
  nonIramIntMask := 0
  intenable := 0
  intrMatrix _ := intMuxDisabledIntno
  handles _ := none

end EspIdf.IntrAlloc
