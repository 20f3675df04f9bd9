/-
# The virtual filesystem tables

Registered filesystems stand in `s_vfs`, and `s_fd_table` maps a descriptor to the filesystem
that it belongs to and to the local descriptor there.  A descriptor is claimed by a successful
open and released by closing it, or it is claimed permanently for a filesystem.
-/
import Mathlib

namespace EspIdf.Vfs

/-- `VFS_MAX_COUNT`. -/
def vfsMaxCount : ℕ := 8

/-- `ESP_VFS_PATH_MAX`. -/
def espVfsPathMax : ℕ := 15

/-- `fd_table_t`. -/
structure FdEntry where
  permanent : Bool
  vfsIndex : ℤ
  localFd : ℕ
deriving DecidableEq

/-- `FD_TABLE_ENTRY_UNUSED`; the local descriptor `-1` is stored in eight bits. -/
def FdEntry.unused : FdEntry := ⟨false, -1, 255⟩

/-- `vfs_entry_t`: the functions and the context of a filesystem, and where it is mounted. -/
structure Entry (D : Type) where
  vfs : D
  pathPrefix : List Char
  /-- Without a length the prefix is not recognised, which is `LEN_PATH_PREFIX_IGNORED`. -/
  pathPrefixLen : Option ℕ
  /-- The index in `s_vfs`. -/
  offset : ℕ
deriving DecidableEq

/-- `s_vfs`, `s_vfs_count` and `s_fd_table`. -/
@[ext]
structure State (D : Type) where
  vfs : ℕ → Option (Entry D)
  vfsCount : ℕ
  fdTable : ℕ → FdEntry

/-- The error codes that the functions return. -/
inductive Err where
  | invalidArg
  | noMem
  | invalidState
  /-- The array `s_vfs` is overrun. -/
  | overrun
deriving DecidableEq

variable {D : Type}

/-- The tables at the start. -/
def State.init : State D := ⟨fun _ => none, 0, fun _ => .unused⟩

/-- Set an entry of `s_vfs`. -/
def State.setVfs (s : State D) (i : ℕ) (e : Option (Entry D)) : State D :=
  { s with vfs := Function.update s.vfs i e }

/-- Set an entry of `s_fd_table`. -/
def State.setFd (s : State D) (fd : ℕ) (e : FdEntry) : State D :=
  { s with fdTable := Function.update s.fdTable fd e }

/-! ### Registering filesystems -/

/-- The loop of `esp_vfs_register_common` that looks for a free entry. -/
def freeIndex (s : State D) : ℕ :=
  ((List.range s.vfsCount).find? fun i => (s.vfs i).isNone).getD s.vfsCount

/-- The check of `esp_vfs_register_common`.  `before` is the character that stands in front of
the string in memory, which is looked at if the string is empty. -/
def pathAccepted (basePath : List Char) (before : Char) : Bool :=
  !((basePath.length ≠ 0 ∧ basePath.length < 2) ∨ basePath.length > espVfsPathMax) &&
    !((basePath.length > 0 ∧ basePath.head? ≠ some '/') ∨ basePath.getLast?.getD before = '/')

/-- `esp_vfs_register_common`, after the check of the path.  `mem` is whether the allocation
succeeds. -/
def espVfsRegisterCommon (s : State D) (pathPrefix : List Char) (len : Option ℕ) (vfs : D)
    (mem : Bool) : Except Err ℕ × State D :=
  if !mem then (.error .noMem, s)
  else
    let index := freeIndex s
    if index = s.vfsCount ∧ s.vfsCount ≥ vfsMaxCount then (.error .noMem, s)
    else
      (.ok index,
        { s with
          vfs := Function.update s.vfs index (some ⟨vfs, pathPrefix, len, index⟩)
          vfsCount := if index = s.vfsCount then s.vfsCount + 1 else s.vfsCount })

/-- `esp_vfs_register`. -/
def espVfsRegister (s : State D) (basePath : List Char) (before : Char) (vfs : D) (mem : Bool) :
    Except Err ℕ × State D :=
  if pathAccepted basePath before then
    espVfsRegisterCommon s basePath (some basePath.length) vfs mem
  else (.error .invalidArg, s)

/-- `esp_vfs_register_with_id`.  `idPtr` is whether there is a place for the id. -/
def espVfsRegisterWithId (s : State D) (vfs : D) (mem idPtr : Bool) : Except Err ℕ × State D :=
  if idPtr then espVfsRegisterCommon s [] none vfs mem else (.error .invalidArg, s)

/-- Release the descriptors below `fd` from `minFd` on that belong to a filesystem. -/
def releaseFrom (s : State D) (index minFd fd : ℕ) : State D :=
  { s with
    fdTable := fun j =>
      if minFd ≤ j ∧ j < fd ∧ (s.fdTable j).vfsIndex = index then .unused else s.fdTable j }

/-- The loop of `esp_vfs_register_fd_range`, for `left` descriptors from `fd` on.  When a
descriptor is in use, the entry of `s_vfs` with its number is freed. -/
def claimRange (index minFd : ℕ) : ℕ → ℕ → State D → Except Err ℕ × State D
  | 0, _, s => (.ok index, s)
  | left + 1, fd, s =>
    if (s.fdTable fd).vfsIndex ≠ -1 then
      if fd < vfsMaxCount then (.error .invalidArg, releaseFrom (s.setVfs fd none) index minFd fd)
      else (.error .overrun, s)
    else claimRange index minFd left (fd + 1) (s.setFd fd ⟨true, index, fd % 256⟩)

/-- `esp_vfs_register_fd_range`. -/
def espVfsRegisterFdRange (maxFds : ℕ) (s : State D) (vfs : D) (mem : Bool) (minFd maxFd : ℤ) :
    Except Err ℕ × State D :=
  if minFd < 0 ∨ maxFd < 0 ∨ minFd > maxFds ∨ maxFd > maxFds ∨ minFd > maxFd then
    (.error .invalidArg, s)
  else
    match espVfsRegisterCommon s [] none vfs mem with
    | (.ok index, s') =>
      claimRange index minFd.toNat (maxFd.toNat - minFd.toNat) minFd.toNat s'
    | (.error e, s') => (.error e, s')

/-- The filesystem that is mounted at a path. -/
def Entry.isAt (basePath : List Char) (e : Entry D) : Bool :=
  e.pathPrefixLen == some basePath.length && basePath == e.pathPrefix.take basePath.length

/-- `esp_vfs_unregister`. -/
def espVfsUnregister (s : State D) (basePath : List Char) : Except Err Unit × State D :=
  match (List.range s.vfsCount).find? fun i => (s.vfs i).any (Entry.isAt basePath) with
  | some i =>
    (.ok (),
      { s with
        vfs := Function.update s.vfs i none
        fdTable := fun j => if (s.fdTable j).vfsIndex = i then .unused else s.fdTable j })
  | none => (.error .invalidState, s)

/-! ### Permanent descriptors -/

/-- The loops that look for an unused descriptor. -/
def freeFd (maxFds : ℕ) (s : State D) : Option ℕ :=
  (List.range maxFds).find? fun i => (s.fdTable i).vfsIndex == -1

/-- `esp_vfs_register_fd`.  `fdPtr` is whether there is a place for the descriptor. -/
def espVfsRegisterFd (maxFds : ℕ) (s : State D) (vfsId : ℤ) (fdPtr : Bool) :
    Except Err ℕ × State D :=
  if vfsId < 0 ∨ vfsId ≥ s.vfsCount ∨ fdPtr = false then (.error .invalidArg, s)
  else
    match freeFd maxFds s with
    | some i => (.ok i, s.setFd i ⟨true, vfsId, i % 256⟩)
    | none => (.error .noMem, s)

/-- `esp_vfs_unregister_fd`. -/
def espVfsUnregisterFd (maxFds : ℕ) (s : State D) (vfsId fd : ℤ) : Except Err Unit × State D :=
  if vfsId < 0 ∨ vfsId ≥ s.vfsCount ∨ fd < 0 ∨ fd ≥ maxFds then (.error .invalidArg, s)
  else
    let item := s.fdTable fd.toNat
    if item.permanent = true ∧ item.vfsIndex = vfsId ∧ (item.localFd : ℤ) = fd then
      (.ok (), s.setFd fd.toNat .unused)
    else (.error .invalidArg, s)

/-! ### Finding the filesystem -/

/-- `get_vfs_for_index`. -/
def getVfsForIndex (s : State D) (index : ℤ) : Option (Entry D) :=
  if index < 0 ∨ index ≥ s.vfsCount then none else s.vfs index.toNat

/-- `get_vfs_for_fd` and `get_local_fd`: where a call on a descriptor goes. -/
def target (maxFds : ℕ) (s : State D) (fd : ℤ) : Option (Entry D × ℕ) :=
  if 0 ≤ fd ∧ fd < maxFds then
    (getVfsForIndex s (s.fdTable fd.toNat).vfsIndex).map fun vfs =>
      (vfs, (s.fdTable fd.toNat).localFd)
  else none

/-- One round of `get_vfs_for_path`: the best match so far and the length of its prefix. -/
def matchPath (path : List Char) (best : Option (Entry D) × ℤ) (vfs : Option (Entry D)) :
    Option (Entry D) × ℤ :=
  match vfs with
  | none => best
  | some e =>
    match e.pathPrefixLen with
    | none => best
    | some len =>
      if path.length < len ∨ path.take len ≠ e.pathPrefix.take len then best
      else if len = 0 ∧ best.1 = none then (some e, best.2)
      else if path.length > len ∧ path[len]? ≠ some '/' then best
      else if best.2 < len then (some e, len)
      else best

/-- `get_vfs_for_path`. -/
def getVfsForPath (s : State D) (path : List Char) : Option (Entry D) :=
  (((List.range s.vfsCount).map s.vfs).foldl (matchPath path) (none, -1)).1

/-! ### Calls on descriptors -/

/-- What a call returns, and the filesystem and the local descriptor that it reached. -/
structure Outcome (D : Type) where
  /-- The value that is returned; `-1` is an error. -/
  ret : ℤ
  reached : Option (Entry D × ℕ)

/-- `esp_vfs_read`, `esp_vfs_write` and their like.  `driver` is what the function of the
filesystem returns, if it has one. -/
def callOnFd (maxFds : ℕ) (s : State D) (fd : ℤ) (driver : Option ℤ) : Outcome D :=
  match target maxFds s fd with
  | none => ⟨-1, none⟩
  | some t =>
    match driver with
    | none => ⟨-1, none⟩
    | some ret => ⟨ret, some t⟩

/-- `esp_vfs_read`. -/
def espVfsRead (maxFds : ℕ) (s : State D) (fd : ℤ) (driver : Option ℤ) : Outcome D :=
  callOnFd maxFds s fd driver

/-- `esp_vfs_write`. -/
def espVfsWrite (maxFds : ℕ) (s : State D) (fd : ℤ) (driver : Option ℤ) : Outcome D :=
  callOnFd maxFds s fd driver

/-- `esp_vfs_close`. -/
def espVfsClose (maxFds : ℕ) (s : State D) (fd : ℤ) (driver : Option ℤ) :
    Outcome D × State D :=
  match target maxFds s fd with
  | none => (⟨-1, none⟩, s)
  | some t =>
    match driver with
    | none => (⟨-1, none⟩, s)
    | some ret =>
      (⟨ret, some t⟩,
        if (s.fdTable fd.toNat).permanent = false then s.setFd fd.toNat .unused else s)

/-- `esp_vfs_open`.  The filesystem that was opened and the descriptor that it returned come
with the result; when no descriptor is free, the file is closed again. -/
def espVfsOpen (maxFds : ℕ) (s : State D) (path : List Char)
    (driver : Option ℤ) : Outcome D × State D :=
  match getVfsForPath s path with
  | none => (⟨-1, none⟩, s)
  | some vfs =>
    match driver with
    | none => (⟨-1, none⟩, s)
    | some fdWithinVfs =>
      if fdWithinVfs ≥ 0 then
        match freeFd maxFds s with
        | some i =>
          (⟨i, some (vfs, fdWithinVfs.toNat)⟩,
            s.setFd i ⟨false, vfs.offset, fdWithinVfs.toNat % 256⟩)
        | none => (⟨-1, some (vfs, fdWithinVfs.toNat)⟩, s)
      else (⟨-1, none⟩, s)

end EspIdf.Vfs
