/-
# The macros of ULP programs

A program for the ULP coprocessor is an array of instructions in which labels, and the branches
and moves that refer to them, are marked by macro instructions.  Loading the program removes the
macros and puts the addresses of the labels into the instructions that they mark.
-/
import EspIdf.Lib.BitField

namespace EspIdf.Ulp

open Lib

/-- `ulp_insn_t`. -/
abbrev Insn := BitVec 32

inductive EspErr
  | ok | noMem | invalidLoadAddr | sizeTooBig | duplicateLabel | undefinedLabel | branchOutOfRange
deriving DecidableEq, Repr

/-! ### The formats of instructions -/

/-- `opcode`, which has the same place in every format. -/
def opcode (insn : Insn) : BitVec 4 := field insn 28 4

/-- `sub_opcode` of the branch and the ALU formats. -/
def subOpcode (insn : Insn) : BitVec 3 := field insn 25 3

/-- `bx.reg`. -/
def bxReg (insn : Insn) : BitVec 1 := field insn 21 1

/-- `alu_imm.sel`. -/
def aluSel (insn : Insn) : BitVec 4 := field insn 21 4

/-- `macro.label`. -/
def macroLabel (insn : Insn) : ℕ := (field insn 2 16).toNat

/-- `macro.sub_opcode`. -/
def macroSubOpcode (insn : Insn) : BitVec 4 := field insn 24 4

/-- `b.offset` and `b.sign`, which `bs` has at the same place. -/
def setOffset (insn : Insn) (offset : ℤ) : Insn :=
  setField (setField insn 17 (BitVec.ofNat 7 offset.natAbs)) 24
    (if 0 ≤ offset then 0#1 else 1#1)

/-- `bx.addr`. -/
def setBxAddr (insn : Insn) (addr : ℕ) : Insn := setField insn 2 (BitVec.ofNat 11 addr)

/-- `alu_imm.imm`. -/
def setAluImm (insn : Insn) (imm : ℕ) : Insn := setField insn 4 (BitVec.ofNat 16 imm)

/-- The instruction has the opcode `OPCODE_MACRO`. -/
def isMacro (insn : Insn) : Bool := opcode insn == 15

/-- A branch (`OPCODE_BRANCH`) to a relative address: `SUB_OPCODE_B` or `SUB_OPCODE_BS`. -/
def isRelative (insn : Insn) : Bool := subOpcode insn == 1 || subOpcode insn == 2

/-! ### Relocations -/

/-- `RELOC_TYPE_LABEL`, `RELOC_TYPE_BRANCH` and `RELOC_TYPE_LABELPC`. -/
inductive RelocType
  | label | branch | labelpc
deriving DecidableEq, Repr

def RelocType.toNat : RelocType → ℕ
  | label => 0
  | branch => 1
  | labelpc => 2

/-- `reloc_info_t`. -/
structure RelocInfo where
  label : ℕ
  addr : ℕ
  type : RelocType
deriving DecidableEq, Repr

/-- The type of the relocation for a macro; `none` if the `assert` on its sub opcode fires. -/
def macroType (insn : Insn) : Option RelocType :=
  if macroSubOpcode insn = 0 then some .label
  else if macroSubOpcode insn = 1 then some .branch
  else if macroSubOpcode insn = 2 then some .labelpc
  else none

/-- `RELOC_INFO_LABEL`, `RELOC_INFO_BRANCH` and `RELOC_INFO_LABELPC`: the address has 11 bits. -/
def relocInfo (type : RelocType) (label insnAddr : ℕ) : RelocInfo := ⟨label, insnAddr % 2 ^ 11, type⟩

/-- `reloc_sort_func`. -/
def relocSortFunc (lhs rhs : RelocInfo) : ℤ :=
  if lhs.label < rhs.label then -1
  else if rhs.label < lhs.label then 1
  else if lhs.type.toNat < rhs.type.toNat then -1
  else if rhs.type.toNat < lhs.type.toNat then 1
  else 0

/-- What `qsort` is called for. -/
structure Sorts (compar : RelocInfo → RelocInfo → ℤ) (qsort : List RelocInfo → List RelocInfo) :
    Prop where
  perm : ∀ relocs, (qsort relocs).Perm relocs
  sorted : ∀ relocs, (qsort relocs).Pairwise fun lhs rhs => compar lhs rhs ≤ 0

/-- `do_single_reloc`; `none` if an `assert` fires. -/
def doSingleReloc (program : List Insn) (loadAddr : ℕ) (labelInfo theReloc : RelocInfo) :
    Option (EspErr × List Insn) :=
  let insnOffset := theReloc.addr - loadAddr
  match program[insnOffset]? with
  | none => none
  | some insn =>
    match theReloc.type with
    | .branch =>
      if opcode insn ≠ 8 then
        none
      else if isRelative insn then
        let offset : ℤ := labelInfo.addr - theReloc.addr
        if 127 < offset.natAbs then
          some (.branchOutOfRange, program)
        else
          some (.ok, program.set insnOffset (setOffset insn offset))
      else if subOpcode insn = 0 then
        if bxReg insn ≠ 0 then none
        else some (.ok, program.set insnOffset (setBxAddr insn labelInfo.addr))
      else
        none
    | .labelpc =>
      if opcode insn = 7 ∧ subOpcode insn = 1 ∧ aluSel insn = 4 then
        some (.ok, program.set insnOffset (setAluImm insn labelInfo.addr))
      else
        none
    | .label => none

/-! ### The program is loaded -/

/-- Step 2 of `ulp_process_macros_and_load`, from the instruction that gets the address
`curInsnAddr`: the relocations and the program without macros. -/
def recordMacros (curInsnAddr : ℕ) : List Insn → Option (List RelocInfo × List Insn)
  | [] => some ([], [])
  | insn :: rest =>
    if isMacro insn then
      match macroType insn with
      | none => none
      | some type =>
        -- the program can not end with a macro
        if rest = [] then
          none
        else
          (recordMacros curInsnAddr rest).map fun (relocs, output) =>
            (relocInfo type (macroLabel insn) curInsnAddr :: relocs, output)
    else
      (recordMacros (curInsnAddr + 1) rest).map fun (relocs, output) => (relocs, insn :: output)

/-- Step 4: the nested loops over the sorted relocations.  `labelInfo` is the label of the inner
loop, and `none` at the head of the outer one. -/
def fixInstructions (loadAddr : ℕ) :
    Option RelocInfo → List RelocInfo → List Insn → Option (EspErr × List Insn)
  | _, [], output => some (.ok, output)
  | none, cur :: rest, output =>
    if cur.type = .label then fixInstructions loadAddr (some cur) rest output else none
  | some labelInfo, cur :: rest, output =>
    if cur.type = .label then
      if cur.label = labelInfo.label then some (.duplicateLabel, output)
      -- the inner loop ends, and the outer one goes on with this label
      else fixInstructions loadAddr (some cur) rest output
    else if cur.label ≠ labelInfo.label then
      some (.undefinedLabel, output)
    else
      match doSingleReloc output loadAddr labelInfo cur with
      | none => none
      | some (rc, output) =>
        if rc ≠ .ok then some (rc, output)
        else fixInstructions loadAddr (some labelInfo) rest output

/-- What `ulp_process_macros_and_load` returns, the words at the load address, and the size of the
program. -/
structure Loaded where
  err : EspErr
  output : List Insn
  size : ℕ
deriving DecidableEq, Repr

/-- `ulp_process_macros_and_load`; `none` if an `assert` fires.  `reserveMem` is
`ULP_RESERVE_MEM`, and `malloc` whether the table of relocations can be allocated. -/
def processMacrosAndLoad (qsort : List RelocInfo → List RelocInfo) (reserveMem : ℕ) (malloc : Bool)
    (loadAddr : ℕ) (program : List Insn) : Option Loaded :=
  let macroCount := program.countP isMacro
  let realProgramSize := program.length - macroCount
  let ulpMemEnd := reserveMem / 4
  if ulpMemEnd < loadAddr then
    some ⟨.invalidLoadAddr, [], program.length⟩
  else if ulpMemEnd < realProgramSize + loadAddr then
    some ⟨.sizeTooBig, [], program.length⟩
  else if macroCount = 0 then
    some ⟨.ok, program, program.length⟩
  else if malloc = false then
    some ⟨.noMem, [], program.length⟩
  else
    match recordMacros loadAddr program with
    | none => none
    | some (relocs, output) =>
      match fixInstructions loadAddr none (qsort relocs) output with
      | none => none
      | some (.ok, output) => some ⟨.ok, output, realProgramSize⟩
      | some (rc, output) => some ⟨rc, output, program.length⟩

end EspIdf.Ulp
