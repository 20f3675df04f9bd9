/-
# The partition table generator

`gen_esp32part.py` reads a table from CSV text, fills in missing offsets and sizes, checks the
table and writes it in binary form.  Strings are lists of characters and numbers are the unbounded
integers of Python.
-/
import EspIdf.Lib.Md5

namespace EspIdf.PartitionTable

open Lib

abbrev Str : Type := List Char

/-- What the generator uses of Python's library on strings; nothing is assumed about it. -/
structure Python where
  splitlines : Str → List Str
  /-- `os.path.expandvars` in the environment of the run. -/
  expandvars : Str → Str
  strip : Str → Str
  lower : Str → Str
  /-- `int(v, 0)`; `none` is a `ValueError`. -/
  int0 : Str → Option ℤ
  /-- `str.encode`. -/
  encode : Str → List Byte

/-- The errors that the generator raises, and `struct.error`. -/
inductive GenError where
  | unknownVariable
  | atLine (lineNo : ℕ) (err : GenError)
  | typeEmpty
  | appSubtypeEmpty
  | invalidValue
  | sizeEmpty
  | unknownFlag
  | overlapsTable
  | partitionsOverlap
  | typeNotSet
  | offsetNotSet
  | offsetNotAligned
  | sizeNotAligned
  | namesNotUnique
  | belowTable
  | overlap
  | multipleOtadata
  | otadataSize
  | structError
  | tooLong
  deriving DecidableEq, Repr

/-- `MAX_PARTITION_LENGTH`. -/
def maxPartitionLength : ℕ := 0xC00

/-- `MD5_PARTITION_BEGIN`. -/
def md5PartitionBegin : List Byte := [0xEB, 0xEB] ++ List.replicate 14 0xFF

/-- `PARTITION_TABLE_SIZE`. -/
def partitionTableSize : ℤ := 0x1000

/-- `APP_TYPE`. -/
def appType : ℤ := 0x00

/-- `DATA_TYPE`. -/
def dataType : ℤ := 0x01

/-- `TYPES`. -/
def types : List (Str × ℤ) := [("app".toList, appType), ("data".toList, dataType)]

/-- `SUBTYPES[APP_TYPE]`, with the OTA slots. -/
def appSubtypes : List (Str × ℤ) :=
  [("factory".toList, 0x00), ("test".toList, 0x20)] ++
    (List.range 16).map fun slot => ("ota_".toList ++ Nat.toDigits 10 slot, 0x10 + (slot : ℤ))

/-- `SUBTYPES[DATA_TYPE]`. -/
def dataSubtypes : List (Str × ℤ) :=
  [("ota".toList, 0x00), ("phy".toList, 0x01), ("nvs".toList, 0x02), ("coredump".toList, 0x03),
    ("nvs_keys".toList, 0x04), ("efuse".toList, 0x05), ("undefined".toList, 0x06),
    ("esphttpd".toList, 0x80), ("fat".toList, 0x81), ("spiffs".toList, 0x82)]

/-- `SUBTYPES.get(type, {})`. -/
def subtypes (type : ℤ) : List (Str × ℤ) :=
  if type = appType then appSubtypes else if type = dataType then dataSubtypes else []

structure PartitionDefinition where
  name : Str
  type : ℤ
  subtype : ℤ
  /-- `none` until the table fills it in. -/
  offset : Option ℤ
  size : ℤ
  encrypted : Bool
  lineNo : ℕ
  deriving DecidableEq, Repr

abbrev Table := List PartitionDefinition

variable (py : Python)

/-! ### Reading CSV -/

/-- `parse_int` for a string of at most `n` characters. -/
def parseIntAux (keywords : List (Str × ℤ)) : ℕ → Str → Except GenError ℤ
  | n, v =>
    let number : Except GenError ℤ :=
      match py.int0 v with
      | some i => .ok i
      | none =>
        if keywords = [] then .error .invalidValue
        else match keywords.lookup (py.lower v) with
          | some i => .ok i
          | none => .error .invalidValue
    match n with
    | 0 => number
    | n + 1 =>
      if (py.lower v).getLast? = some 'k' then do
        return (← parseIntAux keywords n v.dropLast) * 1024
      else if (py.lower v).getLast? = some 'm' then do
        return (← parseIntAux keywords n v.dropLast) * (1024 * 1024)
      else number

def parseInt (keywords : List (Str × ℤ)) (v : Str) : Except GenError ℤ :=
  parseIntAux py keywords v.length v

def parseType (strval : Str) : Except GenError ℤ :=
  if strval = [] then .error .typeEmpty else parseInt py types strval

def parseSubtype (type : ℤ) (strval : Str) : Except GenError ℤ :=
  if strval = [] then if type = appType then .error .appSubtypeEmpty else .ok 0x06
  else parseInt py (subtypes type) strval

def parseAddress (strval : Str) : Except GenError (Option ℤ) :=
  if strval = [] then .ok none
  else do return some (← parseInt py [] strval)

/-- The loop over the flags of a row, which sets `encrypted`. -/
def parseFlags : List Str → Bool → Except GenError Bool
  | [], encrypted => .ok encrypted
  | flag :: flags, encrypted =>
    if flag = "encrypted".toList then parseFlags flags true
    else if flag.length > 0 then .error .unknownFlag
    else parseFlags flags encrypted

/-- `PartitionDefinition.from_csv`. -/
def PartitionDefinition.fromCsv (line : Str) (lineNo : ℕ) :
    Except GenError PartitionDefinition := do
  let lineWDefaults := line ++ ",,,,".toList
  let fields := (lineWDefaults.splitOn ',').map py.strip
  let type ← parseType py (fields.getD 1 [])
  let subtype ← parseSubtype py type (fields.getD 2 [])
  let offset ← parseAddress py (fields.getD 3 [])
  let size ← parseAddress py (fields.getD 4 [])
  match size with
  | none => throw .sizeEmpty
  | some size =>
    let encrypted ← parseFlags ((fields.getD 5 []).splitOn ':') false
    return ⟨fields.getD 0 [], type, subtype, offset, size, encrypted, lineNo⟩

/-- `expand_vars`; a variable left at the start of the line is unknown. -/
def expandVars (f : Str) : Except GenError Str :=
  let f := py.expandvars f
  match f with
  | '$' :: c :: _ => if c.isAlpha || c = '_' then .error .unknownVariable else .ok f
  | _ => .ok f

/-- The rows of the lines from number `lineNo` on. -/
def parseLines : ℕ → List Str → Except GenError Table
  | _, [] => .ok []
  | lineNo, l :: lines => do
    let line := py.strip (← expandVars py l)
    if line.head? = some '#' ∨ line.length = 0 then parseLines (lineNo + 1) lines
    else match PartitionDefinition.fromCsv py line lineNo with
      | .error err => throw (.atLine lineNo err)
      | .ok e => return e :: (← parseLines (lineNo + 1) lines)

/-- `__eq__`, which leaves the flags out. -/
def PartitionDefinition.same (p q : PartitionDefinition) : Bool :=
  p.name = q.name ∧ p.type = q.type ∧ p.subtype = q.subtype ∧ p.offset = q.offset ∧
    p.size = q.size

/-- Fill in missing offsets and negative sizes; `first` is the first row, once it is done. -/
def fixUp (first : Option PartitionDefinition) (lastEnd : ℤ) :
    Table → Except GenError Table
  | [] => .ok []
  | e :: es =>
    let padTo : ℤ := if e.type = appType then 0x10000 else 4
    let padded := if lastEnd % padTo ≠ 0 then lastEnd + (padTo - lastEnd % padTo) else lastEnd
    let offset := e.offset.getD padded
    if e.offset.isSome ∧ offset < lastEnd then
      .error (if first.all e.same then .overlapsTable else .partitionsOverlap)
    else do
      let size := if e.size < 0 then -e.size - offset else e.size
      let e := { e with
        offset := some offset
        size := size }
      let es ← fixUp (some (first.getD e)) (offset + size) es
      return e :: es

/-- `PartitionTable.from_csv`. -/
def fromCsv (offsetPartTable : ℤ) (csvContents : Str) : Except GenError Table := do
  let res ← parseLines py 1 (py.splitlines csvContents)
  fixUp none (offsetPartTable + partitionTableSize) res

/-! ### Checking -/

/-- `PartitionDefinition.verify`, apart from its warnings. -/
def PartitionDefinition.verify (secure : Bool) (p : PartitionDefinition) : Except GenError Unit :=
  match p.offset with
  | none => .error .offsetNotSet
  | some offset =>
    let align : ℤ := if p.type = appType then 0x10000 else 0x04
    if offset % align ≠ 0 then .error .offsetNotAligned
    else if p.size % align ≠ 0 ∧ secure = true then .error .sizeNotAligned
    else .ok ()

/-- The offset, once it is filled in. -/
def PartitionDefinition.start (p : PartitionDefinition) : ℤ := p.offset.getD 0

/-- The loop over the partitions in the order of their offsets. -/
def checkOverlaps (offsetPartTable : ℤ) : Option PartitionDefinition → Table →
    Except GenError Unit
  | _, [] => .ok ()
  | last, p :: ps =>
    if p.start < offsetPartTable + partitionTableSize then .error .belowTable
    else if last.any (fun last => p.start < last.start + last.size) then .error .overlap
    else checkOverlaps offsetPartTable (some p) ps

/-- `PartitionTable.verify`. -/
def verify (offsetPartTable : ℤ) (secure : Bool) (table : Table) :
    Except GenError Unit := do
  table.forM (PartitionDefinition.verify secure)
  let names := table.map PartitionDefinition.name
  if names.any fun n => names.count n > 1 then throw .namesNotUnique
  checkOverlaps offsetPartTable none (table.mergeSort fun a b => a.start ≤ b.start)
  let otadata := table.filter fun p => p.type = dataType ∧ p.subtype = 0x00
  if otadata.length > 1 then throw .multipleOtadata
  if otadata.length = 1 ∧ otadata.any (fun p => p.size ≠ 0x2000) then throw .otadataSize

/-- The table that the generator accepts. -/
def accept (offsetPartTable : ℤ) (secure : Bool) (csvContents : Str) :
    Except GenError Table := do
  let table ← fromCsv py offsetPartTable csvContents
  verify offsetPartTable secure table
  return table

/-! ### Writing -/

/-- `struct.pack` of a number to one byte. -/
def packB (n : ℤ) : Except GenError (List Byte) :=
  if 0 ≤ n ∧ n < 256 then .ok [BitVec.ofNat 8 n.toNat] else .error .structError

/-- `struct.pack` of a number to four bytes. -/
def packL (n : ℤ) : Except GenError (List Byte) :=
  if 0 ≤ n ∧ n < 2 ^ 32 then .ok (le32 n.toNat) else .error .structError

/-- `struct.pack` of a string to sixteen bytes. -/
def pack16s (s : List Byte) : List Byte :=
  s.take 16 ++ List.replicate (16 - s.length) 0

/-- `MAGIC_BYTES`. -/
def magicBytes : List Byte := [0xAA, 0x50]

/-- `PartitionDefinition.to_binary`. -/
def PartitionDefinition.toBinary (p : PartitionDefinition) : Except GenError (List Byte) := do
  let flags := if p.encrypted then 1 else 0
  return magicBytes ++ (← packB p.type) ++ (← packB p.subtype) ++ (← packL p.start) ++
    (← packL p.size) ++ pack16s (py.encode p.name) ++ le32 flags

/-- `PartitionTable.to_binary` with the MD5 digest. -/
def toBinary (table : Table) : Except GenError (List Byte) := do
  let entries ← table.mapM (PartitionDefinition.toBinary py)
  let result := entries.flatten
  let result := result ++ md5PartitionBegin ++ md5 result
  if result.length ≥ maxPartitionLength then throw .tooLong
  return result ++ List.replicate (maxPartitionLength - result.length) 0xFF

end EspIdf.PartitionTable
