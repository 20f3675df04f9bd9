/-
# The eFuse table generator

`efuse_table_gen.py` reads the rows of a table from CSV text, fills in the starts and the names
that a row leaves out, numbers the rows that share a name, and checks the table.
-/
import EspIdf.PartitionTable.Text

namespace EspIdf.EfuseTable

open Lib
open PartitionTable (Str Python dec)

/-- `idf_target`. -/
inductive Target where
  | esp32
  | esp32s2beta
  deriving DecidableEq, Repr

/-- The options of the command line. -/
structure Options where
  idfTarget : Target
  /-- `max_blk_len`. -/
  maxBlkLen : ℤ

/-- The kind of table for `verify`. -/
inductive TypeTable where
  | commonTable
  | customTable
  deriving DecidableEq, Repr

/-- The errors that the generator raises. -/
inductive FuseError where
  | unknownVariable (name : Str)
  | atLine (lineNo : ℕ) (err : FuseError)
  | blockEmpty
  | blockUnknown
  | bitCountEmpty
  | invalidValue (v : Str)
  | missingName
  | namesNotUnique
  | customBlock (fieldName : Str)
  | outside (fieldName : Str) (maxBits : ℤ) (efuseBlock : Str)
  | overlaps (fieldName lastName : Str)
  deriving DecidableEq, Repr

/-- `FuseDefinition`; its start is of type `σ`. -/
structure FuseDefinition (σ : Type) where
  fieldName : Str
  /-- The index among the entries of the same name. -/
  group : Str
  efuseBlock : Str
  bitStart : σ
  bitCount : ℤ
  /-- The macro that the count was given by. -/
  define : Option Str
  comment : Str
  deriving DecidableEq, Repr

/-- A row of the CSV text, where the start may be left out. -/
abbrev Row : Type := FuseDefinition (Option ℤ)

/-- An entry of the table, once its start is filled in. -/
abbrev Entry : Type := FuseDefinition ℤ

variable (py : Python) (opts : Options)

/-! ### Reading a row -/

/-- The names of the blocks. -/
def blocks : Target → List Str
  | .esp32 => (List.range 4).map fun k => "EFUSE_BLK".toList ++ Nat.toDigits 10 k
  | .esp32s2beta => (List.range 11).map fun k => "EFUSE_BLK".toList ++ Nat.toDigits 10 k

/-- `get_max_bits_of_block`. -/
def maxBitsOfBlock (efuseBlock : Str) : ℤ :=
  if efuseBlock = "EFUSE_BLK0".toList then 256 else opts.maxBlkLen

/-- `parse_int`. -/
def parseInt (v : Str) : Except FuseError ℤ :=
  match py.int0 v with
  | some i => .ok i
  | none => .error (.invalidValue v)

/-- `parse_num`. -/
def parseNum (strval : Str) : Except FuseError (Option ℤ) :=
  if strval = [] then .ok none else do return some (← parseInt py strval)

/-- `parse_bit_count`, with the macro that it sets. -/
def parseBitCount (efuseBlock strval : Str) : Except FuseError (Option Str × Option ℤ) :=
  if strval = "MAX_BLK_LEN".toList then .ok (some strval, some (maxBitsOfBlock opts efuseBlock))
  else do return (none, ← parseNum py strval)

/-- `parse_block`. -/
def parseBlock (strval : Str) : Except FuseError Str :=
  if strval = [] then .error .blockEmpty
  else if strval ∈ blocks opts.idfTarget then .ok strval
  else .error .blockUnknown

/-- `FuseDefinition.from_csv`. -/
def Row.fromCsv (line : Str) : Except FuseError Row := do
  let lineWDefaults := line ++ ",,,,".toList
  let fields := (lineWDefaults.splitOn ',').map py.strip
  let efuseBlock ← parseBlock opts (fields.getD 1 [])
  let bitStart ← parseNum py (fields.getD 2 [])
  let (define, bitCount) ← parseBitCount py opts efuseBlock (fields.getD 3 [])
  match bitCount with
  | none => throw .bitCountEmpty
  | some bitCount =>
    if bitCount = 0 then throw .bitCountEmpty
    return ⟨fields.getD 0 [], [], efuseBlock, bitStart, bitCount, define, fields.getD 4 []⟩

/-- `expand_vars`; a variable left at the start of the line is unknown. -/
def expandVars (f : Str) : Except FuseError Str :=
  let f := py.expandvars f
  match f with
  | '$' :: c :: s =>
    if c.isAlpha || c = '_' then
      .error (.unknownVariable (c :: s.takeWhile fun d => d.isAlphanum || d = '_'))
    else .ok f
  | _ => .ok f

/-- The rows of the lines from number `lineNo` on. -/
def parseLines : ℕ → List Str → Except FuseError (List Row)
  | _, [] => .ok []
  | lineNo, l :: lines => do
    let line := py.strip (← expandVars py l)
    if line.head? = some '#' ∨ line.length = 0 then parseLines (lineNo + 1) lines
    else match Row.fromCsv py opts line with
      | .error err => throw (.atLine lineNo err)
      | .ok e => return e :: (← parseLines (lineNo + 1) lines)

/-- The rows of the text, before anything is filled in. -/
def parseRows (csvContents : Str) : Except FuseError (List Row) :=
  parseLines py opts 1 (py.splitlines csvContents)

/-! ### Filling in -/

/-- Fill in the starts; `lastEfuseBlock` and `lastEnd` are those of the row before. -/
def fillStarts : Option Str → ℤ → List Row → List Entry
  | _, _, [] => []
  | lastEfuseBlock, lastEnd, e :: es =>
    let lastEnd := if lastEfuseBlock ≠ some e.efuseBlock then 0 else lastEnd
    let bitStart := e.bitStart.getD lastEnd
    { e with bitStart := bitStart } ::
      fillStarts (some e.efuseBlock) (bitStart + e.bitCount) es

/-- The names that stand in the list more than once. -/
def duplicates (names : List Str) : List Str := (names.filter fun n => names.count n > 1).dedup

/-- `verify_duplicate_name`. -/
def verifyDuplicateName (res : List Entry) : Except FuseError Unit :=
  if res.any fun p => p.fieldName ++ p.group ≠ [] ∧
      p.fieldName ++ p.group ∈ duplicates (res.map FuseDefinition.fieldName) then
    .error .namesNotUnique
  else .ok ()

/-- Fill in the names; `lastField` is the name of the entry before. -/
def fillNames : Option Str → List Entry → Except FuseError (List Entry)
  | _, [] => .ok []
  | lastField, e :: es =>
    if e.fieldName = [] then
      match lastField with
      | none => .error .missingName
      | some name => do return { e with fieldName := name } :: (← fillNames (some name) es)
    else do return e :: (← fillNames (some e.fieldName) es)

/-- Number the entries of the name `dname`, from `iCount` on. -/
def fillGroup (dname : Str) : ℕ → List Entry → List Entry
  | _, [] => []
  | iCount, p :: ps =>
    if p.fieldName ≠ dname then p :: fillGroup dname iCount ps
    else { p with group := Nat.toDigits 10 iCount } :: fillGroup dname (iCount + 1) ps

/-- Number the entries of the names that several entries have.  The names differ, so that it does
not matter in which order they are gone through. -/
def fillGroups (res : List Entry) : List Entry :=
  (duplicates (res.map FuseDefinition.fieldName)).foldl (fun res dname => fillGroup dname 0 res) res

/-- `get_bit_count`. -/
def Entry.getBitCount (p : Entry) : Str := p.define.getD (dec p.bitCount)

/-- `hexdigest`. -/
def hexdigest (digest : List Byte) : Str :=
  digest.flatMap fun b => [(b.toNat / 16).digitChar, (b.toNat % 16).digitChar]

/-- `calc_md5`. -/
def calcMd5 (res : List Entry) : Str :=
  hexdigest (md5 (py.encode (res.flatMap fun p => p.fieldName ++ ' ' :: p.efuseBlock ++
    ' ' :: dec p.bitStart ++ ' ' :: p.getBitCount ++ ' ' :: p.comment ++ ['\n'])))

/-- `FuseTable`. -/
structure FuseTable where
  entries : List Entry
  /-- `md5_digest_table`. -/
  md5DigestTable : Str

/-- `FuseTable.from_csv`. -/
def FuseTable.fromCsv (csvContents : Str) : Except FuseError FuseTable := do
  let rows ← parseRows py opts csvContents
  let res := fillStarts none 0 rows
  verifyDuplicateName res
  match fillNames none res with
  | .error err => throw (.atLine (py.splitlines csvContents).length err)
  | .ok res =>
    let res := fillGroups res
    verifyDuplicateName res
    return ⟨res, calcMd5 py res⟩

/-! ### Checking -/

/-- `FuseDefinition.verify`. -/
def Entry.verify (typeTable : Option TypeTable) (p : Entry) : Except FuseError Unit :=
  if typeTable = some .customTable ∧ p.efuseBlock ≠ "EFUSE_BLK3".toList then
    .error (.customBlock p.fieldName)
  else if p.bitStart + p.bitCount > maxBitsOfBlock opts p.efuseBlock then
    .error (.outside p.fieldName (maxBitsOfBlock opts p.efuseBlock) p.efuseBlock)
  else .ok ()

/-- The key that the entries are sorted by. -/
def Entry.key (p : Entry) : Str ×ₗ ℤ := toLex (p.efuseBlock, p.bitStart)

/-- The loop over the entries in the order of their keys. -/
def checkOverlaps : Option Entry → List Entry → Except FuseError Unit
  | _, [] => .ok ()
  | last, p :: ps =>
    match last.filter fun last =>
        last.efuseBlock = p.efuseBlock ∧ p.bitStart < last.bitStart + last.bitCount with
    | some last => .error (.overlaps p.fieldName last.fieldName)
    | none => checkOverlaps (some p) ps

/-- `FuseTable.verify`. -/
def FuseTable.verify (typeTable : Option TypeTable) (table : FuseTable) :
    Except FuseError Unit := do
  table.entries.forM (Entry.verify opts typeTable)
  verifyDuplicateName table.entries
  checkOverlaps none (table.entries.mergeSort fun a b => a.key ≤ b.key)

end EspIdf.EfuseTable
