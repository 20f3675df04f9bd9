/-
# The C file of an eFuse table

`to_c_file` writes an array for each name, with the places of its entries, and behind the arrays a
list of pointers into them, which ends in `NULL`.  The file is read back as a compiler does.
-/
import EspIdf.EfuseTable.Generator
import EspIdf.Lib.CSource

namespace EspIdf.EfuseTable

open Lib
open PartitionTable (Str Python dec strip)

variable (opts : Options)

/-! ### Writing -/

/-- `to_struct`. -/
def Entry.toStruct (debug : Bool) (p : Entry) : Str :=
  let start := if debug then "    \x7b".toList ++ '"' :: p.fieldName ++ "\" ,".toList
    else "    \x7b".toList
  ", ".toList.intercalate [start ++ p.efuseBlock, dec p.bitStart,
    p.getBitCount ++ "\x7d, \t // ".toList ++ p.comment]

/-- `get_str_position_last_free_bit_in_blk`, with the last used bit so far. -/
def lastFreeBitInBlk (blk : Str) : ℤ → List Entry → Option Str
  | lastUsedBit, [] => if lastUsedBit = 0 then none else some (dec lastUsedBit)
  | lastUsedBit, p :: ps =>
    if p.efuseBlock = blk then
      if p.define.isSome then some p.getBitCount
      else lastFreeBitInBlk blk (max lastUsedBit (p.bitStart + p.bitCount)) ps
    else lastFreeBitInBlk blk lastUsedBit ps

/-- The blocks with their last free bits. -/
def freeBits (table : FuseTable) : List (Str × Str) :=
  ["1".toList, "2".toList, "3".toList].filterMap fun k =>
    (lastFreeBitInBlk ("EFUSE_BLK".toList ++ k) 0 table.entries).map fun bits => (k, bits)

/-- What is asserted of the last free bit of a block. -/
def assertText : Str :=
  (" <= MAX_BLK_LEN, \"The eFuse table does not match the coding scheme. Edit the table and " ++
    "restart the efuse_common_table or efuse_custom_table command to regenerate the new " ++
    "files.\");").toList

/-- The rows in front of the arrays, behind the notice at the head of the file. -/
def headerRows (fileName : Str) (table : FuseTable) : List Str :=
  ["#include \"sdkconfig.h\"".toList, "#include \"esp_efuse.h\"".toList,
    "#include <assert.h>".toList, "#include \"".toList ++ fileName ++ ".h\"".toList, [],
    "// md5_digest_table ".toList ++ table.md5DigestTable,
    "// This file was generated from the file ".toList ++ fileName ++
      ".csv. DO NOT CHANGE THIS FILE MANUALLY.".toList,
    "// If you want to change some fields, you need to change ".toList ++ fileName ++
      ".csv file".toList,
    ("// then run `efuse_common_table` or `efuse_custom_table` command it will generate this " ++
      "file.").toList,
    "// To show efuse_table run the command 'show_efuse_table'.".toList, []] ++
  if opts.idfTarget = .esp32 then
    ["#define MAX_BLK_LEN CONFIG_EFUSE_MAX_BLK_LEN".toList, [],
      "// The last free bit in the block is counted over the entire file.".toList] ++
    (freeBits table).map (fun free =>
      "#define LAST_FREE_BIT_BLK".toList ++ free.1 ++ ' ' :: free.2) ++
    [[]] ++
    (freeBits table).map (fun free =>
      "_Static_assert(LAST_FREE_BIT_BLK".toList ++ free.1 ++ assertText) ++
    [[]]
  else []

/-- The loops of `to_c_file`: a row for each entry, with a heading and the rows at the end where
the name changes from `lastName`. -/
def rowsFrom (heading : Str → Str) (row : Entry → Str) (ending : List Str) :
    Str → List Entry → List Str
  | _, [] => []
  | lastName, p :: ps =>
    (if p.fieldName ≠ lastName then
      (if lastName ≠ [] then ending else []) ++ [heading p.fieldName] else []) ++
    row p :: rowsFrom heading row ending p.fieldName ps

def arrayType : Str := "static const esp_efuse_desc_t ".toList

def pointerType : Str := "const esp_efuse_desc_t* ".toList

def openBrace : Str := "[] = \x7b".toList

def closeBrace : Str := "\x7d;".toList

/-- What stands in front of a name in the name of its list of pointers. -/
def espEfuse (fieldName : Str) : Str := "ESP_EFUSE_".toList ++ fieldName

def arrayHeading (fieldName : Str) : Str := arrayType ++ fieldName ++ openBrace

def arrayEnding : List Str := [closeBrace ++ ['\n']]

/-- The rows of the arrays. -/
def arrayRows (debug : Bool) (entries : List Entry) : List Str :=
  rowsFrom arrayHeading (fun p => p.toStruct debug ++ [',']) arrayEnding [] entries ++ arrayEnding

def pointerHeading (fieldName : Str) : Str := pointerType ++ espEfuse fieldName ++ openBrace

/-- The index of an entry in the array of its name. -/
def Entry.index (p : Entry) : Str := if p.group = [] then Nat.toDigits 10 0 else p.group

def Entry.pointerRow (p : Entry) : Str :=
  "    &".toList ++ p.fieldName ++ "[".toList ++ p.index ++ "],    \t\t// ".toList ++ p.comment

def pointerEnding : List Str := ["    NULL".toList, closeBrace ++ ['\n']]

/-- The rows of the lists of pointers. -/
def pointerRows (entries : List Entry) : List Str :=
  rowsFrom pointerHeading Entry.pointerRow pointerEnding [] entries ++ pointerEnding

/-- `to_c_file`. -/
def FuseTable.toCFile (fileName : Str) (debug : Bool) (table : FuseTable) : Str :=
  ['\n'].intercalate (headerRows opts fileName table ++ arrayRows debug table.entries ++
    ["\n\n\n".toList] ++ pointerRows table.entries) ++ ['\n']

/-! ### Reading -/

/-- The letters of an identifier. -/
def isWord (c : Char) : Bool := c.isAlphanum || c = '_'

def isIdentifier (s : Str) : Bool := s.all isWord && s.head?.any fun c => !c.isDigit

inductive Kind where
  | array
  | pointers
  deriving DecidableEq, Repr

/-- A definition in a C file. -/
structure Definition where
  kind : Kind
  name : Str
  elems : List Str
  deriving DecidableEq, Repr

section Reading

-- The keywords, and the identifiers of the included headers.
variable (reserved : Str → Bool)

/-- The identifier may be defined in the file. -/
def IsFree (name : Str) : Prop := isIdentifier name = true ∧ reserved name = false

instance (name : Str) : Decidable (IsFree reserved name) :=
  inferInstanceAs (Decidable (_ ∧ _))

/-- What stands in a line behind `start` and in front of the brace that opens an initialiser. -/
def openedBy (start l : Str) : Option Str :=
  ((l.dropPrefix? start).bind fun s => (s.dropSuffix? openBrace)).filter
    fun name => IsFree reserved name

/-- The definition that a line begins. -/
def opening (l : Str) : Option Definition :=
  match openedBy reserved arrayType l with
  | some name => some ⟨.array, name, []⟩
  | none => (openedBy reserved pointerType l).map fun name => ⟨.pointers, name, []⟩

/-- An element, without the comma behind it. -/
def element (l : Str) : Str := if l.getLast? = some ',' then l.dropLast else l

/-- Read a line; `d` is the definition that is open.  A definition is returned at its end. -/
def readLine (d : Option Definition) (l : Str) : Option Definition × List Definition :=
  match d with
  | none => (opening reserved l, [])
  | some d =>
    if l = closeBrace then (none, [d])
    else if l = [] then (some d, [])
    else (some { d with elems := d.elems ++ [element l] }, [])

/-- Read lines one after the other. -/
def readLines : Option Definition → List Str → Option Definition × List Definition
  | d, [] => (d, [])
  | d, l :: ls =>
    let (d, ds) := readLine reserved d l
    let (d, ds') := readLines d ls
    (d, ds ++ ds')

/-- The definitions of a C file. -/
def definitions (text : Str) : List Definition :=
  (readLines reserved none ((logicalLines (text.splitOn '\n')).map strip)).2

end Reading

/-- Element `i` of the array that is all that a name is defined as. -/
def elemAt (ds : List Definition) (name : Str) (i : ℕ) : Option Str :=
  match ds.filter fun d => d.name = name with
  | [⟨.array, _, elems⟩] => elems[i]?
  | _ => none

/-- What `&name[index]` points to. -/
def pointee (ds : List Definition) : Str → Option Str
  | '&' :: s =>
    let name := s.takeWhile (· ≠ '[')
    let index := (s.drop (name.length + 1)).takeWhile (· ≠ ']')
    elemAt ds name (Nat.ofDigitChars 10 index 0)
  | _ => none

/-- The initialisers that the pointers of a list stand for, up to the `NULL` at its end. -/
def Definition.values (ds : List Definition) (d : Definition) : Option (List Str) :=
  if d.kind = .pointers ∧ d.elems.getLast? = some "NULL".toList then
    d.elems.dropLast.mapM (pointee ds)
  else none

/-- What an identifier is defined as, for each of its definitions. -/
def meanings (ds : List Definition) (name : Str) : List (Option (List Str)) :=
  (ds.filter fun d => d.name = name).map (Definition.values ds)

end EspIdf.EfuseTable
