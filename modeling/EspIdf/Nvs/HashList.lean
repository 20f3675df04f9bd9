/-
# The hash list of a page

`HashList` keeps, for each item of a page, its entry index and 24 bits of a checksum of its
namespace, key and chunk index, in blocks of 29 nodes.  A node that is erased stays in its
block with the index `0xff`; a block without other nodes is removed.
-/
import EspIdf.Nvs.Types

namespace EspIdf.Nvs

open EspIdf.Lib

/-- `HashListNode`. -/
structure HashNode where
  index : ℕ
  hash : BitVec 24
deriving DecidableEq, Repr

/-- The index of an erased node. -/
def noIndex : ℕ := 0xff

/-- `HashListBlock::ENTRY_COUNT`. -/
def blockEntryCount : ℕ := 29

/-- The blocks, each with its nodes. -/
abbrev HashList : Type := List (List HashNode)

/-- The 24 bits of an item that the list keeps. -/
def Item.hash24 (it : Item) : BitVec 24 := it.calculateCrc32WithoutValue.setWidth 24

namespace HashList

/-- `HashList::insert`. -/
def insert : HashList → Item → ℕ → HashList
  | [], it, index => [[⟨index, it.hash24⟩]]
  | [b], it, index =>
    if b.length < blockEntryCount then [b ++ [⟨index, it.hash24⟩]]
    else [b, [⟨index, it.hash24⟩]]
  | b :: b' :: bs, it, index => b :: insert (b' :: bs) it index

/-- The nodes of one block after `erase`, whether one of them is in use and whether the index
was found.  The source returns at the first node where both hold. -/
def eraseNodes (index : ℕ) : List HashNode → Bool → Bool → List HashNode × Bool × Bool
  | [], haveEntries, foundIndex => ([], haveEntries, foundIndex)
  | e :: es, haveEntries, foundIndex =>
    let e' := if e.index = index then { e with index := noIndex } else e
    let foundIndex' := foundIndex || e.index = index
    let haveEntries' := haveEntries || e'.index ≠ noIndex
    if haveEntries' && foundIndex' then (e' :: es, haveEntries', foundIndex')
    else
      let (es', r) := eraseNodes index es haveEntries' foundIndex'
      (e' :: es', r)

/-- `HashList::erase`, with whether the item was found. -/
def erase (index : ℕ) : HashList → HashList × Bool
  | [] => ([], false)
  | b :: bs =>
    let (b', haveEntries, foundIndex) := eraseNodes index b false false
    if foundIndex then (if haveEntries then b' :: bs else bs, true)
    else
      let (bs', r) := erase index bs
      (if haveEntries then b' :: bs' else bs', r)

/-- `HashList::find`: the index of the first node with the item's hash from `start` on. -/
def find (h : HashList) (start : ℕ) (it : Item) : Option ℕ :=
  (h.flatten.find? fun e => start ≤ e.index ∧ e.hash = it.hash24 ∧ e.index ≠ noIndex).map
    HashNode.index

/-- The nodes in use, in order. -/
def live (h : HashList) : List HashNode := h.flatten.filter (·.index ≠ noIndex)

variable {h : HashList} {it : Item} {index start : ℕ}

end HashList

end EspIdf.Nvs
