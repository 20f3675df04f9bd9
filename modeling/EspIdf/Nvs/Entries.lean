/-
# Entries

What the primitive operations of a page read of its entries and of the table of their states.
-/
import EspIdf.Nvs.Page

namespace EspIdf.Nvs

open EspIdf.Lib

variable {c c' : PageCtx} {i n : ℕ}

/-! ### Control -/

section Control

variable {σ α : Type} {s s' : σ}

lemma assert_pos {p : Prop} [Decidable p] (h : p) : assert p s = (.ok (), s) := by
  rw [assert, if_pos h]
  rfl

lemma assert_bind {β : Type} {p : Prop} [Decidable p] (h : p) (f : Unit → Prog σ Exit β) :
    (assert p >>= f) s = f () s :=
  Prog.bind_ok (assert_pos h)

lemma attempt_ok {m : Prog σ Exit α} {a : α} (h : m s = (.ok a, s')) :
    attempt m s = (.ok (.ok a), s') := by
  rw [attempt, h]

end Control

/-! ### Reading entries -/

/-- The entry that the bytes at `addr` stand for. -/
def decodeEntry (xts : List XtsCtxt) (addr : ℕ) (bs : List Byte) : List Byte :=
  match findXtsCtxtFromAddr xts addr with
  | none => bs
  | some x => x.decrypt (addr - x.baseSector * secSize) bs

/-- Entry `i` as the page reads it. -/
def PageCtx.entry (c : PageCtx) (i : ℕ) : List Byte :=
  decodeEntry c.xts (c.page.sector * secSize + entryOffset i)
    (c.mem.read (entryOffset i) entrySize)

lemma spiFlashRead_ok (off n : ℕ) : spiFlashRead off n c = (.ok (c.mem.read off n), c) := rfl

lemma readEntry_ok (hi : i < entryCount) : Page.readEntry i c = (.ok ⟨c.entry i⟩, c) := by
  have hread : nvsFlashRead (entryOffset i) entrySize c = (.ok (c.entry i), c) := by
    rw [nvsFlashRead, Prog.get_bind]
    rw [Prog.bind_ok (spiFlashRead_ok _ _)]
    rw [PageCtx.entry, decodeEntry]
    cases findXtsCtxtFromAddr c.xts (c.page.sector * secSize + entryOffset i) with
    | none => rfl
    | some x => rfl
  rw [Page.readEntry, assert_bind hi, Prog.bind_ok hread]
  rfl

lemma entryState_ok (hi : i < entryCount) :
    Page.entryState i c = (.ok (c.page.entryTable.get i), c) := by
  rw [Page.entryState, assert_bind hi]
  rfl

/-- Entries of 32 bytes. -/
def Blocks (bs : List (List Byte)) : Prop := ∀ b ∈ bs, b.length = entrySize

/-- The states of a page that holds items. -/
def PageState.InUse (s : PageState) : Prop := s = .active ∨ s = .full ∨ s = .freeing

end EspIdf.Nvs
