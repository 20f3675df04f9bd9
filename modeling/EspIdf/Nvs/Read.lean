/-
# Reading an item

`readItem` reads the bytes of the data entries behind the item that has been found.
-/
import EspIdf.Nvs.Entries

namespace EspIdf.Nvs

open EspIdf.Lib Page

variable {c : PageCtx} {i n : ℕ} {it : Item} {q : Query}

/-- The entries from `i` on hold the blocks. -/
def BlocksAt (c : PageCtx) (i : ℕ) (bs : List (List Byte)) : Prop :=
  ∀ k b, bs[k]? = some b → c.entry (i + k) = b

lemma BlocksAt.tail {b : List Byte} {bs : List (List Byte)} (h : BlocksAt c i (b :: bs)) :
    BlocksAt c (i + 1) bs := by
  intro k d hk
  have := h (k + 1) d (by rwa [List.getElem?_cons_succ])
  rwa [show i + 1 + k = i + (k + 1) by omega]

/-- The data entries are read up to the size that is wanted. -/
lemma readData_ok : ∀ {bs : List (List Byte)} {i : ℕ} (left : ℕ), Blocks bs → BlocksAt c i bs →
    i + bs.length ≤ entryCount →
    readData bs.length i left c = (.ok (bs.flatten.take left), c) := by
  intro bs
  induction bs with
  | nil =>
    intro i left _ _ _
    rw [List.flatten_nil, List.take_nil]
    rfl
  | cons b bs ih =>
    intro i left hbs hat hle
    rw [List.length_cons] at hle
    have hb := hbs b List.mem_cons_self
    have hentry : c.entry i = b := hat 0 b rfl
    have hrest := ih (left - min left entrySize) (fun x hx => hbs x (List.mem_cons_of_mem _ hx))
      hat.tail (by omega)
    rw [List.length_cons, readData, Prog.bind_ok (readEntry_ok (by omega)), Prog.bind_ok hrest,
      Prog.pure_apply, hentry, List.flatten_cons, List.take_append, hb]
    congr 3
    · rcases Nat.le_total left entrySize with hl | hl
      · rw [Nat.min_eq_left hl]
      · rw [Nat.min_eq_right hl, List.take_of_length_le (show b.length ≤ entrySize by omega),
          List.take_of_length_le (show b.length ≤ left by omega)]
    · congr 1
      omega

/-! ### Operations on an item that has been found -/

lemma lookup_hit (hf : findItem q 0 noItem c = (.ok ⟨none, n, it⟩, c)) :
    lookup q c = (.ok (n, it), c) := by
  rw [lookup, Prog.bind_ok hf]
  rfl

end EspIdf.Nvs
