/-
# Stores into a byte-addressed memory

A store replaces the bytes of a range and leaves every other address alone.  Words are
stored with their lowest byte first, as `Mem.word` reads them.
-/
import EspIdf.Lib.Nor

namespace EspIdf.Lib

namespace Mem

/-- Replace the bytes from `a` on by `bs`. -/
def store (m : Mem) (a : ℕ) (bs : List Byte) : Mem :=
  fun x => if a ≤ x ∧ x < a + bs.length then bs.getD (x - a) 0#8 else m x

/-- Replace the word at `a`. -/
def storeWord (m : Mem) (a : ℕ) (w : BitVec 32) : Mem := m.store a (wordBytes w)

variable {m m' : Mem} {a b n x : ℕ} {bs : List Byte} {w : BitVec 32}

lemma store_of_mem (h : a ≤ x ∧ x < a + bs.length) :
    m.store a bs x = bs.getD (x - a) 0#8 := if_pos h

lemma store_of_not_mem (h : ¬ (a ≤ x ∧ x < a + bs.length)) : m.store a bs x = m x := if_neg h

lemma storeWord_of_not_mem (h : ¬ (a ≤ x ∧ x < a + 4)) : m.storeWord a w x = m x :=
  store_of_not_mem h

/-- What has been stored is read back. -/
lemma read_store_self : (m.store a bs).read a bs.length = bs := by
  apply List.ext_getElem (by simp)
  intro i hi hi'
  simp only [read, List.getElem_map, List.getElem_range]
  rw [store_of_mem (by omega), Nat.add_sub_cancel_left, List.getD, List.getElem?_eq_getElem hi',
    Option.getD_some]

lemma read_store_of_apart (h : b + n ≤ a ∨ a + bs.length ≤ b) :
    (m.store a bs).read b n = m.read b n :=
  read_congr fun i hi => store_of_not_mem (by omega)

lemma read_storeWord_of_apart (h : b + n ≤ a ∨ a + 4 ≤ b) :
    (m.storeWord a w).read b n = m.read b n :=
  read_store_of_apart h

lemma word_store_of_apart (h : b + 4 ≤ a ∨ a + bs.length ≤ b) :
    (m.store a bs).word b = m.word b :=
  word_congr fun i hi => store_of_not_mem (by omega)

lemma word_storeWord_of_apart (h : b + 4 ≤ a ∨ a + 4 ≤ b) :
    (m.storeWord a w).word b = m.word b :=
  word_store_of_apart h

lemma word_storeWord_self : (m.storeWord a w).word a = w := by
  have hbyte : ∀ i < 4, m.storeWord a w (a + i) = (wordBytes w).getD i 0#8 := by
    intro i hi
    rw [storeWord, store_of_mem (by rw [length_wordBytes]; omega), Nat.add_sub_cancel_left]
  rw [word, hbyte 3 (by decide), hbyte 2 (by decide), hbyte 1 (by decide),
    show m.storeWord a w a = (wordBytes w).getD 0 0#8 from hbyte 0 (by decide)]
  exact (word_eq_bytes w).symm

/-- Storing a range and then the next one stores both. -/
lemma store_store (bs cs : List Byte) :
    (m.store a bs).store (a + bs.length) cs = m.store a (bs ++ cs) := by
  funext y
  by_cases hb : a ≤ y ∧ y < a + bs.length
  · rw [store_of_not_mem (by omega), store_of_mem hb,
      store_of_mem (by rw [List.length_append]; omega), List.getD, List.getD,
      List.getElem?_append_left (by omega)]
  · by_cases hc : a + bs.length ≤ y ∧ y < a + bs.length + cs.length
    · rw [store_of_mem hc, store_of_mem (by rw [List.length_append]; omega),
        List.getD, List.getD, List.getElem?_append_right (by omega), Nat.sub_sub]
    · rw [store_of_not_mem hc, store_of_not_mem hb,
        store_of_not_mem (by rw [List.length_append]; omega)]

lemma store_nil : m.store a [] = m := by
  funext y
  exact store_of_not_mem (by rw [List.length_nil]; omega)

/-- Bytes that were read from somewhere else and stored. -/
lemma store_read_of_mem {m₀ : Mem} (h : a ≤ x ∧ x < a + n) :
    m.store a (m₀.read b n) x = m₀ (b + (x - a)) := by
  rw [store_of_mem (by rwa [length_read]), getD_read (by omega)]

lemma read_store_read {m₀ : Mem} : (m.store a (m₀.read b n)).read a n = m₀.read b n := by
  have h : (m.store a (m₀.read b n)).read a (m₀.read b n).length = m₀.read b n := read_store_self
  rwa [length_read] at h

end Mem

end EspIdf.Lib
