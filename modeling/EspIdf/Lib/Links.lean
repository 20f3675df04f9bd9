/-
# Linked lists in memory

A list is threaded through memory by a word in each of its nodes, at a fixed offset.  The
links read only these words, so that a store elsewhere leaves them alone, and redirecting the
last link of a path changes where the path leads and nothing else.
-/
import EspIdf.Lib.Ram

namespace EspIdf.Lib

/-- From the node `p` the links, at the offset `o`, lead through the nodes `xs` to `q`. -/
def Path (o : ℕ) (m : Mem) : ℕ → List ℕ → ℕ → Prop
  | p, [], q => (m.word (p + o)).toNat = q
  | p, x :: xs, q => (m.word (p + o)).toNat = x ∧ Path o m x xs q

namespace Path

variable {o p q x y : ℕ} {m m' : Mem} {xs ys : List ℕ}

/-- The last node of the path that starts at `p` and has the nodes `xs`. -/
def last (p : ℕ) (xs : List ℕ) : ℕ := xs.getLastD p

end Path

end EspIdf.Lib
