/-
# The MD5 digest

The message is padded to whole blocks of 64 bytes, and each block is mixed into a state of four
words in 64 steps.
-/
import EspIdf.Lib.Nor

namespace EspIdf.Lib

namespace Md5

/-- The constants of the 64 steps. -/
def constants : List (BitVec 32) :=
  [0xd76aa478, 0xe8c7b756, 0x242070db, 0xc1bdceee, 0xf57c0faf, 0x4787c62a,
    0xa8304613, 0xfd469501, 0x698098d8, 0x8b44f7af, 0xffff5bb1, 0x895cd7be,
    0x6b901122, 0xfd987193, 0xa679438e, 0x49b40821, 0xf61e2562, 0xc040b340,
    0x265e5a51, 0xe9b6c7aa, 0xd62f105d, 0x02441453, 0xd8a1e681, 0xe7d3fbc8,
    0x21e1cde6, 0xc33707d6, 0xf4d50d87, 0x455a14ed, 0xa9e3e905, 0xfcefa3f8,
    0x676f02d9, 0x8d2a4c8a, 0xfffa3942, 0x8771f681, 0x6d9d6122, 0xfde5380c,
    0xa4beea44, 0x4bdecfa9, 0xf6bb4b60, 0xbebfbc70, 0x289b7ec6, 0xeaa127fa,
    0xd4ef3085, 0x04881d05, 0xd9d4d039, 0xe6db99e5, 0x1fa27cf8, 0xc4ac5665,
    0xf4292244, 0x432aff97, 0xab9423a7, 0xfc93a039, 0x655b59c3, 0x8f0ccc92,
    0xffeff47d, 0x85845dd1, 0x6fa87e4f, 0xfe2ce6e0, 0xa3014314, 0x4e0811a1,
    0xf7537e82, 0xbd3af235, 0x2ad7d2bb, 0xeb86d391]

/-- The rotations of the four rounds, which repeat with period four. -/
def shifts : List (List ℕ) := [[7, 12, 17, 22], [5, 9, 14, 20], [4, 11, 16, 23], [6, 10, 15, 21]]

structure State where
  a : BitVec 32
  b : BitVec 32
  c : BitVec 32
  d : BitVec 32

def init : State := ⟨0x67452301, 0xefcdab89, 0x98badcfe, 0x10325476⟩

/-- The function of each round. -/
def roundFun (round : ℕ) (x y z : BitVec 32) : BitVec 32 :=
  match round with
  | 0 => z ^^^ (x &&& (y ^^^ z))
  | 1 => y ^^^ (z &&& (x ^^^ y))
  | 2 => x ^^^ y ^^^ z
  | _ => y ^^^ (x ||| ~~~z)

/-- The word of the block that a step uses. -/
def wordIndex (i : ℕ) : ℕ :=
  match i / 16 with
  | 0 => i
  | 1 => (5 * i + 1) % 16
  | 2 => (3 * i + 5) % 16
  | _ => 7 * i % 16

/-- One step; the roles of the four words rotate with it. -/
def step (block : List Byte) (s : State) (i : ℕ) : State :=
  let data := BitVec.ofNat 32 (leVal ((block.drop (4 * wordIndex i)).take 4)) + constants.getD i 0
  let w := s.a + roundFun (i / 16) s.b s.c s.d + data
  let w := w.rotateLeft ((shifts.getD (i / 16) []).getD (i % 4) 0)
  ⟨s.d, w + s.b, s.b, s.c⟩

/-- `MD5Transform`. -/
def transform (s : State) (block : List Byte) : State :=
  let t := (List.range 64).foldl (step block) s
  ⟨s.a + t.a, s.b + t.b, s.c + t.c, s.d + t.d⟩

/-- The padding of a message of `n` bytes. -/
def padding (n : ℕ) : List Byte :=
  0x80 :: List.replicate ((119 - n % 64) % 64) 0 ++ le32 (8 * n) ++ le32 (8 * n / 2 ^ 32)

def blocks (message : List Byte) : List (List Byte) :=
  (List.range (message.length / 64)).map fun i => (message.drop (64 * i)).take 64

end Md5

open Md5 in
/-- The digest of a message. -/
def md5 (message : List Byte) : List Byte :=
  let s := (blocks (message ++ padding message.length)).foldl transform init
  wordBytes s.a ++ wordBytes s.b ++ wordBytes s.c ++ wordBytes s.d

@[simp] lemma length_md5 (message : List Byte) : (md5 message).length = 16 := rfl

example : md5 [] = [0xd4, 0x1d, 0x8c, 0xd9, 0x8f, 0x00, 0xb2, 0x04, 0xe9, 0x80, 0x09, 0x98, 0xec,
    0xf8, 0x42, 0x7e] := by
  decide +kernel

end EspIdf.Lib
