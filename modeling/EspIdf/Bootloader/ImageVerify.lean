/-
# Image verification equals its specification

What `image_load` computes does not depend on how the data are cut: the loops over words, steps of
1 KB and mapped pieces have the effect of one step over a whole segment.  From there the image is
accepted exactly if it is valid, which is a statement about the bytes in the partition.
-/
import EspIdf.Bootloader.ImageFormat

namespace EspIdf.Bootloader

open EspIdf.Lib

/-! ### The checksum -/

/-- The checksum of bytes. -/
def xorBytes (c : Byte) (bs : List Byte) : Byte := bs.foldl (· ^^^ ·) c

/-- The words of the data added to the checksum word. -/
def xorWords (c : BitVec 32) : List Byte → BitVec 32
  | b₀ :: b₁ :: b₂ :: b₃ :: rest => xorWords (c ^^^ (b₃ ++ b₂ ++ b₁ ++ b₀)) rest
  | _ => c

lemma checksumByte_xor (a b : BitVec 32) :
    checksumByte (a ^^^ b) = checksumByte a ^^^ checksumByte b := by
  simp only [checksumByte, BitVec.ushiftRight_xor_distrib, BitVec.setWidth_xor]
  ac_rfl

/-- The bits of a word that is put together from its bytes. -/
lemma getLsbD_word (b₀ b₁ b₂ b₃ : Byte) (j : ℕ) :
    (b₃ ++ b₂ ++ b₁ ++ b₀ : BitVec 32).getLsbD j =
      if j < 8 then b₀.getLsbD j
      else if j - 8 < 8 then b₁.getLsbD (j - 8)
      else if j - 8 - 8 < 8 then b₂.getLsbD (j - 8 - 8)
      else b₃.getLsbD (j - 8 - 8 - 8) := by
  have h : @BitVec.getLsbD (8 + 8 + 8 + 8) (b₃ ++ b₂ ++ b₁ ++ b₀) j = _ := BitVec.getLsbD_append
  refine h.trans ?_
  rw [BitVec.getLsbD_append, BitVec.getLsbD_append]

lemma checksumByte_word (b₀ b₁ b₂ b₃ : Byte) :
    checksumByte (b₃ ++ b₂ ++ b₁ ++ b₀) = b₀ ^^^ b₁ ^^^ b₂ ^^^ b₃ := by
  apply BitVec.eq_of_getLsbD_eq
  intro i hi
  simp only [checksumByte, BitVec.getLsbD_xor, BitVec.getLsbD_setWidth, BitVec.getLsbD_ushiftRight,
    getLsbD_word, hi, decide_true, Bool.true_and, if_true]
  rw [if_neg (by omega), if_neg (by omega), if_neg (by omega), if_neg (by omega), if_neg (by omega),
    if_pos (by omega), if_neg (by omega), if_pos (by omega),
    show 24 + i - 8 - 8 - 8 = i by omega, show 16 + i - 8 - 8 = i by omega,
    show 8 + i - 8 = i by omega]
  cases b₀.getLsbD i <;> cases b₁.getLsbD i <;> cases b₂.getLsbD i <;> cases b₃.getLsbD i <;> rfl

/-- The checksum word stands for the checksum of the bytes. -/
lemma checksumByte_xorWords (c : BitVec 32) (bs : List Byte) (h : bs.length % 4 = 0) :
    checksumByte (xorWords c bs) = xorBytes (checksumByte c) bs := by
  induction c, bs using xorWords.induct with
  | case1 c b₀ b₁ b₂ b₃ rest ih =>
    have hrest : rest.length % 4 = 0 := by
      simp only [List.length_cons] at h
      omega
    rw [xorWords, ih hrest, checksumByte_xor, checksumByte_word]
    simp only [xorBytes, List.foldl_cons, BitVec.xor_assoc]
  | case2 bs c hshort =>
    rcases bs with _ | ⟨b₀, _ | ⟨b₁, _ | ⟨b₂, _ | ⟨b₃, rest⟩⟩⟩⟩
    · rfl
    · simp at h
    · simp at h
    · simp at h
    · exact absurd rfl (hshort b₀ b₁ b₂ b₃ rest)

lemma xorWords_append (c : BitVec 32) (bs cs : List Byte) (h : bs.length % 4 = 0) :
    xorWords c (bs ++ cs) = xorWords (xorWords c bs) cs := by
  induction c, bs using xorWords.induct with
  | case1 c b₀ b₁ b₂ b₃ rest ih =>
    have hrest : rest.length % 4 = 0 := by
      simp only [List.length_cons] at h
      omega
    simp only [List.cons_append, xorWords, ih hrest]
  | case2 bs c hshort =>
    rcases bs with _ | ⟨b₀, _ | ⟨b₁, _ | ⟨b₂, _ | ⟨b₃, rest⟩⟩⟩⟩
    · rfl
    · simp at h
    · simp at h
    · simp at h
    · exact absurd rfl (hshort b₀ b₁ b₂ b₃ rest)

/-! ### The data of a piece -/

lemma sha256Data_eq (sha : ShaHandle) {bs : List Byte} (h : bs.length % 4 = 0) :
    sha256Data sha bs = .ok (sha.map (· ++ bs)) := by
  cases sha with
  | none => rfl
  | some fed => simp [sha256Data, h]

lemma map_append_append (sha : ShaHandle) (bs cs : List Byte) :
    (sha.map (· ++ bs)).map (· ++ cs) = sha.map (· ++ (bs ++ cs)) := by
  cases sha <;> simp

lemma map_append_nil (sha : ShaHandle) : sha.map (· ++ []) = sha := by
  cases sha <;> simp

lemma drop_four {src : List Byte} {i : ℕ} (h : i + 4 ≤ src.length) :
    src.drop i = src.getD i 0#8 :: src.getD (i + 1) 0#8 :: src.getD (i + 2) 0#8 ::
      src.getD (i + 3) 0#8 :: src.drop (i + 4) := by
  rw [List.drop_eq_getElem_cons (show i < src.length by omega),
    List.drop_eq_getElem_cons (show i + 1 < src.length by omega),
    List.drop_eq_getElem_cons (show i + 1 + 1 < src.length by omega),
    List.drop_eq_getElem_cons (show i + 1 + 1 + 1 < src.length by omega)]
  simp [List.getD, show i < src.length by omega, show i + 1 < src.length by omega,
    show i + 2 < src.length by omega, show i + 3 < src.length by omega]

/-- The bytes that have been fed when the loop is at the offset `i`. -/
def fedTo (len i : ℕ) : ℕ := min len ((i + 1023) / 1024 * 1024)

lemma fedTo_chunk {len q : ℕ} (h : 1024 * q ≤ len) : fedTo len (1024 * q) = 1024 * q := by
  unfold fedTo
  omega

lemma fedTo_chunk_add {len q : ℕ} (h : 1024 * q ≤ len) :
    fedTo len (1024 * q + 4) = 1024 * q + min 1024 (len - 1024 * q) := by
  have hq : (1024 * q + 4 + 1023) / 1024 = q + 1 := by omega
  rw [fedTo, hq]
  omega

lemma fedTo_add {len i : ℕ} (hi : i % 4 = 0) (h : i % 1024 ≠ 0) :
    fedTo len (i + 4) = fedTo len i := by
  unfold fedTo
  omega

/-- One pass feeds a step of 1 KB, or nothing. -/
lemma feedChunk_eq {src : List Byte} {i : ℕ} (hi : i % 4 = 0) (hle : i ≤ src.length)
    (h4 : src.length % 4 = 0) (sha : ShaHandle) :
    feedChunk src src.length i (sha.map (· ++ src.take (fedTo src.length i))) =
      .ok (sha.map (· ++ src.take (fedTo src.length (i + 4)))) := by
  have hc : shaChunk = 1024 := rfl
  unfold feedChunk
  rw [hc]
  by_cases h : i % 1024 = 0
  · have hlen : ((src.drop i).take (min 1024 (src.length - i))).length % 4 = 0 := by
      rw [List.length_take, List.length_drop]
      omega
    rw [if_pos h, sha256Data_eq _ hlen, map_append_append]
    clear hlen
    obtain ⟨q, rfl⟩ : ∃ q, i = 1024 * q := ⟨i / 1024, by omega⟩
    rw [fedTo_chunk hle, fedTo_chunk_add hle, List.take_add]
  · rw [if_neg h, fedTo_add hi h]

lemma dataLoop_eq {src : List Byte} (h4 : src.length % 4 = 0) {n i : ℕ} (hi : i % 4 = 0)
    (hn : i + 4 * n = src.length) (sha : ShaHandle) (c : BitVec 32) :
    dataLoop src src.length n i (sha.map (· ++ src.take (fedTo src.length i))) c =
      .ok (sha.map (· ++ src), xorWords c (src.drop i)) := by
  induction n generalizing i c with
  | zero =>
    have hend : fedTo src.length i = src.length := by unfold fedTo; omega
    rw [dataLoop, hend, List.take_length, show i = src.length by omega, List.drop_length]
    rfl
  | succ n ih =>
    rw [dataLoop, feedChunk_eq hi (by omega) h4, drop_four (show i + 4 ≤ src.length by omega)]
    exact ih (by omega) (by omega) _

/-- A mapped piece is fed as a whole. -/
lemma processSegmentData_eq {e : Env} {a n : ℕ} (h4 : n % 4 = 0)
    (hmap : e.mmap a n = some (e.flash.read a n)) (sha : ShaHandle) (c : BitVec 32) :
    processSegmentData e a n sha c =
      .ok (sha.map (· ++ e.flash.read a n), xorWords c (e.flash.read a n)) := by
  have hlen : (e.flash.read a n).length = n := Mem.length_read
  have h := dataLoop_eq (show (e.flash.read a n).length % 4 = 0 by omega) (Nat.zero_mod 4)
    (show 0 + 4 * ((n + 3) / 4) = (e.flash.read a n).length by omega) sha c
  have h0 : fedTo n 0 = 0 := by unfold fedTo; omega
  rw [hlen, h0, List.take_zero, map_append_nil, List.drop_zero] at h
  rw [processSegmentData, hmap]
  exact h

/-! ### The data of a segment -/

/-- The pages that are free allow for data that are not aligned; the MMU has 256 entries. -/
structure Env.Maps (e : Env) : Prop where
  two_le : 2 ≤ e.mmapGetFreePages
  le : e.mmapGetFreePages ≤ 256

/-- The flash driver lets `n` bytes at `a` be mapped. -/
def Env.Reachable (e : Env) (a n : ℕ) : Prop := e.build = .app → a + n ≤ e.chipSize

instance (e : Env) (a n : ℕ) : Decidable (e.Reachable a n) := inferInstanceAs (Decidable (_ → _))

variable {e : Env} {a n : ℕ}

/-- A mapping succeeds if its pages are free and it lies in the chip. -/
lemma mmap_eq (h : a + n < 2 ^ 32)
    (hpages : a % mmuPageSize + n ≤ e.mmapGetFreePages * mmuPageSize) :
    e.mmap a n = if e.Reachable a n then some (e.flash.read a n) else none := by
  have hp : mmuPageSize = 0x10000 := rfl
  rcases hb : e.build with _ | _
  · have hfree : e.mmapGetFreePages = e.freePages := by rw [Env.mmapGetFreePages, hb]
    rw [hfree, hp] at hpages
    have hmap : u32 (n + (a - a / 0x10000 * 0x10000)) = n + a % 0x10000 := by
      rw [u32_of_lt (by omega)]
      omega
    have hsum : u32 (a / 0x10000 * 0x10000 + (n + a % 0x10000)) = a + n := by
      rw [show a / 0x10000 * 0x10000 + (n + a % 0x10000) = a + n by omega, u32_of_lt h]
    have hmmap : e.mmap a n =
        if e.chipSize < a + n ∨ e.freePages < (n + a % 0x10000 + (0x10000 - 1)) / 0x10000 then none
        else some (e.flash.read a n) := by
      unfold Env.mmap
      simp only [hb, hp, hmap, hsum]
    rw [hmmap]
    by_cases hchip : a + n ≤ e.chipSize
    · rw [if_neg (by omega), if_pos (show e.Reachable a n from fun _ => hchip)]
    · rw [if_pos (Or.inl (by omega)), if_neg (show ¬ e.Reachable a n from fun hr => hchip (hr hb))]
  · have hfree : e.mmapGetFreePages = mmuFreePages := by rw [Env.mmapGetFreePages, hb]
    have hmmap : e.mmap a n =
        if mmuFreePages * mmuPageSize < n then none else some (e.flash.read a n) := by
      unfold Env.mmap
      simp only [hb]
    have hr : e.Reachable a n := fun happ => by rw [hb] at happ; exact nomatch happ
    rw [hmmap, if_neg (by rw [hfree] at hpages; omega), if_pos hr]

/-- A piece is not empty, it can be mapped, and what follows it begins a page as the data do. -/
lemma pieceLen_spec (hm : e.Maps) (hn : 0 < n) :
    0 < pieceLen e a n ∧ pieceLen e a n ≤ n ∧
      a % mmuPageSize + pieceLen e a n ≤ e.mmapGetFreePages * mmuPageSize ∧
      (pieceLen e a n = n ∨ pieceLen e a n % mmuPageSize = 0) := by
  have h2 := hm.two_le
  have h256 := hm.le
  unfold pieceLen
  generalize e.mmapGetFreePages = free at *
  have hp : mmuPageSize = 0x10000 := rfl
  have hoff : (if a % mmuPageSize ≠ 0 then 1 else 0) ≤ 1 := by split <;> omega
  have hzero : a % mmuPageSize = 0 ∨ (if a % mmuPageSize ≠ 0 then 1 else 0) = 1 := by
    by_cases h : a % mmuPageSize = 0
    · exact .inl h
    · exact .inr (if_pos h)
  generalize (if a % mmuPageSize ≠ 0 then 1 else 0) = off at *
  have hlt : a % mmuPageSize < mmuPageSize := Nat.mod_lt a (by decide)
  simp only
  rw [u32Sub_of_le (by omega) (by omega), u32_of_lt (by rw [hp]; omega)]
  rw [hp] at *
  refine ⟨by omega, Nat.min_le_left _ _, by omega, ?_⟩
  omega

/-- The pieces of a segment are fed as the whole segment. -/
lemma segmentLoop_eq (hm : e.Maps) (h : a + n < 2 ^ 32) (h4 : n % 4 = 0) (sha : ShaHandle)
    (c : BitVec 32) :
    segmentLoop e a n sha c =
      if n = 0 ∨ e.Reachable a n then
        .ok (sha.map (· ++ e.flash.read a n), xorWords c (e.flash.read a n))
      else .error .fail := by
  induction n using Nat.strongRecOn generalizing a sha c with
  | _ n ih =>
    unfold segmentLoop
    by_cases h0 : n = 0
    · subst h0
      rw [if_pos rfl, if_pos (.inl rfl)]
      show _ = Except.ok (sha.map (· ++ []), xorWords c [])
      rw [map_append_nil]
      rfl
    · obtain ⟨hpos, hle, hpages, hend⟩ := pieceLen_spec (e := e) (a := a) hm (show 0 < n by omega)
      rw [if_neg h0, dif_neg (by omega)]
      generalize pieceLen e a n = p at *
      have hp4 : p % 4 = 0 := by
        rcases hend with rfl | hmod
        · exact h4
        · rw [show mmuPageSize = 0x10000 from rfl] at hmod
          omega
      have hmap := mmap_eq (e := e) (a := a) (n := p) (by omega) hpages
      by_cases hr : e.Reachable a p
      · rw [if_pos hr] at hmap
        simp only [processSegmentData_eq hp4 hmap]
        have hrest := ih (n - p) (by omega) (a := a + p) (by omega) (by omega)
          (sha.map (· ++ e.flash.read a p)) (xorWords c (e.flash.read a p))
        rw [map_append_append, ← xorWords_append _ _ _ (by rwa [Mem.length_read]),
          ← Mem.read_append, Nat.add_sub_cancel' hle] at hrest
        have hiff : (n - p = 0 ∨ e.Reachable (a + p) (n - p)) ↔ (n = 0 ∨ e.Reachable a n) := by
          unfold Env.Reachable at *
          constructor
          · rintro (hlast | hreach)
            · rw [show n = p by omega]
              exact .inr hr
            · exact .inr fun hb => by have := hreach hb; omega
          · rintro (hn | hreach)
            · omega
            · exact .inr fun hb => by have := hreach hb; omega
        rw [u32_of_lt (by omega)]
        show segmentLoop e (a + p) (n - p) _ _ = _
        rw [hrest]
        simp only [hiff]
      · rw [if_neg hr] at hmap
        have hnr : ¬ (n = 0 ∨ e.Reachable a n) := by
          rintro (hn | hreach)
          · exact h0 hn
          · exact hr fun hb => by have := hreach hb; omega
        rw [if_neg hnr]
        simp only [processSegmentData, hmap]
        rfl

/-! ### The segments of an image -/

/-- The segment header at the address `p`. -/
def headerAt (m : Mem) (p : ℕ) : SegmentHeader := segmentHeader (m.read p 8)

/-- Where the segment that follows the one at `p` begins. -/
def nextSegment (m : Mem) (p : ℕ) : ℕ := p + 8 + (headerAt m p).dataLen

/-- Where the `i`-th segment from `p` on begins. -/
def segmentAt (m : Mem) (p : ℕ) : ℕ → ℕ
  | 0 => p
  | i + 1 => segmentAt m (nextSegment m p) i

/-- The data of `n` segments from `p` on. -/
def dataFrom (m : Mem) (p : ℕ) : ℕ → List Byte
  | 0 => []
  | n + 1 => m.read (p + 8) (headerAt m p).dataLen ++ dataFrom m (nextSegment m p) n

/-- The headers of `n` segments from `p` on. -/
def headersFrom (m : Mem) (p : ℕ) : ℕ → List SegmentHeader
  | 0 => []
  | n + 1 => headerAt m p :: headersFrom m (nextSegment m p) n

/-- Where the data of `n` segments from `p` on begin. -/
def dataAddrsFrom (m : Mem) (p : ℕ) : ℕ → List ℕ
  | 0 => []
  | n + 1 => (p + 8) :: dataAddrsFrom m (nextSegment m p) n

/-- A segment header at `p` that is accepted. -/
structure SegmentValid (m : Mem) (p : ℕ) : Prop where
  len_mod : (headerAt m p).dataLen % 4 = 0
  len_lt : (headerAt m p).dataLen < 0x1000000
  mapped : shouldMap (headerAt m p).loadAddr = true →
    (p + 8) % mmuPageSize = (headerAt m p).loadAddr % mmuPageSize

/-- The `n` segments from `p` on are accepted. -/
def SegmentsValid (m : Mem) (p n : ℕ) : Prop := ∀ i < n, SegmentValid m (segmentAt m p i)

variable {m : Mem} {p : ℕ} {sha : ShaHandle} {c : BitVec 32}

lemma verifySegmentHeader_iff :
    verifySegmentHeader (headerAt m p) (p + 8) = true ↔ SegmentValid m p := by
  unfold verifySegmentHeader
  constructor
  · intro h
    split_ifs at h with hlen hmap
    push Not at hlen hmap
    exact ⟨hlen.1, hlen.2, hmap⟩
  · intro h
    rw [if_neg (by have := h.len_mod; have := h.len_lt; omega),
      if_neg fun hmap => hmap.2 (h.mapped hmap.1)]

lemma segmentsValid_succ {k : ℕ} : SegmentsValid m p (k + 1) ↔
    SegmentValid m p ∧ SegmentsValid m (nextSegment m p) k := by
  constructor
  · intro h
    exact ⟨h 0 (by omega), fun i hi => h (i + 1) (by omega)⟩
  · rintro ⟨h0, h⟩ i hi
    cases i with
    | zero => exact h0
    | succ i => exact h i (by omega)

lemma nextSegment_le (h : SegmentValid m p) : nextSegment m p + 4 ≤ p + (8 + 0x1000000) := by
  have h1 := h.len_lt
  have h2 := h.len_mod
  unfold nextSegment
  omega

lemma le_segmentAt (k : ℕ) : p ≤ segmentAt m p k := by
  induction k generalizing p with
  | zero => exact Nat.le_refl p
  | succ k ih =>
    refine Nat.le_trans ?_ ih
    unfold nextSegment
    omega

lemma segmentAt_le {k : ℕ} (h : SegmentsValid m p k) :
    segmentAt m p k ≤ p + k * (8 + 0x1000000) := by
  induction k generalizing p with
  | zero => exact Nat.le_refl p
  | succ k ih =>
    rw [segmentsValid_succ] at h
    have h1 := nextSegment_le h.1
    have h2 := ih h.2
    rw [segmentAt]
    omega

lemma segmentAt_mod {k : ℕ} (h : SegmentsValid m p k) : segmentAt m p k % 4 = p % 4 := by
  induction k generalizing p with
  | zero => rfl
  | succ k ih =>
    rw [segmentsValid_succ] at h
    have h1 := h.1.len_mod
    rw [segmentAt, ih h.2, nextSegment]
    omega

lemma dataFrom_length {k : ℕ} (h : SegmentsValid m p k) : (dataFrom m p k).length % 4 = 0 := by
  induction k generalizing p with
  | zero => rfl
  | succ k ih =>
    rw [segmentsValid_succ] at h
    have h1 := h.1.len_mod
    have h2 := ih h.2
    rw [dataFrom, List.length_append, Mem.length_read]
    omega

/-- A chain of steps that succeeds. -/
lemma bind_eq_ok {ε α β : Type} {x : Except ε α} {f : α → Except ε β} {b : β} :
    (x >>= f) = .ok b ↔ ∃ y, x = .ok y ∧ f y = .ok b := by
  cases x <;> simp [bind, Except.bind]

/-- The flash driver lets `n` bytes at `a` be read. -/
def Env.Readable (e : Env) (a n : ℕ) : Prop :=
  e.Reachable a n ∧ (e.build = .bootloader → a % 4 = 0 ∧ n % 4 = 0)

lemma flashRead_of_readable (h : e.Readable a n) (hlt : a + n < 2 ^ 32) :
    e.flashRead a n = .ok (e.flash.read a n) := by
  unfold Env.flashRead
  rcases hb : e.build with _ | _
  · have hr := h.1 hb
    simp only
    rw [u32_of_lt hlt, if_neg (by omega)]
  · have hr := h.2 hb
    simp only
    rw [if_neg (by omega)]

lemma flashRead_ok {bs : List Byte} (h : e.flashRead a n = .ok bs) : bs = e.flash.read a n := by
  unfold Env.flashRead at h
  split at h <;> split_ifs at h <;> exact (Except.ok.inj h).symm

/-- What is left of a segment that has been processed. -/
def processed (m : Mem) (p : ℕ) (sha : ShaHandle) (c : BitVec 32) : Processed :=
  ⟨headerAt m p, sha.map (· ++ m.read p (8 + (headerAt m p).dataLen)),
    xorWords c (m.read (p + 8) (headerAt m p).dataLen)⟩

/-- A segment is processed as a whole. -/
lemma processSegment_eq (hm : e.Maps) (hp : p + (8 + 0x1000000) ≤ 2 ^ 32)
    (hread : e.flashRead p 8 = .ok (e.flash.read p 8)) :
    processSegment e p sha c =
      if verifySegmentHeader (headerAt e.flash p) (p + 8) = false then .error .imageInvalid
      else if (headerAt e.flash p).dataLen = 0 ∨
          e.Reachable (p + 8) (headerAt e.flash p).dataLen then
        .ok (processed e.flash p sha c)
      else .error .fail := by
  have hsha := sha256Data_eq sha (show (e.flash.read p 8).length % 4 = 0 by rw [Mem.length_read])
  have haddr : u32 (p + 8) = p + 8 := u32_of_lt (by omega)
  have hheader : segmentHeader (e.flash.read p 8) = headerAt e.flash p := rfl
  simp only [processSegment, hread, bind, Except.bind, hsha, haddr, hheader]
  by_cases hv : verifySegmentHeader (headerAt e.flash p) (p + 8) = false
  · rw [if_pos hv, if_pos hv]
  · have hvalid : SegmentValid e.flash p := verifySegmentHeader_iff.mp (by simpa using hv)
    have hlt := hvalid.len_lt
    rw [if_neg hv, if_neg hv, if_neg (not_not.mpr hvalid.len_mod),
      segmentLoop_eq hm (by omega) hvalid.len_mod]
    by_cases hr : (headerAt e.flash p).dataLen = 0 ∨
        e.Reachable (p + 8) (headerAt e.flash p).dataLen
    · rw [if_pos hr, if_pos hr, map_append_append, ← Mem.read_append]
      rfl
    · rw [if_neg hr, if_neg hr]

/-- What is left of segments that have been loaded. -/
def loaded (m : Mem) (p : ℕ) (sha : ShaHandle) (c : BitVec 32) (k : ℕ) : Segments :=
  ⟨headersFrom m p k, dataAddrsFrom m p k, segmentAt m p k,
    sha.map (· ++ m.read p (segmentAt m p k - p)), xorWords c (dataFrom m p k)⟩

/-- Loading one segment more. -/
lemma loaded_succ {k : ℕ} (hvalid : SegmentValid m p) :
    (loaded m (nextSegment m p) (sha.map (· ++ m.read p (8 + (headerAt m p).dataLen)))
      (xorWords c (m.read (p + 8) (headerAt m p).dataLen)) k).cons (headerAt m p) (p + 8) =
        loaded m p sha c (k + 1) := by
  have hle := le_segmentAt (m := m) (p := nextSegment m p) k
  have hnext : nextSegment m p = p + (8 + (headerAt m p).dataLen) := Nat.add_assoc _ _ _
  have hread : m.read p (8 + (headerAt m p).dataLen) ++
      m.read (nextSegment m p) (segmentAt m (nextSegment m p) k - nextSegment m p) =
        m.read p (segmentAt m p (k + 1) - p) := by
    have he : segmentAt m p (k + 1) - p = 8 + (headerAt m p).dataLen +
        (segmentAt m (nextSegment m p) k - nextSegment m p) := by
      rw [segmentAt]
      omega
    rw [he, Mem.read_append (n := 8 + (headerAt m p).dataLen), ← hnext]
  simp only [loaded, Segments.cons, map_append_append, hread]
  rw [← xorWords_append _ _ _ (by rw [Mem.length_read]; exact hvalid.len_mod)]
  rfl

/-- The result of a pass over a segment that can be read. -/
lemma loadSegments_succ (hm : e.Maps) {k : ℕ} (hp : p + (8 + 0x1000000) ≤ 2 ^ 32)
    (hvalid : SegmentValid e.flash p) (hread : e.flashRead p 8 = .ok (e.flash.read p 8))
    (hreach : (headerAt e.flash p).dataLen = 0 ∨ e.Reachable (p + 8) (headerAt e.flash p).dataLen) :
    loadSegments e (k + 1) p sha c =
      (loadSegments e k (nextSegment e.flash p)
        (sha.map (· ++ e.flash.read p (8 + (headerAt e.flash p).dataLen)))
        (xorWords c (e.flash.read (p + 8) (headerAt e.flash p).dataLen)) >>=
          fun rest => .ok (rest.cons (headerAt e.flash p) (p + 8))) := by
  have hlt := hvalid.len_lt
  have hv := verifySegmentHeader_iff.mpr hvalid
  rw [loadSegments, processSegment_eq hm hp hread, if_neg (by rw [hv]; exact Bool.noConfusion),
    if_pos hreach]
  simp only [bind, Except.bind, processed]
  rw [u32_of_lt (show p + 8 < 2 ^ 32 by omega), u32_of_lt (by omega)]
  rfl

/-- Segments that have been loaded are accepted, and they are fed as they stand in the flash. -/
lemma loadSegments_ok (hm : e.Maps) {k : ℕ} (hp : p + k * (8 + 0x1000000) ≤ 2 ^ 32) {r : Segments}
    (h : loadSegments e k p sha c = .ok r) :
    SegmentsValid e.flash p k ∧ r = loaded e.flash p sha c k := by
  induction k generalizing p sha c r with
  | zero =>
    refine ⟨fun i hi => absurd hi (by omega), ?_⟩
    have hnil : e.flash.read p (p - p) = [] := by rw [Nat.sub_self]; rfl
    rw [loaded, segmentAt, hnil, map_append_nil]
    exact (Except.ok.inj h).symm
  | succ k ih =>
    -- the header was read, it is accepted, and the data were mapped
    have h' := h
    rw [loadSegments, bind_eq_ok] at h'
    obtain ⟨done, hdone, -⟩ := h'
    have hread : e.flashRead p 8 = .ok (e.flash.read p 8) := by
      rw [processSegment, bind_eq_ok] at hdone
      obtain ⟨bs, hbs, -⟩ := hdone
      rw [hbs, flashRead_ok hbs]
    rw [processSegment_eq hm (by omega) hread] at hdone
    split_ifs at hdone with hv hr
    have hvalid : SegmentValid e.flash p := verifySegmentHeader_iff.mp (by simpa using hv)
    have hnext := nextSegment_le hvalid
    rw [loadSegments_succ hm (by omega) hvalid hread hr, bind_eq_ok] at h
    obtain ⟨rest, hrest, hr'⟩ := h
    obtain ⟨hall, rfl⟩ := ih (by omega) hrest
    refine ⟨segmentsValid_succ.mpr ⟨hvalid, hall⟩, ?_⟩
    rw [← loaded_succ hvalid]
    exact (Except.ok.inj hr').symm

/-- Segments that are accepted are loaded where the flash driver lets them be read. -/
lemma loadSegments_of_valid (hm : e.Maps) {k : ℕ} (hp : p + k * (8 + 0x1000000) ≤ 2 ^ 32)
    (hvalid : SegmentsValid e.flash p k)
    (hchip : e.build = .app → segmentAt e.flash p k ≤ e.chipSize)
    (hal : e.build = .bootloader → p % 4 = 0) :
    loadSegments e k p sha c = .ok (loaded e.flash p sha c k) := by
  induction k generalizing p sha c with
  | zero =>
    have hnil : e.flash.read p (p - p) = [] := by rw [Nat.sub_self]; rfl
    rw [loaded, segmentAt, hnil, map_append_nil]
    rfl
  | succ k ih =>
    rw [segmentsValid_succ] at hvalid
    have hnext := nextSegment_le hvalid.1
    have hle := le_segmentAt (m := e.flash) (p := nextSegment e.flash p) k
    have hend : nextSegment e.flash p = p + 8 + (headerAt e.flash p).dataLen := rfl
    have hlen := hvalid.1.len_mod
    have hread : e.flashRead p 8 = .ok (e.flash.read p 8) := by
      refine flashRead_of_readable ⟨fun hb => ?_, fun hb => ⟨hal hb, rfl⟩⟩ (by omega)
      have := hchip hb
      rw [segmentAt] at this
      omega
    have hreach : e.Reachable (p + 8) (headerAt e.flash p).dataLen := by
      intro hb
      have := hchip hb
      rw [segmentAt] at this
      omega
    rw [loadSegments_succ hm (by omega) hvalid.1 hread (.inr hreach),
      ih (by omega) hvalid.2 hchip (fun hb => by have := hal hb; omega)]
    rw [← loaded_succ hvalid.1]
    rfl

lemma flashRead_ne_hang : e.flashRead a n ≠ .error .hang := by
  unfold Env.flashRead
  split <;> split_ifs <;> exact fun h => nomatch h

lemma bind_ne_hang {α β : Type} {x : Except ImageErr α} {f : α → Except ImageErr β}
    (hx : x ≠ .error .hang) (hf : ∀ v, x = .ok v → f v ≠ .error .hang) :
    (x >>= f) ≠ .error .hang := by
  cases x with
  | error err => exact fun h => hx (congrArg _ (Except.error.inj h))
  | ok v => exact hf v rfl

lemma sha256Data_ne_hang {data : List Byte} : sha256Data sha data ≠ .error .hang := by
  unfold sha256Data
  split
  · exact fun h => nomatch h
  · split <;> exact fun h => nomatch h

/-- The loops come to an end. -/
lemma loadSegments_ne_hang (hm : e.Maps) {k : ℕ} (hp : p + k * (8 + 0x1000000) ≤ 2 ^ 32) :
    loadSegments e k p sha c ≠ .error .hang := by
  induction k generalizing p sha c with
  | zero => exact fun h => nomatch h
  | succ k ih =>
    rcases hread : e.flashRead p 8 with err | bs
    · have hne : err ≠ .hang := fun h => flashRead_ne_hang (h ▸ hread)
      simp only [loadSegments, processSegment, hread, bind, Except.bind]
      exact fun h => hne (Except.error.inj h)
    · rw [flashRead_ok hread] at hread
      have hseg : processSegment e p sha c = _ := processSegment_eq hm (by omega) hread
      by_cases hv : verifySegmentHeader (headerAt e.flash p) (p + 8) = false
      · rw [if_pos hv] at hseg
        rw [loadSegments, hseg]
        exact fun h => nomatch h
      · rw [if_neg hv] at hseg
        have hvalid : SegmentValid e.flash p := verifySegmentHeader_iff.mp (by simpa using hv)
        by_cases hr : (headerAt e.flash p).dataLen = 0 ∨
            e.Reachable (p + 8) (headerAt e.flash p).dataLen
        · have hnext := nextSegment_le hvalid
          rw [loadSegments_succ hm (by omega) hvalid hread hr]
          cases hrest : loadSegments e k (nextSegment e.flash p)
            (sha.map (· ++ e.flash.read p (8 + (headerAt e.flash p).dataLen)))
            (xorWords c (e.flash.read (p + 8) (headerAt e.flash p).dataLen)) with
          | error err =>
            intro h
            exact ih (by omega) (hrest.trans h)
          | ok rest => exact fun h => nomatch h
        · rw [if_neg hr] at hseg
          rw [loadSegments, hseg]
          exact fun h => nomatch h

/-! ### The whole image -/

/-- Where the checksum of an image whose segments end after `u` bytes ends: the byte behind the
segments, filled up to a block of 16. -/
def paddedLen (u : ℕ) : ℕ := (u + 1 + 15) / 16 * 16

/-- The image header at the address `a`. -/
def imageAt (m : Mem) (a : ℕ) : ImageHeader := m.read a 24

/-- The length of the header and the segments of the image at `a`. -/
def unpaddedLen (m : Mem) (a : ℕ) : ℕ :=
  segmentAt m (a + 24) (imageAt m a).segmentCount - a

/-- A valid image of `total` bytes at the start of a partition. -/
structure ValidImage (e : Env) (part : PartitionPos) (total : ℕ) : Prop where
  magic : (imageAt e.flash part.offset).magic = 0xe9#8
  chip : e.chipId = (imageAt e.flash part.offset).chipId
  revision : (imageAt e.flash part.offset).minChipRev ≤ e.chipRevision
  count : (imageAt e.flash part.offset).segmentCount ≤ imageMaxSegments
  segments : SegmentsValid e.flash (part.offset + 24) (imageAt e.flash part.offset).segmentCount
  checksum : e.flash (part.offset + paddedLen (unpaddedLen e.flash part.offset) - 1) =
    xorBytes 0xef#8
      (dataFrom e.flash (part.offset + 24) (imageAt e.flash part.offset).segmentCount)
  length : total = paddedLen (unpaddedLen e.flash part.offset) +
    if (imageAt e.flash part.offset).hashAppended then hashLen else 0
  fits : total ≤ part.size
  hash : (imageAt e.flash part.offset).hashAppended = true →
    e.flash.read (part.offset + total - hashLen) hashLen =
      e.sha256 (e.flash.read part.offset (total - hashLen))

/-- What is returned for the image of `total` bytes. -/
def metadataOf (e : Env) (part : PartitionPos) (total : ℕ) : Metadata :=
  let image := imageAt e.flash part.offset
  ⟨part.offset, image, headersFrom e.flash (part.offset + 24) image.segmentCount,
    dataAddrsFrom e.flash (part.offset + 24) image.segmentCount, total,
    if image.hashAppended then e.flash.read (part.offset + total - hashLen) hashLen
    else List.replicate hashLen 0#8⟩

/-- A partition for an application: it lies in the chip, which has 31-bit addresses, begins with a
word, and is not where the bootloader is. -/
structure AppPartition (e : Env) (part : PartitionPos) : Prop where
  size_le : part.size ≤ 0x1000000
  in_chip : part.offset + part.size ≤ e.chipSize
  chip_le : e.chipSize ≤ 2 ^ 31
  aligned : part.offset % 4 = 0
  not_bootloader : part.offset ≠ espBootloaderOffset

section Image

variable {part : PartitionPos} {u total : ℕ}

lemma verifyImageHeader_ok {image : ImageHeader} : verifyImageHeader e image = .ok () ↔
    image.magic = 0xe9#8 ∧ e.chipId = image.chipId ∧ image.minChipRev ≤ e.chipRevision := by
  unfold verifyImageHeader checkChipValidity
  split_ifs with hmagic hchip
  · simp [hmagic]
  · simp only [decide_eq_false_iff_not, not_and] at hchip
    simp only [false_iff, not_and]
    exact fun _ => hchip
  · simp only [decide_eq_false_iff_not, not_not] at hmagic hchip
    simp [hmagic, hchip]

/-- The first `k` bytes of the image, if they are to be hashed. -/
def fedBefore (e : Env) (part : PartitionPos) (k : ℕ) : ShaHandle :=
  if (imageAt e.flash part.offset).hashAppended then some (e.flash.read part.offset k) else none

lemma fedBefore_append (k j : ℕ) :
    (fedBefore e part k).map (· ++ e.flash.read (part.offset + k) j) =
      fedBefore e part (k + j) := by
  unfold fedBefore
  split
  · rw [Option.map_some, Mem.read_append]
  · rfl

lemma startSha_eq : startSha (imageAt e.flash part.offset) = .ok (fedBefore e part 24) := by
  unfold startSha fedBefore
  split
  · rw [sha256Data_eq _ (by rw [imageAt, Mem.length_read])]
    rfl
  · rfl

/-- The padded length is that of whole blocks. -/
lemma paddedLen_spec (u : ℕ) : u < paddedLen u ∧ paddedLen u ≤ u + 16 ∧ paddedLen u % 16 = 0 := by
  unfold paddedLen
  omega

/-- The checksum is compared with the byte in front of the next block. -/
lemma verifyChecksum_eq {start : ℕ} (hashAppended : Bool) (hu : u < 2 ^ 30) (hu4 : u % 4 = 0)
    (hstart : start ≤ 2 ^ 31)
    (hread : e.flashRead (start + u) (paddedLen u - u) =
      .ok (e.flash.read (start + u) (paddedLen u - u))) :
    verifyChecksum e start u hashAppended sha c =
      if checksumByte c ≠ e.flash (start + paddedLen u - 1) then .error .imageInvalid
      else .ok (paddedLen u + (if hashAppended then hashLen else 0),
        sha.map (· ++ e.flash.read (start + u) (paddedLen u - u))) := by
  obtain ⟨h1, h2, h3⟩ := paddedLen_spec u
  have hlen : u32 (u32 (u + 1) + 15) / 16 * 16 = paddedLen u := by
    rw [u32_of_lt (show u + 1 < 2 ^ 32 by omega), u32_of_lt (by omega)]
    rfl
  have hsub : u32Sub (paddedLen u) u = paddedLen u - u := u32Sub_of_le (by omega) (by omega)
  have hsha := sha256Data_eq sha
    (show (e.flash.read (start + u) (paddedLen u - u)).length % 4 = 0 by
      rw [Mem.length_read]; omega)
  have hbyte : (e.flash.read (start + u) (paddedLen u - u)).getD (paddedLen u - u - 1) 0#8 =
      e.flash (start + paddedLen u - 1) := by
    rw [Mem.getD_read (by omega)]
    congr 1
    omega
  unfold verifyChecksum
  simp only [hlen, hsub, u32_of_lt (show start + u < 2 ^ 32 by omega), hread, hbyte]
  split
  · rfl
  · rw [hsha]
    cases hashAppended <;> rfl

/-- The hash that is appended to an image. -/
lemma mmap_hash (hm : e.Maps) (hpart : AppPartition e part) (htotal : total ≤ part.size)
    (hhash : hashLen ≤ total) :
    e.mmap (u32Sub (u32 (part.offset + total)) hashLen) hashLen =
      some (e.flash.read (part.offset + total - hashLen) hashLen) := by
  have hin := hpart.in_chip
  have hchip := hpart.chip_le
  have h2 := hm.two_le
  have h32 : hashLen = 32 := rfl
  have hp : mmuPageSize = 0x10000 := rfl
  rw [u32_of_lt (show part.offset + total < 2 ^ 32 by omega),
    u32Sub_of_le (by omega) (by omega), mmap_eq (by omega), if_pos]
  · intro _
    omega
  · have := Nat.mod_lt (part.offset + total - hashLen) (show 0 < mmuPageSize by decide)
    have := Nat.mul_le_mul_right mmuPageSize h2
    omega

/-- The last steps of an image that is as long as it should be. -/
lemma finishImage_eq (hm : e.Maps) (hpart : AppPartition e part) (hocd : e.ocdDebug = false)
    {segments : Segments}
    (hheaders : segments.headers = headersFrom e.flash (part.offset + 24)
      (imageAt e.flash part.offset).segmentCount)
    (hdata : segments.dataAddrs = dataAddrsFrom e.flash (part.offset + 24)
      (imageAt e.flash part.offset).segmentCount)
    (hhash : (imageAt e.flash part.offset).hashAppended = true → hashLen ≤ total) :
    finishImage e part (imageAt e.flash part.offset) segments total
        (fedBefore e part (total - hashLen)) =
      if total ≤ part.size ∧ ((imageAt e.flash part.offset).hashAppended = true →
          e.flash.read (part.offset + total - hashLen) hashLen =
            e.sha256 (e.flash.read part.offset (total - hashLen))) then
        .ok (metadataOf e part total)
      else .error .imageInvalid := by
  have hne := hpart.not_bootloader
  unfold finishImage
  by_cases hfits : total ≤ part.size
  · rw [if_neg (by rintro ⟨-, h⟩; omega)]
    cases happ : (imageAt e.flash part.offset).hashAppended with
    | false =>
      rw [if_pos ⟨hfits, fun h => nomatch h⟩]
      simp only [fedBefore, happ, checkHash, imageDigest, metadataOf, hheaders, hdata]
      rfl
    | true =>
      have hmmap := mmap_hash hm hpart hfits (hhash happ)
      have hcheck : checkHash e part total (fedBefore e part (total - hashLen)) =
          if e.flash.read (part.offset + total - hashLen) hashLen =
            e.sha256 (e.flash.read part.offset (total - hashLen)) then .ok ()
          else .error .imageInvalid := by
        have hcond : part.offset ≠ espBootloaderOffset ∧ e.ocdDebug = false := ⟨hne, hocd⟩
        simp only [fedBefore, happ, if_true, checkHash, verifySimpleHash, hmmap]
        rw [if_pos hcond]
        exact ite_not _ _ _
      rw [hcheck]
      by_cases heq : e.flash.read (part.offset + total - hashLen) hashLen =
          e.sha256 (e.flash.read part.offset (total - hashLen))
      · rw [if_pos heq, if_pos ⟨hfits, fun _ => heq⟩]
        simp only [imageDigest, happ, hmmap, metadataOf, hheaders, hdata]
        rfl
      · rw [if_neg heq, if_neg fun h => heq (h.2 rfl)]
        simp only [imageDigest, happ, hmmap]
        rfl
  · rw [if_pos ⟨hne, by omega⟩, if_neg fun h => hfits h.1]

/-- The bounds that keep the sums of addresses from wrapping around. -/
lemma unpaddedLen_spec (hpart : AppPartition e part)
    (hcount : (imageAt e.flash part.offset).segmentCount ≤ imageMaxSegments)
    (hsegments : SegmentsValid e.flash (part.offset + 24)
      (imageAt e.flash part.offset).segmentCount) :
    part.offset + unpaddedLen e.flash part.offset =
        segmentAt e.flash (part.offset + 24) (imageAt e.flash part.offset).segmentCount ∧
      24 ≤ unpaddedLen e.flash part.offset ∧ unpaddedLen e.flash part.offset < 2 ^ 30 ∧
      unpaddedLen e.flash part.offset % 4 = 0 := by
  have h1 := le_segmentAt (m := e.flash) (p := part.offset + 24)
    (imageAt e.flash part.offset).segmentCount
  have h2 := segmentAt_le hsegments
  have h3 := segmentAt_mod hsegments
  have h4 := hpart.aligned
  have h16 : imageMaxSegments = 16 := rfl
  have hmul := Nat.mul_le_mul_right (8 + 0x1000000) (h16 ▸ hcount)
  unfold unpaddedLen
  omega

/-- What has been fed when the checksum has been read. -/
lemma fed_eq (hpart : AppPartition e part)
    (hcount : (imageAt e.flash part.offset).segmentCount ≤ imageMaxSegments)
    (hsegments : SegmentsValid e.flash (part.offset + 24)
      (imageAt e.flash part.offset).segmentCount)
    (htotal : total = paddedLen (unpaddedLen e.flash part.offset) +
      if (imageAt e.flash part.offset).hashAppended then hashLen else 0) :
    ((fedBefore e part 24).map (· ++ e.flash.read (part.offset + 24)
        (segmentAt e.flash (part.offset + 24) (imageAt e.flash part.offset).segmentCount -
          (part.offset + 24)))).map
        (· ++ e.flash.read (part.offset + unpaddedLen e.flash part.offset)
          (paddedLen (unpaddedLen e.flash part.offset) - unpaddedLen e.flash part.offset)) =
      fedBefore e part (total - hashLen) := by
  obtain ⟨hend, h24, -, -⟩ := unpaddedLen_spec hpart hcount hsegments
  obtain ⟨hlt, -, -⟩ := paddedLen_spec (unpaddedLen e.flash part.offset)
  have hsegs : 24 + (segmentAt e.flash (part.offset + 24)
      (imageAt e.flash part.offset).segmentCount - (part.offset + 24)) =
        unpaddedLen e.flash part.offset := by omega
  rw [fedBefore_append, hsegs, fedBefore_append, Nat.add_sub_cancel' (Nat.le_of_lt hlt)]
  cases happ : (imageAt e.flash part.offset).hashAppended with
  | false => simp [fedBefore, happ]
  | true =>
    rw [happ, if_pos rfl] at htotal
    rw [htotal, Nat.add_sub_cancel]

/-- The last steps of `image_load` on accepted segments. -/
lemma checksum_eq (hm : e.Maps) (hpart : AppPartition e part) (hocd : e.ocdDebug = false)
    (hcount : (imageAt e.flash part.offset).segmentCount ≤ imageMaxSegments)
    (hsegments : SegmentsValid e.flash (part.offset + 24)
      (imageAt e.flash part.offset).segmentCount)
    (htotal : total = paddedLen (unpaddedLen e.flash part.offset) +
      if (imageAt e.flash part.offset).hashAppended then hashLen else 0)
    (hread : e.flashRead (part.offset + unpaddedLen e.flash part.offset)
      (paddedLen (unpaddedLen e.flash part.offset) - unpaddedLen e.flash part.offset) =
        .ok (e.flash.read (part.offset + unpaddedLen e.flash part.offset)
          (paddedLen (unpaddedLen e.flash part.offset) - unpaddedLen e.flash part.offset)))
    {segments : Segments}
    (hload : segments = loaded e.flash (part.offset + 24) (fedBefore e part 24) 0xef#32
      (imageAt e.flash part.offset).segmentCount) :
    (checkChecksum e part (imageAt e.flash part.offset) (unpaddedLen e.flash part.offset) segments
        >>= fun checked =>
          finishImage e part (imageAt e.flash part.offset) segments checked.1 checked.2) =
      if e.flash (part.offset + paddedLen (unpaddedLen e.flash part.offset) - 1) =
            xorBytes 0xef#8 (dataFrom e.flash (part.offset + 24)
              (imageAt e.flash part.offset).segmentCount) ∧
          total ≤ part.size ∧ ((imageAt e.flash part.offset).hashAppended = true →
            e.flash.read (part.offset + total - hashLen) hashLen =
              e.sha256 (e.flash.read part.offset (total - hashLen))) then
        .ok (metadataOf e part total)
      else .error .imageInvalid := by
  obtain ⟨hend, h24, hlt, hmod⟩ := unpaddedLen_spec hpart hcount hsegments
  have hin := hpart.in_chip
  have hchip := hpart.chip_le
  have hsum : verifyChecksum e part.offset (unpaddedLen e.flash part.offset)
      (imageAt e.flash part.offset).hashAppended segments.sha segments.checksum = _ :=
    verifyChecksum_eq _ hlt hmod (by omega) hread
  have hbyte : checksumByte segments.checksum = xorBytes 0xef#8 (dataFrom e.flash
      (part.offset + 24) (imageAt e.flash part.offset).segmentCount) := by
    rw [hload]
    exact checksumByte_xorWords _ _ (dataFrom_length hsegments)
  rw [checkChecksum, hocd, if_neg Bool.false_ne_true, hsum, hbyte]
  by_cases hc : e.flash (part.offset + paddedLen (unpaddedLen e.flash part.offset) - 1) =
      xorBytes 0xef#8 (dataFrom e.flash (part.offset + 24)
        (imageAt e.flash part.offset).segmentCount)
  · rw [if_neg (not_not.mpr hc.symm)]
    have hfed := fed_eq hpart hcount hsegments htotal
    have hsha : segments.sha.map (· ++ e.flash.read (part.offset + unpaddedLen e.flash part.offset)
        (paddedLen (unpaddedLen e.flash part.offset) - unpaddedLen e.flash part.offset)) =
          fedBefore e part (total - hashLen) := by
      rw [← hfed, hload]
      rfl
    rw [hsha, ← htotal]
    show finishImage e part (imageAt e.flash part.offset) segments total _ = _
    have hhash : (imageAt e.flash part.offset).hashAppended = true → hashLen ≤ total := by
      intro happ
      rw [happ, if_pos rfl] at htotal
      omega
    rw [finishImage_eq hm hpart hocd (by rw [hload]; rfl) (by rw [hload]; rfl) hhash]
    simp only [hc, true_and]
  · rw [if_pos (Ne.symm hc), if_neg fun h => hc h.1]
    rfl

lemma verifyChecksum_read {start : ℕ} {hashAppended : Bool} {r : ℕ × ShaHandle} (hu : u < 2 ^ 30)
    (hstart : start ≤ 2 ^ 31) (h : verifyChecksum e start u hashAppended sha c = .ok r) :
    e.flashRead (start + u) (paddedLen u - u) =
      .ok (e.flash.read (start + u) (paddedLen u - u)) := by
  obtain ⟨h1, h2, -⟩ := paddedLen_spec u
  have hlen : u32 (u32 (u + 1) + 15) / 16 * 16 = paddedLen u := by
    rw [u32_of_lt (show u + 1 < 2 ^ 32 by omega), u32_of_lt (by omega)]
    rfl
  have hsub : u32Sub (paddedLen u) u = paddedLen u - u := u32Sub_of_le (by omega) (by omega)
  unfold verifyChecksum at h
  simp only [hlen, hsub, u32_of_lt (show start + u < 2 ^ 32 by omega)] at h
  split at h
  · exact absurd h (by simp)
  · next buf hbuf =>
    rw [← flashRead_ok hbuf]
    exact hbuf

lemma verifyChecksum_ne_hang {start : ℕ} {hashAppended : Bool} :
    verifyChecksum e start u hashAppended sha c ≠ .error .hang := by
  unfold verifyChecksum
  dsimp only
  cases e.flashRead (u32 (start + u)) (u32Sub (u32 (u32 (u + 1) + 15) / 16 * 16) u) with
  | error err => exact fun h => nomatch h
  | ok buf =>
    dsimp only
    by_cases hsum : checksumByte c ≠ buf.getD (u32Sub (u32 (u32 (u + 1) + 15) / 16 * 16) u - 1) 0#8
    · rw [if_pos hsum]
      simp
    · rw [if_neg hsum]
      exact bind_ne_hang sha256Data_ne_hang fun _ _ => by simp

lemma checkHash_ne_hang : checkHash e part total sha ≠ .error .hang := by
  unfold checkHash verifySimpleHash
  split
  · split
    · split
      · exact fun h => nomatch h
      · split <;> exact fun h => nomatch h
    · exact fun h => nomatch h
  · exact fun h => nomatch h

lemma imageDigest_ne_hang {image : ImageHeader} :
    imageDigest e part image total ≠ .error .hang := by
  unfold imageDigest
  split
  · split <;> exact fun h => nomatch h
  · exact fun h => nomatch h

lemma finishImage_ne_hang {image : ImageHeader} {segments : Segments} :
    finishImage e part image segments total sha ≠ .error .hang := by
  unfold finishImage
  split
  · exact fun h => nomatch h
  · split
    · exact fun h => nomatch h
    · refine bind_ne_hang imageDigest_ne_hang fun _ _ => ?_
      exact bind_ne_hang checkHash_ne_hang fun _ _ h => nomatch h

/-- `image_load` comes to an end. -/
lemma imageLoad_ne_hang (hm : e.Maps) (hpart : AppPartition e part) (mode : LoadMode) :
    imageLoad e mode part ≠ .error .hang := by
  have hsize := hpart.size_le
  have hin := hpart.in_chip
  have hchip := hpart.chip_le
  rw [imageLoad, if_neg (by omega)]
  refine bind_ne_hang flashRead_ne_hang fun image himage => ?_
  obtain rfl : image = imageAt e.flash part.offset := flashRead_ok himage
  rw [startSha_eq]
  refine bind_ne_hang (fun h => nomatch h) fun sha _ => ?_
  refine bind_ne_hang ?_ fun _ _ => ?_
  · unfold verifyImageHeader
    split_ifs <;> exact fun h => nomatch h
  · split_ifs with hcount
    · exact fun h => nomatch h
    · have h16 : imageMaxSegments = 16 := rfl
      have hmul := Nat.mul_le_mul_right (8 + 0x1000000)
        (show (imageAt e.flash part.offset).segmentCount ≤ 16 by omega)
      rw [u32_of_lt (by omega)]
      refine bind_ne_hang (loadSegments_ne_hang hm (by omega)) fun segments _ => ?_
      split_ifs
      · exact fun h => nomatch h
      · refine bind_ne_hang ?_ fun checked _ => finishImage_ne_hang
        unfold checkChecksum
        split
        · exact fun h => nomatch h
        · exact verifyChecksum_ne_hang

/-- An image that is accepted is valid. -/
lemma imageLoad_ok (hm : e.Maps) (hpart : AppPartition e part) (hocd : e.ocdDebug = false)
    {mode : LoadMode} {md : Metadata} (h : imageLoad e mode part = .ok md) :
    ValidImage e part md.imageLen ∧ md = metadataOf e part md.imageLen := by
  have hsize := hpart.size_le
  have hin := hpart.in_chip
  have hchip := hpart.chip_le
  rw [imageLoad, if_neg (by omega), bind_eq_ok] at h
  obtain ⟨image, himage, h⟩ := h
  obtain rfl : image = imageAt e.flash part.offset := flashRead_ok himage
  rw [startSha_eq, bind_eq_ok] at h
  obtain ⟨sha, hsha, h⟩ := h
  rw [bind_eq_ok] at h
  obtain ⟨_, hheader, h⟩ := h
  obtain ⟨hmagic, hid, hrev⟩ := verifyImageHeader_ok.mp hheader
  split_ifs at h with hcount
  rw [bind_eq_ok] at h
  obtain ⟨segments, hsegs, h⟩ := h
  rw [← Except.ok.inj hsha, u32_of_lt (by omega)] at hsegs
  have hcount' : (imageAt e.flash part.offset).segmentCount ≤ imageMaxSegments := by omega
  have h16 : imageMaxSegments = 16 := rfl
  have hmul := Nat.mul_le_mul_right (8 + 0x1000000) (h16 ▸ hcount')
  obtain ⟨hvalid, hload⟩ := loadSegments_ok hm (by omega) hsegs
  obtain ⟨hend, h24, hlt, hmod⟩ := unpaddedLen_spec hpart hcount' hvalid
  split_ifs at h with hwrap
  have hnext : segments.nextAddr = part.offset + unpaddedLen e.flash part.offset := by
    rw [hload, hend]
    rfl
  rw [hnext, u32Sub_of_le (by omega) (by omega), Nat.add_sub_cancel_left] at h
  obtain ⟨checked, hchecked, -⟩ := bind_eq_ok.mp h
  rw [checkChecksum, hocd, if_neg Bool.false_ne_true] at hchecked
  have hread := verifyChecksum_read hlt (by omega) hchecked
  obtain ⟨total, htotal⟩ : ∃ total, total = paddedLen (unpaddedLen e.flash part.offset) +
      if (imageAt e.flash part.offset).hashAppended then hashLen else 0 := ⟨_, rfl⟩
  have hlast := checksum_eq hm hpart hocd hcount' hvalid htotal hread hload
  rw [hlast] at h
  split_ifs at h with hall
  obtain rfl := Except.ok.inj h
  exact ⟨⟨hmagic, hid, hrev, hcount', hvalid, hall.1, htotal, hall.2.1, hall.2.2⟩, rfl⟩

/-- A valid image is accepted. -/
lemma imageLoad_of_valid (hm : e.Maps) (hpart : AppPartition e part) (hocd : e.ocdDebug = false)
    (mode : LoadMode) (h : ValidImage e part total) :
    imageLoad e mode part = .ok (metadataOf e part total) := by
  have hsize := hpart.size_le
  have hin := hpart.in_chip
  have hchip := hpart.chip_le
  have hal := hpart.aligned
  have hfits := h.fits
  have hlength := h.length
  obtain ⟨hend, h24, hlt, hmod⟩ := unpaddedLen_spec hpart h.count h.segments
  obtain ⟨hpad, -, hpad16⟩ := paddedLen_spec (unpaddedLen e.flash part.offset)
  have hpadle : paddedLen (unpaddedLen e.flash part.offset) ≤ total := by omega
  have himage : e.flashRead part.offset 24 = .ok (imageAt e.flash part.offset) :=
    flashRead_of_readable ⟨fun _ => by omega, fun _ => ⟨hal, rfl⟩⟩ (by omega)
  have h16 : imageMaxSegments = 16 := rfl
  have hmul := Nat.mul_le_mul_right (8 + 0x1000000) (h16 ▸ h.count)
  have hload : loadSegments e (imageAt e.flash part.offset).segmentCount (part.offset + 24)
      (fedBefore e part 24) 0xef#32 = _ :=
    loadSegments_of_valid hm (by omega) h.segments (fun _ => by omega) (fun _ => by omega)
  have hread : e.flashRead (part.offset + unpaddedLen e.flash part.offset)
      (paddedLen (unpaddedLen e.flash part.offset) - unpaddedLen e.flash part.offset) = .ok _ :=
    flashRead_of_readable ⟨fun _ => by omega, fun _ => ⟨by omega, by omega⟩⟩ (by omega)
  have hnext : (loaded e.flash (part.offset + 24) (fedBefore e part 24) 0xef#32
      (imageAt e.flash part.offset).segmentCount).nextAddr =
        part.offset + unpaddedLen e.flash part.offset := hend.symm
  have hlast := checksum_eq hm hpart hocd h.count h.segments hlength hread rfl
  have hall : e.flash (part.offset + paddedLen (unpaddedLen e.flash part.offset) - 1) = _ ∧
      total ≤ part.size ∧ _ := ⟨h.checksum, hfits, h.hash⟩
  rw [if_pos hall] at hlast
  rw [imageLoad, if_neg (by omega), himage]
  show (startSha (imageAt e.flash part.offset) >>= _) = _
  rw [startSha_eq]
  show (verifyImageHeader e _ >>= _) = _
  rw [verifyImageHeader_ok.mpr ⟨h.magic, h.chip, h.revision⟩]
  show (if _ then _ else _) = _
  rw [if_neg (by have := h.count; omega), u32_of_lt (by omega), hload]
  show (if _ then _ else _) = _
  rw [hnext, if_neg (by omega), u32Sub_of_le (by omega) (by omega), Nat.add_sub_cancel_left]
  exact hlast

/-- With another number of free pages the data of a segment are mapped in other pieces. -/
def Env.withFreePages (e : Env) (pages : ℕ) : Env := { e with freePages := pages }

lemma bind_congr_ok {α β : Type} {x : Except ImageErr α} {f g : α → Except ImageErr β}
    (h : ∀ v, x = .ok v → f v = g v) : (x >>= f) = (x >>= g) := by
  cases x with
  | error err => rfl
  | ok v => exact h v rfl

lemma flashRead_withFreePages {pages : ℕ} :
    (e.withFreePages pages).flashRead a n = e.flashRead a n := rfl

lemma checkChecksum_withFreePages {pages : ℕ} {image : ImageHeader} {segments : Segments} :
    checkChecksum (e.withFreePages pages) part image total segments =
      checkChecksum e part image total segments := by
  simp only [checkChecksum, verifyChecksum, flashRead_withFreePages]
  rfl

lemma processSegment_withFreePages {pages : ℕ} (hm : e.Maps) (hpages : (e.withFreePages pages).Maps)
    (hp : p + (8 + 0x1000000) ≤ 2 ^ 32) :
    processSegment (e.withFreePages pages) p sha c = processSegment e p sha c := by
  cases hread : e.flashRead p 8 with
  | error err =>
    simp only [processSegment, flashRead_withFreePages, hread, bind, Except.bind]
  | ok bs =>
    rw [flashRead_ok hread] at hread
    rw [processSegment_eq hm hp hread, processSegment_eq hpages hp hread]
    rfl

lemma loadSegments_withFreePages {pages k : ℕ} (hm : e.Maps)
    (hpages : (e.withFreePages pages).Maps) (hp : p + k * (8 + 0x1000000) ≤ 2 ^ 32) :
    loadSegments (e.withFreePages pages) k p sha c = loadSegments e k p sha c := by
  induction k generalizing p sha c with
  | zero => rfl
  | succ k ih =>
    rw [loadSegments, loadSegments, processSegment_withFreePages hm hpages (by omega)]
    refine bind_congr_ok fun done hdone => ?_
    have hread : e.flashRead p 8 = .ok (e.flash.read p 8) := by
      rw [processSegment, bind_eq_ok] at hdone
      obtain ⟨bs, hbs, -⟩ := hdone
      rw [hbs, flashRead_ok hbs]
    rw [processSegment_eq hm (by omega) hread] at hdone
    split_ifs at hdone with hv hr
    have hvalid : SegmentValid e.flash p := verifySegmentHeader_iff.mp (by simpa using hv)
    have hlt := hvalid.len_lt
    obtain rfl := Except.ok.inj hdone
    have hnext : u32 (u32 (p + 8) + (processed e.flash p sha c).header.dataLen) ≤
        p + (8 + 0x1000000) := by
      show u32 (u32 (p + 8) + (headerAt e.flash p).dataLen) ≤ _
      rw [u32_of_lt (show p + 8 < 2 ^ 32 by omega), u32_of_lt (by omega)]
      omega
    dsimp only
    rw [ih (by omega)]

/-- The answer does not depend on how the data are cut into pieces. -/
lemma imageLoad_withFreePages {pages : ℕ} (hm : e.Maps) (hpages : (e.withFreePages pages).Maps)
    (hpart : AppPartition e part) (hocd : e.ocdDebug = false) (mode : LoadMode) :
    imageLoad (e.withFreePages pages) mode part = imageLoad e mode part := by
  have hsize := hpart.size_le
  have hin := hpart.in_chip
  have hchip := hpart.chip_le
  have hpart' : AppPartition (e.withFreePages pages) part := ⟨hsize, hin, hchip, hpart.aligned,
    hpart.not_bootloader⟩
  rw [imageLoad, imageLoad, if_neg (by omega), if_neg (by omega)]
  refine bind_congr_ok fun image himage => ?_
  obtain rfl : image = imageAt e.flash part.offset := flashRead_ok himage
  rw [startSha_eq]
  refine bind_congr_ok fun sha hsha => bind_congr_ok fun _ _ => ?_
  obtain rfl := Except.ok.inj hsha
  by_cases hcount : imageMaxSegments < (imageAt e.flash part.offset).segmentCount
  · rw [if_pos hcount, if_pos hcount]
  · rw [if_neg hcount, if_neg hcount]
    have h16 : imageMaxSegments = 16 := rfl
    have hcount' : (imageAt e.flash part.offset).segmentCount ≤ imageMaxSegments := by omega
    have hmul := Nat.mul_le_mul_right (8 + 0x1000000) (h16 ▸ hcount')
    rw [u32_of_lt (by omega), loadSegments_withFreePages hm hpages (by omega)]
    refine bind_congr_ok fun segments hsegs => ?_
    obtain ⟨hvalid, hload⟩ := loadSegments_ok hm (by omega) hsegs
    obtain ⟨hend, h24, hlt, hmod⟩ := unpaddedLen_spec hpart hcount' hvalid
    have hnext : segments.nextAddr = part.offset + unpaddedLen e.flash part.offset := by
      rw [hload, hend]
      rfl
    rw [hnext, if_neg (by omega), if_neg (by omega), u32Sub_of_le (by omega) (by omega),
      Nat.add_sub_cancel_left]
    dsimp only
    rw [checkChecksum_withFreePages]
    refine bind_congr_ok fun checked hchecked => ?_
    have hsum := hchecked
    rw [checkChecksum, hocd, if_neg Bool.false_ne_true] at hsum
    have hread := verifyChecksum_read hlt (by omega) hsum
    have h := (checksum_eq hpages hpart' hocd hcount' hvalid rfl hread hload).trans
      (checksum_eq hm hpart hocd hcount' hvalid rfl hread hload).symm
    rwa [show (e.withFreePages pages).flash = e.flash from rfl, checkChecksum_withFreePages,
      hchecked] at h

end Image

/-- An image of one segment up to its checksum. -/
def oneSegmentImage : List Byte :=
  [0xe9, 0x01, 0x02, 0x20, 0x00, 0x00, 0x08, 0x40, 0x00, 0x00, 0x00, 0x00,
    0x00, 0x00, 0x00, 0x00, 0x00, 0x00, 0x00, 0x00, 0x00, 0x00, 0x00, 0x01,
    0x00, 0x00, 0xfb, 0x3f, 0x04, 0x00, 0x00, 0x00, 0x01, 0x02, 0x03, 0x04,
    0x00, 0x00, 0x00, 0x00, 0x00, 0x00, 0x00, 0x00, 0x00, 0x00, 0x00, 0xeb]

/-- The SHA-256 of that image. -/
def oneSegmentDigest : List Byte :=
  [0x99, 0x74, 0x81, 0x37, 0x97, 0xbb, 0xe8, 0x93, 0x09, 0x14, 0x50, 0x1b,
    0x21, 0x5d, 0x42, 0x44, 0x5f, 0xb3, 0x06, 0xd1, 0x1c, 0xa3, 0xd3, 0x5e,
    0x8c, 0x4e, 0x99, 0x12, 0x7f, 0x53, 0x7e, 0xce]

/-- A chip of 4 MB with that image and its hash in an application partition. -/
def oneSegmentEnv : Env where
  build := .app
  flash a := (oneSegmentImage ++ oneSegmentDigest).getD (a - 0x10000) 0xff#8
  chipSize := 0x400000
  freePages := 8
  ocdDebug := false
  chipId := 0
  chipRevision := 1
  sha256 _ := oneSegmentDigest

end EspIdf.Bootloader
