/-
# The ring buffer of the tracing module

Memory is taken from the buffer in chunks that are contiguous.  When a chunk does not fit behind
the write position, that wraps early, and the end of the buffer is left out until the reader has
wrapped, too.  Positions and sizes are words of 32 bits.
-/
import EspIdf.Lib.Ram

namespace EspIdf.AppTrace

open Lib

/-- The sum of two words. -/
def add32 (a b : ℕ) : ℕ := (a + b) % 2 ^ 32

/-- The difference of two words. -/
def sub32 (a b : ℕ) : ℕ := (a + 2 ^ 32 - b) % 2 ^ 32

/-- `esp_apptrace_rb_t`; pointers are offsets into `data`. -/
@[ext]
structure ApptraceRb where
  size : ℕ
  curSize : ℕ
  rd : ℕ
  wr : ℕ
deriving DecidableEq

namespace ApptraceRb

/-- `esp_apptrace_rb_init`. -/
def init (size : ℕ) : ApptraceRb := ⟨size, size, 0, 0⟩

/-- `esp_apptrace_rb_produce`. -/
def produce (rb : ApptraceRb) (size : ℕ) : Option ℕ × ApptraceRb :=
  if rb.rd ≤ rb.wr then
    if add32 rb.wr size ≥ rb.size then
      if rb.rd = 0 then (none, rb)
      else if add32 rb.wr size = rb.size then (some rb.wr, { rb with wr := 0 })
      else if size > sub32 rb.rd 1 then (none, rb)
      else
        -- shrink the buffer, its full size is restored when the reader wraps
        let rb := { rb with curSize := rb.wr, wr := 0 }
        let rb :=
          if rb.rd = rb.curSize then
            { rb with rd := 0, curSize := if rb.curSize < rb.size then rb.size else rb.curSize }
          else rb
        (some 0, { rb with wr := add32 rb.wr size })
    else (some rb.wr, { rb with wr := add32 rb.wr size })
  else if size > sub32 (sub32 rb.rd rb.wr) 1 then (none, rb)
  else (some rb.wr, { rb with wr := add32 rb.wr size })

/-- `esp_apptrace_rb_consume`. -/
def consume (rb : ApptraceRb) (size : ℕ) : Option ℕ × ApptraceRb :=
  if rb.rd ≤ rb.wr then
    if add32 rb.rd size > rb.wr then (none, rb)
    else (some rb.rd, { rb with rd := add32 rb.rd size })
  else if add32 rb.rd size > rb.curSize then (none, rb)
  else if add32 rb.rd size = rb.curSize then
    (some rb.rd,
      { rb with curSize := if rb.curSize < rb.size then rb.size else rb.curSize, rd := 0 })
  else (some rb.rd, { rb with rd := add32 rb.rd size })

/-- `esp_apptrace_rb_read_size_get`. -/
def readSizeGet (rb : ApptraceRb) : ℕ :=
  if rb.rd ≤ rb.wr then sub32 rb.wr rb.rd else sub32 rb.curSize rb.rd

/-- `esp_apptrace_rb_write_size_get`. -/
def writeSizeGet (rb : ApptraceRb) : ℕ :=
  if rb.rd ≤ rb.wr then
    let size := sub32 rb.size rb.wr
    if size ≠ 0 ∧ rb.rd = 0 then sub32 size 1 else size
  else sub32 (sub32 rb.rd rb.wr) 1

/-! ### The states of the buffer -/

/-- The positions are in order, or the writer has wrapped and the reader has not. -/
inductive Valid (rb : ApptraceRb) : Prop
  | straight (hrd : rb.rd ≤ rb.wr) (hwr : rb.wr < rb.size ∨ rb.wr = 0)
      (hcur : rb.curSize = rb.size)
  | wrapped (hwr : rb.wr < rb.rd) (hrd : rb.rd < rb.curSize) (hcur : rb.curSize ≤ rb.size)

/-- The positions of the bytes that have not been consumed, in order. -/
def unread (rb : ApptraceRb) : List ℕ :=
  if rb.rd ≤ rb.wr then List.range' rb.rd (rb.wr - rb.rd)
  else List.range' rb.rd (rb.curSize - rb.rd) ++ List.range' 0 rb.wr

variable {rb : ApptraceRb} {n : ℕ}

lemma add32_eq {a b : ℕ} (h : a + b < 2 ^ 32) : add32 a b = a + b := Nat.mod_eq_of_lt h

lemma sub32_eq {a b : ℕ} (hle : b ≤ a) (ha : a < 2 ^ 32) : sub32 a b = a - b := by
  rw [sub32, Nat.add_comm, Nat.add_sub_assoc hle, Nat.add_mod_left]
  exact Nat.mod_eq_of_lt (by omega)

lemma Valid.init (size : ℕ) : (ApptraceRb.init size).Valid :=
  .straight (Nat.le_refl 0) (.inr rfl) rfl

lemma unread_straight (h : rb.rd ≤ rb.wr) : rb.unread = List.range' rb.rd (rb.wr - rb.rd) :=
  if_pos h

lemma unread_wrapped (h : rb.wr < rb.rd) :
    rb.unread = List.range' rb.rd (rb.curSize - rb.rd) ++ List.range' 0 rb.wr :=
  if_neg (Nat.not_le.mpr h)

/-- A stretch of positions in two parts. -/
lemma range'_split {a b c : ℕ} (hab : a ≤ b) (hbc : b ≤ c) :
    List.range' a (c - a) = List.range' a (b - a) ++ List.range' b (c - b) := by
  have hb : b = a + (b - a) := by omega
  have hc : c - a = b - a + (c - b) := by omega
  rw [hc, ← List.range'_append_1, ← hb]

/-! ### What the calls do -/

/-- A chunk of `n` bytes has been taken: it lies in the buffer, away from what is still unread,
and is read after it. -/
structure Produced (rb : ApptraceRb) (n ptr : ℕ) (rb' : ApptraceRb) : Prop where
  valid : rb'.Valid
  size : rb'.size = rb.size
  inside : ptr + n ≤ rb.size
  apart : ∀ a ∈ rb.unread, a < ptr ∨ ptr + n ≤ a
  unread : rb'.unread = rb.unread ++ List.range' ptr n

/-- The next `n` bytes have been read. -/
structure Consumed (rb : ApptraceRb) (n ptr : ℕ) (rb' : ApptraceRb) : Prop where
  valid : rb'.Valid
  size : rb'.size = rb.size
  inside : ptr + n ≤ rb.size
  unread : rb.unread = List.range' ptr n ++ rb'.unread

/-- A chunk behind the write position, up to the end of the buffer at most. -/
lemma produced_straight {wr : ℕ} (hrd : rb.rd ≤ rb.wr) (hcur : rb.curSize = rb.size)
    (hwr : rb.wr + n < rb.size ∧ wr = rb.wr + n ∨
      rb.wr + n = rb.size ∧ wr = 0 ∧ 0 < rb.rd ∧ 0 < n) :
    Produced rb n rb.wr { rb with wr := wr } := by
  have hapart : ∀ a ∈ rb.unread, a < rb.wr ∨ rb.wr + n ≤ a := by
    intro a ha
    rw [unread_straight hrd, List.mem_range'_1] at ha
    exact .inl (by omega)
  have hsplit : List.range' rb.rd (rb.wr + n - rb.rd) =
      List.range' rb.rd (rb.wr - rb.rd) ++ List.range' rb.wr n := by
    rw [range'_split hrd (Nat.le_add_right rb.wr n), Nat.add_sub_cancel_left]
  rcases hwr with ⟨hlt, rfl⟩ | ⟨hend, rfl, hpos, hn⟩
  · refine ⟨.straight (by dsimp only; omega) (.inl hlt) hcur, rfl, hlt.le, hapart, ?_⟩
    rw [unread_straight hrd, unread_straight (by dsimp only; omega)]
    exact hsplit
  · refine ⟨.wrapped hpos (by dsimp only; omega) hcur.le, rfl, hend.le, hapart, ?_⟩
    rw [unread_straight hrd, unread_wrapped hpos]
    dsimp only
    rw [hcur, ← hend, List.range'_zero, List.append_nil]
    exact hsplit

/-- A chunk at the start of the buffer, from which the writer has wrapped early. -/
lemma produced_early (hrd : rb.rd ≤ rb.wr) (hwr : rb.wr < rb.size) (hn : n < rb.rd) :
    Produced rb n 0 (if rb.rd = rb.wr then ⟨rb.size, rb.size, 0, n⟩
      else ⟨rb.size, rb.wr, rb.rd, n⟩) := by
  have hapart : ∀ a ∈ rb.unread, a < 0 ∨ 0 + n ≤ a := by
    intro a ha
    rw [unread_straight hrd, List.mem_range'_1] at ha
    exact .inr (by omega)
  split
  · next hempty =>
    refine ⟨.straight (Nat.zero_le n) (.inl (by dsimp only; omega)) rfl, rfl, by omega, hapart, ?_⟩
    rw [unread_straight hrd, hempty, Nat.sub_self, unread_straight (Nat.zero_le n)]
    rfl
  · next hne =>
    refine ⟨.wrapped hn (by dsimp only; omega) hwr.le, rfl, by omega, hapart, ?_⟩
    rw [unread_straight hrd, unread_wrapped hn]

/-- A chunk in front of what the wrapped reader still has to read. -/
lemma produced_wrapped (hwr : rb.wr < rb.rd) (hrd : rb.rd < rb.curSize)
    (hcur : rb.curSize ≤ rb.size) (hn : rb.wr + n < rb.rd) :
    Produced rb n rb.wr { rb with wr := rb.wr + n } := by
  refine ⟨.wrapped hn hrd hcur, rfl, by omega, fun a ha => ?_, ?_⟩
  · rw [unread_wrapped hwr, List.mem_append, List.mem_range'_1, List.mem_range'_1] at ha
    omega
  · rw [unread_wrapped hwr, unread_wrapped hn, List.append_assoc]
    dsimp only
    rw [← List.range'_append_1, Nat.zero_add]

lemma produce_spec (h : rb.Valid) (hsize : rb.size < 2 ^ 31) (hn : n < 2 ^ 31) :
    (∃ ptr rb', rb.produce n = (some ptr, rb') ∧ Produced rb n ptr rb') ∨
      (rb.produce n = (none, rb) ∧ (n = 0 ∨ rb.writeSizeGet < n)) := by
  cases h with
  | straight hrd hwr hcur =>
    have hadd : add32 rb.wr n = rb.wr + n := add32_eq (by omega)
    have hfree : sub32 rb.size rb.wr = rb.size - rb.wr := sub32_eq (by omega) (by omega)
    rw [produce, writeSizeGet, if_pos hrd, if_pos hrd, hadd, hfree]
    split
    · next hge =>
      split
      · next hzero =>
        refine .inr ⟨rfl, ?_⟩
        dsimp only
        split
        · next hsome =>
          rw [sub32_eq (by omega) (by omega)]
          omega
        · next hnone => omega
      · next hpos =>
        split
        · next hend =>
          exact .inl ⟨_, _, rfl, produced_straight hrd hcur (.inr ⟨hend, rfl, by omega, by omega⟩)⟩
        · next hend =>
          rw [sub32_eq (by omega : 1 ≤ rb.rd) (by omega)]
          split
          · next hgt =>
            refine .inr ⟨rfl, ?_⟩
            dsimp only
            rw [if_neg fun h => hpos h.2]
            omega
          · next hle =>
            refine .inl ⟨0, _, rfl, ?_⟩
            have hlt : rb.wr < rb.size := by omega
            have hearly := produced_early hrd hlt (show n < rb.rd by omega)
            have hzero : add32 0 n = n := by rw [add32_eq (by omega), Nat.zero_add]
            rw [if_pos hlt]
            by_cases hempty : rb.rd = rb.wr
            · rw [if_pos hempty] at hearly ⊢
              dsimp only
              rwa [hzero]
            · rw [if_neg hempty] at hearly ⊢
              dsimp only
              rwa [hzero]
    · next hlt =>
      exact .inl ⟨_, _, rfl, produced_straight hrd hcur (.inl ⟨by omega, rfl⟩)⟩
  | wrapped hwr hrd hcur =>
    have hnot : ¬ rb.rd ≤ rb.wr := Nat.not_le.mpr hwr
    have hfree : sub32 (sub32 rb.rd rb.wr) 1 = rb.rd - rb.wr - 1 := by
      rw [sub32_eq hwr.le (by omega), sub32_eq (by omega) (by omega)]
    have hadd : add32 rb.wr n = rb.wr + n := add32_eq (by omega)
    rw [produce, writeSizeGet, if_neg hnot, if_neg hnot, hadd, hfree]
    split
    · next hgt => exact .inr ⟨rfl, .inr hgt⟩
    · next hle => exact .inl ⟨_, _, rfl, produced_wrapped hwr hrd hcur (by omega)⟩

lemma consume_spec (h : rb.Valid) (hsize : rb.size < 2 ^ 31) (hn : n < 2 ^ 31) :
    (∃ ptr rb', rb.consume n = (some ptr, rb') ∧ Consumed rb n ptr rb') ∨
      (rb.consume n = (none, rb) ∧ rb.readSizeGet < n) := by
  cases h with
  | straight hrd hwr hcur =>
    have hadd : add32 rb.rd n = rb.rd + n := add32_eq (by omega)
    rw [consume, readSizeGet, if_pos hrd, if_pos hrd, hadd, sub32_eq hrd (by omega)]
    split
    · next hgt => exact .inr ⟨rfl, by omega⟩
    · next hle =>
      have hle : rb.rd + n ≤ rb.wr := by omega
      refine .inl ⟨_, _, rfl, .straight hle hwr hcur, rfl, by omega, ?_⟩
      rw [unread_straight hrd, unread_straight hle,
        range'_split (Nat.le_add_right rb.rd n) hle, Nat.add_sub_cancel_left]
  | wrapped hwr hrd hcur =>
    have hnot : ¬ rb.rd ≤ rb.wr := Nat.not_le.mpr hwr
    have hadd : add32 rb.rd n = rb.rd + n := add32_eq (by omega)
    rw [consume, readSizeGet, if_neg hnot, if_neg hnot, hadd, sub32_eq hrd.le (by omega)]
    split
    · next hgt => exact .inr ⟨rfl, by omega⟩
    · next hle =>
      split
      · next hend =>
        -- the reader wraps, and the buffer has its full size again
        have hfull : (if rb.curSize < rb.size then rb.size else rb.curSize) = rb.size := by
          split <;> omega
        rw [hfull]
        refine .inl ⟨_, _, rfl, .straight (Nat.zero_le _) (.inl (by dsimp only; omega)) rfl, rfl,
          by omega, ?_⟩
        rw [unread_wrapped hwr, unread_straight (Nat.zero_le _), ← hend, Nat.add_sub_cancel_left]
        rfl
      · next hend =>
        have hwr' : rb.wr < rb.rd + n := by omega
        refine .inl ⟨_, _, rfl, .wrapped hwr' (by dsimp only; omega) hcur, rfl, by omega, ?_⟩
        rw [unread_wrapped hwr, unread_wrapped hwr',
          range'_split (Nat.le_add_right rb.rd n) (by omega : rb.rd + n ≤ rb.curSize),
          Nat.add_sub_cancel_left, List.append_assoc]

end ApptraceRb

/-! ### Runs -/

/-- A call: what is produced is written to the chunk, what is consumed is read from it. -/
inductive RbCall where
  | produce (data : List Byte)
  | consume (size : ℕ)

/-- The size that is asked for. -/
def RbCall.size : RbCall → ℕ
  | .produce data => data.length
  | .consume size => size

/-- The buffer with its storage, and the bytes that have gone in and come out so far. -/
structure Trace where
  rb : ApptraceRb
  mem : Mem
  produced : List Byte
  consumed : List Byte

namespace Trace

def init (size : ℕ) (mem : Mem) : Trace := ⟨.init size, mem, [], []⟩

def call (t : Trace) : RbCall → Trace
  | .produce data =>
    match t.rb.produce data.length with
    | (some ptr, rb) =>
      { t with rb := rb, mem := t.mem.store ptr data, produced := t.produced ++ data }
    | (none, rb) => { t with rb := rb }
  | .consume size =>
    match t.rb.consume size with
    | (some ptr, rb) => { t with rb := rb, consumed := t.consumed ++ t.mem.read ptr size }
    | (none, rb) => { t with rb := rb }

def run (t : Trace) (calls : List RbCall) : Trace := calls.foldl call t

/-- What holds of the buffer of `size` bytes at any time. -/
structure Ok (size : ℕ) (t : Trace) : Prop where
  valid : t.rb.Valid
  size_eq : t.rb.size = size
  /-- Nothing is lost, repeated or out of order. -/
  fifo : t.produced = t.consumed ++ t.rb.unread.map t.mem

variable {t : Trace} {size : ℕ}

lemma map_range' (mem : Mem) (ptr n : ℕ) : (List.range' ptr n).map mem = mem.read ptr n := by
  rw [List.range'_eq_map_range, List.map_map]
  rfl

lemma Ok.call (h : Ok size t) (hsize : size < 2 ^ 31) {c : RbCall} (hc : c.size < 2 ^ 31) :
    Ok size (t.call c) := by
  have hrb : t.rb.size < 2 ^ 31 := h.size_eq ▸ hsize
  cases c with
  | produce data =>
    rcases ApptraceRb.produce_spec h.valid hrb hc with ⟨ptr, rb, hproduce, hp⟩ | ⟨hnone, -⟩
    · simp only [Trace.call, RbCall.size] at hproduce ⊢
      rw [hproduce]
      refine ⟨hp.valid, hp.size.trans h.size_eq, ?_⟩
      -- the unread bytes are not overwritten
      have hkept : t.rb.unread.map (t.mem.store ptr data) = t.rb.unread.map t.mem :=
        List.map_congr_left fun a ha => Mem.store_of_not_mem fun hin => by
          have := hp.apart a ha
          simp only [RbCall.size] at this
          omega
      have hnew : (List.range' ptr data.length).map (t.mem.store ptr data) = data := by
        rw [map_range', Mem.read_store_self]
      dsimp only
      rw [hp.unread, List.map_append, hkept, RbCall.size, hnew, h.fifo, List.append_assoc]
    · simp only [Trace.call, RbCall.size] at hnone ⊢
      rw [hnone]
      exact h
  | consume n =>
    rcases ApptraceRb.consume_spec h.valid hrb hc with ⟨ptr, rb, hconsume, hp⟩ | ⟨hnone, -⟩
    · simp only [Trace.call, RbCall.size] at hconsume ⊢
      rw [hconsume]
      refine ⟨hp.valid, hp.size.trans h.size_eq, ?_⟩
      dsimp only
      rw [h.fifo, hp.unread, List.map_append, map_range', List.append_assoc]
      rfl
    · simp only [Trace.call, RbCall.size] at hnone ⊢
      rw [hnone]
      exact h

lemma Ok.run (h : Ok size t) (hsize : size < 2 ^ 31) {calls : List RbCall}
    (hcalls : ∀ c ∈ calls, c.size < 2 ^ 31) : Ok size (t.run calls) := by
  induction calls generalizing t with
  | nil => exact h
  | cons c calls ih =>
    obtain ⟨hc, hcalls⟩ := List.forall_mem_cons.mp hcalls
    exact ih (h.call hsize hc) hcalls

end Trace

/-- What a buffer of `size` bytes promises about the next call. -/
structure Promises (size : ℕ) (rb : ApptraceRb) : Prop where
  /-- A chunk lies in the buffer, away from what is unread. -/
  chunk : ∀ n < 2 ^ 31, ∀ ptr rb', rb.produce n = (some ptr, rb') → ptr + n ≤ size ∧
    (∀ a ∈ rb.unread, a < ptr ∨ ptr + n ≤ a) ∧ rb'.unread = rb.unread ++ List.range' ptr n
  /-- What is read are the oldest bytes, in one piece. -/
  read : ∀ n < 2 ^ 31, ∀ ptr rb', rb.consume n = (some ptr, rb') → ptr + n ≤ size ∧
    rb.unread = List.range' ptr n ++ rb'.unread
  produce_some : ∀ n, 0 < n → n ≤ rb.writeSizeGet → ∃ ptr rb', rb.produce n = (some ptr, rb')
  consume_some : ∀ n, 0 < n → n ≤ rb.readSizeGet → ∃ ptr rb', rb.consume n = (some ptr, rb')
  /-- As long as a byte is unread, one can be consumed. -/
  readable : rb.unread ≠ [] → 0 < rb.readSizeGet

namespace ApptraceRb

lemma readSizeGet_eq {rb : ApptraceRb} (h : rb.Valid) (hsize : rb.size < 2 ^ 31) :
    rb.readSizeGet ≤ rb.size ∧ (rb.unread ≠ [] → 0 < rb.readSizeGet) := by
  cases h with
  | straight hrd hwr hcur =>
    rw [readSizeGet, if_pos hrd, sub32_eq hrd (by omega), unread_straight hrd]
    refine ⟨by omega, fun hne => Nat.pos_of_ne_zero fun hzero => hne ?_⟩
    rw [hzero]
    rfl
  | wrapped hwr hrd hcur =>
    rw [readSizeGet, if_neg (Nat.not_le.mpr hwr), sub32_eq hrd.le (by omega)]
    exact ⟨by omega, fun _ => by omega⟩

lemma writeSizeGet_le {rb : ApptraceRb} (h : rb.Valid) (hsize : rb.size < 2 ^ 31) :
    rb.writeSizeGet ≤ rb.size := by
  cases h with
  | straight hrd hwr hcur =>
    have hfree : sub32 rb.size rb.wr = rb.size - rb.wr := sub32_eq (by omega) (by omega)
    rw [writeSizeGet, if_pos hrd, hfree]
    dsimp only
    split
    · next hsome =>
      rw [sub32_eq (by omega) (by omega)]
      omega
    · omega
  | wrapped hwr hrd hcur =>
    rw [writeSizeGet, if_neg (Nat.not_le.mpr hwr), sub32_eq hwr.le (by omega),
      sub32_eq (by omega) (by omega)]
    omega

lemma Valid.promises {rb : ApptraceRb} (h : rb.Valid) (hsize : rb.size < 2 ^ 31) :
    Promises rb.size rb where
  chunk := by
    intro n hn ptr rb' hproduce
    rcases produce_spec h hsize hn with ⟨ptr', rb'', hproduce', hp⟩ | ⟨hnone, -⟩
    · cases hproduce.symm.trans hproduce'
      exact ⟨hp.inside, hp.apart, hp.unread⟩
    · cases hproduce.symm.trans hnone
  read := by
    intro n hn ptr rb' hconsume
    rcases consume_spec h hsize hn with ⟨ptr', rb'', hconsume', hp⟩ | ⟨hnone, -⟩
    · cases hconsume.symm.trans hconsume'
      exact ⟨hp.inside, hp.unread⟩
    · cases hconsume.symm.trans hnone
  produce_some := by
    intro n hpos hle
    have hmax := writeSizeGet_le h hsize
    rcases produce_spec h hsize (show n < 2 ^ 31 by omega) with
      ⟨ptr, rb', hproduce, -⟩ | ⟨-, hfew⟩
    · exact ⟨ptr, rb', hproduce⟩
    · omega
  consume_some := by
    intro n hpos hle
    have hmax := (readSizeGet_eq h hsize).1
    rcases consume_spec h hsize (show n < 2 ^ 31 by omega) with
      ⟨ptr, rb', hconsume, -⟩ | ⟨-, hfew⟩
    · exact ⟨ptr, rb', hconsume⟩
    · omega
  readable := (readSizeGet_eq h hsize).2

end ApptraceRb

/-- The bytes that have come out and the unread ones are the bytes that have gone in, and the buffer
keeps its promises about the next call. -/
structure Reliable (size : ℕ) (t : Trace) : Prop where
  fifo : t.produced = t.consumed ++ t.rb.unread.map t.mem
  promises : Promises size t.rb

/-- So it is after every run. -/
theorem traceBuffer_reliable {size : ℕ} (hsize : size < 2 ^ 31) (mem : Mem) {calls : List RbCall}
    (hcalls : ∀ c ∈ calls, c.size < 2 ^ 31) :
    Reliable size ((Trace.init size mem).run calls) := by
  have hinit : Trace.Ok size (Trace.init size mem) := ⟨.init size, rfl, rfl⟩
  have hok := hinit.run hsize hcalls
  have hpromises := hok.valid.promises (hok.size_eq.trans_lt hsize)
  rw [hok.size_eq] at hpromises
  exact ⟨hok.fifo, hpromises⟩

theorem traceBuffer_reliable_early :
    Reliable 8 ((Trace.init 8 fun _ => 0#8).run
      [.produce [1#8, 2#8, 3#8, 4#8, 5#8], .consume 4, .produce [6#8, 7#8, 8#8], .consume 1]) :=
  traceBuffer_reliable (by decide) _ (by decide)

end EspIdf.AppTrace
