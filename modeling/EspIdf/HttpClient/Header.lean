/-
# The header list of an HTTP request

`http_header_generate_string` prints as many headers as fit into a buffer.  It finds out in a first
pass which one does not fit any more, and prints those before it in a second one; the empty line
follows the last header.
-/
import EspIdf.Lib.CNumber
import EspIdf.Lib.Ram

namespace EspIdf.HttpClient

open Lib

/-- The bytes of a literal. -/
def ascii (s : String) : List Byte := s.toList.map fun c => BitVec.ofNat 8 c.toNat

/-- `http_utils_trim_whitespace`. -/
def trimWhitespace (s : List Byte) : List Byte :=
  ((s.dropWhile isspace).reverse.dropWhile isspace).reverse

/-- `http_header_item_t`. -/
structure Header where
  key : List Byte
  value : List Byte
deriving DecidableEq

def crlf : List Byte := [0x0d, 0x0a]

/-- `%s: %s\r\n`. -/
def Header.text (h : Header) : List Byte := h.key ++ [0x3a, 0x20] ++ h.value ++ crlf

/-- The headers as they are sent. -/
def texts (hs : List Header) : List Byte := hs.flatMap Header.text

/-- `http_header_delete`. -/
def headerDelete (headers : List Header) (key : List Byte) : List Header :=
  headers.eraseP fun item => fold item.key = fold key

/-- `http_header_set` of a value: the value of the first item with the key is replaced. -/
def headerAssign (key value : List Byte) : List Header → List Header
  | [] => [⟨trimWhitespace key, trimWhitespace value⟩]
  | item :: items =>
    if fold item.key = fold key then { item with value := trimWhitespace value } :: items
    else item :: headerAssign key value items

/-- `http_header_set`: `none` is `NULL`. -/
def headerSet (headers : List Header) (key : List Byte) (value : Option (List Byte)) :
    List Header :=
  match value with
  | none => headerDelete headers key
  | some value => headerAssign key value headers

/-- `snprintf` of `s`: a negative size is a very large `size_t`. -/
def snprintf (m : Mem) (buffer : ℕ) (size : ℤ) (s : List Byte) : Mem :=
  let room := if size < 0 then s.length + 1 else size.toNat
  if room = 0 then m else m.store buffer (s.take (room - 1) ++ [0])

/-- The first pass: `siz`, `idx` and `ret_idx`, which is `none` while it is negative. -/
def sizePass (index : ℕ) (bufferLen : ℤ) : List Header → ℕ → ℕ → ℕ × ℕ × Option ℕ
  | [], idx, siz => (siz, idx, none)
  | item :: items, idx, siz =>
    let siz := if idx ≥ index then siz + item.key.length + item.value.length + 4 else siz
    if (siz : ℤ) + 1 > bufferLen - 2 then (siz, idx + 1, some idx)
    else sizePass index bufferLen items (idx + 1) siz

/-- The second pass: `str_len` and the buffer. -/
def printPass (index retIdx buffer : ℕ) (bufferLen : ℤ) :
    List Header → ℕ → ℕ → Mem → ℕ × Mem
  | [], _, strLen, m => (strLen, m)
  | item :: items, idx, strLen, m =>
    if idx ≥ index ∧ idx < retIdx then
      printPass index retIdx buffer bufferLen items (idx + 1) (strLen + item.text.length)
        (snprintf m (buffer + strLen) (bufferLen - strLen) item.text)
    else printPass index retIdx buffer bufferLen items (idx + 1) strLen m

/-- `http_header_generate_string`: the result, the memory with the buffer in it, and what is left in
`buffer_len`. -/
def generateString (header : List Header) (index : ℕ) (m : Mem) (buffer : ℕ) (bufferLen : ℤ) :
    ℕ × Mem × ℤ :=
  let (siz, idx, retIdx) := sizePass index bufferLen header 0 0
  if siz = 0 then (0, m, bufferLen)
  else
    let (strLen, m) := printPass index (retIdx.getD idx) buffer bufferLen header 0 0 m
    match retIdx with
    | some retIdx => (retIdx, m, strLen)
    | none => (idx, snprintf m (buffer + strLen) (bufferLen - strLen) crlf, strLen + crlf.length)

/-! ### Printing -/

variable {m : Mem} {a b n : ℕ} {s : List Byte} {size bufferLen : ℤ} {index : ℕ}

lemma Header.length_text (h : Header) : h.text.length = h.key.length + h.value.length + 4 := by
  simp [text, crlf]
  omega

@[simp] lemma texts_nil : texts [] = [] := rfl

@[simp] lemma texts_cons (h : Header) (hs : List Header) :
    texts (h :: hs) = h.text ++ texts hs := by
  simp [texts]

@[simp] lemma texts_append (hs gs : List Header) : texts (hs ++ gs) = texts hs ++ texts gs := by
  simp [texts]

/-- A header never disappears from a list that one is assigned in. -/
lemma headerAssign_ne_nil (key value : List Byte) (hs : List Header) :
    headerAssign key value hs ≠ [] := by
  cases hs with
  | nil => simp [headerAssign]
  | cons h hs =>
    rw [headerAssign]
    split <;> simp

/-- What fits is printed. -/
lemma snprintf_read (h : (s.length : ℤ) < size) : (snprintf m a size s).read a s.length = s := by
  have hroom : ¬ size < 0 := by omega
  have hne : size.toNat ≠ 0 := by omega
  have htake : s.take (size.toNat - 1) = s := List.take_of_length_le (by omega)
  simp only [snprintf, if_neg hroom, if_neg hne, htake]
  have hstore : (m.store a (s ++ [0])).read a (s ++ [0]).length = s ++ [0] := Mem.read_store_self
  rw [← Mem.take_read (show s.length ≤ (s ++ [0]).length by simp), hstore]
  simp

/-- What stands before the buffer stays. -/
lemma snprintf_read_below (h : b + n ≤ a) : (snprintf m a size s).read b n = m.read b n := by
  unfold snprintf
  dsimp only
  generalize (if size < 0 then s.length + 1 else size.toNat) = room
  split
  · rfl
  · exact Mem.read_store_of_apart (.inl h)

/-! ### The first pass -/

/-- The size is that of the headers from `index` on. -/
lemma sizePass_siz {items : List Header} :
    ∀ idx, (sizePass index bufferLen items idx 0).1 ≠ 0 → index < idx + items.length := by
  induction items with
  | nil => simp [sizePass]
  | cons item items ih =>
    intro idx h
    rw [List.length_cons]
    by_cases hidx : idx ≥ index
    · omega
    · simp only [sizePass, if_neg hidx] at h
      split at h
      · exact absurd rfl h
      · have := ih (idx + 1) h
        omega

/-- When every header fits, the index is behind the last one. -/
lemma sizePass_none {items : List Header} :
    ∀ idx siz, (sizePass index bufferLen items idx siz).2.2 = none →
      (sizePass index bufferLen items idx siz).2.1 = idx + items.length := by
  induction items with
  | nil => simp [sizePass]
  | cons item items ih =>
    intro idx siz h
    rw [sizePass] at h ⊢
    generalize (if idx ≥ index then siz + item.key.length + item.value.length + 4 else siz) = siz'
      at h ⊢
    split at h
    · cases h
    · next hfit =>
      rw [if_neg hfit, ih _ _ h, List.length_cons]
      omega

/-- The headers before `index` are passed over. -/
lemma sizePass_before {pre : List Header} (items : List Header) (hfit : pre = [] ∨ 3 ≤ bufferLen) :
    ∀ idx, idx + pre.length = index →
      sizePass index bufferLen (pre ++ items) idx 0 = sizePass index bufferLen items index 0 := by
  induction pre with
  | nil =>
    rintro idx rfl
    simp
  | cons item pre ih =>
    intro idx hidx
    rw [List.length_cons] at hidx
    have hlt : ¬ idx ≥ index := by omega
    have h3 : 3 ≤ bufferLen := hfit.resolve_left (by simp)
    have hroom : ¬ ((0 : ℕ) : ℤ) + 1 > bufferLen - 2 := by omega
    simp only [List.cons_append, sizePass, if_neg hlt, if_neg hroom]
    exact ih (.inr h3) (idx + 1) (by omega)

/-- The headers that are printed into a buffer of `room` bytes, of which `siz` are used. -/
def taken (room : ℕ) : ℕ → List Header → List Header
  | _, [] => []
  | siz, item :: items =>
    if room < siz + item.text.length + 3 then []
    else item :: taken room (siz + item.text.length) items

lemma taken_append (room : ℕ) (items : List Header) :
    ∀ siz, ∃ rest, items = taken room siz items ++ rest := by
  induction items with
  | nil => exact fun siz => ⟨[], rfl⟩
  | cons item items ih =>
    intro siz
    rw [taken]
    split
    · exact ⟨item :: items, rfl⟩
    · obtain ⟨rest, hrest⟩ := ih (siz + item.text.length)
      exact ⟨rest, by rw [List.cons_append, ← hrest]⟩

/-- The headers that are printed leave room for the empty line and the `NUL`. -/
lemma taken_room {room : ℕ} {items : List Header} :
    ∀ siz, taken room siz items ≠ [] →
      siz + (texts (taken room siz items)).length + 3 ≤ room := by
  induction items with
  | nil => simp [taken]
  | cons item items ih =>
    intro siz h
    rw [taken] at h ⊢
    split at h
    · exact absurd rfl h
    · next hfit =>
      rw [if_neg hfit, texts_cons, List.length_append]
      by_cases hnil : taken room (siz + item.text.length) items = []
      · rw [hnil, texts_nil, List.length_nil]
        omega
      · have := ih _ hnil
        omega

/-- The first pass finds the first header that is not printed. -/
lemma sizePass_eq (room : ℕ) {items : List Header} :
    ∀ idx siz, index ≤ idx → (items ≠ [] ∨ siz ≠ 0) →
      (sizePass index room items idx siz).1 ≠ 0 ∧
        (sizePass index room items idx siz).2.2 =
          if taken room siz items = items then none
          else some (idx + (taken room siz items).length) := by
  induction items with
  | nil =>
    intro idx siz _ h
    simpa [sizePass, taken] using h
  | cons item items ih =>
    intro idx siz hidx _
    have hsiz : siz + item.key.length + item.value.length + 4 = siz + item.text.length := by
      rw [item.length_text]
      omega
    have hpos : siz + item.text.length ≠ 0 := by
      rw [item.length_text]
      omega
    simp only [sizePass, taken, ge_iff_le, if_pos hidx, hsiz]
    by_cases hroom : room < siz + item.text.length + 3
    · have hgt : ((siz + item.text.length : ℕ) : ℤ) + 1 > (room : ℤ) - 2 := by omega
      simp only [if_pos hgt, if_pos hroom]
      exact ⟨hpos, by simp⟩
    · have hgt : ¬ ((siz + item.text.length : ℕ) : ℤ) + 1 > (room : ℤ) - 2 := by omega
      simp only [if_neg hgt, if_neg hroom]
      obtain ⟨h1, h2⟩ := ih (idx + 1) (siz + item.text.length) (by omega) (.inr hpos)
      refine ⟨h1, h2.trans ?_⟩
      simp only [List.cons.injEq, true_and, List.length_cons]
      split
      · rfl
      · congr 1
        omega

/-! ### The second pass -/

/-- Headers outside the range are passed over. -/
lemma printPass_skip {retIdx buffer strLen : ℕ} {items rest : List Header} :
    ∀ idx, (∀ j, idx ≤ j → j < idx + items.length → ¬ (j ≥ index ∧ j < retIdx)) →
      printPass index retIdx buffer bufferLen (items ++ rest) idx strLen m =
        printPass index retIdx buffer bufferLen rest (idx + items.length) strLen m := by
  induction items with
  | nil => simp
  | cons item items ih =>
    intro idx h
    rw [List.length_cons] at h ⊢
    rw [List.cons_append, printPass, if_neg (h idx le_rfl (by omega)),
      ih (idx + 1) fun j h1 h2 => h j (by omega) (by omega)]
    congr 1
    omega

lemma printPass_nothing {retIdx buffer strLen : ℕ} {items : List Header} {idx : ℕ}
    (h : ∀ j, idx ≤ j → j < idx + items.length → ¬ (j ≥ index ∧ j < retIdx)) :
    printPass index retIdx buffer bufferLen items idx strLen m = (strLen, m) := by
  have hskip : printPass index retIdx buffer bufferLen (items ++ []) idx strLen m =
      printPass index retIdx buffer bufferLen [] (idx + items.length) strLen m :=
    printPass_skip idx h
  rwa [List.append_nil, printPass] at hskip

/-- The headers in the range are printed one behind the other. -/
lemma printPass_range {buffer : ℕ} {items : List Header} (rest : List Header) :
    ∀ (idx strLen : ℕ) (m : Mem), index ≤ idx →
      ((strLen + (texts items).length : ℕ) : ℤ) < bufferLen →
      ∃ m', printPass index (idx + items.length) buffer bufferLen (items ++ rest) idx strLen m =
          printPass index (idx + items.length) buffer bufferLen rest (idx + items.length)
            (strLen + (texts items).length) m' ∧
        m'.read (buffer + strLen) (texts items).length = texts items ∧
        ∀ b n, b + n ≤ buffer + strLen → m'.read b n = m.read b n := by
  induction items with
  | nil => exact fun idx strLen m _ _ => ⟨m, by simp, rfl, fun _ _ _ => rfl⟩
  | cons item items ih =>
    intro idx strLen m hidx hroom
    rw [texts_cons, List.length_append] at hroom
    have hrange : idx ≥ index ∧ idx < idx + (items.length + 1) := ⟨hidx, by omega⟩
    obtain ⟨m', hrun, hread, hbelow⟩ := ih (idx + 1) (strLen + item.text.length)
      (snprintf m (buffer + strLen) (bufferLen - strLen) item.text) (by omega)
      (by push_cast at hroom ⊢; omega)
    have hlen : idx + 1 + items.length = idx + (items.length + 1) := by omega
    refine ⟨m', ?_, ?_, fun b n hbn => ?_⟩
    · rw [List.cons_append, List.length_cons, printPass, if_pos hrange, ← hlen, hrun, texts_cons,
        List.length_append, ← Nat.add_assoc strLen]
    · rw [texts_cons, List.length_append, Mem.read_append, hbelow _ _ (by omega),
        snprintf_read (by push_cast at hroom; omega), Nat.add_assoc, hread]
    · rw [hbelow b n (by omega), snprintf_read_below hbn]

/-! ### A call -/

/-- Nothing is left to print. -/
lemma generateString_end (hs : List Header) (m : Mem) (buffer : ℕ) :
    generateString hs hs.length m buffer bufferLen = (0, m, bufferLen) := by
  have hsiz : (sizePass hs.length bufferLen hs 0 0).1 = 0 := by
    by_contra h
    have := sizePass_siz 0 h
    omega
  rw [generateString]
  simp only [hsiz, if_true]

/-- A call that prints something has moved the index on. -/
lemma generateString_progress {hs : List Header} {buffer ret : ℕ} {m' : Mem} {len : ℤ}
    (h : generateString hs index m buffer bufferLen = (ret, m', len)) (hret : ret ≠ 0)
    (hlen : 0 < len) : index < ret ∧ index < hs.length := by
  rw [generateString] at h
  simp only at h
  split at h
  · cases h
    exact absurd rfl hret
  · next hsiz =>
    have hidx := sizePass_siz 0 hsiz
    cases hidx' : (sizePass index bufferLen hs 0 0).2.2 with
    | none =>
      have := sizePass_none 0 0 hidx'
      simp only [hidx', Prod.mk.injEq] at h
      have hret := h.1
      rw [this] at hret
      omega
    | some retIdx =>
      simp only [hidx', Option.getD_some, Prod.mk.injEq] at h
      obtain ⟨rfl, -, rfl⟩ := h
      refine ⟨?_, by omega⟩
      by_contra hle
      rw [printPass_nothing fun j _ _ => by omega] at hlen
      exact absurd hlen (by simp)

/-- What is printed when `items` are left: as many as fit, with the empty line behind the last. -/
def printed (room : ℕ) (items : List Header) : List Byte :=
  texts (taken room 0 items) ++ if taken room 0 items = items then crlf else []

/-- A call with headers left. -/
lemma generateString_eq {pre items : List Header} {room : ℕ} (buffer : ℕ)
    (hfit : pre = [] ∨ 3 ≤ room) (hne : items ≠ []) :
    ∃ m', generateString (pre ++ items) pre.length m buffer room =
        (pre.length + (taken room 0 items).length, m', ((printed room items).length : ℤ)) ∧
      m'.read buffer (printed room items).length = printed room items ∧
      ∀ b n, b + n ≤ buffer → m'.read b n = m.read b n := by
  obtain ⟨rest, hrest⟩ := taken_append room items 0
  have hbefore : sizePass pre.length room (pre ++ items) 0 0 =
      sizePass pre.length room items pre.length 0 :=
    sizePass_before items (hfit.imp_right (by omega)) 0 (by simp)
  obtain ⟨hsiz, hret⟩ := sizePass_eq room pre.length 0 le_rfl (.inl hne)
  -- the headers that are taken leave room for the empty line
  have hroom : taken room 0 items ≠ [] → (texts (taken room 0 items)).length + 3 ≤ room := by
    intro h
    have := taken_room 0 h
    omega
  have hidx : (sizePass pre.length room items pre.length 0).2.2.getD
      (sizePass pre.length room items pre.length 0).2.1 =
        pre.length + (taken room 0 items).length := by
    by_cases hall : taken room 0 items = items
    · rw [if_pos hall] at hret
      rw [hret, Option.getD_none, sizePass_none _ _ hret, hall]
    · rw [if_neg hall] at hret
      rw [hret, Option.getD_some]
  have hprint : ∃ m', printPass pre.length (pre.length + (taken room 0 items).length) buffer room
      (pre ++ items) 0 0 m = ((texts (taken room 0 items)).length, m') ∧
      m'.read buffer (texts (taken room 0 items)).length = texts (taken room 0 items) ∧
      ∀ b n, b + n ≤ buffer → m'.read b n = m.read b n := by
    rw [printPass_skip 0 fun j _ hj => by omega, Nat.zero_add]
    by_cases hnil : taken room 0 items = []
    · refine ⟨m, ?_, by simp [hnil, Mem.read], fun _ _ _ => rfl⟩
      rw [hnil, printPass_nothing fun j hj _ => by rw [List.length_nil]; omega]
      rfl
    · have hlt := hroom hnil
      obtain ⟨m', hrun, hread, hbelow⟩ :=
        printPass_range rest pre.length 0 m le_rfl
          (show ((0 + (texts (taken room 0 items)).length : ℕ) : ℤ) < room by omega)
      refine ⟨m', ?_, by simpa using hread, by simpa using hbelow⟩
      rw [← hrest, Nat.zero_add] at hrun
      rw [hrun, printPass_nothing fun j hj _ => by omega]
  obtain ⟨m', hrun, hread, hbelow⟩ := hprint
  rw [generateString, hbefore]
  simp only [if_neg hsiz, hidx, hrun]
  by_cases hall : taken room 0 items = items
  · -- every header is printed, and the empty line behind them
    have hlt := hroom (by rw [hall]; exact hne)
    rw [if_pos hall] at hret
    have hlast := sizePass_none _ _ hret
    refine ⟨snprintf m' (buffer + (texts (taken room 0 items)).length)
      (room - (texts (taken room 0 items)).length) crlf, ?_, ?_, fun b n hbn => ?_⟩
    · simp only [hret, hlast, hall, printed, if_true, List.length_append]
      push_cast
      rfl
    · rw [printed, if_pos hall, List.length_append, Mem.read_append, snprintf_read_below le_rfl,
        hread, snprintf_read]
      simp only [crlf, List.length_cons, List.length_nil]
      omega
    · rw [snprintf_read_below (by omega), hbelow b n hbn]
  · rw [if_neg hall] at hret
    refine ⟨m', ?_, ?_, hbelow⟩
    · simp only [hret, printed, if_neg hall, List.append_nil]
    · rw [printed, if_neg hall, List.append_nil, hread]

end EspIdf.HttpClient
