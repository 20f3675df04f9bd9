/-
# The streamed image

What the chunks of a stream have left in the flash and in the handle: the bytes written so far
and the bytes carried to the next call are together the bytes passed so far.  A stream ends
with the whole image in the slot unless it was too short for a single encrypted block, which
`esp_ota_end` takes for a stream without data.
-/
import EspIdf.Ota.Streaming

namespace EspIdf.Ota

open EspIdf.Lib EspIdf.SpiFlash

variable {dev : Board} {part : Partition} {m m₀ : Mem} {a x : ℕ} {bs img img' data : List Byte}
  {s s' : OpsState} {handle w limit : ℕ} {it it' : OtaOpsEntry} {count count₀ : ℕ → ℕ}

/-! ### The flash -/

/-- Places and sizes of writes suit the encryption. -/
def Board.Aligned (dev : Board) (a n : ℕ) : Prop := dev.cipher.isSome → a % 16 = 0 ∧ n % 16 = 0

lemma Board.store_encrypted {c : Cipher 16} (hc : dev.cipher = some c)
    (ha : dev.Aligned a bs.length) :
    ∃ k j, a = 16 * k ∧ bs.length = 16 * j ∧ dev.store m a bs = c.putBlocks m k bs j := by
  obtain ⟨h1, h2⟩ := ha (by rw [hc]; rfl)
  refine ⟨a / 16, bs.length / 16, by omega, by omega, ?_⟩
  rw [Board.store, hc]
  conv_lhs => rw [show a = 16 * (a / 16) by omega]
  exact writeEncryptedChip_eq c (by omega)

lemma Board.store_of_not_mem (ha : dev.Aligned a bs.length) (hx : ¬ (a ≤ x ∧ x < a + bs.length)) :
    dev.store m a bs x = m x := by
  cases hc : dev.cipher with
  | none =>
    rw [Board.store, hc]
    exact Mem.program_of_not_mem hx
  | some c =>
    obtain ⟨k, j, h1, h2, heq⟩ := Board.store_encrypted (m := m) hc ha
    rw [heq]
    exact c.putBlocks_of_not_mem (by omega)

lemma Board.view_store_of_not_mem (ha : dev.Aligned a bs.length)
    (hx : ¬ (a ≤ x ∧ x < a + bs.length)) : dev.view (dev.store m a bs) x = dev.view m x := by
  cases hc : dev.cipher with
  | none =>
    simp only [Board.view, Board.store, hc]
    exact Mem.program_of_not_mem hx
  | some c =>
    obtain ⟨k, j, h1, h2, heq⟩ := Board.store_encrypted (m := m) hc ha
    simp only [Board.view, hc, heq]
    exact c.plain_putBlocks_of_not_mem (by omega)

/-- Bytes written to an erased range are read back. -/
lemma Board.view_store_of_mem (ha : dev.Aligned a bs.length)
    (he : ∀ y, a ≤ y → y < a + bs.length → m y = 0xff#8) (hx : a ≤ x ∧ x < a + bs.length) :
    dev.view (dev.store m a bs) x = bs.getD (x - a) 0xff#8 := by
  cases hc : dev.cipher with
  | none =>
    simp only [Board.view, Board.store, hc]
    exact Mem.program_of_erased hx (he x hx.1 hx.2)
  | some c =>
    obtain ⟨k, j, h1, h2, heq⟩ := Board.store_encrypted (m := m) hc ha
    simp only [Board.view, hc, heq]
    rw [h1]
    exact c.plain_putBlocks_of_mem (fun y hy hy' => he y (by omega) (by omega)) (by omega)

/-- The first `w` bytes of `img` were written to the slot, each byte once, and nothing else;
`m₀` and `count₀` are the flash and the counts before. -/
structure Written (dev : Board) (part : Partition) (m₀ : Mem) (count₀ : ℕ → ℕ) (img : List Byte)
    (w : ℕ) (m : Mem) (count : ℕ → ℕ) : Prop where
  stored : ∀ i < w, dev.view m (part.offset + i) = img.getD i 0xff#8
  frame : ∀ x, ¬ (part.offset ≤ x ∧ x < part.offset + w) → m x = m₀ x
  counted : ∀ x, count x =
    if part.offset ≤ x ∧ x < part.offset + w then count₀ x + 1 else count₀ x

lemma Written.refl : Written dev part m₀ count₀ img 0 m₀ count₀ where
  stored := fun i hi => absurd hi (Nat.not_lt_zero i)
  frame := fun _ _ => rfl
  counted := fun x => (if_neg (by omega)).symm

lemma Written.congr (h : Written dev part m₀ count₀ img w m count)
    (himg : ∀ i < w, img.getD i 0xff#8 = img'.getD i 0xff#8) :
    Written dev part m₀ count₀ img' w m count :=
  { h with stored := fun i hi => (h.stored i hi).trans (himg i hi) }

lemma Written.store (h : Written dev part m₀ count₀ img w s.flash s.written)
    (hblank : ∀ i < limit, m₀ (part.offset + i) = 0xff#8) (hfit : w + bs.length ≤ limit)
    (ha : dev.Aligned (part.offset + w) bs.length)
    (hbs : ∀ i < bs.length, bs.getD i 0xff#8 = img.getD (w + i) 0xff#8) :
    Written dev part m₀ count₀ img (w + bs.length)
      (s.store dev (part.offset + w) bs).flash (s.store dev (part.offset + w) bs).written where
  stored := by
    intro i hi
    change dev.view (dev.store s.flash (part.offset + w) bs) (part.offset + i) = _
    rcases Nat.lt_or_ge i w with hiw | hiw
    · rw [Board.view_store_of_not_mem ha (by omega), h.stored i hiw]
    · have he : ∀ y, part.offset + w ≤ y → y < part.offset + w + bs.length →
          s.flash y = 0xff#8 := by
        intro y h1 h2
        obtain ⟨l, rfl⟩ := Nat.exists_eq_add_of_le (show part.offset ≤ y by omega)
        rw [h.frame _ (by omega), hblank l (by omega)]
      rw [Board.view_store_of_mem ha he (by omega), hbs _ (by omega)]
      congr 1
      omega
  frame := by
    intro y hy
    change dev.store s.flash (part.offset + w) bs y = _
    rw [Board.store_of_not_mem ha (by omega), h.frame y (by omega)]
  counted := by
    intro y
    change (if _ then s.written y + 1 else s.written y) = _
    rw [h.counted y]
    split <;> split <;> split <;> first | rfl | omega

/-! ### The handle -/

/-- The handle has written `wroteSize` bytes of `img` and carries the others. -/
structure Carries (dev : Board) (part : Partition) (img : List Byte) (it : OtaOpsEntry) :
    Prop where
  part_eq : it.part = part
  length_eq : it.wroteSize + it.partialBytes = img.length
  partial_le : it.partialBytes ≤ 16
  aligned : dev.cipher ≠ none → it.wroteSize % 16 = 0
  plain : dev.cipher = none → it.partialBytes = 0
  carried : ∀ i : Fin 16, i < it.partialBytes →
    it.partialData i = img.getD (it.wroteSize + i) 0xff#8

lemma findEntry_handle {es : List OtaOpsEntry} (h : findEntry handle es = some it) :
    it.handle = handle := by
  simpa using List.find?_some h

lemma findEntry_setEntry {es : List OtaOpsEntry} (h : findEntry handle es = some it)
    (hh : it'.handle = handle) : findEntry handle (setEntry it' es) = some it' := by
  induction es with
  | nil => exact absurd h (by simp [findEntry])
  | cons e es ih =>
    rw [setEntry]
    by_cases he : e.handle = it'.handle
    · rw [if_pos he]
      simp [findEntry, hh]
    · have hne : (e.handle == handle) = false := by simpa [hh] using he
      rw [if_neg he, findEntry, List.find?_cons_of_neg (by simp [hne])]
      rw [findEntry, List.find?_cons_of_neg (by simp [hne])] at h
      exact ih h

/-! ### The accesses -/

lemma flashAccess_ok {f : OpsState → OpsState} (h : flashAccess f s = (.ok (), s')) :
    ∃ fs, s' = f { s with faults := fs } := by
  unfold flashAccess at h
  split at h
  · cases h
  · next fs _ =>
    cases h
    exact ⟨fs, rfl⟩
  · cases h
    exact ⟨s.faults, rfl⟩

lemma espPartitionWrite_ok {src : List Byte}
    (h : espPartitionWrite dev part a src s = (.ok (), s')) :
    dev.Aligned (part.offset + a) src.length ∧
      ∃ fs, s' = OpsState.store dev (part.offset + a) src { s with faults := fs } := by
  unfold espPartitionWrite at h
  split at h
  · cases h
  split at h
  · cases h
  split at h
  · cases h
  split at h
  · cases h
  · next h3 h4 =>
    exact ⟨fun hc => ⟨not_and_not_right.mp h3 hc, not_and_not_right.mp h4 hc⟩, flashAccess_ok h⟩

lemma putEntry_ok (h : putEntry it s = (.ok (), s')) :
    s'.flash = s.flash ∧ s'.written = s.written ∧ s'.entries = setEntry it s.entries := by
  cases h
  exact ⟨rfl, rfl, rfl⟩

/-- The next bytes of the image are written. -/
lemma Written.espPartitionWrite (hw : Written dev part m₀ count₀ img w s.flash s.written)
    (hblank : ∀ i < limit, m₀ (part.offset + i) = 0xff#8) (hfit : w + bs.length ≤ limit)
    (hbs : ∀ i < bs.length, bs.getD i 0xff#8 = img.getD (w + i) 0xff#8)
    (hrun : Ota.espPartitionWrite dev part w bs s = (.ok (), s')) :
    Written dev part m₀ count₀ img (w + bs.length) s'.flash s'.written ∧
      s'.entries = s.entries := by
  obtain ⟨hal, fs, rfl⟩ := espPartitionWrite_ok hrun
  exact ⟨Written.store (s := { s with faults := fs }) hw hblank hfit hal hbs, rfl⟩

lemma writeData_ok (h : writeData dev it data s = (.ok (), s')) :
    dev.Aligned (it.part.offset + it.wroteSize) data.length ∧
      ∃ fs, s' = { OpsState.store dev (it.part.offset + it.wroteSize) data
          { s with faults := fs } with
        entries := setEntry { it with wroteSize := it.wroteSize + data.length } s.entries } := by
  obtain ⟨_, s₁, hwrite, hput⟩ := Prog.bind_returns h
  obtain ⟨hal, fs, rfl⟩ := espPartitionWrite_ok hwrite
  cases hput
  exact ⟨hal, fs, rfl⟩

/-! ### One chunk -/

/-- The state between two calls of `esp_ota_write`: the bytes passed so far are in the flash or
carried by the handle. -/
def Streamed (dev : Board) (part : Partition) (m₀ : Mem) (count₀ : ℕ → ℕ) (handle : ℕ)
    (img : List Byte) (s : OpsState) : Prop :=
  ∃ it, findEntry handle s.entries = some it ∧ (it.erasedSize = 0 → img = []) ∧
    Carries dev part img it ∧ it.partialBytes < 16 ∧
    Written dev part m₀ count₀ img it.wroteSize s.flash s.written

lemma getD_append_left {i : ℕ} (h : i < img.length) :
    (img ++ data).getD i 0xff#8 = img.getD i 0xff#8 := by
  rw [List.getD, List.getD, List.getElem?_append_left h]

lemma getD_append_add (i : ℕ) :
    (img ++ data).getD (img.length + i) 0xff#8 = data.getD i 0xff#8 := by
  rw [List.getD, List.getD, List.getElem?_append_right (Nat.le_add_right _ _),
    Nat.add_sub_cancel_left]

lemma getD_append_of_length {n : ℕ} (h : img.length = n) (i : ℕ) :
    (img ++ data).getD (n + i) 0xff#8 = data.getD i 0xff#8 := by
  rw [← h, getD_append_add]

lemma getD_take_of_lt {i n : ℕ} (h : i < n) : (data.take n).getD i 0xff#8 = data.getD i 0xff#8 := by
  rw [List.getD, List.getD, List.getElem?_take_of_lt h]

lemma getD_drop (i n : ℕ) : (data.drop n).getD i 0xff#8 = data.getD (n + i) 0xff#8 := by
  rw [List.getD, List.getD, List.getElem?_drop]

lemma getD_ofFn (b : Block 16) {i : ℕ} (h : i < 16) : (List.ofFn b).getD i 0xff#8 = b ⟨i, h⟩ := by
  rw [List.getD, List.getElem?_ofFn, dif_pos h, Option.getD_some]

lemma patch_of_mem {b : Block 16} {p : ℕ} {i : Fin 16} (h : p ≤ i ∧ (i : ℕ) < p + bs.length) :
    b.patch p bs i = bs.getD (i - p) 0xff#8 := if_pos h

lemma patch_of_not_mem {b : Block 16} {p : ℕ} {i : Fin 16}
    (h : ¬ (p ≤ i ∧ (i : ℕ) < p + bs.length)) : b.patch p bs i = b i := if_neg h

section

variable (hblank : ∀ i < limit, m₀ (part.offset + i) = 0xff#8)
include hblank

/-- Without encryption a chunk is written as it is. -/
lemma Streamed.writeData (hc : dev.cipher = none) {it₀ : OtaOpsEntry}
    (hfind : findEntry handle s.entries = some it₀) (hh : it.handle = handle)
    (herased : it.erasedSize ≠ 0) (hcar : Carries dev part img it)
    (hw : Written dev part m₀ count₀ img it.wroteSize s.flash s.written)
    (hfit : (img ++ data).length ≤ limit) (hrun : Ota.writeData dev it data s = (.ok (), s')) :
    Streamed dev part m₀ count₀ handle (img ++ data) s' := by
  obtain ⟨hal, fs, rfl⟩ := writeData_ok hrun
  obtain ⟨hpart, hlen, -, -, hplain, -⟩ := hcar
  have hp := hplain hc
  have hlen' : it.wroteSize = img.length := by omega
  subst hpart
  rw [List.length_append] at hfit
  refine ⟨_, findEntry_setEntry hfind hh, fun h => absurd h herased,
    ⟨rfl, ?_, ?_, fun h => absurd hc h, fun _ => hp, ?_⟩, ?_, ?_⟩
  · change it.wroteSize + data.length + it.partialBytes = _
    rw [List.length_append]
    omega
  · change it.partialBytes ≤ 16
    omega
  · intro i hi
    exact absurd (show (i : ℕ) < it.partialBytes from hi) (by omega)
  · change it.partialBytes < 16
    omega
  · refine Written.store (s := { s with faults := fs })
      (hw.congr fun i hi => (getD_append_left (by omega)).symm) hblank (by omega) hal ?_
    intro i _
    rw [hlen', getD_append_add]

/-- The whole blocks of a chunk are written and the rest of it is saved. -/
lemma Streamed.writeBlocks {c : Cipher 16} (hc : dev.cipher = some c) {it₀ : OtaOpsEntry}
    (hfind : findEntry handle s.entries = some it₀) (hh : it.handle = handle)
    (herased : it.erasedSize ≠ 0) (hpart : it.part = part) (halign : it.wroteSize % 16 = 0)
    (hlen : it.wroteSize = img.length)
    (hw : Written dev part m₀ count₀ img it.wroteSize s.flash s.written)
    (hfit : (img ++ data).length ≤ limit) (hrun : Ota.writeBlocks dev it data s = (.ok (), s')) :
    Streamed dev part m₀ count₀ handle (img ++ data) s' := by
  obtain ⟨_, s₁, hput, hdata⟩ := Prog.bind_returns hrun
  cases hput
  obtain ⟨hal, fs, rfl⟩ := writeData_ok hdata
  subst hpart
  have htl : data.length % 16 < 16 := Nat.mod_lt _ (by decide)
  have hle : data.length % 16 ≤ data.length := Nat.mod_le _ _
  have htake : (data.take (data.length - data.length % 16)).length =
      data.length - data.length % 16 := by rw [List.length_take]; omega
  rw [List.length_append] at hfit
  refine ⟨_, findEntry_setEntry (findEntry_setEntry hfind hh) hh, fun h => absurd h herased,
    ⟨rfl, ?_, ?_, fun _ => ?_, fun h => ?_, ?_⟩, htl, ?_⟩
  · change it.wroteSize + (data.take (data.length - data.length % 16)).length +
      data.length % 16 = _
    rw [htake, List.length_append]
    omega
  · exact Nat.le_of_lt htl
  · change (it.wroteSize + (data.take (data.length - data.length % 16)).length) % 16 = 0
    omega
  · rw [hc] at h
    cases h
  · intro i hi
    change it.partialData.patch 0 (data.drop (data.length - data.length % 16)) i =
      (img ++ data).getD (it.wroteSize + (data.take (data.length - data.length % 16)).length + i) _
    have hi' : (i : ℕ) < data.length % 16 := hi
    rw [patch_of_mem (by rw [List.length_drop]; omega), getD_drop, htake, hlen, Nat.add_assoc,
      getD_append_add, Nat.sub_zero]
  · refine Written.store (s := { s with faults := fs })
      (hw.congr fun i hi => (getD_append_left (by omega)).symm) hblank ?_ hal ?_
    · change it.wroteSize + _ ≤ limit
      omega
    intro i hi
    rw [getD_take_of_lt (by omega)]
    change _ = (img ++ data).getD (it.wroteSize + i) _
    rw [hlen, getD_append_add]

end

/-- Filling up the block in the handle carries the copied bytes. -/
lemma Carries.filled (hcar : Carries dev part img it) (hc : dev.cipher ≠ none) {n : ℕ}
    (hn : n ≤ data.length) (hp : it.partialBytes + n ≤ 16) :
    Carries dev part (img ++ data.take n) (it.filled data n) where
  part_eq := hcar.part_eq
  length_eq := by
    have := hcar.length_eq
    change it.wroteSize + (it.partialBytes + n) = _
    rw [List.length_append, List.length_take]
    omega
  partial_le := hp
  aligned := hcar.aligned
  plain := fun h => absurd h hc
  carried := by
    intro i hi
    have hi' : (i : ℕ) < it.partialBytes + n := hi
    have hlen := hcar.length_eq
    change it.partialData.patch it.partialBytes (data.take n) i =
      (img ++ data.take n).getD (it.wroteSize + i) _
    rcases Nat.lt_or_ge (i : ℕ) it.partialBytes with hlt | hge
    · rw [patch_of_not_mem (by omega), getD_append_left (by omega), hcar.carried i hlt]
    · rw [patch_of_mem (by rw [List.length_take]; omega),
        show it.wroteSize + (i : ℕ) = img.length + (i - it.partialBytes) by omega, getD_append_add]

/-- With encryption a chunk first fills up the block in the handle. -/
lemma Streamed.writeEncrypted (hblank : ∀ i < limit, m₀ (part.offset + i) = 0xff#8)
    {c : Cipher 16} (hc : dev.cipher = some c) (hfind : findEntry handle s.entries = some it)
    (herased : it.erasedSize ≠ 0) (hcar : Carries dev part img it) (hp : it.partialBytes < 16)
    (hw : Written dev part m₀ count₀ img it.wroteSize s.flash s.written)
    (hfit : (img ++ data).length ≤ limit) (hrun : Ota.writeEncrypted dev it data s = (.ok (), s')) :
    Streamed dev part m₀ count₀ handle (img ++ data) s' := by
  have hc' : dev.cipher ≠ none := by rw [hc]; exact Option.some_ne_none c
  have hh : it.handle = handle := findEntry_handle hfind
  have hlen := hcar.length_eq
  unfold Ota.writeEncrypted at hrun
  split at hrun
  · next hp0 =>
    have hfill := hcar.filled hc' (n := min (16 - it.partialBytes) data.length)
      (Nat.min_le_right _ _) (by omega)
    rw [List.length_append] at hfit
    simp only at hrun
    split at hrun
    · next hne =>
      -- the chunk ends inside the block
      have hne' : it.partialBytes + min (16 - it.partialBytes) data.length ≠ 16 := hne
      have hall : data.take (min (16 - it.partialBytes) data.length) = data :=
        List.take_of_length_le (by omega)
      cases hrun
      rw [hall] at hfill
      refine ⟨_, findEntry_setEntry hfind hh, fun h => absurd h herased, hfill, ?_,
        hw.congr fun i hi => (getD_append_left (by omega)).symm⟩
      change it.partialBytes + _ < 16
      omega
    · next heq =>
      have heq' : it.partialBytes + min (16 - it.partialBytes) data.length = 16 :=
        not_not.mp heq
      obtain ⟨_, s₁, hput, hrun⟩ := Prog.bind_returns hrun
      obtain ⟨_, s₂, hwrite, hrun⟩ := Prog.bind_returns hrun
      obtain ⟨_, s₃, hput', hrun⟩ := Prog.bind_returns hrun
      obtain ⟨hm₁, hcount₁, hent₁⟩ := putEntry_ok hput
      obtain ⟨hm₃, hcount₃, hent₃⟩ := putEntry_ok hput'
      generalize min (16 - it.partialBytes) data.length = n at *
      have hfl : it.wroteSize + (it.partialBytes + n) = _ := hfill.length_eq
      have hsplit : img ++ data = img ++ data.take n ++ data.drop n := by
        rw [List.append_assoc, List.take_append_drop]
      have h16 : (List.ofFn (it.filled data n).partialData).length = 16 := List.length_ofFn
      have hw₁ : Written dev part m₀ count₀ (img ++ data.take n) it.wroteSize s₁.flash
          s₁.written := by
        rw [hm₁, hcount₁]
        exact hw.congr fun i hi => (getD_append_left (by omega)).symm
      have hlim : (img ++ data.take n).length ≤ limit := by
        rw [List.length_append, List.length_take]
        omega
      obtain ⟨hw₂, hent₂⟩ := hw₁.espPartitionWrite hblank (by rw [h16]; omega) (by
        intro i hi
        rw [h16] at hi
        rw [getD_ofFn _ hi]
        exact hfill.carried ⟨i, hi⟩ (by change i < it.partialBytes + n; omega))
        (hcar.part_eq ▸ hwrite)
      have hfind₁ : findEntry handle s₁.entries = some (it.filled data n) := by
        rw [hent₁]
        exact findEntry_setEntry hfind hh
      have hfind₃ : findEntry handle s₃.entries = some (it.filled data n).flushed := by
        rw [hent₃, hent₂]
        exact findEntry_setEntry hfind₁ hh
      rw [hsplit]
      have hh₃ : (it.filled data n).flushed.handle = handle := hh
      refine Streamed.writeBlocks hblank hc hfind₃ hh₃ herased hcar.part_eq ?_ ?_ ?_ ?_ hrun
      · change (it.wroteSize + 16) % 16 = 0
        have := hcar.aligned hc'
        omega
      · change it.wroteSize + 16 = _
        omega
      · rw [hm₃, hcount₃]
        rw [h16] at hw₂
        exact hw₂
      · rw [← hsplit, List.length_append]
        exact hfit
  · next hp0 =>
    exact Streamed.writeBlocks hblank hc hfind hh herased hcar.part_eq (hcar.aligned hc')
      (by omega) hw hfit hrun

/-- A call of `esp_ota_write` that returns `ESP_OK` adds its data to the stream. -/
theorem Streamed.espOtaWrite (hblank : ∀ i < limit, m₀ (part.offset + i) = 0xff#8)
    (h : Streamed dev part m₀ count₀ handle img s) (hfit : (img ++ data).length ≤ limit)
    (hrun : Ota.espOtaWrite dev handle data s = (.ok (), s')) :
    Streamed dev part m₀ count₀ handle (img ++ data) s' := by
  obtain ⟨it, hfind, herased, hcar, hp, hw⟩ := h
  unfold Ota.espOtaWrite at hrun
  rw [Prog.get_bind] at hrun
  simp only [hfind] at hrun
  split at hrun
  · cases hrun
  split at hrun
  · cases hrun
  next hne _ =>
  split at hrun
  · next hsome =>
    obtain ⟨c, hc⟩ := Option.isSome_iff_exists.mp hsome
    exact Streamed.writeEncrypted hblank hc hfind hne hcar hp hw hfit hrun
  · next hnone =>
    exact Streamed.writeData hblank (Option.not_isSome_iff_eq_none.mp hnone) hfind
      (findEntry_handle hfind) hne hcar hw hfit hrun

/-- The chunks of a stream are put one behind the other. -/
theorem Streamed.writeChunks (hblank : ∀ i < limit, m₀ (part.offset + i) = 0xff#8)
    {chunks : List (List Byte)} (h : Streamed dev part m₀ count₀ handle img s)
    (hfit : (img ++ chunks.flatten).length ≤ limit)
    (hrun : Ota.writeChunks dev handle chunks s = (.ok (), s')) :
    Streamed dev part m₀ count₀ handle (img ++ chunks.flatten) s' := by
  induction chunks generalizing img s with
  | nil =>
    cases hrun
    rwa [List.flatten_nil, List.append_nil]
  | cons chunk chunks ih =>
    obtain ⟨_, s₁, hfirst, hrest⟩ := Prog.bind_returns hrun
    rw [List.flatten_cons, ← List.append_assoc] at hfit ⊢
    exact ih (h.espOtaWrite hblank (by rw [List.length_append] at hfit; omega) hfirst) hfit hrest

/-! ### The two ends of a stream -/

lemma espPartitionEraseRange_ok {size : ℕ}
    (h : espPartitionEraseRange part 0 size s = (.ok (), s')) :
    size % secSize = 0 ∧ part.offset % secSize = 0 ∧
      ∃ fs, s' = { s with faults := fs, flash := s.flash.erase part.offset size } := by
  unfold espPartitionEraseRange at h
  split at h
  · cases h
  split at h
  · cases h
  split at h
  · cases h
  split at h
  · cases h
  split at h
  · cases h
  · next h3 _ h5 =>
    obtain ⟨fs, rfl⟩ := flashAccess_ok h
    exact ⟨not_not.mp h3, not_not.mp h5, fs, rfl⟩

lemma runningPendingVerify_ok {b : Bool} (h : runningPendingVerify dev s = (.ok b, s')) :
    s' = s := by
  unfold runningPendingVerify at h
  split at h
  · split at h <;> cases h <;> rfl
  · cases h
    rfl

/-- A handle that was opened has an erased range behind it and an empty stream. -/
lemma espOtaBegin_ok {imageSize : ℕ} (h : espOtaBegin dev part imageSize s = (.ok handle, s')) :
    eraseLength part imageSize % secSize = 0 ∧ part.offset % secSize = 0 ∧
      (∀ i < eraseLength part imageSize, s'.flash (part.offset + i) = 0xff#8) ∧
      Streamed dev part s'.flash s'.written handle [] s' := by
  unfold espOtaBegin at h
  split at h
  · cases h
  split at h
  · cases h
  split at h
  · cases h
  obtain ⟨b, s₁, hpend, h⟩ := Prog.bind_returns h
  obtain rfl := runningPendingVerify_ok hpend
  cases b with
  | true => cases h
  | false =>
  simp only [Bool.false_eq_true, if_false] at h
  obtain ⟨_, s₂, herase, h⟩ := Prog.bind_returns h
  obtain ⟨hsize, hoff, fs, rfl⟩ := espPartitionEraseRange_ok herase
  cases h
  refine ⟨hsize, hoff, fun i hi => Mem.erase_of_mem (by omega), _,
    List.find?_cons_of_pos (by simp), fun _ => rfl, ?_, ?_, ?_⟩
  · exact ⟨rfl, rfl, Nat.zero_le _, fun _ => rfl, fun _ => rfl,
      fun i hi => absurd hi (Nat.not_lt_zero _)⟩
  · exact Nat.succ_pos 15
  · exact Written.refl

/-- What `esp_ota_end` leaves in the flash when its own write does not fail. -/
lemma espOtaEnd_state {verify : Mem → Partition → Bool} {r : Except OpsStop Unit}
    (hfind : findEntry handle s.entries = some it)
    (h : espOtaEnd dev verify handle s = (r, s')) (hr : r ≠ .error (.err .invalidState)) :
    ((it.erasedSize = 0 ∨ it.wroteSize = 0) ∧ s'.flash = s.flash ∧ s'.written = s.written) ∨
      (it.wroteSize ≠ 0 ∧ ∃ s₁, writeLastBlock dev it s = (.ok (), s₁) ∧ s'.flash = s₁.flash ∧
        s'.written = s₁.written) := by
  unfold espOtaEnd at h
  simp only [hfind] at h
  cases h
  unfold endBody at hr ⊢
  by_cases h0 : it.erasedSize = 0 ∨ it.wroteSize = 0
  · simp only [if_pos h0]
    exact Or.inl ⟨h0, rfl, rfl⟩
  · simp only [if_neg h0] at hr ⊢
    refine Or.inr ⟨fun h => h0 (Or.inr h), ?_⟩
    cases hlast : writeLastBlock dev it s with
    | mk res s₁ =>
      cases res with
      | error e =>
        exfalso
        rw [Prog.bind_error hlast] at hr
        unfold writeLastBlock at hlast
        split at hlast
        · split at hlast
          · cases hlast
          · cases hlast
            exact hr rfl
        · cases hlast
      | ok u =>
        refine ⟨s₁, rfl, ?_⟩
        rw [Prog.bind_ok hlast, Prog.get_bind]
        split <;> exact ⟨rfl, rfl⟩

lemma writeLastBlock_ok (h : writeLastBlock dev it s = (.ok (), s')) :
    it.partialBytes = 0 ∧ s' = s ∨ it.partialBytes ≠ 0 ∧
      espPartitionWrite dev it.part it.wroteSize (List.ofFn it.partialData) s = (.ok (), s') := by
  unfold writeLastBlock at h
  split at h
  · next hp =>
    refine Or.inr ⟨by omega, ?_⟩
    split at h
    · next hw =>
      cases h
      exact hw
    · cases h
  · next hp =>
    cases h
    exact Or.inl ⟨by omega, rfl⟩

/-- The bytes that are written for an image: whole blocks when they are encrypted. -/
def roundUp16 (n : ℕ) : ℕ := (n + 15) / 16 * 16

/-- The image is in the slot, and since `s` exactly its bytes and the padding of its last block
were written. -/
structure Reassembled (dev : Board) (part : Partition) (img : List Byte) (s s' : OpsState) :
    Prop where
  contents : (dev.view s'.flash).read part.offset img.length = img
  covered : ∀ i < img.length, s'.written (part.offset + i) = s.written (part.offset + i) + 1
  once : ∀ x, s'.written x ≤ s.written x + 1
  inside : ∀ x, s'.written x ≠ s.written x →
    part.offset ≤ x ∧ x < part.offset + roundUp16 img.length
  frame : ∀ x, ¬ (part.offset ≤ x ∧ x < part.offset + roundUp16 img.length) →
    s'.flash x = s.flash x

lemma Written.reassembled (h : Written dev part s.flash s.written img' w s'.flash s'.written)
    (hle : img.length ≤ w) (hw : w ≤ roundUp16 img.length)
    (himg : ∀ i < img.length, img'.getD i 0xff#8 = img.getD i 0xff#8) :
    Reassembled dev part img s s' where
  contents := Mem.read_eq_of_getD rfl fun i hi => (h.stored i (by omega)).trans (himg i hi)
  covered := fun i hi => by rw [h.counted, if_pos (by omega)]
  once := fun x => by rw [h.counted]; split <;> omega
  inside := fun x hx => by
    rw [h.counted] at hx
    split at hx
    · omega
    · exact absurd rfl hx
  frame := fun x hx => h.frame x (by omega)

/-- A stream of calls that return `ESP_OK` leaves the image in the slot, every byte written
once, if and only if there is no encryption, or no image, or at least one block of it. -/
theorem stream_reassembled_iff {imageSize : ℕ} {chunks : List (List Byte)}
    {verify : Mem → Partition → Bool} {r : Except OpsStop Unit} {s₁ s₂ s₃ : OpsState}
    (hbegin : espOtaBegin dev part imageSize s = (.ok handle, s₁))
    (hwrites : writeChunks dev handle chunks s₁ = (.ok (), s₂))
    (hend : espOtaEnd dev verify handle s₂ = (r, s₃)) (hr : r ≠ .error (.err .invalidState))
    (hfit : chunks.flatten.length ≤ eraseLength part imageSize) :
    Reassembled dev part chunks.flatten s₁ s₃ ↔
      dev.cipher = none ∨ chunks.flatten = [] ∨ 16 ≤ chunks.flatten.length := by
  obtain ⟨hsize, hoff, hblank, hstart⟩ := espOtaBegin_ok hbegin
  have hall := hstart.writeChunks hblank (by rwa [List.nil_append]) hwrites
  rw [List.nil_append] at hall
  generalize chunks.flatten = img at *
  generalize eraseLength part imageSize = limit at *
  obtain ⟨it, hfind, herased, hcar, hp, hw⟩ := hall
  have hlen := hcar.length_eq
  have hlimit : limit % 16 = 0 := by
    have := Nat.mod_mod_of_dvd limit (show 16 ∣ secSize from ⟨256, rfl⟩)
    omega
  rcases espOtaEnd_state hfind hend hr with ⟨h0, hm, hcount⟩ | ⟨h0, s₄, hlast, hm, hcount⟩
  · -- nothing was written before the end
    have hempty : img = [] ∨ it.wroteSize = 0 := h0.imp_left herased
    have hw0 : it.wroteSize = 0 := by
      rcases hempty with rfl | h
      · rw [List.length_nil] at hlen
        omega
      · exact h
    rw [← hm, ← hcount, hw0] at hw
    constructor
    · intro h
      refine Or.inr (Or.inl ?_)
      by_contra hne
      have hpos := List.length_pos_iff.mpr hne
      have := h.covered 0 hpos
      rw [hw.counted, if_neg (by omega)] at this
      omega
    · intro h
      have hnil : img.length = 0 := by
        rcases h with h | rfl | h
        · have := hcar.plain h
          omega
        · rfl
        · omega
      exact hw.reassembled (by omega) (Nat.zero_le _) fun i _ => rfl
  · have hcond : dev.cipher = none ∨ img = [] ∨ 16 ≤ img.length := by
      by_cases hc : dev.cipher = none
      · exact Or.inl hc
      · have := hcar.aligned hc
        exact Or.inr (Or.inr (by omega))
    refine iff_of_true ?_ hcond
    rcases writeLastBlock_ok hlast with ⟨hp0, rfl⟩ | ⟨hp0, hwrite⟩
    · rw [← hm, ← hcount] at hw
      refine hw.reassembled (by omega) ?_ fun i _ => rfl
      unfold roundUp16
      omega
    · have hc : dev.cipher ≠ none := fun hc => hp0 (hcar.plain hc)
      have halign := hcar.aligned hc
      have h16 : (List.ofFn it.partialData).length = 16 := List.length_ofFn
      have htake : (img.take it.wroteSize).length = it.wroteSize := by
        rw [List.length_take]
        omega
      -- the block in the handle is written with what it holds behind the image
      have hpad : ∀ i < img.length,
          (img.take it.wroteSize ++ List.ofFn it.partialData).getD i 0xff#8 =
            img.getD i 0xff#8 := by
        intro i hi
        rcases Nat.lt_or_ge i it.wroteSize with hlt | hge
        · rw [getD_append_left (by omega), getD_take_of_lt hlt]
        · obtain ⟨j, rfl⟩ := Nat.exists_eq_add_of_le hge
          have hj : j < 16 := by omega
          have hcarried := hcar.carried ⟨j, hj⟩ (by change j < _; omega)
          rw [getD_append_of_length htake, getD_ofFn _ hj]
          exact hcarried
      obtain ⟨hw', -⟩ := (hw.congr fun i hi => (hpad i (by omega)).symm).espPartitionWrite hblank
        (by rw [h16]; omega) (fun i _ => (getD_append_of_length htake i).symm)
        (hcar.part_eq ▸ hwrite)
      rw [← hm, ← hcount, h16] at hw'
      refine hw'.reassembled (by omega) ?_ hpad
      unfold roundUp16
      omega

/-! ### A device with two applications -/

/-- A cipher that changes every byte in the same way. -/
def xorCipher : Cipher 16 where
  enc _ b := fun i => b i ^^^ 0x5a#8
  dec _ b := fun i => b i ^^^ 0x5a#8
  dec_enc _ b := by funext i; rw [BitVec.xor_assoc, BitVec.xor_self, BitVec.xor_zero]
  enc_dec _ b := by funext i; rw [BitVec.xor_assoc, BitVec.xor_self, BitVec.xor_zero]

/-- The slot `ota_0`. -/
def slot0 : Partition where
  type := 0x00#8
  subtype := 0x10#8
  offset := 0x110000
  size := 0x100000

/-- The factory application is running. -/
def factoryBoard (cipher : Option (Cipher 16)) : Board where
  table := [⟨0x00#8, 0x00#8, 0x10000, 0x100000⟩, slot0]
  rollback := false
  running := ⟨0x00#8, 0x00#8, 0x10000, 0x100000⟩
  cipher := cipher

/-- No handle is open and the flash driver works. -/
def idle : OpsState where
  flash := fun _ => 0x00#8
  written := fun _ => 0
  faults := []
  entries := []
  lastHandle := 0

/-- The states of a stream into `slot0`: opened, written, ended. -/
def opened (cipher : Option (Cipher 16)) : OpsState :=
  (espOtaBegin (factoryBoard cipher) slot0 otaSizeUnknown idle).2

def streamed (cipher : Option (Cipher 16)) (chunks : List (List Byte)) : OpsState :=
  (writeChunks (factoryBoard cipher) 1 chunks (opened cipher)).2

def ended (cipher : Option (Cipher 16)) (chunks : List (List Byte)) : OpsState :=
  (espOtaEnd (factoryBoard cipher) (fun _ _ => true) 1 (streamed cipher chunks)).2

/-- Seventeen bytes in three calls. -/
theorem stream_reassembled_seventeen :
    Reassembled (factoryBoard (some xorCipher)) slot0 (0xe9#8 :: List.replicate 16 0x11#8)
      (opened (some xorCipher))
      (ended (some xorCipher) [[0xe9#8], [], List.replicate 16 0x11#8]) := by
  have hbegin : espOtaBegin (factoryBoard (some xorCipher)) slot0 otaSizeUnknown idle =
      (.ok 1, opened (some xorCipher)) := rfl
  have hwrites : writeChunks (factoryBoard (some xorCipher)) 1
      [[0xe9#8], [], List.replicate 16 0x11#8] (opened (some xorCipher)) =
        (.ok (), streamed (some xorCipher) [[0xe9#8], [], List.replicate 16 0x11#8]) := rfl
  have hend : espOtaEnd (factoryBoard (some xorCipher)) (fun _ _ => true) 1
      (streamed (some xorCipher) [[0xe9#8], [], List.replicate 16 0x11#8]) =
        (.ok (), ended (some xorCipher) [[0xe9#8], [], List.replicate 16 0x11#8]) := rfl
  exact (stream_reassembled_iff hbegin hwrites hend (by simp) (by decide)).mpr
    (Or.inr (Or.inr (by decide)))

/-- An encrypted image of a single byte is never written, and `esp_ota_end` reports that there
was no data. -/
theorem single_byte_lost :
    espOtaBegin (factoryBoard (some xorCipher)) slot0 otaSizeUnknown idle =
        (.ok 1, opened (some xorCipher)) ∧
      writeChunks (factoryBoard (some xorCipher)) 1 [[0xe9#8]] (opened (some xorCipher)) =
        (.ok (), streamed (some xorCipher) [[0xe9#8]]) ∧
      espOtaEnd (factoryBoard (some xorCipher)) (fun _ _ => true) 1
          (streamed (some xorCipher) [[0xe9#8]]) =
        (.error (.err .invalidArg), ended (some xorCipher) [[0xe9#8]]) ∧
      ¬ Reassembled (factoryBoard (some xorCipher)) slot0 [0xe9#8] (opened (some xorCipher))
        (ended (some xorCipher) [[0xe9#8]]) :=
  ⟨rfl, rfl, rfl, fun h => absurd (h.covered 0 (by decide)) (by decide)⟩

end EspIdf.Ota
