/-
# Rows that hold a text

What the generator puts on a page for a row of the encoding `string`, and what `Page::readItem`
makes of it.  The size of a text is counted in characters, while its bytes are what is stored:
the two agree for ASCII texts, and for no others.
-/
import EspIdf.Nvs.PartitionGen
import EspIdf.Nvs.Items
import EspIdf.Nvs.Read

namespace EspIdf.Nvs.PartitionGen

open EspIdf.Lib

/-! ### Slices -/

section Slices

variable {a t buf data : List Byte} {start stop n : ℕ}

lemma setSlice_append_right (h : a.length ≤ start) (hs : start ≤ stop) :
    setSlice (a ++ t) start stop data =
      a ++ setSlice t (start - a.length) (stop - a.length) data := by
  rw [setSlice, setSlice, List.take_append, List.take_of_length_le h, List.drop_append,
    List.drop_eq_nil_of_le (by omega), Nat.max_eq_right hs, Nat.max_eq_right (by omega)]
  simp

lemma setSlice_append_left (hs : start ≤ stop) (h : stop ≤ a.length) :
    setSlice (a ++ t) start stop data = setSlice a start stop data ++ t := by
  rw [setSlice, setSlice, Nat.max_eq_right hs, List.take_append_of_le_length (by omega),
    List.drop_append_of_le_length h]
  simp

/-- A slice between two parts of the buffer. -/
lemma setSlice_middle {p : List Byte} (hs : start = a.length) (ht : stop = a.length + p.length) :
    setSlice (a ++ (p ++ t)) start stop data = a ++ (data ++ t) := by
  subst hs ht
  rw [setSlice_append_right (Nat.le_refl _) (by omega), Nat.sub_self, Nat.add_sub_cancel_left,
    setSlice_append_left (Nat.zero_le _) (Nat.le_refl _), setSlice, List.take_zero,
    List.drop_eq_nil_of_le (by omega)]
  simp

/-- A slice behind a prefix of the buffer. -/
lemma take_setSlice (hn : n ≤ start) (hlen : n ≤ buf.length) :
    (setSlice buf start stop data).take n = buf.take n := by
  rw [setSlice, List.append_assoc, List.take_append_of_le_length (by simp; omega), List.take_take,
    Nat.min_eq_left hn]

/-- A slice in front of a suffix of the buffer. -/
lemma drop_setSlice (hs : start ≤ stop) (hlen : start ≤ buf.length)
    (hdata : stop = start + data.length) (hn : stop ≤ n) :
    (setSlice buf start stop data).drop n = buf.drop n := by
  have hfront : (buf.take start ++ data).length = stop := by
    rw [List.length_append, List.length_take, Nat.min_eq_left hlen, hdata]
  obtain ⟨k, rfl⟩ := Nat.exists_eq_add_of_le hn
  rw [setSlice, Nat.max_eq_right hs, ← List.drop_drop, List.drop_left' hfront, List.drop_drop]

/-- The part of a slice behind `n`. -/
lemma drop_setSlice_of_le (hn : n ≤ start) (hs : start ≤ stop) (hlen : n ≤ buf.length) :
    (setSlice buf start stop data).drop n =
      setSlice (buf.drop n) (start - n) (stop - n) data := by
  rw [setSlice, setSlice, List.append_assoc, List.drop_append_of_le_length (by simp; omega),
    List.drop_take, Nat.max_eq_right hs, Nat.max_eq_right (by omega), List.drop_drop,
    show n + (stop - n) = stop by omega, List.append_assoc]

lemma length_setSlice_le (hs : stop ≤ start + data.length) :
    buf.length ≤ (setSlice buf start stop data).length := by
  simp only [setSlice, List.length_append, List.length_take, List.length_drop]
  omega

end Slices

/-! ### UTF-8 -/

lemma length_encode (text : List Char) :
    (encode text).length = (text.map Char.utf8Size).sum := by
  induction text with
  | nil => rfl
  | cons c text ih =>
    rw [encode, List.flatMap_cons, List.length_append, ← encode, ih, List.length_map,
      String.length_utf8EncodeChar, List.map_cons, List.sum_cons]

lemma length_le_encode (text : List Char) : text.length ≤ (encode text).length := by
  rw [length_encode]
  induction text with
  | nil => exact Nat.le_refl _
  | cons c text ih =>
    have := c.utf8Size_pos
    rw [List.length_cons, List.map_cons, List.sum_cons]
    omega

/-- One byte for each character of an ASCII text, and more for any other one. -/
lemma length_encode_eq_iff (text : List Char) :
    (encode text).length = text.length ↔ ∀ c ∈ text, c.toNat < 128 := by
  induction text with
  | nil => simp [encode]
  | cons c text ih =>
    have hone : c.utf8Size = 1 ↔ c.toNat < 128 := by
      have hval : c.val ≤ 0x7F ↔ c.toNat < 128 := by
        rw [UInt32.le_iff_toNat_le]
        exact Nat.lt_succ_iff.symm
      rw [← hval, Char.utf8Size]
      split
      · simp_all
      · split
        · simp_all
        · split <;> simp_all
    have hpos := c.utf8Size_pos
    have hle := length_le_encode text
    have hcons : (encode (c :: text)).length = c.utf8Size + (encode text).length := by
      rw [length_encode, length_encode, List.map_cons, List.sum_cons]
    rw [hcons, List.length_cons, List.forall_mem_cons, ← ih, ← hone]
    omega

/-- The bytes of a character other than `'\0'`. -/
lemma zero_not_mem_utf8 {c : Char} (h : c ≠ Char.ofNat 0) : (0 : UInt8) ∉ String.utf8EncodeChar c := by
  intro hmem
  have hpos : 0 < c.val.toNat := by
    rcases Nat.eq_zero_or_pos c.toNat with hz | hz
    · exact absurd (Char.toNat_inj.mp (hz.trans (by decide))) h
    · exact hz
  have hzero : (0 : UInt8).toNat = 0 := rfl
  unfold String.utf8EncodeChar at hmem
  dsimp only at hmem
  -- every byte is the code itself, or has its highest bit set
  split at hmem <;> [skip; split at hmem <;> [skip; split at hmem]]
  all_goals
    simp only [List.mem_cons, List.not_mem_nil, or_false, ← UInt8.toNat_inj,
      UInt8.toNat_ofNat'] at hmem
    omega

lemma zero_not_mem_encode {text : List Char} (h : Char.ofNat 0 ∉ text) :
    (0 : Byte) ∉ encode text := by
  intro hmem
  obtain ⟨c, hc, hmem⟩ := List.mem_flatMap.mp hmem
  obtain ⟨b, hb, hzero⟩ := List.mem_map.mp hmem
  have hb0 : b = 0 := UInt8.toBitVec_inj.mp hzero
  exact zero_not_mem_utf8 (fun heq => h (heq ▸ hc)) (hb0 ▸ hb)

/-! ### The header of an entry -/

lemma crc32Le_append (crc : BitVec 32) (a b : List Byte) :
    crc32Le crc (a ++ b) = crc32Le (crc32Le crc a) b := by
  simp [crc32Le, List.foldl_append]

lemma length_packHalf {buf : List Byte} {offset v : ℕ} (h : offset + 2 ≤ buf.length) :
    (packHalf buf offset v).length = buf.length := by
  simp only [packHalf, setSlice, List.length_append, List.length_take, List.length_drop,
    length_le32]
  omega

lemma length_packWord {buf : List Byte} {offset v : ℕ} (h : offset + 4 ≤ buf.length) :
    (packWord buf offset v).length = buf.length := by
  simp only [packWord, setSlice, List.length_append, List.length_take, List.length_drop,
    length_le32]
  omega

/-- The key field and what follows it, before the size and the checksum of the data are set. -/
def keyAndData (key : List Char) : List Byte :=
  encode key ++ (List.replicate (16 - key.length) 0 ++ List.replicate 8 0xff)

lemma setKey_eq {front : List Byte} (hfront : front.length = 8) {key : List Char}
    (hkey : key.length ≤ 15) :
    Page.setKey (front ++ List.replicate 24 0xff) key = front ++ keyAndData key := by
  have hzeros : setSlice (front ++ List.replicate 24 0xff) 8 24 (List.replicate 16 0) =
      front ++ (List.replicate 16 0 ++ List.replicate 8 0xff) := by
    rw [setSlice_append_right (by omega) (by decide), hfront]
    rfl
  rw [Page.setKey, hzeros, setSlice_append_right (by omega) (by omega), hfront, setSlice,
    keyAndData, Nat.sub_self, List.take_zero, List.nil_append, Nat.zero_max, Nat.add_sub_cancel_left,
    List.drop_append_of_le_length (by rw [List.length_replicate]; omega), List.drop_replicate]

/-- The key field and the data field of the entry of a text. -/
def textFields (key : List Char) (datalen : ℕ) (bytes : List Byte) : List Byte :=
  packWord (packHalf (keyAndData key) 16 datalen) 20 (zlibCrc32 bytes)

/-- The header of the entry of a text, as far as it is written. -/
def textHeader (ns : Byte) (span : ℕ) (key : List Char) (datalen : ℕ) (bytes : List Byte) :
    List Byte :=
  let front := [ns, ItemType.sz, BitVec.ofNat 8 span, chunkAny]
  let fields := textFields key datalen bytes
  front ++ le32 (zlibCrc32 (front ++ fields.take 24)) ++ fields

lemma length_keyAndData {key : List Char} (hkey : key.length ≤ 15) :
    24 ≤ (keyAndData key).length := by
  have := length_le_encode key
  simp only [keyAndData, List.length_append, List.length_replicate]
  omega

lemma length_textFields {key : List Char} (hkey : key.length ≤ 15) (datalen : ℕ)
    (bytes : List Byte) : (textFields key datalen bytes).length = (keyAndData key).length := by
  have h := length_keyAndData hkey
  have hhalf : (packHalf (keyAndData key) 16 datalen).length = (keyAndData key).length :=
    length_packHalf (by omega)
  rw [textFields, length_packWord (by omega), hhalf]

/-- The key, the size and the checksum. -/
lemma textFields_take {key : List Char} (hkey : key.length ≤ 15) (datalen : ℕ)
    (bytes : List Byte) : (textFields key datalen bytes).take 24 =
      (keyAndData key).take 16 ++ ((le32 datalen).take 2 ++
        (((keyAndData key).take 20).drop 18 ++ le32 (zlibCrc32 bytes))) := by
  have h := length_keyAndData hkey
  rw [textFields]
  generalize keyAndData key = T at h ⊢
  obtain ⟨a, t, rfl, ha⟩ : ∃ a t, T = a ++ t ∧ a.length = 16 :=
    ⟨T.take 16, T.drop 16, (List.take_append_drop 16 T).symm, by rw [List.length_take]; omega⟩
  obtain ⟨p, t, rfl, hp⟩ : ∃ p t', t = p ++ t' ∧ p.length = 2 := by
    rw [List.length_append] at h
    exact ⟨t.take 2, t.drop 2, (List.take_append_drop 2 t).symm, by rw [List.length_take]; omega⟩
  obtain ⟨q, t, rfl, hq⟩ : ∃ q t', t = q ++ t' ∧ q.length = 2 := by
    rw [List.length_append, List.length_append] at h
    exact ⟨t.take 2, t.drop 2, (List.take_append_drop 2 t).symm, by rw [List.length_take]; omega⟩
  obtain ⟨r, t, rfl, hr⟩ : ∃ r t', t = r ++ t' ∧ r.length = 4 := by
    rw [List.length_append, List.length_append, List.length_append] at h
    exact ⟨t.take 4, t.drop 4, (List.take_append_drop 4 t).symm, by rw [List.length_take]; omega⟩
  have hs : ((le32 datalen).take 2).length = 2 := rfl
  have hcrc : (le32 (zlibCrc32 bytes)).length = 4 := rfl
  have hhalf : packHalf (a ++ (p ++ (q ++ (r ++ t)))) 16 datalen =
      (a ++ ((le32 datalen).take 2 ++ q)) ++ (r ++ t) := by
    rw [packHalf, setSlice_middle ha.symm (by omega)]
    simp
  rw [hhalf, packWord, setSlice_middle (by simp only [List.length_append]; omega)
    (by simp only [List.length_append]; omega)]
  simp [List.take_append, ha, hp, hq, hs, hcrc, List.take_of_length_le, List.drop_append,
    List.drop_of_length_le]

/-- A program that comes through has come through its first part. -/
lemma exists_of_bind {α γ : Type} {m : GenM α} {f : α → GenM γ} {c : γ} (h : m >>= f = .ok c) :
    ∃ a, m = .ok a ∧ f a = .ok c := by
  cases m with
  | error e => cases h
  | ok a => exact ⟨a, rfl, h⟩

lemma setByte_ok {buf buf' : List Byte} {i v : ℕ} (h : setByte buf i v = .ok buf') :
    v < 256 ∧ buf' = setSlice buf i (i + 1) [BitVec.ofNat 8 v] := by
  rw [setByte] at h
  split at h
  · next hv => exact ⟨hv, (Except.ok.inj h).symm⟩
  · cases h

/-- The header is put together. -/
lemma entryHeader_ok {nvs : NVS} {key : List Char} {count : ℕ} {entryStruct : List Byte}
    (hkey : key.length ≤ 15) (h : nvs.entryHeader key .string count = .ok entryStruct) :
    nvs.namespaceIdx < 256 ∧ count + 1 < 256 ∧
      entryStruct = [BitVec.ofNat 8 nvs.namespaceIdx, ItemType.sz, BitVec.ofNat 8 (count + 1),
        chunkAny, 0xff, 0xff, 0xff, 0xff] ++ keyAndData key := by
  obtain ⟨e₁, h₁, h⟩ := exists_of_bind h
  obtain ⟨e₂, h₂, h⟩ := exists_of_bind h
  rw [NVS.setSpan, if_neg (by simp)] at h₂
  obtain ⟨hns, rfl⟩ := setByte_ok h₁
  obtain ⟨hspan, rfl⟩ := setByte_ok h₂
  refine ⟨hns, hspan, ?_⟩
  have hfront : setSlice (setSlice (setSlice (List.replicate 32 0xff) 0 1
      [BitVec.ofNat 8 nvs.namespaceIdx]) 2 3 [BitVec.ofNat 8 (count + 1)]) 3 4 [chunkAny] =
      [BitVec.ofNat 8 nvs.namespaceIdx, 0xff, BitVec.ofNat 8 (count + 1), chunkAny, 0xff, 0xff,
        0xff, 0xff] ++ List.replicate 24 0xff := rfl
  rw [hfront] at h
  dsimp only at h
  rw [setKey_eq rfl hkey] at h
  rw [← Except.ok.inj h, setSlice_append_left (by decide) (Nat.le_of_ble_eq_true rfl)]
  rfl

/-- The sizes and checksums are filled in. -/
lemma textHeader_eq (ns : Byte) (span : ℕ) (key : List Char) (datalen : ℕ) (bytes : List Byte) :
    Page.setCrcHeader (packWord (packHalf ([ns, ItemType.sz, BitVec.ofNat 8 span, chunkAny, 0xff,
      0xff, 0xff, 0xff] ++ keyAndData key) 24 datalen) 28 (zlibCrc32 bytes)) =
      textHeader ns span key datalen bytes := by
  have hfields : packWord (packHalf ([ns, ItemType.sz, BitVec.ofNat 8 span, chunkAny, 0xff, 0xff,
      0xff, 0xff] ++ keyAndData key) 24 datalen) 28 (zlibCrc32 bytes) =
      [ns, ItemType.sz, BitVec.ofNat 8 span, chunkAny, 0xff, 0xff, 0xff, 0xff] ++
        textFields key datalen bytes := by
    rw [packHalf, setSlice_append_right (Nat.le_of_ble_eq_true rfl) (by decide), packWord,
      setSlice_append_right (Nat.le_of_ble_eq_true rfl) (by decide)]
    rfl
  have hcrc : (([ns, ItemType.sz, BitVec.ofNat 8 span, chunkAny, 0xff, 0xff, 0xff, 0xff] ++
      textFields key datalen bytes).take 32).drop 8 = (textFields key datalen bytes).take 24 := rfl
  rw [hfields, Page.setCrcHeader, packWord,
    setSlice_append_left (by decide) (Nat.le_of_ble_eq_true rfl), hcrc]
  rfl

/-! ### Pages -/

namespace Page

/-- The entries of a page, one after another. -/
def body (p : Page) : List Byte := p.pageBuf.drop firstEntryOffset

/-- Entry `i`. -/
def entryAt (p : Page) (i : ℕ) : Item := ⟨(p.body.drop (32 * i)).take 32⟩

/-- Bit `n` of the bitmap. -/
def bit (bitmap : List Byte) (n : ℕ) : Bool := (bitmap.getD (n / 8) 0).getLsbD (n % 8)

/-- The bitmap marks the entries that have been written, and it is the one on the page. -/
structure Valid (p : Page) : Prop where
  size : maxSize ≤ p.pageBuf.length
  length_eq : p.bitmapArray.length = 32
  bitmap : (p.pageBuf.take 64).drop 32 = p.bitmapArray
  marks : ∀ n < 256, bit p.bitmapArray n = !(n % 2 == 0 && decide (n / 2 < p.entryNum))

/-- What has been written is left alone. -/
structure Extends (p p' : Page) : Prop where
  entryNum : p.entryNum ≤ p'.entryNum
  body : ∀ n ≤ p.entryNum, n ≤ maxEntries → p'.body.take (32 * n) = p.body.take (32 * n)

variable {p p' p'' : Page} {entrycount : ℕ} {data : List Byte}

lemma Extends.refl (p : Page) : Extends p p := ⟨Nat.le_refl _, fun _ _ _ => rfl⟩

lemma Extends.trans (h : Extends p p') (h' : Extends p' p'') : Extends p p'' where
  entryNum := Nat.le_trans h.entryNum h'.entryNum
  body n hn hmax := (h'.body n (Nat.le_trans hn h.entryNum) hmax).trans (h.body n hn hmax)

lemma Valid.length_body (h : Valid p) : 32 * maxEntries ≤ p.body.length := by
  have := h.size
  simp only [body, List.length_drop, maxSize, maxEntries, firstEntryOffset] at this ⊢
  omega

lemma bit_modify {bitmap : List Byte} (hlen : bitmap.length = 32) {m n : ℕ} (hm : m < 256)
    (hn : n < 256) : bit (bitmap.modify (m / 8) (· &&& ~~~ (1#8 <<< (m % 8)))) n =
      (bit bitmap n && n != m) := by
  have hindex : n / 8 < bitmap.length := by omega
  have hmask : ∀ k < 8, ∀ j < 8, (~~~ (1#8 <<< k)).getLsbD j = (j != k) := by decide
  rw [bit, bit, List.getD, List.getD, List.getElem?_modify, List.getElem?_eq_getElem hindex]
  by_cases hbyte : m / 8 = n / 8
  · have hne : (n % 8 != m % 8) = (n != m) := by
      rw [Bool.eq_iff_iff, bne_iff_ne, bne_iff_ne]
      omega
    simp only [hbyte, if_true, Option.map_eq_map, Option.map_some, Option.getD_some,
      BitVec.getLsbD_and]
    rw [hmask _ (Nat.mod_lt _ (by decide)) _ (Nat.mod_lt _ (by decide)), hne]
  · have hne : (n != m) = true := by
      rw [bne_iff_ne]
      rintro rfl
      exact hbyte rfl
    simp only [hbyte, if_false, hne, Bool.and_true, Option.map_eq_map, Option.map_some,
      Option.getD_some]

/-- One entry is marked. -/
lemma writeBitmaparray_ok (h : Valid p) (hp : p.writeBitmaparray = .ok p') :
    p.entryNum < 128 ∧ Valid { p' with entryNum := p.entryNum + 1 } ∧
      p'.entryNum = p.entryNum ∧ p'.body = p.body := by
  have hsize := h.size
  have hlen := h.length_eq
  have hbuf : 64 ≤ p.pageBuf.length := Nat.le_trans (by decide) hsize
  rw [writeBitmaparray] at hp
  dsimp only at hp
  split at hp
  · next hlt =>
    have hnum : p.entryNum < 128 := by omega
    obtain rfl := Except.ok.inj hp
    have hlen' : (p.bitmapArray.modify (p.entryNum * 2 / 8)
        (· &&& ~~~ (1#8 <<< (p.entryNum * 2 % 8)))).length = 32 := by
      rw [List.length_modify, hlen]
    have hfront : (p.pageBuf.take 32).length = 32 := by
      rw [List.length_take]
      omega
    refine ⟨hnum, ⟨?_, hlen', ?_, ?_⟩, rfl, ?_⟩
    · exact Nat.le_trans hsize (length_setSlice_le (by rw [hlen']))
    · simp only [setSlice]
      rw [List.take_left' (by rw [List.length_append, hfront, hlen']), List.drop_left' hfront]
    · intro n hn
      rw [bit_modify hlen (by omega) hn, h.marks n hn, Bool.eq_iff_iff]
      simp only [Bool.and_eq_true, Bool.not_eq_true', Bool.and_eq_false_iff, beq_eq_false_iff_ne,
        decide_eq_false_iff_not, bne_iff_ne]
      omega
    · exact drop_setSlice (by decide) (by omega) (by rw [hlen']) (Nat.le_refl _)
  · cases hp

lemma markEntries_ok : ∀ {p : Page}, Valid p → markEntries entrycount p = .ok p' →
    Valid p' ∧ p'.entryNum = p.entryNum + entrycount ∧ p'.body = p.body := by
  induction entrycount with
  | zero =>
    intro p h hp
    obtain rfl := Except.ok.inj hp
    exact ⟨h, rfl, rfl⟩
  | succ n ih =>
    intro p h hp
    obtain ⟨p₁, h₁, hp⟩ := exists_of_bind hp
    obtain ⟨-, hvalid, hnum, hbody⟩ := writeBitmaparray_ok h h₁
    rw [hnum] at hp
    obtain ⟨hvalid', hnum', hbody'⟩ := ih hvalid hp
    refine ⟨hvalid', ?_, hbody'.trans hbody⟩
    rw [hnum']
    simp only
    omega

/-- Data is put behind what has been written. -/
lemma writeEntryToBuf_ok (h : Valid p) (hp : p.writeEntryToBuf data entrycount = .ok p') :
    Valid p' ∧ p'.entryNum = p.entryNum + entrycount ∧
      p'.body = setSlice p.body (32 * p.entryNum) (32 * p.entryNum + data.length) data := by
  have hbuf : 64 ≤ p.pageBuf.length := Nat.le_trans (by decide) h.size
  have hvalid : Valid { p with
      pageBuf := setSlice p.pageBuf (firstEntryOffset + singleEntrySize * p.entryNum)
        (firstEntryOffset + singleEntrySize * p.entryNum + data.length) data } := by
    refine ⟨Nat.le_trans h.size (length_setSlice_le (Nat.le_refl _)), h.length_eq, ?_, h.marks⟩
    rw [take_setSlice (by simp only [firstEntryOffset]; omega) hbuf]
    exact h.bitmap
  obtain ⟨hvalid', hnum, hbody⟩ := markEntries_ok hvalid hp
  refine ⟨hvalid', hnum, hbody.trans ?_⟩
  simp only [body, firstEntryOffset, singleEntrySize]
  rw [drop_setSlice_of_le (by omega) (by omega) hbuf, Nat.add_sub_cancel_left,
    show 64 + 32 * p.entryNum + data.length - 64 = 32 * p.entryNum + data.length by omega]

lemma writeEntryToBuf_extends (h : Valid p) (hp : p.writeEntryToBuf data entrycount = .ok p') :
    Extends p p' := by
  obtain ⟨-, hnum, hbody⟩ := writeEntryToBuf_ok h hp
  refine ⟨by omega, fun n hn hmax => ?_⟩
  have := h.length_body
  rw [hbody, take_setSlice (by omega)]
  exact Nat.le_trans (Nat.mul_le_mul_left _ hmax) this

/-- A new page. -/
lemma valid_init (pageNum : ℕ) (version : Version) : (init pageNum version false).Valid := by
  obtain ⟨header, hheader, hbuf⟩ : ∃ header : List Byte, header.length = 32 ∧
      setHeader pageNum version (List.replicate maxSize 0xff) =
        setSlice (List.replicate maxSize 0xff) 0 32 header := ⟨_, rfl, rfl⟩
  have hinit : init pageNum version false =
      ⟨0, List.replicate 32 0xff, setSlice (List.replicate maxSize 0xff) 0 32 header⟩ := by
    rw [init, if_neg (by decide), hbuf]
  rw [hinit]
  refine ⟨?_, List.length_replicate, ?_, fun n hn => ?_⟩
  · refine Nat.le_trans (Nat.le_of_eq List.length_replicate.symm)
      (length_setSlice_le (by rw [hheader]))
  · have hrest : (setSlice (List.replicate maxSize 0xff) 0 32 header).drop 32 =
        (List.replicate maxSize 0xff).drop 32 :=
      drop_setSlice (by decide) (Nat.zero_le _) (by rw [hheader]) (Nat.le_refl _)
    rw [List.drop_take, hrest, List.drop_replicate, List.take_replicate]
    rfl
  · have hones : ∀ k < 8, (0xff : Byte).getLsbD k = true := by decide
    have hlt : n / 8 < 32 := by omega
    simp only [bit, List.getD, List.getElem?_replicate, if_pos hlt, Option.getD_some]
    rw [hones _ (Nat.mod_lt _ (by decide))]
    simp

end Page

namespace NVS

variable {nvs nvs' nvs'' : NVS}

/-- All pages are valid. -/
def Ok (nvs : NVS) : Prop := ∀ p ∈ nvs.allPages, p.Valid

/-- `nvs'` comes from `nvs` by writing more. -/
structure Follows (nvs nvs' : NVS) : Prop where
  ok : nvs'.Ok
  pages : ∀ (k : ℕ) (p : Page), nvs.allPages[k]? = some p →
    ∃ p', nvs'.allPages[k]? = some p' ∧ p.Extends p'

lemma Follows.refl (h : nvs.Ok) : Follows nvs nvs := ⟨h, fun _ p hp => ⟨p, hp, .refl p⟩⟩

lemma Follows.trans (h : Follows nvs nvs') (h' : Follows nvs' nvs'') : Follows nvs nvs'' where
  ok := h'.ok
  pages k p hp := by
    obtain ⟨p', hp', he⟩ := h.pages k p hp
    obtain ⟨p'', hp'', he'⟩ := h'.pages k p' hp'
    exact ⟨p'', hp'', he.trans he'⟩

/-- Nothing that has been written is changed. -/
def Keeps (f : NVS → GenM NVS) : Prop := ∀ nvs nvs', nvs.Ok → f nvs = .ok nvs' → Follows nvs nvs'

lemma Ok.curPage (h : nvs.Ok) : nvs.curPage.Valid := h _ (by simp [allPages])

/-- The current page is changed, and pages are added. -/
lemma follows_of_pages {p' : Page} (more : List Page) (h : nvs.Ok) (hvalid : p'.Valid)
    (hext : nvs.curPage.Extends p') (hmore : ∀ p ∈ more, p.Valid)
    (hpages : nvs'.allPages = nvs.pages ++ p' :: more) : Follows nvs nvs' where
  ok := by
    intro p hp
    rw [hpages, List.mem_append, List.mem_cons] at hp
    rcases hp with hp | rfl | hp
    · exact h p (List.mem_append_left _ hp)
    · exact hvalid
    · exact hmore p hp
  pages := by
    intro k p hk
    rw [hpages]
    rcases Nat.lt_trichotomy k nvs.pages.length with hlt | rfl | hgt
    · rw [allPages, List.getElem?_append_left hlt] at hk
      exact ⟨p, by rw [List.getElem?_append_left hlt, hk], .refl p⟩
    · rw [allPages, List.getElem?_append_right (Nat.le_refl _), Nat.sub_self] at hk
      obtain rfl : nvs.curPage = p := Option.some.inj hk
      exact ⟨p', by rw [List.getElem?_append_right (Nat.le_refl _), Nat.sub_self]; rfl, hext⟩
    · rw [allPages, List.getElem?_eq_none (by rw [List.length_append, List.length_singleton]; omega)]
        at hk
      cases hk

lemma follows_onCurPage {f : Page → GenM Page} (h : nvs.Ok) (hf : nvs.onCurPage f = .ok nvs')
    (hpage : ∀ p', f nvs.curPage = .ok p' → p'.Valid ∧ nvs.curPage.Extends p') :
    Follows nvs nvs' := by
  obtain ⟨p', hp', heq⟩ := exists_of_bind hf
  obtain rfl := Except.ok.inj heq
  obtain ⟨hvalid, hext⟩ := hpage p' hp'
  exact follows_of_pages [] h hvalid hext (fun _ hp => absurd hp List.not_mem_nil) rfl

/-- The state of a page lies before its entries. -/
lemma markFull_ok {p : Page} (h : p.Valid) : (markFull p).Valid ∧ p.Extends (markFull p) := by
  rw [markFull]
  split
  · have hbuf : 4096 ≤ p.pageBuf.length := h.size
    have hdrop : ∀ n, 4 ≤ n → (packWord p.pageBuf 0 Page.fullState).drop n = p.pageBuf.drop n :=
      fun n hn => drop_setSlice (by decide) (Nat.zero_le _) rfl hn
    refine ⟨⟨?_, h.length_eq, ?_, h.marks⟩, ⟨Nat.le_refl _, fun n _ _ => ?_⟩⟩
    · exact Nat.le_trans hbuf (length_setSlice_le (Nat.le_of_eq rfl))
    · rw [← h.bitmap, List.drop_take, List.drop_take, hdrop 32 (by decide)]
    · simp only [Page.body]
      rw [hdrop _ (by decide)]
  · exact ⟨h, .refl p⟩

lemma keeps_createNewPage : Keeps (createNewPage false) := by
  intro nvs nvs' h hnew
  rw [createNewPage] at hnew
  split at hnew
  · cases hnew
  · obtain rfl := Except.ok.inj hnew
    obtain ⟨hvalid, hext⟩ := markFull_ok h.curPage
    refine follows_of_pages [Page.init (nvs.pageNum + 1) nvs.version false] h hvalid hext
      (fun p hp => ?_) (by simp [allPages])
    rw [List.mem_singleton.mp hp]
    exact Page.valid_init _ _

lemma follows_write {data : List Byte} {entrycount : ℕ} (h : nvs.Ok)
    (hw : nvs.onCurPage (Page.writeEntryToBuf data entrycount) = .ok nvs') : Follows nvs nvs' :=
  follows_onCurPage h hw fun _ hp =>
    ⟨(Page.writeEntryToBuf_ok h.curPage hp).1, Page.writeEntryToBuf_extends h.curPage hp⟩

lemma keeps_newPageAfterChunk (remaining room : ℕ) : Keeps (newPageAfterChunk remaining room) := by
  intro nvs nvs' h hnew
  rw [newPageAfterChunk] at hnew
  split at hnew
  · exact keeps_createNewPage nvs nvs' h hnew
  · obtain rfl := Except.ok.inj hnew
    exact .refl h

lemma keeps_writeChunks (data : Data) (dataSize : ℕ) : ∀ (fuel : ℕ) (entryStruct : List Byte)
    (chunkCount offset remaining : ℕ),
    Keeps (writeChunks data dataSize fuel entryStruct chunkCount offset remaining) := by
  intro fuel
  induction fuel with
  | zero => intro _ _ _ _ nvs nvs' _ h; cases h
  | succ fuel ih =>
    intro entryStruct chunkCount offset remaining nvs nvs' hok h
    rw [writeChunks] at h
    dsimp only at h
    split at h
    · cases h
    · obtain ⟨e₁, -, h⟩ := exists_of_bind h
      obtain ⟨e₂, -, h⟩ := exists_of_bind h
      obtain ⟨nvs₁, h₁, h⟩ := exists_of_bind h
      obtain ⟨nvs₂, h₂, h⟩ := exists_of_bind h
      obtain ⟨nvs₃, h₃, h⟩ := exists_of_bind h
      have f₁ := follows_write hok h₁
      have f₂ := follows_write f₁.ok h₂
      have f₃ := keeps_newPageAfterChunk _ _ nvs₂ nvs₃ f₂.ok h₃
      have f := (f₁.trans f₂).trans f₃
      split at h
      · obtain ⟨e₃, -, h⟩ := exists_of_bind h
        exact f.trans (follows_write f₃.ok h)
      · exact f.trans (ih _ _ _ _ nvs₃ nvs' f₃.ok h)

lemma keeps_writeVarlenData (key : List Char) (data : Data) (encoding : Encoding) :
    Keeps fun nvs => nvs.writeVarlenData key data encoding := by
  intro nvs nvs' hok h
  dsimp only [writeVarlenData] at h
  split at h
  · cases h
  · split at h
    · cases h
    · split at h
      · cases h
      · obtain ⟨entryStruct, -, h⟩ := exists_of_bind h
        split at h
        · exact keeps_writeChunks _ _ _ _ _ _ _ nvs nvs' hok h
        · refine follows_onCurPage hok h fun p' hp' => ?_
          obtain ⟨p₁, h₁, hp'⟩ := exists_of_bind hp'
          obtain ⟨hvalid, -, -⟩ := Page.writeEntryToBuf_ok hok.curPage h₁
          exact ⟨(Page.writeEntryToBuf_ok hvalid hp').1,
            (Page.writeEntryToBuf_extends hok.curPage h₁).trans
              (Page.writeEntryToBuf_extends hvalid hp')⟩

lemma follows_writePrimitiveData {key : List Char} {value : ℤ} {enc : Primitive} {nsIndex : ℕ}
    (hok : nvs.Ok) (h : nvs.onCurPage (writePrimitiveData key value enc nsIndex) = .ok nvs') :
    Follows nvs nvs' := by
  refine follows_onCurPage hok h fun p' hp' => ?_
  rw [writePrimitiveData] at hp'
  split at hp'
  · cases hp'
  · obtain ⟨entryStruct, -, hp'⟩ := exists_of_bind hp'
    dsimp only at hp'
    split at hp'
    · exact ⟨(Page.writeEntryToBuf_ok hok.curPage hp').1,
        Page.writeEntryToBuf_extends hok.curPage hp'⟩
    · cases hp'

lemma keeps_orOnNewPage {f : NVS → GenM NVS} (hf : Keeps f) : Keeps fun nvs => nvs.orOnNewPage f := by
  intro nvs nvs' hok h
  simp only [orOnNewPage] at h
  split at h
  · obtain ⟨nvs₁, h₁, h⟩ := exists_of_bind h
    have f₁ := keeps_createNewPage nvs nvs₁ hok h₁
    exact f₁.trans (hf nvs₁ nvs' f₁.ok h)
  · exact hf nvs nvs' hok h

lemma keeps_generateRow (row : Row) : Keeps fun nvs => nvs.generateRow row := by
  intro nvs nvs' hok h
  dsimp only [generateRow] at h
  split at h
  · cases h
  · split at h
    · cases h
    · cases row with
      | «namespace» key =>
        have hf : Keeps fun nvs => nvs.onCurPage (writePrimitiveData key nvs.namespaceIdx .u8 0) :=
          fun _ _ hok h => follows_writePrimitiveData hok h
        obtain ⟨hok', hpages⟩ := keeps_orOnNewPage hf
          { nvs with namespaceIdx := nvs.namespaceIdx + 1 } nvs' hok h
        exact ⟨hok', hpages⟩
      | string key value =>
        exact keeps_orOnNewPage (keeps_writeVarlenData key _ .string) nvs nvs' hok h
      | binary key value =>
        exact keeps_orOnNewPage (keeps_writeVarlenData key value .binary) nvs nvs' hok h
      | primitive key value enc =>
        exact keeps_orOnNewPage (fun _ _ hok h => follows_writePrimitiveData hok h) nvs nvs' hok h

/-- Later rows leave earlier ones alone. -/
lemma keeps_generateRows (rows : List Row) : Keeps fun nvs => nvs.generateRows rows := by
  induction rows with
  | nil =>
    intro nvs nvs' hok h
    obtain rfl := Except.ok.inj h
    exact .refl hok
  | cons row rows ih =>
    intro nvs nvs' hok h
    obtain ⟨nvs₁, h₁, h⟩ := exists_of_bind h
    have f₁ := keeps_generateRow row nvs nvs₁ hok h₁
    exact f₁.trans (ih nvs₁ nvs' f₁.ok h)

end NVS

/-! ### The page on the flash -/

/-- A page object of the device that has read the header and the entry table of a page of the
image. -/
structure OnFlash (c : PageCtx) (p : Page) : Prop where
  xts : c.xts = []
  mem : ∀ x < secSize, c.mem x = p.pageBuf.getD x 0xff
  table : ∀ k < 8, c.page.entryTable k = c.mem.word (entryTableOffset + 4 * k)
  state : c.page.state.InUse

variable {c : PageCtx} {p : Page}

lemma getLsbD_word (m : Mem) (a : ℕ) {j : ℕ} (hj : j < 32) :
    (m.word a).getLsbD j = (m (a + j / 8)).getLsbD (j % 8) := by
  rw [Mem.word]
  simp only [BitVec.getLsbD_append]
  by_cases h8 : j < 8
  · rw [if_pos h8, show j / 8 = 0 by omega, show j % 8 = j by omega, Nat.add_zero]
  · by_cases h16 : j - 8 < 8
    · rw [if_neg h8, if_pos h16, show j / 8 = 1 by omega, show j % 8 = j - 8 by omega]
    · by_cases h24 : j - 8 - 8 < 8
      · rw [if_neg h8, if_neg h16, if_pos h24, show j / 8 = 2 by omega,
          show j % 8 = j - 8 - 8 by omega]
      · rw [if_neg h8, if_neg h16, if_neg h24, show j / 8 = 3 by omega,
          show j % 8 = j - 8 - 8 - 8 by omega]

/-- The bits of the entry table. -/
lemma getLsbD_table (h : OnFlash c p) (hp : p.Valid) {i b : ℕ} (hi : i < 126) (hb : b < 2) :
    (c.page.entryTable.get i : EntryState).getLsbD b = Page.bit p.bitmapArray (2 * i + b) := by
  have hindex : EnumTable.wordIndex 2 i = i / 16 := rfl
  have hoffset : EnumTable.offset 2 i = i % 16 * 2 := rfl
  have hsize : 4096 ≤ p.pageBuf.length := hp.size
  have hbyte : ∀ m < 32, c.mem (32 + m) = p.bitmapArray.getD m 0 := by
    intro m hm
    rw [h.mem _ (by simp only [secSize]; omega), ← hp.bitmap, List.getD, List.getD,
      List.getElem?_drop, List.getElem?_take_of_lt (by omega),
      List.getElem?_eq_getElem (by omega), Option.getD_some, Option.getD_some]
  rw [EnumTable.get, BitVec.getLsbD_setWidth, BitVec.getLsbD_ushiftRight, hindex, hoffset,
    h.table _ (by omega), getLsbD_word _ _ (by omega), entryTableOffset, Nat.add_assoc,
    hbyte _ (by omega), Page.bit, decide_eq_true hb, Bool.true_and,
    show 4 * (i / 16) + (i % 16 * 2 + b) / 8 = (2 * i + b) / 8 by omega,
    show (i % 16 * 2 + b) % 8 = (2 * i + b) % 8 by omega]

/-- An entry that has been written is marked so. -/
lemma entryState_written (h : OnFlash c p) (hp : p.Valid) {i : ℕ} (hi : i < 126)
    (hnum : i < p.entryNum) : c.page.entryTable.get i = EntryState.written := by
  apply BitVec.eq_of_getLsbD_eq
  intro b hb
  rw [getLsbD_table h hp hi hb, hp.marks _ (by omega)]
  have hcases : b = 0 ∨ b = 1 := by omega
  rcases hcases with rfl | rfl
  · simp [EntryState.written, hnum]
  · simp [EntryState.written]

/-- The bytes of the entries. -/
lemma read_body (h : OnFlash c p) (hp : p.Valid) {i n : ℕ} (hle : 32 * i + n ≤ 32 * 126) :
    c.mem.read (entryOffset i) n = (p.body.drop (32 * i)).take n := by
  have hsize : 4096 ≤ p.pageBuf.length := hp.size
  have hbody := hp.length_body
  simp only [Page.maxEntries] at hbody
  apply Mem.read_eq_of_getD
  · rw [List.length_take, List.length_drop]
    omega
  · intro j hj
    rw [h.mem _ (by simp only [secSize, entryOffset, entryDataOffset, entrySize]; omega), List.getD,
      List.getD, List.getElem?_take_of_lt hj, List.getElem?_drop, Page.body, List.getElem?_drop]
    simp only [entryOffset, entryDataOffset, entrySize, Page.firstEntryOffset, Nat.add_assoc]
    rfl

lemma entry_eq (h : OnFlash c p) (hp : p.Valid) {i : ℕ} (hi : i < 126) :
    c.entry i = (p.entryAt i).rawData := by
  rw [PageCtx.entry, h.xts]
  exact read_body h hp (by simp only [entrySize]; omega)

lemma length_entry (h : OnFlash c p) (i : ℕ) : (c.entry i).length = entrySize := by
  rw [PageCtx.entry, h.xts]
  exact Mem.length_read

/-- Entries in a row. -/
lemma flatten_entries (h : OnFlash c p) (i : ℕ) : ∀ n : ℕ,
    ((List.range n).map fun k => c.entry (i + k)).flatten = c.mem.read (entryOffset i) (32 * n) := by
  intro n
  induction n with
  | zero => rfl
  | succ n ih =>
    have hentry : c.entry (i + n) = c.mem.read (entryOffset i + 32 * n) 32 := by
      rw [PageCtx.entry, h.xts]
      simp only [entryOffset, entryDataOffset, entrySize, Nat.mul_add, Nat.add_assoc]
      rfl
    rw [List.range_succ, List.map_append, List.flatten_append, ih, Nat.mul_succ, Mem.read_append,
      List.map_singleton, List.flatten_singleton, hentry]

/-- What an entry of a text says about itself, and the text behind it. -/
structure TextAt (p : Page) (e : ℕ) (ns : Byte) (key text : List Byte) : Prop where
  crc : (p.entryAt e).crcOk = true
  nsIndex : (p.entryAt e).nsIndex = ns
  datatype : (p.entryAt e).datatype = ItemType.sz
  chunkIndex : (p.entryAt e).chunkIndex = chunkAny
  key : (p.entryAt e).key = keyField key
  span : (p.entryAt e).span = Page.dataEntryCount text.length + 1
  size : (p.entryAt e).dataSize = text.length
  dataCrc : (p.entryAt e).dataCrc32 = zlibCrc32 text
  bytes : (p.body.drop (32 * (e + 1))).take text.length = text
  written : e + (Page.dataEntryCount text.length + 1) ≤ p.entryNum

/-- The query for a text. -/
def textQuery (ns : Byte) (key : List Byte) : Nvs.Page.Query :=
  { nsIndex := ns, datatype := ItemType.sz, key := some key }

variable {e : ℕ} {ns : Byte} {key text buf : List Byte}

lemma verdict_text (h : TextAt p e ns key text) :
    (textQuery ns key).verdict (p.entryAt e) = .found := by
  have hkey : (textQuery ns key).keyDiffers (p.entryAt e) = false := by
    have hname : strncmpEq maxKeyLength key (p.entryAt e).key = true := by
      rw [strncmpEq_key_iff, h.key, nameOf_keyField]
    simp only [Nvs.Page.Query.keyDiffers, textQuery, hname, Bool.not_true]
  rw [Nvs.Page.Query.verdict, if_neg (fun hh => hh.2 h.nsIndex), if_neg (by rw [hkey]; decide),
    if_neg (fun hh => hh.1 rfl), if_neg (fun hh => absurd hh.1 (by simp only [textQuery]; decide)),
    if_neg (fun hh => absurd hh.1 (by simp only [textQuery]; decide)),
    if_neg (fun hh => hh.2 h.datatype)]

/-- The device reads the text from an entry that its search starts at. -/
lemma readItem_text (h : OnFlash c p) (hp : p.Valid) (ht : TextAt p e ns key text)
    (hroom : e + (Page.dataEntryCount text.length + 1) ≤ 126)
    (hstart : Nvs.Page.findStart c.page (textQuery ns key) 0 = some e)
    (hnext : e < c.page.nextFreeEntry) (hbuf : text.length ≤ buf.length) :
    Nvs.Page.readItem (textQuery ns key) buf c = (.ok (text ++ buf.drop text.length), c) := by
  have hwritten := ht.written
  have hlt : e < entryCount := by simp only [entryCount]; omega
  have hread : Nvs.Page.readEntry e c = (.ok (p.entryAt e), c) := by
    rw [readEntry_ok hlt, entry_eq h hp hlt]
  have hstate : Nvs.Page.entryState e c = (.ok EntryState.written, c) := by
    rw [entryState_ok hlt, entryState_written h hp hlt (by omega)]
  -- the search stops where it starts
  have hfind : Nvs.Page.findItem (textQuery ns key) 0 Nvs.Page.noItem c =
      (.ok ⟨none, e, p.entryAt e⟩, c) := by
    have hinUse : ¬ (c.page.state = .corrupt ∨ c.page.state = .invalid ∨
        c.page.state = .uninitialized) := by
      rcases h.state with hs | hs | hs <;> rw [hs] <;> decide
    rw [Nvs.Page.findItem, Prog.get_bind, if_neg hinUse, if_neg (by decide), hstart]
    show Nvs.Page.findLoop (textQuery ns key) 0 (min c.page.nextFreeEntry entryCount)
      (entryCount + 1) e Nvs.Page.noItem c = _
    rw [Nvs.Page.findLoop, if_pos (by omega), Prog.bind_ok hstate, if_pos rfl, Prog.bind_ok hread,
      if_pos ht.crc, verdict_text ht]
    rfl
  -- the data entries hold the text
  have hsize := ht.size
  have hcount : (p.entryAt e).span - 1 = Page.dataEntryCount text.length := by
    rw [ht.span, Nat.add_sub_cancel]
  have hblocks : Blocks ((List.range (Page.dataEntryCount text.length)).map
      fun k => c.entry (e + 1 + k)) := by
    intro b hb
    obtain ⟨k, -, rfl⟩ := List.mem_map.mp hb
    exact length_entry h _
  have hat : BlocksAt c (e + 1) ((List.range (Page.dataEntryCount text.length)).map
      fun k => c.entry (e + 1 + k)) := by
    intro k b hk
    rw [List.getElem?_map] at hk
    obtain ⟨k', hk', rfl⟩ := Option.map_eq_some_iff.mp hk
    obtain ⟨hlen, heq⟩ := List.getElem?_eq_some_iff.mp hk'
    rw [List.getElem_range] at heq
    rw [heq]
  have hdata := readData_ok text.length hblocks hat (by
    rw [List.length_map, List.length_range]
    simp only [entryCount]
    omega)
  have hle : text.length ≤ 32 * Page.dataEntryCount text.length := by
    simp only [Page.dataEntryCount]
    omega
  rw [List.length_map, List.length_range, flatten_entries h, Mem.take_read hle,
    read_body h hp (by omega), ht.bytes] at hdata
  have hinvalid : c.page.state ≠ .invalid := by
    rcases h.state with hs | hs | hs <;> rw [hs] <;> decide
  rw [Nvs.Page.readItem, Prog.get_bind, if_neg hinvalid, Prog.bind_ok (lookup_hit hfind)]
  simp only
  rw [if_pos (show (textQuery ns key).datatype.isVariableLength = true from rfl), hsize,
    if_neg (by omega), Nvs.Page.readVarLength, hcount, hsize, Prog.bind_ok hdata]
  rw [List.take_left, ht.dataCrc, if_pos (show Item.dataCrcOf text = zlibCrc32 text from rfl)]
  rfl

/-! ### A row -/

/-- What a row for a text has done to its page: a header behind all entries, and the bytes of the
text behind it. -/
structure Written (ns : ℕ) (key text : List Char) (before after : Page) : Prop where
  valid : before.Valid
  valid' : after.Valid
  nsLt : ns < 256
  size : text.length ≤ Page.maxOldBlobSize
  room : before.entryNum + (Page.dataEntryCount text.length + 1) < 126
  entryNum : after.entryNum = before.entryNum + (Page.dataEntryCount text.length + 1)
  body : after.body =
    let header := textHeader (BitVec.ofNat 8 ns) (Page.dataEntryCount text.length + 1) key
      text.length (encode text)
    setSlice (setSlice before.body (32 * before.entryNum)
      (32 * before.entryNum + header.length) header) (32 * (before.entryNum + 1))
      (32 * (before.entryNum + 1) + (encode text).length) (encode text)

variable {nvs nvs' : NVS} {key value text : List Char}

lemma written_of_writeVarlenData (hok : nvs.Ok) (hkey : key.length ≤ 15)
    (h : nvs.writeVarlenData key (.str text) .string = .ok nvs') :
    nvs'.pages = nvs.pages ∧ Written nvs.namespaceIdx key text nvs.curPage nvs'.curPage := by
  have hmulti : decide (nvs.version = .version2 ∧ Encoding.string ≠ .string) = false := by simp
  dsimp only [NVS.writeVarlenData, Data.len] at h
  rw [hmulti] at h
  simp only [and_true] at h
  split at h
  · cases h
  · next hsize =>
    split at h
    · cases h
    · split at h
      · cases h
      · next hroom =>
        obtain ⟨entryStruct, hheader, h⟩ := exists_of_bind h
        rw [if_neg Bool.false_ne_true] at h
        obtain ⟨hns, -, rfl⟩ := entryHeader_ok hkey hheader
        obtain ⟨p', hp', h⟩ := exists_of_bind h
        obtain rfl := Except.ok.inj h
        obtain ⟨p₁, h₁, h₂⟩ := exists_of_bind hp'
        rw [Data.toBytes, textHeader_eq] at h₁
        obtain ⟨hvalid₁, hnum₁, hbody₁⟩ := Page.writeEntryToBuf_ok hok.curPage h₁
        obtain ⟨hvalid₂, hnum₂, hbody₂⟩ := Page.writeEntryToBuf_ok hvalid₁ h₂
        refine ⟨rfl, hok.curPage, hvalid₂, hns, ?_, ?_, ?_, ?_⟩
        · simpa using hsize
        · simpa [Page.maxEntries] using hroom
        · rw [hnum₂, hnum₁]
          omega
        · rw [hbody₂, hbody₁, hnum₁]
          rfl

/-- A header of at least one entry and the bytes behind its first entry. -/
lemma setSlice_header (b header data : List Byte) {s : ℕ} (hs : s ≤ b.length)
    (hheader : 32 ≤ header.length) :
    ∃ rest, setSlice (setSlice b s (s + header.length) header) (s + 32) (s + 32 + data.length) data =
      b.take s ++ (header.take 32 ++ (data ++ rest)) := by
  have hfront : (b.take s).length = s := by rw [List.length_take]; omega
  refine ⟨(setSlice b s (s + header.length) header).drop (s + 32 + data.length), ?_⟩
  rw [setSlice, Nat.max_eq_right (by omega)]
  have htake : (setSlice b s (s + header.length) header).take (s + 32) =
      b.take s ++ header.take 32 := by
    rw [setSlice, List.append_assoc, List.take_append, hfront, List.take_of_length_le (by omega),
      Nat.add_sub_cancel_left, List.take_append_of_le_length hheader]
  rw [htake]
  simp only [List.append_assoc]

section Fields

variable {a b c d : Byte} {crc : ℕ} {k s p w : List Byte}

/-- An item from its parts. -/
def itemOf (a b c d : Byte) (crc : ℕ) (k s p w : List Byte) : Item :=
  ⟨[a, b, c, d] ++ (le32 crc ++ (k ++ (s ++ (p ++ w))))⟩

lemma drop_itemOf (hk : k.length = 16) :
    (itemOf a b c d crc k s p w).rawData.drop 24 = s ++ (p ++ w) := by
  have hdrop : (itemOf a b c d crc k s p w).rawData.drop 8 = k ++ (s ++ (p ++ w)) := rfl
  rw [show 24 = 8 + 16 from rfl, ← List.drop_drop, hdrop, List.drop_left' hk]

lemma key_itemOf (hk : k.length = 16) : (itemOf a b c d crc k s p w).key = k := by
  rw [Item.key, Item.slice]
  exact List.take_left' hk

lemma dataSize_itemOf (hk : k.length = 16) (hs : s.length = 2) :
    (itemOf a b c d crc k s p w).dataSize = leVal s := by
  rw [Item.dataSize, Item.slice, drop_itemOf hk, List.take_left' hs]

lemma dataCrc32_itemOf (hk : k.length = 16) (hs : s.length = 2) (hp : p.length = 2)
    (hw : w.length = 4) : (itemOf a b c d crc k s p w).dataCrc32 = leVal w := by
  rw [Item.dataCrc32, Item.slice, show 28 = 24 + (2 + 2) from rfl, ← List.drop_drop,
    drop_itemOf hk, ← List.drop_drop, List.drop_left' hs, List.drop_left' hp,
    List.take_of_length_le (by omega)]

lemma crcOk_itemOf (hk : k.length = 16) (hs : s.length = 2) (hp : p.length = 2)
    (hw : w.length = 4)
    (hcrc : crc = zlibCrc32 ([a, b, c, d] ++ (k ++ (s ++ (p ++ w))))) :
    (itemOf a b c d crc k s p w).crcOk = true := by
  have hdata : (itemOf a b c d crc k s p w).data = s ++ (p ++ w) := by
    rw [Item.data, Item.slice, drop_itemOf hk, List.take_of_length_le]
    simp only [List.length_append]
    omega
  have hlt : crc < 2 ^ 32 := by
    rw [hcrc]
    exact BitVec.isLt _
  have hhead : (itemOf a b c d crc k s p w).slice 0 4 = [a, b, c, d] := rfl
  have hsum : (itemOf a b c d crc k s p w).crc32 = leVal (le32 crc) := rfl
  rw [Item.crcOk, decide_eq_true_eq, hsum, leVal_le32 hlt, Item.calculateCrc32, key_itemOf hk, hdata,
    hhead, hcrc, zlibCrc32, crc32Le_append, crc32Le_append]

end Fields

/-- The page that a row is written to, before the row. -/
def rowPage (nvs nvs' : NVS) : Page :=
  if nvs'.pages.length = nvs.pages.length then nvs.curPage
  else Page.init (nvs.pageNum + 1) nvs.version false

lemma written_of_generateRow (hok : nvs.Ok) (h : nvs.generateRow (.string key value) = .ok nvs') :
    Char.ofNat 0 ∉ key ∧ key.length ≤ 15 ∧
      Written nvs.namespaceIdx key (value ++ [Char.ofNat 0]) (rowPage nvs nvs') nvs'.curPage := by
  rw [NVS.generateRow] at h
  split at h
  · cases h
  · next hzero =>
    split at h
    · cases h
    · next hkey =>
      rw [NVS.Row.key] at hzero hkey
      refine ⟨hzero, by omega, ?_⟩
      dsimp only [NVS.writeEntry, NVS.orOnNewPage] at h
      split at h
      · obtain ⟨nvs₁, h₁, h⟩ := exists_of_bind h
        have hok₁ := (NVS.keeps_createNewPage nvs nvs₁ hok h₁).ok
        obtain ⟨hpages, hw⟩ := written_of_writeVarlenData hok₁ (by omega) h
        rw [NVS.createNewPage] at h₁
        split at h₁
        · cases h₁
        · obtain rfl := Except.ok.inj h₁
          rw [rowPage, if_neg (by rw [hpages, List.length_append]; simp)]
          exact hw
      · obtain ⟨hpages, hw⟩ := written_of_writeVarlenData hok (by omega) h
        rw [rowPage, if_pos (by rw [hpages])]
        exact hw

/-! ### When a row is right -/

lemma encode_text (value : List Char) :
    encode (value ++ [Char.ofNat 0]) = encode value ++ [0] := by
  rw [encode, List.flatMap_append, ← encode]
  rfl

lemma length_keyAndData_take {key : List Char} (hkey : key.length ≤ 15) :
    ((keyAndData key).take 16).length = 16 := by
  have := length_keyAndData hkey
  rw [List.length_take]
  omega

/-- The key is stored as the device stores it unless it has too many bytes. -/
lemma keyField_iff {key : List Char} (hkey : key.length ≤ 15) (hzero : Char.ofNat 0 ∉ key) :
    (keyAndData key).take 16 = keyField (encode key) ↔ (encode key).length ≤ 15 := by
  have hle := length_le_encode key
  have hnot := zero_not_mem_encode hzero
  have hcstr : cstr (encode key) = encode key := by
    rw [cstr, List.takeWhile_eq_self_iff]
    intro b hb
    simpa using fun h : b = 0 => hnot (h ▸ hb)
  rw [keyField_eq, nameOf, hcstr, keyAndData]
  constructor
  · intro heq
    by_contra hlong
    -- the sixteenth byte is one of the key, and not zero
    have hbyte := congrArg (fun l => l[15]?) heq
    have htake : ((encode key).take maxKeyLength).length = 15 := by
      rw [List.length_take, maxKeyLength]
      omega
    simp only [List.getElem?_take_of_lt (show 15 < 16 by decide)] at hbyte
    rw [List.getElem?_append_left (by omega), List.getElem?_append_right (by omega), htake] at hbyte
    exact hnot (List.mem_of_getElem? hbyte)
  · intro hshort
    rw [List.take_of_length_le (show (encode key).length ≤ maxKeyLength from hshort),
      List.take_append, List.take_of_length_le (by omega), List.take_append_of_le_length
        (by rw [List.length_replicate]; omega), List.take_replicate, Nat.min_eq_left (by omega)]

/-- The entry of a text. -/
lemma entryAt_written {ns : ℕ} {before after : Page} (hkey : key.length ≤ 15)
    (h : Written ns key text before after) :
    ∃ crc, crc = zlibCrc32 ([BitVec.ofNat 8 ns, ItemType.sz,
        BitVec.ofNat 8 (Page.dataEntryCount text.length + 1), chunkAny] ++
        ((keyAndData key).take 16 ++ ((le32 text.length).take 2 ++
          (((keyAndData key).take 20).drop 18 ++ le32 (zlibCrc32 (encode text)))))) ∧
      after.entryAt before.entryNum = itemOf (BitVec.ofNat 8 ns) ItemType.sz
        (BitVec.ofNat 8 (Page.dataEntryCount text.length + 1)) chunkAny crc
        ((keyAndData key).take 16) ((le32 text.length).take 2)
        (((keyAndData key).take 20).drop 18) (le32 (zlibCrc32 (encode text))) ∧
      (after.body.drop (32 * (before.entryNum + 1))).take (encode text).length = encode text ∧
      after.body.take (32 * before.entryNum) = before.body.take (32 * before.entryNum) := by
  have hlen := h.valid.length_body
  have hroom := h.room
  have hlong := length_keyAndData hkey
  have hfields := textFields_take hkey text.length (encode text)
  have hbody := h.body
  simp only [Page.maxEntries] at hlen
  dsimp only at hbody
  set span := Page.dataEntryCount text.length + 1
  set header := textHeader (BitVec.ofNat 8 ns) span key text.length (encode text) with hheader
  have hheaderLen : header.length = 8 + (keyAndData key).length := by
    rw [hheader, textHeader, List.length_append, length_textFields hkey]
    rfl
  have htake : header.take 32 = [BitVec.ofNat 8 ns, ItemType.sz, BitVec.ofNat 8 span, chunkAny] ++
      (le32 (zlibCrc32 ([BitVec.ofNat 8 ns, ItemType.sz, BitVec.ofNat 8 span, chunkAny] ++
        (textFields key text.length (encode text)).take 24)) ++
        (textFields key text.length (encode text)).take 24) := rfl
  obtain ⟨rest, hrest⟩ := setSlice_header before.body header (encode text)
    (show 32 * before.entryNum ≤ before.body.length by omega) (by omega)
  have hpre : (before.body.take (32 * before.entryNum)).length = 32 * before.entryNum := by
    rw [List.length_take]
    omega
  have hhead : (header.take 32).length = 32 := by
    rw [List.length_take]
    omega
  rw [Nat.mul_succ, hrest] at hbody
  refine ⟨_, rfl, ?_, ?_, ?_⟩
  · rw [Page.entryAt, hbody, List.drop_left' hpre, List.take_left' hhead, htake, hfields]
    rfl
  · rw [hbody, Nat.mul_succ, ← List.append_assoc,
      List.drop_left' (by rw [List.length_append, hpre, hhead]), List.take_left]
  · rw [hbody, List.take_left' hpre]

/-- Nothing is put behind the entries of a text whose characters are single bytes. -/
lemma drop_body_written {ns : ℕ} {before after : Page} (hkey : (encode key).length ≤ 15)
    (hpos : 0 < text.length) (htext : (encode text).length = text.length) (h : Written ns key text before after) :
    after.body.drop (32 * after.entryNum) = before.body.drop (32 * after.entryNum) := by
  have hlen := h.valid.length_body
  have hroom := h.room
  have hshort := length_le_encode key
  have hbody := h.body
  simp only [Page.maxEntries] at hlen
  dsimp only at hbody
  set header := textHeader (BitVec.ofNat 8 ns) (Page.dataEntryCount text.length + 1) key
    text.length (encode text) with hheader
  have hheaderLen : header.length = 8 + (keyAndData key).length := by
    rw [hheader, textHeader, List.length_append, length_textFields (by omega)]
    rfl
  have hkeyLen : (keyAndData key).length = (encode key).length + (16 - key.length + 8) := by
    simp only [keyAndData, List.length_append, List.length_replicate]
  -- the text has a data entry, which takes what the header has too much
  have hcount : text.length ≤ 32 * Page.dataEntryCount text.length ∧
      1 ≤ Page.dataEntryCount text.length := by
    simp only [Page.dataEntryCount]
    omega
  have hnum := h.entryNum
  have hgrow : before.body.length ≤ (setSlice before.body (32 * before.entryNum)
      (32 * before.entryNum + header.length) header).length := length_setSlice_le (Nat.le_refl _)
  rw [hbody, drop_setSlice (by omega) (by omega) rfl (by omega),
    drop_setSlice (by omega) (by omega) rfl (by omega)]

/-- The row is right exactly if its text and its key have the bytes that they are taken to have. -/
lemma textAt_iff {ns : ℕ} {before after : Page} (hkey : key.length ≤ 15)
    (hzero : Char.ofNat 0 ∉ key) (h : Written ns key text before after) :
    TextAt after before.entryNum (BitVec.ofNat 8 ns) (encode key) (encode text) ↔
      (encode text).length = text.length ∧ (encode key).length ≤ 15 := by
  have hsize := h.size
  have hk := length_keyAndData_take hkey
  have hs : ((le32 text.length).take 2).length = 2 := rfl
  have hp : (((keyAndData key).take 20).drop 18).length = 2 := by
    have := length_keyAndData hkey
    rw [List.length_drop, List.length_take]
    omega
  have hhalf : leVal ((le32 text.length).take 2) = text.length := by
    simp only [Page.maxOldBlobSize] at hsize
    simp only [le32, List.take_succ_cons, List.take_zero, leVal, BitVec.toNat_ofNat]
    omega
  obtain ⟨crc, hcrc, hentry, hbytes, -⟩ := entryAt_written hkey h
  constructor
  · intro ht
    constructor
    · have := ht.size
      rw [hentry, dataSize_itemOf hk hs, hhalf] at this
      exact this.symm
    · have := ht.key
      rw [hentry, key_itemOf hk] at this
      exact (keyField_iff hkey hzero).mp this
  · rintro ⟨htext, hshort⟩
    have hspan : Page.dataEntryCount text.length + 1 < 256 := by
      simp only [Page.maxOldBlobSize] at hsize
      simp only [Page.dataEntryCount]
      omega
    constructor
    case crc =>
      rw [hentry]
      exact crcOk_itemOf hk hs hp rfl hcrc
    case nsIndex => rw [hentry]; rfl
    case datatype => rw [hentry]; rfl
    case chunkIndex => rw [hentry]; rfl
    case key =>
      rw [hentry, key_itemOf hk]
      exact (keyField_iff hkey hzero).mpr hshort
    case span =>
      rw [hentry, htext]
      show (BitVec.ofNat 8 (Page.dataEntryCount text.length + 1)).toNat = _
      rw [BitVec.toNat_ofNat]
      exact Nat.mod_eq_of_lt hspan
    case size => rw [hentry, dataSize_itemOf hk hs, hhalf, htext]
    case dataCrc =>
      rw [hentry, dataCrc32_itemOf hk hs hp rfl]
      exact leVal_le32 (BitVec.isLt _)
    case bytes => exact hbytes
    case written => rw [htext, h.entryNum]

/-- A row for a text is as the device wants it: its entry describes the bytes of the text, the
next row starts behind them, nothing else on the page is changed, and after any further rows the
device reads the text. -/
structure RowOk (nvs nvs' : NVS) (key value : List Char) : Prop where
  entry : TextAt nvs'.curPage (rowPage nvs nvs').entryNum (BitVec.ofNat 8 nvs.namespaceIdx)
    (encode key) (encode value ++ [0])
  next : nvs'.curPage.entryNum = (rowPage nvs nvs').entryNum +
    (Page.dataEntryCount (encode value ++ [0]).length + 1)
  before : nvs'.curPage.body.take (32 * (rowPage nvs nvs').entryNum) =
    (rowPage nvs nvs').body.take (32 * (rowPage nvs nvs').entryNum)
  after : nvs'.curPage.body.drop (32 * nvs'.curPage.entryNum) =
    (rowPage nvs nvs').body.drop (32 * nvs'.curPage.entryNum)
  read : ∀ rows fin p c buf, nvs'.generateRows rows = .ok fin →
    fin.allPages[nvs'.pages.length]? = some p → OnFlash c p →
    Nvs.Page.findStart c.page (textQuery (BitVec.ofNat 8 nvs.namespaceIdx) (encode key)) 0 =
      some (rowPage nvs nvs').entryNum →
    (rowPage nvs nvs').entryNum < c.page.nextFreeEntry →
    (encode value ++ [0]).length ≤ buf.length →
    Nvs.Page.readItem (textQuery (BitVec.ofNat 8 nvs.namespaceIdx) (encode key)) buf c =
      (.ok (encode value ++ [0] ++ buf.drop (encode value ++ [0]).length), c)

/-- An entry of a text on a page that has been written to further. -/
lemma TextAt.extends {p p' : Page} {e : ℕ} {ns : Byte} {key text : List Byte}
    (h : TextAt p e ns key text) (hroom : e + (Page.dataEntryCount text.length + 1) ≤ 126)
    (hext : p.Extends p') : TextAt p' e ns key text := by
  have hbody := hext.body _ h.written hroom
  have hcount : text.length ≤ 32 * Page.dataEntryCount text.length := by
    simp only [Page.dataEntryCount]
    omega
  -- both entries and data are read from the common part
  have hpart : ∀ i n, 32 * i + n ≤ 32 * (e + (Page.dataEntryCount text.length + 1)) →
      (p'.body.drop (32 * i)).take n = (p.body.drop (32 * i)).take n := by
    intro i n hle
    rw [List.take_drop, List.take_drop, ← Nat.min_eq_left hle, ← List.take_take, ← List.take_take,
      hbody]
  have hentry : p'.entryAt e = p.entryAt e := by
    rw [Page.entryAt, Page.entryAt, hpart e 32 (by omega)]
  constructor
  case bytes => rw [hpart (e + 1) text.length (by omega), h.bytes]
  case written => exact Nat.le_trans h.written hext.entryNum
  all_goals rw [hentry]
  case crc => exact h.crc
  case nsIndex => exact h.nsIndex
  case datatype => exact h.datatype
  case chunkIndex => exact h.chunkIndex
  case key => exact h.key
  case span => exact h.span
  case size => exact h.size
  case dataCrc => exact h.dataCrc

lemma rowOk_iff (hok : nvs.Ok) (h : nvs.generateRow (.string key value) = .ok nvs') :
    RowOk nvs nvs' key value ↔ (∀ c ∈ value, c.toNat < 128) ∧ (encode key).length ≤ 15 := by
  obtain ⟨hzero, hkey, hw⟩ := written_of_generateRow hok h
  have hiff := textAt_iff hkey hzero hw
  have hascii : (encode (value ++ [Char.ofNat 0])).length = (value ++ [Char.ofNat 0]).length ↔
      ∀ c ∈ value, c.toNat < 128 := by
    rw [← length_encode_eq_iff, encode_text, List.length_append, List.length_append]
    simp
  rw [encode_text] at hiff hascii
  rw [hascii] at hiff
  constructor
  · intro hrow
    exact hiff.mp hrow.entry
  · rintro ⟨htext, hshort⟩
    have hentry := hiff.mpr ⟨htext, hshort⟩
    have hlen := hascii.mpr htext
    obtain ⟨-, -, -, -, hbefore⟩ := entryAt_written hkey hw
    have hnext := hw.entryNum
    have hroom := hw.room
    rw [← hlen] at hnext hroom
    refine ⟨hentry, hnext, hbefore, ?_, ?_⟩
    · exact drop_body_written hshort (by simp) (by rw [encode_text]; exact hlen) hw
    · intro rows fin p c buf hrun hp hc hstart hfree hbuf
      have hok' := (NVS.keeps_generateRow (.string key value) nvs nvs' hok h).ok
      have hfollows := NVS.keeps_generateRows rows nvs' fin hok' hrun
      have hcur : nvs'.allPages[nvs'.pages.length]? = some nvs'.curPage := by
        rw [NVS.allPages, List.getElem?_append_right (Nat.le_refl _), Nat.sub_self]
        rfl
      obtain ⟨p', hp', hext⟩ := hfollows.pages _ _ hcur
      obtain rfl : p = p' := Option.some.inj (hp.symm.trans hp')
      have hvalid : p.Valid := hfollows.ok p (List.mem_of_getElem? hp)
      exact readItem_text hc hvalid (hentry.extends (by omega) hext) (by omega) hstart hfree hbuf

/-- The pages of an image that has been begun are valid. -/
lemma ok_nvsOpen {inputSize : ℕ} {version : Version} (h : NVS.nvsOpen inputSize version = .ok nvs) :
    nvs.Ok := by
  rw [NVS.nvsOpen] at h
  split at h
  · cases h
  · obtain rfl := Except.ok.inj h
    intro p hp
    rw [NVS.allPages, List.nil_append, List.mem_singleton] at hp
    rw [hp]
    exact Page.valid_init _ _

/-- After any rows, a row for a text is right exactly if all characters of the text are ASCII, and
the key has no more than fifteen bytes. -/
theorem string_row_iff {inputSize : ℕ} {version : Version} {nvs₀ : NVS} {rows : List NVS.Row}
    (hopen : NVS.nvsOpen inputSize version = .ok nvs₀) (hrows : nvs₀.generateRows rows = .ok nvs)
    (h : nvs.generateRow (.string key value) = .ok nvs') :
    RowOk nvs nvs' key value ↔ (∀ c ∈ value, c.toNat < 128) ∧ (encode key).length ≤ 15 :=
  rowOk_iff (NVS.keeps_generateRows rows nvs₀ nvs (ok_nvsOpen hopen) hrows).ok h

/-- An image of which the first page has been begun. -/
def begun : NVS := ⟨4096, 0, 0, .version2, [], Page.init 0 .version2 false⟩

/-- The row `k,data,string,hi` is right. -/
theorem string_row_hi : ∃ nvs', begun.generateRow (.string ['k'] ['h', 'i']) = .ok nvs' ∧
    RowOk begun nvs' ['k'] ['h', 'i'] := by
  obtain ⟨nvs', h⟩ : ∃ nvs', begun.generateRow (.string ['k'] ['h', 'i']) = .ok nvs' := ⟨_, rfl⟩
  have hopen : NVS.nvsOpen 8192 .version2 = .ok begun := rfl
  have hrows : begun.generateRows [] = .ok begun := rfl
  exact ⟨nvs', h, (string_row_iff hopen hrows h).mpr ⟨by simp, by decide⟩⟩

/-- The row `k,data,string,é` is not: the text has one character and two bytes. -/
theorem string_row_e_acute : ∃ nvs', begun.generateRow (.string ['k'] ['é']) = .ok nvs' ∧
    ¬ RowOk begun nvs' ['k'] ['é'] := by
  obtain ⟨nvs', h⟩ : ∃ nvs', begun.generateRow (.string ['k'] ['é']) = .ok nvs' := ⟨_, rfl⟩
  have hopen : NVS.nvsOpen 8192 .version2 = .ok begun := rfl
  refine ⟨nvs', h, fun hrow => ?_⟩
  exact absurd ((rowOk_iff (ok_nvsOpen hopen) h).mp hrow).1 (by simp)

end EspIdf.Nvs.PartitionGen
