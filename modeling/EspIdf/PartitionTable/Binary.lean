/-
# Reading a binary table back

The generator reads the tables that it writes.  The names come back cut to the sixteen bytes that
the format has for them.
-/
import EspIdf.Lib.Utf8
import EspIdf.PartitionTable.Agreement

namespace EspIdf.PartitionTable

open Lib

/-- The errors that reading raises. -/
inductive ReadError where
  | definitionLength
  | unicodeDecode
  | invalidMagic
  | tableLength
  | md5Mismatch
  | missingEnd
  deriving DecidableEq, Repr

local instance lawfulBEqByte : LawfulBEq Byte := inferInstance

/-- `PartitionDefinition.from_binary`, apart from its warning about unknown flags. -/
def PartitionDefinition.fromBinary (b : List Byte) : Except ReadError PartitionDefinition :=
  if b.length ≠ 32 then .error .definitionLength
  else
    -- `STRUCT_FORMAT` is the layout of `esp_partition_info_t`
    let info := PartitionInfo.ofBytes b
    -- strip null byte padding from name string
    let name := if 0 ∈ info.label then info.label.takeWhile (· ≠ 0) else info.label
    match utf8Decode name with
    | none => .error .unicodeDecode
    | some name =>
      if b.take 2 ≠ magicBytes then .error .invalidMagic
      else .ok ⟨name, info.type, info.subtype, some info.offset, info.size, info.flags.testBit 0, 0⟩

/-- `b[o:o + 32]` for `o` in `range(0, len(b), 32)`. -/
def records (b : List Byte) : List (List Byte) :=
  (List.range ((b.length + 31) / 32)).map fun i => (b.drop (32 * i)).take 32

/-- The loop over the records; `hashed` is what the MD5 digest has been updated with. -/
def readRecords (hashed : List Byte) (result : Table) :
    List (List Byte) → Except ReadError Table
  | [] => .error .missingEnd
  | data :: rest =>
    if data.length ≠ 32 then .error .tableLength
    else if data = List.replicate 32 0xFF then .ok result
    else if data.take 2 = md5PartitionBegin.take 2 then
      if data.drop 16 = md5 hashed then readRecords hashed result rest else .error .md5Mismatch
    else do
      let p ← PartitionDefinition.fromBinary data
      readRecords (hashed ++ data) (result ++ [p]) rest

/-- `PartitionTable.from_binary`, with MD5 digests on. -/
def fromBinary (b : List Byte) : Except ReadError Table := readRecords [] [] (records b)

/-! ### Names -/

/-- What the format keeps of a name. -/
def cut (name : List Byte) : List Byte := (name.take 16).takeWhile (· ≠ 0)

/-- The format has room for the name. -/
def Fits (name : Str) : Prop := (utf8 name).length ≤ 16 ∧ 0 ∉ utf8 name

lemma takeWhile_append_zeros (s : List Byte) (n : ℕ) :
    (s ++ List.replicate n 0).takeWhile (· ≠ 0) = s.takeWhile (· ≠ 0) := by
  induction s with
  | nil => cases n <;> simp [List.replicate_succ]
  | cons b s ih =>
    by_cases hb : b = 0
    · simp [hb]
    · rw [List.cons_append, List.takeWhile_cons_of_pos (by simpa using hb),
        List.takeWhile_cons_of_pos (by simpa using hb), ih]

lemma takeWhile_eq_self_iff {s : List Byte} : s.takeWhile (· ≠ 0) = s ↔ 0 ∉ s := by
  rw [List.takeWhile_eq_self_iff]
  constructor
  · intro h hmem
    simpa using h 0 hmem
  · intro h b hb
    rw [decide_eq_true_eq]
    rintro rfl
    exact h hb

/-- The name that is left of the sixteen bytes. -/
lemma strip_pack16s (s : List Byte) :
    (if 0 ∈ pack16s s then (pack16s s).takeWhile (· ≠ 0) else pack16s s) = cut s := by
  have hcut : (pack16s s).takeWhile (· ≠ 0) = cut s := takeWhile_append_zeros _ _
  split
  · exact hcut
  · next hno => rw [← hcut, takeWhile_eq_self_iff.mpr hno]

lemma cut_eq_self_iff {s : List Byte} : cut s = s ↔ s.length ≤ 16 ∧ 0 ∉ s := by
  constructor
  · intro h
    have hlen : s.length ≤ 16 := by
      have hle := (List.takeWhile_prefix (· ≠ (0 : Byte)) (l := s.take 16)).length_le
      rw [← cut, h, List.length_take] at hle
      omega
    rw [cut, List.take_of_length_le hlen] at h
    exact ⟨hlen, takeWhile_eq_self_iff.mp h⟩
  · rintro ⟨hlen, hno⟩
    rw [cut, List.take_of_length_le hlen, takeWhile_eq_self_iff.mpr hno]

lemma utf8Decode_cut_iff {name : Str} : utf8Decode (cut (utf8 name)) = some name ↔ Fits name := by
  constructor
  · intro h
    exact cut_eq_self_iff.mp (utf8_of_utf8Decode h).symm
  · intro h
    rw [cut_eq_self_iff.mpr h, utf8Decode_utf8]

/-! ### Entries -/

variable {py : Python} {p : PartitionDefinition} {table : Table} {offsetPartTable : ℤ}
  {secure : Bool}

/-- The row without its line number, which is no part of the definition. -/
def PartitionDefinition.unnumbered (p : PartitionDefinition) : PartitionDefinition :=
  { p with lineNo := 0 }

/-- The row as it comes back from its binary form. -/
def PartitionDefinition.decoded (p : PartitionDefinition) : Except ReadError PartitionDefinition :=
  match utf8Decode (cut (utf8 p.name)) with
  | none => .error .unicodeDecode
  | some name => .ok { p.unnumbered with name := name }

lemma decoded_eq_unnumbered_iff : p.decoded = .ok p.unnumbered ↔ Fits p.name := by
  rw [← utf8Decode_cut_iff, PartitionDefinition.decoded]
  cases hname : utf8Decode (cut (utf8 p.name)) with
  | none => simp
  | some name =>
    simp only [Except.ok.injEq, Option.some.injEq]
    constructor
    · intro h
      exact congrArg PartitionDefinition.name h
    · intro h
      rw [h]
      rfl

/-- An entry is read as the row that it was written for, apart from the name. -/
lemma fromBinary_entryBytes (hpy : py.encode = utf8) (h : Packed p) (hoffset : p.offset.isSome) :
    PartitionDefinition.fromBinary (entryBytes py p) = p.decoded := by
  obtain ⟨offset, hoff⟩ := Option.isSome_iff_exists.mp hoffset
  have hmagic : (entryBytes py p).take 2 = magicBytes := by
    simp only [entryBytes, List.append_assoc]
    exact List.take_left' rfl
  have hstart : p.start = offset := by rw [PartitionDefinition.start, hoff, Option.getD_some]
  rw [PartitionDefinition.fromBinary, if_neg (by simp)]
  simp only [ofBytes_entryBytes h, strip_pack16s, hpy, hmagic, PartitionDefinition.decoded]
  cases utf8Decode (cut (utf8 p.name)) with
  | none => rfl
  | some name =>
    simp only [ne_eq, not_true_eq_false, if_false, Except.ok.injEq]
    have htype := Int.toNat_of_nonneg h.type.1
    have hsubtype := Int.toNat_of_nonneg h.subtype.1
    have hsize := Int.toNat_of_nonneg h.size.1
    have hfirst := Int.toNat_of_nonneg h.start.1
    have hbit : (if p.encrypted then 1 else 0 : ℕ).testBit 0 = p.encrypted := by
      cases p.encrypted <;> decide
    rw [htype, hsubtype, hsize, hfirst, hstart, hbit, PartitionDefinition.unnumbered, hoff]

/-! ### Records -/

lemma records_append {a b : List Byte} (ha : a.length = 32) :
    records (a ++ b) = a :: records b := by
  have hcount : ((a ++ b).length + 31) / 32 = (b.length + 31) / 32 + 1 := by
    rw [List.length_append, ha]
    omega
  rw [records, hcount, List.range_succ_eq_map, List.map_cons, List.map_map]
  congr 1
  · rw [Nat.mul_zero, List.drop_zero]
    exact List.take_left' ha
  · rw [records]
    refine List.map_congr_left fun i _ => ?_
    rw [Function.comp_apply, show 32 * (i + 1) = a.length + 32 * i by omega,
      List.drop_append, List.drop_eq_nil_of_le (by omega)]
    simp

lemma records_entries (py : Python) (table : Table) (b : List Byte) :
    records (entries py table ++ b) = table.map (entryBytes py) ++ records b := by
  induction table with
  | nil => rfl
  | cons p table ih =>
    rw [entries] at ih ⊢
    rw [List.map_cons, List.flatten_cons, List.append_assoc,
      records_append (length_entryBytes py p), ih]
    rfl

/-- The loop over the entries of rows. -/
lemma readRecords_entries (hpy : py.encode = utf8) (h : ∀ p ∈ table, Packed p)
    (hoffset : ∀ p ∈ table, p.offset.isSome) (hashed : List Byte) (result : Table)
    (rest : List (List Byte)) :
    readRecords hashed result (table.map (entryBytes py) ++ rest) =
      (table.mapM PartitionDefinition.decoded >>= fun ps =>
        readRecords (hashed ++ entries py table) (result ++ ps) rest) := by
  induction table generalizing hashed result with
  | nil => simp [entries]
  | cons p table ih =>
    have hhead : ∃ bytes, entryBytes py p = 0xAA :: bytes := ⟨_, rfl⟩
    have hend : entryBytes py p ≠ List.replicate 32 0xFF := by
      obtain ⟨bytes, hbytes⟩ := hhead
      rw [hbytes, List.replicate_succ]
      intro heq
      exact absurd (List.cons.inj heq).1 (by decide)
    have hmd5 : (entryBytes py p).take 2 ≠ md5PartitionBegin.take 2 := by
      obtain ⟨bytes, hbytes⟩ := hhead
      rw [hbytes]
      intro heq
      exact absurd (List.cons.inj heq).1 (by decide)
    rw [List.map_cons, List.cons_append, readRecords, if_neg (by simp), if_neg hend, if_neg hmd5,
      fromBinary_entryBytes hpy (h p List.mem_cons_self) (hoffset p List.mem_cons_self),
      List.mapM_cons]
    cases p.decoded with
    | error err => rfl
    | ok q =>
      have ih := ih (fun p hp => h p (List.mem_cons_of_mem _ hp))
        (fun p hp => hoffset p (List.mem_cons_of_mem _ hp)) (hashed ++ entryBytes py p)
        (result ++ [q])
      simp only [bind, Except.bind, pure, Except.pure] at ih ⊢
      rw [ih]
      cases table.mapM PartitionDefinition.decoded with
      | error err => rfl
      | ok ps => simp [entries]

/-- A table that was written is read row by row. -/
lemma fromBinary_tableBytes (hpy : py.encode = utf8) (h : ∀ p ∈ table, Packed p)
    (hoffset : ∀ p ∈ table, p.offset.isSome) (hlen : table.length ≤ 94) :
    fromBinary (tableBytes py table) = table.mapM PartitionDefinition.decoded := by
  obtain ⟨k, hk⟩ : ∃ k, maxPartitionLength - 32 * (table.length + 1) = 32 + k :=
    Nat.exists_eq_add_of_le (by rw [maxPartitionLength]; omega)
  have hdigest : (md5PartitionBegin ++ md5 (entries py table)).length = 32 := by
    rw [List.length_append, length_md5]
    rfl
  rw [fromBinary, tableBytes, hk, ← List.replicate_append_replicate, List.append_assoc,
    records_entries, records_append hdigest, records_append List.length_replicate,
    readRecords_entries hpy h hoffset]
  cases table.mapM PartitionDefinition.decoded with
  | error err => rfl
  | ok ps =>
    have hdrop : (md5PartitionBegin ++ md5 (entries py table)).drop 16 = md5 (entries py table) :=
      List.drop_left' rfl
    have hnot : md5PartitionBegin ++ md5 (entries py table) ≠ List.replicate 32 0xFF := by
      intro heq
      exact absurd (List.cons.inj heq).1 (by decide)
    simp only [bind, Except.bind, List.nil_append]
    rw [readRecords, if_neg (by simpa using hdigest), if_neg hnot,
      if_pos (List.take_append_of_le_length (by decide)), if_pos hdrop, readRecords,
      if_neg (by simp), if_pos rfl]

/-! ### Writing -/

lemma packed_of_toBinary {b : List Byte} (h : p.toBinary py = .ok b) : Packed p := by
  simp only [PartitionDefinition.toBinary, packB, packL, bind, Except.bind] at h
  by_cases htype : 0 ≤ p.type ∧ p.type < 256
  swap
  · simp [if_neg htype] at h
  by_cases hsubtype : 0 ≤ p.subtype ∧ p.subtype < 256
  swap
  · simp [if_pos htype, if_neg hsubtype] at h
  by_cases hstart : 0 ≤ p.start ∧ p.start < 2 ^ 32
  swap
  · simp only [if_pos htype, if_pos hsubtype, if_neg hstart] at h
    cases h
  by_cases hsize : 0 ≤ p.size ∧ p.size < 2 ^ 32
  swap
  · simp only [if_pos htype, if_pos hsubtype, if_pos hstart, if_neg hsize] at h
    cases h
  exact ⟨htype, hsubtype, hstart, hsize⟩

lemma mapM_toBinary_ok {es : List (List Byte)}
    (h : table.mapM (PartitionDefinition.toBinary py) = .ok es) :
    (∀ p ∈ table, Packed p) ∧ es = table.map (entryBytes py) := by
  induction table generalizing es with
  | nil =>
    cases h
    exact ⟨fun p hp => absurd hp List.not_mem_nil, rfl⟩
  | cons p table ih =>
    rw [List.mapM_cons] at h
    cases hp : p.toBinary py with
    | error err => simp [hp, bind, Except.bind] at h
    | ok b =>
      have hpacked := packed_of_toBinary hp
      rw [toBinary_entry hpacked] at hp
      cases hes : table.mapM (PartitionDefinition.toBinary py) with
      | error err => simp [toBinary_entry hpacked, hes, bind, Except.bind] at h
      | ok es' =>
        simp only [toBinary_entry hpacked, hes, bind, Except.bind, pure, Except.pure,
          Except.ok.injEq] at h
        obtain ⟨hall, rfl⟩ := ih hes
        exact ⟨List.forall_mem_cons.mpr ⟨hpacked, hall⟩, h.symm⟩

/-- What a table that can be written is like. -/
lemma toBinary_ok {b : List Byte} (h : toBinary py table = .ok b) :
    (∀ p ∈ table, Packed p) ∧ table.length ≤ 94 ∧ b = tableBytes py table := by
  simp only [toBinary, bind, Except.bind] at h
  cases hes : table.mapM (PartitionDefinition.toBinary py) with
  | error err => simp [hes] at h
  | ok es =>
    obtain ⟨hall, rfl⟩ := mapM_toBinary_ok hes
    rw [hes] at h
    have hlength : ((table.map (entryBytes py)).flatten ++ md5PartitionBegin ++
        md5 (table.map (entryBytes py)).flatten).length = 32 * (table.length + 1) := by
      rw [List.length_append, List.length_append, length_md5]
      have := length_entries py table
      rw [entries] at this
      rw [this]
      simp [md5PartitionBegin]
      omega
    simp only [hlength] at h
    split at h
    · cases h
    · next hlen =>
      refine ⟨hall, by rw [maxPartitionLength] at hlen; omega, ?_⟩
      rw [tableBytes, entries, ← Except.ok.inj h, List.append_assoc _ _ (md5 _)]

/-! ### Checking again -/

lemma verify_unnumbered_entry :
    PartitionDefinition.verify secure p.unnumbered = PartitionDefinition.verify secure p := rfl

lemma forM_unnumbered :
    (table.map PartitionDefinition.unnumbered).forM (PartitionDefinition.verify secure) =
      table.forM (PartitionDefinition.verify secure) := by
  induction table with
  | nil => rfl
  | cons p table ih =>
    rw [List.map_cons, List.forM, List.forM, verify_unnumbered_entry, ih]

lemma checkOverlaps_unnumbered (offsetPartTable : ℤ) (table : Table)
    (last : Option PartitionDefinition) :
    checkOverlaps offsetPartTable (last.map PartitionDefinition.unnumbered)
      (table.map PartitionDefinition.unnumbered) = checkOverlaps offsetPartTable last table := by
  induction table generalizing last with
  | nil => rfl
  | cons p table ih =>
    have ih := ih (some p)
    rw [List.map_cons, checkOverlaps, checkOverlaps]
    rw [Option.map_some] at ih
    rw [ih]
    cases last <;> rfl

/-- The checks do not look at the line numbers. -/
lemma verify_unnumbered :
    verify offsetPartTable secure (table.map PartitionDefinition.unnumbered) =
      verify offsetPartTable secure table := by
  have hnames : (table.map PartitionDefinition.unnumbered).map PartitionDefinition.name =
      table.map PartitionDefinition.name := by
    rw [List.map_map]
    rfl
  have hsort : (table.map PartitionDefinition.unnumbered).mergeSort
      (fun a b => a.start ≤ b.start) =
      (table.mergeSort fun a b => a.start ≤ b.start).map PartitionDefinition.unnumbered :=
    (List.map_mergeSort (f := PartitionDefinition.unnumbered) fun _ _ _ _ => rfl).symm
  have hcheck := checkOverlaps_unnumbered offsetPartTable
    (table.mergeSort fun a b => a.start ≤ b.start) none
  have hfilter : (table.map PartitionDefinition.unnumbered).filter
      (fun p => p.type = dataType ∧ p.subtype = 0x00) =
      (table.filter fun p => p.type = dataType ∧ p.subtype = 0x00).map
        PartitionDefinition.unnumbered := List.filter_map
  rw [Option.map_none] at hcheck
  simp only [verify, forM_unnumbered, hnames, hsort, hcheck, hfilter, List.length_map, List.any_map]
  rfl

lemma verify_offset (h : verify offsetPartTable secure table = .ok ()) :
    ∀ p ∈ table, p.offset.isSome := by
  have hforM : table.forM (PartitionDefinition.verify secure) = .ok () := by
    simp only [verify, bind, Except.bind] at h
    split at h
    · cases h
    · next hok => exact hok
  clear h
  induction table with
  | nil => exact fun p hp => absurd hp List.not_mem_nil
  | cons p table ih =>
    rw [List.forM] at hforM
    cases hp : PartitionDefinition.verify secure p with
    | error err => simp [hp, bind, Except.bind] at hforM
    | ok =>
      rw [hp] at hforM
      refine List.forall_mem_cons.mpr ⟨?_, ih hforM⟩
      unfold PartitionDefinition.verify at hp
      cases hoff : p.offset with
      | none => simp [hoff] at hp
      | some offset => rfl

/-! ### The round trip -/

lemma mapM_decoded_iff :
    table.mapM PartitionDefinition.decoded = .ok (table.map PartitionDefinition.unnumbered) ↔
      ∀ p ∈ table, Fits p.name := by
  induction table with
  | nil => exact ⟨fun _ p hp => absurd hp List.not_mem_nil, fun _ => rfl⟩
  | cons p table ih =>
    rw [List.mapM_cons, List.map_cons, List.forall_mem_cons, ← ih, ← decoded_eq_unnumbered_iff]
    cases p.decoded with
    | error err => simp [bind, Except.bind]
    | ok q =>
      cases table.mapM PartitionDefinition.decoded with
      | error err => simp [bind, Except.bind]
      | ok qs => simp [bind, Except.bind, pure, Except.pure]

/-- A table that was accepted and written is read back row by row, with its names cut to what the
format has room for.  It comes back as it was if and only if the names fit, and then passes the
checks again. -/
theorem fromBinary_toBinary (py : Python) (hpy : py.encode = utf8) (offsetPartTable : ℤ)
    (secure : Bool) (csv : Str) (table : Table) (b : List Byte)
    (h : accept py offsetPartTable secure csv = .ok table) (hb : toBinary py table = .ok b) :
    fromBinary b = table.mapM PartitionDefinition.decoded ∧
      (fromBinary b = .ok (table.map PartitionDefinition.unnumbered) ↔
        ∀ p ∈ table, Fits p.name) ∧
      verify offsetPartTable secure (table.map PartitionDefinition.unnumbered) = .ok () := by
  obtain ⟨-, hverify⟩ := accept_ok h
  obtain ⟨hpacked, hlen, rfl⟩ := toBinary_ok hb
  have hread := fromBinary_tableBytes hpy hpacked (verify_offset hverify) hlen
  exact ⟨hread, by rw [hread, mapM_decoded_iff], by rw [verify_unnumbered, hverify]⟩

/-- Python's string functions on text without variables, with decimal numbers. -/
def unicode : Python := { ascii with encode := utf8 }

/-- The row of a file system. -/
def fileSystem (name : Str) (offset : ℤ) (lineNo : ℕ) : PartitionDefinition where
  name := name
  type := 1
  subtype := 0x81
  offset := some offset
  size := 0x10000
  encrypted := true
  lineNo := lineNo

lemma packed_fileSystem (name : Str) {offset : ℤ} (h : 0 ≤ offset ∧ offset < 2 ^ 32) (lineNo : ℕ) :
    Packed (fileSystem name offset lineNo) :=
  ⟨⟨by simp [fileSystem], by simp [fileSystem]⟩, ⟨by simp [fileSystem], by simp [fileSystem]⟩, h,
    ⟨by simp [fileSystem], by simp [fileSystem]⟩⟩

/-- A file system comes back as it was. -/
theorem fromBinary_toBinary_storage :
    ∃ b, toBinary unicode [fileSystem "storage".toList 0x9000 1] = .ok b ∧
      fromBinary b = .ok [fileSystem "storage".toList 0x9000 0] := by
  have hpacked : ∀ p ∈ [fileSystem "storage".toList 0x9000 1], Packed p :=
    List.forall_mem_singleton.mpr (packed_fileSystem _ (by decide) 1)
  have hb : toBinary unicode [fileSystem "storage".toList 0x9000 1] = .ok _ :=
    toBinary_eq hpacked (by decide)
  refine ⟨_, hb, ((fromBinary_toBinary unicode rfl 0x8000 false
    "storage,data,fat,36864,64K,encrypted".toList _ _ (by decide +kernel) hb).2.1).mpr ?_⟩
  exact List.forall_mem_singleton.mpr ⟨by decide +kernel, by decide +kernel⟩

/-- A table with two rows that have the same first sixteen bytes in their names. -/
def longNames : Table :=
  [fileSystem "partition_number_1".toList 0x9000 1,
    fileSystem "partition_number_2".toList 0x19000 2]

/-- The rows of `longNames`. -/
def longNamesCsv : Str :=
  "partition_number_1,data,fat,36864,64K,encrypted\n".toList ++
    "partition_number_2,data,fat,102400,64K,encrypted".toList

lemma accept_longNames : accept unicode 0x8000 false longNamesCsv = .ok longNames := by
  have hcsv : fromCsv unicode 0x8000 longNamesCsv = .ok longNames := by decide +kernel
  have hsort : longNames.mergeSort (fun a b => a.start ≤ b.start) = longNames :=
    List.mergeSort_of_pairwise (by decide +kernel)
  have hverify : verify 0x8000 false longNames = .ok () := by
    unfold verify
    rw [hsort]
    decide +kernel
  rw [accept, hcsv]
  simp only [bind, Except.bind, hverify]
  rfl

/-- Two names of eighteen bytes are different in the table and the same when they are read back,
so that the checks fail. -/
theorem fromBinary_toBinary_long :
    ∃ b table', accept unicode 0x8000 false longNamesCsv = .ok longNames ∧
      toBinary unicode longNames = .ok b ∧ fromBinary b = .ok table' ∧
      table' ≠ longNames.map PartitionDefinition.unnumbered ∧
      verify 0x8000 false table' = .error .namesNotUnique := by
  have hpacked : ∀ p ∈ longNames, Packed p :=
    List.forall_mem_cons.mpr ⟨packed_fileSystem _ (by decide) 1,
      List.forall_mem_singleton.mpr (packed_fileSystem _ (by decide) 2)⟩
  have hdecoded : ∀ name offset lineNo, cut (utf8 name) = utf8 "partition_number".toList →
      (fileSystem name offset lineNo).decoded =
        .ok (fileSystem "partition_number".toList offset 0) := by
    intro name offset lineNo hcut
    rw [PartitionDefinition.decoded]
    simp only [fileSystem, hcut, utf8Decode_utf8]
    rfl
  refine ⟨_, [fileSystem "partition_number".toList 0x9000 0,
    fileSystem "partition_number".toList 0x19000 0], accept_longNames,
    toBinary_eq hpacked (by decide), ?_, by decide +kernel, ?_⟩
  · rw [fromBinary_tableBytes rfl hpacked (by decide) (by decide), longNames, List.mapM_cons,
      List.mapM_cons, hdecoded _ _ _ (by decide +kernel), hdecoded _ _ _ (by decide +kernel)]
    rfl
  · decide +kernel

example : (records (List.replicate 40 0)).length = 2 := by decide +kernel

end EspIdf.PartitionTable
