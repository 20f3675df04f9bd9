/-
# Writing a table as CSV

A table is printed with a row for each partition.  The numbers and keywords that are printed are
those that the parser reads back.
-/
import EspIdf.PartitionTable.Text

namespace EspIdf.PartitionTable

open Lib

/-- A statement about the characters of a string is decided along the string, and not by trying
all characters. -/
instance decidableForallMem (s : Str) (P : Char → Prop) [DecidablePred P] :
    Decidable (∀ c ∈ s, P c) := List.decidableBAll P s

/-! ### Printing -/

/-- `addr_format`. -/
def addrFormat (simpleFormatting includeSizes : Bool) (a : ℤ) : Str :=
  if simpleFormatting = false ∧ includeSizes = true then
    if a % 0x100000 = 0 then dec (a / 0x100000) ++ ['M']
    else if a % 0x400 = 0 then dec (a / 0x400) ++ ['K']
    else hex a
  else hex a

/-- `lookup_keyword`. -/
def lookupKeyword (simpleFormatting : Bool) (t : ℤ) (keywords : List (Str × ℤ)) : Str :=
  match keywords.find? fun kv => simpleFormatting = false ∧ t = kv.2 with
  | some kv => kv.1
  | none => dec t

/-- `generate_text_flags`. -/
def PartitionDefinition.textFlags (p : PartitionDefinition) : Str :=
  if p.encrypted then "encrypted".toList else []

/-- `PartitionDefinition.to_csv`, once the offset is filled in. -/
def PartitionDefinition.toCsv (simpleFormatting : Bool) (p : PartitionDefinition) : Str :=
  [','].intercalate [p.name, lookupKeyword simpleFormatting p.type types,
    lookupKeyword simpleFormatting p.subtype (subtypes p.type),
    addrFormat simpleFormatting false p.start, addrFormat simpleFormatting true p.size, p.textFlags]

/-- `PartitionTable.to_csv`. -/
def toCsv (simpleFormatting : Bool) (table : Table) : Str :=
  ['\n'].intercalate (["# Espressif ESP32 Partition Table".toList,
    "# Name, Type, SubType, Offset, Size, Flags".toList] ++
      table.map (PartitionDefinition.toCsv simpleFormatting)) ++ ['\n']

/-! ### Words -/

/-- The characters of numbers and keywords. -/
def wordChars : Str := "0123456789abcdefghijklmnopqrstuvwxyz_KM".toList

def IsWord (s : Str) : Prop := ∀ c ∈ s, c ∈ wordChars

instance (s : Str) : Decidable (IsWord s) := inferInstanceAs (Decidable (∀ c ∈ s, c ∈ wordChars))

lemma wordChar_spec : ∀ c ∈ wordChars, isLineBoundary c = false ∧ isSpace c = false ∧ c ≠ ',' ∧
    c ≠ '$' ∧ c ≠ ':' ∧ c.toNat < 128 := by
  decide +kernel

/-- The last character is no suffix for a multiple. -/
def NoSuffix (s : Str) : Prop := ∀ c, s.getLast? = some c → c.toLower ≠ 'k' ∧ c.toLower ≠ 'm'

lemma hexDigit_spec : ∀ c ∈ "0123456789abcdef".toList,
    c ∈ wordChars ∧ c.toLower ≠ 'k' ∧ c.toLower ≠ 'm' := by
  decide +kernel

lemma dec_of_nonneg {n : ℤ} (h : 0 ≤ n) : dec n = Nat.toDigits 10 n.toNat := by
  rw [dec, if_neg (by omega), show n.natAbs = n.toNat by omega]

lemma hex_of_nonneg {n : ℤ} (h : 0 ≤ n) : hex n = '0' :: 'x' :: Nat.toDigits 16 n.toNat := by
  rw [hex, if_neg (by omega), show n.natAbs = n.toNat by omega]

lemma isWord_dec {n : ℤ} (h : 0 ≤ n) : IsWord (dec n) := by
  rw [dec_of_nonneg h]
  exact fun c hc => (hexDigit_spec c (mem_toDigits (by decide) (by decide) hc)).1

lemma noSuffix_dec {n : ℤ} (h : 0 ≤ n) : NoSuffix (dec n) := by
  rw [dec_of_nonneg h]
  exact fun c hc =>
    (hexDigit_spec c (mem_toDigits (by decide) (by decide) (List.mem_of_getLast? hc))).2

lemma isWord_hex {n : ℤ} (h : 0 ≤ n) : IsWord (hex n) := by
  rw [hex_of_nonneg h]
  intro c hc
  rcases List.mem_cons.mp hc with rfl | hc
  · decide
  rcases List.mem_cons.mp hc with rfl | hc
  · decide
  exact (hexDigit_spec c (mem_toDigits (by decide) (by decide) hc)).1

lemma noSuffix_hex {n : ℤ} (h : 0 ≤ n) : NoSuffix (hex n) := by
  rw [hex_of_nonneg h]
  intro c hc
  rcases List.mem_cons.mp (List.mem_of_getLast? hc) with rfl | hc
  · decide
  rcases List.mem_cons.mp hc with rfl | hc
  · decide
  exact (hexDigit_spec c (mem_toDigits (by decide) (by decide) hc)).2

lemma IsWord.append {s s' : Str} (h : IsWord s) (h' : IsWord s') : IsWord (s ++ s') := by
  intro c hc
  rcases List.mem_append.mp hc with hc | hc
  · exact h c hc
  · exact h' c hc

lemma isWord_addrFormat (simple includeSizes : Bool) {a : ℤ} (h : 0 ≤ a) :
    IsWord (addrFormat simple includeSizes a) := by
  unfold addrFormat
  split_ifs
  · exact (isWord_dec (by omega)).append (by decide)
  · exact (isWord_dec (by omega)).append (by decide)
  · exact isWord_hex h
  · exact isWord_hex h

/-! ### Python's library -/

/-- What is documented about the functions on strings that the generator uses. -/
structure Documented (py : Python) : Prop where
  splitlines : py.splitlines = splitlines
  strip : py.strip = strip
  expandvars : ∀ s, '$' ∉ s → py.expandvars s = s
  lower : ∀ s, (∀ c ∈ s, c.toNat < 128) → py.lower s = s.map Char.toLower
  decimal : ∀ n : ℕ, py.int0 (Nat.toDigits 10 n) = some (n : ℤ)
  hexadecimal : ∀ n : ℕ, py.int0 ('0' :: 'x' :: Nat.toDigits 16 n) = some (n : ℤ)
  /-- A number does not begin with a letter. -/
  letter : ∀ c s, c.isAlpha = true → py.int0 (c :: s) = none

variable {py : Python} {keywords : List (Str × ℤ)}

lemma Documented.lower_word (hpy : Documented py) {s : Str} (h : IsWord s) :
    py.lower s = s.map Char.toLower :=
  hpy.lower s fun c hc => (wordChar_spec c (h c hc)).2.2.2.2.2

lemma Documented.getLast_lower (hpy : Documented py) {s : Str} (h : IsWord s) (hs : NoSuffix s) :
    (py.lower s).getLast? ≠ some 'k' ∧ (py.lower s).getLast? ≠ some 'm' := by
  rw [hpy.lower_word h, List.getLast?_map]
  cases hlast : s.getLast? with
  | none => simp
  | some c => simpa using hs c hlast

/-- A number without suffix. -/
lemma Documented.parseIntAux_number (keywords : List (Str × ℤ)) (hpy : Documented py) {s : Str} (h : IsWord s) (hs : NoSuffix s)
    {i : ℤ} (hi : py.int0 s = some i) (n : ℕ) : parseIntAux py keywords n s = .ok i := by
  obtain ⟨hk, hm⟩ := hpy.getLast_lower h hs
  cases n with
  | zero => simp only [parseIntAux, hi]
  | succ n =>
    rw [parseIntAux]
    simp only [hi]
    rw [if_neg hk, if_neg hm]

lemma Documented.int0_dec (hpy : Documented py) {n : ℤ} (h : 0 ≤ n) : py.int0 (dec n) = some n := by
  rw [dec_of_nonneg h, hpy.decimal, Int.toNat_of_nonneg h]

lemma Documented.int0_hex (hpy : Documented py) {n : ℤ} (h : 0 ≤ n) : py.int0 (hex n) = some n := by
  rw [hex_of_nonneg h, hpy.hexadecimal, Int.toNat_of_nonneg h]

lemma Documented.parseInt_dec (hpy : Documented py) {n : ℤ} (h : 0 ≤ n) :
    parseInt py keywords (dec n) = .ok n :=
  hpy.parseIntAux_number _ (isWord_dec h) (noSuffix_dec h) (hpy.int0_dec h) _

lemma Documented.parseInt_hex (hpy : Documented py) {n : ℤ} (h : 0 ≤ n) :
    parseInt py keywords (hex n) = .ok n :=
  hpy.parseIntAux_number _ (isWord_hex h) (noSuffix_hex h) (hpy.int0_hex h) _

/-- A number with one of the suffixes that are printed. -/
lemma Documented.parseInt_suffix (hpy : Documented py) {n : ℤ} (h : 0 ≤ n) :
    parseInt py keywords (dec n ++ ['K']) = .ok (n * 1024) ∧
      parseInt py keywords (dec n ++ ['M']) = .ok (n * (1024 * 1024)) := by
  have hread := hpy.parseIntAux_number keywords (isWord_dec h) (noSuffix_dec h)
    (hpy.int0_dec h) (dec n).length
  have hlast : ∀ c ∈ wordChars, (py.lower (dec n ++ [c])).getLast? = some c.toLower := by
    intro c hc
    rw [hpy.lower_word ((isWord_dec h).append (List.forall_mem_singleton.mpr hc)),
      List.getLast?_map, List.getLast?_append]
    rfl
  constructor
  · rw [parseInt, List.length_append, List.length_singleton, parseIntAux,
      hlast 'K' (by decide), if_pos (by decide), List.dropLast_concat, hread]
    rfl
  · rw [parseInt, List.length_append, List.length_singleton, parseIntAux,
      hlast 'M' (by decide), if_neg (by decide), if_pos (by decide), List.dropLast_concat, hread]
    rfl

/-- An address is read back. -/
lemma Documented.parseAddress_addrFormat (hpy : Documented py) (simple includeSizes : Bool) {a : ℤ}
    (h : 0 ≤ a) : parseAddress py (addrFormat simple includeSizes a) = .ok (some a) := by
  have hread : parseInt py [] (addrFormat simple includeSizes a) = .ok a := by
    unfold addrFormat
    split_ifs with h1 h2 h3
    · rw [(hpy.parseInt_suffix (by omega)).2]
      congr 1
      omega
    · rw [(hpy.parseInt_suffix (by omega)).1]
      congr 1
      omega
    · exact hpy.parseInt_hex h
    · exact hpy.parseInt_hex h
  have hne : addrFormat simple includeSizes a ≠ [] := by
    unfold addrFormat hex
    split_ifs <;> simp
  rw [parseAddress, if_neg hne, hread]
  rfl

/-! ### Keywords -/

/-- A list of keywords that can be read back. -/
def Readable (keywords : List (Str × ℤ)) : Prop :=
  ∀ kv ∈ keywords, IsWord kv.1 ∧ kv.1.map Char.toLower = kv.1 ∧
    keywords.lookup kv.1 = some kv.2 ∧ (kv.1.head?.any Char.isAlpha) = true ∧
    (kv.1.getLast?.all fun c => c ≠ 'k' && c ≠ 'm') = true

instance (keywords : List (Str × ℤ)) : Decidable (Readable keywords) :=
  inferInstanceAs (Decidable (∀ kv ∈ keywords, _ ∧ _ ∧ _ ∧ _ ∧ _))

lemma readable_types : Readable types := by
  decide +kernel

lemma readable_subtypes (type : ℤ) : Readable (subtypes type) := by
  unfold subtypes
  split_ifs
  · decide +kernel
  · decide +kernel
  · exact fun kv hkv => absurd hkv List.not_mem_nil

lemma isWord_lookupKeyword (hread : Readable keywords) (simple : Bool) {t : ℤ} (h : 0 ≤ t) :
    IsWord (lookupKeyword simple t keywords) ∧ lookupKeyword simple t keywords ≠ [] := by
  unfold lookupKeyword
  cases hfind : keywords.find? fun kv => simple = false ∧ t = kv.2 with
  | none =>
    refine ⟨isWord_dec h, ?_⟩
    simp only [dec_of_nonneg h]
    exact Nat.toDigits_ne_nil
  | some kv =>
    obtain ⟨hword, -, -, halpha, -⟩ := hread kv (List.mem_of_find?_eq_some hfind)
    refine ⟨hword, ?_⟩
    intro hnil
    simp only at hnil
    rw [hnil] at halpha
    cases halpha

/-- A keyword, or the number of a value without one, is read back. -/
lemma Documented.parseInt_lookupKeyword (hpy : Documented py) (hread : Readable keywords)
    (simple : Bool) {t : ℤ} (h : 0 ≤ t) :
    parseInt py keywords (lookupKeyword simple t keywords) = .ok t := by
  unfold lookupKeyword
  cases hfind : keywords.find? fun kv => simple = false ∧ t = kv.2 with
  | none => exact hpy.parseInt_dec h
  | some kv =>
    have hmem := List.mem_of_find?_eq_some hfind
    have hvalue : t = kv.2 := by
      have := List.find?_some hfind
      exact (of_decide_eq_true this).2
    obtain ⟨hword, hlower, hlookup, halpha, hlast⟩ := hread kv hmem
    have hnosuffix : NoSuffix kv.1 := by
      intro c hc
      have hc' : c.toLower = c := by
        have := congrArg List.getLast? hlower
        rw [List.getLast?_map, hc] at this
        exact Option.some.inj this
      rw [hc'] at *
      simpa [hc] using hlast
    obtain ⟨hk, hm⟩ := hpy.getLast_lower hword hnosuffix
    have hnone : py.int0 kv.1 = none := by
      cases hkey : kv.1 with
      | nil => simp [hkey] at halpha
      | cons c s => exact hpy.letter c s (by simpa [hkey] using halpha)
    have hne : keywords ≠ [] := List.ne_nil_of_mem hmem
    have hnumber : ∀ n, parseIntAux py keywords n kv.1 = .ok t := by
      intro n
      cases n with
      | zero => simp only [parseIntAux, hnone, if_neg hne, hpy.lower_word hword, hlower, hlookup,
          hvalue]
      | succ n =>
        rw [parseIntAux]
        simp only [hnone, if_neg hne]
        rw [if_neg hk, if_neg hm, hpy.lower_word hword, hlower, hlookup, hvalue]
    exact hnumber _

example : addrFormat false true 0x10000 = "64K".toList := by decide +kernel

end EspIdf.PartitionTable
