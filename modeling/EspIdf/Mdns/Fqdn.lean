/-
# Reading a name in a packet

A name is a chain of labels, each with its length in front, that ends with a zero byte or goes on at
an earlier place of the packet.  `_mdns_read_fqdn` does not know how long the packet is.  Here a
read outside of the packet ends the function.
-/
import EspIdf.Lib.CStr

namespace EspIdf.Mdns

open Lib

/-- `MDNS_NAME_BUF_LEN`. -/
def nameBufLen : ℕ := 65

/-- `MDNS_DEFAULT_DOMAIN`. -/
def defaultDomain : List Byte := [0x6c, 0x6f, 0x63, 0x61, 0x6c]

/-- `MDNS_SUB_STR`. -/
def subStr : List Byte := [0x5f, 0x73, 0x75, 0x62]

def ip6 : List Byte := [0x69, 0x70, 0x36]
def inAddr : List Byte := [0x69, 0x6e, 0x2d, 0x61, 0x64, 0x64, 0x72]

def underscore : Byte := 0x5f
def dot : Byte := 0x2e

/-- `mdns_name_t`, with the strings in its fields. -/
structure Name where
  host : List Byte
  service : List Byte
  proto : List Byte
  domain : List Byte
  parts : ℕ
  sub : Bool
  invalid : Bool
deriving DecidableEq

/-- A name before it is read. -/
def Name.cleared (invalid : Bool) : Name := ⟨[], [], [], [], 0, false, invalid⟩

/-- What is written to: the buffer for a label, or the field `i` of a name. -/
inductive Target where
  | buf
  | part (i : ℕ)
deriving DecidableEq

/-- A write that ends behind the first `bytes` bytes of its target. -/
structure Write where
  target : Target
  bytes : ℕ
deriving DecidableEq

/-- The name that is being read, and what has been written. -/
structure Reader where
  name : Name
  writes : List Write

/-- How `_mdns_read_fqdn` ends. -/
inductive Outcome where
  | found (pos : ℕ)
  | null
  /-- A byte outside of the packet has been read. -/
  | outside
deriving DecidableEq

/-- The string at the beginning of a buffer. -/
def cstr (b : List Byte) : List Byte := b.takeWhile (· ≠ 0)

/-- `strlcat` to a string in a buffer of `size` bytes. -/
def strlcat (dst src : List Byte) (size : ℕ) : List Byte :=
  if size ≤ dst.length then dst else dst ++ src.take (size - 1 - dst.length)

/-- `strlcat` to the host, of which the last byte written is the `NUL`. -/
def Reader.catHost (r : Reader) (src : List Byte) : Reader :=
  let host := strlcat r.name.host src nameBufLen
  ⟨{ r.name with host := host }, r.writes ++ [⟨.part 0, host.length + 1⟩]⟩

/-- The field `i` of a name, as `mdns_name_ptrs` gives it. -/
def Name.set (name : Name) (i : ℕ) (s : List Byte) : Name :=
  match i with
  | 0 => { name with host := s }
  | 1 => { name with service := s }
  | 2 => { name with proto := s }
  | 3 => { name with domain := s }
  | _ => name

/-- The first `bytes` bytes of `buf` are written. -/
def Reader.fill (r : Reader) (bytes : ℕ) : Reader := ⟨r.name, r.writes ++ [⟨.buf, bytes⟩]⟩

/-- What is done with a label. -/
def Reader.take (r : Reader) (label : List Byte) : Reader :=
  let buf := cstr label
  let r := r.fill (label.length + 1)
  if r.name.parts = 1 ∧ (label ++ [0]).head? ≠ some underscore ∧ fold buf ≠ fold defaultDomain ∧
      fold buf ≠ fold ip6 ∧ fold buf ≠ fold inAddr then
    (r.catHost [dot]).catHost buf
  else if fold buf = fold subStr then ⟨{ r.name with sub := true }, r.writes⟩
  else if r.name.invalid = false then
    ⟨{ r.name.set r.name.parts buf with parts := r.name.parts + 1 },
      r.writes ++ [⟨.part r.name.parts, label.length + 1⟩]⟩
  else r

/-- The check at the beginning of a pass of the loop. -/
def Reader.check (r : Reader) : Reader :=
  if r.name.parts = 4 then { r with name := { r.name with invalid := true } } else r

/-- `_mdns_read_fqdn`, from the place `start + index` on. -/
def readFqdn (packet : List Byte) (start index : ℕ) (r : Reader) : Outcome × Reader :=
  if h : start + index < packet.length then
    let len := packet[start + index].toNat
    if len = 0 then (.found (start + index + 1), r)
    else
      let r := r.check
      if len < 0xc0 then
        if len > 63 then (.null, r)
        else if start + index + 1 + len ≤ packet.length then
          readFqdn packet start (index + 1 + len)
            (r.take ((packet.drop (start + index + 1)).take len))
        else (.outside, r.fill (packet.length - (start + index + 1)))
      else
        match packet[start + index + 1]? with
        | none => (.outside, r)
        | some low =>
          let address := (len &&& 0x3f) <<< 8 ||| low.toNat
          if address ≥ start then (.null, r)
          else
            match readFqdn packet address 0 r with
            | (.found _, r) => (.found (start + index + 2), r)
            | (outcome, r) => (outcome, r)
  else (.outside, r)
termination_by (start, packet.length - index)
decreasing_by
  · omega
  · exact Prod.Lex.left _ _ (Nat.not_le.1 ‹¬ _ ≥ start›)

/-- A label without a zero byte in it is a string. -/
lemma cstr_eq_self {label : List Byte} (h : 0 ∉ label) : cstr label = label :=
  List.takeWhile_eq_self_iff.2 fun b hb => by simpa using fun h0 : b = 0 => h (h0 ▸ hb)

/-- The first label of a name is its first part. -/
lemma Reader.take_first {r : Reader} {label : List Byte} (hparts : r.name.parts = 0)
    (hvalid : r.name.invalid = false) (h0 : 0 ∉ label) (hsub : fold label ≠ fold subStr) :
    (r.check.take label).name = { r.name with host := label, parts := 1 } := by
  have hcheck : r.check = r := if_neg (by omega)
  rw [hcheck, take, cstr_eq_self h0]
  simp [fill, hparts, hsub, hvalid, Name.set]

/-! ### Where a name leads -/

/-- The place that a pointer leads to. -/
def address (b low : Byte) : ℕ := (b.toNat &&& 0x3f) <<< 8 ||| low.toNat

/-- The chain that starts at `start + index` lies inside the packet, up to a zero byte, a length
that is too long, or a pointer that does not lead back. -/
inductive Inside (packet : List Byte) : ℕ → ℕ → Prop
  | last {start index : ℕ} (h : packet[start + index]? = some 0) : Inside packet start index
  | long {start index : ℕ} {b : Byte} (h : packet[start + index]? = some b) (h63 : 63 < b.toNat)
      (h192 : b.toNat < 192) : Inside packet start index
  | label {start index : ℕ} {b : Byte} (h : packet[start + index]? = some b) (h0 : b.toNat ≠ 0)
      (h63 : b.toNat ≤ 63) (hfits : start + index + 1 + b.toNat ≤ packet.length)
      (next : Inside packet start (index + 1 + b.toNat)) : Inside packet start index
  | ahead {start index : ℕ} {b low : Byte} (h : packet[start + index]? = some b)
      (h192 : 192 ≤ b.toNat) (hlow : packet[start + index + 1]? = some low)
      (hback : start ≤ address b low) : Inside packet start index
  | pointer {start index : ℕ} {b low : Byte} (h : packet[start + index]? = some b)
      (h192 : 192 ≤ b.toNat) (hlow : packet[start + index + 1]? = some low)
      (hback : address b low < start) (next : Inside packet (address b low) 0) :
      Inside packet start index

variable {packet : List Byte} {start index : ℕ} {r : Reader} {b low : Byte}

/-- The five ways on from a length. -/
lemma readFqdn_eq (h : packet[start + index]? = some b) (r : Reader) :
    readFqdn packet start index r =
      if b.toNat = 0 then (.found (start + index + 1), r)
      else if b.toNat < 0xc0 then
        if b.toNat > 63 then (.null, r.check)
        else if start + index + 1 + b.toNat ≤ packet.length then
          readFqdn packet start (index + 1 + b.toNat)
            (r.check.take ((packet.drop (start + index + 1)).take b.toNat))
        else (.outside, r.check.fill (packet.length - (start + index + 1)))
      else
        match packet[start + index + 1]? with
        | none => (.outside, r.check)
        | some low =>
          if address b low ≥ start then (.null, r.check)
          else
            match readFqdn packet (address b low) 0 r.check with
            | (.found _, r) => (.found (start + index + 2), r)
            | (outcome, r) => (outcome, r) := by
  obtain ⟨hlt, rfl⟩ := List.getElem?_eq_some_iff.1 h
  rw [readFqdn, dif_pos hlt]
  rfl

/-- The zero byte at the end of a name. -/
lemma readFqdn_last (h : packet[start + index]? = some 0) (r : Reader) :
    readFqdn packet start index r = (.found (start + index + 1), r) := by
  rw [readFqdn_eq h, if_pos (show (0 : Byte).toNat = 0 from rfl)]

/-- A label. -/
lemma readFqdn_label (h : packet[start + index]? = some b) (h0 : b.toNat ≠ 0) (h63 : b.toNat ≤ 63)
    (hfits : start + index + 1 + b.toNat ≤ packet.length) (r : Reader) :
    readFqdn packet start index r = readFqdn packet start (index + 1 + b.toNat)
      (r.check.take ((packet.drop (start + index + 1)).take b.toNat)) := by
  rw [readFqdn_eq h, if_neg h0, if_pos (by omega), if_neg (by omega), if_pos hfits]

/-- Nothing can be read behind the packet. -/
lemma readFqdn_outside (h : packet[start + index]? = none) (r : Reader) :
    readFqdn packet start index r = (.outside, r) := by
  rw [readFqdn, dif_neg (by simpa using h)]

/-- A name that lies inside is read without a read outside. -/
lemma readFqdn_of_inside (h : Inside packet start index) :
    ∀ r, (readFqdn packet start index r).1 ≠ .outside := by
  induction h with
  | last h =>
    intro r
    rw [readFqdn_last h]
    nofun
  | long h h63 h192 =>
    intro r
    rw [readFqdn_eq h, if_neg (by omega), if_pos h192, if_pos h63]
    nofun
  | label h h0 h63 hfits next ih =>
    intro r
    rw [readFqdn_label h h0 h63 hfits]
    exact ih _
  | ahead h h192 hlow hback =>
    intro r
    rw [readFqdn_eq h, if_neg (by omega), if_neg (by omega), hlow]
    dsimp only
    rw [if_pos hback]
    nofun
  | pointer h h192 hlow hback next ih =>
    intro r
    rw [readFqdn_eq h, if_neg (by omega), if_neg (by omega), hlow]
    dsimp only
    rw [if_neg (Nat.not_le.2 hback)]
    have hnext := ih r.check
    split
    · nofun
    · next heq =>
      rw [heq] at hnext
      exact hnext

/-- A name that is read without a read outside lies inside. -/
lemma inside_of_readFqdn (h : (readFqdn packet start index r).1 ≠ .outside) :
    Inside packet start index := by
  fun_induction readFqdn packet start index r with
  | case1 start index r hlt len hzero =>
    refine .last ?_
    rw [List.getElem?_eq_getElem hlt]
    exact congrArg some (BitVec.eq_of_toNat_eq hzero)
  | case2 start index r hlt len hzero r' hlow hlong =>
    exact .long (List.getElem?_eq_getElem hlt) hlong hlow
  | case3 start index r hlt len hzero r' hlow hlong hfits ih =>
    exact .label (List.getElem?_eq_getElem hlt) hzero (Nat.not_lt.1 hlong) hfits (ih h)
  | case4 => exact absurd rfl h
  | case5 => exact absurd rfl h
  | case6 start index r hlt len hzero r' hhigh low hlow addr hback =>
    exact .ahead (List.getElem?_eq_getElem hlt) (Nat.not_lt.1 hhigh) hlow hback
  | case7 start index r hlt len hzero r' hhigh low hlow addr hback pos r₁ heq ih =>
    rw [heq] at ih
    exact .pointer (List.getElem?_eq_getElem hlt) (Nat.not_lt.1 hhigh) hlow (Nat.not_le.1 hback)
      (ih nofun)
  | case8 start index r hlt len hzero r' hhigh low hlow addr hback outcome r₁ hnot heq ih =>
    rw [heq] at ih
    exact .pointer (List.getElem?_eq_getElem hlt) (Nat.not_lt.1 hhigh) hlow (Nat.not_le.1 hback)
      (ih h)
  | case9 => exact absurd rfl h

/-- The place behind a name is not behind the end of the packet. -/
lemma readFqdn_pos {pos : ℕ} {r' : Reader}
    (h : readFqdn packet start index r = (.found pos, r')) : pos ≤ packet.length := by
  fun_induction readFqdn packet start index r with
  | case1 start index r hlt len hzero =>
    cases h
    omega
  | case2 => cases h
  | case3 start index r hlt len hzero r₀ hlow hlong hfits ih => exact ih h
  | case4 => cases h
  | case5 => cases h
  | case6 => cases h
  | case7 start index r hlt len hzero r₀ hhigh low hlow addr hback pos₁ r₁ heq ih =>
    cases h
    have := (List.getElem?_eq_some_iff.1 hlow).1
    omega
  | case8 start index r hlt len hzero r₀ hhigh low hlow addr hback outcome r₁ hnot heq ih =>
    cases h
    exact absurd rfl (hnot pos)
  | case9 => cases h

/-! ### What is written -/

/-- A write that ends inside its target: 64 bytes of the buffer and of a field, and the 65 that the
host has. -/
def Write.Ok (w : Write) : Prop :=
  match w.target with
  | .buf => w.bytes ≤ 64
  | .part i => i < 4 ∧ w.bytes ≤ if i = 0 then nameBufLen else 64

/-- What holds all along while a name is read. -/
structure Reader.Good (r : Reader) : Prop where
  parts : r.name.parts ≤ 4
  host : r.name.host.length ≤ 64
  writes : ∀ w ∈ r.writes, w.Ok

lemma length_strlcat {dst : List Byte} (src : List Byte) (h : dst.length ≤ 64) :
    (strlcat dst src nameBufLen).length ≤ 64 := by
  unfold strlcat nameBufLen
  split
  · exact h
  · rw [List.length_append, List.length_take]
    omega

lemma length_cstr (s : List Byte) : (cstr s).length ≤ s.length :=
  (List.takeWhile_sublist _).length_le

lemma Reader.Good.catHost (h : r.Good) (src : List Byte) : (r.catHost src).Good := by
  have hlen := length_strlcat src h.host
  refine ⟨h.parts, hlen, fun w hw => ?_⟩
  rcases List.mem_append.1 hw with hw | hw
  · exact h.writes w hw
  · obtain rfl := List.mem_singleton.1 hw
    exact ⟨by decide, by rw [if_pos rfl]; exact Nat.succ_le_succ hlen⟩

lemma Name.set_host_length (name : Name) {i : ℕ} {s : List Byte} (hs : s.length ≤ 64)
    (h : name.host.length ≤ 64) : (name.set i s).host.length ≤ 64 := by
  unfold Name.set
  split <;> first | exact hs | exact h

lemma Reader.Good.fill (h : r.Good) {bytes : ℕ} (hbytes : bytes ≤ 64) : (r.fill bytes).Good := by
  refine ⟨h.parts, h.host, fun w hw => ?_⟩
  rcases List.mem_append.1 hw with hw | hw
  · exact h.writes w hw
  · obtain rfl := List.mem_singleton.1 hw
    exact hbytes

/-- A label is put where there is room for it, as long as a full name is marked. -/
lemma Reader.Good.take (h : r.Good) (hfull : r.name.parts = 4 → r.name.invalid = true)
    {label : List Byte} (hlen : label.length ≤ 63) : (r.take label).Good := by
  have hbuf : (r.fill (label.length + 1)).Good := h.fill (Nat.succ_le_succ hlen)
  unfold Reader.take
  dsimp only
  split
  · exact (hbuf.catHost _).catHost _
  · split
    · exact ⟨h.parts, h.host, hbuf.writes⟩
    · split
      · next hvalid =>
        have hlt : r.name.parts < 4 := by
          exact Nat.lt_of_le_of_ne h.parts fun h4 =>
            Bool.false_ne_true (hvalid.symm.trans (hfull h4))
        have hstr := length_cstr label
        refine ⟨hlt, Name.set_host_length _ (by omega) h.host, fun w hw => ?_⟩
        rcases List.mem_append.1 hw with hw | hw
        · exact hbuf.writes w hw
        · obtain rfl := List.mem_singleton.1 hw
          refine ⟨hlt, ?_⟩
          split
          · exact Nat.le_trans (Nat.succ_le_succ hlen) (by decide)
          · exact Nat.succ_le_succ hlen
      · exact hbuf

lemma Reader.Good.check (h : r.Good) : r.check.Good := by
  unfold Reader.check
  split
  · exact ⟨h.parts, h.host, h.writes⟩
  · exact h

lemma Reader.check_full (r : Reader) : r.check.name.parts = 4 → r.check.name.invalid = true := by
  unfold Reader.check
  split
  · exact fun _ => rfl
  · next h => exact fun h4 => absurd h4 h

/-- Every write of `_mdns_read_fqdn` ends inside its target. -/
lemma readFqdn_good (h : r.Good) : (readFqdn packet start index r).2.Good := by
  fun_induction readFqdn packet start index r with
  | case1 => exact h
  | case2 => exact h.check
  | case3 start index r hlt len hzero r₀ hlow hlong hfits ih =>
    refine ih (h.check.take r.check_full ?_)
    rw [List.length_take]
    omega
  | case4 start index r hlt len hzero r₀ hlow hlong hfits => exact h.check.fill (by omega)
  | case5 => exact h.check
  | case6 => exact h.check
  | case7 start index r hlt len hzero r₀ hhigh low hlow addr hback pos r₁ heq ih =>
    rw [heq] at ih
    exact ih h.check
  | case8 start index r hlt len hzero r₀ hhigh low hlow addr hback outcome r₁ hnot heq ih =>
    rw [heq] at ih
    exact ih h.check
  | case9 => exact h

/-- A label of 63 bytes, a label `b`, and the end. -/
def longHost : List Byte := 63 :: List.replicate 63 0x61 ++ [1, 0x62, 0]

end EspIdf.Mdns
