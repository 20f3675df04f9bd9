/-
# Appending a name

`_mdns_append_fqdn` looks in the packet for a place where the rest of the name stands, and puts a
pointer to it.  The search goes over all bytes of the packet, those of records too, and what it
finds there is read as a name.
-/
import EspIdf.Mdns.Labels

namespace EspIdf.Mdns

open Lib

/-- `MDNS_NAME_REF`. -/
def nameRef : ℕ := 0xC000

/-- The fields that have been read are the strings, but for the case of letters. -/
def Name.IsOf (name : Name) (strings : List (List Byte)) : Prop :=
  name.parts = strings.length ∧ (name.fields.take strings.length).map fold = strings.map fold

instance (name : Name) (strings : List (List Byte)) : Decidable (name.IsOf strings) :=
  inferInstanceAs (Decidable (_ ∧ _))

/-- How the search for a name ends. -/
inductive Search where
  | found (location : ℕ)
  | missing
  /-- A place where the first string stands cannot be read as a name. -/
  | unreadable
  /-- A byte outside of the buffer has been read. -/
  | outside
  deriving DecidableEq

/-- The loop over the next `n` places from `location` on; `invalid` is in the field of the name. -/
def search (packet s : List Byte) (rest : List (List Byte)) : ℕ → ℕ → Bool → Search
  | 0, _, _ => .missing
  | n + 1, location, invalid =>
    if packet[location]? ≠ some (BitVec.ofNat 8 s.length) then
      search packet s rest n (location + 1) invalid
    else
      let content := (packet.drop (location + 1)).take s.length
      if content = s then
        match readFqdn packet location 0 ⟨.cleared invalid, []⟩ with
        | (.found _, r) =>
          if r.name.IsOf (s :: rest) then .found location
          else search packet s rest n (location + 1) r.name.invalid
        | (.null, _) => .unreadable
        | (.outside, _) => .outside
      else if content.length < s.length ∧ content <+: s then .outside
      else search packet s rest n (location + 1) invalid

/-- `_mdns_append_fqdn`; `stack` is what stands in the field `invalid` of the name on the stack, for
each number of strings, as it is not initialised. -/
def appendFqdn (stack : ℕ → Bool) : Out → List (List Byte) → Option (ℕ × Out)
  | o, [] => some (appendU8 o 0)
  | o, s :: rest =>
    match search o.packet s rest o.index 0 (stack (rest.length + 1)) with
    | .outside => none
    | .unreadable => some (0, o)
    | .found location => some (appendU16 o (location ||| nameRef))
    | .missing =>
      let (written, o) := appendString o s
      if written = 0 then some (0, o)
      else do
        let (n, o) ← appendFqdn stack o rest
        return ((written + n) % 65536, o)

/-! ### The index -/

variable {stack : ℕ → Bool} {o o' : Out} {s packet : List Byte} {rest strings : List (List Byte)}
  {n location : ℕ}

/-- What an append leaves. -/
structure Appended (o : Out) (n : ℕ) (o' : Out) : Prop where
  length : o'.packet.length = o.packet.length
  index : o'.index = o.index + n
  le : o'.index ≤ maxPacketSize
  take : o'.packet.take o.index = o.packet.take o.index

lemma Appended.none (h : o.index ≤ maxPacketSize) : Appended o 0 o := ⟨rfl, rfl, h, rfl⟩

lemma appended_put (hlen : o.packet.length = maxPacketSize) (bytes : List Byte)
    (h : o.index + bytes.length ≤ maxPacketSize) :
    Appended o bytes.length ⟨putBytes o.packet o.index bytes, o.index + bytes.length⟩ :=
  ⟨length_putBytes (by omega), rfl, h, take_putBytes (by omega)⟩

lemma Appended.trans {o₁ o₂ : Out} {n₁ n₂ : ℕ} (h₁ : Appended o n₁ o₁) (h₂ : Appended o₁ n₂ o₂) :
    Appended o (n₁ + n₂) o₂ := by
  refine ⟨h₂.length.trans h₁.length, by rw [h₂.index, h₁.index, Nat.add_assoc], h₂.le, ?_⟩
  have htake := congrArg (List.take o.index) h₂.take
  rw [List.take_take, List.take_take, Nat.min_eq_left (by rw [h₁.index]; omega)] at htake
  exact htake.trans h₁.take

lemma appended_u8 (hlen : o.packet.length = maxPacketSize) (hle : o.index ≤ maxPacketSize)
    (value : Byte) : Appended o (appendU8 o value).1 (appendU8 o value).2 := by
  rw [appendU8]
  split
  · exact .none hle
  · exact appended_put hlen [value] (by rw [List.length_singleton]; omega)

lemma appended_u16 (hlen : o.packet.length = maxPacketSize) (hle : o.index ≤ maxPacketSize)
    (value : ℕ) : Appended o (appendU16 o value).1 (appendU16 o value).2 := by
  by_cases h : o.index + 1 ≥ maxPacketSize
  · rw [appendU16, if_pos h]
    exact .none hle
  · rw [appendU16_eq (by omega) hlen]
    exact appended_put hlen [_, _] (by simp; omega)

lemma appended_string (hlen : o.packet.length = maxPacketSize) (hle : o.index ≤ maxPacketSize)
    (h63 : s.length ≤ 63) : Appended o (appendString o s).1 (appendString o s).2 := by
  rw [appendString_eq hlen h63]
  split
  · exact .none hle
  · exact appended_put hlen (labelBytes s) (by simp [labelBytes]; omega)

/-- Whatever is found, the bytes before the index stay, and it goes on by what is returned. -/
theorem appended_fqdn (hlen : o.packet.length = maxPacketSize) (hle : o.index ≤ maxPacketSize)
    (h63 : ∀ s ∈ strings, s.length ≤ 63) (h : appendFqdn stack o strings = some (n, o')) :
    Appended o n o' := by
  induction strings generalizing o n with
  | nil =>
    have happ := appended_u8 hlen hle 0
    rwa [Option.some.inj h] at happ
  | cons s rest ih =>
    have hs := h63 s List.mem_cons_self
    rw [appendFqdn] at h
    split at h
    · cases h
    · cases h
      exact .none hle
    · next location _ =>
      have happ := appended_u16 hlen hle (location ||| nameRef)
      rwa [Option.some.inj h] at happ
    · have hstr := appended_string hlen hle hs
      cases hput : appendString o s with
      | mk written o₁ =>
        rw [hput] at h hstr
        dsimp only at h hstr
        split_ifs at h with hzero
        · cases h
          rwa [hzero] at hstr
        · obtain ⟨⟨m, o₂⟩, hrest, h⟩ := Option.bind_eq_some_iff.1 h
          cases h
          have hrest := ih (hstr.length.trans hlen) hstr.le
            (fun s hs => h63 s (List.mem_cons_of_mem _ hs)) hrest
          have hall := hstr.trans hrest
          have hmax := hall.le
          rw [hall.index, maxPacketSize] at hmax
          rwa [Nat.mod_eq_of_lt (by omega)]

/-! ### Names of the responder -/

/-- A label: a string of 1 to 63 bytes, which is not the mark of a subtype. -/
structure IsPart (s : List Byte) : Prop where
  ne_nil : s ≠ []
  le : s.length ≤ 63
  nul : 0 ∉ s
  notSub : fold s ≠ fold subStr

/-- The forms of a name that the responder uses. -/
inductive Fqdn : List (List Byte) → Prop
  | host {host : List Byte} (hhost : IsPart host) : Fqdn [host, defaultDomain]
  | service {service proto : List Byte} (hservice : IsPart service) (hproto : IsPart proto)
      (hs : service.head? = some underscore) (hp : proto.head? = some underscore) :
      Fqdn [service, proto, defaultDomain]
  | inst {instance_ service proto : List Byte} (hinst : IsPart instance_)
      (hservice : IsPart service) (hproto : IsPart proto)
      (hs : service.head? = some underscore) (hp : proto.head? = some underscore) :
      Fqdn [instance_, service, proto, defaultDomain]

lemma isPart_defaultDomain : IsPart defaultDomain := by
  refine ⟨?_, ?_, ?_, ?_⟩ <;> decide

lemma Fqdn.isPart (h : Fqdn strings) : ∀ s ∈ strings, IsPart s := by
  cases h with
  | host hhost =>
    simp only [List.forall_mem_cons]
    exact ⟨hhost, isPart_defaultDomain, fun s hs => absurd hs List.not_mem_nil⟩
  | service hservice hproto hs hp =>
    simp only [List.forall_mem_cons]
    exact ⟨hservice, hproto, isPart_defaultDomain, fun s hs => absurd hs List.not_mem_nil⟩
  | inst hinst hservice hproto hs hp =>
    simp only [List.forall_mem_cons]
    exact ⟨hinst, hservice, hproto, isPart_defaultDomain, fun s hs => absurd hs List.not_mem_nil⟩

lemma Fqdn.length_le (h : Fqdn strings) : strings.length ≤ 4 := by
  cases h <;> simp

/-- The second label is never joined to the first one. -/
lemma Fqdn.exempt (h : Fqdn strings) (hs : strings[1]? = some s) : Exempt s := by
  cases h with
  | host hhost =>
    cases hs
    exact .inr (.inl rfl)
  | service hservice hproto hs' hp =>
    cases hs
    exact .inl hp
  | inst hinst hservice hproto hs' hp =>
    cases hs
    exact .inl hs'

/-! ### The search -/

/-- The string stands at the place with its length in front, as far as the buffer goes. -/
def StandsAt (packet s : List Byte) (location : ℕ) : Prop :=
  packet[location]? = some (BitVec.ofNat 8 s.length) ∧
    (packet.drop (location + 1)).take s.length <+: s

/-- Wherever the search finds the first string within the first `q` bytes, a name stands in these
bytes; and if it is the one looked for, it stands before the place `start`. -/
def ClearFor (q start : ℕ) (packet s : List Byte) (rest : List (List Byte)) : Prop :=
  ∀ location < q, StandsAt packet s location → ∃ pos r,
    readFqdn (packet.take q) location 0 ⟨.cleared false, []⟩ = (.found pos, r) ∧
      (r.name.IsOf (s :: rest) → location < start)

/-- Each search that is made for a part of the name has nothing in its way; `start` is the place
where the whole name begins. -/
def Clear (stack : ℕ → Bool) (start : ℕ) : Out → List (List Byte) → Prop
  | _, [] => True
  | o, s :: rest =>
    ClearFor o.index start o.packet s rest ∧
    (search o.packet s rest o.index 0 (stack (rest.length + 1)) = .missing →
      Clear stack start ⟨putBytes o.packet o.index (labelBytes s), o.index + (s.length + 1)⟩ rest)

/-- The bytes of a name, without and with the pointer for a part that is found. -/
def plainSize (strings : List (List Byte)) : ℕ := (strings.map fun s => s.length + 1).sum + 1

def encodedSize (stack : ℕ → Bool) : Out → List (List Byte) → ℕ
  | _, [] => 1
  | o, s :: rest =>
    if search o.packet s rest o.index 0 (stack (rest.length + 1)) = .missing then
      s.length + 1 +
        encodedSize stack ⟨putBytes o.packet o.index (labelBytes s), o.index + (s.length + 1)⟩ rest
    else 2

/-- The bytes that the first step needs: a pointer, or a label and the byte behind it. -/
def firstSize (stack : ℕ → Bool) : Out → List (List Byte) → ℕ
  | _, [] => 1
  | o, s :: rest =>
    if search o.packet s rest o.index 0 (stack (rest.length + 1)) = .missing then s.length + 2
    else 2

lemma encodedSize_le (hlabel : ∀ s ∈ strings, s ≠ []) :
    encodedSize stack o strings ≤ plainSize strings := by
  induction strings generalizing o with
  | nil => exact le_rfl
  | cons s rest ih =>
    have hs := List.length_pos_iff.2 (hlabel s List.mem_cons_self)
    have hrest := ih (o := ⟨putBytes o.packet o.index (labelBytes s), o.index + (s.length + 1)⟩)
      fun s hs => hlabel s (List.mem_cons_of_mem _ hs)
    rw [plainSize] at hrest ⊢
    rw [encodedSize, List.map_cons, List.sum_cons]
    split <;> omega

lemma encodedSize_pos : 0 < encodedSize stack o strings := by
  cases strings with
  | nil => exact Nat.one_pos
  | cons s rest =>
    rw [encodedSize]
    split <;> omega

lemma Reader.isOf_check (r : Reader) :
    r.check.name.IsOf strings ↔ r.name.IsOf strings := by
  rw [Name.IsOf, Name.IsOf, check_parts, check_fields]

/-- What is read along a chain, as far as its fields are concerned. -/
lemma Chain.isOf {labels : List (List Byte)} {start index pos : ℕ}
    (h : Chain packet start index labels pos) (strings : List (List Byte)) (r : Reader) :
    ∃ r', readFqdn packet start index r = (.found pos, r') ∧
      (r'.name.IsOf strings ↔ (labels.foldl Reader.step r).name.IsOf strings) := by
  obtain ⟨r', hr', h | h⟩ := h.read r
  · exact ⟨r', hr', by rw [h]⟩
  · exact ⟨r', hr', by rw [h, Reader.isOf_check]⟩

/-- A chain that begins with a length begins with the label behind it. -/
lemma Chain.first {labels : List (List Byte)} {start index pos : ℕ} {b : Byte}
    (h : Chain packet start index labels pos) (hb : packet[start + index]? = some b)
    (h0 : b.toNat ≠ 0) (h63 : b.toNat ≤ 63) :
    start + index + 1 + b.toNat ≤ packet.length ∧ ∃ labels',
      labels = (packet.drop (start + index + 1)).take b.toNat :: labels' := by
  cases h with
  | last h =>
    rw [h] at hb
    cases hb
    exact absurd rfl h0
  | label h _ _ hfits next =>
    rw [h] at hb
    cases hb
    exact ⟨hfits, _, rfl⟩
  | pointer h h192 _ _ _ =>
    rw [h] at hb
    cases hb
    omega

/-- A place where a string stands begins a name with it. -/
lemma ClearFor.chain {q start : ℕ} (h : ClearFor q start packet s rest) (hs : s ≠ [])
    (h63 : s.length ≤ 63) (hq : location < q) (hstands : StandsAt packet s location) :
    (packet.drop (location + 1)).take s.length = s ∧ ∃ labels pos,
      Chain (packet.take q) location 0 (s :: labels) pos ∧
      (((s :: labels).foldl Reader.step ⟨.cleared false, []⟩).name.IsOf (s :: rest) →
        location < start) := by
  obtain ⟨pos, r, hread, hbefore⟩ := h location hq hstands
  obtain ⟨labels, hchain⟩ := exists_chain _ _ _ _ _ _ hread
  obtain ⟨r₁, hr₁, hiff⟩ := hchain.isOf (s :: rest) ⟨.cleared false, []⟩
  rw [hread] at hr₁
  cases hr₁
  have hlen : (BitVec.ofNat 8 s.length).toNat = s.length := by
    rw [BitVec.toNat_ofNat, Nat.mod_eq_of_lt (by omega)]
  have hpos := List.length_pos_iff.2 hs
  have hget : (packet.take q)[location + 0]? = some (BitVec.ofNat 8 s.length) := by
    rw [Nat.add_zero, List.getElem?_take_of_lt hq, hstands.1]
  obtain ⟨hfits, labels', hlabels⟩ := hchain.first hget (by omega) (by omega)
  rw [hlen, Nat.add_zero, List.length_take] at hfits
  have hcontent : (packet.drop (location + 1)).take s.length = s := by
    refine hstands.2.eq_of_length ?_
    rw [List.length_take, List.length_drop]
    omega
  have hlabel : ((packet.take q).drop (location + 1)).take s.length = s := by
    rw [List.drop_take, List.take_take, Nat.min_eq_left (by omega), hcontent]
  rw [hlen, Nat.add_zero, hlabel] at hlabels
  subst hlabels
  exact ⟨hcontent, labels', pos, hchain, fun hisOf => hbefore (hiff.2 hisOf)⟩

/-- A place where a part of a name has been found. -/
def Found (packet s : List Byte) (rest : List (List Byte)) (location : ℕ) : Prop :=
  ∃ labels pos, Chain packet location 0 (s :: labels) pos ∧
    ((s :: labels).foldl Reader.step ⟨.cleared false, []⟩).name.IsOf (s :: rest)

/-- With nothing in its way the search ends well. -/
lemma search_spec {q start : ℕ} (h : ClearFor q start packet s rest) (hs : s ≠ [])
    (h63 : s.length ≤ 63) : ∀ (n location : ℕ) (invalid : Bool), location + n = q →
      search packet s rest n location invalid = .missing ∨
      ∃ l < start, search packet s rest n location invalid = .found l ∧
        Found (packet.take q) s rest l := by
  intro n
  induction n with
  | zero => exact fun _ _ _ => .inl rfl
  | succ n ih =>
    intro location invalid hq
    rw [search]
    split
    · exact ih _ _ (by omega)
    · next hlength =>
      rw [not_not] at hlength
      dsimp only
      split
      · next hcontent =>
        obtain ⟨-, labels, pos, hchain, hbefore⟩ := h.chain hs h63 (by omega)
          ⟨hlength, hcontent.symm ▸ List.prefix_refl s⟩
        -- the same labels are read in the whole buffer, whatever stands in `invalid`
        have hwhole : Chain packet location 0 (s :: labels) pos := hchain.of_take rfl
        obtain ⟨r', hr', hiff⟩ := hwhole.isOf (s :: rest) ⟨.cleared invalid, []⟩
        rw [hr']
        dsimp only
        split
        · next hisOf =>
          have hvalid : invalid = false := by
            by_contra hinvalid
            rw [Bool.not_eq_false] at hinvalid
            subst hinvalid
            have hzero := Reader.foldl_invalid (s :: labels) (r := ⟨.cleared true, []⟩) rfl rfl
            have hparts := (hiff.1 hisOf).1
            rw [hzero] at hparts
            cases hparts
          subst hvalid
          have hfold := hiff.1 hisOf
          exact .inr ⟨location, hbefore hfold, rfl, labels, pos, hchain, hfold⟩
        · exact ih _ _ (by omega)
      · next hdiffers =>
        split
        · next hcut =>
          exact absurd (h.chain hs h63 (by omega) ⟨hlength, hcut.2⟩).1 hdiffers
        · exact ih _ _ (by omega)

lemma search_skip {k n location : ℕ} {invalid : Bool}
    (h : ∀ i < k, packet[location + i]? ≠ some (BitVec.ofNat 8 s.length)) :
    search packet s rest (k + n) location invalid =
      search packet s rest n (location + k) invalid := by
  induction k generalizing location with
  | zero => rw [Nat.zero_add, Nat.add_zero]
  | succ k ih =>
    have hzero := h 0 (Nat.succ_pos k)
    rw [Nat.add_zero] at hzero
    rw [Nat.add_right_comm, search, if_pos hzero, ih, Nat.add_assoc, Nat.add_comm 1]
    intro i hi
    rw [Nat.add_assoc, Nat.add_comm 1]
    exact h (i + 1) (Nat.succ_lt_succ hi)

/-! ### A pointer -/

lemma pointer_bytes {l : ℕ} (h : l < 16384) :
    192 ≤ (BitVec.ofNat 8 ((l ||| nameRef) >>> 8)).toNat ∧
      address (BitVec.ofNat 8 ((l ||| nameRef) >>> 8)) (BitVec.ofNat 8 (l ||| nameRef)) = l := by
  have hor : l ||| nameRef = 49152 + l := by
    rw [Nat.or_comm]
    exact (Nat.shiftLeft_add_eq_or_of_lt (i := 14) h 3).symm
  have hhigh : (BitVec.ofNat 8 ((l ||| nameRef) >>> 8)).toNat = 192 + l / 256 := by
    rw [BitVec.toNat_ofNat, hor, Nat.shiftRight_eq_div_pow]
    omega
  have hlow : (BitVec.ofNat 8 (l ||| nameRef)).toNat = l % 256 := by
    rw [BitVec.toNat_ofNat, hor]
    omega
  refine ⟨by omega, ?_⟩
  have hmask : (192 + l / 256) &&& 0x3f = l / 256 := by
    rw [show 0x3f = 2 ^ 6 - 1 from rfl, Nat.and_two_pow_sub_one_eq_mod]
    omega
  rw [address, hhigh, hlow, hmask, ← Nat.shiftLeft_add_eq_or_of_lt (Nat.mod_lt _ (by decide)),
    Nat.shiftLeft_eq]
  omega

/-- A pointer that is put leads on along the chain that has been found. -/
lemma chain_of_pointer {labels : List (List Byte)} {start index l pos : ℕ}
    (hlen : o.packet.length = maxPacketSize) (hfits : o.index + 2 ≤ maxPacketSize)
    (hindex : start + index = o.index) (hl : l < start)
    (hchain : Chain (o.packet.take o.index) l 0 labels pos) :
    ∃ o', appendU16 o (l ||| nameRef) = (2, o') ∧ o'.index = o.index + 2 ∧
      Chain o'.packet start index labels (o.index + 2) := by
  have hmax : maxPacketSize < 16384 := by decide
  obtain ⟨h192, haddr⟩ := pointer_bytes (l := l) (by omega)
  refine ⟨_, appendU16_eq (by omega) hlen _, rfl, ?_⟩
  dsimp only
  generalize hb : BitVec.ofNat 8 ((l ||| nameRef) >>> 8) = b at h192 haddr ⊢
  generalize BitVec.ofNat 8 (l ||| nameRef) = low at haddr ⊢
  have hle : o.index ≤ o.packet.length := by omega
  have hdrop := drop_putBytes [b, low] hle
  have hget : (putBytes o.packet o.index [b, low])[start + index]? = some b := by
    rw [hindex, ← List.head?_drop, hdrop]
    rfl
  have hlow : (putBytes o.packet o.index [b, low])[start + index + 1]? = some low := by
    rw [hindex, ← List.head?_drop, ← List.drop_drop, hdrop]
    rfl
  have hsame : (putBytes o.packet o.index [b, low]).take o.index = o.packet.take o.index :=
    take_putBytes hle
  have hnext := hchain.of_take hsame
  rw [← haddr] at hnext hl
  have hpointer := Chain.pointer hget h192 hlow hl hnext
  rwa [hindex] at hpointer

/-! ### The whole name -/

/-- A place that has been found for a part behind the first one stands for it behind other labels
too. -/
lemma visible_of_isOf {labels : List (List Byte)} (hs : IsPart s) (hrest : rest.length ≤ 2)
    (h : ((s :: labels).foldl Reader.step ⟨.cleared false, []⟩).name.IsOf (s :: rest)) :
    (visible (s :: labels)).map fold = (s :: rest).map fold := by
  have hcstr : cstr s = s := cstr_eq_self hs.nul
  have hsub : ¬ IsSub s := by
    rw [IsSub, hcstr]
    exact hs.notSub
  have hfirst : (Reader.step ⟨.cleared false, []⟩ s).name =
      { Name.cleared false with host := s, parts := 1 } :=
    Reader.take_first rfl rfl hs.nul hs.notSub
  rw [List.foldl_cons] at h
  obtain ⟨hparts, hfields⟩ := h
  have hhost : ((labels.foldl Reader.step (Reader.step ⟨.cleared false, []⟩ s)).name.host).length =
      s.length := by
    have hhead := congrArg List.head? hfields
    rw [List.length_cons, Name.fields, List.take_succ_cons, List.map_cons, List.map_cons,
      List.head?_cons, List.head?_cons, Option.some.injEq] at hhead
    have hlen := congrArg List.length hhead
    rwa [length_fold, length_fold] at hlen
  obtain ⟨-, hvisible⟩ := Reader.foldl_visible labels
    (r := Reader.step ⟨.cleared false, []⟩ s) (by rw [hfirst]; exact Nat.one_pos)
    (by rw [hfirst]; rfl)
    (by rw [hfirst]; exact hs.le) (by rw [hparts, List.length_cons]; omega)
    (by rw [hhost, hfirst])
  rw [hparts] at hvisible
  rw [visible_cons hsub, hcstr, ← hfields, hvisible, hfirst]
  rfl

lemma isOf_of_visible {labels : List (List Byte)} (hform : Fqdn strings)
    (h : (visible labels).map fold = strings.map fold) :
    (labels.foldl Reader.step ⟨.cleared false, []⟩).name.IsOf strings := by
  obtain ⟨hparts, hfields⟩ := Reader.foldl_parts labels [] strings
    (r := ⟨.cleared false, []⟩) rfl (fun _ => rfl) rfl
    (by rw [List.length_nil, Nat.zero_add]; exact hform.length_le) (fun _ s hs => hform.exempt hs) h
  rw [List.length_nil, Nat.zero_add] at hparts hfields
  refine ⟨hparts, ?_⟩
  rw [hfields, List.nil_append, h]

/-- The buffer behind a label that is put. -/
def Out.putLabel (o : Out) (s : List Byte) : Out :=
  ⟨putBytes o.packet o.index (labelBytes s), o.index + (s.length + 1)⟩

lemma length_putLabel (hlen : o.packet.length = maxPacketSize)
    (hfits : o.index + s.length + 1 < maxPacketSize) :
    (o.putLabel s).packet.length = maxPacketSize := by
  rw [Out.putLabel, length_putBytes (by simp [labelBytes]; omega), hlen]

/-- The strings have been appended as a chain of labels, which goes on from the place `start`. -/
def Chained (stack : ℕ → Bool) (start : ℕ) (o : Out) (strings : List (List Byte)) : Prop :=
  ∃ n o' labels, appendFqdn stack o strings = some (n, o') ∧
    Chain o'.packet start (o.index - start) labels o'.index ∧
    (visible labels).map fold = strings.map fold

/-- A label is put in front of the chain of what is appended behind it. -/
lemma Chained.cons {start : ℕ} (hlabel : ∀ t ∈ s :: rest, IsPart t)
    (hlen : o.packet.length = maxPacketSize) (hstart : start ≤ o.index)
    (hmissing : search o.packet s rest o.index 0 (stack (rest.length + 1)) = .missing)
    (hfits : o.index + s.length + 1 < maxPacketSize)
    (h : Chained stack start (o.putLabel s) rest) : Chained stack start o (s :: rest) := by
  obtain ⟨n, o', labels, happ, hchain, hvisible⟩ := h
  have hs := hlabel s List.mem_cons_self
  have hput : appendString o s = (s.length + 1, o.putLabel s) := by
    rw [appendString_eq hlen hs.le, if_neg (by omega)]
    rfl
  have hindex : (o.putLabel s).index = o.index + (s.length + 1) := rfl
  refine ⟨(s.length + 1 + n) % 65536, o', s :: labels, ?_, ?_, ?_⟩
  · rw [appendFqdn, hmissing]
    dsimp only
    rw [hput]
    dsimp only
    rw [if_neg (by omega), happ]
    rfl
  · have htake := (appended_fqdn (length_putLabel hlen hfits) (by rw [hindex]; omega)
      (fun s hs => (hlabel s (List.mem_cons_of_mem _ hs)).le) happ).take
    rw [hindex] at htake hchain
    -- the label has been put at the index, and stays there
    have hbytes : o'.packet.drop (start + (o.index - start)) =
        labelBytes s ++ o'.packet.drop (o.index + (s.length + 1)) := by
      have h := congrArg (List.drop o.index) htake
      rw [List.drop_take, List.drop_take, Out.putLabel, drop_putBytes _ (by omega),
        Nat.add_sub_cancel_left] at h
      rw [Nat.add_sub_cancel' hstart,
        ← List.take_append_drop (s.length + 1) (o'.packet.drop o.index), List.drop_drop, h]
      congr 1
      exact List.take_left' (by simp [labelBytes])
    rw [Nat.sub_add_comm hstart] at hchain
    exact Chain.labelBytes hs.ne_nil hs.le hbytes hchain
  · have hsub : ¬ IsSub s := by
      rw [IsSub, cstr_eq_self hs.nul]
      exact hs.notSub
    rw [visible_cons hsub, cstr_eq_self hs.nul, List.map_cons, List.map_cons, hvisible]

/-- What is left to do behind a label for which there is room. -/
lemma fits_putLabel (hfits : o.index + (s.length + 1 + encodedSize stack (o.putLabel s) rest) ≤
    maxPacketSize) : o.index + s.length + 1 < maxPacketSize ∧
      (o.putLabel s).index + encodedSize stack (o.putLabel s) rest ≤ maxPacketSize := by
  have hpos : 0 < encodedSize stack (o.putLabel s) rest := encodedSize_pos
  have hindex : (o.putLabel s).index = o.index + (s.length + 1) := rfl
  omega

/-- A part of at most three strings is appended as a chain of labels that are these strings. -/
lemma chained_of_clear {start : ℕ} (hlabel : ∀ s ∈ strings, IsPart s)
    (hcount : strings.length ≤ 3) (hlen : o.packet.length = maxPacketSize)
    (hstart : start ≤ o.index) (hclear : Clear stack start o strings)
    (hfits : o.index + encodedSize stack o strings ≤ maxPacketSize) :
    Chained stack start o strings := by
  induction strings generalizing o with
  | nil =>
    have hindex : o.index < maxPacketSize := by
      rw [encodedSize] at hfits
      omega
    refine ⟨_, _, [], congrArg some (appendU8_eq hindex 0), ?_, rfl⟩
    have hget : (putBytes o.packet o.index [0])[start + (o.index - start)]? = some 0 := by
      rw [Nat.add_sub_cancel' hstart, ← List.head?_drop, drop_putBytes _ (by omega)]
      rfl
    have hlast := Chain.last hget
    rwa [Nat.add_sub_cancel' hstart] at hlast
  | cons s rest ih =>
    have hs := hlabel s List.mem_cons_self
    rw [Clear] at hclear
    rw [encodedSize] at hfits
    rw [List.length_cons] at hcount
    rcases search_spec hclear.1 hs.ne_nil hs.le o.index 0 (stack (rest.length + 1))
      (Nat.zero_add _) with hmissing | ⟨l, hl, hfound, labels, pos, hchain, hisOf⟩
    · rw [if_pos hmissing] at hfits
      obtain ⟨hfirst, hfits'⟩ := fits_putLabel hfits
      refine .cons hlabel hlen hstart hmissing hfirst (ih
        (fun s hs => hlabel s (List.mem_cons_of_mem _ hs)) (by omega) (length_putLabel hlen hfirst)
        (hstart.trans (Nat.le_add_right _ _)) (hclear.2 hmissing) hfits')
    · rw [hfound, if_neg nofun] at hfits
      obtain ⟨o', happ, hindex, hchain'⟩ := chain_of_pointer hlen hfits
        (Nat.add_sub_cancel' hstart) hl hchain
      refine ⟨2, o', s :: labels, ?_, hindex ▸ hchain', visible_of_isOf hs (by omega) hisOf⟩
      rw [appendFqdn, hfound]
      exact congrArg some happ

lemma Chained.reads_back (hform : Fqdn strings) (h : Chained stack o.index o strings) :
    ∃ n o' r, appendFqdn stack o strings = some (n, o') ∧
      readFqdn o'.packet o.index 0 ⟨.cleared false, []⟩ = (.found o'.index, r) ∧
      r.name.IsOf strings := by
  obtain ⟨n, o', labels, happ, hchain, hvisible⟩ := h
  rw [Nat.sub_self] at hchain
  obtain ⟨r, hr, hiff⟩ := hchain.isOf strings ⟨.cleared false, []⟩
  exact ⟨n, o', r, happ, hr, hiff.2 (isOf_of_visible hform hvisible)⟩

/-- A name that fits is read back as it was appended. -/
lemma reads_back (hform : Fqdn strings) (hlen : o.packet.length = maxPacketSize)
    (hclear : Clear stack o.index o strings)
    (hfits : o.index + encodedSize stack o strings ≤ maxPacketSize) :
    ∃ n o' r, appendFqdn stack o strings = some (n, o') ∧
      readFqdn o'.packet o.index 0 ⟨.cleared false, []⟩ = (.found o'.index, r) ∧
      r.name.IsOf strings := by
  have hlabel := hform.isPart
  by_cases hcount : strings.length ≤ 3
  · exact (chained_of_clear hlabel hcount hlen le_rfl hclear hfits).reads_back hform
  -- of four strings, a place found for all of them is read as it was by the search
  · obtain ⟨s, rest, rfl⟩ := List.exists_cons_of_ne_nil (l := strings) (by
      rintro rfl
      exact hcount (Nat.zero_le 3))
    have hs := hlabel s List.mem_cons_self
    have hfour := hform.length_le
    rw [List.length_cons] at hfour
    rw [Clear] at hclear
    rw [encodedSize] at hfits
    rcases search_spec hclear.1 hs.ne_nil hs.le o.index 0 (stack (rest.length + 1))
      (Nat.zero_add _) with hmissing | ⟨l, hl, hfound, labels, pos, hchain, hisOf⟩
    · rw [if_pos hmissing] at hfits
      obtain ⟨hfirst, hfits'⟩ := fits_putLabel hfits
      have hrest : Chained stack o.index (o.putLabel s) rest := chained_of_clear
        (fun s hs => hlabel s (List.mem_cons_of_mem _ hs)) (by omega) (length_putLabel hlen hfirst)
        (Nat.le_add_right _ _) (hclear.2 hmissing) hfits'
      exact (Chained.cons hlabel hlen le_rfl hmissing hfirst hrest).reads_back hform
    · rw [hfound, if_neg nofun] at hfits
      obtain ⟨o', happ, hindex, hchain'⟩ := chain_of_pointer hlen hfits (Nat.add_zero _) hl hchain
      obtain ⟨r, hr, hiff⟩ := hchain'.isOf (s :: rest) ⟨.cleared false, []⟩
      refine ⟨2, o', r, ?_, hindex ▸ hr, hiff.2 hisOf⟩
      rw [appendFqdn, hfound]
      exact congrArg some happ

/-- A step for which there is no room returns 0. -/
lemma append_full (hlabel : ∀ s ∈ strings, IsPart s) (hlen : o.packet.length = maxPacketSize)
    {start : ℕ} (hclear : Clear stack start o strings)
    (hfull : maxPacketSize < o.index + firstSize stack o strings) :
    appendFqdn stack o strings = some (0, o) := by
  cases strings with
  | nil =>
    rw [firstSize] at hfull
    exact congrArg some (if_pos (by omega))
  | cons s rest =>
    have hs := hlabel s List.mem_cons_self
    rw [Clear] at hclear
    rw [firstSize] at hfull
    rcases search_spec hclear.1 hs.ne_nil hs.le o.index 0 (stack (rest.length + 1))
      (Nat.zero_add _) with hmissing | ⟨l, -, hfound, -⟩
    · rw [if_pos hmissing] at hfull
      have hput : appendString o s = (0, o) := by
        rw [appendString_eq hlen hs.le, if_pos (by omega)]
      rw [appendFqdn, hmissing]
      dsimp only
      rw [hput]
      rfl
    · rw [hfound, if_neg nofun] at hfull
      rw [appendFqdn, hfound]
      exact congrArg some (if_pos (by omega))

/-- A header of zeros, the name "esp.local" and zeros. -/
def espPacket : List Byte :=
  List.replicate 12 0 ++ labelBytes [0x65, 0x73, 0x70] ++ labelBytes defaultDomain ++
    List.replicate 1438 0

lemma length_espPacket : espPacket.length = maxPacketSize := by
  rw [espPacket, List.length_append, List.length_replicate]
  rfl

lemma chain_espPacket : Chain espPacket 12 0 [[0x65, 0x73, 0x70], defaultDomain] 23 := by
  have hhost : espPacket.drop 12 =
      labelBytes [0x65, 0x73, 0x70] ++ (labelBytes defaultDomain ++ List.replicate 1438 0) := rfl
  have hdomain : espPacket.drop (12 + 4) = labelBytes defaultDomain ++ List.replicate 1438 0 := rfl
  have hend : Chain espPacket 12 10 [] 23 := .last (show espPacket[12 + 10]? = some 0 by decide)
  exact .labelBytes (by decide) (by decide) hhost (.labelBytes (by decide) (by decide) hdomain hend)

end EspIdf.Mdns
