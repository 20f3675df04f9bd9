/-
# The labels of a name in a packet

The way through a packet does not depend on the name that is read.  A name is a list of labels,
which are taken one after the other.
-/
import EspIdf.Mdns.Append

namespace EspIdf.Mdns

open Lib

variable {packet rest : List Byte} {start index pos : ℕ} {r : Reader} {b low : Byte}
  {labels : List (List Byte)}

/-! ### Chains -/

/-- The labels from `start + index` on, and the place behind the name there. -/
inductive Chain (packet : List Byte) : ℕ → ℕ → List (List Byte) → ℕ → Prop
  | last {start index : ℕ} (h : packet[start + index]? = some 0) :
      Chain packet start index [] (start + index + 1)
  | label {start index pos : ℕ} {b : Byte} {labels : List (List Byte)}
      (h : packet[start + index]? = some b) (h0 : b.toNat ≠ 0) (h63 : b.toNat ≤ 63)
      (hfits : start + index + 1 + b.toNat ≤ packet.length)
      (next : Chain packet start (index + 1 + b.toNat) labels pos) :
      Chain packet start index ((packet.drop (start + index + 1)).take b.toNat :: labels) pos
  | pointer {start index pos : ℕ} {b low : Byte} {labels : List (List Byte)}
      (h : packet[start + index]? = some b) (h192 : 192 ≤ b.toNat)
      (hlow : packet[start + index + 1]? = some low) (hback : address b low < start)
      (next : Chain packet (address b low) 0 labels pos) :
      Chain packet start index labels (start + index + 2)

/-- What is done with a label in a pass of the loop. -/
def Reader.step (r : Reader) (label : List Byte) : Reader := r.check.take label

lemma Reader.check_check (r : Reader) : r.check.check = r.check := by
  unfold Reader.check
  by_cases h : r.name.parts = 4
  · simp [h]
  · simp [h]

lemma Reader.foldl_check (r : Reader) (labels : List (List Byte)) :
    labels.foldl Reader.step r.check = labels.foldl Reader.step r ∨
      labels.foldl Reader.step r.check = (labels.foldl Reader.step r).check := by
  cases labels with
  | nil => exact .inr rfl
  | cons label labels =>
    left
    rw [List.foldl_cons, List.foldl_cons, Reader.step, Reader.check_check]
    rfl

/-- Whatever has been read before, the labels of the chain are taken. -/
lemma Chain.read (h : Chain packet start index labels pos) : ∀ r : Reader,
    ∃ r', readFqdn packet start index r = (.found pos, r') ∧
      (r' = labels.foldl Reader.step r ∨ r' = (labels.foldl Reader.step r).check) := by
  induction h with
  | last h => exact fun r => ⟨r, readFqdn_last h r, .inl rfl⟩
  | label h h0 h63 hfits next ih =>
    intro r
    rw [readFqdn_label h h0 h63 hfits]
    exact ih _
  | pointer h h192 hlow hback next ih =>
    intro r
    obtain ⟨r', hr', hfold⟩ := ih r.check
    rw [readFqdn_eq h, if_neg (by omega), if_neg (by omega), hlow]
    dsimp only
    rw [if_neg (Nat.not_le.2 hback), hr']
    refine ⟨r', rfl, ?_⟩
    rcases Reader.foldl_check r _ with hcheck | hcheck
    · rwa [hcheck] at hfold
    · rw [hcheck, Reader.check_check, or_self] at hfold
      exact .inr hfold

/-- What is read to its end is a chain. -/
lemma exists_chain (packet : List Byte) (start index : ℕ) (r : Reader) : ∀ pos r',
    readFqdn packet start index r = (.found pos, r') →
      ∃ labels, Chain packet start index labels pos := by
  fun_induction readFqdn packet start index r with
  | case1 start index r hlt len hzero =>
    intro pos r' h
    cases h
    refine ⟨[], .last ?_⟩
    rw [List.getElem?_eq_getElem hlt]
    exact congrArg some (BitVec.eq_of_toNat_eq hzero)
  | case2 =>
    intro pos r' h
    cases h
  | case3 start index r hlt len hzero r₀ hlow hlong hfits ih =>
    intro pos r' h
    obtain ⟨labels, hchain⟩ := ih pos r' h
    exact ⟨_, .label (List.getElem?_eq_getElem hlt) hzero (Nat.not_lt.1 hlong) hfits hchain⟩
  | case4 =>
    intro pos r' h
    cases h
  | case5 =>
    intro pos r' h
    cases h
  | case6 =>
    intro pos r' h
    cases h
  | case7 start index r hlt len hzero r₀ hhigh low hlow addr hback pos₁ r₁ heq ih =>
    intro pos r' h
    cases h
    obtain ⟨labels, hchain⟩ := ih pos₁ r₁ heq
    exact ⟨labels, .pointer (List.getElem?_eq_getElem hlt) (Nat.not_lt.1 hhigh) hlow
      (Nat.not_le.1 hback) hchain⟩
  | case8 start index r hlt len hzero r₀ hhigh low hlow addr hback outcome r₁ hnot heq ih =>
    intro pos r' h
    cases h
    exact absurd rfl (hnot pos)
  | case9 =>
    intro pos r' h
    cases h

/-- Bytes behind those of the chain do not matter. -/
lemma Chain.append (h : Chain packet start index labels pos) (rest : List Byte) :
    Chain (packet ++ rest) start index labels pos := by
  have hget : ∀ {i : ℕ} {b : Byte}, packet[i]? = some b → (packet ++ rest)[i]? = some b := by
    intro i b hb
    rw [List.getElem?_append_left (List.getElem?_eq_some_iff.1 hb).1, hb]
  induction h with
  | last h => exact .last (hget h)
  | @label start index pos b labels h h0 h63 hfits next ih =>
    have hlabel : ((packet ++ rest).drop (start + index + 1)).take b.toNat =
        (packet.drop (start + index + 1)).take b.toNat := by
      rw [List.drop_append_of_le_length (by omega), List.take_append_of_le_length]
      rw [List.length_drop]
      omega
    rw [← hlabel]
    exact .label (hget h) h0 h63 (by rw [List.length_append]; omega) ih
  | pointer h h192 hlow hback next ih => exact .pointer (hget h) h192 (hget hlow) hback ih

/-- A chain within the first bytes of a packet is one in each packet that begins with them. -/
lemma Chain.of_take {packet' : List Byte} {q : ℕ} (h : Chain (packet.take q) start index labels pos)
    (htake : packet'.take q = packet.take q) : Chain packet' start index labels pos := by
  have happ := h.append (packet'.drop q)
  rwa [← htake, List.take_append_drop] at happ

/-- A label that has been put. -/
lemma Chain.labelBytes {string : List Byte} (hpos : string ≠ []) (h63 : string.length ≤ 63)
    (hput : packet.drop (start + index) = Mdns.labelBytes string ++ rest)
    (next : Chain packet start (index + (string.length + 1)) labels pos) :
    Chain packet start index (string :: labels) pos := by
  have hlen : (BitVec.ofNat 8 string.length).toNat = string.length := by
    rw [BitVec.toNat_ofNat, Nat.mod_eq_of_lt (by omega)]
  have hget : packet[start + index]? = some (BitVec.ofNat 8 string.length) := by
    rw [← List.head?_drop, hput]
    rfl
  have htail : packet.drop (start + index + 1) = string ++ rest := by
    rw [← List.drop_drop, hput]
    rfl
  have hfits : string.length ≤ packet.length - (start + index + 1) := by
    rw [← List.length_drop, htail, List.length_append]
    omega
  have hpos' := List.length_pos_iff.2 hpos
  have hnext :
      Chain packet start (index + 1 + (BitVec.ofNat 8 string.length).toNat) labels pos := by
    rwa [hlen, Nat.add_assoc, Nat.add_comm 1]
  have hchain := Chain.label hget (by omega) (by omega) (by omega) hnext
  rwa [hlen, htail, List.take_left] at hchain

/-! ### Fields -/

/-- The fields of a name in the order of `mdns_name_t`. -/
def Name.fields (name : Name) : List (List Byte) :=
  [name.host, name.service, name.proto, name.domain]

lemma Name.fields_set {i : ℕ} (h : i < 4) (name : Name) (s : List Byte) :
    (name.set i s).fields = name.fields.set i s := by
  interval_cases i <;> rfl

/-- The label marks a subtype, and is not put into a field. -/
def IsSub (label : List Byte) : Prop := fold (cstr label) = fold subStr

instance (label : List Byte) : Decidable (IsSub label) :=
  inferInstanceAs (Decidable (fold (cstr label) = fold subStr))

/-- The strings that the labels put into fields. -/
def visible (labels : List (List Byte)) : List (List Byte) :=
  (labels.filter fun label => ¬ IsSub label).map cstr

/-- A second label that is not joined to the host. -/
def Exempt (s : List Byte) : Prop :=
  s.head? = some underscore ∨ fold s = fold defaultDomain ∨ fold s = fold ip6 ∨
    fold s = fold inAddr

lemma visible_cons_sub {label : List Byte} (h : IsSub label) (labels : List (List Byte)) :
    visible (label :: labels) = visible labels := by
  rw [visible, List.filter_cons_of_neg (by simpa using h), visible]

lemma visible_cons {label : List Byte} (h : ¬ IsSub label) (labels : List (List Byte)) :
    visible (label :: labels) = cstr label :: visible labels := by
  rw [visible, List.filter_cons_of_pos (by simpa using h), List.map_cons, visible]

lemma head_cstr {label : List Byte} {c : Byte} (h : (cstr label).head? = some c) :
    (label ++ [0]).head? = some c := by
  cases label with
  | nil => cases h
  | cons d label =>
    rw [cstr, List.takeWhile_cons] at h
    split at h
    · exact h
    · cases h

lemma toLower_eq_underscore : ∀ c : Byte, toLower c = underscore ↔ c = underscore := by
  decide

lemma head_of_fold {s t : List Byte} (h : fold s = fold t) (ht : t.head? = some underscore) :
    s.head? = some underscore := by
  cases t with
  | nil => cases ht
  | cons d t =>
    cases s with
    | nil => cases h
    | cons c s =>
      obtain rfl : d = underscore := Option.some.inj ht
      have hc : toLower c = underscore := (List.cons.inj h).1.trans (by decide)
      rw [(toLower_eq_underscore c).1 hc]
      rfl

/-- The condition under which a label is joined to the host. -/
def Joins (r : Reader) (label : List Byte) : Prop :=
  r.name.parts = 1 ∧ (label ++ [0]).head? ≠ some underscore ∧
    fold (cstr label) ≠ fold defaultDomain ∧ fold (cstr label) ≠ fold ip6 ∧
    fold (cstr label) ≠ fold inAddr

instance (r : Reader) (label : List Byte) : Decidable (Joins r label) :=
  inferInstanceAs (Decidable (_ ∧ _))

lemma IsSub.not_joins {label : List Byte} (h : IsSub label) (r : Reader) : ¬ Joins r label :=
  fun hjoin => hjoin.2.1 (head_cstr (head_of_fold h rfl))

lemma Exempt.not_joins {label s : List Byte} (h : Exempt s) (hs : fold (cstr label) = fold s)
    (r : Reader) : ¬ Joins r label := by
  rintro ⟨-, hhead, hdomain, hip6, haddr⟩
  rcases h with h | h | h | h
  · exact hhead (head_cstr (head_of_fold hs h))
  · exact hdomain (hs.trans h)
  · exact hip6 (hs.trans h)
  · exact haddr (hs.trans h)

/-! ### One label -/

lemma Reader.check_of_lt (h : r.name.parts < 4) : r.check = r := if_neg (by omega)

@[simp] lemma Reader.check_parts (r : Reader) : r.check.name.parts = r.name.parts := by
  unfold Reader.check
  split <;> rfl

@[simp] lemma Reader.check_fields (r : Reader) : r.check.name.fields = r.name.fields := by
  unfold Reader.check
  split <;> rfl

/-- The ways of a label into the name. -/
lemma Reader.take_name (r : Reader) (label : List Byte) : (r.take label).name =
    if Joins r label then
      { r.name with
        host := strlcat (strlcat r.name.host [dot] nameBufLen) (cstr label) nameBufLen }
    else if IsSub label then { r.name with sub := true }
    else if r.name.invalid = false then
      { r.name.set r.name.parts (cstr label) with parts := r.name.parts + 1 }
    else r.name := by
  unfold Reader.take
  dsimp only
  split
  · next h =>
    rw [if_pos (show Joins r label from h)]
    rfl
  · next h =>
    rw [if_neg (show ¬ Joins r label from h)]
    split
    · next h =>
      rw [if_pos (show IsSub label from h)]
      rfl
    · next h =>
      rw [if_neg (show ¬ IsSub label from h)]
      split
      · next h =>
        rw [if_pos (show r.name.invalid = false from h)]
        rfl
      · next h =>
        rw [if_neg (show ¬ r.name.invalid = false from h)]
        rfl

lemma Reader.take_joins {label : List Byte} (h : Joins r label) : (r.take label).name =
    { r.name with
      host := strlcat (strlcat r.name.host [dot] nameBufLen) (cstr label) nameBufLen } := by
  rw [take_name, if_pos h]

lemma Reader.take_sub {label : List Byte} (h : IsSub label) :
    (r.take label).name = { r.name with sub := true } := by
  rw [take_name, if_neg (h.not_joins r), if_pos h]

lemma Reader.take_part {label : List Byte} (hjoin : ¬ Joins r label) (hsub : ¬ IsSub label)
    (hvalid : r.name.invalid = false) : (r.take label).name =
      { r.name.set r.name.parts (cstr label) with parts := r.name.parts + 1 } := by
  rw [take_name, if_neg hjoin, if_neg hsub, if_pos hvalid]

lemma Reader.take_invalid {label : List Byte} (hjoin : ¬ Joins r label) (hsub : ¬ IsSub label)
    (hvalid : r.name.invalid = true) : (r.take label).name = r.name := by
  rw [take_name, if_neg hjoin, if_neg hsub, if_neg (by rw [hvalid]; decide)]

/-- No label takes a part away, and none behind the first one shortens the host. -/
lemma Reader.step_mono (r : Reader) (label : List Byte) :
    r.name.parts ≤ (r.step label).name.parts ∧
      (0 < r.name.parts → r.name.host.length ≤ (r.step label).name.host.length) := by
  have hhost : r.check.name.host = r.name.host := by
    unfold Reader.check
    split <;> rfl
  rw [Reader.step]
  by_cases hjoin : Joins r.check label
  · rw [take_joins hjoin]
    refine ⟨by simp, fun _ => ?_⟩
    rw [hhost]
    have hcat : ∀ dst src : List Byte, dst.length ≤ (strlcat dst src nameBufLen).length := by
      intro dst src
      rw [strlcat]
      split
      · exact le_rfl
      · rw [List.length_append]
        omega
    exact (hcat _ _).trans (hcat _ _)
  · by_cases hsub : IsSub label
    · rw [take_sub hsub]
      exact ⟨by simp, fun _ => by rw [hhost]⟩
    · cases hvalid : r.check.name.invalid with
      | false =>
        rw [take_part hjoin hsub hvalid]
        refine ⟨by simp, fun hpos => ?_⟩
        rw [← hhost, check_parts]
        have hset : ∀ i, 0 < i → (r.check.name.set i (cstr label)).host = r.check.name.host := by
          intro i hi
          unfold Name.set
          split
          · omega
          all_goals rfl
        exact (congrArg List.length (hset _ hpos)).ge
      | true =>
        rw [take_invalid hjoin hsub hvalid]
        exact ⟨by simp, fun _ => by rw [hhost]⟩

lemma Reader.foldl_mono (labels : List (List Byte)) (r : Reader) :
    r.name.parts ≤ (labels.foldl Reader.step r).name.parts ∧
      (0 < r.name.parts →
        r.name.host.length ≤ (labels.foldl Reader.step r).name.host.length) := by
  induction labels generalizing r with
  | nil => exact ⟨le_rfl, fun _ => le_rfl⟩
  | cons label labels ih =>
    obtain ⟨h1, h2⟩ := r.step_mono label
    obtain ⟨h3, h4⟩ := ih (r.step label)
    exact ⟨h1.trans h3, fun hpos => (h2 hpos).trans (h4 (hpos.trans_le h1))⟩

/-! ### All labels -/

lemma Reader.step_fields_sub {label : List Byte} (h : IsSub label) (r : Reader) :
    (r.step label).name.parts = r.name.parts ∧ (r.step label).name.fields = r.name.fields ∧
      (r.name.parts < 4 → (r.step label).name.invalid = r.name.invalid) := by
  rw [step, take_sub h]
  refine ⟨r.check_parts, r.check_fields, fun hlt => ?_⟩
  rw [check_of_lt hlt]

lemma Reader.step_fields_part {label : List Byte} (hlt : r.name.parts < 4)
    (hvalid : r.name.invalid = false) (hjoin : ¬ Joins r label) (hsub : ¬ IsSub label) :
    (r.step label).name.parts = r.name.parts + 1 ∧
      (r.step label).name.fields = r.name.fields.set r.name.parts (cstr label) ∧
      (r.step label).name.invalid = false := by
  have hset : (r.name.set r.name.parts (cstr label)).invalid = r.name.invalid := by
    unfold Name.set
    split <;> rfl
  rw [step, check_of_lt hlt, take_part hjoin hsub hvalid]
  exact ⟨rfl, r.name.fields_set hlt _, hset.trans hvalid⟩

lemma take_succ_set {l : List (List Byte)} {i : ℕ} (h : i < l.length) (s : List Byte) :
    (l.set i s).take (i + 1) = l.take i ++ [s] := by
  rw [List.take_add_one, List.getElem?_set_self h, List.take_set_of_le le_rfl]
  rfl

lemma length_fields (name : Name) : name.fields.length = 4 := rfl

/-- Labels that are the strings `us` are put behind the parts `done`. -/
lemma Reader.foldl_parts (labels : List (List Byte)) :
    ∀ (done us : List (List Byte)) {r : Reader}, r.name.parts = done.length →
    (r.name.parts < 4 → r.name.invalid = false) →
    r.name.fields.take done.length = done → done.length + us.length ≤ 4 →
    (done.length ≤ 1 → ∀ s, us[1 - done.length]? = some s → Exempt s) →
    (visible labels).map fold = us.map fold →
    (labels.foldl Reader.step r).name.parts = done.length + us.length ∧
      (labels.foldl Reader.step r).name.fields.take (done.length + us.length) =
        done ++ visible labels := by
  induction labels with
  | nil =>
    intro done us r hparts _ hfields _ _ hvisible
    have hnil : us = [] := List.map_eq_nil_iff.1 hvisible.symm
    rw [hnil]
    exact ⟨hparts, hfields.trans (List.append_nil done).symm⟩
  | cons label labels ih =>
    intro done us r hparts hvalid hfields hle hexempt hvisible
    by_cases hsub : IsSub label
    · obtain ⟨h1, h2, h3⟩ := r.step_fields_sub hsub
      rw [visible_cons_sub hsub] at hvisible ⊢
      refine ih done us (h1.trans hparts) (fun hlt => ?_) (h2 ▸ hfields) hle hexempt hvisible
      rw [h1] at hlt
      rw [h3 hlt, hvalid hlt]
    · rw [visible_cons hsub] at hvisible ⊢
      cases us with
      | nil => cases hvisible
      | cons u us =>
        obtain ⟨hu, hrest⟩ := List.cons.inj hvisible
        rw [List.length_cons] at hle ⊢
        have hlt : r.name.parts < 4 := by omega
        have hjoin : ¬ Joins r label := by
          intro hjoin
          have hone : done.length = 1 := hparts.symm.trans hjoin.1
          have hu' : Exempt u := hexempt hone.le u (by rw [hone]; rfl)
          exact hu'.not_joins hu r hjoin
        obtain ⟨h1, h2, h3⟩ := Reader.step_fields_part hlt (hvalid hlt) hjoin hsub
        have hdone : (done ++ [cstr label]).length = done.length + 1 := by simp
        have hstep := ih (done ++ [cstr label]) us (r := r.step label)
          (by rw [h1, hparts, hdone]) (fun _ => h3)
          (by rw [hdone, h2, hparts, take_succ_set (by rw [length_fields]; omega), hfields])
          (by rw [hdone]; omega)
          (fun hone s hs => by
            rw [hdone] at hone hs
            have hzero : done.length = 0 := by omega
            refine hexempt (by omega) s ?_
            rw [hzero] at hs ⊢
            exact hs)
          hrest
        rw [hdone, Nat.add_assoc, Nat.add_comm 1, List.append_assoc] at hstep
        exact hstep

/-- A name that is read with few parts and without a longer host has its labels in its fields. -/
lemma Reader.foldl_visible (labels : List (List Byte)) : ∀ {r : Reader}, 0 < r.name.parts →
    r.name.invalid = false → r.name.host.length ≤ 63 →
    (labels.foldl Reader.step r).name.parts ≤ 3 →
    (labels.foldl Reader.step r).name.host.length = r.name.host.length →
    (labels.foldl Reader.step r).name.parts = r.name.parts + (visible labels).length ∧
      (labels.foldl Reader.step r).name.fields.take
          ((labels.foldl Reader.step r).name.parts) =
        r.name.fields.take r.name.parts ++ visible labels := by
  induction labels with
  | nil =>
    intro r _ _ _ _ _
    exact ⟨rfl, (List.append_nil _).symm⟩
  | cons label labels ih =>
    intro r hpos hvalid hhost hparts hlen
    rw [List.foldl_cons] at hparts hlen ⊢
    obtain ⟨hm1, hm2⟩ := r.step_mono label
    obtain ⟨hm3, hm4⟩ := Reader.foldl_mono labels (r.step label)
    have hm2 := hm2 hpos
    have hm4 := hm4 (hpos.trans_le hm1)
    have hlt : r.name.parts < 4 := by omega
    have hhost' : (r.step label).name.host.length = r.name.host.length := by omega
    have hjoin : ¬ Joins r label := by
      intro hjoin
      rw [step, check_of_lt hlt, take_joins hjoin] at hhost'
      -- the dot alone makes the host longer
      have hdot : strlcat r.name.host [dot] nameBufLen = r.name.host ++ [dot] := by
        rw [strlcat, if_neg (by unfold nameBufLen; omega), List.take_of_length_le]
        unfold nameBufLen
        simp
        omega
      have hcat : (r.name.host ++ [dot]).length ≤
          (strlcat (r.name.host ++ [dot]) (cstr label) nameBufLen).length := by
        rw [strlcat]
        split
        · exact le_rfl
        · generalize r.name.host ++ [dot] = dst
          rw [List.length_append]
          exact Nat.le_add_right _ _
      rw [hdot] at hhost'
      rw [List.length_append, List.length_singleton] at hcat
      dsimp only at hhost'
      omega
    by_cases hsub : IsSub label
    · obtain ⟨h1, h2, h3⟩ := r.step_fields_sub hsub
      have hstep := ih (by rw [h1]; exact hpos) ((h3 hlt).trans hvalid) (by omega) hparts (by omega)
      rw [h1, h2] at hstep
      rwa [visible_cons_sub hsub]
    · obtain ⟨h1, h2, h3⟩ := Reader.step_fields_part hlt hvalid hjoin hsub
      have hstep := ih (by omega) h3 (by omega) hparts (by omega)
      rw [h1, h2, take_succ_set (by rw [length_fields]; omega)] at hstep
      rw [visible_cons hsub, List.length_cons]
      refine ⟨by omega, ?_⟩
      rw [hstep.2, List.append_assoc]
      rfl

/-- Nothing is put into a name that is invalid from the beginning. -/
lemma Reader.foldl_invalid (labels : List (List Byte)) : ∀ {r : Reader}, r.name.parts = 0 →
    r.name.invalid = true → (labels.foldl Reader.step r).name.parts = 0 := by
  induction labels with
  | nil => exact fun h _ => h
  | cons label labels ih =>
    intro r hparts hvalid
    have hjoin : ¬ Joins r label := fun h => by
      have := h.1
      omega
    rw [List.foldl_cons]
    by_cases hsub : IsSub label
    · obtain ⟨h1, -, h3⟩ := r.step_fields_sub hsub
      exact ih (h1.trans hparts) ((h3 (by omega)).trans hvalid)
    · have hname : (r.step label).name = r.name := by
        rw [step, check_of_lt (by omega), take_invalid hjoin hsub hvalid]
      exact ih (by rw [hname, hparts]) (by rw [hname, hvalid])

end EspIdf.Mdns
