/-
# The options of a message

The loop over the options takes a byte for an option and the byte behind it for its length, also
where the first one is a pad, and looks at the value before it has looked at the end.  What it finds
is given by the last message type and the last requested address that it meets.
-/
import EspIdf.Dhcps.Datagrams

namespace EspIdf.Dhcps

open Lib

variable {opt : ℕ → Byte} {len : ℤ} {client fuel pos i : ℕ} {renew : Bool}

/-! ### What is read -/

/-- The places that a round of the loop reads. -/
def roundReads (opt : ℕ → Byte) (pos : ℕ) : List ℕ :=
  pos :: (if opt pos = 53 then [pos + 2] else []) ++
    (if opt pos = 50 then [pos + 2, pos + 3, pos + 4, pos + 5] else []) ++
    (if opt pos = 255 then [] else [pos + 1])

/-- The places that the loop of `parse_options` reads. -/
def readsLoop (opt : ℕ → Byte) (len : ℤ) : ℕ → ℕ → List ℕ
  | 0, _ => []
  | fuel + 1, pos =>
    if (pos : ℤ) < len then
      roundReads opt pos ++
        if opt pos = 255 then [] else readsLoop opt len fuel (pos + (opt (pos + 1)).toNat + 2)
    else []

/-- The places that `parse_options` reads. -/
def parseReads (opt : ℕ → Byte) (len : ℤ) : List ℕ := readsLoop opt len len.toNat 0

/-- On the way from one option to the next, each option has its length byte before the end, a
message type also its value, and a requested address its four bytes. -/
def InsideFrom (opt : ℕ → Byte) (len : ℤ) : ℕ → ℕ → Prop
  | 0, _ => True
  | fuel + 1, pos => (pos : ℤ) < len → opt pos ≠ 255 →
    (pos : ℤ) + 1 < len ∧ (opt pos = 53 → (pos : ℤ) + 2 < len) ∧
      (opt pos = 50 → (pos : ℤ) + 5 < len) ∧
      InsideFrom opt len fuel (pos + (opt (pos + 1)).toNat + 2)

/-- The same from the first option on. -/
def OptionsInside (opt : ℕ → Byte) (len : ℤ) : Prop := InsideFrom opt len len.toNat 0

lemma mem_roundReads : i ∈ roundReads opt pos ↔ i = pos ∨ opt pos = 53 ∧ i = pos + 2 ∨
    opt pos = 50 ∧ (i = pos + 2 ∨ i = pos + 3 ∨ i = pos + 4 ∨ i = pos + 5) ∨
    opt pos ≠ 255 ∧ i = pos + 1 := by
  rw [roundReads]
  simp only [List.cons_append, List.mem_cons, List.mem_append]
  split_ifs <;> simp_all

lemma InsideFrom.next (h : InsideFrom opt len (fuel + 1) pos) (hlt : (pos : ℤ) < len)
    (hend : opt pos ≠ 255) : (pos : ℤ) + 1 < len ∧
      InsideFrom opt len fuel (pos + (opt (pos + 1)).toNat + 2) :=
  ⟨(h hlt hend).1, (h hlt hend).2.2.2⟩

lemma roundReads_lt_iff (h : (pos : ℤ) < len) :
    (∀ i ∈ roundReads opt pos, (i : ℤ) < len) ↔ (opt pos ≠ 255 →
      (pos : ℤ) + 1 < len ∧ (opt pos = 53 → (pos : ℤ) + 2 < len) ∧
        (opt pos = 50 → (pos : ℤ) + 5 < len)) := by
  constructor
  · intro hreads hopt
    have hlength := hreads (pos + 1) (mem_roundReads.2 (.inr (.inr (.inr ⟨hopt, rfl⟩))))
    refine ⟨hlength, fun htype => ?_, fun haddr => ?_⟩
    · exact hreads (pos + 2) (mem_roundReads.2 (.inr (.inl ⟨htype, rfl⟩)))
    · exact hreads (pos + 5) 
        (mem_roundReads.2 (.inr (.inr (.inl ⟨haddr, .inr (.inr (.inr rfl))⟩))))
  · intro hinside i hi
    rcases mem_roundReads.1 hi with rfl | ⟨htype, rfl⟩ | ⟨haddr, hi⟩ | ⟨hopt, rfl⟩
    · exact h
    · exact (hinside (by rw [htype]; decide)).2.1 htype
    · have hlast := (hinside (by rw [haddr]; decide)).2.2 haddr
      omega
    · exact (hinside hopt).1

lemma readsLoop_lt_iff : (∀ i ∈ readsLoop opt len fuel pos, (i : ℤ) < len) ↔
    InsideFrom opt len fuel pos := by
  induction fuel generalizing pos with
  | zero => simp [readsLoop, InsideFrom]
  | succ fuel ih =>
    rw [readsLoop, InsideFrom]
    split
    · next hlt =>
      rw [List.forall_mem_append, roundReads_lt_iff hlt]
      by_cases hend : opt pos = 255
      · simp [hend]
      · rw [if_neg hend, ih]
        simp only [hlt, hend, ne_eq, not_false_eq_true, forall_const, and_assoc]
    · next hge => exact iff_of_true (by simp) fun hlt => absurd hlt hge

/-! ### What is found -/

/-- The message type and the requested address that have been met. -/
structure Met where
  type : ℕ
  address : Option ℕ

/-- The option at a place is met. -/
def Met.at (r : Met) (opt : ℕ → Byte) (pos : ℕ) : Met where
  type := if opt pos = 53 then (opt (pos + 2)).toNat else r.type
  address := if opt pos = 50 then some (word opt (pos + 2)) else r.address

/-- What the loop meets last. -/
def metFrom (opt : ℕ → Byte) (len : ℤ) : ℕ → ℕ → Met → Met
  | 0, _, r => r
  | fuel + 1, pos, r =>
    if (pos : ℤ) < len ∧ opt pos ≠ 255 then
      metFrom opt len fuel (pos + (opt (pos + 1)).toNat + 2) (r.at opt pos)
    else r

/-- What the answer to a message rests on. -/
inductive Verdict where
  | offer
  | release
  | idle
  | address (requested : ℕ)
  | renewal
deriving DecidableEq

/-- The verdict on a message type and a requested address. -/
def Met.verdict (r : Met) : Verdict :=
  if r.type = 1 then .offer
  else if r.type = 4 then .idle
  else if r.type = 7 then .release
  else
    match r.address with
    | some requested => .address requested
    | none => if r.type = 3 then .renewal else .idle

/-- The state of a verdict, for the address that the client is to have. -/
def Verdict.state (client : ℕ) (renew : Bool) : Verdict → MsgState
  | .offer => .offer
  | .release => .release
  | .idle => .idle
  | .address requested => if client = requested then .ack else .nak
  | .renewal => if renew then .ack else .nak

/-- The state that the loop keeps for a requested address. -/
def addressState (client : ℕ) : Option ℕ → MsgState
  | some requested => if client = requested then .ack else .nak
  | none => .idle

lemma parseOptionsLoop_eq (r : Met) :
    parseOptionsLoop opt client len fuel pos r.type (addressState client r.address) =
      ((metFrom opt len fuel pos r).type,
        addressState client (metFrom opt len fuel pos r).address) := by
  induction fuel generalizing pos r with
  | zero => rfl
  | succ fuel ih =>
    rw [parseOptionsLoop, metFrom]
    by_cases hlt : (pos : ℤ) < len
    · by_cases hend : opt pos = 255
      · rw [if_pos hlt, if_pos hend, if_neg fun h => h.2 hend]
      · have hmet : (pos : ℤ) < len ∧ opt pos ≠ 255 := ⟨hlt, hend⟩
        rw [if_pos hlt, if_neg hend, if_pos hmet, ← ih, Met.at]
        dsimp only
        congr 1
        split <;> rfl
    · rw [if_neg hlt, if_neg fun h => hlt h.1]

/-- What `parse_options` returns is the verdict on what the loop has met. -/
lemma parseOptions_eq : parseOptions opt client len renew =
    (metFrom opt len len.toNat 0 ⟨0, none⟩).verdict.state client renew := by
  have hloop : parseOptionsLoop opt client len len.toNat 0 _ _ = _ :=
    parseOptionsLoop_eq ⟨0, none⟩
  rw [addressState] at hloop
  rw [parseOptions, hloop]
  generalize metFrom opt len len.toNat 0 ⟨0, none⟩ = r
  obtain ⟨type, address⟩ := r
  rw [Met.verdict]
  dsimp only
  cases address with
  | none => split_ifs <;> simp_all [addressState, Verdict.state]
  | some requested =>
    by_cases hclient : client = requested
    · split_ifs <;> simp_all [addressState, Verdict.state]
    · split_ifs <;> simp_all [addressState, Verdict.state]

/-- Different verdicts are told apart by some client. -/
lemma Verdict.eq_of_state {v v' : Verdict}
    (h : ∀ client renew, v.state client renew = v'.state client renew) : v = v' := by
  have hyes := h 0 true
  have hno := h 0 false
  cases v with
  | address requested =>
    have hack := h requested false
    cases v' with
    | address requested' =>
      by_contra hne
      have hdiffer : requested ≠ requested' := fun heq => hne (by rw [heq])
      simp [state, hdiffer] at hack
    | offer | release | idle | renewal => simp [state] at hack
  | offer | release | idle | renewal =>
    cases v' with
    | address requested => simpa [state] using h requested false
    | offer | release | idle | renewal => simp_all [state]

/-! ### Option fields -/

/-- An option of a well-formed field. -/
inductive Opt where
  | pad
  | tlv (code : Byte) (value : List Byte) (notPad : code ≠ 0) (notEnd : code ≠ 255)
    (short : value.length < 256)

/-- The bytes of an option. -/
def Opt.encode : Opt → List Byte
  | .pad => [0]
  | .tlv code value _ _ _ => code :: BitVec.ofNat 8 value.length :: value

/-- The bytes of a field without its end option. -/
def encode (opts : List Opt) : List Byte := opts.flatMap Opt.encode

/-- The value of an option with the code. -/
def Opt.value (code : Byte) : Opt → Option (List Byte)
  | .pad => none
  | .tlv code' value _ _ _ => if code' = code then some value else none

/-- The value of the last option with the code. -/
def lastValue (code : Byte) : List Opt → Option (List Byte)
  | [] => none
  | o :: opts => (lastValue code opts).or (o.value code)

/-- The message type of a value. -/
def valueType (value : List Byte) : ℕ := (value.headD 0).toNat

/-- The address of a value. -/
def valueAddress (value : List Byte) : ℕ := word (fun i => value.getD i 0) 0

/-- What is actually in a field: only message types and requested addresses count. -/
def Met.ofOptions (opts : List Opt) : Met where
  type := ((lastValue 53 opts).map valueType).getD 0
  address := (lastValue 50 opts).map valueAddress

/-- Pads come in pairs, message types have a value, and requested addresses four bytes. -/
def Paired : List Opt → Prop
  | [] => True
  | .pad :: .pad :: opts => Paired opts
  | [.pad] => False
  | .pad :: .tlv _ _ _ _ _ :: _ => False
  | .tlv code value _ _ _ :: opts =>
    (code = 53 → 1 ≤ value.length) ∧ (code = 50 → 4 ≤ value.length) ∧ Paired opts

/-- An option is taken into account. -/
def Met.take (r : Met) (o : Opt) : Met where
  type := ((o.value 53).map valueType).getD r.type
  address := ((o.value 50).map valueAddress).or r.address

lemma foldl_take (opts : List Opt) (r : Met) : opts.foldl Met.take r =
    ⟨((lastValue 53 opts).map valueType).getD r.type,
      ((lastValue 50 opts).map valueAddress).or r.address⟩ := by
  induction opts generalizing r with
  | nil => rfl
  | cons o opts ih =>
    rw [List.foldl_cons, ih, lastValue, lastValue, Met.take]
    dsimp only
    congr 1
    · cases lastValue 53 opts <;> rfl
    · cases lastValue 50 opts <;> rfl

lemma ofOptions_eq (opts : List Opt) : Met.ofOptions opts = opts.foldl Met.take ⟨0, none⟩ := by
  rw [foldl_take, Met.ofOptions]
  congr 1
  cases lastValue 50 opts <;> rfl

/-- The bytes stand in the memory from the place on. -/
def StandsAt (opt : ℕ → Byte) (pos : ℕ) (bytes : List Byte) : Prop :=
  ∀ i b, bytes[i]? = some b → opt (pos + i) = b

lemma StandsAt.append {bytes bytes' : List Byte} (h : StandsAt opt pos (bytes ++ bytes')) :
    StandsAt opt pos bytes ∧ StandsAt opt (pos + bytes.length) bytes' := by
  constructor
  · intro i b hb
    have hi := (List.getElem?_eq_some_iff.1 hb).1
    exact h i b (by rw [List.getElem?_append_left hi, hb])
  · intro i b hb
    rw [Nat.add_assoc]
    refine h _ b ?_
    rw [List.getElem?_append_right (Nat.le_add_right _ _), Nat.add_sub_cancel_left, hb]

/-- An option with a value that is long enough is taken for what it is. -/
lemma at_tlv {code : Byte} {value : List Byte} {h0 : code ≠ 0} {h255 : code ≠ 255}
    {hshort : value.length < 256} (r : Met)
    (h : StandsAt opt pos (Opt.tlv code value h0 h255 hshort).encode)
    (htype : code = 53 → 1 ≤ value.length) (haddr : code = 50 → 4 ≤ value.length) :
    r.at opt pos = r.take (.tlv code value h0 h255 hshort) ∧ opt pos = code ∧
      (opt (pos + 1)).toNat = value.length := by
  have hcode : opt pos = code := h 0 code rfl
  have hlength : opt (pos + 1) = BitVec.ofNat 8 value.length := h 1 _ rfl
  have hvalue : ∀ i, i < value.length → opt (pos + 2 + i) = value.getD i 0 := by
    intro i hi
    rw [Nat.add_assoc]
    refine h (2 + i) _ ?_
    rw [Nat.add_comm 2, Opt.encode]
    simp [hi]
  refine ⟨?_, hcode, ?_⟩
  · rw [Met.at, Met.take, Opt.value, Opt.value, hcode]
    congr 1
    · split
      · next heq =>
        have hfirst := hvalue 0 (htype heq)
        rw [Nat.add_zero] at hfirst
        rw [hfirst]
        cases value <;> rfl
      · rfl
    · split
      · next heq =>
        have hlen := haddr heq
        refine congrArg some ?_
        rw [valueAddress, word, word, ← hvalue 0 (by omega), ← hvalue 1 (by omega),
          ← hvalue 2 (by omega), ← hvalue 3 (by omega)]
      · rfl
  · rw [hlength, BitVec.toNat_ofNat, Nat.mod_eq_of_lt hshort]

lemma metFrom_step (h : (pos : ℤ) < len) (hend : opt pos ≠ 255) (hfuel : len ≤ pos + fuel)
    (r : Met) : ∃ fuel', fuel = fuel' + 1 ∧ metFrom opt len fuel pos r =
      metFrom opt len fuel' (pos + (opt (pos + 1)).toNat + 2) (r.at opt pos) := by
  cases fuel with
  | zero => omega
  | succ fuel' => exact ⟨fuel', rfl, if_pos ⟨h, hend⟩⟩

/-- Of a field in which the pads come in pairs, the loop meets what is there. -/
lemma metFrom_paired {opts : List Opt} (hpaired : Paired opts) (r : Met)
    (h : StandsAt opt pos (encode opts ++ [255])) (hlen : (pos + (encode opts).length : ℤ) < len)
    (hfuel : len ≤ pos + fuel) : metFrom opt len fuel pos r = opts.foldl Met.take r := by
  fun_induction Paired opts generalizing fuel pos r with
  | case1 =>
    have hend : opt pos = 255 := h 0 255 rfl
    cases fuel with
    | zero => rfl
    | succ fuel => exact if_neg fun hmet => hmet.2 hend
  | case2 opts ih =>
    have hfirst : opt pos = 0 := h 0 0 rfl
    have hsecond : opt (pos + 1) = 0 := h 1 0 rfl
    have hbytes : encode (.pad :: .pad :: opts) = [0, 0] ++ encode opts := rfl
    rw [hbytes, List.append_assoc] at h
    rw [hbytes, List.length_append] at hlen
    have hnext := h.append.2
    simp only [List.length_cons, List.length_nil, Nat.zero_add, Nat.reduceAdd, Nat.cast_add,
      Nat.cast_ofNat] at hnext hlen
    have hend : opt pos ≠ 255 := by
      rw [hfirst]
      decide
    obtain ⟨fuel', rfl, hstep⟩ := metFrom_step (by omega) hend hfuel r
    have hat : r.at opt pos = r := by
      rw [Met.at, hfirst, if_neg (by decide), if_neg (by decide)]
    have hplace : pos + (opt (pos + 1)).toNat + 2 = pos + 2 := by rw [hsecond]; rfl
    rw [hstep, hat, hplace]
    exact ih hpaired r hnext (by omega) (by omega)
  | case3 => exact hpaired.elim
  | case4 => exact hpaired.elim
  | case5 code value h0 h255 hshort opts ih =>
    obtain ⟨htype, haddr, hpaired⟩ := hpaired
    have hbytes : encode (.tlv code value h0 h255 hshort :: opts) =
      (Opt.tlv code value h0 h255 hshort).encode ++ encode opts := rfl
    have hsize : (Opt.tlv code value h0 h255 hshort).encode.length = value.length + 2 := rfl
    rw [hbytes, List.append_assoc] at h
    rw [hbytes, List.length_append, hsize] at hlen
    obtain ⟨hthis, hnext⟩ := h.append
    rw [hsize] at hnext
    obtain ⟨hat, hcode, hlength⟩ := at_tlv r hthis htype haddr
    have hend : opt pos ≠ 255 := hcode ▸ h255
    obtain ⟨fuel', rfl, hstep⟩ := metFrom_step (by omega) hend hfuel r
    rw [hstep, hat, hlength, Nat.add_assoc]
    exact ih hpaired _ hnext (by omega) (by omega)

/-! ### Messages -/

/-- The loop of `parse_options` ends, and reads bytes of the datagram only. -/
def InMessage (d : Datagram) (m : Msg) : Prop := ∀ i ∈ parseReads m.opt m.len, 240 + i < d.totLen

/-- What `parse_options` returns is determined by what is actually in the field. -/
def Determined (m : Msg) (opts : List Opt) : Prop := ∀ client renew,
  parseOptions m.opt client m.len renew = (Met.ofOptions opts).verdict.state client renew

/-- The options of a datagram that is copied as far as they go. -/
def Datagram.HasOptions (d : Datagram) (opts : List Opt) : Prop :=
  encode opts ++ [255] <+: d.copied.drop 240

/-- What the loop meets last in a message. -/
def Msg.met (m : Msg) : Met := metFrom m.opt m.len m.len.toNat 0 ⟨0, none⟩

lemma determined_iff (m : Msg) (opts : List Opt) :
    Determined m opts ↔ m.met.verdict = (Met.ofOptions opts).verdict := by
  constructor
  · intro h
    refine Verdict.eq_of_state fun client renew => ?_
    rw [← h client renew, parseOptions_eq]
    rfl
  · intro h client renew
    rw [parseOptions_eq, ← h]
    rfl

variable {d : Datagram} {beyond : ℕ → Byte} {m : Msg}

/-- Pairs of pads are skipped. -/
lemma met_of_paired {opts : List Opt} (h : d.msg beyond = some m) (hopts : d.HasOptions opts)
    (hpaired : Paired opts) : m.met = Met.ofOptions opts := by
  have hlen := d.len_of_msg h
  have hle : d.copied.length ≤ d.totLen := (List.sublist_append_left _ _).length_le
  have hfits := hopts.length_le
  rw [List.length_append, List.length_singleton, List.length_drop] at hfits
  rw [ofOptions_eq]
  refine metFrom_paired hpaired _ (fun i b hb => ?_) (by omega) (by omega)
  rw [Nat.zero_add]
  refine d.opt_of_msg h ?_
  obtain ⟨rest, hrest⟩ := hopts
  rw [← hrest, List.getElem?_append_left (List.getElem?_eq_some_iff.1 hb).1, hb]

/-- A datagram of one buffer with the options behind the header. -/
def Datagram.ofOptions (options : List Byte) (h : options.length < 1000) : Datagram where
  payload := List.replicate 236 0 ++ [0x63, 0x82, 0x53, 0x63] ++ options
  next := none
  others := []
  totLen_lt := by
    simp only [List.length_append, List.length_replicate, List.length_cons, List.length_nil,
      Option.getD_none, List.flatten_nil]
    omega

lemma totLen_ofOptions (options : List Byte) (h : options.length < 1000) :
    (Datagram.ofOptions options h).totLen = 240 + options.length := by
  simp only [Datagram.totLen, Datagram.bytes, Datagram.ofOptions, List.length_append,
    List.length_replicate, List.length_cons, List.length_nil, Option.getD_none, List.flatten_nil]
  omega

lemma copied_ofOptions (options : List Byte) (h : options.length < 1000) :
    (Datagram.ofOptions options h).copied.drop 240 = options := by
  have hheader : (List.replicate 236 (0 : Byte) ++ [0x63, 0x82, 0x53, 0x63]).length = 240 := by
    rw [List.length_append, List.length_replicate]
    rfl
  rw [Datagram.copied, Datagram.ofOptions]
  dsimp only [Option.getD_none]
  rw [List.append_nil, ← hheader, List.drop_left]

/-- Two pads, a message type and a host name. -/
def discoverOptions : List Opt :=
  [.pad, .pad, .tlv 53 [1] (by decide) (by decide) (by decide),
    .tlv 12 [0x65, 0x73, 0x70] (by decide) (by decide) (by decide)]

/-- Options up to the last byte of a message of 548 bytes, which is the code of a message type. -/
def overreadOptions : List Byte :=
  [12, 255] ++ List.replicate 255 0 ++ [12, 48] ++ List.replicate 48 0 ++ [53]

lemma length_overreadOptions : overreadOptions.length = 308 := by
  simp only [overreadOptions, List.length_append, List.length_replicate, List.length_cons,
    List.length_nil]

end EspIdf.Dhcps
