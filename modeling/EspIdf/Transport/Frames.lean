/-
# Frames are read as they were written

Frames that are written to the parent stream one after the other are read back in order, in parts
of any size, as long as the bytes of their headers arrive together and the mask of each part
starts in phase.
-/
import EspIdf.Transport.Websocket

namespace EspIdf.Transport

/-- A frame that is written. -/
structure Frame where
  opcode : Byte
  key : Option Key
  payload : List Byte
  length_lt : payload.length < 2 ^ 31

/-- The bytes of a frame. -/
def Frame.encode (f : Frame) : List Byte := wsWrite f.opcode f.key f.payload

/-- The mask, which is `0` without a key. -/
def Frame.mask (f : Frame) : Key := f.key.getD fun _ => 0

/-- The rest of the payload from the byte `p` on, as it is on the stream. -/
def Frame.maskedFrom (f : Frame) (p : ℕ) : List Byte := (maskBytes f.mask f.payload).drop p

/-- The result tells the opcode and the payload length of the frame. -/
structure Belongs (f : Frame) (r : Result) : Prop where
  opcode : r.opcode = f.opcode &&& 0x0F
  payloadLen : r.payloadLen = f.payload.length

/-- The results of calls are the payloads of frames in order: those of each frame concatenate to
its payload, and what is left on the stream starts at the right byte. -/
inductive Reads : List Frame → List Result → List Byte → Prop where
  | nil (fs : List Frame) : Reads fs [] (fs.flatMap Frame.encode)
  /-- There is no frame any more. -/
  | none {rs : List Result} (h : ∀ r ∈ rs, r.ret ≤ 0 ∧ r.bytes = []) : Reads [] rs []
  /-- The first results are a whole frame. -/
  | frame {f : Frame} {fs : List Frame} {rs rs' : List Result} {stream : List Byte}
      (hne : rs ≠ []) (hf : ∀ r ∈ rs, Belongs f r) (hpayload : rs.flatMap Result.bytes = f.payload)
      (hrest : Reads fs rs' stream) : Reads (f :: fs) (rs ++ rs') stream
  /-- The results are the first part of a frame. -/
  | part {f : Frame} {fs : List Frame} {rs : List Result} {rest : List Byte}
      (hne : rs ≠ []) (hf : ∀ r ∈ rs, Belongs f r)
      (hpayload : rs.flatMap Result.bytes ++ rest = f.payload) (hrest : rest ≠ []) :
      Reads (f :: fs) rs
        (f.maskedFrom (rs.flatMap Result.bytes).length ++ fs.flatMap Frame.encode)

/-- Where a reader is in the frames. -/
inductive Place where
  | between (fs : List Frame)
  | inside (f : Frame) (p : ℕ) (fs : List Frame)

/-- After the first `p` bytes of a payload. -/
def Frame.after (f : Frame) (p : ℕ) (fs : List Frame) : Place :=
  if p = f.payload.length then .between fs else .inside f p fs

/-- How many bytes of a payload a call reads from the byte `p` on. -/
def Call.part (c : Call) (f : Frame) (p : ℕ) : ℕ :=
  min (min c.len (f.payload.length - p)) (max 1 c.payload)

/-- The place after a call. -/
def Place.next (c : Call) : Place → Place
  | .between [] => .between []
  | .between (f :: fs) => f.after (c.part f 0) fs
  | .inside f p fs => f.after (p + c.part f p) fs

/-- The bytes behind the first two that say the length of a payload. -/
def lengthBytes (len : ℕ) : List Byte := (wsHeader 0 len 0).drop 2

/-- The buffer holds a mask.  The parts of a header arrive whole; a payload that is masked is not
empty; and no byte of the length is negative.  A part inside a payload is in phase with the
mask. -/
def Call.Fits (signed : Bool) (c : Call) : Place → Prop
  | .between [] => True
  | .between (f :: _) =>
    2 ≤ c.header ∧ (lengthBytes f.payload.length).length ≤ c.length ∧ 
      (f.key ≠ none → 4 ≤ c.mask ∧ f.payload ≠ []) ∧
      (signed = true → ∀ b ∈ lengthBytes f.payload.length, b < 0x80)
  | .inside f p _ => ∀ i < c.part f p, f.mask (Fin.ofNat 4 i) = f.mask (Fin.ofNat 4 (p + i))

/-- All calls fit, and have buffers of at least four bytes. -/
def FittingRun (signed : Bool) : Place → List Call → Prop
  | _, [] => True
  | place, c :: cs => 4 ≤ c.len ∧ c.Fits signed place ∧ FittingRun signed (place.next c) cs

/-! ### The length of a payload -/

lemma parentRead_append {n ready : ℕ} {a b : List Byte} (ha : a.length = n) (hready : n ≤ ready) :
    parentRead n ready (a ++ b) = (a, b) := by
  have hmin : min n (max 1 ready) = a.length := by omega
  rw [parentRead, hmin, List.splitAt_eq, List.take_left', List.drop_left'] <;> rfl

lemma charToInt_eq {signed : Bool} {b : Byte} (h : signed = true → b < 0x80) :
    charToInt signed b = b.setWidth 32 := by
  cases signed with
  | false => rfl
  | true =>
    have hb := h rfl
    revert b
    decide

/-- One more byte of a number. -/
lemma shift_or {a b : ℕ} (ha : a < 2 ^ 24) :
    BitVec.ofNat 32 a <<< 8 ||| (BitVec.ofNat 8 b).setWidth 32 =
      BitVec.ofNat 32 (a * 2 ^ 8 + b % 2 ^ 8) := by
  apply BitVec.eq_of_toNat_eq
  have hor := Nat.shiftLeft_add_eq_or_of_lt (Nat.mod_lt b (Nat.two_pow_pos 8)) a
  have ha' : a % 2 ^ 32 = a := Nat.mod_eq_of_lt (by omega)
  have hshift : a <<< 8 % 2 ^ 32 = a <<< 8 := Nat.mod_eq_of_lt (by rw [Nat.shiftLeft_eq]; omega)
  have hb : b % 2 ^ 8 % 2 ^ 32 = b % 2 ^ 8 := Nat.mod_eq_of_lt (by omega)
  have hsum : (a * 2 ^ 8 + b % 2 ^ 8) % 2 ^ 32 = a * 2 ^ 8 + b % 2 ^ 8 :=
    Nat.mod_eq_of_lt (by omega)
  rw [BitVec.toNat_or, BitVec.toNat_shiftLeft, BitVec.toNat_setWidth, BitVec.toNat_ofNat,
    BitVec.toNat_ofNat, BitVec.toNat_ofNat, ha', hshift, hb, hsum, ← hor, Nat.shiftLeft_eq]

/-- The first byte of a number. -/
lemma setWidth_first (b : ℕ) :
    (BitVec.ofNat 8 b).setWidth 32 = BitVec.ofNat 32 (b % 2 ^ 8) := by
  apply BitVec.eq_of_toNat_eq
  rw [BitVec.toNat_setWidth, BitVec.toNat_ofNat, BitVec.toNat_ofNat]

lemma and_255 (n : ℕ) : (n &&& 0xFF) % 2 ^ 8 = n % 2 ^ 8 := by
  rw [show 0xFF = 2 ^ 8 - 1 by rfl, Nat.and_two_pow_sub_one_eq_mod, Nat.mod_mod]

lemma or_two {len : ℕ} (h : len < 65536) :
    (BitVec.ofNat 8 (len >>> 8)).setWidth 32 <<< 8 |||
      (BitVec.ofNat 8 (len &&& 0xFF)).setWidth 32 = BitVec.ofNat 32 len := by
  rw [setWidth_first, shift_or (by omega), and_255, Nat.shiftRight_eq_div_pow]
  congr 1
  omega

lemma or_four {len : ℕ} (h : len < 2 ^ 32) :
    (BitVec.ofNat 8 ((len >>> 24) &&& 0xFF)).setWidth 32 <<< 24 |||
      (BitVec.ofNat 8 ((len >>> 16) &&& 0xFF)).setWidth 32 <<< 16 |||
      (BitVec.ofNat 8 ((len >>> 8) &&& 0xFF)).setWidth 32 <<< 8 |||
      (BitVec.ofNat 8 (len &&& 0xFF)).setWidth 32 = BitVec.ofNat 32 len := by
  have horner : ∀ a b c d : BitVec 32, a <<< 24 ||| b <<< 16 ||| c <<< 8 ||| d =
      ((a <<< 8 ||| b) <<< 8 ||| c) <<< 8 ||| d := by
    intro a b c d
    simp only [BitVec.shiftLeft_or_distrib, ← BitVec.shiftLeft_add, Nat.reduceAdd]
  rw [horner, setWidth_first, shift_or (by omega), shift_or (by omega), shift_or (by omega),
    and_255, and_255, and_255, and_255]
  simp only [Nat.shiftRight_eq_div_pow]
  congr 1
  omega

/-- The 7 bits that say the length or its format. -/
def lengthCode (len : ℕ) : ℕ := if len ≤ 125 then len else if len < 65536 then 126 else 127

lemma lengthCode_lt (len : ℕ) : lengthCode len < 128 := by
  unfold lengthCode
  split_ifs <;> omega

lemma wsHeader_eq (opcode : Byte) (len maskFlag : ℕ) :
    wsHeader opcode len maskFlag =
      opcode :: BitVec.ofNat 8 (lengthCode len ||| maskFlag) :: lengthBytes len := by
  unfold lengthBytes wsHeader lengthCode
  split_ifs <;> rfl

lemma toNat_and_127 {code : ℕ} (h : code < 128) :
    (BitVec.ofNat 8 (code ||| 0) &&& 0x7F).toNat = code ∧
      (BitVec.ofNat 8 (code ||| wsMask) &&& 0x7F).toNat = code := by
  revert code
  decide

lemma shiftRight_7 {code : ℕ} (h : code < 128) :
    BitVec.ofNat 8 (code ||| 0) >>> 7 &&& 1 = 0 ∧
      BitVec.ofNat 8 (code ||| wsMask) >>> 7 &&& 1 ≠ 0 := by
  revert code
  decide

/-- The length of the payload is read as it was written. -/
lemma readLength_lengthBytes {signed : Bool} {c : Call} {len : ℕ} (hlen : len < 2 ^ 31)
    (hwhole : (lengthBytes len).length ≤ c.length)
    (hpos : signed = true → ∀ b ∈ lengthBytes len, b < 0x80) (rest : List Byte) :
    readLength signed c (lengthCode len) (lengthBytes len ++ rest) =
      some (BitVec.ofNat 32 len, rest) := by
  have hchar : ∀ b ∈ lengthBytes len, charToInt signed b = b.setWidth 32 :=
    fun b hb => charToInt_eq fun hs => hpos hs b hb
  unfold readLength
  by_cases h125 : len ≤ 125
  · have hcode : lengthCode len = len := if_pos h125
    have hbytes : lengthBytes len = [] := by
      unfold lengthBytes wsHeader
      rw [if_pos h125]
      rfl
    rw [hcode, hbytes, if_neg (by omega), if_neg (by omega)]
    rfl
  by_cases h16 : len < 65536
  · have hcode : lengthCode len = 126 := by rw [lengthCode, if_neg h125, if_pos h16]
    have hbytes : lengthBytes len =
        [BitVec.ofNat 8 (len >>> 8), BitVec.ofNat 8 (len &&& 0xFF)] := by
      unfold lengthBytes wsHeader
      rw [if_neg h125, if_pos h16]
      rfl
    rw [hbytes] at hwhole hchar ⊢
    rw [hcode, if_pos rfl, parentRead_append (n := 2) rfl hwhole]
    simp only [List.mem_cons, List.not_mem_nil, or_false, forall_eq_or_imp, forall_eq] at hchar
    simp only [hchar, List.getD_cons_zero, List.getD_cons_succ]
    rw [or_two h16]
    simp
  · have hcode : lengthCode len = 127 := by rw [lengthCode, if_neg h125, if_neg h16]
    have hbytes : lengthBytes len = [0, 0, 0, 0, BitVec.ofNat 8 ((len >>> 24) &&& 0xFF),
        BitVec.ofNat 8 ((len >>> 16) &&& 0xFF), BitVec.ofNat 8 ((len >>> 8) &&& 0xFF),
        BitVec.ofNat 8 (len &&& 0xFF)] := by
      unfold lengthBytes wsHeader
      rw [if_neg h125, if_neg h16]
      rfl
    rw [hbytes] at hwhole hchar ⊢
    rw [hcode, if_neg (by omega), if_pos rfl, parentRead_append (n := 8) rfl hwhole]
    simp only [List.mem_cons, List.not_mem_nil, or_false, forall_eq_or_imp, forall_eq] at hchar
    have hor := or_four (show len < 2 ^ 32 by omega)
    simp only [hchar, List.getD_cons_zero, List.getD_cons_succ]
    rw [hor]
    simp

/-! ### A call of `ws_read` -/

variable {signed : Bool} {c : Call} {f : Frame} {fs : List Frame} {ws : Ws} {p : ℕ}
  {rest : List Byte}

@[simp] lemma length_maskBytes (key : Key) (b : List Byte) :
    (maskBytes key b).length = b.length := by
  simp [maskBytes]

lemma maskBytes_zero (b : List Byte) : maskBytes (fun _ => 0) b = b :=
  List.ext_getElem (length_maskBytes _ _) fun i _ _ => by simp [maskBytes]

/-- The mask on the stream. -/
def Frame.maskPart (f : Frame) : List Byte := f.key.elim [] List.ofFn

lemma Frame.encode_eq (f : Frame) : ∃ maskFlag, (maskFlag = if f.key = none then 0 else wsMask) ∧
    f.encode = f.opcode :: BitVec.ofNat 8 (lengthCode f.payload.length ||| maskFlag) ::
      (lengthBytes f.payload.length ++ (f.maskPart ++ f.maskedFrom 0)) := by
  unfold Frame.encode wsWrite Frame.maskPart Frame.maskedFrom Frame.mask
  cases f.key with
  | none => exact ⟨0, rfl, by simpa [wsHeader_eq] using (maskBytes_zero f.payload).symm⟩
  | some key => exact ⟨wsMask, rfl, by simp [wsHeader_eq]⟩

lemma toInt_ofNat {n : ℕ} (h : n < 2 ^ 31) : (BitVec.ofNat 32 n).toInt = n := by
  have hn : (BitVec.ofNat 32 n).toNat = n := Nat.mod_eq_of_lt (by omega)
  rw [BitVec.toInt_eq_toNat_of_lt (by omega), hn]

lemma ofNat_ne_zero {n : ℕ} (h : n < 2 ^ 31) (hn : n ≠ 0) : BitVec.ofNat 32 n ≠ 0 := by
  intro hzero
  have hint := toInt_ofNat h
  rw [hzero] at hint
  exact hn (by simpa using hint.symm)

/-- The mask of the frame is read. -/
lemma readMask_maskPart (hmask : f.key ≠ none → 4 ≤ c.mask ∧ f.payload ≠ []) (rest : List Byte) :
    readMask c (decide (f.key ≠ none)) (BitVec.ofNat 32 f.payload.length) (f.maskPart ++ rest) =
      some (f.mask, rest) := by
  unfold readMask Frame.maskPart Frame.mask
  cases hkey : f.key with
  | none => rfl
  | some key =>
    obtain ⟨hfour, hne⟩ := hmask (by simp [hkey])
    have hlen := ofNat_ne_zero f.length_lt (by simpa using hne)
    rw [if_pos (by simp), if_pos hlen, Option.elim_some,
      parentRead_append (n := 4) (by simp) hfour]
    have hofFn : List.ofFn key ≠ [] := by simp
    dsimp only
    rw [if_neg hofFn]
    congr 2
    ext i : 1
    match i with
    | 0 | 1 | 2 | 3 => rfl

/-- The header of a frame is read. -/
lemma wsReadHeader_encode (hfits : c.Fits signed (.between (f :: fs)))
    (hstream : ws.stream = f.encode ++ rest) :
    wsReadHeader signed c ws = ((f.payload.length : ℤ),
      (⟨f.opcode &&& 0x0F, f.mask, f.payload.length, f.payload.length,
        f.maskedFrom 0 ++ rest⟩ : Ws)) := by
  obtain ⟨htwo, hwhole, hmask, hpos⟩ := hfits
  obtain ⟨maskFlag, hflag, hencode⟩ := f.encode_eq
  have hcode := lengthCode_lt f.payload.length
  have hand : (BitVec.ofNat 8 (lengthCode f.payload.length ||| maskFlag) &&& 0x7F).toNat =
      lengthCode f.payload.length := by
    rw [hflag]
    split
    · exact (toNat_and_127 hcode).1
    · exact (toNat_and_127 hcode).2
  have hshift : (BitVec.ofNat 8 (lengthCode f.payload.length ||| maskFlag) >>> 7 &&& 1 ≠ 0) ↔
      f.key ≠ none := by
    rw [hflag]
    split
    · next h => exact iff_of_false (not_not_intro (shiftRight_7 hcode).1) (not_not_intro h)
    · next h => exact iff_of_true (shiftRight_7 hcode).2 h
  have hread : parentRead 2 c.header ws.stream =
      ([f.opcode, BitVec.ofNat 8 (lengthCode f.payload.length ||| maskFlag)],
        lengthBytes f.payload.length ++ (f.maskPart ++ (f.maskedFrom 0 ++ rest))) := by
    rw [hstream, hencode]
    have happend := parentRead_append (n := 2) (a := [f.opcode,
      BitVec.ofNat 8 (lengthCode f.payload.length ||| maskFlag)])
      (b := lengthBytes f.payload.length ++ (f.maskPart ++ (f.maskedFrom 0 ++ rest))) rfl htwo
    simpa using happend
  unfold wsReadHeader
  rw [hread]
  simp only [List.getD_cons_zero, List.getD_cons_succ, hand, hshift]
  rw [if_neg (by simp), readLength_lengthBytes f.length_lt hwhole hpos]
  simp only [readMask_maskPart hmask, toInt_ofNat f.length_lt]

lemma Frame.length_maskedFrom (f : Frame) (p : ℕ) :
    (f.maskedFrom p).length = f.payload.length - p := by
  rw [Frame.maskedFrom, List.length_drop, length_maskBytes]

/-- A part that starts in phase is unmasked as it was masked. -/
lemma maskBytes_part {k : ℕ}
    (hphase : ∀ i < k, f.mask (Fin.ofNat 4 i) = f.mask (Fin.ofNat 4 (p + i))) :
    maskBytes f.mask ((f.maskedFrom p).take k) = (f.payload.drop p).take k := by
  refine List.ext_getElem (by simp [Frame.length_maskedFrom]) fun i hi _ => ?_
  have hik : i < k := by
    simp only [length_maskBytes, List.length_take] at hi
    omega
  simp only [maskBytes, Frame.maskedFrom, List.getElem_mapIdx, List.getElem_take,
    List.getElem_drop]
  rw [hphase i hik, BitVec.xor_assoc, BitVec.xor_self, BitVec.xor_zero]

/-- A part of a payload is read. -/
lemma wsReadPayload_part (hp : p < f.payload.length) (hlen : 0 < c.len)
    (hphase : ∀ i < c.part f p, f.mask (Fin.ofNat 4 i) = f.mask (Fin.ofNat 4 (p + i)))
    (hkey : ws.maskKey = f.mask) (hremaining : ws.bytesRemaining = (f.payload.length - p : ℕ))
    (hstream : ws.stream = f.maskedFrom p ++ rest) :
    wsReadPayload c ws = ((c.part f p : ℤ), (f.payload.drop p).take (c.part f p),
      { ws with
        bytesRemaining := (f.payload.length - (p + c.part f p) : ℕ)
        stream := f.maskedFrom (p + c.part f p) ++ rest }) := by
  have hpos : 0 < c.part f p := by
    unfold Call.part
    omega
  have hle : c.part f p ≤ f.payload.length - p := by
    unfold Call.part
    omega
  have hread : (if ws.bytesRemaining > c.len then c.len else ws.bytesRemaining.toNat) =
      min c.len (f.payload.length - p) := by
    rw [hremaining]
    split <;> omega
  have hparent : parentRead (min c.len (f.payload.length - p)) c.payload ws.stream =
      ((f.maskedFrom p).take (c.part f p), f.maskedFrom (p + c.part f p) ++ rest) := by
    rw [parentRead, ← Call.part, List.splitAt_eq, hstream,
      List.take_append_of_le_length (by rwa [f.length_maskedFrom]),
      List.drop_append_of_le_length (by rwa [f.length_maskedFrom])]
    simp only [Frame.maskedFrom, List.drop_drop]
  have hlength : ((f.maskedFrom p).take (c.part f p)).length = c.part f p := by
    rw [List.length_take, f.length_maskedFrom]
    omega
  have hne : (f.maskedFrom p).take (c.part f p) ≠ [] := by
    intro hnil
    rw [hnil] at hlength
    exact absurd hlength (by simp; omega)
  unfold wsReadPayload
  rw [hread]
  dsimp only
  rw [hparent]
  simp only [hlength, hne, and_false, if_false, hkey, maskBytes_part hphase, hremaining]
  congr 3
  omega

/-- What the transport knows at a place. -/
def AtPlace (ws : Ws) : Place → Prop
  | .between fs => ws.bytesRemaining = 0 ∧ ws.stream = fs.flatMap Frame.encode
  | .inside f p fs => 0 < p ∧ p < f.payload.length ∧
    ws = ⟨f.opcode &&& 0x0F, f.mask, f.payload.length, (f.payload.length - p : ℕ),
      f.maskedFrom p ++ fs.flatMap Frame.encode⟩

/-- The bytes that a call reads. -/
def Place.bytes (c : Call) : Place → List Byte
  | .between [] => []
  | .between (f :: _) => f.payload.take (c.part f 0)
  | .inside f p _ => (f.payload.drop p).take (c.part f p)

/-- The first frame of a place. -/
def Place.frame : Place → Option Frame
  | .between [] => none
  | .between (f :: _) => some f
  | .inside f _ _ => some f

/-- The transport in a frame before the byte `p` of its payload. -/
def Frame.state (f : Frame) (p : ℕ) (fs : List Frame) : Ws :=
  ⟨f.opcode &&& 0x0F, f.mask, f.payload.length, (f.payload.length - p : ℕ),
    f.maskedFrom p ++ fs.flatMap Frame.encode⟩

lemma atPlace_after (hp : 0 < p) (hle : p ≤ f.payload.length) :
    AtPlace (f.state p fs) (f.after p fs) := by
  unfold Frame.after
  split
  · next h =>
    have hnil : f.maskedFrom p = [] := by
      rw [← List.length_eq_zero_iff, f.length_maskedFrom]
      omega
    exact ⟨by simp [Frame.state, h], by rw [Frame.state, hnil, List.nil_append]⟩
  · exact ⟨hp, by omega, rfl⟩

lemma Call.part_le (c : Call) (f : Frame) (p : ℕ) : c.part f p ≤ f.payload.length - p := by
  unfold Call.part
  omega

lemma Call.part_pos (hp : p < f.payload.length) (hlen : 0 < c.len) : 0 < c.part f p := by
  unfold Call.part
  omega

/-- What the rest of `ws_read` returns, and the transport after it. -/
lemma wsReadRest_part {ret : ℤ} (hp : p < f.payload.length) (hlen : 0 < c.len)
    (hphase : ∀ i < c.part f p, f.mask (Fin.ofNat 4 i) = f.mask (Fin.ofNat 4 (p + i))) :
    wsReadRest c ret (f.state p fs) =
      (⟨c.part f p, (f.payload.drop p).take (c.part f p), f.opcode &&& 0x0F, f.payload.length⟩,
        f.state (p + c.part f p) fs) := by
  have hpayload : wsReadPayload c (f.state p fs) = _ :=
    wsReadPayload_part hp hlen hphase rfl rfl rfl
  have hlength : (f.state p fs).payloadLen ≠ 0 := by
    simp only [Frame.state]
    omega
  have hpart := c.part_pos hp hlen
  unfold wsReadRest
  rw [if_pos hlength, hpayload]
  dsimp only
  rw [if_neg (by omega)]
  rfl

/-- A call that fits reads the next bytes of the frame, and goes on to the next place. -/
lemma AtPlace.read {place : Place} (h : AtPlace ws place) (hfits : c.Fits signed place)
    (hlen : 4 ≤ c.len) :
    (wsRead signed c ws).1.bytes = place.bytes c ∧
      (∀ f ∈ place.frame, Belongs f (wsRead signed c ws).1) ∧
      (place.frame = none → (wsRead signed c ws).1.ret ≤ 0) ∧
      AtPlace (wsRead signed c ws).2 (place.next c) := by
  match place with
  | .between [] =>
    obtain ⟨hremaining, hstream⟩ := h
    have hheader : wsReadHeader signed c ws = (0, ws) := by
      unfold wsReadHeader
      rw [hstream]
      simp [parentRead]
    unfold wsRead
    rw [if_pos (by omega), hheader]
    exact ⟨rfl, by simp [Place.frame], fun _ => Int.le_refl 0, rfl, hstream⟩
  | .between (f :: fs) =>
    obtain ⟨hremaining, hstream⟩ := h
    have hheader : wsReadHeader signed c ws = ((f.payload.length : ℤ), f.state 0 fs) :=
      wsReadHeader_encode hfits hstream
    unfold wsRead
    rw [if_pos (by omega), hheader]
    dsimp only
    by_cases hempty : f.payload = []
    · have hnil : f.maskedFrom 0 = [] := by
        rw [← List.length_eq_zero_iff, f.length_maskedFrom, hempty]
        rfl
      have hpart : c.part f 0 = 0 := by
        have hle := c.part_le f 0
        rw [hempty] at hle
        exact Nat.le_zero.mp hle
      rw [if_pos (by simp [hempty])]
      refine ⟨by simp [Place.bytes, hempty], ?_, by simp [Place.frame], ?_⟩
      · rintro _ ⟨⟩
        exact ⟨rfl, rfl⟩
      · rw [Place.next, hpart, Frame.after, if_pos (by simp [hempty])]
        exact ⟨rfl, by rw [Frame.state, hnil, List.nil_append]⟩
    · have hp : 0 < f.payload.length := List.length_pos_iff.mpr hempty
      have hrest : wsReadRest c f.payload.length (f.state 0 fs) = _ :=
        wsReadRest_part hp (show 0 < c.len by omega) fun i _ => by rw [Nat.zero_add]
      rw [if_neg (by omega), hrest]
      refine ⟨by simp [Place.bytes], ?_, by simp [Place.frame], ?_⟩
      · rintro _ ⟨⟩
        exact ⟨rfl, rfl⟩
      · rw [Nat.zero_add]
        exact atPlace_after (c.part_pos hp (by omega)) (c.part_le f 0)
  | .inside f p fs =>
    obtain ⟨hpos, hp, hws⟩ := h
    have hrest : wsReadRest c 0 (f.state p fs) = _ :=
      wsReadRest_part hp (show 0 < c.len by omega) hfits
    have hws : ws = f.state p fs := hws
    have hle := c.part_le f p
    unfold wsRead
    rw [if_neg (by rw [hws]; simp only [Frame.state]; omega), hws, hrest]
    refine ⟨rfl, ?_, by simp [Place.frame], ?_⟩
    · rintro _ ⟨⟩
      exact ⟨rfl, rfl⟩
    · exact atPlace_after (by omega) (by omega)

/-! ### Runs -/

/-- The results of the calls from a place on are the frames from there on. -/
def Place.Reads : Place → List Result → List Byte → Prop
  | .between fs, rs, stream => Transport.Reads fs rs stream
  | .inside f p fs, rs, stream => ∀ rs' ≠ [], (∀ r ∈ rs', Belongs f r) →
    rs'.flatMap Result.bytes = f.payload.take p → Transport.Reads (f :: fs) (rs' ++ rs) stream

lemma Place.Reads.after {q : ℕ} {rs rs' : List Result} {stream : List Byte}
    (h : (f.after q fs).Reads rs stream) (hne : rs' ≠ []) (hf : ∀ r ∈ rs', Belongs f r)
    (hbytes : rs'.flatMap Result.bytes = f.payload.take q) :
    Transport.Reads (f :: fs) (rs' ++ rs) stream := by
  unfold Frame.after at h
  split at h
  · next hq => exact .frame hne hf (by rw [hbytes, hq, List.take_length]) h
  · exact h rs' hne hf hbytes

lemma Reads.of_nil {rs : List Result} {stream : List Byte} (h : Reads [] rs stream) :
    stream = [] ∧ ∀ r ∈ rs, r.ret ≤ 0 ∧ r.bytes = [] := by
  cases h with
  | nil => exact ⟨rfl, fun r hr => absurd hr (by simp)⟩
  | none h => exact ⟨rfl, h⟩

lemma AtPlace.run {place : Place} {cs : List Call} (h : AtPlace ws place)
    (hrun : FittingRun signed place cs) :
    place.Reads (wsRun signed ws cs).1 (wsRun signed ws cs).2.stream := by
  induction cs generalizing ws place with
  | nil =>
    match place with
    | .between fs =>
      rw [wsRun, h.2]
      exact .nil fs
    | .inside f p fs =>
      obtain ⟨hpos, hp, rfl⟩ := h
      intro rs' hne hf hbytes
      have hlength : (rs'.flatMap Result.bytes).length = p := by
        rw [hbytes, List.length_take]
        omega
      have hpart : Transport.Reads (f :: fs) rs' _ := .part hne hf
        (show _ ++ f.payload.drop p = _ by rw [hbytes, List.take_append_drop]) (by simp; omega)
      rw [hlength] at hpart
      simpa [wsRun] using hpart
  | cons c cs ih =>
    obtain ⟨hlen, hfits, hrest⟩ := hrun
    obtain ⟨hbytes, hbelongs, hnone, hnext⟩ := h.read hfits hlen
    have hreads := ih hnext hrest
    rw [wsRun]
    generalize wsRead signed c ws = out at hbytes hbelongs hnone hreads
    dsimp only
    match place with
    | .between [] =>
      obtain ⟨hstream, hrs⟩ := Transport.Reads.of_nil hreads
      rw [hstream]
      exact .none (List.forall_mem_cons.mpr ⟨⟨hnone rfl, hbytes⟩, hrs⟩)
    | .between (f :: fs) =>
      have hf : ∀ r ∈ [out.1], Belongs f r := by
        simpa using hbelongs f rfl
      exact hreads.after (List.cons_ne_nil _ []) hf (by simpa [Place.bytes] using hbytes)
    | .inside f p fs =>
      intro rs' hne hf hpayload
      have hf' : ∀ r ∈ rs' ++ [out.1], Belongs f r := by
        intro r hr
        obtain hr | hr := List.mem_append.mp hr
        · exact hf r hr
        · rw [List.mem_singleton.mp hr]
          exact hbelongs f rfl
      have happend := hreads.after (by simp) hf' (by
        rw [List.flatMap_append, hpayload, List.take_add]
        simpa [Place.bytes] using hbytes)
      simpa using happend

/-- In every run of calls that fit, with buffers of at least four bytes, the results are the
frames that were written, and what is left on the stream starts at the right byte. -/
theorem frames_read (signed : Bool) (fs : List Frame) (cs : List Call)
    (hrun : FittingRun signed (.between fs) cs) :
    Reads fs (wsRun signed (.init (fs.flatMap Frame.encode)) cs).1
      (wsRun signed (.init (fs.flatMap Frame.encode)) cs).2.stream :=
  (show AtPlace (.init (fs.flatMap Frame.encode)) (.between fs) from ⟨rfl, rfl⟩).run hrun

/-- A masked frame of 8 bytes. -/
def Frame.masked : Frame :=
  ⟨0x82, some fun i => BitVec.ofNat 8 (i + 1), [10, 20, 30, 40, 50, 60, 70, 80], by decide⟩

/-- A masked frame without payload. -/
def Frame.ping : Frame := ⟨0x89, some fun i => BitVec.ofNat 8 (i + 1), [], by decide⟩

/-- A call with a buffer of `len` bytes, for which all bytes are there. -/
def Call.whole (len : ℕ) : Call := ⟨len, 2, 8, 4, len, fun _ => 0, fun _ => 0⟩

/-- With a buffer of 4 bytes the parts are in phase with the mask. -/
theorem frames_read_masked :
    Reads [Frame.masked] (wsRun true (.init Frame.masked.encode) [.whole 4, .whole 4]).1
      (wsRun true (.init Frame.masked.encode) [.whole 4, .whole 4]).2.stream := by
  have hrun : FittingRun true (.between [Frame.masked]) [.whole 4, .whole 4] := by
    refine ⟨by decide, ⟨by decide, by decide, fun _ => by decide, fun _ => by decide⟩, by decide,
      ?_, trivial⟩
    show Call.Fits true (.whole 4) (.inside Frame.masked 4 [])
    unfold Call.Fits
    decide
  simpa using frames_read true [Frame.masked] _ hrun

/-- What is read is a prefix of what was written. -/
lemma Reads.isPrefix {fs : List Frame} {rs : List Result} {stream : List Byte}
    (h : Reads fs rs stream) : rs.flatMap Result.bytes <+: fs.flatMap Frame.payload := by
  induction h with
  | nil fs => exact List.nil_prefix
  | none h =>
    rw [List.flatMap_eq_nil_iff.mpr fun r hr => (h r hr).2]
    exact List.nil_prefix
  | frame hne hf hpayload _ ih =>
    rw [List.flatMap_append, hpayload, List.flatMap_cons]
    exact (List.prefix_append_right_inj _).mpr ih
  | part hne hf hpayload hrest =>
    rw [List.flatMap_cons, ← hpayload, List.append_assoc]
    exact List.prefix_append _ _

/-- With a buffer of 5 bytes the second part of a masked frame is unmasked with the wrong bytes of
the mask; and the mask of an empty frame is taken for the next header. -/
theorem frames_misread :
    ¬ Reads [.masked] (wsRun false (.init Frame.masked.encode) [.whole 5, .whole 5]).1
      (wsRun false (.init Frame.masked.encode) [.whole 5, .whole 5]).2.stream ∧
    ¬ Reads [.ping, .masked]
      (wsRun false (.init (Frame.ping.encode ++ Frame.masked.encode)) [.whole 9, .whole 9]).1
      (wsRun false (.init (Frame.ping.encode ++ Frame.masked.encode))
        [.whole 9, .whole 9]).2.stream := by
  refine ⟨fun h => ?_, fun h => ?_⟩
  · exact absurd h.isPrefix (by decide)
  · exact absurd h.isPrefix (by decide)

end EspIdf.Transport
