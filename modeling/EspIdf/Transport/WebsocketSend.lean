/-
# Sending over a parent that fails

`_ws_write` masks the payload in the buffer of the caller and takes the mask off when the payload has
been written.  It leaves without doing so when the header has not been written, and its result for
an empty payload is the same whether the parent has timed out or taken the frame.
-/
import EspIdf.Transport.Frames

namespace EspIdf.Transport

/-- What the functions of the parent return in a call: `esp_transport_poll_write`, and
`esp_transport_write` of the header and of the payload. -/
structure Parent where
  poll : ℤ
  header : ℤ
  payload : ℤ

/-- What `_ws_write` returns, the buffer of the caller afterwards, and the bytes that the parent has
taken. -/
structure Sent where
  ret : ℤ
  buffer : List Byte
  handed : List Byte

/-- The mask that lies in the header from the byte `start` on. -/
def maskAt (header : List Byte) (start : ℕ) : Key := fun i => header.getD (start + i) 0

/-- `_ws_write`, with a mask if there are random bytes for one. -/
def wsSend (p : Parent) (opcode : Byte) (key : Option Key) (b : List Byte) : Sent :=
  if p.poll ≤ 0 then ⟨p.poll, b, []⟩
  else
    let maskFlag := if key.isSome then wsMask else 0
    let start := (wsHeader opcode b.length maskFlag).length
    let wsHeader := wsHeader opcode b.length maskFlag ++ key.elim [] List.ofFn
    let buffer := if key.isSome then maskBytes (maskAt wsHeader start) b else b
    if p.header ≠ wsHeader.length then ⟨-1, buffer, wsHeader.take p.header.toNat⟩
    else if b.length = 0 then ⟨0, buffer, wsHeader⟩
    else
      let mask := maskAt wsHeader (wsHeader.length - 4)
      ⟨p.payload, if key.isSome then maskBytes mask buffer else buffer,
        wsHeader ++ buffer.take p.payload.toNat⟩

/-- `esp_transport_ws_send_raw`, with the random bytes for the mask. -/
def wsSendRaw (p : Parent) (opcode : Byte) (random : Key) (b : List Byte) : Sent :=
  wsSend p opcode (some random) b

/-- `ws_write`: an empty write is a ping. -/
def wsTransportWrite (p : Parent) (random : Key) (b : List Byte) : Sent :=
  if b.length = 0 then wsSend p 0x89 (some random) [] else wsSend p 0x82 (some random) b

/-! ### The mask -/

variable {f : Frame} {p : Parent}

lemma maskAt_append (header : List Byte) (key : Key) :
    maskAt (header ++ List.ofFn key) header.length = key := by
  funext i
  have hlen : (i : ℕ) < (List.ofFn key).length := by simp
  rw [maskAt, List.getD_eq_getElem?_getD, List.getElem?_append_right (Nat.le_add_right _ _),
    Nat.add_sub_cancel_left, List.getElem?_eq_getElem hlen, Option.getD_some, List.getElem_ofFn]

/-- The mask is taken off by the loop that puts it on. -/
lemma maskBytes_maskBytes (key : Key) (b : List Byte) : maskBytes key (maskBytes key b) = b :=
  List.ext_getElem (by simp) fun i _ _ => by simp [maskBytes]

/-- A mask leaves the bytes as they are if the bytes of it that are used are zero. -/
lemma maskBytes_eq_self_iff {key : Key} {b : List Byte} :
    maskBytes key b = b ↔ ∀ i < b.length, key (Fin.ofNat 4 i) = 0 := by
  constructor
  · intro h i hi
    have hget := congrArg (fun l : List Byte => l[i]?) h
    simp only [maskBytes, List.getElem?_mapIdx, List.getElem?_eq_getElem hi, Option.map_some,
      Option.some.injEq] at hget
    have hzero := congrArg (b[i] ^^^ ·) hget
    simpa [← BitVec.xor_assoc] using hzero
  · intro h
    refine List.ext_getElem (length_maskBytes _ _) fun i _ hi => ?_
    simp only [maskBytes, List.getElem_mapIdx, h i hi]
    exact BitVec.xor_zero

/-! ### A call -/

/-- The header of a frame, with the mask. -/
def Frame.header (f : Frame) : List Byte :=
  wsHeader f.opcode f.payload.length (if f.key.isSome then wsMask else 0) ++ f.maskPart

lemma Frame.encode_header (f : Frame) : f.encode = f.header ++ maskBytes f.mask f.payload := by
  unfold Frame.encode wsWrite Frame.header Frame.mask Frame.maskPart
  cases f.key with
  | none =>
    rw [Option.getD_none, maskBytes_zero]
    simp
  | some key => simp

/-- `_ws_write` of a frame. -/
def Frame.send (f : Frame) (p : Parent) : Sent := wsSend p f.opcode f.key f.payload

/-- The exits of `_ws_write`. -/
lemma Frame.send_eq (f : Frame) (p : Parent) : f.send p =
    if p.poll ≤ 0 then ⟨p.poll, f.payload, []⟩
    else if p.header ≠ f.header.length then
      ⟨-1, maskBytes f.mask f.payload, f.header.take p.header.toNat⟩
    else if f.payload.length = 0 then ⟨0, maskBytes f.mask f.payload, f.header⟩
    else ⟨p.payload, f.payload, f.header ++ (maskBytes f.mask f.payload).take p.payload.toNat⟩ := by
  unfold Frame.send wsSend Frame.header Frame.maskPart Frame.mask
  cases f.key with
  | none =>
    rw [Option.getD_none, maskBytes_zero]
    simp
  | some key =>
    have hlen : (wsHeader f.opcode f.payload.length wsMask ++ List.ofFn key).length - 4 =
        (wsHeader f.opcode f.payload.length wsMask).length := by simp
    simp only [Option.isSome_some, if_true, Option.elim_some, Option.getD_some, hlen,
      maskAt_append, maskBytes_maskBytes]

/-- The data of the caller are as before, and a result that is the length of the payload means that
the parent has taken the frame. -/
structure Frame.SentClean (f : Frame) (p : Parent) : Prop where
  buffer : (f.send p).buffer = f.payload
  frame : (f.send p).ret = f.payload.length → (f.send p).handed = f.encode

/-- The data of the caller are left alone if and only if the header is written whenever the mask
changes the payload, and the parent does not time out before an empty payload. -/
theorem Frame.sentClean_iff (f : Frame) (p : Parent) : f.SentClean p ↔
    (0 < p.poll → p.header ≠ f.header.length →
      ∀ i < f.payload.length, f.mask (Fin.ofNat 4 i) = 0) ∧
    ¬ (f.payload = [] ∧ p.poll = 0) := by
  rw [← maskBytes_eq_self_iff]
  have hclean : f.SentClean p ↔ (f.send p).buffer = f.payload ∧
      ((f.send p).ret = f.payload.length → (f.send p).handed = f.encode) :=
    ⟨fun h => ⟨h.buffer, h.frame⟩, fun h => ⟨h.1, h.2⟩⟩
  rw [hclean, f.send_eq, f.encode_header]
  have hne : f.header ≠ [] := by simp [Frame.header, wsHeader]
  by_cases hpoll : p.poll ≤ 0
  · -- nothing has been handed over
    rw [if_pos hpoll]
    have hlt : ¬ 0 < p.poll := by omega
    simp only [true_and, hlt, false_implies]
    constructor
    · rintro h ⟨hnil, hzero⟩
      have := h (by rw [hnil, hzero]; rfl)
      exact hne (List.append_eq_nil_iff.mp this.symm).1
    · intro h hret
      have hlen : f.payload.length = 0 := by omega
      exact absurd ⟨List.length_eq_zero_iff.mp hlen, by omega⟩ h
  · rw [if_neg hpoll]
    have hnot : ¬ (f.payload = [] ∧ p.poll = 0) := fun h => hpoll (by omega)
    by_cases hheader : p.header = f.header.length
    · rw [if_neg (not_not.mpr hheader)]
      refine iff_of_true ?_ ⟨fun _ h => absurd hheader h, hnot⟩
      by_cases hlen : f.payload.length = 0
      · have hnil := List.length_eq_zero_iff.mp hlen
        rw [if_pos hlen, hnil]
        exact ⟨rfl, fun _ => (List.append_nil _).symm⟩
      · rw [if_neg hlen]
        refine ⟨rfl, fun hret => ?_⟩
        have htake : p.payload.toNat = (maskBytes f.mask f.payload).length := by
          rw [length_maskBytes]
          exact (congrArg Int.toNat hret).trans (Int.toNat_natCast _)
        rw [htake, List.take_length]
    · rw [if_pos hheader]
      have hminus : (-1 : ℤ) ≠ f.payload.length := by omega
      simp only [hminus, false_implies, and_true, hnot, not_false_eq_true, hheader, ne_eq,
        true_implies]
      exact ⟨fun h _ => h, fun h => h (by omega)⟩

/-- A header that is written in part leaves the payload masked, and a timeout of the parent is
reported for an empty payload like a frame. -/
theorem Frame.send_unclean :
    (¬ Frame.masked.SentClean ⟨1, 2, 0⟩ ∧ (Frame.masked.send ⟨1, 2, 0⟩).ret = -1 ∧
      (Frame.masked.send ⟨1, 2, 0⟩).buffer = [11, 22, 29, 44, 51, 62, 69, 84]) ∧
    ¬ Frame.ping.SentClean ⟨0, 0, 0⟩ ∧ (Frame.ping.send ⟨0, 0, 0⟩).ret = 0 ∧
      (Frame.ping.send ⟨0, 0, 0⟩).handed = [] := by
  refine ⟨⟨fun h => ?_, by decide⟩, fun h => ?_, by decide⟩
  · exact absurd h.buffer (by decide)
  · exact absurd (h.frame (by decide)) (by decide)

end EspIdf.Transport
