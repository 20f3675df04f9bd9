/-
# The websocket transport

Frames are written to a stream of bytes, with a header that says the length of the payload in one
of three formats, and a mask.  They are read back in parts that the buffer of the caller and the
parent transport allow.
-/
import Mathlib

namespace EspIdf.Transport

/-- A byte. -/
abbrev Byte := BitVec 8

/-- The four bytes of a mask. -/
abbrev Key := Fin 4 → Byte

scoped instance neZeroKey : NeZero 4 := ⟨four_ne_zero⟩

/-- `WS_MASK`. -/
def wsMask : ℕ := 0x80

/-! ### Writing -/

/-- The bytes of the header that `_ws_write` sends, without the mask. -/
def wsHeader (opcode : Byte) (len maskFlag : ℕ) : List Byte :=
  opcode ::
    if len ≤ 125 then [BitVec.ofNat 8 (len ||| maskFlag)]
    else if len < 65536 then
      [BitVec.ofNat 8 (126 ||| maskFlag), BitVec.ofNat 8 (len >>> 8), BitVec.ofNat 8 (len &&& 0xFF)]
    else
      [BitVec.ofNat 8 (127 ||| maskFlag), 0, 0, 0, 0, BitVec.ofNat 8 ((len >>> 24) &&& 0xFF),
        BitVec.ofNat 8 ((len >>> 16) &&& 0xFF), BitVec.ofNat 8 ((len >>> 8) &&& 0xFF),
        BitVec.ofNat 8 (len &&& 0xFF)]

/-- The loop that masks a buffer, which also takes the mask off. -/
def maskBytes (key : Key) (b : List Byte) : List Byte :=
  b.mapIdx fun i x => x ^^^ key (Fin.ofNat 4 i)

/-- What `_ws_write` puts on the parent stream, with a mask if there is a key. -/
def wsWrite (opcode : Byte) (key : Option Key) (b : List Byte) : List Byte :=
  match key with
  | none => wsHeader opcode b.length 0 ++ b
  | some key => wsHeader opcode b.length wsMask ++ (List.ofFn key ++ maskBytes key b)

/-! ### Reading -/

/-- The frame state of the transport, and what is left on the parent stream. -/
structure Ws where
  opcode : Byte
  maskKey : Key
  payloadLen : ℤ
  bytesRemaining : ℤ
  stream : List Byte

/-- A call of `ws_read` with a buffer of `len` bytes: how many bytes the parent is ready to deliver
at each read of the call, and what the header array and the buffer contain before it. -/
structure Call where
  len : ℕ
  header : ℕ
  length : ℕ
  mask : ℕ
  payload : ℕ
  stack : ℕ → Byte
  buffer : ℕ → Byte

/-- What a call of `ws_read` returns, the bytes in the buffer, and the opcode and payload length
that can be asked for afterwards. -/
structure Result where
  ret : ℤ
  bytes : List Byte
  opcode : Byte
  payloadLen : ℤ

/-- `esp_transport_read` of the parent for `n` bytes: at least one of them, up to `ready`, as long
as the stream has any. -/
def parentRead (n ready : ℕ) (stream : List Byte) : List Byte × List Byte :=
  stream.splitAt (min n (max 1 ready))

/-- A `char` as an `int`. -/
def charToInt (signed : Bool) (b : Byte) : BitVec 32 :=
  if signed then b.signExtend 32 else b.setWidth 32

/-- The part of `ws_read_header` that determines the length of the payload from the 7 bits of the
second byte, and from the bytes that follow. -/
def readLength (signed : Bool) (c : Call) (len : ℕ) (stream : List Byte) :
    Option (BitVec 32 × List Byte) :=
  if len = 126 then
    let (b, stream) := parentRead 2 c.length stream
    let data i := b.getD i (c.stack (2 + i))
    if b = [] then none
    else some (charToInt signed (data 0) <<< 8 ||| charToInt signed (data 1), stream)
  else if len = 127 then
    let (b, stream) := parentRead 8 c.length stream
    let data i := b.getD i (c.stack (2 + i))
    if b = [] then none
    else if data 0 ≠ 0 ∨ data 1 ≠ 0 ∨ data 2 ≠ 0 ∨ data 3 ≠ 0 then some (0xFFFFFFFF, stream)
    else
      some (charToInt signed (data 4) <<< 24 ||| charToInt signed (data 5) <<< 16 |||
        charToInt signed (data 6) <<< 8 ||| charToInt signed (data 7), stream)
  else some (BitVec.ofNat 32 len, stream)

/-- The part of `ws_read_header` that reads the mask, through the buffer of the caller. -/
def readMask (c : Call) (mask : Bool) (payloadLen : BitVec 32) (stream : List Byte) :
    Option (Key × List Byte) :=
  if mask then
    if payloadLen ≠ 0 then
      let (b, stream) := parentRead 4 c.mask stream
      if b = [] then none else some (fun i => b.getD i (c.buffer i), stream)
    else some (fun i => c.buffer i, stream)
  else some (fun _ => 0, stream)

/-- `ws_read_header`. -/
def wsReadHeader (signed : Bool) (c : Call) (ws : Ws) : ℤ × Ws :=
  let (b, stream) := parentRead 2 c.header ws.stream
  let data i := b.getD i (c.stack i)
  if b = [] then (0, ws)
  else
    let ws := { ws with opcode := data 0 &&& 0x0F }
    match readLength signed c (data 1 &&& 0x7F).toNat stream with
    | none => (0, { ws with stream := [] })
    | some (payloadLen, stream) =>
      match readMask c ((data 1 >>> 7) &&& 1 ≠ 0) payloadLen stream with
      | none => (0, { ws with stream := [] })
      | some (key, stream) =>
        (payloadLen.toInt,
          { ws with
            maskKey := key
            payloadLen := payloadLen.toInt
            bytesRemaining := payloadLen.toInt
            stream := stream })

/-- `ws_read_payload`. -/
def wsReadPayload (c : Call) (ws : Ws) : ℤ × List Byte × Ws :=
  let bytesToRead := if ws.bytesRemaining > c.len then c.len else ws.bytesRemaining.toNat
  let (b, stream) := parentRead bytesToRead c.payload ws.stream
  if bytesToRead ≠ 0 ∧ b = [] then (0, [], ws)
  else
    (b.length, maskBytes ws.maskKey b,
      { ws with
        bytesRemaining := ws.bytesRemaining - b.length
        stream := stream })

/-- `ws_read`, after the header. -/
def wsReadRest (c : Call) (ret : ℤ) (ws : Ws) : Result × Ws :=
  if ws.payloadLen ≠ 0 then
    let (ret, b, ws) := wsReadPayload c ws
    if ret ≤ 0 then (⟨ret, [], ws.opcode, ws.payloadLen⟩, { ws with bytesRemaining := 0 })
    else (⟨ret, b, ws.opcode, ws.payloadLen⟩, ws)
  else (⟨ret, [], ws.opcode, ws.payloadLen⟩, ws)

/-- `ws_read`. -/
def wsRead (signed : Bool) (c : Call) (ws : Ws) : Result × Ws :=
  if ws.bytesRemaining ≤ 0 then
    let (ret, ws) := wsReadHeader signed c ws
    if ret ≤ 0 then (⟨ret, [], ws.opcode, ws.payloadLen⟩, { ws with bytesRemaining := 0 })
    else wsReadRest c ret ws
  else wsReadRest c 0 ws

/-- The transport before the first frame. -/
def Ws.init (stream : List Byte) : Ws := ⟨0, fun _ => 0, 0, 0, stream⟩

/-- The results of a sequence of calls, and the transport after them. -/
def wsRun (signed : Bool) : Ws → List Call → List Result × Ws
  | ws, [] => ([], ws)
  | ws, c :: cs =>
    let (r, ws) := wsRead signed c ws
    let (rs, ws) := wsRun signed ws cs
    (r :: rs, ws)

end EspIdf.Transport
