/-
# Sending a request

The request line stands in front of the headers in the first piece that is sent.  The index that
`http_header_generate_string` returns is 0 both when nothing is left and when the first header does
not fit behind the request line, and a piece without a header in it ends the loop as well.
-/
import EspIdf.HttpClient.Header

namespace EspIdf.HttpClient

open Lib

/-- `esp_http_client_method_t`. -/
inductive Method where
  | get
  | post
  | put
  | patch
  | delete
  | head
  | notify
  | subscribe
  | unsubscribe
  | options

/-- `HTTP_METHOD_MAPPING`. -/
def Method.mapping : Method → List Byte
  | .get => ascii "GET"
  | .post => ascii "POST"
  | .put => ascii "PUT"
  | .patch => ascii "PATCH"
  | .delete => ascii "DELETE"
  | .head => ascii "HEAD"
  | .notify => ascii "NOTIFY"
  | .subscribe => ascii "SUBSCRIBE"
  | .unsubscribe => ascii "UNSUBSCRIBE"
  | .options => ascii "OPTIONS"

/-- `esp_http_state_t`. -/
inductive HttpState where
  | uninit
  | init
  | connected
  | reqCompleteHeader
  | reqCompleteData
  | resCompleteHeader
  | resCompleteData
  | close
deriving DecidableEq

inductive Err where
  | ok
  /-- `ESP_FAIL`, the -1 of `http_client_prepare_first_line`. -/
  | fail
  | httpWriteData
deriving DecidableEq

/-- The fields of `esp_http_client` that matter for a request, and what has happened at the
transport. -/
structure Client where
  method : Method
  path : List Byte
  query : Option (List Byte)
  headers : List Header
  bufferSizeTx : ℕ
  /-- The memory, with `request->buffer->data` at its beginning. -/
  data : Mem
  postLen : ℤ
  isAsync : Bool
  state : HttpState
  firstLinePrepared : Bool
  headerIndex : ℕ
  dataWrittenIndex : ℕ
  dataWriteLeft : ℤ
  /-- How often the transport has been called. -/
  calls : ℕ
  /-- The bytes that the transport has taken. -/
  handed : List Byte

/-- `esp_transport_write`: the result for the number of the call and the length offered. -/
abbrev Write : Type := ℕ → ℤ → ℤ

/-- A transport that takes a part of every write that is not empty. -/
structure Accepting where
  write : Write
  pos : ∀ calls len, 0 < len → 0 < write calls len
  le : ∀ calls len, 0 < len → write calls len ≤ len

/-- The header and the method of a request with a body of `writeLen` bytes, or in chunks. -/
def Client.setLength (client : Client) (writeLen : ℤ) : Client :=
  if 0 ≤ writeLen then
    { client with
      headers := headerSet client.headers (ascii "Content-Length")
        (some (printInt writeLen)) }
  else
    { client with
      headers := headerSet client.headers (ascii "Transfer-Encoding") (some (ascii "chunked"))
      method := .post }

/-- Print `s` behind the first `len` bytes of the request line: the length then, or `none` when the
buffer is too small. -/
def Client.printLine (client : Client) (len : ℕ) (s : List Byte) : Option ℕ × Client :=
  let firstLineLen := len + s.length
  (if firstLineLen ≥ client.bufferSizeTx then none else some firstLineLen,
    { client with data := snprintf client.data len (client.bufferSizeTx - len) s })

/-- Print the query, if there is one. -/
def Client.printQuery (client : Client) (len : ℕ) : Option ℕ × Client :=
  match client.query with
  | some query => client.printLine len (ascii "?" ++ query)
  | none => (some len, client)

/-- `http_client_prepare_first_line`: `none` is -1. -/
def prepareFirstLine (client : Client) (writeLen : ℤ) : Option ℕ × Client :=
  let client := client.setLength writeLen
  match client.printLine 0 (client.method.mapping ++ ascii " " ++ client.path) with
  | (none, client) => (none, client)
  | (some firstLineLen, client) =>
    match client.printQuery firstLineLen with
    | (none, client) => (none, client)
    | (some firstLineLen, client) =>
      client.printLine firstLineLen (ascii " HTTP/1.1" ++ crlf)

/-- A call of the transport with `len` bytes from `at` on. -/
def Client.transportWrite (client : Client) (w : Write) (start : ℕ) (len : ℤ) : ℤ × Client :=
  let wret := w client.calls len
  (wret, { client with
    calls := client.calls + 1
    handed := client.handed ++ client.data.read start wret.toNat })

/-- `esp_http_client_close`. -/
def Client.closed (client : Client) : Client :=
  if client.state = .uninit then client else { client with state := .init }

/-- The loop of `esp_http_client_write`. -/
def writeAll (w : Write) (client : Client) (start widx : ℕ) (len : ℤ) : ℤ × Client :=
  if 0 < len then
    let (wlen, client) := client.transportWrite w (start + widx) len
    if client.isAsync ∨ wlen ≤ 0 then (wlen, client)
    else writeAll w client start (widx + wlen.toNat) (len - wlen)
  else (widx, client)
termination_by len.toNat

/-- `esp_http_client_write` of bytes in the transmit buffer. -/
def httpClientWrite (w : Write) (client : Client) (start : ℕ) (len : ℤ) : ℤ × Client :=
  match client.state with
  | .uninit | .init | .connected => (-1, client)
  | _ => writeAll w client start 0 len

/-- The loop that sends a piece: whether it has been sent. -/
def sendPiece (w : Write) (client : Client) : Bool × Client :=
  if 0 < client.dataWriteLeft then
    let (wret, client') :=
      client.transportWrite w client.dataWrittenIndex client.dataWriteLeft
    if wret ≤ 0 then (false, client'.closed)
    else
      sendPiece w { client' with
        dataWriteLeft := client.dataWriteLeft - wret
        dataWrittenIndex := client.dataWrittenIndex + wret.toNat }
  else (true, client)
termination_by client.dataWriteLeft.toNat

/-- A piece is sent without a change of the headers. -/
lemma sendPiece_frame (w : Write) (client : Client) :
    (sendPiece w client).2.headers = client.headers ∧
      (sendPiece w client).2.headerIndex = client.headerIndex := by
  fun_induction sendPiece w client with
  | case1 client hleft wret client' hcall hret =>
    cases hcall
    unfold Client.closed
    split <;> exact ⟨rfl, rfl⟩
  | case2 client hleft wret client' hcall hret ih =>
    cases hcall
    exact ih
  | case3 => exact ⟨rfl, rfl⟩

/-- The loop that generates and sends the pieces. -/
def sendHeaders (w : Write) (client : Client) (firstLineLen : ℕ) (wlen : ℤ) : Err × Client :=
  match _ : generateString client.headers client.headerIndex client.data firstLineLen wlen with
  | (headerIndex, data, len) =>
    if _ : headerIndex = 0 ∨ len ≤ 0 then
      (.ok, { client with headerIndex := headerIndex, data := data })
    else
      let wlen := len + firstLineLen
      let piece := sendPiece w { client with
        headerIndex := headerIndex
        data := data.store wlen.toNat [0]
        dataWriteLeft := wlen
        dataWrittenIndex := 0 }
      if piece.1 then sendHeaders w piece.2 0 piece.2.bufferSizeTx
      else (.httpWriteData, piece.2)
termination_by client.headers.length - client.headerIndex
decreasing_by
  have hframe := sendPiece_frame w { client with
    headerIndex := headerIndex
    data := data.store (len + firstLineLen).toNat [0]
    dataWriteLeft := len + firstLineLen
    dataWrittenIndex := 0 }
  have hmove := generateString_progress ‹generateString _ _ _ _ _ = _› (by omega) (by omega)
  rw [hframe.1, hframe.2]
  dsimp only
  omega

/-- What is left of the last call is sent first. -/
def sendLeftover (w : Write) (client : Client) : Option Err × Client :=
  if 0 < client.dataWriteLeft then
    let (wret, client') :=
      httpClientWrite w client client.dataWrittenIndex client.dataWriteLeft
    if wret < 0 then (some .httpWriteData, client')
    else
      let client'' := { client' with
        dataWriteLeft := client.dataWriteLeft - wret
        dataWrittenIndex := client.dataWrittenIndex + wret.toNat }
      if client.isAsync ∧ 0 < client''.dataWriteLeft then (some .httpWriteData, client'')
      else (none, client'')
  else (none, client)

/-- `esp_http_client_request_send`. -/
def requestSend (w : Write) (client : Client) (writeLen : ℤ) : Err × Client :=
  let prepared :=
    if client.firstLinePrepared then (some 0, client) else prepareFirstLine client writeLen
  match prepared with
  | (none, client) => (.fail, client)
  | (some firstLineLen, client') =>
    let client' :=
      if client.firstLinePrepared then client'
      else { client' with
        firstLinePrepared := true, headerIndex := 0, dataWrittenIndex := 0, dataWriteLeft := 0 }
    match sendLeftover w client' with
    | (some err, client') => (err, client')
    | (none, client') =>
      match sendHeaders w client' firstLineLen (client'.bufferSizeTx - firstLineLen) with
      | (.ok, client') =>
        (.ok, { client' with
          dataWrittenIndex := 0, dataWriteLeft := client'.postLen, state := .reqCompleteHeader })
      | (err, client') => (err, client')

/-! ### The request line -/

/-- The request line. -/
def requestLine (method : Method) (path : List Byte) (query : Option (List Byte)) : List Byte :=
  method.mapping ++ ascii " " ++ path ++ query.elim [] (ascii "?" ++ ·) ++ ascii " HTTP/1.1" ++ crlf

/-- The request line of a client whose method and headers are settled. -/
def Client.line (client : Client) : List Byte :=
  requestLine client.method client.path client.query

/-- The query as it stands in the request line. -/
def Client.queryText (client : Client) : List Byte := client.query.elim [] (ascii "?" ++ ·)

/-- `r` is what printing the request line up to `line` ends with. -/
def Client.Printed (client : Client) (line : List Byte) (r : Option ℕ × Client) : Prop :=
  if line.length < client.bufferSizeTx then
    ∃ data, r = (some line.length, { client with data := data }) ∧
      data.read 0 line.length = line
  else r.1 = none

lemma Client.printLine_printed (client : Client) {line : List Byte} (s : List Byte)
    (hread : client.data.read 0 line.length = line) :
    client.Printed (line ++ s) (client.printLine line.length s) := by
  unfold Printed
  rw [List.length_append]
  split
  · next h =>
    refine ⟨snprintf client.data line.length (client.bufferSizeTx - line.length) s, ?_, ?_⟩
    · simp only [printLine, if_neg (Nat.not_le.2 h)]
    · rw [Mem.read_append, Nat.zero_add, snprintf_read_below (by omega), hread,
        snprintf_read (by omega)]
  · next h => exact if_pos (Nat.not_lt.1 h)

lemma Client.printQuery_printed (client : Client) {line : List Byte}
    (hread : client.data.read 0 line.length = line) (hlt : line.length < client.bufferSizeTx) :
    client.Printed (line ++ client.queryText) (client.printQuery line.length) := by
  rcases hquery : client.query with _ | query
  · have htext : client.queryText = [] := by rw [queryText, hquery, Option.elim_none]
    have hprint : client.printQuery line.length = (some line.length, client) := by
      rw [printQuery, hquery]
    rw [htext, hprint, List.append_nil, Printed, if_pos hlt]
    exact ⟨client.data, rfl, hread⟩
  · have htext : client.queryText = ascii "?" ++ query := by
      rw [queryText, hquery, Option.elim_some]
    have hprint : client.printQuery line.length =
        client.printLine line.length (ascii "?" ++ query) := by
      rw [printQuery, hquery]
    rw [htext, hprint]
    exact client.printLine_printed _ hread

@[simp] lemma Client.setLength_bufferSizeTx (client : Client) (writeLen : ℤ) :
    (client.setLength writeLen).bufferSizeTx = client.bufferSizeTx := by
  unfold setLength
  split <;> rfl

/-- The request always has a header that says where its body ends. -/
lemma Client.setLength_headers_ne_nil (client : Client) (writeLen : ℤ) :
    (client.setLength writeLen).headers ≠ [] := by
  unfold setLength
  split <;> exact headerAssign_ne_nil _ _ _

/-- Printing goes on behind what has been printed, if that has fitted. -/
lemma Client.Printed.bind {c : Client} {line s : List Byte} {r : Option ℕ × Client}
    {k : ℕ → Client → Option ℕ × Client} (h : c.Printed line r)
    (hk : ∀ data : Mem, data.read 0 line.length = line → line.length < c.bufferSizeTx →
      { c with data := data }.Printed (line ++ s) (k line.length { c with data := data })) :
    c.Printed (line ++ s) (match r with
      | (none, client) => (none, client)
      | (some len, client) => k len client) := by
  unfold Printed at h
  split at h
  · next hlt =>
    obtain ⟨data, rfl, hread⟩ := h
    exact hk data hread hlt
  · next hlt =>
    obtain ⟨len, client⟩ := r
    cases h
    rw [Printed, if_neg]
    rw [List.length_append]
    omega

/-- A request line that fits stands at the beginning of the buffer, and one that does not ends the
request. -/
lemma prepareFirstLine_printed (client : Client) (writeLen : ℤ) :
    (client.setLength writeLen).Printed (client.setLength writeLen).line
      (prepareFirstLine client writeLen) := by
  unfold prepareFirstLine
  generalize client.setLength writeLen = c
  have hline : c.line = (c.method.mapping ++ ascii " " ++ c.path) ++ (c.queryText ++
      (ascii " HTTP/1.1" ++ crlf)) := by
    simp [Client.line, requestLine, Client.queryText]
  rw [hline]
  have hstart : c.Printed (c.method.mapping ++ ascii " " ++ c.path)
      (c.printLine 0 (c.method.mapping ++ ascii " " ++ c.path)) := by
    simpa using @Client.printLine_printed c [] (c.method.mapping ++ ascii " " ++ c.path) rfl
  refine hstart.bind fun d1 hread1 hlt1 => ?_
  rw [← List.append_assoc]
  exact (Client.printQuery_printed { c with data := d1 } hread1 hlt1).bind fun d2 hread2 _ =>
    Client.printLine_printed _ _ hread2

/-! ### Sending -/

variable (t : Accepting)

/-- A piece is sent as a whole. -/
lemma sendPiece_eq (client : Client) (hleft : 0 ≤ client.dataWriteLeft) :
    ∃ calls, sendPiece t.write client = (true, { client with
      calls := calls
      dataWriteLeft := 0
      dataWrittenIndex := client.dataWrittenIndex + client.dataWriteLeft.toNat
      handed := client.handed ++
        client.data.read client.dataWrittenIndex client.dataWriteLeft.toNat }) := by
  induction hn : client.dataWriteLeft.toNat using Nat.strong_induction_on generalizing client with
  | _ n ih =>
    subst hn
    rw [sendPiece]
    by_cases hpos : 0 < client.dataWriteLeft
    · have hret := t.pos client.calls client.dataWriteLeft hpos
      have hle := t.le client.calls client.dataWriteLeft hpos
      rw [if_pos hpos]
      dsimp only [Client.transportWrite]
      rw [if_neg (Int.not_le.2 hret)]
      generalize t.write client.calls client.dataWriteLeft = wret at *
      have hsplit : client.dataWriteLeft.toNat =
          wret.toNat + (client.dataWriteLeft - wret).toNat := by
        omega
      obtain ⟨calls, hrun⟩ := ih (client.dataWriteLeft - wret).toNat (by omega) { client with
        calls := client.calls + 1
        handed := client.handed ++ client.data.read client.dataWrittenIndex wret.toNat
        dataWriteLeft := client.dataWriteLeft - wret
        dataWrittenIndex := client.dataWrittenIndex + wret.toNat } (by dsimp only; omega) rfl
      refine ⟨calls, hrun.trans ?_⟩
      rw [hsplit, Mem.read_append]
      simp only [List.append_assoc, Nat.add_assoc]
    · have hzero : client.dataWriteLeft = 0 := by omega
      rw [if_neg hpos]
      refine ⟨client.calls, ?_⟩
      have hread : client.data.read client.dataWrittenIndex (0 : ℤ).toNat = [] := rfl
      rw [hzero, hread, List.append_nil, Int.toNat_zero, Nat.add_zero, ← hzero]

/-- One pass of the loop. -/
lemma sendHeaders_eq {w : Write} {client : Client} {firstLineLen index : ℕ} {wlen len : ℤ}
    {data : Mem} (hgen : generateString client.headers client.headerIndex client.data firstLineLen
      wlen = (index, data, len)) :
    sendHeaders w client firstLineLen wlen =
      if index = 0 ∨ len ≤ 0 then (.ok, { client with headerIndex := index, data := data })
      else
        let piece := sendPiece w { client with
          headerIndex := index
          data := data.store (len + firstLineLen).toNat [0]
          dataWriteLeft := len + firstLineLen
          dataWrittenIndex := 0 }
        if piece.1 then sendHeaders w piece.2 0 piece.2.bufferSizeTx
        else (.httpWriteData, piece.2) := by
  rw [sendHeaders]
  split
  next heq =>
  rw [hgen] at heq
  cases heq
  rfl

variable {client : Client} {line : List Byte} {pre items : List Header}

/-- What a pass of the loop starts from: `items` are left, and `line` stands in front of what is
printed next. -/
structure Client.Ready (client : Client) (line : List Byte) (pre items : List Header) : Prop where
  headers : client.headers = pre ++ items
  index : client.headerIndex = pre.length
  read : client.data.read 0 line.length = line
  lt : line.length < client.bufferSizeTx
  room : pre = [] ∨ 3 ≤ client.bufferSizeTx - line.length

/-- Nothing is left to send. -/
lemma sendHeaders_end (h : client.Ready line pre []) (wlen : ℤ) :
    ∃ client', sendHeaders t.write client line.length wlen = (.ok, client') ∧
      client'.handed = client.handed := by
  have hgen : generateString client.headers client.headerIndex client.data line.length wlen =
      (0, client.data, wlen) := by
    rw [h.headers, h.index, List.append_nil, generateString_end]
  rw [sendHeaders_eq hgen, if_pos (.inl rfl)]
  exact ⟨_, rfl, rfl⟩

/-- No header fits behind `line`. -/
lemma sendHeaders_stuck (h : client.Ready line pre items) (hne : items ≠ [])
    (htaken : taken (client.bufferSizeTx - line.length) 0 items = []) :
    ∃ client', sendHeaders t.write client line.length (client.bufferSizeTx - line.length : ℕ) =
        (.ok, client') ∧ client'.handed = client.handed := by
  obtain ⟨m', hgen, -, -⟩ := generateString_eq (m := client.data) line.length h.room hne
  rw [← h.headers, ← h.index] at hgen
  have hprinted : printed (client.bufferSizeTx - line.length) items = [] := by
    rw [printed, htaken, if_neg (Ne.symm hne)]
    rfl
  rw [sendHeaders_eq hgen, hprinted, if_pos (.inr le_rfl)]
  exact ⟨_, rfl, rfl⟩

/-- A piece with headers in it is sent, and the next pass goes on behind them. -/
lemma sendHeaders_piece {rest : List Header} (h : client.Ready line pre items)
    (hne : taken (client.bufferSizeTx - line.length) 0 items ≠ [])
    (hrest : items = taken (client.bufferSizeTx - line.length) 0 items ++ rest) :
    ∃ client', sendHeaders t.write client line.length (client.bufferSizeTx - line.length : ℕ) =
        sendHeaders t.write client' 0 client'.bufferSizeTx ∧
      client'.Ready [] (pre ++ taken (client.bufferSizeTx - line.length) 0 items) rest ∧
      client'.bufferSizeTx = client.bufferSizeTx ∧
      client'.handed = client.handed ++ line ++
        printed (client.bufferSizeTx - line.length) items := by
  have hitems : items ≠ [] := by
    rintro rfl
    exact hne rfl
  obtain ⟨m', hgen, hread, hbelow⟩ :=
    generateString_eq (m := client.data) line.length h.room hitems
  rw [← h.headers, ← h.index] at hgen
  have hroom := taken_room 0 hne
  have hpos : 0 < (taken (client.bufferSizeTx - line.length) 0 items).length :=
    List.length_pos_iff.2 hne
  have hlen : 0 < (texts (taken (client.bufferSizeTx - line.length) 0 items)).length := by
    obtain ⟨g, gs, hg⟩ := List.exists_cons_of_ne_nil hne
    rw [hg, texts_cons, List.length_append, g.length_text]
    omega
  have hprinted : (texts (taken (client.bufferSizeTx - line.length) 0 items)).length ≤
      (printed (client.bufferSizeTx - line.length) items).length := by
    rw [printed, List.length_append]
    omega
  rw [sendHeaders_eq hgen, if_neg (by omega)]
  generalize hp : printed (client.bufferSizeTx - line.length) items = p at *
  obtain ⟨calls, hpiece⟩ := sendPiece_eq t { client with
    headerIndex := client.headerIndex + (taken (client.bufferSizeTx - line.length) 0 items).length
    data := m'.store ((p.length : ℤ) + line.length).toNat [0]
    dataWriteLeft := (p.length : ℤ) + line.length
    dataWrittenIndex := 0 } (by dsimp only; omega)
  -- the piece is what stands in the buffer from its beginning
  have htoNat : ((p.length : ℤ) + line.length).toNat = line.length + p.length := by omega
  have hbuffer : (m'.store (line.length + p.length) [0]).read 0 (line.length + p.length) =
      line ++ p := by
    rw [Mem.read_store_of_apart (.inl (by omega)), Mem.read_append, hbelow _ _ (by omega), h.read,
      Nat.zero_add, hread]
  dsimp only at hpiece
  rw [htoNat] at hpiece
  simp only [htoNat, hpiece, if_true]
  refine ⟨_, rfl, ⟨?_, ?_, rfl, ?_, .inr ?_⟩, rfl, ?_⟩
  · dsimp only
    rw [List.append_assoc, ← hrest, h.headers]
  · dsimp only
    rw [List.length_append, h.index]
  · have := h.lt
    dsimp only [List.length_nil]
    omega
  · dsimp only [List.length_nil]
    omega
  · dsimp only
    rw [hbuffer, List.append_assoc]

/-! ### A whole request -/

/-- The first header fits behind the request line, and every header into the buffer, with the empty
line and a `NUL`. -/
structure Fits (bufferSizeTx lineLen : ℕ) (headers : List Header) : Prop where
  first : ∀ h ∈ headers.head?, lineLen + h.text.length + 3 ≤ bufferSizeTx
  all : ∀ h ∈ headers, h.text.length + 3 ≤ bufferSizeTx

lemma length_text_le {g : Header} {hs : List Header} (h : g ∈ hs) :
    g.text.length ≤ (texts hs).length := by
  induction hs with
  | nil => cases h
  | cons k hs ih =>
    rw [texts_cons, List.length_append]
    rcases List.mem_cons.1 h with rfl | h
    · omega
    · have := ih h
      omega

/-- Nothing fits if no header is printed. -/
lemma not_fits_of_taken {size lineLen : ℕ} (hne : items ≠ [])
    (htaken : taken (size - lineLen) 0 items = []) : ¬ Fits size lineLen items := by
  intro h
  obtain ⟨g, gs, rfl⟩ := List.exists_cons_of_ne_nil hne
  have hfirst := h.first g rfl
  rw [taken, if_neg (by omega)] at htaken
  cases htaken

/-- The headers that are printed fit, so that it depends on the others. -/
lemma fits_append {size lineLen : ℕ} {tk rest : List Header} (hne : tk ≠ [])
    (hroom : (texts tk).length + 3 ≤ size - lineLen) :
    Fits size lineLen (tk ++ rest) ↔ Fits size 0 rest := by
  constructor
  · intro h
    refine ⟨fun g hg => ?_, fun g hg => h.all g (List.mem_append_right _ hg)⟩
    have := h.all g (List.mem_append_right _ (List.mem_of_mem_head? hg))
    omega
  · intro h
    refine ⟨fun g hg => ?_, fun g hg => ?_⟩
    · obtain ⟨k, ks, rfl⟩ := List.exists_cons_of_ne_nil hne
      have hmem : g ∈ k :: ks := List.mem_of_mem_head? hg
      have := length_text_le hmem
      omega
    · rcases List.mem_append.1 hg with hg | hg
      · have := length_text_le hg
        omega
      · exact h.all g hg

/-- What a run of the loop should send. -/
def wholePart (line : List Byte) (items : List Header) : List Byte :=
  if items = [] then [] else line ++ texts items ++ crlf

/-- The loop sends everything if and only if everything fits, and otherwise stops before the end. -/
lemma sendHeaders_run (h : client.Ready line pre items) :
    ∃ client' sent missing,
      sendHeaders t.write client line.length (client.bufferSizeTx - line.length : ℕ) =
        (.ok, client') ∧
      client'.handed = client.handed ++ sent ∧ sent ++ missing = wholePart line items ∧
      (missing = [] ↔ Fits client.bufferSizeTx line.length items) := by
  induction hn : items.length using Nat.strong_induction_on
    generalizing client line pre items with
  | _ n ih =>
    subst hn
    by_cases hne : items = []
    · subst hne
      obtain ⟨client', hrun, hhanded⟩ := sendHeaders_end t h (client.bufferSizeTx - line.length : ℕ)
      exact ⟨client', [], [], hrun, by rw [hhanded, List.append_nil], rfl,
        iff_of_true rfl ⟨by simp, by simp⟩⟩
    by_cases htaken : taken (client.bufferSizeTx - line.length) 0 items = []
    · obtain ⟨client', hrun, hhanded⟩ := sendHeaders_stuck t h hne htaken
      refine ⟨client', [], wholePart line items, hrun, by rw [hhanded, List.append_nil], rfl,
        iff_of_false ?_ (not_fits_of_taken hne htaken)⟩
      rw [wholePart, if_neg hne]
      simp [crlf]
    · obtain ⟨rest, hrest⟩ := taken_append (client.bufferSizeTx - line.length) items 0
      obtain ⟨c₁, hrun₁, hready, hsize, hhanded₁⟩ := sendHeaders_piece t h htaken hrest
      have hshort : rest.length < items.length := by
        have hlen := congrArg List.length hrest
        rw [List.length_append] at hlen
        have := List.length_pos_iff.2 htaken
        omega
      obtain ⟨client', sent, missing, hrun, hhanded, hsent, hmissing⟩ := ih _ hshort hready rfl
      refine ⟨client', line ++ printed (client.bufferSizeTx - line.length) items ++ sent, missing,
        ?_, ?_, ?_, ?_⟩
      · rw [hrun₁]
        exact hrun
      · rw [hhanded, hhanded₁]
        simp only [List.append_assoc]
      · -- the rest of the headers follows what has been printed
        rw [List.append_assoc, hsent, wholePart, wholePart, if_neg hne, printed]
        generalize taken (client.bufferSizeTx - line.length) 0 items = tk at *
        subst hrest
        by_cases hnil : rest = []
        · simp [hnil]
        · simp [hnil]
      · have hroom := taken_room 0 htaken
        rw [Nat.zero_add] at hroom
        rw [hmissing, hsize]
        conv_rhs => rw [hrest]
        exact (fits_append htaken hroom).symm

/-- What `esp_http_client_request_send` does at the beginning of a request. -/
lemma requestSend_spec (client : Client) (writeLen : ℤ)
    (hfresh : client.firstLinePrepared = false) :
    if (client.setLength writeLen).line.length < client.bufferSizeTx then
      ∃ sent missing, (requestSend t.write client writeLen).1 = .ok ∧
        (requestSend t.write client writeLen).2.handed = client.handed ++ sent ∧
        sent ++ missing = (client.setLength writeLen).line ++
          texts (client.setLength writeLen).headers ++ crlf ∧
        (missing = [] ↔ Fits client.bufferSizeTx (client.setLength writeLen).line.length
          (client.setLength writeLen).headers)
    else (requestSend t.write client writeLen).1 = .fail := by
  have hprinted := prepareFirstLine_printed client writeLen
  rw [Client.Printed] at hprinted
  rw [← client.setLength_bufferSizeTx writeLen]
  unfold requestSend
  rw [hfresh]
  simp only [Bool.false_eq_true, if_false]
  split
  · next hlt =>
    rw [if_pos hlt] at hprinted
    obtain ⟨data, hprep, hread⟩ := hprinted
    rw [hprep]
    have hne := client.setLength_headers_ne_nil writeLen
    have hhanded : (client.setLength writeLen).handed = client.handed := by
      unfold Client.setLength
      split <;> rfl
    generalize client.setLength writeLen = c at *
    have hready : Client.Ready { c with
        data := data, firstLinePrepared := true, headerIndex := 0, dataWrittenIndex := 0,
        dataWriteLeft := 0 } c.line [] c.headers :=
      ⟨rfl, rfl, hread, by dsimp only; omega, .inl rfl⟩
    obtain ⟨c', sent, missing, hrun, hsent, hwhole, hmissing⟩ := sendHeaders_run t hready
    dsimp only at hrun
    rw [Nat.cast_sub (by omega)] at hrun
    simp only [sendLeftover, lt_irrefl, if_false, hrun]
    refine ⟨sent, missing, trivial, by rw [hsent, ← hhanded], ?_, hmissing⟩
    rw [hwhole, wholePart, if_neg hne]
  · next hlt =>
    rw [if_neg hlt] at hprinted
    generalize prepareFirstLine client writeLen = r at *
    obtain ⟨len, c⟩ := r
    cases hprinted
    rfl

/-- When the result is `ESP_OK`, the request line, every header in the order of the list and the
empty line have been sent, if and only if the request line does not fit into the buffer, or the
first header fits behind it and every header into the buffer. -/
theorem requestSend_complete_iff (t : Accepting) (client : Client) (writeLen : ℤ)
    (hfresh : client.firstLinePrepared = false) :
    ((requestSend t.write client writeLen).1 = .ok →
      (requestSend t.write client writeLen).2.handed = client.handed ++
        ((client.setLength writeLen).line ++ texts (client.setLength writeLen).headers ++ crlf)) ↔
    client.bufferSizeTx ≤ (client.setLength writeLen).line.length ∨
      Fits client.bufferSizeTx (client.setLength writeLen).line.length
        (client.setLength writeLen).headers := by
  have hspec := requestSend_spec t client writeLen hfresh
  split at hspec
  · next hlt =>
    obtain ⟨sent, missing, hok, hhanded, hwhole, hmissing⟩ := hspec
    rw [← hmissing, hhanded, ← hwhole, List.append_cancel_left_eq]
    constructor
    · intro h
      exact .inr (List.self_eq_append_right.1 (h hok))
    · rintro (hle | rfl) -
      · omega
      · rw [List.append_nil]
  · next hlt =>
    refine iff_of_true (fun h => ?_) (.inl (Nat.not_lt.1 hlt))
    rw [hspec] at h
    cases h

/-- A transport that takes every write as a whole. -/
def takesAll : Accepting where
  write _ len := len
  pos _ _ h := h
  le _ _ _ := le_rfl

/-- A `GET` of `/` with one header, at the beginning. -/
def getClient (bufferSizeTx : ℕ) (host : List Byte) : Client where
  method := .get
  path := ascii "/"
  query := none
  headers := [⟨ascii "Host", host⟩]
  bufferSizeTx := bufferSizeTx
  data := fun _ => 0
  postLen := 0
  isAsync := false
  state := .connected
  firstLinePrepared := false
  headerIndex := 0
  dataWrittenIndex := 0
  dataWriteLeft := 0
  calls := 0
  handed := []

theorem requestSend_complete_small :
    (requestSend takesAll.write (getClient 512 (ascii "a.b")) 0).1 = .ok ∧
      (requestSend takesAll.write (getClient 512 (ascii "a.b")) 0).2.handed =
        [] ++ (((getClient 512 (ascii "a.b")).setLength 0).line ++
          texts ((getClient 512 (ascii "a.b")).setLength 0).headers ++ crlf) := by
  have hspec := requestSend_spec takesAll (getClient 512 (ascii "a.b")) 0 rfl
  rw [if_pos (by decide +kernel)] at hspec
  obtain ⟨-, -, hok, -⟩ := hspec
  exact ⟨hok, (requestSend_complete_iff takesAll (getClient 512 (ascii "a.b")) 0 rfl).2
    (.inr ⟨by decide +kernel, by decide +kernel⟩) hok⟩

/-- With a buffer of 24 bytes the header does not fit behind the request line, and nothing at all is
sent. -/
theorem requestSend_sends_nothing :
    (requestSend takesAll.write (getClient 24 (ascii "a.b")) 0).1 = .ok ∧
      (requestSend takesAll.write (getClient 24 (ascii "a.b")) 0).2.handed ≠
        ((getClient 24 (ascii "a.b")).setLength 0).line ++
          texts ((getClient 24 (ascii "a.b")).setLength 0).headers ++ crlf := by
  have hspec := requestSend_spec takesAll (getClient 24 (ascii "a.b")) 0 rfl
  rw [if_pos (by decide +kernel)] at hspec
  obtain ⟨sent, missing, hok, hhanded, hwhole, hmissing⟩ := hspec
  refine ⟨hok, ?_⟩
  have hfits : ¬ Fits (getClient 24 (ascii "a.b")).bufferSizeTx
      ((getClient 24 (ascii "a.b")).setLength 0).line.length
      ((getClient 24 (ascii "a.b")).setLength 0).headers := fun h =>
    absurd (h.first ⟨ascii "Host", ascii "a.b"⟩ (by decide +kernel)) (by decide +kernel)
  rw [hhanded, ← hwhole]
  intro h
  exact hfits (hmissing.1 (List.self_eq_append_right.1 h))

end EspIdf.HttpClient
