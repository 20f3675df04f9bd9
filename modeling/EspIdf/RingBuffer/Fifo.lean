/-
# First in, first out

A consumer that returns each piece before it retrieves the next one sees what was sent, in
order: the items of a no-split buffer, the items of an allow-split buffer whole or in two
parts, the bytes of a byte buffer.
-/
import EspIdf.RingBuffer.Queue
import EspIdf.RingBuffer.Bytes

namespace EspIdf.RingBuffer.Fifo

open EspIdf.Lib

/-! ### Runs -/

/-- A buffer and one consumer: the piece it holds, what was sent and what it has retrieved. -/
structure World where
  rb : Ringbuffer
  held : Option Retrieved
  sent : List (List Byte)
  got : List (List Byte)

/-- What tasks do with the buffer; a byte buffer is asked for at most `xMaxSize` bytes when that
is not zero. -/
inductive Op where
  | send (item : List Byte)
  | receive (xMaxSize : ℕ)
  | giveBack
deriving DecidableEq, Repr

/-- `xRingbufferReceiveUpTo` on a byte buffer with a bound, `xRingbufferReceive` otherwise. -/
def receive (xMaxSize : ℕ) : RbM (Option Retrieved) := do
  let rb ← Prog.get
  if rb.type = .byteBuf ∧ xMaxSize ≠ 0 then xRingbufferReceiveUpTo xMaxSize else xRingbufferReceive

/-- One operation.  The consumer retrieves nothing while it holds a piece. -/
def step (w : World) : Op → Except Stop World
  | .send item =>
    match xRingbufferSend item w.rb with
    | (.ok true, rb) => .ok { w with rb := rb, sent := w.sent ++ [item] }
    | (.ok false, rb) => .ok { w with rb := rb }
    | (.error e, _) => .error e
  | .receive xMaxSize =>
    match w.held with
    | some _ => .ok w
    | none =>
      match receive xMaxSize w.rb with
      | (.ok none, rb) => .ok { w with rb := rb }
      | (.ok (some r), rb) =>
        .ok { w with
          rb := rb, held := some r, got := w.got ++ [rb.mem.read r.pvItem r.xItemSize] }
      | (.error e, _) => .error e
  | .giveBack =>
    match w.held with
    | none => .ok w
    | some r =>
      match vRingbufferReturnItem r.pvItem w.rb with
      | (.ok (), rb) => .ok { w with rb := rb, held := none }
      | (.error e, _) => .error e

section Steps

variable {w : World} {rb : Ringbuffer} {r : Retrieved} {xMaxSize : ℕ}

lemma step_receive_none (hheld : w.held = none) (h : receive xMaxSize w.rb = (.ok none, w.rb)) :
    step w (.receive xMaxSize) = .ok w := by
  obtain ⟨rb, held, sent, got⟩ := w
  obtain rfl : held = none := hheld
  simp only [step, h]

lemma step_receive_some (hheld : w.held = none)
    (h : receive xMaxSize w.rb = (.ok (some r), rb)) :
    step w (.receive xMaxSize) =
      .ok ⟨rb, some r, w.sent, w.got ++ [rb.mem.read r.pvItem r.xItemSize]⟩ := by
  simp only [step, hheld, h]

lemma step_giveBack (hheld : w.held = some r)
    (h : vRingbufferReturnItem r.pvItem w.rb = (.ok (), rb)) :
    step w .giveBack = .ok ⟨rb, none, w.sent, w.got⟩ := by
  simp only [step, hheld, h]

end Steps

/-- A sequence of operations. -/
def run : World → List Op → Except Stop World := List.foldlM step

/-- A new buffer. -/
def start (rb : Ringbuffer) : World := ⟨rb, none, [], []⟩

/-! ### What the consumer sees -/

/-- Each item arrives whole or as two consecutive parts. -/
inductive Splits : List (List Byte) → List (List Byte) → Prop
  | nil : Splits [] []
  | whole {items pieces : List (List Byte)} (item : List Byte) :
    Splits items pieces → Splits (items ++ [item]) (pieces ++ [item])
  | parts {items pieces : List (List Byte)} (part₁ part₂ : List Byte) :
    Splits items pieces → Splits (items ++ [part₁ ++ part₂]) (pieces ++ [part₁, part₂])

/-- How the pieces that are retrieved make up what was sent. -/
def Conveys : RingbufferType → List (List Byte) → List (List Byte) → Prop
  | .noSplit, sent, pieces => pieces = sent
  | .allowSplit, sent, pieces => Splits sent pieces
  | .byteBuf, sent, pieces => pieces.flatten = sent.flatten

/-- What `xItemsWaiting` counts: pieces, or bytes. -/
def amount : RingbufferType → List (List Byte) → ℕ
  | .byteBuf, pieces => pieces.flatten.length
  | _, pieces => pieces.length

/-- The consumer sees what was sent. -/
structure Delivered (type : RingbufferType) (w : World) : Prop where
  /-- What was retrieved and what is unread make up what was sent. -/
  conveyed : ∃ unread, Conveys type w.sent (w.got ++ unread) ∧
    w.rb.xItemsWaiting = amount type unread
  /-- The piece that the consumer holds is still the last one that it retrieved. -/
  holding : ∀ r, w.held = some r →
    w.got.getLast? = some (w.rb.mem.read r.pvItem r.xItemSize)
  /-- The next piece can be retrieved when something is unread. -/
  progress : w.held = none → 0 < w.rb.xItemsWaiting → ∀ xMaxSize, ∃ w' piece,
    step w (.receive xMaxSize) = .ok w' ∧ w'.got = w.got ++ [piece] ∧
      (type = .byteBuf → piece ≠ [] ∧ (xMaxSize ≠ 0 → piece.length ≤ xMaxSize))

/-! ### No-split and allow-split buffers -/

/-- The data of the items among the cells. -/
def pieces (cs : List Cell) : List (List Byte) := (cs.filter fun c => !c.dummy).map Cell.data

/-- The piece that the consumer holds is the only item before the read pointer. -/
def HoldsItem (rb : Ringbuffer) (H : List Cell) (got : List (List Byte)) :
    Option Retrieved → Prop
  | none => H = []
  | some r => ∃ D c, H = D ++ [c] ∧ (∀ d ∈ D, d.dummy = true) ∧ c.dummy = false ∧
    c.free = false ∧ r.pvItem = rb.place c.pos + 8 ∧ r.xItemSize = c.data.length ∧
    got.getLast? = some c.data

/-- The cells past the read pointer are what is unread. -/
def ItemInv (w : World) : Prop :=
  ∃ k H R, Queue w.rb k H R ∧ HoldsItem w.rb H w.got w.held ∧
    Conveys w.rb.type w.sent (w.got ++ pieces R)

section Items

variable {w : World} {rb rb' : Ringbuffer} {H R : List Cell} {got : List (List Byte)}

lemma pieces_append (cs ds : List Cell) : pieces (cs ++ ds) = pieces cs ++ pieces ds := by
  rw [pieces, List.filter_append, List.map_append]
  rfl

lemma length_pieces (cs : List Cell) : (pieces cs).length = cs.countP fun c => !c.dummy := by
  rw [pieces, List.length_map, List.countP_eq_length_filter]

/-- The unread pieces of the cells in front of which dummy data stands. -/
lemma pieces_next {D : List Cell} {c : Cell} (hD : ∀ d ∈ D, d.dummy = true)
    (hc : c.dummy = false) : pieces (D ++ c :: R) = c.data :: pieces R := by
  have hnil : pieces D = [] := by
    rw [pieces, List.filter_eq_nil_iff.mpr fun d hd => by simp [hD d hd], List.map_nil]
  rw [pieces_append, hnil, List.nil_append, pieces, List.filter_cons, if_pos (by simp [hc]),
    List.map_cons]
  rfl

/-- An item that is sent is conveyed by the cells that carry it. -/
lemma Conveys.send {type : RingbufferType} {sent ps : List (List Byte)} {item : List Byte}
    {cs : List Cell} (hc : Conveys type sent ps) (htype : type ≠ .byteBuf)
    (hcar : Carries item cs) (hno : type = .noSplit → ∀ c ∈ cs, c.split = false) :
    Conveys type (sent ++ [item]) (ps ++ pieces cs) := by
  have hwhole : Conveys type (sent ++ [item]) (ps ++ [item]) := by
    cases type with
    | noSplit => exact congrArg (· ++ [item]) hc
    | allowSplit => exact .whole item hc
    | byteBuf => exact absurd rfl htype
  rcases hcar with ⟨c, rfl, hd, h1, _⟩ | ⟨d, c, rfl, h0, hd, h1, _⟩ |
    ⟨c₁, c₂, rfl, hd, h1, h2, _, _, h3, _⟩
  · have hp : pieces [c] = [item] := by
      rw [← hd]
      exact pieces_next (D := []) (by simp) h1
    rw [hp]
    exact hwhole
  · have hp : pieces [d, c] = [item] := by
      rw [← hd]
      exact pieces_next (D := [d]) (by simp [h0]) h1
    rw [hp]
    exact hwhole
  · have hp : pieces [c₁, c₂] = [c₁.data, c₂.data] := by
      simp [pieces, h1, h2]
    rw [hp, ← hd]
    cases type with
    | noSplit => exact absurd (hno rfl c₁ (by simp)) (by simp [h3])
    | allowSplit => exact .parts c₁.data c₂.data hc
    | byteBuf => exact absurd rfl htype

lemma HoldsItem.congr (hs : SameStorage rb' rb) {held : Option Retrieved}
    (h : HoldsItem rb H got held) : HoldsItem rb' H got held := by
  cases held with
  | none => exact h
  | some r =>
    obtain ⟨D, c, h1, h2, h3, h4, h5, h6, h7⟩ := h
    exact ⟨D, c, h1, h2, h3, h4, by rw [hs.place]; exact h5, h6, h7⟩

/-- The retrieval that `step` makes on such a buffer. -/
lemma receive_item (htype : rb.type ≠ .byteBuf) (xMaxSize : ℕ) :
    receive xMaxSize rb = xRingbufferReceive rb := by
  rw [receive, Prog.get_bind, if_neg fun hc => htype hc.1]

lemma item_send (h : ItemInv w) (item : List Byte) :
    ∃ w', step w (.send item) = .ok w' ∧ ItemInv w' ∧ w'.rb.type = w.rb.type := by
  obtain ⟨k, H, R, hq, hheld, hconv⟩ := h
  rcases hq.send item with ⟨h1, _⟩ | ⟨rb', a, cs, h1, hq', hs, hcar, hno⟩
  · exact ⟨w, by rw [step, h1], ⟨k, H, R, hq, hheld, hconv⟩, rfl⟩
  · refine ⟨_, by rw [step, h1], ⟨_, H, _, hq', hheld.congr hs, ?_⟩, hs.type⟩
    rw [hs.type, pieces_append, ← List.append_assoc]
    exact hconv.send hq.layout.storage.type_ne hcar hno

lemma item_receive (h : ItemInv w) (hheld : w.held = none) (xMaxSize : ℕ) :
    (w.rb.xItemsWaiting = 0 ∧ step w (.receive xMaxSize) = .ok w) ∨
      ∃ w' piece, step w (.receive xMaxSize) = .ok w' ∧ ItemInv w' ∧
        w'.rb.type = w.rb.type ∧ w'.got = w.got ++ [piece] := by
  obtain ⟨k, H, R, hq, hH, hconv⟩ := h
  rw [hheld] at hH
  obtain rfl : H = [] := hH
  have hrec := receive_item hq.layout.storage.type_ne xMaxSize
  rcases hq.receive with ⟨hw, h1⟩ | ⟨rb', D, c, R', rfl, hD, hd, hf, h1, hq', hs, hm⟩
  · exact .inl ⟨hw, step_receive_none hheld (hrec.trans h1)⟩
  · have hdata : rb'.mem.read (w.rb.place c.pos + 8) c.data.length = c.data := by
      rw [← hs.place]
      exact ((hq'.layout.stored c (by simp)).item hd).2.2.2.2.2
    have hstep := step_receive_some hheld (hrec.trans h1)
    rw [hdata] at hstep
    refine .inr ⟨_, c.data, hstep, ?_, hs.type, rfl⟩
    refine ⟨_, _, R', hq', ⟨D, c, rfl, hD, hd, hf, ?_, rfl, List.getLast?_concat⟩, ?_⟩
    · rw [hs.place]
    · rw [pieces_next hD hd] at hconv
      rw [hs.type, List.append_assoc]
      exact hconv

lemma item_giveBack (h : ItemInv w) :
    ∃ w', step w .giveBack = .ok w' ∧ ItemInv w' ∧ w'.rb.type = w.rb.type := by
  cases hheld : w.held with
  | none => exact ⟨w, by simp only [step, hheld], h, rfl⟩
  | some r =>
    obtain ⟨k, H, R, hq, hH, hconv⟩ := h
    rw [hheld] at hH
    obtain ⟨D, c, rfl, hD, hd, hf, hp, _, _⟩ := hH
    -- the other cells before the read pointer are dummy data
    have honly : ∀ e ∈ D ++ [c], e.dummy = false → e.pos = c.pos := by
      intro e he hed
      rcases List.mem_append.mp he with he | he
      · rw [hD e he] at hed
        simp at hed
      · rw [List.mem_singleton.mp he]
    obtain ⟨rb', p, h1, hq', hs⟩ := hq.giveBack (c := c) (by simp) hd hf
      fun _ _ e he hed _ => honly e he hed
    have hgone : ∀ e ∈ (D ++ [c]).map (Cell.updateAt c.pos Cell.giveBack),
        Cell.gone e = true := by
      intro e' he'
      obtain ⟨e, he, rfl⟩ := List.mem_map.mp he'
      rw [Cell.updateAt, Cell.gone]
      split_ifs with hpos
      · exact Bool.or_true _
      · cases hed : e.dummy with
        | true => rfl
        | false => exact absurd (honly e he hed) hpos
    rw [List.dropWhile_eq_nil_iff.mpr hgone] at hq'
    rw [← hp] at h1
    refine ⟨_, step_giveBack hheld h1, ⟨_, [], R, hq', rfl, ?_⟩, hs.type⟩
    rw [hs.type]
    exact hconv

/-- What the invariant says about the consumer. -/
lemma ItemInv.delivered (h : ItemInv w) : Delivered w.rb.type w := by
  refine ⟨?_, fun r hr => ?_, fun hheld hw xMaxSize => ?_⟩
  · obtain ⟨k, H, R, hq, _, hconv⟩ := h
    refine ⟨pieces R, hconv, ?_⟩
    have hamount : amount w.rb.type (pieces R) = (pieces R).length := by
      cases hty : w.rb.type with
      | byteBuf => exact absurd hty hq.layout.storage.type_ne
      | noSplit => rfl
      | allowSplit => rfl
    rw [hamount, length_pieces, hq.waiting]
  · obtain ⟨k, H, R, hq, hH, _⟩ := h
    rw [hr] at hH
    obtain ⟨D, c, rfl, _, hd, _, hp, hlen, hgot⟩ := hH
    rw [hp, hlen, hgot, ((hq.layout.stored c (by simp)).item hd).2.2.2.2.2]
  · rcases item_receive h hheld xMaxSize with ⟨h0, _⟩ | ⟨w', piece, h1, _, _, h2⟩
    · omega
    · obtain ⟨k, H, R, hq, _⟩ := h
      exact ⟨w', piece, h1, h2, fun hb => absurd hb hq.layout.storage.type_ne⟩

end Items

/-! ### Byte buffers -/

/-- The bytes that the consumer holds lie between the free pointer and the read pointer. -/
def HoldsBytes (rb : Ringbuffer) (f r : ℕ) (got : List (List Byte)) : Option Retrieved → Prop
  | none => r = f
  | some x => 0 < x.xItemSize ∧ r = f + x.xItemSize ∧ f % rb.xSize + x.xItemSize ≤ rb.xSize ∧
    x.pvItem = rb.place f ∧ got.getLast? = some (rb.mem.read x.pvItem x.xItemSize)

/-- The bytes past the read pointer are what is unread. -/
def ByteInv (w : World) : Prop :=
  ∃ f r a unread, ByteQueue w.rb f r a unread ∧ 0 < w.rb.pucHead ∧
    HoldsBytes w.rb f r w.got w.held ∧ w.got.flatten ++ unread = w.sent.flatten

section Bytes

variable {w : World} {rb rb' : Ringbuffer} {f r : ℕ} {got : List (List Byte)}

/-- The bytes that are held are not changed by what leaves the ring before the read pointer
alone. -/
lemma HoldsBytes.congr (hs : SameStorage rb' rb) {held : Option Retrieved}
    (hm : ∀ x, f ≤ x → x < r → rb'.mem (rb.place x) = rb.mem (rb.place x))
    (h : HoldsBytes rb f r got held) : HoldsBytes rb' f r got held := by
  cases held with
  | none => exact h
  | some x =>
    obtain ⟨h1, h2, h3, h4, h5⟩ := h
    refine ⟨h1, h2, by rw [hs.size]; exact h3, by rw [hs.place]; exact h4, ?_⟩
    rw [h5, h4, Option.some_inj]
    refine List.map_congr_left fun i hi => ?_
    have hi := List.mem_range.mp hi
    have hplace : rb.place f + i = rb.place (f + i) := by
      rw [Ringbuffer.place, Ringbuffer.place, Ring.add_mod_of_lt (by omega), Nat.add_assoc]
    rw [hplace, hm (f + i) (by omega) (by omega)]

/-- The retrieval that `step` makes on a byte buffer. -/
lemma receive_bytes (htype : rb.type = .byteBuf) (xMaxSize : ℕ) :
    receive xMaxSize rb = receiveOne xMaxSize rb := by
  rw [receive, Prog.get_bind]
  by_cases hz : xMaxSize = 0
  · rw [if_neg fun hc => hc.2 hz, hz]
    rfl
  · rw [if_pos ⟨htype, hz⟩, xRingbufferReceiveUpTo, Prog.get_bind,
      Prog.bind_ok (configAssert_true (decide_eq_true htype) rb), if_neg hz]

lemma byte_send (h : ByteInv w) (item : List Byte) :
    ∃ w', step w (.send item) = .ok w' ∧ ByteInv w' ∧ w'.rb.type = w.rb.type := by
  obtain ⟨f, r, a, unread, hq, hhead, hheld, hconv⟩ := h
  rcases hq.send item with ⟨h1, _⟩ | ⟨rb', h1, hq', hs, hold⟩
  · exact ⟨w, by rw [step, h1], ⟨f, r, a, unread, hq, hhead, hheld, hconv⟩, rfl⟩
  · have hlen := hq.length_eq
    refine ⟨_, by rw [step, h1], ⟨f, r, _, _, hq', ?_, ?_, ?_⟩, hs.type⟩
    · rw [hs.head]
      exact hhead
    · exact hheld.congr hs fun x h2 h3 => hold x h2 (by omega)
    · rw [← List.append_assoc, hconv, List.flatten_concat]

lemma byte_receive (h : ByteInv w) (hheld : w.held = none) (xMaxSize : ℕ) :
    (w.rb.xItemsWaiting = 0 ∧ step w (.receive xMaxSize) = .ok w) ∨
      ∃ w' piece, step w (.receive xMaxSize) = .ok w' ∧ ByteInv w' ∧
        w'.rb.type = w.rb.type ∧ w'.got = w.got ++ [piece] ∧ piece ≠ [] ∧
        (xMaxSize ≠ 0 → piece.length ≤ xMaxSize) := by
  obtain ⟨f, r, a, unread, hq, hhead, hH, hconv⟩ := h
  rw [hheld] at hH
  obtain rfl : r = f := hH
  have hrec := receive_bytes hq.storage.type_eq xMaxSize
  rcases hq.receive xMaxSize with
    ⟨rfl, h1⟩ | ⟨rb', n, h1, hq', hs, hm, hpos, hle, hend, hmax, _, hread⟩
  · exact .inl ⟨by rw [hq.waiting]; rfl, step_receive_none hheld (hrec.trans h1)⟩
  · have hdata : rb'.mem.read (w.rb.place r) n = unread.take n := by
      rw [hm]
      exact hread
    have hlen : (unread.take n).length = n := by
      rw [List.length_take]
      omega
    have hstep := step_receive_some hheld (hrec.trans h1)
    rw [hdata] at hstep
    refine .inr ⟨_, unread.take n, hstep, ?_, hs.type, rfl, ?_,
      fun hz => by rw [hlen]; exact hmax hz⟩
    · refine ⟨r, r + n, a, _, hq', ?_, ⟨hpos, rfl, ?_, ?_, ?_⟩, ?_⟩
      · rw [hs.head]
        exact hhead
      · rw [hs.size]
        exact hend
      · rw [hs.place]
      · rw [List.getLast?_concat, hdata]
      · rw [List.flatten_concat, List.append_assoc, List.take_append_drop]
        exact hconv
    · intro hnil
      rw [hnil, List.length_nil] at hlen
      omega

lemma byte_giveBack (h : ByteInv w) :
    ∃ w', step w .giveBack = .ok w' ∧ ByteInv w' ∧ w'.rb.type = w.rb.type := by
  cases hheld : w.held with
  | none => exact ⟨w, by simp only [step, hheld], h, rfl⟩
  | some x =>
    obtain ⟨f, r, a, unread, hq, hhead, hH, hconv⟩ := h
    rw [hheld] at hH
    obtain ⟨hpos, hr, _, hp, _⟩ := hH
    obtain ⟨rb', h1, hq', hs⟩ := hq.giveBack (by omega) hhead f
    rw [← hp] at h1
    refine ⟨_, step_giveBack hheld h1, ⟨r, r, a, unread, hq', ?_, rfl, hconv⟩, hs.type⟩
    rw [hs.head]
    exact hhead

/-- What the invariant says about the consumer. -/
lemma ByteInv.delivered (h : ByteInv w) : Delivered .byteBuf w := by
  refine ⟨?_, fun x hx => ?_, fun hheld hw xMaxSize => ?_⟩
  · obtain ⟨f, r, a, unread, hq, _, _, hconv⟩ := h
    refine ⟨[unread], ?_, ?_⟩
    · rw [Conveys, List.flatten_concat]
      exact hconv
    · rw [amount, List.flatten_singleton, hq.waiting]
  · obtain ⟨f, r, a, unread, _, _, hH, _⟩ := h
    rw [hx] at hH
    exact hH.2.2.2.2
  · rcases byte_receive h hheld xMaxSize with ⟨h0, _⟩ | ⟨w', piece, h1, _, _, h2, h3⟩
    · omega
    · exact ⟨w', piece, h1, h2, fun _ => h3⟩

end Bytes

/-! ### Every run -/

/-- The invariant of a buffer of any type. -/
def Inv (w : World) : Prop :=
  match w.rb.type with
  | .byteBuf => ByteInv w
  | _ => ItemInv w

section Runs

variable {w : World}

lemma inv_items (htype : w.rb.type ≠ .byteBuf) : Inv w ↔ ItemInv w := by
  rw [Inv]
  split
  · exact absurd ‹_› htype
  · rfl

lemma inv_bytes (htype : w.rb.type = .byteBuf) : Inv w ↔ ByteInv w := by
  rw [Inv, htype]

lemma Inv.delivered (h : Inv w) : Delivered w.rb.type w := by
  by_cases htype : w.rb.type = .byteBuf
  · rw [htype]
    exact ((inv_bytes htype).mp h).delivered
  · exact ((inv_items htype).mp h).delivered

/-- Every operation keeps the invariant. -/
lemma step_inv (h : Inv w) (op : Op) :
    ∃ w', step w op = .ok w' ∧ Inv w' ∧ w'.rb.type = w.rb.type := by
  by_cases htype : w.rb.type = .byteBuf
  · rw [inv_bytes htype] at h
    obtain ⟨w', h1, h2, h3⟩ : ∃ w', step w op = .ok w' ∧ ByteInv w' ∧ w'.rb.type = w.rb.type := by
      cases op with
      | send item => exact byte_send h item
      | giveBack => exact byte_giveBack h
      | receive xMaxSize =>
        cases hheld : w.held with
        | some r => exact ⟨w, by simp only [step, hheld], h, rfl⟩
        | none =>
          rcases byte_receive h hheld xMaxSize with ⟨_, h1⟩ | ⟨w', _, h1, h2, h3, _⟩
          · exact ⟨w, h1, h, rfl⟩
          · exact ⟨w', h1, h2, h3⟩
    exact ⟨w', h1, (inv_bytes (h3.trans htype)).mpr h2, h3⟩
  · rw [inv_items htype] at h
    obtain ⟨w', h1, h2, h3⟩ : ∃ w', step w op = .ok w' ∧ ItemInv w' ∧ w'.rb.type = w.rb.type := by
      cases op with
      | send item => exact item_send h item
      | giveBack => exact item_giveBack h
      | receive xMaxSize =>
        cases hheld : w.held with
        | some r => exact ⟨w, by simp only [step, hheld], h, rfl⟩
        | none =>
          rcases item_receive h hheld xMaxSize with ⟨_, h1⟩ | ⟨w', _, h1, h2, h3, _⟩
          · exact ⟨w, h1, h, rfl⟩
          · exact ⟨w', h1, h2, h3⟩
    exact ⟨w', h1, (inv_items (by rw [h3]; exact htype)).mpr h2, h3⟩

/-- Every run keeps the invariant. -/
lemma run_inv (h : Inv w) (ops : List Op) :
    ∃ w', run w ops = .ok w' ∧ Inv w' ∧ w'.rb.type = w.rb.type := by
  induction ops generalizing w with
  | nil => exact ⟨w, rfl, h, rfl⟩
  | cons op ops ih =>
    obtain ⟨w₁, h1, hinv, hty₁⟩ := step_inv h op
    obtain ⟨w', h2, hinv', hty'⟩ := ih hinv
    exact ⟨w', by rw [run, List.foldlM_cons, h1]; exact h2, hinv', hty'.trans hty₁⟩

lemma start_inv {mem : Mem} {size storage : ℕ} {type : RingbufferType} (hsize : 16 ≤ size)
    (halign : storage % 4 = 0) (hpos : 0 < storage) (hend : storage + size + 3 < 2 ^ 32)
    (hlt : size + 3 < 2 ^ 31) : Inv (start (xRingbufferCreate mem size type storage)) := by
  by_cases htype : type = .byteBuf
  · subst htype
    exact ⟨0, 0, 0, [], create_byteQueue (by omega) (by omega) (by omega), hpos, rfl, rfl⟩
  · have hup : alignUp size ≤ size + 3 := by rw [alignUp]; omega
    refine (inv_items htype).mpr ⟨_, [], [], create_queue (by omega) (fun _ => by omega) halign (by omega)
      (by omega) htype, rfl, ?_⟩
    cases type with
    | noSplit => rfl
    | allowSplit => exact .nil
    | byteBuf => exact absurd rfl htype

/-- In every run on a buffer of any type in which the consumer returns each piece before it
retrieves the next one, no check fails and the consumer sees what was sent. -/
theorem received_as_sent (mem : Mem) (size storage : ℕ) (type : RingbufferType) (ops : List Op)
    (hsize : 16 ≤ size) (halign : storage % 4 = 0) (hpos : 0 < storage)
    (hend : storage + size + 3 < 2 ^ 32) (hlt : size + 3 < 2 ^ 31) :
    ∃ w, run (start (xRingbufferCreate mem size type storage)) ops = .ok w ∧
      w.rb.type = type ∧ Delivered type w := by
  have hstart : Inv (start (xRingbufferCreate mem size type storage)) :=
    start_inv hsize halign hpos hend hlt
  obtain ⟨w, h1, hw, hty⟩ := run_inv hstart ops
  have hty : w.rb.type = type := hty
  exact ⟨w, h1, hty, by rw [← hty]; exact hw.delivered⟩

/-- An allow-split buffer of 32 bytes whose second item wraps around. -/
theorem received_as_sent_split :
    ∃ w, run (start (xRingbufferCreate (fun _ => 0#8) 32 .allowSplit 0x3ffb0000))
      [.send [1, 2, 3, 4], .receive 0, .giveBack, .send [5, 6, 7, 8, 9, 10, 11, 12, 13, 14, 15, 16],
        .receive 0, .giveBack, .receive 0] = .ok w ∧
      w.rb.type = .allowSplit ∧ Delivered .allowSplit w :=
  received_as_sent _ _ _ _ _ (by decide) (by decide) (by decide) (by decide) (by decide)

end Runs

end EspIdf.RingBuffer.Fifo
