/-
# The DHCP server

The server keeps a list of leases in the order of their addresses as words in network order, and
the address that it offers next.  For a client without a lease one pass over the list advances two
candidates past addresses that are in use.
-/
import Mathlib

namespace EspIdf.Dhcps

/-- `htonl`, on a word of 32 bits. -/
def htonl (x : ℕ) : ℕ :=
  x % 256 * 16777216 + x / 256 % 256 * 65536 + x / 65536 % 256 * 256 + x / 16777216 % 256

/-- `struct dhcps_pool`; the address is a word in network order. -/
structure Lease where
  ip : ℕ
  mac : BitVec 48
  leaseTimer : ℕ
deriving DecidableEq

/-- `dhcps_lease_t`. -/
structure Poll where
  enable : Bool
  startIp : ℕ
  endIp : ℕ
deriving DecidableEq

/-- The configuration of the server. -/
structure Config where
  /-- `dhcps_lease_time * DHCPS_LEASE_UNIT / DHCPS_COARSE_TIMER_SECS`. -/
  leaseTimer : ℕ
  /-- `MAX_STATION_NUM`. -/
  maxStationNum : ℕ
  maxStationNum_pos : 1 ≤ maxStationNum

/-- `DHCPS_MAX_LEASE`. -/
def dhcpsMaxLease : ℕ := 0x64

/-- The variables of the server. -/
structure Server where
  plist : List Lease
  dhcpsPoll : Poll
  clientAddress : ℕ
  clientAddressPlus : ℕ

/-- `struct dhcps_msg`: what the server reads of it.  `options` is the memory from the options on,
and `len` the length that `parse_options` is given. -/
structure Msg where
  chaddr : BitVec 48
  ciaddr : ℕ
  options : ℕ → BitVec 8
  len : ℤ

/-- `DHCPS_STATE_*`. -/
inductive MsgState where
  | offer
  | decline
  | ack
  | nak
  | idle
  | release
deriving DecidableEq

/-! ### Messages -/

/-- Four bytes of memory as a word. -/
def word (opt : ℕ → BitVec 8) (i : ℕ) : ℕ :=
  (opt i).toNat + (opt (i + 1)).toNat * 256 + (opt (i + 2)).toNat * 65536 +
    (opt (i + 3)).toNat * 16777216

/-- The loop of `parse_options`, with the message type and the state. -/
def parseOptionsLoop (opt : ℕ → BitVec 8) (client : ℕ) (len : ℤ) :
    ℕ → ℕ → ℕ → MsgState → ℕ × MsgState
  | 0, _, type, state => (type, state)
  | fuel + 1, pos, type, state =>
    if (pos : ℤ) < len then
      if opt pos = 255 then (type, state)
      else
        let type := if opt pos = 53 then (opt (pos + 2)).toNat else type
        let state :=
          if opt pos = 50 then if client = word opt (pos + 2) then .ack else .nak else state
        parseOptionsLoop opt client len fuel (pos + (opt (pos + 1)).toNat + 2) type state
    else (type, state)

/-- The loop has come to its end after as many rounds as there are bytes left. -/
lemma parseOptionsLoop_fuel (opt : ℕ → BitVec 8) (client : ℕ) {len : ℤ} {fuel pos : ℕ}
    (h : len ≤ pos + fuel) (type : ℕ) (state : MsgState) :
    parseOptionsLoop opt client len (fuel + 1) pos type state =
      parseOptionsLoop opt client len fuel pos type state := by
  induction fuel generalizing pos type state with
  | zero => exact if_neg (by omega)
  | succ fuel ih =>
    have hnext : len ≤ (pos + (opt (pos + 1)).toNat + 2 : ℕ) + fuel := by omega
    conv_lhs => unfold parseOptionsLoop
    conv_rhs => unfold parseOptionsLoop
    dsimp only
    rw [ih hnext]

/-- `parse_options`.  Each round of the loop takes two bytes at least. -/
def parseOptions (opt : ℕ → BitVec 8) (client : ℕ) (len : ℤ) (renew : Bool) : MsgState :=
  let (type, state) := parseOptionsLoop opt client len len.toNat 0 0 .idle
  if type = 1 then .offer
  else if type = 3 then
    if state = .ack ∨ state = .nak then state else if renew then .ack else .nak
  else if type = 4 then .idle
  else if type = 7 then .release
  else state

/-! ### The list of leases -/

/-- `node_insert_to_list`, with the place of the new node. -/
def nodeInsertToList (plist : List Lease) (e : Lease) : ℕ × List Lease :=
  let i := (plist.takeWhile fun e' => ¬ e.ip < e'.ip).length
  (i, plist.insertIdx i e)

/-- The address after `a`. -/
def nextAddress (a : ℕ) : ℕ := htonl ((htonl a + 1) % 2 ^ 32)

/-- The variables of the search in `parse_msg`. -/
structure Search where
  clientAddressPlus : ℕ
  clientAddress : ℕ
  firstAddress : ℕ
  flag : Bool

/-- The next candidate passes a lease that has its address. -/
def Search.passPlus (q : Search) (e : Lease) : Search :=
  if e.ip = q.clientAddressPlus then
    { q with
      clientAddressPlus := nextAddress q.clientAddressPlus
      clientAddress := nextAddress q.clientAddressPlus }
  else q

/-- The first unused address is searched up to a gap in the list. -/
def Search.passFirst (q : Search) (e : Lease) : Search :=
  if q.flag then q
  else if q.firstAddress < e.ip then { q with flag := true }
  else { q with firstAddress := nextAddress q.firstAddress }

/-- A round of the search at a lease of another client. -/
def Search.pass (q : Search) (e : Lease) : Search := (q.passPlus e).passFirst e

/-- The search, with the lease of the client and its place. -/
def searchLoop (mac : BitVec 48) : List Lease → Search → Option (ℕ × Lease) × Search
  | [], q => (none, q)
  | e :: l, q =>
    if e.mac = mac then (some (0, e), q)
    else
      let (found, q) := searchLoop mac l (q.pass e)
      (found.map fun (i, e) => (i + 1, e), q)

/-- `parse_msg` from `POOL_CHECK` on, with the place of the node. -/
def Server.poolCheck (s : Server) (m : Msg) (renew : Bool) (node : Option ℕ) : MsgState × Server :=
  let remove (s : Server) : Server :=
    match node with
    | some i => { s with plist := s.plist.eraseIdx i }
    | none => s
  if s.clientAddress > s.dhcpsPoll.endIp ∨ s.clientAddress = 0 then (.nak, remove s)
  else
    let ret := parseOptions (fun i => m.options (4 + i)) s.clientAddress m.len renew
    if ret = .release then (ret, { remove s with clientAddress := 0 })
    else (ret, s)

/-- Whether the options begin with `magic_cookie`. -/
def Msg.hasCookie (m : Msg) : Bool := word m.options 0 = 0x63538263

/-- `parse_msg`. -/
def parseMsg (c : Config) (s : Server) (m : Msg) : Option MsgState × Server :=
  if m.hasCookie then
    match searchLoop m.chaddr s.plist
        ⟨s.clientAddressPlus, s.clientAddressPlus, s.dhcpsPoll.startIp, false⟩ with
    | (some (i, e), q) =>
      let s := { s with
        plist := s.plist.set i { e with leaseTimer := c.leaseTimer }
        clientAddress := e.ip
        clientAddressPlus := q.clientAddressPlus }
      let out := s.poolCheck m (e.ip = m.ciaddr) (some i)
      (some out.1, out.2)
    | (none, q) =>
      let client := if s.plist = [] then s.dhcpsPoll.startIp else q.clientAddress
      let client := if q.clientAddressPlus > s.dhcpsPoll.endIp then q.firstAddress else client
      if client > s.dhcpsPoll.endIp then
        let s := { s with
          clientAddress := client
          clientAddressPlus := s.dhcpsPoll.startIp }
        let out := s.poolCheck m false none
        (some out.1, out.2)
      else
        let (i, plist) := nodeInsertToList s.plist ⟨client, m.chaddr, c.leaseTimer⟩
        let s := { s with
          plist := plist
          clientAddress := client
          clientAddressPlus :=
            if client = s.dhcpsPoll.endIp then s.dhcpsPoll.startIp else nextAddress client }
        let out := s.poolCheck m false (some i)
        (some out.1, out.2)
  else (none, s)

/-- What is sent, with the address `yiaddr`. -/
inductive Reply where
  | none
  | offer (yiaddr : ℕ)
  | ack (yiaddr : ℕ)
  | nak (yiaddr : ℕ)
deriving DecidableEq

/-- The answer to a message that has been parsed: `send_offer`, `send_ack` or `send_nak`. -/
def answer : Option MsgState × Server → Reply × Server
  | (some .offer, s) => (.offer s.clientAddress, s)
  | (some .ack, s) => (.ack s.clientAddress, s)
  | (some .nak, s) => (.nak s.clientAddress, s)
  | (_, s) => (.none, s)

/-- `handle_dhcp`. -/
def handleDhcp (c : Config) (s : Server) (m : Msg) : Reply × Server := answer (parseMsg c s m)

/-! ### The lease timer -/

/-- The loop of `kill_oldest_dhcps_pool`, with the place of the lease that is the oldest so far
and its timer. -/
def oldestLoop : List Lease → ℕ → ℕ → ℕ → ℕ
  | [], _, minp, _ => minp
  | e :: l, i, minp, timer =>
    if e.leaseTimer < timer then oldestLoop l (i + 1) i e.leaseTimer
    else oldestLoop l (i + 1) minp timer

/-- `kill_oldest_dhcps_pool`, on a list of two leases at least; it does not look at the first. -/
def killOldestDhcpsPool : List Lease → List Lease
  | e :: e' :: l => e :: (e' :: l).eraseIdx (oldestLoop (e' :: l) 0 0 e'.leaseTimer)
  | l => l

/-- `lease_timer --`, of a `u32_t`. -/
def Lease.tick (e : Lease) : Lease :=
  { e with leaseTimer := if e.leaseTimer = 0 then 2 ^ 32 - 1 else e.leaseTimer - 1 }

/-- The loop of `dhcps_coarse_tmr` from a node on: the list that is left of it, and
`num_dhcps_pool`, which is a `u8_t`. -/
def coarseLoop : List Lease → ℕ → List Lease × ℕ
  | [], num => ([], num)
  | e :: l, num =>
    -- `node_remove_from_list`
    if e.tick.leaseTimer = 0 then coarseLoop l num
    else
      let (l, num) := coarseLoop l ((num + 1) % 256)
      (e.tick :: l, num)

/-- `dhcps_coarse_tmr`. -/
def dhcpsCoarseTmr (c : Config) (s : Server) : Server :=
  let out := coarseLoop s.plist 0
  { s with plist := if out.2 > c.maxStationNum then killOldestDhcpsPool out.1 else out.1 }

/-! ### Start -/

/-- Whether `dhcps_poll_set` keeps a configured pool. -/
def keepsPoll (poll : Poll) (ip : ℕ) : Bool :=
  let softapIp := htonl ip
  let startIp := htonl poll.startIp
  let endIp := htonl poll.endIp
  poll.enable && !(startIp ≤ softapIp ∧ softapIp ≤ endIp) &&
    !((startIp / 256 ≠ softapIp / 256 ∨ endIp / 256 ≠ softapIp / 256) ∨
      (endIp + (2 ^ 32 - startIp)) % 2 ^ 32 > dhcpsMaxLease)

/-- `dhcps_poll_set`. -/
def dhcpsPollSet (poll : Poll) (ip : ℕ) : Poll :=
  if keepsPoll poll ip then poll
  else
    let softapIp := htonl ip - htonl ip % 256
    let localIp :=
      if htonl ip % 256 ≥ 0x80 then htonl ip % 256 - dhcpsMaxLease else htonl ip % 256 + 1
    ⟨false, htonl (softapIp + localIp), htonl (softapIp + (localIp + dhcpsMaxLease - 1))⟩

/-- `dhcps_start`, with no lease left from before. -/
def dhcpsStart (poll : Poll) (ip : ℕ) : Server :=
  ⟨[], dhcpsPollSet poll ip, 0, (dhcpsPollSet poll ip).startIp⟩

/-- What happens to the server. -/
inductive Event where
  | message (m : Msg)
  | coarseTmr

/-- The state after an event, and what is sent. -/
def Server.step (c : Config) (s : Server) : Event → Reply × Server
  | .message m => handleDhcp c s m
  | .coarseTmr => (.none, dhcpsCoarseTmr c s)

end EspIdf.Dhcps
