/-
# Leases are unique and inside the pool

As long as no candidate passes the last address of a pool that ends with the octet 255, the leases
have different clients and different addresses in the pool, and the clients are told their own.
-/
import EspIdf.Dhcps.Server

namespace EspIdf.Dhcps

/-! ### Network order -/

lemma htonl_lt (x : ℕ) : htonl x < 2 ^ 32 := by
  unfold htonl
  omega

lemma htonl_bytes {a b c d : ℕ} (ha : a < 256) (hb : b < 256) (hc : c < 256) (hd : d < 256) :
    htonl (a * 16777216 + b * 65536 + c * 256 + d) =
      d * 16777216 + c * 65536 + b * 256 + a := by
  have h1 : (a * 16777216 + b * 65536 + c * 256 + d) / 256 = a * 65536 + b * 256 + c := by omega
  have h2 : (a * 16777216 + b * 65536 + c * 256 + d) / 65536 = a * 256 + b := by omega
  have h3 : (a * 16777216 + b * 65536 + c * 256 + d) / 16777216 = a := by omega
  unfold htonl
  rw [h1, h2, h3]
  omega

lemma htonl_htonl {x : ℕ} (h : x < 2 ^ 32) : htonl (htonl x) = x := by
  have hhtonl : htonl x = x % 256 * 16777216 + x / 256 % 256 * 65536 + x / 65536 % 256 * 256 +
      x / 16777216 % 256 := rfl
  have h1 : x / 65536 = x / 256 / 256 := (Nat.div_div_eq_div_mul x 256 256).symm
  have h2 : x / 16777216 = x / 256 / 256 / 256 := by
    rw [Nat.div_div_eq_div_mul, Nat.div_div_eq_div_mul]
  rw [hhtonl, htonl_bytes (Nat.mod_lt _ (by decide)) (Nat.mod_lt _ (by decide))
    (Nat.mod_lt _ (by decide)) (Nat.mod_lt _ (by decide)), h1, h2]
  omega

/-- Addresses that differ in the last octet only are ordered as words in network order. -/
lemma htonl_lt_htonl {x y : ℕ} (h : x / 256 = y / 256) : htonl x < htonl y ↔ x < y := by
  have hx1 : x / 65536 = x / 256 / 256 := (Nat.div_div_eq_div_mul x 256 256).symm
  have hx2 : x / 16777216 = x / 256 / 65536 := (Nat.div_div_eq_div_mul x 256 65536).symm
  have hy1 : y / 65536 = y / 256 / 256 := (Nat.div_div_eq_div_mul y 256 256).symm
  have hy2 : y / 16777216 = y / 256 / 65536 := (Nat.div_div_eq_div_mul y 256 65536).symm
  unfold htonl
  rw [hx1, hx2, hy1, hy2, ← h]
  omega

lemma nextAddress_htonl (x : ℕ) : nextAddress (htonl (x % 2 ^ 32)) = htonl ((x + 1) % 2 ^ 32) := by
  unfold nextAddress
  rw [htonl_htonl (Nat.mod_lt _ (by decide))]
  congr 1
  omega

/-! ### What holds of the leases -/

/-- The leases have different clients, and different addresses, which are in the pool and not the
address of the server. -/
structure LeasesRight (server : ℕ) (s : Server) : Prop where
  macs : (s.plist.map Lease.mac).Nodup
  ips : (s.plist.map Lease.ip).Nodup
  inPool : ∀ e ∈ s.plist, htonl s.dhcpsPoll.startIp ≤ htonl e.ip ∧
    htonl e.ip ≤ htonl s.dhcpsPoll.endIp ∧ e.ip ≠ server

/-- An offer or an acknowledgement carries the address of the lease of the client. -/
def ReplyRight (e : Event) (reply : Reply) (s : Server) : Prop :=
  match e with
  | .message m => ∀ ip, reply = .offer ip ∨ reply = .ack ip →
    ∃ e ∈ s.plist, e.mac = m.chaddr ∧ e.ip = ip
  | .coarseTmr => True

/-- The leases are right in all states of a run, and the replies in all steps. -/
def AlwaysRight (c : Config) (server : ℕ) : Server → List Event → Prop
  | s, [] => LeasesRight server s
  | s, e :: es => LeasesRight server s ∧ ReplyRight e (s.step c e).1 (s.step c e).2 ∧
    AlwaysRight c server (s.step c e).2 es

/-- The pool does not end with the octet 255, or the client has a lease, or there is an address
from the next candidate up to the end of the pool that nobody has. -/
def Event.Roomy (s : Server) : Event → Prop
  | .message m => htonl s.dhcpsPoll.endIp % 256 ≠ 255 ∨ (∃ e ∈ s.plist, e.mac = m.chaddr) ∨
    ∃ a, htonl s.clientAddressPlus ≤ a ∧ a ≤ htonl s.dhcpsPoll.endIp ∧
      ∀ e ∈ s.plist, htonl e.ip ≠ a
  | .coarseTmr => True

/-- There is room in all steps of the run. -/
def AlwaysRoomy (c : Config) : Server → List Event → Prop
  | _, [] => True
  | s, e :: es => e.Roomy s ∧ AlwaysRoomy c (s.step c e).2 es

/-! ### The invariant -/

/-- The pool is from `a` to `b` in host order: addresses that differ in the last octet only, and
without the server. -/
structure PollRight (server : ℕ) (poll : Poll) (a b : ℕ) : Prop where
  start : poll.startIp = htonl a
  end_ : poll.endIp = htonl b
  le : a ≤ b
  lt : b < 2 ^ 32
  segment : a / 256 = b / 256
  notServer : ∀ x, a ≤ x → x ≤ b → htonl x ≠ server

/-- The list is in order and inside of the pool, and the clients are different. -/
structure LeaseList (a b : ℕ) (l : List Lease) : Prop where
  sorted : l.Pairwise fun e e' => htonl e.ip < htonl e'.ip
  range : ∀ e ∈ l, e.ip < 2 ^ 32 ∧ a ≤ htonl e.ip ∧ htonl e.ip ≤ b
  macs : (l.map Lease.mac).Nodup

/-- The invariant: the next candidate is in the pool, too. -/
structure Inv (a b : ℕ) (s : Server) : Prop extends LeaseList a b s.plist where
  plus : ∃ p, a ≤ p ∧ p ≤ b ∧ s.clientAddressPlus = htonl p

variable {c : Config} {server a b : ℕ} {s : Server} {l : List Lease}

lemma Inv.leasesRight (h : Inv a b s) (hpoll : PollRight server s.dhcpsPoll a b) :
    LeasesRight server s := by
  refine ⟨h.macs, ?_, fun e he => ?_⟩
  · refine List.pairwise_map.mpr (h.sorted.imp fun hlt heq => ?_)
    rw [heq] at hlt
    exact absurd hlt (Nat.lt_irrefl _)
  · obtain ⟨hlt, hle, hle'⟩ := h.range e he
    have hb := hpoll.lt
    have hab := hpoll.le
    rw [hpoll.start, hpoll.end_, htonl_htonl (by omega), htonl_htonl hpoll.lt]
    refine ⟨hle, hle', ?_⟩
    have hnot := hpoll.notServer _ hle hle'
    rwa [htonl_htonl hlt] at hnot

/-- The pool of the server. -/
lemma pollRight_pollSet {poll : Poll} (hserver : server < 2 ^ 32) (hstart : poll.startIp < 2 ^ 32)
    (hend : poll.endIp < 2 ^ 32) : ∃ a b, PollRight server (dhcpsPollSet poll server) a b := by
  have hlt := htonl_lt server
  have hserver' := htonl_htonl hserver
  unfold dhcpsPollSet
  split
  · next hkeep =>
    have h1 := htonl_lt poll.startIp
    have h2 := htonl_lt poll.endIp
    simp only [keepsPoll, dhcpsMaxLease, Bool.and_eq_true, Bool.not_eq_true',
      decide_eq_false_iff_not] at hkeep
    obtain ⟨⟨-, hnot⟩, hsegment⟩ := hkeep
    have hsegment := of_decide_eq_false hsegment
    refine ⟨htonl poll.startIp, htonl poll.endIp, (htonl_htonl hstart).symm,
      (htonl_htonl hend).symm, by omega, h2, by omega, fun x hle hle' heq => ?_⟩
    rw [← heq, htonl_htonl (by omega)] at hnot
    exact hnot ⟨hle, hle'⟩
  · by_cases hlocal : htonl server % 256 ≥ 0x80
    · simp only [hlocal, if_true, dhcpsMaxLease]
      refine ⟨_, _, rfl, rfl, by omega, by omega, by omega, fun x hle hle' heq => ?_⟩
      have hx : x < 2 ^ 32 := by omega
      have hserver : htonl server = x := by rw [← heq, htonl_htonl hx]
      omega
    · simp only [hlocal, if_false, dhcpsMaxLease]
      refine ⟨_, _, rfl, rfl, by omega, by omega, by omega, fun x hle hle' heq => ?_⟩
      have hx : x < 2 ^ 32 := by omega
      have hserver : htonl server = x := by rw [← heq, htonl_htonl hx]
      omega

/-! ### The search -/

/-- The first address from `p` on that no lease of the list has. -/
structure FirstFree (l : List Lease) (p p' : ℕ) : Prop where
  le : p ≤ p'
  used : ∀ x, p ≤ x → x < p' → ∃ e ∈ l, htonl e.ip = x
  free : ∀ e ∈ l, htonl e.ip ≠ p'

lemma FirstFree.cons_eq {e : Lease} {p p' : ℕ} (h : FirstFree l (p + 1) p') (he : htonl e.ip = p) :
    FirstFree (e :: l) p p' := by
  have hle := h.le
  refine ⟨by omega, fun x hx hx' => ?_, ?_⟩
  · by_cases hxp : x = p
    · exact ⟨e, List.mem_cons_self, by rw [he, hxp]⟩
    · obtain ⟨e', he', hex⟩ := h.used x (by omega) hx'
      exact ⟨e', List.mem_cons_of_mem e he', hex⟩
  · rintro e' (_ | ⟨_, he'⟩)
    · omega
    · exact h.free e' he'

lemma FirstFree.cons_ne {e : Lease} {p p' : ℕ} (h : FirstFree l p p') (he : htonl e.ip ≠ p)
    (hsorted : ∀ e' ∈ l, htonl e.ip < htonl e'.ip) : FirstFree (e :: l) p p' := by
  have hle := h.le
  refine ⟨hle, fun x hx hx' => ?_, ?_⟩
  · obtain ⟨e', he', hex⟩ := h.used x hx hx'
    exact ⟨e', List.mem_cons_of_mem e he', hex⟩
  · rintro e' (_ | ⟨_, he'⟩)
    · intro heq
      -- then `p` is in use behind `e`, where the addresses are greater
      obtain ⟨e', he', hep⟩ := h.used p (Nat.le_refl p) (by omega)
      have hlt := hsorted e' he'
      omega
    · exact h.free e' he'

@[simp] lemma passFirst_plus (q : Search) (e : Lease) :
    (q.passFirst e).clientAddressPlus = q.clientAddressPlus := by
  unfold Search.passFirst
  split_ifs <;> rfl

@[simp] lemma passFirst_client (q : Search) (e : Lease) :
    (q.passFirst e).clientAddress = q.clientAddress := by
  unfold Search.passFirst
  split_ifs <;> rfl

@[simp] lemma passPlus_first (q : Search) (e : Lease) :
    (q.passPlus e).firstAddress = q.firstAddress := by
  unfold Search.passPlus
  split_ifs <;> rfl

@[simp] lemma passPlus_flag (q : Search) (e : Lease) : (q.passPlus e).flag = q.flag := by
  unfold Search.passPlus
  split_ifs <;> rfl

lemma pass_plus (q : Search) (e : Lease) :
    (q.pass e).clientAddressPlus =
      if e.ip = q.clientAddressPlus then nextAddress q.clientAddressPlus
      else q.clientAddressPlus := by
  rw [Search.pass, passFirst_plus, Search.passPlus]
  split_ifs <;> rfl

lemma pass_client {q : Search} (h : q.clientAddress = q.clientAddressPlus) (e : Lease) :
    (q.pass e).clientAddress = (q.pass e).clientAddressPlus := by
  rw [Search.pass, passFirst_client, passFirst_plus, Search.passPlus]
  split_ifs
  · rfl
  · exact h

lemma pass_first_of_flag {q : Search} (h : q.flag = true) (e : Lease) :
    (q.pass e).firstAddress = q.firstAddress ∧ (q.pass e).flag = true := by
  rw [Search.pass, Search.passFirst, passPlus_flag, if_pos h]
  exact ⟨passPlus_first q e, (passPlus_flag q e).trans h⟩

lemma pass_first {q : Search} (h : q.flag = false) (e : Lease) :
    (q.pass e).firstAddress =
        (if q.firstAddress < e.ip then q.firstAddress else nextAddress q.firstAddress) ∧
      (q.pass e).flag = decide (q.firstAddress < e.ip) := by
  rw [Search.pass, Search.passFirst, passPlus_flag, if_neg (by simp [h]), passPlus_first]
  split_ifs with hlt
  · exact ⟨rfl, (decide_eq_true hlt).symm⟩
  · exact ⟨rfl, h.trans (decide_eq_false hlt).symm⟩

lemma foldl_first_of_flag {q : Search} (h : q.flag = true) :
    (l.foldl Search.pass q).firstAddress = q.firstAddress := by
  induction l generalizing q with
  | nil => rfl
  | cons e l ih =>
    obtain ⟨hfirst, hflag⟩ := pass_first_of_flag h e
    exact (ih hflag).trans hfirst

lemma foldl_client {q : Search} (h : q.clientAddress = q.clientAddressPlus) :
    (l.foldl Search.pass q).clientAddress = (l.foldl Search.pass q).clientAddressPlus := by
  induction l generalizing q with
  | nil => exact h
  | cons e l ih => exact ih (pass_client h e)

/-- The candidate goes to the first free address from it on. -/
lemma foldl_plus {q : Search} {p : ℕ} (hsorted : l.Pairwise fun e e' => htonl e.ip < htonl e'.ip)
    (hlt : ∀ e ∈ l, e.ip < 2 ^ 32) (hp : l ≠ [] → p < 2 ^ 32)
    (hq : q.clientAddressPlus = htonl (p % 2 ^ 32)) :
    ∃ p', FirstFree l p p' ∧
      (l.foldl Search.pass q).clientAddressPlus = htonl (p' % 2 ^ 32) := by
  induction l generalizing q p with
  | nil => exact ⟨p, ⟨Nat.le_refl p, by omega, by simp⟩, hq⟩
  | cons e l ih =>
    obtain ⟨hhead, htail⟩ := List.pairwise_cons.mp hsorted
    have hlt' := fun e' he' => hlt e' (List.mem_cons_of_mem e he')
    have hpe := hp (List.cons_ne_nil e l)
    have hqp : q.clientAddressPlus = htonl p := by rw [hq, Nat.mod_eq_of_lt hpe]
    have hplus := pass_plus q e
    by_cases he : htonl e.ip = p
    · have heq : e.ip = q.clientAddressPlus := by
        rw [hqp, ← he, htonl_htonl (hlt e List.mem_cons_self)]
      rw [if_pos heq, hq, nextAddress_htonl] at hplus
      have hp' : l ≠ [] → p + 1 < 2 ^ 32 := by
        intro hne
        obtain ⟨e', he'⟩ := List.exists_mem_of_ne_nil l hne
        have hgt := hhead e' he'
        have hbound := htonl_lt e'.ip
        omega
      obtain ⟨p', hfree, hp'⟩ := ih htail hlt' hp' hplus
      exact ⟨p', hfree.cons_eq he, hp'⟩
    · have hne : e.ip ≠ q.clientAddressPlus := by
        intro heq
        rw [heq, hqp, htonl_htonl hpe] at he
        exact he rfl
      rw [if_neg hne] at hplus
      obtain ⟨p', hfree, hp'⟩ := ih htail hlt' (fun _ => hpe) (hplus.trans hq)
      exact ⟨p', hfree.cons_ne he hhead, hp'⟩

/-- The first address goes to the first free address of the pool. -/
lemma foldl_first {q : Search} {f : ℕ} (hsorted : l.Pairwise fun e e' => htonl e.ip < htonl e'.ip)
    (hrange : ∀ e ∈ l, e.ip < 2 ^ 32 ∧ f ≤ htonl e.ip ∧ htonl e.ip / 256 = f / 256)
    (hflag : q.flag = false) (hq : q.firstAddress = htonl (f % 2 ^ 32)) :
    ∃ f', FirstFree l f f' ∧ (l.foldl Search.pass q).firstAddress = htonl (f' % 2 ^ 32) := by
  induction l generalizing q f with
  | nil => exact ⟨f, ⟨Nat.le_refl f, by omega, by simp⟩, hq⟩
  | cons e l ih =>
    obtain ⟨hhead, htail⟩ := List.pairwise_cons.mp hsorted
    obtain ⟨hip, hfe, hsegment⟩ := hrange e List.mem_cons_self
    have hbound := htonl_lt e.ip
    have hqf : q.firstAddress = htonl f := by rw [hq, Nat.mod_eq_of_lt (by omega)]
    have hlt : q.firstAddress < e.ip ↔ f < htonl e.ip := by
      rw [hqf, ← htonl_lt_htonl hsegment.symm, htonl_htonl hip]
    obtain ⟨hfirst, hflag'⟩ := pass_first hflag e
    by_cases hgap : f < htonl e.ip
    · rw [if_pos (hlt.mpr hgap)] at hfirst
      rw [decide_eq_true (hlt.mpr hgap)] at hflag'
      refine ⟨f, ⟨Nat.le_refl f, by omega, ?_⟩, ?_⟩
      · rintro e' (_ | ⟨_, he'⟩)
        · omega
        · have hgt := hhead e' he'
          omega
      · exact (foldl_first_of_flag hflag').trans (hfirst.trans hq)
    · rw [if_neg fun h => hgap (hlt.mp h), hq, nextAddress_htonl] at hfirst
      rw [decide_eq_false fun h => hgap (hlt.mp h)] at hflag'
      have hrange' : ∀ e' ∈ l, e'.ip < 2 ^ 32 ∧ f + 1 ≤ htonl e'.ip ∧
          htonl e'.ip / 256 = (f + 1) / 256 := by
        intro e' he'
        obtain ⟨hip', hfe', hsegment'⟩ := hrange e' (List.mem_cons_of_mem e he')
        have hgt := hhead e' he'
        exact ⟨hip', by omega, by omega⟩
      obtain ⟨f', hfree, hf'⟩ := ih htail hrange' hflag' hfirst
      exact ⟨f', hfree.cons_eq (by omega), hf'⟩

/-- The search finds the first lease of the client, or passes all leases. -/
lemma searchLoop_cases (mac : BitVec 48) (l : List Lease) (q : Search) :
    (∃ pre e post, l = pre ++ e :: post ∧ e.mac = mac ∧
      searchLoop mac l q = (some (pre.length, e), pre.foldl Search.pass q)) ∨
    (∀ e ∈ l, e.mac ≠ mac) ∧ searchLoop mac l q = (none, l.foldl Search.pass q) := by
  induction l generalizing q with
  | nil => exact .inr ⟨by simp, rfl⟩
  | cons e l ih =>
    unfold searchLoop
    by_cases he : e.mac = mac
    · rw [if_pos he]
      exact .inl ⟨[], e, l, rfl, he, rfl⟩
    · rw [if_neg he]
      obtain ⟨pre, e', post, rfl, he', hfound⟩ | ⟨hnone, hnot⟩ := ih (q.pass e)
      · rw [hfound]
        exact .inl ⟨e :: pre, e', post, rfl, he', rfl⟩
      · rw [hnot]
        refine .inr ⟨?_, rfl⟩
        rintro e' (_ | ⟨_, he'⟩)
        · exact he
        · exact hnone e' he'

/-! ### One event -/

/-- The address that a client without a lease gets is a free one of the pool, or the pool is
full. -/
lemma Inv.client (h : Inv a b s) (hpoll : PollRight server s.dhcpsPoll a b) {m : Msg}
    (hroomy : (Event.message m).Roomy s) (hnone : ∀ e ∈ s.plist, e.mac ≠ m.chaddr) {q : Search}
    (hq : q = s.plist.foldl Search.pass
      ⟨s.clientAddressPlus, s.clientAddressPlus, s.dhcpsPoll.startIp, false⟩)
    {client : ℕ} (hclient : client = if q.clientAddressPlus > s.dhcpsPoll.endIp then q.firstAddress
      else if s.plist = [] then s.dhcpsPoll.startIp else q.clientAddress) :
    client > s.dhcpsPoll.endIp ∨
      ∃ x, a ≤ x ∧ x ≤ b ∧ client = htonl x ∧ ∀ e ∈ s.plist, htonl e.ip ≠ x := by
  obtain ⟨p, hap, hpb, hplus⟩ := h.plus
  have hb := hpoll.lt
  have hab := hpoll.le
  have hsegment := hpoll.segment
  have hgt : ∀ x, a ≤ x → x / 256 = b / 256 → (htonl x > s.dhcpsPoll.endIp ↔ b < x) := by
    intro x _ hx
    rw [hpoll.end_]
    exact htonl_lt_htonl hx.symm
  obtain ⟨p', hp', hqp⟩ := foldl_plus
    (q := ⟨s.clientAddressPlus, s.clientAddressPlus, s.dhcpsPoll.startIp, false⟩) h.sorted
    (fun e he => (h.range e he).1) (fun _ => (by omega : p < 2 ^ 32))
    (by rw [hplus, Nat.mod_eq_of_lt (by omega)])
  obtain ⟨f', hf', hqf⟩ := foldl_first
    (q := ⟨s.clientAddressPlus, s.clientAddressPlus, s.dhcpsPoll.startIp, false⟩) (f := a) h.sorted
    (fun e he => by
      obtain ⟨hlt, hle, hle'⟩ := h.range e he
      exact ⟨hlt, hle, by omega⟩) rfl
    (by rw [hpoll.start, Nat.mod_eq_of_lt (by omega)])
  have hcl : q.clientAddress = q.clientAddressPlus := hq ▸ foldl_client rfl
  rw [← hq] at hqp hqf
  -- candidates pass used addresses only, which are in the pool
  have hle : ∀ {f f'}, FirstFree s.plist f f' → f ≤ b → f' ≤ b + 1 := by
    intro f f' hf hfb
    by_contra hnot
    obtain ⟨e, he, hex⟩ := hf.used (b + 1) (by omega) (by omega)
    have hrange := h.range e he
    omega
  have hpb' := hle hp' hpb
  have hfb' := hle hf' hab
  by_cases hend : p' ≤ b
  · have hnot : ¬ q.clientAddressPlus > s.dhcpsPoll.endIp := by
      have hle := hp'.le
      rw [hqp, Nat.mod_eq_of_lt (by omega), hgt p' (by omega) (by omega)]
      omega
    rw [if_neg hnot] at hclient
    refine .inr ?_
    by_cases hnil : s.plist = []
    · rw [if_pos hnil, hpoll.start] at hclient
      exact ⟨a, Nat.le_refl a, hab, hclient, by simp [hnil]⟩
    · rw [if_neg hnil, hcl, hqp, Nat.mod_eq_of_lt (by omega)] at hclient
      exact ⟨p', Nat.le_trans hap hp'.le, hend, hclient, hp'.free⟩
  · -- all addresses from the candidate on are in use
    have hoctet : b % 256 ≠ 255 := by
      rw [Event.Roomy, hpoll.end_, htonl_htonl hb, hplus, htonl_htonl (by omega)] at hroomy
      obtain hoctet | ⟨e, he, hmac⟩ | ⟨x, hpx, hxb, hfree⟩ := hroomy
      · exact hoctet
      · exact absurd hmac (hnone e he)
      · obtain ⟨e, he, hex⟩ := hp'.used x hpx (by omega)
        exact absurd hex (hfree e he)
    have hpast : q.clientAddressPlus > s.dhcpsPoll.endIp := by
      rw [hqp, Nat.mod_eq_of_lt (by omega), hgt p' (by omega) (by omega)]
      omega
    rw [if_pos hpast, hqf, Nat.mod_eq_of_lt (by omega)] at hclient
    have haf := hf'.le
    by_cases hfull : f' ≤ b
    · exact .inr ⟨f', haf, hfull, hclient, hf'.free⟩
    · refine .inl ?_
      rw [hclient, hgt f' haf (by omega)]
      omega

lemma insertIdx_append_length (pre post : List Lease) (e : Lease) :
    (pre ++ post).insertIdx pre.length e = pre ++ e :: post := by
  induction pre with
  | nil => rfl
  | cons e' pre ih => rw [List.cons_append, List.length_cons, List.insertIdx_succ_cons, ih]; rfl

/-- The new lease is put in front of the leases with greater addresses. -/
lemma nodeInsertToList_eq (l : List Lease) (e : Lease) :
    ∃ pre post, l = pre ++ post ∧ nodeInsertToList l e = (pre.length, pre ++ e :: post) ∧
      (∀ e' ∈ pre, ¬ e.ip < e'.ip) ∧ ∀ e' ∈ post.head?, e.ip < e'.ip := by
  have happend : l.takeWhile (fun e' => ¬ e.ip < e'.ip) ++
      l.dropWhile (fun e' => ¬ e.ip < e'.ip) = l := List.takeWhile_append_dropWhile
  refine ⟨_, _, happend.symm, ?_, fun e' he' => ?_, fun e' he' => ?_⟩
  · have hinsert := insertIdx_append_length (l.takeWhile fun e' => ¬ e.ip < e'.ip)
      (l.dropWhile fun e' => ¬ e.ip < e'.ip) e
    rw [happend] at hinsert
    exact congrArg (Prod.mk _) hinsert
  · simpa using List.mem_takeWhile_imp he'
  · have hhead := List.head?_dropWhile_not (fun e' => decide (¬ e.ip < e'.ip)) l
    rw [Option.mem_def.mp he'] at hhead
    simpa using hhead

lemma LeaseList.sublist {l' : List Lease} (h : LeaseList a b l) (hl : l'.Sublist l) :
    LeaseList a b l' :=
  ⟨h.sorted.sublist hl, fun e he => h.range e (hl.subset he), h.macs.sublist (hl.map _)⟩

/-- The timers do not matter. -/
lemma LeaseList.congr {l' : List Lease} (h : LeaseList a b l)
    (hip : l'.map Lease.ip = l.map Lease.ip) (hmac : l'.map Lease.mac = l.map Lease.mac) :
    LeaseList a b l' := by
  refine ⟨?_, fun e he => ?_, hmac ▸ h.macs⟩
  · have hsorted : (l.map Lease.ip).Pairwise fun x y => htonl x < htonl y :=
      List.pairwise_map.mpr h.sorted
    rw [← hip] at hsorted
    exact List.Pairwise.of_map Lease.ip (fun _ _ => id) hsorted
  · have hmem : e.ip ∈ l'.map Lease.ip := List.mem_map_of_mem he
    rw [hip] at hmem
    obtain ⟨e', he', heq⟩ := List.mem_map.mp hmem
    rw [← heq]
    exact h.range e' he'

/-- A free address of the pool is inserted in order. -/
lemma LeaseList.insert {pre post : List Lease} {e : Lease} {x : ℕ} (h : LeaseList a b (pre ++ post))
    (hsegment : a / 256 = b / 256) (hlt : b < 2 ^ 32) (hax : a ≤ x) (hxb : x ≤ b)
    (hip : e.ip = htonl x) (hfree : ∀ e' ∈ pre ++ post, htonl e'.ip ≠ x)
    (hmac : ∀ e' ∈ pre ++ post, e'.mac ≠ e.mac) (hpre : ∀ e' ∈ pre, ¬ e.ip < e'.ip)
    (hpost : ∀ e' ∈ post.head?, e.ip < e'.ip) : LeaseList a b (pre ++ e :: post) := by
  have hx : htonl e.ip = x := by rw [hip, htonl_htonl (by omega)]
  have horder : ∀ e' ∈ pre ++ post, (e.ip < e'.ip ↔ x < htonl e'.ip) := by
    intro e' he'
    obtain ⟨hlt', hle, hle'⟩ := h.range e' he'
    rw [hip, ← htonl_lt_htonl (x := x) (by omega), htonl_htonl hlt']
  obtain ⟨hsorted, hsorted', hcross⟩ := List.pairwise_append.mp h.sorted
  have hafter : ∀ e' ∈ post, x < htonl e'.ip := by
    cases post with
    | nil => simp
    | cons e₀ post =>
      have he₀ := (horder e₀ (by simp)).mp (hpost e₀ rfl)
      rintro e' (_ | ⟨_, he'⟩)
      · exact he₀
      · exact Nat.lt_trans he₀ ((List.pairwise_cons.mp hsorted').1 e' he')
  have hbefore : ∀ e' ∈ pre, htonl e'.ip < x := by
    intro e' he'
    have hmem : e' ∈ pre ++ post := List.mem_append_left _ he'
    have hnot := mt (horder e' hmem).mpr (hpre e' he')
    have hne := hfree e' hmem
    omega
  refine ⟨?_, fun e' he' => ?_, ?_⟩
  · refine List.pairwise_append.mpr ⟨hsorted, List.pairwise_cons.mpr ⟨?_, hsorted'⟩, ?_⟩
    · rw [hx]
      exact hafter
    · rintro e' he' e'' (_ | ⟨_, he''⟩)
      · rw [hx]
        exact hbefore e' he'
      · exact hcross e' he' e'' he''
  · obtain he' | rfl | he' : e' ∈ pre ∨ e' = e ∨ e' ∈ post := by simpa using he'
    · exact h.range e' (List.mem_append_left _ he')
    · rw [hx, hip]
      exact ⟨htonl_lt x, hax, hxb⟩
    · exact h.range e' (List.mem_append_right _ he')
  · rw [(List.perm_middle.map Lease.mac).nodup_iff, List.map_cons, List.nodup_cons]
    refine ⟨fun hmem => ?_, h.macs⟩
    obtain ⟨e', he', heq⟩ := List.mem_map.mp hmem
    exact hmac e' he' heq

/-- The node stays, or it is removed. -/
lemma poolCheck_cases {pre post : List Lease} {e : Lease} (m : Msg) (renew : Bool)
    (hplist : s.plist = pre ++ e :: post) :
    (s.poolCheck m renew (some pre.length)).2.dhcpsPoll = s.dhcpsPoll ∧
      (s.poolCheck m renew (some pre.length)).2.clientAddressPlus = s.clientAddressPlus ∧
      (((s.poolCheck m renew (some pre.length)).1 = .nak ∨
          (s.poolCheck m renew (some pre.length)).1 = .release) ∧
          (s.poolCheck m renew (some pre.length)).2.plist = pre ++ post ∨
        (s.poolCheck m renew (some pre.length)).2.plist = s.plist ∧
          (s.poolCheck m renew (some pre.length)).2.clientAddress = s.clientAddress) := by
  have herase : s.plist.eraseIdx pre.length = pre ++ post := by
    rw [hplist, List.eraseIdx_append_of_length_le (Nat.le_refl _), Nat.sub_self]
    rfl
  unfold Server.poolCheck
  dsimp only
  split_ifs with h1 h2
  · exact ⟨rfl, rfl, .inl ⟨.inl rfl, herase⟩⟩
  · exact ⟨rfl, rfl, .inl ⟨.inr h2, herase⟩⟩
  · exact ⟨rfl, rfl, .inr ⟨rfl, rfl⟩⟩

/-- The next candidate after a lease has been found is still in the pool. -/
lemma Inv.plus_found (h : Inv a b s) (hlt : b < 2 ^ 32) {pre post : List Lease} {e : Lease}
    (hplist : s.plist = pre ++ e :: post) {q : Search}
    (hq : q.clientAddressPlus = s.clientAddressPlus) :
    ∃ p, a ≤ p ∧ p ≤ b ∧ (pre.foldl Search.pass q).clientAddressPlus = htonl p := by
  obtain ⟨p, hap, hpb, hplus⟩ := h.plus
  have hsorted := h.sorted
  rw [hplist] at hsorted
  obtain ⟨hpre, -, hcross⟩ := List.pairwise_append.mp hsorted
  have hrange : ∀ e' ∈ pre, e'.ip < 2 ^ 32 ∧ htonl e'.ip < b := by
    intro e' he'
    have he := h.range e (by simp [hplist])
    have hless := hcross e' he' e List.mem_cons_self
    exact ⟨(h.range e' (by simp [hplist, he'])).1, by omega⟩
  obtain ⟨p', hp', hqp⟩ := foldl_plus (q := q) hpre (fun e' he' => (hrange e' he').1)
    (fun _ => (by omega : p < 2 ^ 32)) (by rw [hq, hplus, Nat.mod_eq_of_lt (by omega)])
  have hle := hp'.le
  have hle' : p' ≤ b := by
    by_contra hnot
    obtain ⟨e', he', hex⟩ := hp'.used b hpb (by omega)
    exact absurd (hrange e' he').2 (by omega)
  exact ⟨p', by omega, hle', by rw [hqp, Nat.mod_eq_of_lt (by omega)]⟩

/-- What a node that is checked leaves of the invariant, and for whom the answer is. -/
lemma Inv.poolCheck {pre post : List Lease} {e : Lease} (h : Inv a b s)
    (hplist : s.plist = pre ++ e :: post) (hclient : s.clientAddress = e.ip) (m : Msg)
    (hmac : e.mac = m.chaddr) (renew : Bool) :
    Inv a b (s.poolCheck m renew (some pre.length)).2 ∧
      (s.poolCheck m renew (some pre.length)).2.dhcpsPoll = s.dhcpsPoll ∧
      ((s.poolCheck m renew (some pre.length)).1 = .offer ∨
          (s.poolCheck m renew (some pre.length)).1 = .ack →
        ∃ e ∈ (s.poolCheck m renew (some pre.length)).2.plist, e.mac = m.chaddr ∧
          e.ip = (s.poolCheck m renew (some pre.length)).2.clientAddress) := by
  obtain ⟨hpoll, hplus, ⟨hret, hremoved⟩ | ⟨hkept, hkeptClient⟩⟩ := poolCheck_cases m renew hplist
  · refine ⟨⟨?_, by rw [hplus]; exact h.plus⟩, hpoll, fun hanswer => ?_⟩
    · rw [hremoved]
      refine h.toLeaseList.sublist ?_
      rw [hplist]
      exact List.Sublist.append_left (List.sublist_cons_self e post) pre
    · obtain hret | hret := hret <;> simp [hret] at hanswer
  · refine ⟨⟨by rw [hkept]; exact h.toLeaseList, by rw [hplus]; exact h.plus⟩, hpoll, fun _ => ?_⟩
    rw [hkept, hkeptClient, hplist]
    exact ⟨e, by simp, hmac, hclient.symm⟩

lemma Inv.parseMsg (h : Inv a b s) (hpoll : PollRight server s.dhcpsPoll a b) {m : Msg}
    (hroomy : (Event.message m).Roomy s) :
    Inv a b (parseMsg c s m).2 ∧ (parseMsg c s m).2.dhcpsPoll = s.dhcpsPoll ∧
      ((parseMsg c s m).1 = some .offer ∨ (parseMsg c s m).1 = some .ack →
        ∃ e ∈ (parseMsg c s m).2.plist, e.mac = m.chaddr ∧
          e.ip = (parseMsg c s m).2.clientAddress) := by
  unfold Dhcps.parseMsg
  split
  swap
  · exact ⟨h, rfl, by simp⟩
  obtain ⟨pre, e, post, hplist, hmac, hfound⟩ | ⟨hnone, hnot⟩ := searchLoop_cases m.chaddr s.plist
    ⟨s.clientAddressPlus, s.clientAddressPlus, s.dhcpsPoll.startIp, false⟩
  · rw [hfound]
    have hset : s.plist.set pre.length { e with leaseTimer := c.leaseTimer } =
        pre ++ { e with leaseTimer := c.leaseTimer } :: post := by
      rw [hplist, List.set_append_right _ _ (Nat.le_refl _), Nat.sub_self]
      rfl
    have hlist : LeaseList a b (s.plist.set pre.length { e with leaseTimer := c.leaseTimer }) := by
      refine h.toLeaseList.congr ?_ ?_
      · rw [hset, hplist]
        simp
      · rw [hset, hplist]
        simp
    have hinv : Inv a b { s with
        plist := s.plist.set pre.length { e with leaseTimer := c.leaseTimer }
        clientAddress := e.ip
        clientAddressPlus := (pre.foldl Search.pass ⟨s.clientAddressPlus, s.clientAddressPlus,
          s.dhcpsPoll.startIp, false⟩).clientAddressPlus } :=
      ⟨hlist, h.plus_found hpoll.lt hplist rfl⟩
    obtain ⟨hinv', hpoll', hanswer⟩ := hinv.poolCheck hset rfl m hmac (e.ip = m.ciaddr)
    exact ⟨hinv', hpoll', fun hret => hanswer (by simpa using hret)⟩
  · rw [hnot]
    dsimp only
    generalize hq : s.plist.foldl Search.pass
      ⟨s.clientAddressPlus, s.clientAddressPlus, s.dhcpsPoll.startIp, false⟩ = q
    generalize hclient : (if q.clientAddressPlus > s.dhcpsPoll.endIp then q.firstAddress
      else if s.plist = [] then s.dhcpsPoll.startIp else q.clientAddress) = client
    have hchosen := h.client hpoll hroomy hnone hq.symm hclient.symm
    by_cases hfull : client > s.dhcpsPoll.endIp
    · -- the pool is full, and no node has been made
      simp only [hfull, if_true, Server.poolCheck, true_or]
      refine ⟨⟨h.toLeaseList, a, Nat.le_refl a, hpoll.le, hpoll.start⟩, trivial, by simp⟩
    · obtain ⟨x, hax, hxb, hx, hfree⟩ := hchosen.resolve_left hfull
      obtain ⟨pre, post, hplist, hinsert, hpre, hpost⟩ :=
        nodeInsertToList_eq s.plist ⟨client, m.chaddr, c.leaseTimer⟩
      have hlt := hpoll.lt
      have hlist : LeaseList a b (pre ++ ⟨client, m.chaddr, c.leaseTimer⟩ :: post) := by
        have hlist := h.toLeaseList
        rw [hplist] at hlist hfree hnone
        exact hlist.insert hpoll.segment hlt hax hxb hx hfree hnone hpre hpost
      have hplus : ∃ p, a ≤ p ∧ p ≤ b ∧ (if client = s.dhcpsPoll.endIp then s.dhcpsPoll.startIp
          else nextAddress client) = htonl p := by
        by_cases hlast : client = s.dhcpsPoll.endIp
        · exact ⟨a, Nat.le_refl a, hpoll.le, by rw [if_pos hlast, hpoll.start]⟩
        · have hxne : x ≠ b := by
            rintro rfl
            exact hlast (hx.trans hpoll.end_.symm)
          have hnext := nextAddress_htonl x
          rw [Nat.mod_eq_of_lt (by omega), Nat.mod_eq_of_lt (by omega), ← hx] at hnext
          exact ⟨x + 1, by omega, by omega, by rw [if_neg hlast, hnext]⟩
      have hinv : Inv a b { s with
          plist := pre ++ ⟨client, m.chaddr, c.leaseTimer⟩ :: post
          clientAddress := client
          clientAddressPlus :=
            if client = s.dhcpsPoll.endIp then s.dhcpsPoll.startIp else nextAddress client } :=
        ⟨hlist, hplus⟩
      obtain ⟨hinv', hpoll', hanswer⟩ := hinv.poolCheck rfl rfl m rfl false
      rw [if_neg hfull, hinsert]
      exact ⟨hinv', hpoll', fun hret => hanswer (by simpa using hret)⟩

lemma killOldestDhcpsPool_sublist (l : List Lease) : (killOldestDhcpsPool l).Sublist l := by
  match l with
  | [] => exact List.Sublist.refl []
  | [e] => exact List.Sublist.refl [e]
  | e :: e' :: l => exact (List.eraseIdx_sublist _ _).cons_cons e

lemma coarseLoop_cons (e : Lease) (l : List Lease) (num : ℕ) :
    coarseLoop (e :: l) num =
      if e.tick.leaseTimer = 0 then coarseLoop l num
      else (e.tick :: (coarseLoop l ((num + 1) % 256)).1, (coarseLoop l ((num + 1) % 256)).2) := by
  rw [coarseLoop]

/-- The leases whose timers run out are removed, the others are counted. -/
lemma coarseLoop_eq (l : List Lease) (num : ℕ) (hnum : num < 256) :
    coarseLoop l num = ((l.map Lease.tick).filter (·.leaseTimer ≠ 0),
      (num + ((l.map Lease.tick).filter (·.leaseTimer ≠ 0)).length) % 256) := by
  induction l generalizing num with
  | nil =>
    rw [coarseLoop, List.map_nil, List.filter_nil, List.length_nil, Nat.add_zero,
      Nat.mod_eq_of_lt hnum]
  | cons e l ih =>
    rw [coarseLoop_cons, List.map_cons]
    generalize e.tick = t
    split
    · next hzero => rw [ih num hnum, List.filter_cons_of_neg (by simpa using hzero)]
    · next hleft =>
      have hcount : ∀ n, ((num + 1) % 256 + n) % 256 = (num + (n + 1)) % 256 := by omega
      rw [ih _ (Nat.mod_lt _ (by decide)), List.filter_cons_of_pos (by simpa using hleft),
        List.length_cons, hcount]

/-- The leases whose timers have not run out after a tick. -/
def Server.remaining (s : Server) : List Lease :=
  (s.plist.map Lease.tick).filter (·.leaseTimer ≠ 0)

lemma dhcpsCoarseTmr_eq (c : Config) (s : Server) : dhcpsCoarseTmr c s =
    { s with
      plist :=
        if s.remaining.length % 256 > c.maxStationNum then killOldestDhcpsPool s.remaining
        else s.remaining } := by
  rw [dhcpsCoarseTmr, coarseLoop_eq _ 0 (by decide), Nat.zero_add]
  rfl

lemma Inv.dhcpsCoarseTmr (h : Inv a b s) : Inv a b (dhcpsCoarseTmr c s) := by
  have hcounted : LeaseList a b (s.plist.map Lease.tick) :=
    h.toLeaseList.congr (by simp [Function.comp_def, Lease.tick])
      (by simp [Function.comp_def, Lease.tick])
  rw [dhcpsCoarseTmr_eq]
  refine ⟨hcounted.sublist ?_, h.plus⟩
  dsimp only
  split_ifs
  · exact (killOldestDhcpsPool_sublist _).trans List.filter_sublist
  · exact List.filter_sublist

lemma answer_state (out : Option MsgState × Server) : (answer out).2 = out.2 := by
  unfold answer
  split <;> rfl

/-- Addresses are told in offers and acknowledgements only. -/
lemma answer_reply {out : Option MsgState × Server} {ip : ℕ}
    (h : (answer out).1 = .offer ip ∨ (answer out).1 = .ack ip) :
    (out.1 = some .offer ∨ out.1 = some .ack) ∧ out.2.clientAddress = ip := by
  unfold answer at h
  split at h
  · exact ⟨.inl rfl, by simpa using h⟩
  · exact ⟨.inr rfl, by simpa using h⟩
  · exact absurd h (by simp)
  · exact absurd h (by simp)

/-- An event keeps the invariant, and the answer is right. -/
lemma Inv.step (h : Inv a b s) (hpoll : PollRight server s.dhcpsPoll a b) {e : Event}
    (hroomy : e.Roomy s) :
    Inv a b (s.step c e).2 ∧ (s.step c e).2.dhcpsPoll = s.dhcpsPoll ∧
      ReplyRight e (s.step c e).1 (s.step c e).2 := by
  cases e with
  | message m =>
    obtain ⟨hinv, hpoll', hanswer⟩ := h.parseMsg (c := c) hpoll hroomy
    have hstep : s.step c (.message m) = answer (Dhcps.parseMsg c s m) := rfl
    rw [hstep, answer_state]
    refine ⟨hinv, hpoll', fun ip hip => ?_⟩
    obtain ⟨hret, hclient⟩ := answer_reply hip
    rw [← hclient]
    exact hanswer hret
  | coarseTmr => exact ⟨h.dhcpsCoarseTmr, rfl, trivial⟩

lemma Inv.alwaysRight (h : Inv a b s) (hpoll : PollRight server s.dhcpsPoll a b) {es : List Event}
    (hroomy : AlwaysRoomy c s es) : AlwaysRight c server s es := by
  induction es generalizing s with
  | nil => exact h.leasesRight hpoll
  | cons e es ih =>
    obtain ⟨he, hes⟩ := hroomy
    obtain ⟨hinv, hpoll', hreply⟩ := h.step (c := c) hpoll he
    exact ⟨h.leasesRight hpoll, hreply, ih hinv (hpoll' ▸ hpoll) hes⟩

/-- In every run in which the candidates do not pass an octet 255, the leases are unique and in
the pool, and clients are told the addresses of their leases. -/
theorem leases_unique (c : Config) (poll : Poll) (hserver : server < 2 ^ 32)
    (hstart : poll.startIp < 2 ^ 32) (hend : poll.endIp < 2 ^ 32) (es : List Event)
    (hroomy : AlwaysRoomy c (dhcpsStart poll server) es) :
    AlwaysRight c server (dhcpsStart poll server) es := by
  obtain ⟨a, b, hpoll⟩ := pollRight_pollSet hserver hstart hend
  refine Inv.alwaysRight (a := a) (b := b) ⟨⟨.nil, by simp [dhcpsStart], by simp [dhcpsStart]⟩, ?_⟩
    hpoll hroomy
  exact ⟨a, Nat.le_refl a, hpoll.le, hpoll.start⟩

/-- A client looks for a server. -/
def Msg.discover (mac : BitVec 48) : Msg :=
  ⟨mac, 0, fun i => [0x63, 0x82, 0x53, 0x63, 53, 1, 1, 255].getD i 0, 4⟩

/-- The default configuration. -/
def Config.default : Config := ⟨7200, 8, by decide⟩

/-- Two clients get the first addresses of a pool that the server chooses. -/
theorem leases_unique_default :
    AlwaysRight .default (htonl 0xC0A80401) (dhcpsStart ⟨false, 0, 0⟩ (htonl 0xC0A80401))
      [.message (.discover 1), .message (.discover 2), .coarseTmr] :=
  leases_unique _ _ (by decide) (by decide) (by decide) _
    ⟨.inl (by decide), .inl (by decide), trivial, trivial⟩

/-- The pool of 192.168.4.254 and 192.168.4.255 is full, and a third client gets 192.168.5.0. -/
theorem leases_outside :
    ¬ AlwaysRight .default (htonl 0xC0A80401)
      (dhcpsStart ⟨true, htonl 0xC0A804FE, htonl 0xC0A804FF⟩ (htonl 0xC0A80401))
      [.message (.discover 1), .message (.discover 2), .message (.discover 3)] := by
  rintro ⟨-, -, -, -, -, -, hright⟩
  have hrange := hright.inPool ⟨htonl 0xC0A80500, 3, 7200⟩ (by decide)
  exact absurd hrange.2.1 (by decide)

end EspIdf.Dhcps
