/-
# The oldest lease is removed

A tick of the lease timer removes the leases that have run out, and one lease more if there are
too many left.  The search for that one begins behind the first lease of the list, which is in the
order of addresses and not of age, and the leases are counted in a byte.
-/
import EspIdf.Dhcps.Leases

namespace EspIdf.Dhcps

/-- What a tick must make of the leases that have not run out: of more than `max`, one with the
least time is removed, and the others stay as they are. -/
def Evicted (max : ℕ) (remaining after : List Lease) : Prop :=
  if max < remaining.length then
    ∃ older e younger, remaining = older ++ e :: younger ∧ after = older ++ younger ∧
      ∀ e' ∈ remaining, e.leaseTimer ≤ e'.leaseTimer
  else after = remaining

/-- There are not too many leases; or the counter, which is a byte, tells so, and the first lease
is not older than all others. -/
def EvictionRight (max : ℕ) (remaining : List Lease) : Prop :=
  remaining.length ≤ max ∨
    (max < remaining.length % 256 ∧
      ∃ first rest, remaining = first :: rest ∧ ∃ e ∈ rest, e.leaseTimer ≤ first.leaseTimer)

variable {l : List Lease} {first : Lease} {max : ℕ}

/-! ### The search -/

/-- The loop ends at a lease with the least time, if it has come from the least so far. -/
lemma oldestLoop_spec (l before after : List Lease) (m : Lease)
    (hmin : ∀ e ∈ before ++ m :: after, m.leaseTimer ≤ e.leaseTimer) :
    ∃ before' m' after', before ++ m :: after ++ l = before' ++ m' :: after' ∧
      oldestLoop l (before ++ m :: after).length before.length m.leaseTimer = before'.length ∧
      ∀ e ∈ before' ++ m' :: after', m'.leaseTimer ≤ e.leaseTimer := by
  induction l generalizing before m after with
  | nil => exact ⟨before, m, after, List.append_nil _, rfl, hmin⟩
  | cons e l ih =>
    rw [oldestLoop, List.append_cons]
    split
    · next hless =>
      -- the new lease is behind all that have been seen
      have hmin' : ∀ e' ∈ before ++ m :: after ++ e :: [], e.leaseTimer ≤ e'.leaseTimer := by
        intro e' he'
        rcases List.mem_append.1 he' with he' | he'
        · exact hless.le.trans (hmin e' he')
        · rw [List.mem_singleton.1 he']
      have hstep := ih _ _ _ hmin'
      rwa [List.length_append] at hstep
    · next hnot =>
      have hmin' : ∀ e' ∈ before ++ m :: (after ++ [e]), m.leaseTimer ≤ e'.leaseTimer := by
        intro e' he'
        rw [← List.cons_append, ← List.append_assoc] at he'
        rcases List.mem_append.1 he' with he' | he'
        · exact hmin e' he'
        · rw [List.mem_singleton.1 he']
          exact Nat.not_lt.1 hnot
      have hstep := ih _ _ _ hmin'
      rwa [← List.cons_append, ← List.append_assoc, List.length_append] at hstep

/-- Of the leases behind the first one, one with the least time is removed. -/
lemma killOldestDhcpsPool_cons (first : Lease) (hl : l ≠ []) :
    ∃ older e younger, l = older ++ e :: younger ∧
      killOldestDhcpsPool (first :: l) = first :: (older ++ younger) ∧
      ∀ e' ∈ l, e.leaseTimer ≤ e'.leaseTimer := by
  obtain ⟨e, l, rfl⟩ := List.exists_cons_of_ne_nil hl
  obtain ⟨older, m, younger, hsplit, hloop, hmin⟩ :=
    oldestLoop_spec l [] [] e (by simp)
  rw [List.nil_append, List.singleton_append] at hsplit
  refine ⟨older, m, younger, hsplit, ?_, hsplit ▸ hmin⟩
  have hfirst : oldestLoop (e :: l) 0 0 e.leaseTimer = older.length := by
    rw [oldestLoop, if_neg (Nat.lt_irrefl _)]
    exact hloop
  rw [killOldestDhcpsPool, hfirst, hsplit, List.eraseIdx_append_of_length_le le_rfl, Nat.sub_self,
    List.eraseIdx_zero, List.tail_cons]

/-! ### A tick -/

/-- Too many leases have been counted: what is removed is the oldest lease if and only if the first
lease is not older than all others. -/
lemma evicted_killOldest_iff (hl : l ≠ []) (hmax : max < (first :: l).length) :
    Evicted max (first :: l) (killOldestDhcpsPool (first :: l)) ↔
      ∃ e ∈ l, e.leaseTimer ≤ first.leaseTimer := by
  obtain ⟨older, e, younger, hsplit, hkill, hmin⟩ := killOldestDhcpsPool_cons first hl
  have he : e ∈ l := by
    rw [hsplit]
    exact List.mem_append_right _ List.mem_cons_self
  rw [Evicted, if_pos hmax, hkill]
  constructor
  · rintro ⟨older', e', younger', hsplit', hafter, hmin'⟩
    cases older' with
    | nil =>
      -- the first lease is removed only if the second one is like it
      obtain ⟨rfl, rfl⟩ := List.cons.inj hsplit'
      rw [List.nil_append] at hafter
      exact ⟨first, hafter ▸ List.mem_cons_self, le_rfl⟩
    | cons a older' =>
      obtain ⟨rfl, hl'⟩ := List.cons.inj hsplit'
      refine ⟨e', ?_, hmin' _ List.mem_cons_self⟩
      rw [hl']
      exact List.mem_append_right _ List.mem_cons_self
  · rintro ⟨e', he', hle⟩
    refine ⟨first :: older, e, younger, by rw [hsplit]; rfl, rfl, fun e'' he'' => ?_⟩
    rcases List.mem_cons.1 he'' with rfl | he''
    · exact (hmin e' he').trans hle
    · exact hmin e'' he''

/-- A tick removes the leases whose time is over and, of too many others, an oldest one, if and only
if the leases are counted right and the first of them is not older than all others. -/
theorem coarseTmr_evicts_iff (c : Config) (s : Server) :
    Evicted c.maxStationNum s.remaining (dhcpsCoarseTmr c s).plist ↔
      EvictionRight c.maxStationNum s.remaining := by
  have hpos := c.maxStationNum_pos
  have hmod := Nat.mod_le s.remaining.length 256
  rw [dhcpsCoarseTmr_eq]
  dsimp only
  by_cases hmany : c.maxStationNum < s.remaining.length
  · by_cases hcounted : c.maxStationNum < s.remaining.length % 256
    · obtain ⟨first, rest, hsplit⟩ : ∃ first rest, s.remaining = first :: rest :=
        List.exists_cons_of_length_pos (by omega)
      have hrest : rest ≠ [] := by
        rintro rfl
        rw [hsplit] at hmany
        exact absurd hmany (by simpa using Nat.one_le_iff_ne_zero.1 hpos)
      rw [if_pos hcounted, EvictionRight]
      rw [hsplit] at hmany hcounted ⊢
      rw [evicted_killOldest_iff hrest hmany]
      constructor
      · exact fun h => .inr ⟨hcounted, first, rest, rfl, h⟩
      · rintro (hfew | ⟨-, first', rest', heq, h⟩)
        · exact absurd hmany (Nat.not_lt.2 hfew)
        · cases heq
          exact h
    · rw [if_neg hcounted, Evicted, if_pos hmany]
      refine iff_of_false ?_ ?_
      · rintro ⟨older, e, younger, hsplit, hafter, -⟩
        have hlen := congrArg List.length (hsplit.symm.trans hafter)
        simp at hlen
      · rintro (hfew | ⟨h, -⟩)
        · omega
        · exact hcounted h
  · rw [if_neg (by omega), Evicted, if_neg hmany]
    exact iff_of_true rfl (.inl (Nat.not_lt.1 hmany))

/-- One lease too many, and the first one is the oldest. -/
theorem coarseTmr_keeps_oldest : ¬ ∀ (c : Config) (s : Server),
    Evicted c.maxStationNum s.remaining (dhcpsCoarseTmr c s).plist := by
  intro h
  have hevicted := h ⟨7200, 1, le_rfl⟩ ⟨[⟨1, 1, 5⟩, ⟨2, 2, 9⟩], ⟨false, 1, 9⟩, 0, 1⟩
  have hremaining : Server.remaining ⟨[⟨1, 1, 5⟩, ⟨2, 2, 9⟩], ⟨false, 1, 9⟩, 0, 1⟩ =
      [⟨1, 1, 4⟩, ⟨2, 2, 8⟩] := by decide
  rw [dhcpsCoarseTmr_eq, hremaining, Evicted, if_pos (by decide)] at hevicted
  obtain ⟨older, e, younger, hsplit, hafter, hmin⟩ := hevicted
  -- the first lease is left
  have hkilled : [⟨1, 1, 4⟩] = older ++ younger := hafter
  have holdest := hmin ⟨1, 1, 4⟩ List.mem_cons_self
  cases older with
  | nil =>
    obtain ⟨rfl, hyounger⟩ := List.cons.inj hsplit
    rw [List.nil_append, ← hyounger] at hkilled
    exact absurd hkilled (by decide)
  | cons a older =>
    obtain ⟨-, hrest⟩ := List.cons.inj hsplit
    have he' : e ∈ [(⟨2, 2, 8⟩ : Lease)] := by
      rw [hrest]
      exact List.mem_append_right _ List.mem_cons_self
    rw [List.mem_singleton.1 he'] at holdest
    exact absurd holdest (by decide)

end EspIdf.Dhcps
