/-
# The memory that is left for the heap

The table of memory regions of a chip, less the ranges that are reserved, is what the heap is made
of.  Each region is trimmed by the reservations in turn; a reservation inside it splits it, and
what lies behind is put back into the table to be examined again.  Addresses lie below 2³¹, where
`intptr_t` does not wrap.
-/
import Mathlib

namespace EspIdf.Soc

/-- `soc_memory_region_t`. -/
@[ext]
structure Region where
  start : ℕ
  size : ℕ
  type : ℕ
  iramAddress : ℕ
deriving DecidableEq

/-- `soc_reserved_region_t`; `stop` is its `end`. -/
structure Reserved where
  start : ℕ
  stop : ℕ
deriving DecidableEq

/-! ### The reserved ranges -/

/-- Expand a reserved range to word boundaries. -/
def Reserved.expand (r : Reserved) : Reserved := ⟨r.start / 4 * 4, (r.stop + 3) / 4 * 4⟩

/-- The validity checks; they abort with `none`. -/
def checkReserved : List Reserved → Option (List Reserved)
  | [] => some []
  | [r] => if r.expand.start < r.expand.stop then some [r.expand] else none
  | r :: next :: rest =>
    if ¬ r.expand.start < r.expand.stop then none
    else if ¬ next.start > r.expand.start then none
    else if r.expand.stop > next.start then none
    else (checkReserved (next :: rest)).map (r.expand :: ·)

/-- `s_prepare_reserved_regions`, for the ranges of the linker together with the two extra ones. -/
def prepareReservedRegions (reserved : List Reserved) : Option (List Reserved) :=
  checkReserved (reserved.insertionSort fun a b => a.start ≤ b.start)

/-! ### The available regions -/

/-- The loop over the reservations for the region `orig` of the table: what is copied to the
output, and what is put back. -/
def trim (orig : Region) : List Reserved → Region → ℕ → ℕ → Option Region × Option Region
  | [], region, _, _ => (some region, none)
  | r :: rest, region, inStart, inEnd =>
    if r.stop ≤ inStart then trim orig rest region inStart inEnd
    else if r.start ≥ inEnd then (some region, none)
    else if r.start ≤ inStart ∧ r.stop ≥ inEnd then (none, none)
    else if inStart < r.start ∧ inEnd > r.stop then
      (some { region with size := r.start - inStart },
        some { orig with start := r.stop, size := orig.size - (r.stop - orig.start) })
    else if r.start ≤ inStart then
      trim orig rest { region with start := r.stop, size := inEnd - r.stop } r.stop inEnd
    else trim orig rest { region with size := r.start - inStart } inStart r.start

/-- The loop over the regions, with less than `fuel` rounds. -/
def availableLoop (reserved : List Reserved) : ℕ → List Region → Option (List Region)
  | 0, _ => none
  | _ + 1, [] => some []
  | fuel + 1, region :: regions =>
    let res := trim region reserved region region.start (region.start + region.size)
    (availableLoop reserved fuel (res.2.toList ++ regions)).map (res.1.toList ++ ·)

/-- `soc_get_available_memory_regions`. -/
def getAvailableMemoryRegions (fuel : ℕ) (regions : List Region) (reserved : List Reserved) :
    Option (List Region) := do
  let reserved ← prepareReservedRegions reserved
  availableLoop reserved fuel regions

/-- `soc_get_available_memory_region_max_count`. -/
def getAvailableMemoryRegionMaxCount (regions : List Region) (reserved : List Reserved) : ℕ :=
  regions.length + reserved.length

/-! ### Addresses -/

def Region.addresses (r : Region) : Set ℕ := Set.Ico r.start (r.start + r.size)

def Reserved.addresses (r : Reserved) : Set ℕ := Set.Ico r.start r.stop

/-- The region ends before the other one begins. -/
def Region.Before (r s : Region) : Prop := r.start + r.size ≤ s.start

/-- Sorted reservations that are not empty. -/
structure Prepared (reserved : List Reserved) : Prop where
  sorted : reserved.Pairwise fun r s => r.stop ≤ s.start
  nonempty : ∀ r ∈ reserved, r.start < r.stop

variable {reserved : List Reserved} {orig : Region} {inStart inEnd : ℕ}

lemma Prepared.tail {r : Reserved} (h : Prepared (r :: reserved)) : Prepared reserved :=
  ⟨(List.pairwise_cons.mp h.sorted).2, fun s hs => h.nonempty s (List.mem_cons_of_mem r hs)⟩

lemma checkReserved_eq {l : List Reserved} (h : checkReserved l = some reserved) :
    reserved = l.map Reserved.expand ∧ Prepared reserved := by
  induction l generalizing reserved with
  | nil =>
    obtain rfl := Option.some.inj h
    exact ⟨rfl, List.Pairwise.nil, fun r hr => absurd hr List.not_mem_nil⟩
  | cons r l ih =>
    cases l with
    | nil =>
      rw [checkReserved] at h
      split at h
      · next hlt =>
        obtain rfl := Option.some.inj h
        exact ⟨rfl, List.pairwise_singleton .., fun s hs => by rwa [List.mem_singleton.mp hs]⟩
      · cases h
    | cons next rest =>
      rw [checkReserved] at h
      split at h
      · cases h
      · next hlt =>
        split at h
        · cases h
        · split at h
          · cases h
          · next hle =>
            obtain ⟨tail, htail, rfl⟩ := Option.map_eq_some_iff.mp h
            obtain ⟨heq, hprep⟩ := ih htail
            -- what is behind a word boundary stays behind it when it is expanded
            have hword : r.expand.stop ≤ next.expand.start := by
              have : (r.stop + 3) / 4 * 4 ≤ next.start := Nat.not_lt.mp hle
              show (r.stop + 3) / 4 * 4 ≤ next.start / 4 * 4
              omega
            refine ⟨by rw [heq]; rfl, List.pairwise_cons.mpr ⟨fun s hs => ?_, hprep.sorted⟩,
              List.forall_mem_cons.mpr ⟨not_not.mp hlt, hprep.nonempty⟩⟩
            rw [heq, List.map_cons] at hs hprep
            rcases List.mem_cons.mp hs with rfl | hs
            · exact hword
            · have hnext := hprep.nonempty _ List.mem_cons_self
              have := (List.pairwise_cons.mp hprep.sorted).1 s hs
              omega

/-! ### One region -/

/-- What is copied and what is put back of the addresses from `inStart` to `inEnd`: together the
ones that are not reserved, and what is put back begins behind a reservation. -/
structure Trimmed (orig : Region) (reserved : List Reserved) (inStart inEnd : ℕ)
    (res : Option Region × Option Region) : Prop where
  cover : ∀ a, (inStart ≤ a ∧ a < inEnd ∧ ∀ r ∈ reserved, a ∉ r.addresses) ↔
    (∃ o ∈ res.1, a ∈ o.addresses) ∨
      ((∃ o ∈ res.2, a ∈ o.addresses) ∧ ∀ r ∈ reserved, a ∉ r.addresses)
  copied : ∀ o ∈ res.1, inStart ≤ o.start ∧ o.start + o.size ≤ inEnd ∧ o.type = orig.type ∧
    (inStart < inEnd → 0 < o.size)
  left : ∀ o ∈ res.2, (∃ r ∈ reserved, o.start = r.stop) ∧ inStart < o.start ∧
    inEnd = orig.start + orig.size ∧ o.start + o.size = inEnd ∧ 0 < o.size ∧
    o.type = orig.type ∧ ∀ o' ∈ res.1, o'.Before o

/-- A reservation of which nothing is left in the addresses from `start` to `stop`. -/
lemma Trimmed.cons {res : Option Region × Option Region} {r : Reserved} {start stop : ℕ}
    (h : Trimmed orig reserved start stop res) (hstart : inStart ≤ start) (hstop : stop ≤ inEnd)
    (hlt : inStart < inEnd → start < stop)
    (hr : ∀ a, start ≤ a ∧ a < stop ↔ inStart ≤ a ∧ a < inEnd ∧ a ∉ r.addresses)
    (hend : stop = orig.start + orig.size → stop = inEnd) :
    Trimmed orig (r :: reserved) inStart inEnd res where
  cover := by
    intro a
    have hleft : (∃ o ∈ res.2, a ∈ o.addresses) → a ∉ r.addresses := by
      rintro ⟨o, ho, hao⟩
      obtain ⟨-, hlt, -, hend, -⟩ := h.left o ho
      have hao : o.start ≤ a ∧ a < o.start + o.size := hao
      exact ((hr a).mp ⟨by omega, by omega⟩).2.2
    have hcover := h.cover a
    rw [← and_assoc, hr a] at hcover
    simp only [List.forall_mem_cons]
    constructor
    · rintro ⟨hge, hlt, hnot, hrest⟩
      rcases hcover.mp ⟨⟨hge, hlt, hnot⟩, hrest⟩ with hout | ⟨hout, -⟩
      · exact .inl hout
      · exact .inr ⟨hout, hleft hout, hrest⟩
    · intro hout
      obtain ⟨⟨hge, hlt, hnot⟩, hrest⟩ := hcover.mpr (hout.imp_right fun hout => ⟨hout.1, hout.2.2⟩)
      exact ⟨hge, hlt, hnot, hrest⟩
  copied := by
    intro o ho
    obtain ⟨hge, hle, htype, hpos⟩ := h.copied o ho
    exact ⟨hstart.trans hge, hle.trans hstop, htype, fun h => hpos (hlt h)⟩
  left := by
    intro o ho
    obtain ⟨⟨v, hv, hv'⟩, hgt, horig, hsize, hrest⟩ := h.left o ho
    have hsame := hend horig
    exact ⟨⟨v, List.mem_cons_of_mem r hv, hv'⟩, hstart.trans_lt hgt, hsame ▸ horig, hsame ▸ hsize,
      hrest⟩

/-- Without a reservation that meets the addresses, the region is copied. -/
lemma trimmed_copy (hle : inStart ≤ inEnd)
    (hnone : ∀ r ∈ reserved, ∀ a, inStart ≤ a → a < inEnd → a ∉ r.addresses) :
    Trimmed orig reserved inStart inEnd
      (some { orig with start := inStart, size := inEnd - inStart }, none) where
  cover := by
    intro a
    simp only [Option.mem_def, Option.some.injEq, exists_eq_left', reduceCtorEq, false_and,
      exists_false, or_false, Region.addresses, Set.mem_Ico]
    constructor
    · rintro ⟨hge, hlt, -⟩
      omega
    · rintro ⟨hge, hlt⟩
      exact ⟨hge, by omega, fun r hr => hnone r hr a hge (by omega)⟩
  copied := by
    rintro o ⟨⟩
    refine ⟨le_rfl, ?_, rfl, ?_⟩
    · dsimp only
      omega
    · dsimp only
      omega
  left := fun o ho => by cases ho

/-- A reservation that covers the region leaves nothing of it. -/
lemma trimmed_none {r : Reserved} (hr : r.start ≤ inStart ∧ inEnd ≤ r.stop) :
    Trimmed orig (r :: reserved) inStart inEnd (none, none) where
  cover := by
    intro a
    refine iff_of_false ?_ (by simp)
    rintro ⟨hge, hlt, hnot⟩
    exact hnot r List.mem_cons_self ⟨hr.1.trans hge, hlt.trans_le hr.2⟩
  copied := fun o ho => absurd ho (by simp)
  left := fun o ho => absurd ho (by simp)

/-- A reservation inside the region splits it. -/
lemma trimmed_split {r : Reserved} (hr : inStart < r.start ∧ r.start < r.stop ∧ r.stop < inEnd)
    (hlater : ∀ v ∈ reserved, r.stop ≤ v.start) (hstart : orig.start ≤ inStart)
    (horig : inEnd = orig.start + orig.size) :
    Trimmed orig (r :: reserved) inStart inEnd
      (some { orig with start := inStart, size := r.start - inStart },
        some { orig with start := r.stop, size := orig.size - (r.stop - orig.start) }) where
  cover := by
    intro a
    simp only [Option.mem_def, Option.some.injEq, exists_eq_left', Region.addresses, Set.mem_Ico,
      List.forall_mem_cons, Reserved.addresses]
    constructor
    · rintro ⟨hge, hlt, hnot, hrest⟩
      by_cases ha : a < r.start
      · exact .inl (by omega)
      · exact .inr ⟨by omega, hnot, hrest⟩
    · rintro (⟨hge, hlt⟩ | ⟨⟨hge, hlt⟩, hnot, hrest⟩)
      · refine ⟨hge, by omega, by omega, fun v hv hav => ?_⟩
        have := hlater v hv
        omega
      · exact ⟨by omega, by omega, hnot, hrest⟩
  copied := by
    intro o ho
    obtain rfl := Option.some.inj ho
    refine ⟨le_rfl, ?_, rfl, fun _ => ?_⟩ <;> dsimp only <;> omega
  left := by
    intro o ho
    obtain rfl := Option.some.inj ho
    refine ⟨⟨r, List.mem_cons_self, rfl⟩, ?_, horig, ?_, ?_, rfl, fun o' ho' => ?_⟩
    · exact hr.1.trans hr.2.1
    · dsimp only
      omega
    · dsimp only
      omega
    · obtain rfl := Option.some.inj ho'
      show inStart + (r.start - inStart) ≤ r.stop
      omega

lemma trim_spec (hres : Prepared reserved) (hstart : orig.start ≤ inStart) (hle : inStart ≤ inEnd)
    (hend : inEnd = orig.start + orig.size ∨
      (inEnd < orig.start + orig.size ∧ ∀ r ∈ reserved, inEnd ≤ r.start)) :
    Trimmed orig reserved inStart inEnd
      (trim orig reserved { orig with start := inStart, size := inEnd - inStart } inStart
        inEnd) := by
  induction reserved generalizing inStart inEnd with
  | nil => exact trimmed_copy hle fun r hr => absurd hr List.not_mem_nil
  | cons r rest ih =>
    have hne := hres.nonempty r List.mem_cons_self
    -- the later reservations lie behind this one
    have hlater : ∀ v ∈ rest, r.stop ≤ v.start := (List.pairwise_cons.mp hres.sorted).1
    rw [trim]
    split
    · next hbefore =>
      have hrest := ih hres.tail hstart hle
        (hend.imp_right fun h => ⟨h.1, fun v hv => h.2 v (List.mem_cons_of_mem r hv)⟩)
      refine hrest.cons le_rfl le_rfl id (fun a => ?_) fun _ => rfl
      rw [Reserved.addresses, Set.mem_Ico]
      omega
    · next hbefore =>
      split
      · next hbehind =>
        refine trimmed_copy hle fun v hv a _ hlt ha => ?_
        have hv : inEnd ≤ v.start := by
          rcases List.mem_cons.mp hv with rfl | hv
          · exact hbehind
          · have := hlater v hv
            omega
        exact absurd (Set.mem_Ico.mp ha).1 (by omega)
      · next hbehind =>
        -- the reservation meets the addresses, so that the end has not been trimmed
        have horig : inEnd = orig.start + orig.size :=
          hend.resolve_right fun h => hbehind (h.2 r List.mem_cons_self)
        split
        · next hall => exact trimmed_none hall
        · next hall =>
          split
          · next hinside =>
            exact trimmed_split ⟨hinside.1, hne, hinside.2⟩ hlater hstart horig
          · next hinside =>
            split
            · next hfirst =>
              have hlt : r.stop < inEnd := by omega
              refine (ih hres.tail (by omega) hlt.le (.inl horig)).cons (by omega) le_rfl
                (fun _ => hlt) (fun a => ?_) fun _ => rfl
              rw [Reserved.addresses, Set.mem_Ico]
              omega
            · next hfirst =>
              have hlt : inStart < r.start := by omega
              refine (ih hres.tail hstart hlt.le (.inr ⟨by omega, fun v hv =>
                hne.le.trans (hlater v hv)⟩)).cons le_rfl (by omega) (fun _ => hlt) (fun a => ?_)
                fun h => by omega
              rw [Reserved.addresses, Set.mem_Ico]
              omega

/-! ### All regions -/

/-- The available regions of a sorted table. -/
structure Available (regions : List Region) (reserved : List Reserved) (out : List Region) :
    Prop where
  /-- They cover what the table covers and the reservations do not. -/
  cover : ∀ a, (∃ o ∈ out, a ∈ o.addresses) ↔
    (∃ r ∈ regions, a ∈ r.addresses) ∧ ∀ v ∈ reserved, a ∉ v.addresses
  sorted : out.Pairwise Region.Before
  inside : ∀ o ∈ out, ∃ r ∈ regions, r.start ≤ o.start ∧
    o.start + o.size ≤ r.start + r.size ∧ o.type = r.type
  nonempty : (∀ r ∈ regions, 0 < r.size) → ∀ o ∈ out, 0 < o.size

/-- How many rounds are left: one for each region, and one for each reservation that may split
one. -/
def rounds (reserved : List Reserved) : List Region → ℕ
  | [] => 0
  | r :: regions => regions.length + 1 + reserved.countP fun v => r.start < v.stop

lemma rounds_le (regions : List Region) :
    rounds reserved regions ≤ regions.length + reserved.length := by
  cases regions with
  | nil => exact Nat.zero_le _
  | cons r regions => exact Nat.add_le_add_left List.countP_le_length _

lemma countP_stop_le (l : List Reserved) {s t : ℕ} (h : t ≤ s) :
    (l.countP fun v => s < v.stop) ≤ l.countP fun v => t < v.stop :=
  List.countP_mono_left fun v _ hv => by
    rw [decide_eq_true_iff] at hv ⊢
    exact h.trans_lt hv

/-- Each round leaves fewer of them. -/
lemma rounds_lt {region : Region} {regions : List Region} {res : Option Region × Option Region}
    (hsorted : (region :: regions).Pairwise Region.Before)
    (h : Trimmed region reserved region.start (region.start + region.size) res) :
    rounds reserved (res.2.toList ++ regions) < rounds reserved (region :: regions) := by
  cases hres : res.2 with
  | none =>
    rw [Option.toList_none, List.nil_append]
    cases regions with
    | nil =>
      simp only [rounds]
      omega
    | cons next regions =>
      have hnext : region.start + region.size ≤ next.start :=
        (List.pairwise_cons.mp hsorted).1 next List.mem_cons_self
      have := countP_stop_le reserved (show region.start ≤ next.start by omega)
      simp only [rounds, List.length_cons]
      omega
  | some o =>
    obtain ⟨⟨v, hv, hstart⟩, hlt, -⟩ := h.left o hres
    -- the reservation in front of what is put back is not counted again
    have hcount : (reserved.countP fun v => o.start < v.stop) <
        reserved.countP fun v => region.start < v.stop := by
      obtain ⟨l, l', rfl⟩ := List.append_of_mem hv
      have hl := countP_stop_le l hlt.le
      have hl' := countP_stop_le l' hlt.le
      have hnot : ¬ o.start < v.stop := by omega
      have hyes : region.start < v.stop := by omega
      simp only [List.countP_append, List.countP_cons, hnot, hyes, decide_true, decide_false,
        Bool.false_eq_true, if_true, if_false]
      omega
    simp only [Option.toList_some, List.singleton_append, rounds]
    omega

lemma exists_addresses_append (o : Option Region) (regions : List Region) (a : ℕ) :
    (∃ r ∈ o.toList ++ regions, a ∈ r.addresses) ↔
      (∃ r ∈ o, a ∈ r.addresses) ∨ ∃ r ∈ regions, a ∈ r.addresses := by
  simp only [List.mem_append, Option.mem_toList, Option.mem_def, or_and_right, exists_or]

/-- One round in front of the others. -/
lemma Available.cons {region : Region} {regions out : List Region}
    {res : Option Region × Option Region} (hbehind : ∀ r ∈ regions, region.Before r)
    (h : Trimmed region reserved region.start (region.start + region.size) res)
    (hout : Available (res.2.toList ++ regions) reserved out) :
    Available (region :: regions) reserved (res.1.toList ++ out) where
  cover := by
    intro a
    have hregion : (a ∈ region.addresses ∧ ∀ v ∈ reserved, a ∉ v.addresses) ↔ _ :=
      and_assoc.trans (h.cover a)
    have hrest := hout.cover a
    rw [exists_addresses_append] at hrest
    rw [exists_addresses_append, hrest, List.exists_mem_cons_iff]
    constructor
    · rintro (hcopied | ⟨hleft | hlater, hfree⟩)
      · obtain ⟨hin, hfree⟩ := hregion.mpr (.inl hcopied)
        exact ⟨.inl hin, hfree⟩
      · exact ⟨.inl (hregion.mpr (.inr ⟨hleft, hfree⟩)).1, hfree⟩
      · exact ⟨.inr hlater, hfree⟩
    · rintro ⟨hin | hlater, hfree⟩
      · rcases hregion.mp ⟨hin, hfree⟩ with hcopied | ⟨hleft, -⟩
        · exact .inl hcopied
        · exact .inr ⟨.inl hleft, hfree⟩
      · exact .inr ⟨.inr hlater, hfree⟩
  sorted := by
    refine List.pairwise_append.mpr ⟨?_, hout.sorted, fun o ho o' ho' => ?_⟩
    · cases res.1 with
      | none => exact List.Pairwise.nil
      | some o => exact List.pairwise_singleton ..
    · obtain ⟨r, hr, hstart, -⟩ := hout.inside o' ho'
      rw [Option.mem_toList] at ho
      suffices o.Before r from Nat.le_trans this hstart
      rcases List.mem_append.mp hr with hr | hr
      · obtain ⟨-, -, -, -, -, -, hbefore⟩ := h.left r (Option.mem_toList.mp hr)
        exact hbefore o ho
      · exact Nat.le_trans (h.copied o ho).2.1 (hbehind r hr)
  inside := by
    intro o ho
    rcases List.mem_append.mp ho with ho | ho
    · obtain ⟨hge, hle, htype, -⟩ := h.copied o (Option.mem_toList.mp ho)
      exact ⟨region, List.mem_cons_self, hge, hle, htype⟩
    · obtain ⟨r, hr, hge, hle, htype⟩ := hout.inside o ho
      rcases List.mem_append.mp hr with hr | hr
      · obtain ⟨-, hgt, -, hend, -, htype', -⟩ := h.left r (Option.mem_toList.mp hr)
        exact ⟨region, List.mem_cons_self, hgt.le.trans hge, hend ▸ hle, htype.trans htype'⟩
      · exact ⟨r, List.mem_cons_of_mem _ hr, hge, hle, htype⟩
  nonempty := by
    intro hpos o ho
    obtain ⟨hregion, hrest⟩ := List.forall_mem_cons.mp hpos
    rcases List.mem_append.mp ho with ho | ho
    · exact (h.copied o (Option.mem_toList.mp ho)).2.2.2 (by omega)
    · refine hout.nonempty (fun r hr => ?_) o ho
      rcases List.mem_append.mp hr with hr | hr
      · obtain ⟨-, -, -, -, hsize, -⟩ := h.left r (Option.mem_toList.mp hr)
        exact hsize
      · exact hrest r hr

lemma availableLoop_spec (hres : Prepared reserved) {fuel : ℕ} {regions : List Region}
    (hsorted : regions.Pairwise Region.Before) (hfuel : rounds reserved regions < fuel) :
    ∃ out, availableLoop reserved fuel regions = some out ∧ Available regions reserved out ∧
      out.length ≤ rounds reserved regions := by
  induction fuel generalizing regions with
  | zero => exact absurd hfuel (Nat.not_lt_zero _)
  | succ fuel ih =>
    cases regions with
    | nil =>
      exact ⟨[], rfl, ⟨by simp, List.Pairwise.nil, fun o ho => absurd ho List.not_mem_nil,
        fun _ o ho => absurd ho List.not_mem_nil⟩, Nat.zero_le _⟩
    | cons region regions =>
      have htrim := @trim_spec _ region _ _ hres le_rfl (Nat.le_add_right _ region.size)
        (.inl rfl)
      have hself : ({ region with start := region.start, size := region.start + region.size -
          region.start } : Region) = region := by
        rw [Nat.add_sub_cancel_left]
      rw [hself] at htrim
      rw [availableLoop]
      generalize trim region reserved region region.start (region.start + region.size) = res
        at htrim ⊢
      obtain ⟨hfirst, hrest⟩ := List.pairwise_cons.mp hsorted
      have hlt := rounds_lt hsorted htrim
      have hnext : (res.2.toList ++ regions).Pairwise Region.Before := by
        refine List.pairwise_append.mpr ⟨?_, hrest, fun o ho r hr => ?_⟩
        · cases res.2 with
          | none => exact List.Pairwise.nil
          | some o => exact List.pairwise_singleton ..
        · obtain ⟨-, -, -, hend, -⟩ := htrim.left o (Option.mem_toList.mp ho)
          exact Nat.le_trans (Nat.le_of_eq hend) (hfirst r hr)
      obtain ⟨out, hout, havail, hlen⟩ := ih hnext (by omega)
      refine ⟨res.1.toList ++ out, by rw [hout]; rfl, havail.cons hfirst htrim, ?_⟩
      have hone : res.1.toList.length ≤ 1 := by cases res.1 <;> simp
      rw [List.length_append]
      omega

/-- The available regions are the memory of the table less the expanded reservations, in the order
of their addresses, and they fit into the table of the maximal count. -/
theorem getAvailableMemoryRegions_spec {regions : List Region} {reserved res : List Reserved}
    (hsorted : regions.Pairwise Region.Before)
    (hprepare : prepareReservedRegions reserved = some res) {fuel : ℕ}
    (hfuel : getAvailableMemoryRegionMaxCount regions reserved < fuel) :
    ∃ out, getAvailableMemoryRegions fuel regions reserved = some out ∧
      Available regions (reserved.map Reserved.expand) out ∧
      out.length ≤ getAvailableMemoryRegionMaxCount regions reserved := by
  obtain ⟨hres, hprep⟩ := checkReserved_eq hprepare
  have hperm : (reserved.insertionSort fun a b => a.start ≤ b.start).Perm reserved :=
    List.perm_insertionSort _ _
  have hlen : res.length = reserved.length := by
    rw [hres, List.length_map, hperm.length_eq]
  have hrounds : rounds res regions ≤ getAvailableMemoryRegionMaxCount regions reserved := by
    rw [getAvailableMemoryRegionMaxCount, ← hlen]
    exact rounds_le regions
  obtain ⟨out, hout, havail, hcount⟩ := availableLoop_spec hprep hsorted (hrounds.trans_lt hfuel)
  refine ⟨out, by rw [getAvailableMemoryRegions, hprepare]; exact hout,
    { havail with cover := fun a => ?_ }, hcount.trans hrounds⟩
  have hsame : ∀ v, v ∈ res ↔ v ∈ reserved.map Reserved.expand := fun v => by
    rw [hres]
    exact (hperm.map _).mem_iff
  rw [havail.cover a]
  simp only [hsame]

theorem getAvailableMemoryRegions_spec_two :
    ∃ out, getAvailableMemoryRegions 5
        [⟨0x3FFAE000, 0x2000, 0, 0⟩, ⟨0x3FFB0000, 0x8000, 0, 0⟩]
        [⟨0x3FFB0010, 0x3FFB2001⟩, ⟨0x3FFAE6E0, 0x3FFAFF10⟩] = some out ∧
      Available [⟨0x3FFAE000, 0x2000, 0, 0⟩, ⟨0x3FFB0000, 0x8000, 0, 0⟩]
        ([⟨0x3FFB0010, 0x3FFB2001⟩, ⟨0x3FFAE6E0, 0x3FFAFF10⟩].map Reserved.expand) out ∧
      out.length ≤ getAvailableMemoryRegionMaxCount
        [⟨0x3FFAE000, 0x2000, 0, 0⟩, ⟨0x3FFB0000, 0x8000, 0, 0⟩]
        [⟨0x3FFB0010, 0x3FFB2001⟩, ⟨0x3FFAE6E0, 0x3FFAFF10⟩] :=
  @getAvailableMemoryRegions_spec _ _ [⟨0x3FFAE6E0, 0x3FFAFF10⟩, ⟨0x3FFB0010, 0x3FFB2004⟩]
    (List.pairwise_pair.mpr (by unfold Region.Before; decide)) (by decide +kernel)
    5 (by rw [getAvailableMemoryRegionMaxCount]; decide)

/-- A region of the table that is empty is copied, too. -/
theorem getAvailableMemoryRegions_copies_empty :
    prepareReservedRegions [⟨0x3FFB2000, 0x3FFB2100⟩, ⟨0x40080000, 0x40080400⟩] =
        some [⟨0x3FFB2000, 0x3FFB2100⟩, ⟨0x40080000, 0x40080400⟩] ∧
      getAvailableMemoryRegions 4 [⟨0x3FFB0000, 0, 0, 0⟩]
          [⟨0x3FFB2000, 0x3FFB2100⟩, ⟨0x40080000, 0x40080400⟩] =
        some [⟨0x3FFB0000, 0, 0, 0⟩] := by
  decide +kernel

end EspIdf.Soc
