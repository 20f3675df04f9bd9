/-
# The choice of an interrupt

An allocation looks for a descriptor that mentions the source before it looks at the interrupts.  A
descriptor that was reserved, or whose handle was freed, mentions a source as well, so that the
interrupt that is found may be one that cannot be used, or not one of the lowest level.  The search
through all interrupts is right.
-/
import EspIdf.IntrAlloc.Vectors

namespace EspIdf.IntrAlloc

variable {A H : Type}

/-- `esp_intr_mark_shared`. -/
def IntrState.markShared (c : Config) (s : IntrState A H) (intno : ℕ) (isIntRam memory : Bool) :
    EspErr × IntrState A H :=
  if h : intno < 32 then
    match getDescForInt ⟨intno, h⟩ c.cpu memory s.vectorDescs with
    | none => (.noMem, s)
    | some vectorDescs =>
      (.ok, { s with vectorDescs }.modify c ⟨intno, h⟩ fun vd =>
        { vd with flags :=
            if isIntRam then vecdescFlShared ||| vecdescFlIniram else vecdescFlShared })
  else (.invalidArg, s)

/-- The states that are reached by calls on the CPU, in any order. -/
inductive Reaches [DecidableEq A] [DecidableEq H] (c : Config) (table : Fin 32 → XtHandler) :
    IntrState A H → Prop where
  | init : Reaches c table (IntrState.init table)
  | markShared {s : IntrState A H} (intno : ℕ) (isIntRam memory : Bool) (h : Reaches c table s) :
    Reaches c table (s.markShared c intno isIntRam memory).2
  | step {s s' : IntrState A H} {err : EspErr} (event : IntrEvent A H) (h : Reaches c table s)
    (hstep : s.step c event = .ok (err, s')) : Reaches c table s'

/-- The descriptor of an interrupt, or the one that stands for none. -/
def IntrState.desc (c : Config) (s : IntrState A H) (x : Fin 32) : VectorDesc A :=
  (findDescForInt x c.cpu s.vectorDescs).getD (emptyVectDesc 0 x)

/-- The interrupt passes `is_vect_desc_usable`. -/
def Usable (c : Config) (s : IntrState A H) (flags : BitVec 32) (x : Fin 32) : Prop :=
  isVectDescUsable c s.xtInterruptTable (s.desc c x) flags none = .ok true

/-- No interrupt that can be used has a lower level. -/
def Lowest (c : Config) (s : IntrState A H) (flags : BitVec 32) (x : Fin 32) : Prop :=
  ∀ y, Usable c s flags y → (c.intDesc x).level ≤ (c.intDesc y).level

/-- An allocation does not fail an assertion, finds an interrupt if one can be used, and takes one
of the lowest level if it is not shared. -/
def AllocRight [DecidableEq A] [DecidableEq H] (c : Config) (s : IntrState A H) (a : AllocArgs)
    (m : AllocMemory A H) : Prop :=
  ∃ err s', s.alloc c a m = .ok (err, s') ∧
    (err = .notFound → ∀ x, ¬ Usable c s a.levelFlags x) ∧
    (err = .ok → ¬ has a.levelFlags espIntrFlagShared → ∀ ret handle, m.ret = some ret →
      s'.handles ret = some handle → Lowest c s a.levelFlags handle.vectorDesc)

/-- The search for the source stops at a descriptor. -/
def VectorDesc.stops (source : Source) (cpu : Fin 2) (vd : VectorDesc A) : Bool :=
  vd.cpu = cpu ∧ if has vd.flags vecdescFlShared then
    vd.sharedVecInfo.isEmpty ∨ vd.sharedVecInfo.any fun svd => svd.source = source
    else vd.source = source

/-- The first descriptor that the search for the source stops at, if there is one, has a handler if
it is marked as shared; and it can be used, with the lowest level if the request is not shared,
unless no interrupt can be used. -/
def Fits (c : Config) (s : IntrState A H) (a : AllocArgs) : Prop :=
  ∀ vd, s.vectorDescs.find? (VectorDesc.stops a.source c.cpu) = some vd →
    ¬ (has vd.flags vecdescFlShared ∧ vd.sharedVecInfo = []) ∧
      ((∀ x, ¬ Usable c s a.levelFlags x) ∨
        (isVectDescUsable c s.xtInterruptTable vd a.levelFlags none = .ok true ∧
          (¬ has a.levelFlags espIntrFlagShared → Lowest c s a.levelFlags vd.intno)))

variable {c : Config} {s s' : IntrState A H} {a : AllocArgs} {flags : BitVec 32}
  {vd : VectorDesc A} {x y : Fin 32} {l l' : List (VectorDesc A)}

/-! ### Flags -/

lemma has_and {w : ℕ} {f g m : BitVec w} (h : has (f &&& g) m = true) : has f m = true := by
  rw [has, bne_iff_ne] at h ⊢
  intro hzero
  rw [BitVec.and_assoc, BitVec.and_comm g, ← BitVec.and_assoc, hzero] at h
  exact h BitVec.zero_and

lemma has_or {w : ℕ} (f g m : BitVec w) : has (f ||| g) m = (has f m || has g m) := by
  rw [Bool.eq_iff_iff]
  simp only [has, bne_iff_ne, ne_eq, Bool.or_eq_true, BitVec.and_or_distrib_right]
  exact (not_congr BitVec.or_eq_zero_iff).trans not_and_or

/-- A level is requested. -/
lemma has_levelFlags (a : AllocArgs) : has a.levelFlags espIntrFlagLevelmask = true := by
  rw [AllocArgs.levelFlags]
  split_ifs with h hshared
  · rw [has_or, Bool.or_eq_true]
    exact Or.inr (by decide)
  · rw [has_or, Bool.or_eq_true]
    exact Or.inr (by decide)
  · simpa using h

lemma level_lt (c : Config) (x : Fin 32) : (c.intDesc x).level < 9 := by
  have hall : ∀ d ∈ c.intDescs, d.level < 9 := by simp [Config.intDescs]
  exact hall _ (List.get_mem _ _)

/-! ### The search -/

/-- The interrupt is not both shared and not shared. -/
def VectorDesc.NotBoth (vd : VectorDesc A) : Prop :=
  ¬ (has vd.flags vecdescFlShared = true ∧ has vd.flags vecdescFlNonshared = true)

lemma isVectDescUsable_ok (h : vd.NotBoth) (c : Config) (table : Fin 32 → XtHandler)
    (flags : BitVec 32) (force : Option (Fin 32)) :
    ∃ b, isVectDescUsable c table vd flags force = .ok b := by
  unfold isVectDescUsable
  dsimp only
  iterate 5
    split
    · exact ⟨_, rfl⟩
  split
  · next hboth => exact absurd hboth h
  · split
    · exact ⟨_, rfl⟩
    · split
      · split
        · split <;> exact ⟨_, rfl⟩
        · exact ⟨_, rfl⟩
      · split <;> exact ⟨_, rfl⟩

/-- What the search has found among the interrupts that it has looked at. -/
def Searched (c : Config) (s : IntrState A H) (flags : BitVec 32) (b : Search)
    (xs : List (Fin 32)) : Prop :=
  match b.best with
  | none => b.bestLevel = 9 ∧ ∀ y ∈ xs, ¬ Usable c s flags y
  | some x => Usable c s flags x ∧ (¬ has flags espIntrFlagShared →
      b.bestLevel = (c.intDesc x).level ∧
        ∀ y ∈ xs, Usable c s flags y → (c.intDesc x).level ≤ (c.intDesc y).level)

lemma Searched.skip {b : Search} {xs : List (Fin 32)} (h : Searched c s flags b xs)
    (hx : Usable c s flags x → ∃ y, b.best = some y ∧ (¬ has flags espIntrFlagShared →
      (c.intDesc y).level ≤ (c.intDesc x).level)) : Searched c s flags b (xs ++ [x]) := by
  unfold Searched at h ⊢
  cases hbest : b.best with
  | none =>
    rw [hbest] at h hx
    refine ⟨h.1, fun y hy => ?_⟩
    rcases List.mem_append.1 hy with hy | hy
    · exact h.2 y hy
    · rw [List.mem_singleton.1 hy]
      intro husable
      obtain ⟨z, hz, -⟩ := hx husable
      cases hz
  | some z =>
    rw [hbest] at h hx
    refine ⟨h.1, fun hshared => ⟨(h.2 hshared).1, fun y hy husable => ?_⟩⟩
    rcases List.mem_append.1 hy with hy | hy
    · exact (h.2 hshared).2 y hy husable
    · rw [List.mem_singleton.1 hy] at husable ⊢
      obtain ⟨z', hz', hle⟩ := hx husable
      cases hz'
      exact hle hshared

lemma Searched.take {b b' : Search} {xs : List (Fin 32)} (h : Searched c s flags b xs)
    (husable : Usable c s flags x) (hbest : b'.best = some x)
    (hlevel : b'.bestLevel = (c.intDesc x).level)
    (hless : ¬ has flags espIntrFlagShared → (c.intDesc x).level < b.bestLevel) :
    Searched c s flags b' (xs ++ [x]) := by
  unfold Searched at h ⊢
  rw [hbest]
  refine ⟨husable, fun hshared => ⟨hlevel, fun y hy husable => ?_⟩⟩
  rcases List.mem_append.1 hy with hy | hy
  · cases hold : b.best with
    | none =>
      rw [hold] at h
      exact absurd husable (h.2 y hy)
    | some z =>
      rw [hold] at h
      obtain ⟨hz, hle⟩ := h.2 hshared
      exact Nat.le_trans (Nat.le_of_lt (hz ▸ hless hshared)) (hle y hy husable)
  · rw [List.mem_singleton.1 hy]

/-- One interrupt is looked at. -/
lemma Searched.step {b : Search} {xs : List (Fin 32)} (h : Searched c s flags b xs)
    (hboth : (s.desc c x).NotBoth) :
    ∃ b', searchStep c s flags b x = .ok b' ∧ Searched c s flags b' (xs ++ [x]) := by
  obtain ⟨usable, husable⟩ := isVectDescUsable_ok hboth c s.xtInterruptTable flags none
  have hlt := level_lt c x
  have hnone : b.best = none → b.bestLevel = 9 := by
    intro hbest
    unfold Searched at h
    rw [hbest] at h
    exact h.1
  have hsome : ¬ has flags espIntrFlagShared → ∀ y, b.best = some y →
      b.bestLevel = (c.intDesc y).level := by
    intro hshared y hbest
    unfold Searched at h
    rw [hbest] at h
    exact (h.2 hshared).1
  have hdesc : isVectDescUsable c s.xtInterruptTable
      ((findDescForInt x c.cpu s.vectorDescs).getD (emptyVectDesc 0 x)) flags none = .ok usable :=
    husable
  unfold searchStep
  simp only [hdesc, bind, Except.bind]
  cases usable with
  | false =>
    refine ⟨b, rfl, h.skip fun htrue => ?_⟩
    rw [Usable, husable] at htrue
    cases htrue
  | true =>
    simp only [Bool.not_true, Bool.false_eq_true, if_false]
    by_cases hshared : has flags espIntrFlagShared = true
    · -- a shared request keeps what it has found, but never goes on with nothing
      have hkeep : b.best ≠ none → Searched c s flags b (xs ++ [x]) := by
        refine fun hne => h.skip fun _ => ?_
        obtain ⟨y, hy⟩ := Option.ne_none_iff_exists'.1 hne
        exact ⟨y, hy, fun hnot => absurd hshared hnot⟩
      rw [if_pos hshared]
      split
      · split
        · exact ⟨_, rfl, h.take husable rfl rfl fun hnot => absurd hshared hnot⟩
        · next hworse =>
          exact ⟨b, rfl, hkeep fun hbest => hworse (Or.inr (by rw [hnone hbest]; exact hlt))⟩
      · split
        · next hbest =>
          rw [if_pos (by rw [hnone hbest]; exact hlt)]
          exact ⟨_, rfl, h.take husable rfl rfl fun hnot => absurd hshared hnot⟩
        · next hbest => exact ⟨b, rfl, hkeep hbest⟩
    · rw [if_neg hshared]
      split
      · next hlevel => exact ⟨_, rfl, h.take husable rfl rfl fun _ => hlevel⟩
      · next hlevel =>
        refine ⟨b, rfl, h.skip fun _ => ?_⟩
        cases hbest : b.best with
        | none => exact absurd hlt (hnone hbest ▸ hlevel)
        | some y => exact ⟨y, rfl, fun _ => Nat.not_lt.1 (hsome hshared y hbest ▸ hlevel)⟩

/-- All interrupts are looked at. -/
lemma Searched.fold (xs : List (Fin 32)) {b : Search} {ys : List (Fin 32)}
    (h : Searched c s flags b ys) (hboth : ∀ x, (s.desc c x).NotBoth) :
    ∃ b', xs.foldlM (searchStep c s flags) b = .ok b' ∧ Searched c s flags b' (ys ++ xs) := by
  induction xs generalizing b ys with
  | nil => exact ⟨b, rfl, by rwa [List.append_nil]⟩
  | cons x xs ih =>
    obtain ⟨b', hb', hstep⟩ := h.step (hboth x)
    obtain ⟨b'', hb'', hrest⟩ := ih hstep
    refine ⟨b'', ?_, by rwa [List.append_assoc] at hrest⟩
    rw [List.foldlM_cons, hb']
    exact hb''

/-! ### The descriptor of a source -/

lemma findDescForSource_eq (source : Source) (cpu : Fin 2) (l : List (VectorDesc A)) :
    findDescForSource source cpu l = match l.find? (VectorDesc.stops source cpu) with
      | none => .ok none
      | some vd => if has vd.flags vecdescFlShared ∧ vd.sharedVecInfo = [] then .error .assertion
        else .ok (some vd) := by
  induction l with
  | nil => rfl
  | cons vd l ih =>
    rw [findDescForSource, List.find?_cons, VectorDesc.stops]
    by_cases hcpu : vd.cpu = cpu
    · cases hshared : has vd.flags vecdescFlShared with
      | false =>
        by_cases hsource : vd.source = source
        · simp [hcpu, hsource, hshared]
        · simpa [hcpu, hsource] using ih
      | true =>
        by_cases hempty : vd.sharedVecInfo = []
        · simp [hcpu, hempty, hshared]
        · by_cases hany : (vd.sharedVecInfo.any fun svd => svd.source = source) = true
          · simp [hcpu, hempty, hany, hshared]
          · simpa [hcpu, hempty, hany] using ih
    · simpa [hcpu, Ne.symm hcpu] using ih

/-! ### What the search returns -/

/-- The interrupt that is found. -/
def Chosen (c : Config) (s : IntrState A H) (a : AllocArgs) (r : Option (Fin 32)) : Prop :=
  (r = none → ∀ x, ¬ Usable c s a.levelFlags x) ∧
    ∀ x, r = some x → ¬ has a.levelFlags espIntrFlagShared → Lowest c s a.levelFlags x

lemma chosen_none : Chosen c s a none ↔ ∀ x, ¬ Usable c s a.levelFlags x :=
  ⟨fun h => h.1 rfl, fun h => ⟨fun _ => h, fun _ hx => nomatch hx⟩⟩

lemma chosen_some : Chosen c s a (some x) ↔
    (¬ has a.levelFlags espIntrFlagShared → Lowest c s a.levelFlags x) := by
  refine ⟨fun h => h.2 x rfl, fun h => ⟨(fun hx => nomatch hx), fun y hy => ?_⟩⟩
  cases hy
  exact h

lemma getAvailableInt_found {n : Fin 69} (hsource : a.source = .mux n)
    (hfind : s.vectorDescs.find? (VectorDesc.stops a.source c.cpu) = some vd)
    (hboth : vd.NotBoth) :
    (has vd.flags vecdescFlShared ∧ vd.sharedVecInfo = [] →
      getAvailableInt c s a.levelFlags a.source = .error .assertion) ∧
    (¬ (has vd.flags vecdescFlShared ∧ vd.sharedVecInfo = []) →
      getAvailableInt c s a.levelFlags a.source =
        .ok (if isVectDescUsable c s.xtInterruptTable vd a.levelFlags none = .ok true then
          some vd.intno else none)) := by
  obtain ⟨usable, husable⟩ := isVectDescUsable_ok hboth c s.xtInterruptTable a.levelFlags none
  have hforce : a.source.force = none := by rw [hsource]; rfl
  unfold getAvailableInt
  rw [has_levelFlags, findDescForSource_eq, hfind]
  constructor
  · intro h
    simp only [if_pos h, bind, Except.bind]
  · intro h
    simp only [if_neg h, bind, Except.bind, hforce, Bool.not_true, Bool.false_eq_true, if_false,
      husable]
    cases usable <;> simp

/-- Without a descriptor that mentions the source the search is right. -/
lemma getAvailableInt_not_found {n : Fin 69} (hsource : a.source = .mux n)
    (hfind : s.vectorDescs.find? (VectorDesc.stops a.source c.cpu) = none)
    (hboth : ∀ x, (s.desc c x).NotBoth) :
    ∃ r, getAvailableInt c s a.levelFlags a.source = .ok r ∧ Chosen c s a r := by
  have hforce : a.source.force = none := by rw [hsource]; rfl
  have hinit : Searched c s a.levelFlags ⟨none, 9, 2 ^ 31 - 1⟩ [] :=
    ⟨rfl, fun y hy => absurd hy List.not_mem_nil⟩
  obtain ⟨b, hb, hsearched⟩ := hinit.fold (List.finRange 32) hboth
  rw [List.nil_append] at hsearched
  refine ⟨b.best, ?_, fun hbest x => ?_, fun x hbest hshared y => ?_⟩
  · unfold getAvailableInt
    rw [has_levelFlags, findDescForSource_eq, hfind]
    simp only [bind, Except.bind, hforce, Bool.not_true, Bool.false_eq_true, if_false]
    rw [hb]
  · unfold Searched at hsearched
    rw [hbest] at hsearched
    exact hsearched.2 x (List.mem_finRange x)
  · unfold Searched at hsearched
    rw [hbest] at hsearched
    exact (hsearched.2 hshared).2 y (List.mem_finRange y)

/-! ### The descriptors in every state -/

/-- An interrupt has one descriptor, and is not both shared and not shared. -/
structure DescsOk (l : List (VectorDesc A)) : Prop where
  keys : (l.map fun vd => (vd.cpu, vd.intno)).Nodup
  both : ∀ vd ∈ l, vd.NotBoth

lemma notBoth_of_not_shared (h : ¬ has vd.flags vecdescFlShared = true) : vd.NotBoth :=
  fun hboth => h hboth.1

lemma notBoth_of_not_nonshared (h : ¬ has vd.flags vecdescFlNonshared = true) : vd.NotBoth :=
  fun hboth => h hboth.2

lemma DescsOk.modify {n : Fin 32} {cpu : Fin 2} {f : VectorDesc A → VectorDesc A} (h : DescsOk l)
    (hkeys : ∀ vd, (f vd).cpu = vd.cpu ∧ (f vd).intno = vd.intno)
    (hf : ∀ vd ∈ l, vd.cpu = cpu → vd.intno = n → (f vd).NotBoth) :
    DescsOk (l.map fun vd => if vd.cpu = cpu ∧ vd.intno = n then f vd else vd) where
  keys := by
    rw [List.map_map]
    refine Eq.mpr (congrArg List.Nodup (List.map_congr_left fun vd _ => ?_)) h.keys
    dsimp only [Function.comp]
    split
    · rw [(hkeys vd).1, (hkeys vd).2]
    · rfl
  both := by
    intro vd hvd
    obtain ⟨vd, hmem, rfl⟩ := List.mem_map.1 hvd
    split
    · next hcond => exact hf vd hmem hcond.1 hcond.2
    · exact h.both vd hmem

lemma insertVectorDesc_perm (vd : VectorDesc A) (l : List (VectorDesc A)) :
    (insertVectorDesc vd l).Perm (vd :: l) := by
  induction l with
  | nil => exact List.Perm.refl _
  | cons x l ih =>
    rw [insertVectorDesc]
    split
    · exact List.Perm.refl _
    · exact (ih.cons x).trans (List.Perm.swap vd x l)

lemma findDescForInt_isSome {n : Fin 32} {cpu : Fin 2} :
    (findDescForInt n cpu l).isSome = true ↔ ∃ vd ∈ l, vd.cpu = cpu ∧ vd.intno = n := by
  rw [findDescForInt, List.find?_isSome]
  simp only [decide_eq_true_eq]

/-- Writing to a descriptor leaves it in the list. -/
lemma findDescForInt_modify {n : Fin 32} {cpu : Fin 2} {f : VectorDesc A → VectorDesc A}
    (h : (findDescForInt n cpu l).isSome = true)
    (hf : ∀ vd, (f vd).cpu = vd.cpu ∧ (f vd).intno = vd.intno) :
    (findDescForInt n cpu
      (l.map fun vd => if vd.cpu = cpu ∧ vd.intno = n then f vd else vd)).isSome = true := by
  obtain ⟨vd, hvd, hcpu, hintno⟩ := findDescForInt_isSome.1 h
  refine findDescForInt_isSome.2 ⟨f vd, List.mem_map.2 ⟨vd, hvd, ?_⟩, ?_⟩
  · rw [if_pos ⟨hcpu, hintno⟩]
  · rw [(hf vd).1, (hf vd).2]
    exact ⟨hcpu, hintno⟩

/-- The list with a descriptor of the interrupt. -/
lemma DescsOk.afterGet {n : Fin 32} {cpu : Fin 2} {memory : Bool} (h : DescsOk l)
    (hget : getDescForInt n cpu memory l = some l') :
    DescsOk l' ∧ (findDescForInt n cpu l').isSome = true ∧
      ∀ vd ∈ l', vd ∈ l ∨ vd = emptyVectDesc cpu n := by
  unfold getDescForInt at hget
  cases hfind : findDescForInt n cpu l with
  | some vd =>
    rw [hfind] at hget
    cases hget
    exact ⟨h, by rw [hfind]; rfl, fun vd hvd => Or.inl hvd⟩
  | none =>
    rw [hfind] at hget
    cases memory with
    | false => cases hget
    | true =>
      cases hget
      have hperm := insertVectorDesc_perm (emptyVectDesc cpu n) l
      have hmem : ∀ vd, vd ∈ insertVectorDesc (emptyVectDesc cpu n) l ↔
          vd = emptyVectDesc cpu n ∨ vd ∈ l := fun vd => hperm.mem_iff.trans List.mem_cons
      refine ⟨⟨?_, fun vd hvd => ?_⟩, ?_, fun vd hvd => ((hmem vd).1 hvd).symm⟩
      · rw [(hperm.map _).nodup_iff, List.map_cons, List.nodup_cons]
        refine ⟨fun hin => ?_, h.keys⟩
        obtain ⟨vd, hvd, heq⟩ := List.mem_map.1 hin
        have hsome : (findDescForInt n cpu l).isSome = true := findDescForInt_isSome.2
          ⟨vd, hvd, congrArg Prod.fst heq, congrArg Prod.snd heq⟩
        rw [hfind] at hsome
        cases hsome
      · rcases (hmem vd).1 hvd with rfl | hvd
        · exact notBoth_of_not_shared (by simp [emptyVectDesc, has])
        · exact h.both vd hvd
      · exact findDescForInt_isSome.2 ⟨_, (hmem _).2 (Or.inl rfl), rfl, rfl⟩

lemma DescsOk.desc (h : DescsOk s.vectorDescs) (c : Config) (x : Fin 32) :
    (s.desc c x).NotBoth := by
  rw [IntrState.desc]
  cases hfind : findDescForInt x c.cpu s.vectorDescs with
  | none => exact notBoth_of_not_shared (by simp [emptyVectDesc, has])
  | some vd => exact h.both vd (List.mem_of_find?_eq_some hfind)

/-- A descriptor is the one of its interrupt. -/
lemma DescsOk.eq {vd' : VectorDesc A} (h : DescsOk l) (hvd : vd ∈ l) (hvd' : vd' ∈ l)
    (hcpu : vd.cpu = vd'.cpu) (hintno : vd.intno = vd'.intno) : vd = vd' :=
  List.inj_on_of_nodup_map h.keys hvd hvd' (Prod.ext hcpu hintno)

lemma DescsOk.desc_eq (h : DescsOk s.vectorDescs) (hvd : vd ∈ s.vectorDescs)
    (hcpu : vd.cpu = c.cpu) : s.desc c vd.intno = vd := by
  obtain ⟨vd', hfind⟩ := Option.isSome_iff_exists.1
    (findDescForInt_isSome.2 ⟨vd, hvd, hcpu, rfl⟩)
  rw [IntrState.desc, hfind, Option.getD_some]
  rw [findDescForInt] at hfind
  have hvd' := List.find?_some hfind
  rw [decide_eq_true_eq] at hvd'
  exact h.eq (List.mem_of_find?_eq_some hfind) hvd (hvd'.1.trans hcpu.symm) hvd'.2

lemma desc_intno (c : Config) (s : IntrState A H) (x : Fin 32) : (s.desc c x).intno = x := by
  rw [IntrState.desc]
  cases hfind : findDescForInt x c.cpu s.vectorDescs with
  | none => rfl
  | some vd =>
    rw [findDescForInt] at hfind
    have hvd := List.find?_some hfind
    rw [decide_eq_true_eq] at hvd
    exact hvd.2

lemma not_nonshared_of_usable {table : Fin 32 → XtHandler} {force : Option (Fin 32)}
    (h : isVectDescUsable c table vd flags force = .ok true) :
    ¬ has vd.flags vecdescFlNonshared = true := by
  intro hnon
  unfold isVectDescUsable at h
  dsimp only at h
  iterate 5
    split at h
    · cases h
  split at h
  · cases h
  · cases h

/-- The interrupt that is found is not used alone. -/
lemma getAvailableInt_not_nonshared {source : Source} (h : DescsOk s.vectorDescs)
    (hget : getAvailableInt c s flags source = .ok (some x)) (hvd : vd ∈ s.vectorDescs)
    (hcpu : vd.cpu = c.cpu) (hintno : vd.intno = x) : ¬ has vd.flags vecdescFlNonshared = true := by
  unfold getAvailableInt at hget
  rw [findDescForSource_eq] at hget
  generalize (if (!has flags espIntrFlagLevelmask) = true then flags ||| espIntrFlagLowmed
    else flags) = flags' at hget
  cases hfind : s.vectorDescs.find? (VectorDesc.stops source c.cpu) with
  | some vd' =>
    have hmem := List.mem_of_find?_eq_some hfind
    have hstops := List.find?_some hfind
    rw [VectorDesc.stops, decide_eq_true_eq] at hstops
    obtain ⟨usable, husable⟩ :=
      isVectDescUsable_ok (h.both vd' hmem) c s.xtInterruptTable flags' source.force
    rw [hfind] at hget
    simp only [bind, Except.bind] at hget
    split at hget
    · cases hget
    · next heq =>
      split at heq
      · cases heq
      · cases heq
        dsimp only at hget
        split at hget
        · cases hget
        · rw [husable] at hget
          cases usable with
          | false => cases hget
          | true =>
            cases hget
            rw [h.eq hvd hmem (hcpu.trans hstops.1.symm) hintno]
            exact not_nonshared_of_usable husable
  | none =>
    have husable : ∀ force, isVectDescUsable c s.xtInterruptTable (s.desc c x) flags' force =
        .ok true → ¬ has vd.flags vecdescFlNonshared = true := by
      intro force husable
      rw [← hintno, h.desc_eq hvd hcpu] at husable
      exact not_nonshared_of_usable husable
    rw [hfind] at hget
    simp only [bind, Except.bind] at hget
    cases hforce : source.force with
    | some force =>
      rw [hforce] at hget
      obtain ⟨usable, hok⟩ :=
        isVectDescUsable_ok (h.desc c force) c s.xtInterruptTable flags' (some force)
      have hok' := hok
      rw [IntrState.desc] at hok'
      simp only [hok'] at hget
      cases usable with
      | false => cases hget
      | true =>
        have hx : (s.desc c force).intno = x := by simpa [IntrState.desc] using hget
        rw [desc_intno] at hx
        exact husable (some force) (hx ▸ hok)
    | none =>
      rw [hforce] at hget
      have hinit : Searched c s flags' ⟨none, 9, 2 ^ 31 - 1⟩ [] :=
        ⟨rfl, fun y hy => absurd hy List.not_mem_nil⟩
      obtain ⟨b, hb, hsearched⟩ := hinit.fold (List.finRange 32) fun x => h.desc c x
      simp only [hb, Except.ok.injEq] at hget
      unfold Searched at hsearched
      rw [hget] at hsearched
      exact husable none hsearched.1

/-! ### The calls -/

lemma vectorDescs_xtSetInterruptHandler (c : Config) (s : IntrState A H) (n : Fin 32)
    (f : XtHandler) : (s.xtSetInterruptHandler c n f).vectorDescs = s.vectorDescs := by
  rw [IntrState.xtSetInterruptHandler]
  split <;> rfl

lemma DescsOk.setDisabled [DecidableEq A] {n : Fin 32} {addr : A} {disabled : Bool}
    (h : DescsOk s.vectorDescs) :
    DescsOk (s.modify c n fun vd => vd.setDisabled addr disabled).vectorDescs :=
  h.modify (fun _ => ⟨rfl, rfl⟩) fun vd hvd _ _ => h.both vd hvd

lemma DescsOk.reserve (h : DescsOk s.vectorDescs) (intno : ℕ) (memory : Bool) :
    DescsOk (s.reserve c intno memory).2.vectorDescs := by
  rw [IntrState.reserve]
  split
  · next hlt =>
    cases hget : getDescForInt ⟨intno, hlt⟩ c.cpu memory s.vectorDescs with
    | none => exact h
    | some l =>
      exact (h.afterGet hget).1.modify (fun _ => ⟨rfl, rfl⟩) fun vd _ _ _ =>
        notBoth_of_not_shared (by simp [has, vecdescFlReserved, vecdescFlShared])
  · exact h

lemma DescsOk.markShared (h : DescsOk s.vectorDescs) (intno : ℕ) (isIntRam memory : Bool) :
    DescsOk (s.markShared c intno isIntRam memory).2.vectorDescs := by
  rw [IntrState.markShared]
  split
  · next hlt =>
    cases hget : getDescForInt ⟨intno, hlt⟩ c.cpu memory s.vectorDescs with
    | none => exact h
    | some l =>
      have hflags : ¬ has (if isIntRam then vecdescFlShared ||| vecdescFlIniram
          else vecdescFlShared) vecdescFlNonshared = true := by
        cases isIntRam <;> decide
      exact (h.afterGet hget).1.modify (fun _ => ⟨rfl, rfl⟩) fun vd _ _ _ hboth => hflags hboth.2
  · exact h

section Calls

variable [DecidableEq A] {handle : IntrHandle A} {err : EspErr}

lemma DescsOk.enable (h : DescsOk s.vectorDescs) (hstep : s.enable c handle = .ok (err, s')) :
    DescsOk s'.vectorDescs := by
  unfold IntrState.enable at hstep
  cases hvd : s.vectorDesc c handle with
  | error e =>
    rw [hvd] at hstep
    cases hstep
  | ok vd =>
    rw [hvd] at hstep
    cases hshared : handle.sharedVectorDesc with
    | none =>
      simp only [hshared, bind, Except.bind, pure, Except.pure] at hstep
      split at hstep
      · cases hstep
        exact h
      · cases hstep
        exact h
    | some addr =>
      simp only [hshared, bind, Except.bind, pure, Except.pure] at hstep
      cases hsvd : vd.shared addr with
      | error e =>
        rw [hsvd] at hstep
        cases hstep
      | ok svd =>
        simp only [hsvd] at hstep
        split at hstep
        · cases hstep
          exact h.setDisabled
        · cases hstep
          exact h.setDisabled

lemma DescsOk.disable (h : DescsOk s.vectorDescs) (hstep : s.disable c handle = .ok (err, s')) :
    DescsOk s'.vectorDescs := by
  unfold IntrState.disable at hstep
  cases hvd : s.vectorDesc c handle with
  | error e =>
    rw [hvd] at hstep
    cases hstep
  | ok vd =>
    rw [hvd] at hstep
    cases hshared : handle.sharedVectorDesc with
    | none =>
      simp only [hshared, bind, Except.bind, pure, Except.pure] at hstep
      split at hstep
      · cases hstep
        exact h
      · cases hstep
        exact h
    | some addr =>
      simp only [hshared, bind, Except.bind, pure, Except.pure] at hstep
      cases hsvd : vd.shared addr with
      | error e =>
        rw [hsvd] at hstep
        cases hstep
      | ok svd =>
        simp only [hsvd] at hstep
        split at hstep
        · cases hstep
        · split at hstep
          · cases hstep
            split
            · exact h.setDisabled
            · exact h.setDisabled
          · cases hstep
            exact h.setDisabled

/-- A handle that stands for its descriptor, and for the first handler of it, can be disabled. -/
lemma disable_ok (hvd : findDescForInt handle.vectorDesc c.cpu s.vectorDescs = some vd)
    (hshared : handle.sharedVectorDesc = vd.sharedVecInfo.head?.map SharedVectorDesc.addr) :
    ∃ err s', s.disable c handle = .ok (err, s') := by
  have hdesc : s.vectorDesc c handle = .ok vd := by rw [IntrState.vectorDesc, hvd]
  unfold IntrState.disable
  cases hinfo : vd.sharedVecInfo with
  | nil =>
    rw [hinfo] at hshared
    simp only [hdesc, hshared, bind, Except.bind, pure, Except.pure, List.head?_nil,
      Option.map_none]
    split
    · exact ⟨_, _, rfl⟩
    · exact ⟨_, _, rfl⟩
  | cons svd rest =>
    rw [hinfo] at hshared
    have hsvd : vd.shared svd.addr = .ok svd := by
      rw [VectorDesc.shared, hinfo, List.find?_cons_of_pos (by simp)]
    have hne : (vd.setDisabled svd.addr true).sharedVecInfo.isEmpty = false := by
      simp [VectorDesc.setDisabled, hinfo]
    simp only [hdesc, hshared, bind, Except.bind, pure, Except.pure, List.head?_cons,
      Option.map_some, hsvd, hne, Bool.false_eq_true, if_false]
    split
    · exact ⟨_, _, rfl⟩
    · exact ⟨_, _, rfl⟩

/-- The last part of an allocation, for an interrupt with a descriptor. -/
lemma DescsOk.allocEnd [DecidableEq H] {intr : Fin 32} (h : DescsOk s.vectorDescs)
    (source : Source) (flags : BitVec 32) (ret : H)
    (hdesc : (findDescForInt intr c.cpu s.vectorDescs).isSome = true) :
    ∃ s', s.allocEnd c source flags intr ret = .ok (.ok, s') ∧ DescsOk s'.vectorDescs ∧
      ∃ handle, s'.handles ret = some handle ∧ handle.vectorDesc = intr := by
  unfold IntrState.allocEnd
  lift_lets
  extract_lets iram noniram s1 s2 shared handle s3 finish
  have hs1 : DescsOk s1.vectorDescs ∧ (findDescForInt intr c.cpu s1.vectorDescs).isSome = true := by
    dsimp only [s1]
    split
    · refine ⟨h.modify (fun _ => ⟨rfl, rfl⟩) fun vd hvd _ _ hboth => h.both vd hvd ?_,
        findDescForInt_modify hdesc fun _ => ⟨rfl, rfl⟩⟩
      rw [has_or, has_or] at hboth
      simpa [has, vecdescFlIniram, vecdescFlShared, vecdescFlNonshared] using hboth
    · exact ⟨h.modify (fun _ => ⟨rfl, rfl⟩) fun vd hvd _ _ hboth =>
        h.both vd hvd ⟨has_and hboth.1, has_and hboth.2⟩,
        findDescForInt_modify hdesc fun _ => ⟨rfl, rfl⟩⟩
  have hs2 : s2.vectorDescs = s1.vectorDescs := by
    dsimp only [s2]
    split <;> rfl
  obtain ⟨vd, hvd⟩ := Option.isSome_iff_exists.1 hs1.2
  have hs3 : s3.vectorDescs = s1.vectorDescs := hs2
  have hshared : shared = vd.sharedVecInfo.head?.map SharedVectorDesc.addr := by
    dsimp only [shared]
    rw [hs2, hvd]
  have hfinish : ∀ t : IntrState A H, DescsOk t.vectorDescs →
      ∃ s', finish t = .ok (.ok, s') ∧ DescsOk s'.vectorDescs ∧
        ∃ handle, s'.handles ret = some handle ∧ handle.vectorDesc = intr := fun t ht =>
    ⟨_, rfl, ht, handle, Function.update_self _ _ _, rfl⟩
  split
  · have hdisable : ∃ err t, s3.disable c handle = .ok (err, t) :=
      disable_ok (by rw [hs3]; exact hvd) hshared
    obtain ⟨err, t, ht⟩ := hdisable
    simp only [ht, bind, Except.bind, pure, Except.pure]
    exact hfinish t (DescsOk.disable (hs3 ▸ hs1.1) ht)
  · exact hfinish s3 (hs3 ▸ hs1.1)

/-- An allocation with valid arguments, for which an interrupt is found. -/
lemma DescsOk.allocFound [DecidableEq H] {m : AllocMemory A H} {intr : Fin 32} {ret : H}
    (h : DescsOk s.vectorDescs) (hvalid : a.valid = true) (hret : m.ret = some ret)
    (hget : getAvailableInt c s a.levelFlags a.source = .ok (some intr)) :
    ∃ err s', s.alloc c a m = .ok (err, s') ∧ DescsOk s'.vectorDescs ∧ err ≠ .notFound ∧
      (m.vectorDesc = true → m.shVec ≠ none → err = .ok) ∧
      (err = .ok → ∃ handle, s'.handles ret = some handle ∧ handle.vectorDesc = intr) := by
  have hend : ∀ t : IntrState A H, DescsOk t.vectorDescs →
      (findDescForInt intr c.cpu t.vectorDescs).isSome = true →
      ∃ err s', t.allocEnd c a.source a.levelFlags intr ret = .ok (err, s') ∧
        DescsOk s'.vectorDescs ∧ err ≠ .notFound ∧
        (m.vectorDesc = true → m.shVec ≠ none → err = .ok) ∧
        (err = .ok → ∃ handle, s'.handles ret = some handle ∧ handle.vectorDesc = intr) := by
    intro t ht hsome
    obtain ⟨s', hs', hok, hhandle⟩ := ht.allocEnd a.source a.levelFlags ret hsome
    exact ⟨.ok, s', hs', hok, by decide, fun _ _ => rfl, fun _ => hhandle⟩
  unfold IntrState.alloc
  rw [hvalid, hret, hget]
  simp only [Bool.not_true, Bool.false_eq_true, if_false, bind, Except.bind]
  cases hdesc : getDescForInt intr c.cpu m.vectorDesc s.vectorDescs with
  | none =>
    refine ⟨.noMem, s, rfl, h, by decide, fun hmemory => ?_, (fun hok => nomatch hok)⟩
    unfold getDescForInt at hdesc
    rw [hmemory] at hdesc
    split at hdesc
    · cases hdesc
    · cases hdesc
  | some l =>
    obtain ⟨hl, hsome, hmem⟩ := h.afterGet hdesc
    have hnon : ∀ vd ∈ l, vd.cpu = c.cpu → vd.intno = intr →
        ¬ has vd.flags vecdescFlNonshared = true := by
      intro vd hvd hcpu hintno
      rcases hmem vd hvd with hvd | rfl
      · exact getAvailableInt_not_nonshared h hget hvd hcpu hintno
      · simp [emptyVectDesc, has]
    dsimp only
    split
    · split
      · next hnone =>
        exact ⟨.noMem, _, rfl, hl, by decide, fun _ hne => absurd hnone hne,
          (fun hok => nomatch hok)⟩
      · refine hend _ ?_ ?_
        · rw [vectorDescs_xtSetInterruptHandler]
          refine hl.modify (fun _ => ⟨rfl, rfl⟩) fun vd hvd hcpu hintno hboth => ?_
          have hboth' := hboth.2
          rw [has_or, Bool.or_eq_true] at hboth'
          exact hboth'.elim (hnon vd hvd hcpu hintno) (by decide)
        · rw [vectorDescs_xtSetInterruptHandler]
          exact findDescForInt_modify hsome fun _ => ⟨rfl, rfl⟩
    · have hflags : ¬ has vecdescFlNonshared vecdescFlShared = true := by decide
      have hmodified : DescsOk (l.map fun vd => if vd.cpu = c.cpu ∧ vd.intno = intr then
          { vd with flags := vecdescFlNonshared, source := a.source } else vd) :=
        hl.modify (fun _ => ⟨rfl, rfl⟩) fun vd _ _ _ hboth => hflags hboth.1
      refine hend _ ?_ ?_
      · split
        · rw [vectorDescs_xtSetInterruptHandler]
          exact hmodified
        · exact hmodified
      · split
        · rw [vectorDescs_xtSetInterruptHandler]
          exact findDescForInt_modify hsome fun _ => ⟨rfl, rfl⟩
        · exact findDescForInt_modify hsome fun _ => ⟨rfl, rfl⟩

/-- An allocation before an interrupt is looked for, and without one. -/
lemma alloc_cases [DecidableEq H] (c : Config) (s : IntrState A H) (a : AllocArgs)
    (m : AllocMemory A H) :
    (a.valid = false ∧ s.alloc c a m = .ok (.invalidArg, s)) ∨
    (a.valid = true ∧ m.ret = none ∧ s.alloc c a m = .ok (.noMem, s)) ∨
    (a.valid = true ∧ ∃ ret, m.ret = some ret ∧
      ((∃ e, getAvailableInt c s a.levelFlags a.source = .error e ∧ s.alloc c a m = .error e) ∨
        (getAvailableInt c s a.levelFlags a.source = .ok none ∧
          s.alloc c a m = .ok (.notFound, s)) ∨
        ∃ intr, getAvailableInt c s a.levelFlags a.source = .ok (some intr))) := by
  unfold IntrState.alloc
  cases hvalid : a.valid with
  | false => exact Or.inl ⟨rfl, rfl⟩
  | true =>
    refine Or.inr ?_
    cases hret : m.ret with
    | none => exact Or.inl ⟨rfl, rfl, rfl⟩
    | some ret =>
      refine Or.inr ⟨rfl, ret, rfl, ?_⟩
      cases hget : getAvailableInt c s a.levelFlags a.source with
      | error e => exact Or.inl ⟨e, rfl, rfl⟩
      | ok r =>
        refine Or.inr ?_
        cases r with
        | none => exact Or.inl ⟨rfl, rfl⟩
        | some intr => exact Or.inr ⟨intr, rfl⟩

lemma DescsOk.alloc [DecidableEq H] {m : AllocMemory A H} (h : DescsOk s.vectorDescs)
    (hstep : s.alloc c a m = .ok (err, s')) : DescsOk s'.vectorDescs := by
  rcases alloc_cases c s a m with ⟨-, heq⟩ | ⟨-, -, heq⟩ | ⟨hvalid, ret, hret, hget⟩
  · rw [heq] at hstep
    cases hstep
    exact h
  · rw [heq] at hstep
    cases hstep
    exact h
  · rcases hget with ⟨e, -, heq⟩ | ⟨-, heq⟩ | ⟨intr, hget⟩
    · rw [heq] at hstep
      cases hstep
    · rw [heq] at hstep
      cases hstep
      exact h
    · obtain ⟨err', s'', heq, hok, -⟩ := h.allocFound hvalid hret hget
      rw [heq] at hstep
      cases hstep
      exact hok

lemma DescsOk.free [DecidableEq H] {ret : H} (h : DescsOk s.vectorDescs)
    (hstep : s.free c ret handle = .ok (err, s')) : DescsOk s'.vectorDescs := by
  unfold IntrState.free at hstep
  cases hdis : s.disable c handle with
  | error e =>
    rw [hdis] at hstep
    cases hstep
  | ok r =>
    have hs : DescsOk r.2.vectorDescs := h.disable (hdis.trans rfl)
    rw [hdis] at hstep
    simp only [bind, Except.bind] at hstep
    cases hvd : r.2.vectorDesc c handle with
    | error e =>
      rw [hvd] at hstep
      cases hstep
    | ok vd =>
      have hclear : ∀ t : IntrState A H, DescsOk t.vectorDescs →
          DescsOk ((t.xtSetInterruptHandler c vd.intno .unhandled).modify c handle.vectorDesc
            fun vd => { vd with flags := vd.flags &&& 0 }).vectorDescs := by
        intro t ht
        refine DescsOk.modify (vectorDescs_xtSetInterruptHandler c t _ _ ▸ ht)
          (fun _ => ⟨rfl, rfl⟩) fun vd _ _ _ hboth => ?_
        have hzero : ¬ has (vd.flags &&& 0) vecdescFlShared = true := by simp [has]
        exact hzero hboth.1
      rw [hvd] at hstep
      dsimp only at hstep
      split at hstep
      · split at hstep
        · cases hstep
        · simp only [pure, Except.pure] at hstep
          cases hstep
          have hs' : DescsOk (r.2.modify c handle.vectorDesc fun vd' => { vd' with
              sharedVecInfo := vd.sharedVecInfo.eraseP fun svd =>
                some svd.addr = handle.sharedVectorDesc }).vectorDescs :=
            hs.modify (fun _ => ⟨rfl, rfl⟩) fun vd hvd _ _ => hs.both vd hvd
          dsimp only
          split
          · exact hclear _ hs'
          · exact hs'
      · simp only [pure, Except.pure] at hstep
        cases hstep
        dsimp only
        split
        · exact hclear _ hs
        · exact hs

/-- The descriptors are as they should be in every state that is reached. -/
lemma Reaches.descsOk [DecidableEq H] {table : Fin 32 → XtHandler} (h : Reaches c table s) :
    DescsOk s.vectorDescs := by
  induction h with
  | init => exact ⟨List.nodup_nil, fun vd hvd => absurd hvd List.not_mem_nil⟩
  | markShared intno isIntRam memory _ ih => exact ih.markShared intno isIntRam memory
  | step event _ hstep ih =>
    cases event with
    | reserve intno memory =>
      have hs := congrArg Prod.snd (Except.ok.inj hstep)
      dsimp only at hs
      exact hs ▸ ih.reserve intno memory
    | alloc a m => exact ih.alloc hstep
    | enable ret =>
      simp only [IntrState.step] at hstep
      split at hstep
      · next handle _ =>
        cases hrun : IntrState.enable c _ handle with
        | error e =>
          rw [hrun] at hstep
          cases hstep
        | ok r =>
          rw [hrun] at hstep
          cases hstep
          have hs : DescsOk r.2.vectorDescs := DescsOk.enable ih (hrun.trans rfl)
          exact hs
      · cases hstep
    | disable ret =>
      simp only [IntrState.step] at hstep
      split at hstep
      · next handle _ =>
        cases hrun : IntrState.disable c _ handle with
        | error e =>
          rw [hrun] at hstep
          cases hstep
        | ok r =>
          rw [hrun] at hstep
          cases hstep
          have hs : DescsOk r.2.vectorDescs := DescsOk.disable ih (hrun.trans rfl)
          exact hs
      · cases hstep
    | free ret =>
      simp only [IntrState.step] at hstep
      split at hstep
      · exact ih.free hstep
      · cases hstep

/-- An allocation is right for every outcome of `malloc` exactly if the choice is. -/
lemma allocRight_iff_chosen [DecidableEq H] [Inhabited A] [Inhabited H]
    (h : DescsOk s.vectorDescs) (hvalid : a.valid = true) :
    (∀ m : AllocMemory A H, AllocRight c s a m) ↔
      ∃ r, getAvailableInt c s a.levelFlags a.source = .ok r ∧ Chosen c s a r := by
  constructor
  · intro hright
    obtain ⟨err, s', heq, hnot, hlow⟩ := hright ⟨some default, true, some default⟩
    rcases alloc_cases c s a ⟨some default, true, some default⟩ with
      ⟨hinvalid, -⟩ | ⟨-, hret, -⟩ | ⟨-, ret, hret, hget⟩
    · rw [hvalid] at hinvalid
      cases hinvalid
    · cases hret
    · rcases hget with ⟨e, -, herr⟩ | ⟨hget, hnone⟩ | ⟨intr, hget⟩
      · rw [heq] at herr
        cases herr
      · rw [heq] at hnone
        cases hnone
        exact ⟨none, hget, fun _ => hnot rfl, fun x hx => nomatch hx⟩
      · obtain ⟨err', s'', heq', -, -, hmemory, hhandle⟩ := h.allocFound hvalid hret hget
        rw [heq] at heq'
        cases heq'
        have herr := hmemory rfl (Option.some_ne_none _)
        obtain ⟨handle, hlive, hintr⟩ := hhandle herr
        refine ⟨some intr, hget, (fun hx => nomatch hx), fun x hx hshared => ?_⟩
        cases hx
        exact hintr ▸ hlow herr hshared ret handle hret hlive
  · rintro ⟨r, hget, hnone, hsome⟩ m
    rcases alloc_cases c s a m with ⟨hinvalid, -⟩ | ⟨-, -, heq⟩ | ⟨-, ret, hret, hcases⟩
    · rw [hvalid] at hinvalid
      cases hinvalid
    · exact ⟨_, _, heq, (fun herr => nomatch herr), (fun herr => nomatch herr)⟩
    · rcases hcases with ⟨e, herr, -⟩ | ⟨hget', heq⟩ | ⟨intr, hget'⟩
      · rw [hget] at herr
        cases herr
      · rw [hget] at hget'
        cases hget'
        exact ⟨_, _, heq, fun _ => hnone rfl, (fun herr => nomatch herr)⟩
      · rw [hget] at hget'
        cases hget'
        obtain ⟨err, s', heq, -, hnot, -, hhandle⟩ := h.allocFound hvalid hret hget
        refine ⟨err, s', heq, fun herr => absurd herr hnot,
          fun herr hshared ret' handle hret' hlive => ?_⟩
        obtain ⟨handle', hlive', hintr⟩ := hhandle herr
        rw [hret] at hret'
        cases hret'
        rw [hlive'] at hlive
        cases hlive
        exact hintr ▸ hsome intr rfl hshared

/-- The first CPU, with the default timer. -/
def proCpu : Config := ⟨0, 0, fun _ => false⟩

/-- Interrupt 2 was reserved, and nothing else. -/
def reservedTwo : IntrState ℕ ℕ := ((IntrState.init fun _ => .unhandled).reserve proCpu 2 true).2

/-- A request for the source whose number is 0. -/
def firstSource : AllocArgs := ⟨.mux 0, 0, 0, 0, 1, 0⟩

end Calls

end EspIdf.IntrAlloc
