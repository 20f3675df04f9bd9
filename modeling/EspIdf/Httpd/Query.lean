/-
# Looking up a parameter of a query

A query is a list of parameters with `&` between them, each a name and possibly `=` and a value.
`httpd_query_key_value` takes everything up to the next `=` for the name: a parameter without
a value becomes part of the name of the next one.
-/
import EspIdf.Lib.CStr

namespace EspIdf.Httpd

open Lib

/-- The results of `httpd_query_key_value`. -/
inductive QueryResult where
  | ok
  | invalidArg
  | resultTrunc
  | notFound
deriving DecidableEq

def eqSign : Byte := 0x3d
def ampersand : Byte := 0x26

/-- The loop of `httpd_query_key_value`, with the buffer of the caller. -/
def queryLoop (key val : List Byte) (qryPtr : List Byte) : QueryResult × List Byte :=
  if qryPtr.length = 0 then (.notFound, val)
  else
    match hval : strchr eqSign qryPtr with
    | none => (.notFound, val)
    | some valPtr =>
      let offset := qryPtr.length - valPtr.length
      if offset ≠ key.length ∨ strncasecmpEq qryPtr key offset = false then
        match _ : strchr ampersand valPtr with
        | none => (.notFound, val)
        | some next => queryLoop key val next.tail
      else
        let valPtr := valPtr.tail
        let rest := (strchr ampersand valPtr).getD []
        let valSize := valPtr.length - rest.length + 1
        let val' := strlcpy val valPtr (min valSize val.length)
        if val.length < valSize then (.resultTrunc, val') else (.ok, val')
termination_by qryPtr.length
decreasing_by
  have h1 := strchr_length hval
  have h2 := strchr_length ‹strchr ampersand _ = some _›
  have h3 := List.length_pos_iff.2 h2.2
  rw [List.length_tail]
  omega

/-- `httpd_query_key_value`: `none` is `NULL`. -/
def httpdQueryKeyValue (qryStr key val : Option (List Byte)) : QueryResult × Option (List Byte) :=
  match qryStr, key, val with
  | some qryStr, some key, some val =>
    let r := queryLoop key val qryStr
    (r.1, some r.2)
  | _, _, _ => (.invalidArg, val)

/-! ### Parameters -/

/-- A parameter. -/
structure Param where
  name : List Byte
  value : Option (List Byte)
  name_eq : eqSign ∉ name
  name_amp : ampersand ∉ name
  value_amp : ∀ v, value = some v → ampersand ∉ v

/-- A parameter as it stands in a query. -/
def Param.text (p : Param) : List Byte :=
  match p.value with
  | none => p.name
  | some v => p.name ++ eqSign :: v

/-- A query of these parameters. -/
def queryText (ps : List Param) : List Byte := [ampersand].intercalate (ps.map Param.text)

/-- The parameter that stands between two `&`. -/
def Param.ofText (s : List Byte) (h : ampersand ∉ s) : Param where
  name := s.takeWhile (· ≠ eqSign)
  value := if eqSign ∈ s then some (s.dropWhile (· ≠ eqSign)).tail else none
  name_eq hmem := by simpa using List.mem_takeWhile_imp hmem
  name_amp hmem := h ((List.takeWhile_sublist _).subset hmem)
  value_amp v hv hmem := by
    split at hv
    · cases hv
      exact h ((List.dropWhile_sublist _).subset (List.mem_of_mem_tail hmem))
    · cases hv

lemma Param.text_ofText (s : List Byte) (h : ampersand ∉ s) : (Param.ofText s h).text = s := by
  unfold Param.text Param.ofText
  by_cases hmem : eqSign ∈ s
  · simp only [if_pos hmem]
    obtain ⟨a, t, rfl, ha⟩ := List.eq_append_cons_of_mem hmem
    have hall : ∀ b ∈ a, decide (b ≠ eqSign) = true := by
      intro b hb
      simpa using fun h : b = eqSign => ha (h ▸ hb)
    rw [List.takeWhile_append_of_pos hall, List.dropWhile_append_of_pos hall]
    simp
  · simp only [if_neg hmem]
    rw [List.takeWhile_eq_self_iff]
    intro b hb
    simpa using fun h : b = eqSign => hmem (h ▸ hb)

lemma ampersand_notMem_of_mem_splitOn (qry : List Byte) :
    ∀ s ∈ qry.splitOn ampersand, ampersand ∉ s := by
  induction qry with
  | nil => simp
  | cons b qry ih =>
    rw [List.splitOn_cons_eq_if_modifyHead]
    split
    · simpa using ih
    · next hb =>
      cases hs : qry.splitOn ampersand with
      | nil => simp
      | cons s ss =>
        rw [hs] at ih
        intro t ht
        simp only [List.modifyHead_cons, List.mem_cons] at ht
        rcases ht with rfl | ht
        · have := ih s (by simp)
          simp only [List.mem_cons, not_or]
          exact ⟨fun h => hb (by simp [← h]), this⟩
        · exact ih t (by simp [ht])

/-- The parameters of a query. -/
def params (qry : List Byte) : List Param :=
  (qry.splitOn ampersand).attach.map fun s =>
    Param.ofText s.1 (ampersand_notMem_of_mem_splitOn qry s.1 s.2)

/-- Every string is a query. -/
lemma queryText_params (qry : List Byte) : queryText (params qry) = qry := by
  have hmap : (params qry).map Param.text = qry.splitOn ampersand := by
    simp only [params, List.map_map, Function.comp_def, Param.text_ofText]
    exact List.attach_map_subtype_val _
  rw [queryText, hmap, List.intercalate_splitOn]

/-! ### What the query says, and what the loop finds -/

/-- A name and a value. -/
abbrev Pair : Type := List Byte × List Byte

/-- The value of the first pair with the name `key`. -/
def lookup (key : List Byte) (l : List Pair) : Option (List Byte) :=
  (l.find? fun p => fold p.1 = fold key).map Prod.snd

/-- The parameters with a value. -/
def pairs (ps : List Param) : List Pair := ps.filterMap fun p => p.value.map (p.name, ·)

/-- The parameters with a value that do not stand directly behind one without. -/
def openPairs : Bool → List Param → List Pair
  | _, [] => []
  | behind, p :: ps =>
    match p.value with
    | none => openPairs true ps
    | some v => if behind then openPairs false ps else (p.name, v) :: openPairs false ps

/-- The parameters with a value, with the parameters without one in front of their names. -/
def joined : List Byte → List Param → List Pair
  | _, [] => []
  | pre, p :: ps =>
    match p.value with
    | none => joined (pre ++ p.name ++ [ampersand]) ps
    | some v => (pre ++ p.name, v) :: joined [] ps

/-- What a lookup is to return and leave in the buffer of the caller. -/
def answer (found : Option (List Byte)) (val : List Byte) : QueryResult × List Byte :=
  match found with
  | none => (.notFound, val)
  | some v =>
    if v.length + 1 ≤ val.length then (.ok, v ++ 0 :: val.drop (v.length + 1))
    -- nothing fits into an empty buffer, not even the `NUL`
    else (.resultTrunc, (v.take (val.length - 1) ++ [0]).take val.length)

variable {key val : List Byte}

lemma answer_some (v more : List Byte) :
    answer (some v) val =
      (if val.length < v.length + 1 then .resultTrunc else .ok,
        strlcpy val (v ++ more) (min (v.length + 1) val.length)) := by
  unfold answer strlcpy
  by_cases hfit : v.length + 1 ≤ val.length
  · simp [hfit, Nat.not_lt.2 hfit]
  · have hmin : min (v.length + 1) val.length = val.length := by omega
    have hlt : val.length < v.length + 1 := by omega
    simp only [hmin, if_neg hfit, if_pos hlt]
    by_cases h0 : val.length = 0
    · have : val = [] := List.length_eq_zero_iff.1 h0
      simp [this]
    · have htake : (v ++ more).take (val.length - 1) = v.take (val.length - 1) :=
        List.take_append_of_le_length (by omega)
      have hlen : (v.take (val.length - 1)).length = val.length - 1 := by
        rw [List.length_take]
        omega
      rw [if_neg h0, htake, hlen, show val.length - 1 + 1 = val.length by omega, List.drop_length,
        List.take_of_length_le (by simp; omega)]

/-- The comparison in the loop. -/
lemma compare_iff {n : List Byte} (t : List Byte) :
    (n.length ≠ key.length ∨ strncasecmpEq (n ++ t) key n.length = false) ↔
      fold n ≠ fold key := by
  by_cases hlen : n.length = key.length
  · rw [← Bool.not_eq_true, strncasecmpEq_append t hlen]
    simp [hlen]
  · refine iff_of_true (.inl hlen) fun h => hlen ?_
    simpa using congrArg List.length h

/-- One pass of the loop, at a name with the value `v`; `more` is what follows the next `&`. -/
lemma queryLoop_pair (key val : List Byte) {n v : List Byte} (hn : eqSign ∉ n)
    (hv : ampersand ∉ v) (more : Option (List Byte)) :
    queryLoop key val (n ++ eqSign :: (v ++ more.elim [] (ampersand :: ·))) =
      if fold n = fold key then answer (some v) val
      else more.elim (.notFound, val) (queryLoop key val) := by
  have hvalPtr := strchr_append (t := v ++ more.elim [] (ampersand :: ·)) hn
  have hrest : strchr ampersand (v ++ more.elim [] (ampersand :: ·)) =
      more.map (ampersand :: ·) := by
    cases more with
    | none => simpa using strchr_eq_none hv
    | some r => exact strchr_append hv
  have hskip : strchr ampersand (eqSign :: (v ++ more.elim [] (ampersand :: ·))) =
      more.map (ampersand :: ·) := by
    rw [strchr, if_neg (by decide), hrest]
  rw [queryLoop, if_neg (by simp)]
  split
  · next h => rw [hvalPtr] at h; cases h
  · next valPtr h =>
    rw [hvalPtr] at h
    cases h
    have hoff : (n ++ eqSign :: (v ++ more.elim [] (ampersand :: ·))).length -
        (eqSign :: (v ++ more.elim [] (ampersand :: ·))).length = n.length := by
      rw [List.length_append]
      omega
    simp only [hoff, compare_iff]
    by_cases hkey : fold n = fold key
    · rw [if_neg (not_not.2 hkey), if_pos hkey, answer_some v (more.elim [] (ampersand :: ·))]
      have hsize : (v ++ more.elim [] (ampersand :: ·)).length -
          ((more.map (ampersand :: ·)).getD []).length + 1 = v.length + 1 := by
        cases more <;> simp
      rw [List.tail_cons, hrest, hsize]
      split <;> rfl
    · rw [if_pos hkey, if_neg hkey]
      split
      · next h =>
        rw [hskip] at h
        cases more with
        | none => rfl
        | some r => cases h
      · next next h =>
        rw [hskip] at h
        cases more with
        | none => cases h
        | some r => cases h; rfl

lemma queryLoop_bare {s : List Byte} (hs : eqSign ∉ s) :
    queryLoop key val s = (.notFound, val) := by
  rw [queryLoop]
  split
  · rfl
  · split
    · rfl
    · next h => rw [strchr_eq_none hs] at h; cases h

lemma queryText_cons (p : Param) (ps : List Param) :
    queryText (p :: ps) =
      p.text ++ (if ps = [] then none else some (queryText ps)).elim [] (ampersand :: ·) := by
  cases ps with
  | nil => simp [queryText]
  | cons q ps => simp [queryText, List.intercalate_cons_cons]

/-- The loop finds the first pair with the name in which the names of the parameters without a value
are taken for the beginning of the next name. -/
lemma queryLoop_queryText (key val : List Byte) (ps : List Param) :
    ∀ pre : List Byte, eqSign ∉ pre →
      queryLoop key val (pre ++ queryText ps) = answer (lookup key (joined pre ps)) val := by
  induction ps with
  | nil =>
    intro pre hpre
    simpa [queryText, joined, lookup, answer] using queryLoop_bare hpre
  | cons p ps ih =>
    intro pre hpre
    rw [queryText_cons]
    cases hval : p.value with
    | none =>
      have hname := p.name_eq
      have hpre' : eqSign ∉ pre ++ p.name ++ [ampersand] := by
        simp only [List.mem_append, List.mem_singleton, not_or]
        exact ⟨⟨hpre, hname⟩, by decide⟩
      simp only [Param.text, joined, hval]
      cases ps with
      | nil =>
        have : eqSign ∉ pre ++ p.name := by simp [hpre, hname]
        simpa [joined, lookup, answer] using queryLoop_bare this
      | cons q ps => simpa using ih _ hpre'
    | some v =>
      have hname : eqSign ∉ pre ++ p.name := by simp [hpre, p.name_eq]
      have hrun := queryLoop_pair key val hname (p.value_amp v hval)
        (if ps = [] then none else some (queryText ps))
      simp only [Param.text, joined, hval]
      simp only [List.append_assoc, List.cons_append] at hrun ⊢
      rw [hrun]
      by_cases hkey : fold (pre ++ p.name) = fold key
      · simp [lookup, hkey]
      · have hlook : lookup key ((pre ++ p.name, v) :: joined [] ps) =
            lookup key (joined [] ps) := by
          simp [lookup, hkey]
        rw [if_neg hkey, hlook]
        cases ps with
        | nil => simp [joined, lookup, answer]
        | cons q ps => simpa using ih [] (by simp)

/-! ### When nothing is hidden -/

lemma ampersand_mem_fold {s : List Byte} : ampersand ∈ fold s ↔ ampersand ∈ s :=
  mem_fold (by decide)

/-- A key with `&` in it is the name of no parameter. -/
lemma lookup_pairs_of_mem (hkey : ampersand ∈ key) (ps : List Param) :
    lookup key (pairs ps) = none := by
  rw [lookup, Option.map_eq_none_iff, List.find?_eq_none]
  intro pair hpair
  obtain ⟨p, -, hp⟩ := List.mem_filterMap.1 hpair
  obtain ⟨v, -, rfl⟩ := Option.map_eq_some_iff.1 hp
  simp only [decide_eq_true_eq]
  intro h
  exact p.name_amp (ampersand_mem_fold.1 (h ▸ ampersand_mem_fold.2 hkey))

/-- A key without `&` in it is never found behind a parameter without a value. -/
lemma lookup_joined_of_notMem (hkey : ampersand ∉ key) (ps : List Param) :
    lookup key (joined [] ps) = lookup key (openPairs false ps) ∧
      ∀ pre, ampersand ∈ pre → lookup key (joined pre ps) = lookup key (openPairs true ps) := by
  induction ps with
  | nil => exact ⟨rfl, fun _ _ => rfl⟩
  | cons p ps ih =>
    cases hval : p.value with
    | none => 
      simp only [joined, openPairs, hval]
      exact ⟨ih.2 _ (by simp), fun pre _ => ih.2 _ (by simp)⟩
    | some v =>
      simp only [joined, openPairs, hval, Bool.false_eq_true, if_false, if_true, List.nil_append]
      refine ⟨?_, fun pre hpre => ?_⟩
      · by_cases hname : fold p.name = fold key
        · simp [lookup, hname]
        · have := ih.1
          simp only [lookup, List.find?_cons, hname, decide_false] at this ⊢
          exact this
      · have hname : fold (pre ++ p.name) ≠ fold key := fun h =>
          hkey (ampersand_mem_fold.1 (h ▸ ampersand_mem_fold.2 (by simp [hpre])))
        have := ih.1
        simp only [lookup, List.find?_cons, hname, decide_false] at this ⊢
        exact this

/-- Different values give different answers. -/
lemma answer_injective {a b : Option (List Byte)} (h : ∀ val, answer a val = answer b val) :
    a = b := by
  -- at a buffer that the longer one of two values fills, the bytes behind the shorter one show
  have hle : ∀ v w : List Byte, w.length ≤ v.length →
      answer (some v) (List.replicate (v.length + 1) 1) =
        answer (some w) (List.replicate (v.length + 1) 1) → v = w := by
    intro v w hlen heq
    simp only [answer, List.length_replicate, le_refl, if_true, Nat.add_le_add_iff_right, hlen,
      Prod.mk.injEq, true_and, List.drop_replicate] at heq
    rcases hlen.eq_or_lt with hlen | hlen
    · exact (List.append_inj heq hlen.symm).1
    · have hlast := congrArg List.getLast? heq
      rw [show v.length + 1 - (w.length + 1) = (v.length - w.length - 1) + 1 by omega,
        List.replicate_succ'] at hlast
      simp only [Nat.sub_self, List.replicate_zero, List.getLast?_append,
        List.getLast?_cons] at hlast
      simp at hlast
  have hne : ∀ v : List Byte, ¬ ∀ val, answer (some v) val = answer none val := by
    intro v hv
    have := congrArg Prod.fst (hv (List.replicate (v.length + 1) 1))
    simp [answer] at this
  cases a with
  | none =>
    cases b with
    | none => rfl
    | some w => exact absurd (fun val => (h val).symm) (hne w)
  | some v =>
    cases b with
    | none => exact absurd h (hne v)
    | some w =>
      rcases Nat.le_total w.length v.length with hlen | hlen
      · rw [hle v w hlen (h _)]
      · rw [hle w v hlen (h _).symm]

/-- A lookup answers as the query says if and only if no parameter without a value makes a
difference: for a key without `&`, the first pair with the name has the same value when the pairs
directly behind such parameters are left out; for a key with `&`, no such parameters together with
the next name are the key. -/
theorem httpdQueryKeyValue_iff (qry key : List Byte) :
    (∀ val, httpdQueryKeyValue (some qry) (some key) (some val) =
      ((answer (lookup key (pairs (params qry))) val).1,
        some (answer (lookup key (pairs (params qry))) val).2)) ↔
    if ampersand ∈ key then ∀ p ∈ joined [] (params qry), fold p.1 ≠ fold key
    else lookup key (pairs (params qry)) = lookup key (openPairs false (params qry)) := by
  have hrun : ∀ val,
      queryLoop key val qry = answer (lookup key (joined [] (params qry))) val := by
    intro val
    have := queryLoop_queryText key val (params qry) [] (by simp)
    rwa [queryText_params] at this
  have hfirst : (∀ val, httpdQueryKeyValue (some qry) (some key) (some val) =
      ((answer (lookup key (pairs (params qry))) val).1,
        some (answer (lookup key (pairs (params qry))) val).2)) ↔
      lookup key (joined [] (params qry)) = lookup key (pairs (params qry)) := by
    simp only [httpdQueryKeyValue, hrun, Prod.mk.injEq, Option.some.injEq, ← Prod.ext_iff]
    exact ⟨answer_injective, fun h val => by rw [h]⟩
  rw [hfirst]
  split
  · next hkey =>
    rw [lookup_pairs_of_mem hkey, lookup, Option.map_eq_none_iff, List.find?_eq_none]
    simp
  · next hkey =>
    rw [(lookup_joined_of_notMem hkey _).1]
    exact eq_comm

/-- `verbose&name=x`. -/
def shadowedQuery : List Byte :=
  [0x76, 0x65, 0x72, 0x62, 0x6f, 0x73, 0x65, 0x26, 0x6e, 0x61, 0x6d, 0x65, 0x3d, 0x78]

/-- `name`. -/
def shadowedKey : List Byte := [0x6e, 0x61, 0x6d, 0x65]

/-- The parameter `verbose` hides the value of `name`. -/
theorem httpdQueryKeyValue_hidden :
    lookup shadowedKey (pairs (params shadowedQuery)) = some [0x78] ∧
      httpdQueryKeyValue (some shadowedQuery) (some shadowedKey) (some [1, 1, 1, 1]) =
        (.notFound, some [1, 1, 1, 1]) := by
  have hrun := queryLoop_queryText shadowedKey [1, 1, 1, 1]
    (params shadowedQuery) [] (by simp)
  rw [List.nil_append, queryText_params] at hrun
  refine ⟨by decide +kernel, ?_⟩
  rw [httpdQueryKeyValue, hrun]
  decide +kernel

end EspIdf.Httpd
