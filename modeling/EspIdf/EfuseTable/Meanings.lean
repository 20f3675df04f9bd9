/-
# What the fields mean in C

The list of pointers of a field stands for its entries when its names can be defined, no other
field takes the name of the list, and no comment hides a row.
-/
import EspIdf.EfuseTable.Definitions

namespace EspIdf.EfuseTable

open Lib
open PartitionTable (Str)

variable {reserved : Str → Bool} {debug : Bool} {opts : Options} {fields : List Field} {f : Field}
  {ps : List Entry} {p : Entry} {ds : List Definition}

/-! ### Pointers -/

/-- Each comment that goes on hides one line. -/
lemma length_pointerCodes (hidden : Bool) (ps : List Entry) :
    (pointerCodes hidden ps).length + hidden.toNat + ps.countP (fun p => IsContinued p.comment) =
      ps.length + 1 := by
  induction ps generalizing hidden with
  | nil => cases hidden <;> rfl
  | cons p ps ih =>
    have ih := ih (IsContinued p.comment)
    have hfirst : (if hidden then [] else [p.pointer ++ [',']]).length + hidden.toNat = 1 := by
      cases hidden <;> rfl
    rw [pointerCodes, List.length_append, List.length_cons, List.countP_cons]
    by_cases hp : IsContinued p.comment
    · simp only [hp, decide_true, Bool.toNat_true, if_true] at ih ⊢
      omega
    · simp only [hp, decide_false, Bool.toNat_false, Bool.false_eq_true, if_false] at ih ⊢
      omega

lemma pointerCodes_eq (h : ∀ p ∈ ps, ¬ IsContinued p.comment) :
    pointerCodes false ps = ps.map (fun p => p.pointer ++ [',']) ++ ["NULL".toList] := by
  induction ps with
  | nil => rfl
  | cons p ps ih =>
    rw [pointerCodes, decide_eq_false (h p List.mem_cons_self),
      ih fun p hp => h p (List.mem_cons_of_mem _ hp)]
    rfl

lemma elems_pointers (h : ∀ p ∈ f.entries, ¬ IsContinued p.comment) :
    f.pointers.elems = f.entries.map Entry.pointer ++ ["NULL".toList] := by
  rw [Field.pointers, pointerCodes_eq h, List.map_append, List.map_map]
  refine congrArg₂ _ (List.map_congr_left fun p _ => element_comma _) (by decide)

lemma isWord_ne_bracket {s : Str} (h : ∀ c ∈ s, isWord c = true) : ∀ c ∈ s, c ≠ '[' := by
  rintro c hc rfl
  exact absurd (h _ hc) (by decide)

lemma pointee_pointer (hname : ∀ c ∈ p.fieldName, isWord c = true) {i : ℕ}
    (hindex : p.index = Nat.toDigits 10 i) :
    pointee ds p.pointer = elemAt ds p.fieldName i := by
  have hdigits : ∀ c ∈ "0123456789abcdef".toList, c ≠ ']' := by decide
  have htake : (p.fieldName ++ '[' :: p.index ++ [']']).takeWhile (· ≠ '[') = p.fieldName := by
    rw [List.append_assoc, List.takeWhile_append_of_pos]
    · simp
    · intro c hc
      simp [isWord_ne_bracket hname c hc]
  have hdrop : ((p.fieldName ++ '[' :: p.index ++ [']']).drop (p.fieldName.length + 1)).takeWhile
      (· ≠ ']') = p.index := by
    rw [List.append_assoc, ← List.drop_drop, List.drop_left, List.cons_append, List.drop_one,
      List.tail_cons, List.takeWhile_append_of_pos]
    · simp
    · intro c hc
      rw [hindex] at hc
      simp [hdigits c (PartitionTable.mem_toDigits (by decide) (by decide) hc)]
  rw [Entry.pointer, List.cons_append, List.cons_append, pointee]
  simp only [htake, hdrop]
  rw [hindex, Nat.ofDigitChars_ten_toDigits]

/-! ### Lists -/

lemma mapM_some {α β : Type} {g : α → Option β} {k : α → β} {l : List α}
    (h : ∀ a ∈ l, g a = some (k a)) : l.mapM g = some (l.map k) := by
  induction l with
  | nil => rfl
  | cons a l ih =>
    rw [List.mapM_cons, h a List.mem_cons_self, ih fun a ha => h a (List.mem_cons_of_mem _ ha)]
    rfl

lemma of_mapM_some {α β : Type} {g : α → Option β} {l : List α} {r : List β}
    (h : l.mapM g = some r) : r.length = l.length ∧ ∀ a ∈ l, ∃ b, g a = some b := by
  induction l generalizing r with
  | nil =>
    cases h
    exact ⟨rfl, fun a ha => nomatch ha⟩
  | cons a l ih =>
    rw [List.mapM_cons] at h
    obtain ⟨b, hb, h⟩ := Option.bind_eq_some_iff.1 h
    obtain ⟨r', hr, h⟩ := Option.bind_eq_some_iff.1 h
    cases h
    obtain ⟨hlen, hall⟩ := ih hr
    refine ⟨congrArg Nat.succ hlen, fun a' ha' => ?_⟩
    rcases List.mem_cons.1 ha' with rfl | ha'
    · exact ⟨b, hb⟩
    · exact hall a' ha'

/-- One field has the name. -/
lemma filter_definitions {P : Field → Prop} [DecidablePred P] {g : Field → Definition}
    {k : Str → Str} (hg : ∀ f, (g f).name = k f.name) (hk : ∀ {a b}, k a = k b → a = b)
    (hnodup : (fields.map Field.name).Nodup) (hf : f ∈ fields) :
    ((fields.filter P).map g).filter (fun d => d.name = k f.name) =
      if P f then [g f] else [] := by
  induction fields with
  | nil => cases hf
  | cons e fields ih =>
    rw [List.map_cons, List.nodup_cons] at hnodup
    by_cases he : e = f
    · subst he
      have hrest : ((fields.filter P).map g).filter (fun d => d.name = k e.name) = [] := by
        refine List.filter_eq_nil_iff.2 fun d hd => ?_
        obtain ⟨e', he', rfl⟩ := List.mem_map.1 hd
        rw [hg, decide_eq_true_eq]
        intro heq
        exact hnodup.1 (hk heq ▸ List.mem_map_of_mem (List.mem_filter.1 he').1)
      by_cases hP : P e
      · rw [List.filter_cons_of_pos (by simpa using hP), List.map_cons,
          List.filter_cons_of_pos (by simp [hg]), hrest, if_pos hP]
      · rw [List.filter_cons_of_neg (by simpa using hP), hrest, if_neg hP]
    · have hf : f ∈ fields := (List.mem_cons.1 hf).resolve_left (Ne.symm he)
      rw [← ih hnodup.2 hf]
      have hne : (g e).name ≠ k f.name := by
        rw [hg]
        exact fun heq => hnodup.1 (hk heq ▸ List.mem_map_of_mem hf)
      by_cases hP : P e
      · rw [List.filter_cons_of_pos (by simpa using hP), List.map_cons,
          List.filter_cons_of_neg (by simpa using hne)]
      · rw [List.filter_cons_of_neg (by simpa using hP)]

lemma espEfuse_inj {a b : Str} (h : espEfuse a = espEfuse b) : a = b := List.append_cancel_left h

/-! ### Meanings -/

/-- What is asked of the fields. -/
structure Defined (reserved : Str → Bool) (fields : List Field) : Prop where
  free : ∀ f ∈ fields, IsFree reserved f.name ∧ IsFree reserved (espEfuse f.name)
  apart : ∀ f ∈ fields, espEfuse f.name ∉ fields.map Field.name
  comment : ∀ f ∈ fields, ∀ p ∈ f.entries, ¬ IsContinued p.comment

section

variable (hds : ds = (fields.filter fun f => IsFree reserved f.name).map (Field.array debug) ++
    (fields.filter fun f => IsFree reserved (espEfuse f.name)).map Field.pointers)
  (hnumbered : ∀ f ∈ fields, f.Numbered) (hnodup : (fields.map Field.name).Nodup)
  (hplain : ∀ f ∈ fields, f.Plain opts) 

include hds hnumbered hnodup hplain

/-- The entry that a pointer stands for. -/
lemma pointee_of_defined (h : Defined reserved fields) (hf : f ∈ fields) (hp : p ∈ f.entries) :
    pointee ds p.pointer = some (p.initialiser debug) := by
  obtain ⟨i, hi⟩ := List.mem_iff_getElem?.1 hp
  have hname : p.fieldName = f.name := (hnumbered f hf).fieldName p hp
  have hfilter : (ds.filter fun d => d.name = p.fieldName) = [f.array debug] := by
    have harray := filter_definitions (P := fun f => IsFree reserved f.name)
      (g := Field.array debug) (k := fun n => n) (fun f => rfl) (fun h => h) hnodup hf
    rw [if_pos (h.free f hf).1] at harray
    rw [hds, hname, List.filter_append, harray, List.filter_eq_nil_iff.2, List.append_nil]
    intro d hd
    obtain ⟨g, hg, rfl⟩ := List.mem_map.1 hd
    rw [decide_eq_true_eq]
    intro heq
    have heq : espEfuse g.name = f.name := heq
    exact h.apart g (List.mem_filter.1 hg).1 (heq ▸ List.mem_map_of_mem hf)
  rw [pointee_pointer (by rw [hname]; exact (hplain f hf).name) ((hnumbered f hf).index i p hi),
    elemAt, hfilter]
  simp [Field.array, hi]

lemma values_of_defined (h : Defined reserved fields) (hf : f ∈ fields) :
    f.pointers.values ds = some (f.entries.map (Entry.initialiser debug)) := by
  rw [Definition.values, elems_pointers (h.comment f hf), if_pos ⟨rfl, by simp⟩,
    List.dropLast_concat]
  have hpointee : ∀ p ∈ f.entries, pointee ds p.pointer = some (p.initialiser debug) :=
    fun p hp => pointee_of_defined hds hnumbered hnodup hplain h hf hp
  have hmap : (f.entries.map Entry.pointer).mapM (pointee ds) =
      f.entries.mapM (fun p => pointee ds p.pointer) := by
    rw [List.mapM_map]
    rfl
  rw [hmap, mapM_some hpointee]

omit hnumbered hplain in
lemma meanings_eq (hf : f ∈ fields) : ∃ arrays : List Definition,
    (∀ d ∈ arrays, d.kind = .array) ∧
      arrays = ((fields.filter fun f => IsFree reserved f.name).map (Field.array debug)).filter
        (fun d => d.name = espEfuse f.name) ∧
      meanings ds (espEfuse f.name) = arrays.map (fun _ => none) ++
        if IsFree reserved (espEfuse f.name) then [f.pointers.values ds] else [] := by
  refine ⟨_, fun d hd => ?_, rfl, ?_⟩
  · obtain ⟨g, -, rfl⟩ := List.mem_map.1 (List.mem_filter.1 hd).1
    rfl
  · rw [meanings]
    conv_lhs => rw [hds]
    rw [List.filter_append, List.map_append]
    rw [filter_definitions (g := Field.pointers) (k := espEfuse) (fun f => rfl) espEfuse_inj
      hnodup hf]
    congr 1
    · refine List.map_congr_left fun d hd => ?_
      obtain ⟨g, -, rfl⟩ := List.mem_map.1 (List.mem_filter.1 hd).1
      rfl
    · split_ifs
      · rw [← hds]
        rfl
      · rfl

/-- The lists of pointers stand for the entries exactly when this is asked of the fields. -/
theorem meanings_iff : (∀ f ∈ fields, meanings ds (espEfuse f.name) =
      [some (f.entries.map (Entry.initialiser debug))]) ↔ Defined reserved fields := by
  constructor
  · intro h
    have hlist : ∀ f ∈ fields, IsFree reserved (espEfuse f.name) ∧
        (∀ g ∈ fields, IsFree reserved g.name → g.name ≠ espEfuse f.name) ∧
        f.pointers.values ds = some (f.entries.map (Entry.initialiser debug)) := by
      intro f hf
      obtain ⟨arrays, -, harrays, hmeanings⟩ := meanings_eq hds hnodup hf
      rw [h f hf] at hmeanings
      by_cases hfree : IsFree reserved (espEfuse f.name)
      · rw [if_pos hfree] at hmeanings
        cases arrays with
        | nil =>
          refine ⟨hfree, fun g hg hgfree heq => ?_, (List.cons.inj hmeanings).1.symm⟩
          have hmem := List.filter_eq_nil_iff.1 harrays.symm (g.array debug)
            (List.mem_map_of_mem (List.mem_filter.2 ⟨hg, by simpa using hgfree⟩))
          exact hmem (decide_eq_true heq)
        | cons a arrays =>
          rw [List.map_cons, List.cons_append] at hmeanings
          cases (List.cons.inj hmeanings).1
      · rw [if_neg hfree] at hmeanings
        cases arrays with
        | nil => cases hmeanings
        | cons a arrays =>
          rw [List.map_cons, List.cons_append] at hmeanings
          cases (List.cons.inj hmeanings).1
    have hcomment : ∀ f ∈ fields, ∀ p ∈ f.entries, ¬ IsContinued p.comment := by
      intro f hf p hp hcont
      have hvalues := (hlist f hf).2.2
      rw [Definition.values] at hvalues
      split_ifs at hvalues with hnull
      have hlen := (of_mapM_some hvalues).1
      have hcodes := length_pointerCodes false f.entries
      have hcount : 0 < f.entries.countP (fun p => IsContinued p.comment) :=
        List.countP_pos_iff.2 ⟨p, hp, decide_eq_true hcont⟩
      have hpos : f.pointers.elems ≠ [] := by
        intro hnil
        rw [hnil] at hnull
        cases hnull.2
      have := List.length_pos_iff.2 hpos
      rw [Field.pointers, List.length_map] at this
      rw [List.length_map, List.length_dropLast, Field.pointers, List.length_map] at hlen
      simp only [Bool.toNat_false] at hcodes
      omega
    have hfree : ∀ f ∈ fields, IsFree reserved f.name := by
      intro f hf
      obtain ⟨p, ps, hps⟩ := List.exists_cons_of_ne_nil (hnumbered f hf).ne_nil
      have hp : p ∈ f.entries := hps ▸ List.mem_cons_self
      have hname : p.fieldName = f.name := (hnumbered f hf).fieldName p hp
      have hvalues := (hlist f hf).2.2
      rw [Definition.values, elems_pointers (hcomment f hf), if_pos ⟨rfl, by simp⟩,
        List.dropLast_concat] at hvalues
      obtain ⟨b, hb⟩ := (of_mapM_some hvalues).2 _ (List.mem_map_of_mem hp)
      obtain ⟨i, hi⟩ := List.mem_iff_getElem?.1 hp
      rw [pointee_pointer (by rw [hname]; exact (hplain f hf).name)
        ((hnumbered f hf).index i p hi), elemAt] at hb
      split at hb
      · next name elems heq =>
        have hmem : (⟨.array, name, elems⟩ : Definition) ∈
            ds.filter fun d => d.name = p.fieldName := heq ▸ List.mem_cons_self
        obtain ⟨hmem, hdname⟩ := List.mem_filter.1 hmem
        rw [hds] at hmem
        rcases List.mem_append.1 hmem with hmem | hmem
        · obtain ⟨g, hg, hgd⟩ := List.mem_map.1 hmem
          have hgname : g.name = f.name := by
            rw [← hname, ← of_decide_eq_true hdname, ← hgd]
            rfl
          exact hgname ▸ of_decide_eq_true (List.mem_filter.1 hg).2
        · obtain ⟨g, -, hgd⟩ := List.mem_map.1 hmem
          cases congrArg Definition.kind hgd
      · cases hb
    refine ⟨fun f hf => ⟨hfree f hf, (hlist f hf).1⟩, fun f hf hmem => ?_, hcomment⟩
    obtain ⟨g, hg, heq⟩ := List.mem_map.1 hmem
    exact (hlist f hf).2.1 g hg (hfree g hg) heq
  · intro h f hf
    obtain ⟨arrays, -, harrays, hmeanings⟩ := meanings_eq hds hnodup hf
    have hnil : arrays = [] := by
      rw [harrays, List.filter_eq_nil_iff]
      intro d hd hname
      obtain ⟨g, hg, rfl⟩ := List.mem_map.1 hd
      have hname : g.name = espEfuse f.name := of_decide_eq_true hname
      exact h.apart f hf (hname ▸ List.mem_map_of_mem (List.mem_filter.1 hg).1)
    rw [hmeanings, hnil, if_pos (h.free f hf).2,
      values_of_defined hds hnumbered hnodup hplain h hf]
    rfl

end

end EspIdf.EfuseTable
