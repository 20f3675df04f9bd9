/-
# Searching a label in a list of labels

The bootloader erases the partitions whose labels stand in a list, separated by commas and spaces.
It searches for the label as a part of the list, and goes on behind the next separator if what it
has found is not a whole token.
-/
import Mathlib

namespace EspIdf.Bootloader

def isDelim (c : Char) : Bool := c == ',' || c == ' '

/-- `strstr`: where the needle occurs first. -/
def strstr (hay needle : List Char) : Option ℕ :=
  (List.range (hay.length + 1)).find? fun i => needle.isPrefixOf (hay.drop i)

/-- `strcspn` with the separators: the number of characters before the first one. -/
def strcspn (s : List Char) : ℕ := s.findIdx isDelim

/-- The loop of `bootloader_common_label_search`, from the index at which the label has been
found. -/
def labelLoop (list label : List Char) : ℕ → Option ℕ → Option Bool
  | 0, _ => none
  | _ + 1, none => some false
  | fuel + 1, some idxFirst =>
    let sub := list.drop idxFirst
    if (idxFirst = 0 ∨ (idxFirst ≠ 0 ∧ (list[idxFirst - 1]? = some ',' ∨
          list[idxFirst - 1]? = some ' '))) ∧
        (sub[label.length]? = none ∨ sub[label.length]? = some ',' ∨
          sub[label.length]? = some ' ') then
      some true
    else
      let posDelim := strcspn sub
      if posDelim = sub.length then some false
      else
        labelLoop list label fuel
          ((strstr (sub.drop posDelim) label).map fun i => idxFirst + posDelim + i)

/-- `bootloader_common_label_search`, with at most `fuel` rounds. -/
def labelSearch (fuel : ℕ) (list label : Option (List Char)) : Option Bool :=
  match list, label with
  | some list, some label => labelLoop list label fuel (strstr list label)
  | _, _ => some false

/-! ### Tokens -/

variable {list label : List Char} {q : ℕ}

/-- The label stands at the index, and separators or the ends of the list are around it. -/
structure TokenAt (list label : List Char) (q : ℕ) : Prop where
  found : label <+: list.drop q
  before : q = 0 ∨ ∃ d, list[q - 1]? = some d ∧ isDelim d = true
  after : ∀ d, list[q + label.length]? = some d → isDelim d = true

/-- A list has no separator, or a first one. -/
lemma delim_induction {motive : List Char → Prop}
    (hnone : ∀ l, (∀ c ∈ l, isDelim c = false) → motive l)
    (hcons : ∀ a d b, (∀ c ∈ a, isDelim c = false) → isDelim d = true → motive b →
      motive (a ++ d :: b)) (l : List Char) : motive l := by
  induction hlen : l.length using Nat.strongRecOn generalizing l with
  | ind n ih =>
    by_cases hdelim : ∃ c ∈ l, isDelim c = true
    · obtain ⟨c, hc, hd⟩ := hdelim
      obtain ⟨d, a, b, ha, hd, rfl, -⟩ := List.exists_of_eraseP hc hd
      refine hcons a d b (fun c hc => Bool.eq_false_iff.mpr (ha c hc)) hd (ih b.length ?_ b rfl)
      rw [← hlen, List.length_append, List.length_cons]
      omega
    · refine hnone l fun c hc => Bool.eq_false_iff.mpr fun hd => hdelim ⟨c, hc, hd⟩

/-- The tokens of a list are what stands between separators. -/
lemma mem_splitOnP_iff (hlabel : ∀ c ∈ label, isDelim c = false) :
    label ∈ list.splitOnP isDelim ↔ ∃ pre post, list = pre ++ label ++ post ∧
      (∀ d, pre.getLast? = some d → isDelim d = true) ∧
      ∀ d, post.head? = some d → isDelim d = true := by
  constructor
  · induction list using delim_induction with
    | hnone l hl =>
      rw [List.splitOnP_eq_singleton hl, List.mem_singleton]
      rintro rfl
      exact ⟨[], [], by simp, by simp, by simp⟩
    | hcons a d b ha hd ih =>
      rw [List.splitOnP_append_cons_of_forall_mem ha d hd, List.mem_cons]
      rintro (rfl | hmem)
      · exact ⟨[], d :: b, by simp, by simp, by simpa using hd⟩
      · obtain ⟨pre, post, rfl, hpre, hpost⟩ := ih hmem
        refine ⟨a ++ d :: pre, post, by simp, fun d' hd' => ?_, hpost⟩
        rw [List.getLast?_append, List.getLast?_cons] at hd'
        cases hlast : pre.getLast? with
        | none =>
          obtain rfl : d = d' := by simpa [hlast] using hd'
          exact hd
        | some e =>
          obtain rfl : e = d' := by simpa [hlast] using hd'
          exact hpre e hlast
  · rintro ⟨pre, post, rfl, hpre, hpost⟩
    have htoken : label ∈ (label ++ post).splitOnP isDelim := by
      cases post with
      | nil =>
        rw [List.append_nil, List.splitOnP_eq_singleton hlabel]
        exact List.mem_singleton_self _
      | cons d post =>
        rw [List.splitOnP_append_cons_of_forall_mem hlabel d (hpost d rfl)]
        exact List.mem_cons_self
    rcases List.eq_nil_or_concat pre with rfl | ⟨pre, d, rfl⟩
    · exact htoken
    · have hd : isDelim d = true := hpre d (by simp)
      rw [List.concat_eq_append, List.append_assoc, List.append_assoc, List.singleton_append,
        List.splitOnP_append_cons pre _ hd]
      exact List.mem_append_right _ htoken

lemma mem_splitOnP_iff_tokenAt (hne : label ≠ []) (hlabel : ∀ c ∈ label, isDelim c = false) :
    label ∈ list.splitOnP isDelim ↔ ∃ q, TokenAt list label q := by
  rw [mem_splitOnP_iff hlabel]
  constructor
  · rintro ⟨pre, post, rfl, hpre, hpost⟩
    refine ⟨pre.length, ?_, ?_, fun d hd => ?_⟩
    · rw [List.append_assoc, List.drop_left]
      exact List.prefix_append ..
    · rcases List.eq_nil_or_concat pre with rfl | ⟨pre, d, rfl⟩
      · exact .inl rfl
      · refine .inr ⟨d, ?_, hpre d (by simp)⟩
        simp
    · rw [List.getElem?_append_right (Nat.le_of_eq List.length_append), List.length_append,
        Nat.sub_self, ← List.head?_eq_getElem?] at hd
      exact hpost d hd
  · rintro ⟨q, ⟨post, hpost⟩, hbefore, hafter⟩
    have hq : q ≤ list.length := by
      by_contra hlt
      rw [List.drop_eq_nil_of_le (Nat.le_of_not_le hlt)] at hpost
      exact hne (List.append_eq_nil_iff.mp hpost).1
    have hlist : list = list.take q ++ label ++ post := by
      rw [List.append_assoc, hpost, List.take_append_drop]
    refine ⟨list.take q, post, hlist, fun d hd => ?_, fun d hd => hafter d ?_⟩
    · rcases hbefore with rfl | ⟨d', hd', hdelim⟩
      · cases hd
      · by_cases h0 : q = 0
        · rw [h0] at hd
          cases hd
        · rw [List.getLast?_take, if_neg h0, hd', Option.some_or, Option.some.injEq] at hd
          exact hd ▸ hdelim
    · rw [← List.getElem?_drop, ← hpost, List.getElem?_append_right (Nat.le_refl _), Nat.sub_self,
        ← List.head?_eq_getElem?]
      exact hd

/-! ### The loop -/

lemma isDelim_iff {c : Char} : isDelim c = true ↔ c = ',' ∨ c = ' ' := by
  rw [isDelim, Bool.or_eq_true, beq_iff_eq, beq_iff_eq]

/-- The condition of the loop is that it has found a token. -/
lemma tokenAt_iff (h : label <+: list.drop q) :
    ((q = 0 ∨ (q ≠ 0 ∧ (list[q - 1]? = some ',' ∨ list[q - 1]? = some ' '))) ∧
      ((list.drop q)[label.length]? = none ∨ (list.drop q)[label.length]? = some ',' ∨
        (list.drop q)[label.length]? = some ' ')) ↔ TokenAt list label q := by
  rw [List.getElem?_drop]
  constructor
  · rintro ⟨hbefore, hafter⟩
    refine ⟨h, ?_, fun d hd => ?_⟩
    · rcases hbefore with h0 | ⟨-, h0 | h0⟩
      · exact .inl h0
      · exact .inr ⟨_, h0, rfl⟩
      · exact .inr ⟨_, h0, rfl⟩
    · rw [hd] at hafter
      rw [isDelim_iff]
      simpa using hafter
  · rintro ⟨-, hbefore, hafter⟩
    refine ⟨?_, ?_⟩
    · by_cases hq : q = 0
      · exact .inl hq
      · obtain ⟨d, hd, hdelim⟩ := hbefore.resolve_left hq
        rcases isDelim_iff.mp hdelim with rfl | rfl
        · exact .inr ⟨hq, .inl hd⟩
        · exact .inr ⟨hq, .inr hd⟩
    · cases hd : list[q + label.length]? with
      | none => exact .inl rfl
      | some d =>
        rcases isDelim_iff.mp (hafter d hd) with rfl | rfl
        · exact .inr (.inl rfl)
        · exact .inr (.inr rfl)

/-- What `strstr` returns is the first occurrence. -/
lemma strstr_spec {hay needle : List Char} :
    (∀ i, strstr hay needle = some i → needle <+: hay.drop i ∧ i ≤ hay.length ∧
      ∀ j, needle <+: hay.drop j → i ≤ j) ∧
    (strstr hay needle = none → ∀ j ≤ hay.length, ¬ needle <+: hay.drop j) := by
  constructor
  · intro i hi
    rw [strstr] at hi
    obtain ⟨hfound, hmem, hbefore⟩ := List.find?_range_eq_some.mp hi
    refine ⟨List.isPrefixOf_iff_prefix.mp hfound, Nat.le_of_lt_succ (List.mem_range.mp hmem),
      fun j hj => ?_⟩
    by_contra hlt
    have hnot := hbefore j (Nat.not_le.mp hlt)
    rw [List.isPrefixOf_iff_prefix.mpr hj] at hnot
    exact Bool.noConfusion hnot
  · intro hnone j hj hbegin
    exact List.find?_eq_none.mp hnone j (List.mem_range.mpr (Nat.lt_succ_of_le hj))
      (List.isPrefixOf_iff_prefix.mpr hbegin)

lemma strcspn_le {s : List Char} {k : ℕ} {d : Char} (hd : s[k]? = some d)
    (hdelim : isDelim d = true) : strcspn s ≤ k := by
  obtain ⟨hk, rfl⟩ := List.getElem?_eq_some_iff.mp hd
  by_contra hlt
  exact Bool.eq_false_iff.mp (List.not_of_lt_findIdx (Nat.not_le.mp hlt)) hdelim

/-- A place where the label stands is inside the list. -/
lemma lt_length_of_begin (hne : label ≠ []) (h : label <+: list.drop q) : q < list.length := by
  by_contra hle
  rw [List.drop_eq_nil_of_le (Nat.not_lt.mp hle), List.prefix_nil] at h
  exact hne h

/-- There is a separator in front of a later token. -/
lemma strcspn_lt {q' : ℕ} (h : TokenAt list label q') (hlt : q < q') : q + strcspn (list.drop q) < q' := by
  obtain ⟨d, hd, hdelim⟩ := h.before.resolve_left (by omega)
  have hsub : (list.drop q)[q' - 1 - q]? = some d := by
    rw [List.getElem?_drop, show q + (q' - 1 - q) = q' - 1 by omega]
    exact hd
  have := strcspn_le hsub hdelim
  omega

/-- The label does not begin with a separator. -/
lemma strcspn_pos (hne : label ≠ []) (hlabel : ∀ c ∈ label, isDelim c = false)
    (hfound : label <+: list.drop q) : 0 < strcspn (list.drop q) := by
  obtain ⟨c, label, rfl⟩ := List.exists_cons_of_ne_nil hne
  obtain ⟨t, ht⟩ := hfound
  rw [strcspn, ← ht, List.cons_append, List.findIdx_cons, hlabel c List.mem_cons_self]
  exact Nat.succ_pos _

/-- The loop stands at the first place from which on there are tokens. -/
lemma labelLoop_spec (hne : label ≠ []) (hlabel : ∀ c ∈ label, isDelim c = false) {fuel : ℕ}
    {start : Option ℕ}
    (hsome : ∀ q, start = some q → label <+: list.drop q ∧ ∀ q', TokenAt list label q' → q ≤ q')
    (hnone : start = none → ∀ q, ¬ TokenAt list label q)
    (hfuel : list.length + 1 < fuel + start.getD list.length) :
    ∃ b, labelLoop list label fuel start = some b ∧ (b = true ↔ ∃ q, TokenAt list label q) := by
  induction fuel generalizing start with
  | zero =>
    cases start with
    | none =>
      rw [Option.getD_none] at hfuel
      omega
    | some q =>
      have := lt_length_of_begin hne (hsome q rfl).1
      rw [Option.getD_some] at hfuel
      omega
  | succ fuel ih =>
    cases start with
    | none => exact ⟨false, rfl, iff_of_false Bool.false_ne_true fun ⟨q, hq⟩ => hnone rfl q hq⟩
    | some q =>
      obtain ⟨hfound, hfirst⟩ := hsome q rfl
      have hq := lt_length_of_begin hne hfound
      have hpos := strcspn_pos hne hlabel hfound
      rw [labelLoop]
      dsimp only
      by_cases htoken : TokenAt list label q
      · exact ⟨true, if_pos ((tokenAt_iff hfound).mpr htoken), iff_of_true rfl ⟨q, htoken⟩⟩
      · have hnext : ∀ q', TokenAt list label q' → q + strcspn (list.drop q) < q' := fun q' h' =>
          strcspn_lt h' (Nat.lt_of_le_of_ne (hfirst q' h') fun heq => htoken (heq ▸ h'))
        have hin : ∀ q', TokenAt list label q' → q' < list.length := fun q' h' =>
          lt_length_of_begin hne h'.found
        have hlen : (list.drop q).length = list.length - q := List.length_drop ..
        rw [if_neg (mt (tokenAt_iff hfound).mp htoken)]
        by_cases hend : strcspn (list.drop q) = (list.drop q).length
        · refine ⟨false, if_pos hend, iff_of_false Bool.false_ne_true ?_⟩
          rintro ⟨q', h'⟩
          have := hnext q' h'
          have := hin q' h'
          omega
        · rw [if_neg hend]
          have hdrop : ∀ i, ((list.drop q).drop (strcspn (list.drop q))).drop i =
              list.drop (q + strcspn (list.drop q) + i) := fun i => by
            rw [List.drop_drop, List.drop_drop, Nat.add_assoc]
          obtain ⟨hstr, hstrnone⟩ := @strstr_spec
            ((list.drop q).drop (strcspn (list.drop q))) label
          refine ih (fun q₁ hq₁ => ?_) (fun hmap q' h' => ?_) ?_
          · obtain ⟨i, hi, rfl⟩ := Option.map_eq_some_iff.mp hq₁
            obtain ⟨hbegin, -, hmin⟩ := hstr i hi
            refine ⟨hdrop i ▸ hbegin, fun q' h' => ?_⟩
            have hlt := hnext q' h'
            have := hmin (q' - (q + strcspn (list.drop q))) (by
              rw [hdrop, Nat.add_sub_cancel' (Nat.le_of_lt hlt)]
              exact h'.found)
            omega
          · have hlt := hnext q' h'
            have := hin q' h'
            refine hstrnone (Option.map_eq_none_iff.mp hmap)
              (q' - (q + strcspn (list.drop q))) ?_ ?_
            · rw [List.length_drop]
              omega
            · rw [hdrop, Nat.add_sub_cancel' (Nat.le_of_lt hlt)]
              exact h'.found
          · rw [Option.getD_some] at hfuel
            cases strstr ((list.drop q).drop (strcspn (list.drop q))) label with
            | none =>
              simp only [Option.map_none, Option.getD_none]
              omega
            | some i =>
              simp only [Option.map_some, Option.getD_some]
              omega

/-- The search ends, and it finds the label if and only if it is a token of the list. -/
theorem labelSearch_iff (hne : label ≠ []) (hlabel : ∀ c ∈ label, isDelim c = false) {fuel : ℕ}
    (hfuel : list.length + 1 < fuel) :
    ∃ b, labelSearch fuel (some list) (some label) = some b ∧
      (b = true ↔ label ∈ list.splitOnP isDelim) := by
  rw [mem_splitOnP_iff_tokenAt hne hlabel]
  obtain ⟨hsome, hnone⟩ := @strstr_spec list label
  refine labelLoop_spec hne hlabel (fun q hq => ?_) (fun h q hq => ?_) ?_
  · obtain ⟨hbegin, -, hmin⟩ := hsome q hq
    exact ⟨hbegin, fun q' h' => hmin q' h'.found⟩
  · exact hnone h q (Nat.le_of_lt (lt_length_of_begin hne hq.found)) hq.found
  · omega

/-- The label is a part of the first token, and it is the second one. -/
theorem labelSearch_second :
    ∃ b, labelSearch 7 (some ['b', 'a', ',', 'a']) (some ['a']) = some b ∧
      (b = true ↔ ['a'] ∈ ['b', 'a', ',', 'a'].splitOnP isDelim) :=
  labelSearch_iff (by decide) (List.forall_mem_singleton.mpr rfl) (by decide)

example : labelSearch 7 (some ['b', 'a', ',', 'a']) (some ['a']) = some true := by decide

end EspIdf.Bootloader
