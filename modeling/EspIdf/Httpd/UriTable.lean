/-
# The table of URI handlers

The handlers stand in `hd_calls` in the order in which they were registered, followed by `NULL`.
They are removed by moving the later ones forward, and added in two allocation steps.  When the
second one fails, the entry that the first one has made is freed and stays in the table.
-/
import Mathlib

namespace EspIdf.Httpd

/-- `httpd_uri_t`. -/
structure Uri (H C : Type) where
  uri : List Char
  method : ℕ
  handler : H
  userCtx : C

/-- What a pointer in `hd_calls` points to. -/
inductive Slot (H C : Type) where
  | null
  | live (u : Uri H C)
  /-- The entry has been freed. -/
  | freed

/-- The fields of `httpd_config_t` that matter for the table. -/
structure Config where
  maxUriHandlers : ℕ
  /-- `uri_match_fn`, of a template, the string at a pointer and a length. -/
  uriMatchFn : Option (List Char → List Char → ℕ → Bool)

/-- `httpd_err_code_t`, as far as the search sets it; `none` is its 0. -/
inductive HttpErr where
  | none
  | notFound
  | methodNotAllowed
deriving DecidableEq

inductive Err where
  | ok
  | invalidArg
  | handlerExists
  | handlersFull
  | allocMem
  | notFound
deriving DecidableEq

variable {H C : Type}

/-- `httpd_uri_match_simple`. -/
def uriMatchSimple (uri1 uri2 : List Char) (len2 : ℕ) : Bool :=
  uri1.length == len2 && uri1 == uri2.take len2

/-- Whether the template of a handler matches. -/
def Config.uriMatches (config : Config) (template uri : List Char) (uriLen : ℕ) : Bool :=
  match config.uriMatchFn with
  | some uriMatchFn => uriMatchFn template uri uriLen
  | none => uriMatchSimple template uri uriLen

/-- The loop of `httpd_find_uri_handler` over the last `n` entries, with the error so far.  It
fails if it looks into an entry that has been freed. -/
def findLoop (config : Config) (calls : ℕ → Slot H C) (uri : List Char) (uriLen method : ℕ) :
    ℕ → ℕ → HttpErr → Option (Option (Uri H C) × HttpErr)
  | 0, _, err => some (none, err)
  | n + 1, i, err =>
    match calls i with
    | .null => some (none, err)
    | .freed => none
    | .live u =>
      if config.uriMatches u.uri uri uriLen then
        if u.method = method then some (some u, .none)
        else findLoop config calls uri uriLen method n (i + 1) .methodNotAllowed
      else findLoop config calls uri uriLen method n (i + 1) err

/-- `httpd_find_uri_handler`. -/
def findUriHandler (config : Config) (calls : ℕ → Slot H C) (uri : List Char)
    (uriLen method : ℕ) : Option (Option (Uri H C) × HttpErr) :=
  findLoop config calls uri uriLen method config.maxUriHandlers 0 .notFound

/-- The loop of `httpd_register_uri_handler`.  `structMem` and `strMem` are whether the two
allocations succeed. -/
def registerLoop (uriHandler : Uri H C) (structMem strMem : Bool) :
    ℕ → ℕ → (ℕ → Slot H C) → Err × (ℕ → Slot H C)
  | 0, _, calls => (.handlersFull, calls)
  | n + 1, i, calls =>
    match calls i with
    | .null =>
      if structMem = false then (.allocMem, Function.update calls i .null)
      else if strMem = false then (.allocMem, Function.update calls i .freed)
      else (.ok, Function.update calls i (.live uriHandler))
    | _ => registerLoop uriHandler structMem strMem n (i + 1) calls

/-- `httpd_register_uri_handler`, for a server that is not `NULL`. -/
def registerUriHandler (config : Config) (calls : ℕ → Slot H C) (uriHandler : Option (Uri H C))
    (structMem strMem : Bool) : Option (Err × (ℕ → Slot H C)) :=
  match uriHandler with
  | none => some (.invalidArg, calls)
  | some uriHandler => do
    let (found, _) ← findUriHandler config calls uriHandler.uri uriHandler.uri.length
      uriHandler.method
    if found.isSome then return (.handlerExists, calls)
    else return registerLoop uriHandler structMem strMem config.maxUriHandlers 0 calls

/-- The loop that moves the later handlers forward. -/
def shiftLoop : ℕ → ℕ → (ℕ → Slot H C) → (ℕ → Slot H C)
  | 0, i, calls => Function.update calls (i - 1) .null
  | n + 1, i, calls =>
    match calls i with
    | .null => Function.update calls (i - 1) .null
    | slot => shiftLoop n (i + 1) (Function.update calls (i - 1) slot)

/-- The loop of `httpd_unregister_uri_handler`. -/
def unregisterLoop (uri : List Char) (method : ℕ) :
    ℕ → ℕ → (ℕ → Slot H C) → Option (Err × (ℕ → Slot H C))
  | 0, _, calls => some (.notFound, calls)
  | n + 1, i, calls =>
    match calls i with
    | .null => some (.notFound, calls)
    | .freed => none
    | .live u =>
      if u.method = method ∧ u.uri = uri then
        some (.ok, shiftLoop n (i + 1) (Function.update calls i .null))
      else unregisterLoop uri method n (i + 1) calls

/-- `httpd_unregister_uri_handler`. -/
def unregisterUriHandler (config : Config) (calls : ℕ → Slot H C) (uri : Option (List Char))
    (method : ℕ) : Option (Err × (ℕ → Slot H C)) :=
  match uri with
  | none => some (.invalidArg, calls)
  | some uri => unregisterLoop uri method config.maxUriHandlers 0 calls

/-- The first loop of `httpd_unregister_uri`, with the number `j` of removed entries. -/
def removeLoop (uri : List Char) :
    ℕ → ℕ → ℕ → (ℕ → Slot H C) → Option (ℕ × ℕ × (ℕ → Slot H C))
  | 0, i, j, calls => some (i, j, calls)
  | n + 1, i, j, calls =>
    match calls i with
    | .null => some (i, j, calls)
    | .freed => none
    | .live u =>
      if u.uri = uri then removeLoop uri n (i + 1) (j + 1) (Function.update calls i .null)
      else removeLoop uri n (i + 1) j (Function.update calls (i - j) (calls i))

/-- The second one, which clears `n` entries from `k` on. -/
def nullify : ℕ → ℕ → (ℕ → Slot H C) → (ℕ → Slot H C)
  | 0, _, calls => calls
  | n + 1, k, calls => nullify n (k + 1) (Function.update calls k .null)

/-- `httpd_unregister_uri`; something is found if an entry has been removed. -/
def unregisterUri (config : Config) (calls : ℕ → Slot H C) (uri : Option (List Char)) :
    Option (Err × (ℕ → Slot H C)) :=
  match uri with
  | none => some (.invalidArg, calls)
  | some uri => do
    let (i, j, calls) ← removeLoop uri config.maxUriHandlers 0 0 calls
    return (if j ≠ 0 then .ok else .notFound, nullify j (i - j) calls)

/-! ### The table of a list of handlers -/

variable {config : Config} {calls : ℕ → Slot H C} {hs pre post : List (Uri H C)} {n j : ℕ}

/-- The handlers followed by `NULL`. -/
def table (hs : List (Uri H C)) (i : ℕ) : Slot H C := (hs[i]?).elim .null .live

lemma table_of_le {i : ℕ} (h : hs.length ≤ i) : table hs i = .null := by
  rw [table, List.getElem?_eq_none h]
  rfl

lemma table_append_left {i : ℕ} (h : i < pre.length) : table (pre ++ post) i = table pre i := by
  rw [table, table, List.getElem?_append_left h]

lemma table_append_right (k : ℕ) : table (pre ++ post) (pre.length + k) = table post k := by
  rw [table, table, List.getElem?_append_right (Nat.le_add_right ..), Nat.add_sub_cancel_left]

lemma table_append_length {u : Uri H C} : table (pre ++ u :: post) pre.length = .live u :=
  table_append_right 0

/-- The handler that the search finds, with its error. -/
def firstMatch (config : Config) (hs : List (Uri H C)) (uri : List Char) (uriLen method : ℕ)
    (err : HttpErr) : Option (Uri H C) × HttpErr :=
  match hs.find? fun u => config.uriMatches u.uri uri uriLen && u.method == method with
  | some u => (some u, .none)
  | none =>
    (none, if hs.any fun u => config.uriMatches u.uri uri uriLen then .methodNotAllowed else err)

lemma findLoop_table {uri : List Char} {uriLen method : ℕ} (h : post.length ≤ n) (err : HttpErr) :
    findLoop config (table (pre ++ post)) uri uriLen method n pre.length err =
      some (firstMatch config post uri uriLen method err) := by
  induction post generalizing pre n err with
  | nil =>
    cases n with
    | zero => rfl
    | succ n =>
      rw [findLoop, List.append_nil, table_of_le (Nat.le_refl _)]
      rfl
  | cons u post ih =>
    obtain ⟨n, rfl⟩ : ∃ k, n = k + 1 := ⟨n - 1, by rw [List.length_cons] at h; omega⟩
    have hnext := fun err => @ih (pre ++ [u]) n (Nat.le_of_succ_le_succ h) err
    rw [List.append_assoc, List.singleton_append, List.length_append, List.length_singleton] at hnext
    rw [findLoop, table_append_length]
    dsimp only
    rw [hnext, hnext, firstMatch, firstMatch, firstMatch, List.find?_cons, List.any_cons]
    by_cases hmatch : config.uriMatches u.uri uri uriLen = true
    · rw [if_pos hmatch, hmatch]
      by_cases hmethod : u.method = method
      · simp [hmethod]
      · simp [beq_eq_false_iff_ne.mpr hmethod, hmethod]
    · rw [if_neg hmatch, eq_false_of_ne_true hmatch]
      simp

/-- Registering puts the handler behind the others. -/
lemma registerLoop_table {u : Uri H C} {structMem strMem : Bool} :
    registerLoop u structMem strMem n pre.length (table (pre ++ post)) =
      if n ≤ post.length then (.handlersFull, table (pre ++ post))
      else if structMem = false then (.allocMem, table (pre ++ post))
      else if strMem = false then
        (.allocMem, Function.update (table (pre ++ post)) (pre ++ post).length .freed)
      else (.ok, table (pre ++ post ++ [u])) := by
  induction post generalizing pre n with
  | nil =>
    cases n with
    | zero => rfl
    | succ n =>
      have hkept : Function.update (table pre) pre.length .null = table pre :=
        Function.update_eq_self_iff.mpr (table_of_le (Nat.le_refl _)).symm
      have hadd : Function.update (table pre) pre.length (.live u) = table (pre ++ [u]) := by
        ext i
        by_cases hi : i = pre.length
        · rw [hi, Function.update_self, table_append_length]
        · rw [Function.update_of_ne hi]
          rcases Nat.lt_or_gt_of_ne hi with hlt | hgt
          · exact (table_append_left hlt).symm
          · rw [table_of_le (Nat.le_of_lt hgt), table_of_le]
            rwa [List.length_append, List.length_singleton]
      rw [registerLoop, List.append_nil, table_of_le (Nat.le_refl _)]
      simp only [List.length_nil, Nat.le_zero, Nat.succ_ne_zero, if_false, hkept, hadd]
  | cons v post ih =>
    cases n with
    | zero => rfl
    | succ n =>
      have hnext := @ih (pre ++ [v]) n
      rw [List.append_assoc, List.singleton_append, List.length_append, List.length_singleton]
        at hnext
      rw [registerLoop, table_append_length]
      simp only [hnext, List.length_cons, Nat.add_le_add_iff_right]

/-- The entries of `pre` stand in front, and those of `post` behind a gap of `j` entries. -/
structure Gap (calls : ℕ → Slot H C) (pre post : List (Uri H C)) (j : ℕ) : Prop where
  front : ∀ i < pre.length, calls i = table pre i
  back : ∀ k, calls (pre.length + j + k) = table post k

/-- The next handler is moved over the gap. -/
lemma Gap.move {u : Uri H C} (h : Gap calls pre (u :: post) j) :
    calls (pre.length + j) = .live u ∧
      Gap (Function.update calls pre.length (.live u)) (pre ++ [u]) post j := by
  have hback := h.back
  have hlen : (pre ++ [u]).length = pre.length + 1 := by simp
  refine ⟨hback 0, fun i hi => ?_, fun k => ?_⟩
  · rcases Nat.lt_succ_iff_lt_or_eq.mp (hlen ▸ hi) with hlt | rfl
    · rw [Function.update_of_ne (Nat.ne_of_lt hlt), h.front i hlt, table_append_left hlt]
    · rw [Function.update_self, table_append_length]
  · have hne : (pre ++ [u]).length + j + k ≠ pre.length := by omega
    rw [Function.update_of_ne hne]
    have hk := hback (k + 1)
    rw [show pre.length + j + (k + 1) = (pre ++ [u]).length + j + k by omega] at hk
    exact hk

/-- The next handler is removed, and the gap grows. -/
lemma Gap.drop {u : Uri H C} (h : Gap calls pre (u :: post) j) (slot : Slot H C) :
    Gap (Function.update calls (pre.length + j) slot) pre post (j + 1) := by
  refine ⟨fun i hi => ?_, fun k => ?_⟩
  · rw [Function.update_of_ne (by omega), h.front i hi]
  · rw [Function.update_of_ne (by omega)]
    have hk := h.back (k + 1)
    rw [show pre.length + j + (k + 1) = pre.length + (j + 1) + k by omega] at hk
    exact hk

lemma nullify_eq (k : ℕ) :
    nullify n k calls = fun i => if k ≤ i ∧ i < k + n then .null else calls i := by
  induction n generalizing k calls with
  | zero =>
    ext i
    rw [nullify, if_neg (by omega)]
  | succ n ih =>
    rw [nullify, ih]
    ext i
    by_cases hi : i = k
    · rw [hi, if_neg (by omega), if_pos (by omega), Function.update_self]
    · rw [Function.update_of_ne hi]
      by_cases hin : k + 1 ≤ i ∧ i < k + 1 + n
      · rw [if_pos hin, if_pos (by omega)]
      · rw [if_neg hin, if_neg (by omega)]

/-- Nothing is left behind the gap, which is cleared. -/
lemma Gap.close (h : Gap calls pre [] j) : nullify j pre.length calls = table pre := by
  rw [nullify_eq]
  ext i
  by_cases hlt : i < pre.length
  · rw [if_neg (by omega), h.front i hlt]
  · rw [table_of_le (Nat.not_lt.mp hlt)]
    by_cases hin : i < pre.length + j
    · rw [if_pos (by omega)]
    · rw [if_neg (by omega)]
      have hk := h.back (i - (pre.length + j))
      rw [Nat.add_sub_cancel' (Nat.not_lt.mp hin)] at hk
      exact hk

lemma shiftLoop_gap (hn : post.length ≤ n) (h : Gap calls pre post 1) :
    shiftLoop n (pre.length + 1) calls = table (pre ++ post) := by
  induction post generalizing pre n calls with
  | nil =>
    have hclose : Function.update calls pre.length .null = table pre := h.close
    rw [List.append_nil, ← hclose]
    cases n with
    | zero => rfl
    | succ n =>
      rw [shiftLoop, h.back 0]
      rfl
  | cons u post ih =>
    obtain ⟨n, rfl⟩ : ∃ k, n = k + 1 := ⟨n - 1, by rw [List.length_cons] at hn; omega⟩
    obtain ⟨hslot, hmove⟩ := h.move
    have hnext := ih (Nat.le_of_succ_le_succ hn) hmove
    rw [List.length_append, List.length_singleton, List.append_assoc, List.singleton_append]
      at hnext
    rw [shiftLoop, hslot]
    exact hnext

/-- The first handler with the string and the method is removed. -/
lemma unregisterLoop_table {uri : List Char} {method : ℕ} (hn : post.length ≤ n) :
    unregisterLoop uri method n pre.length (table (pre ++ post)) =
      some (if post.any fun u => u.method == method && u.uri == uri then
        (.ok, table (pre ++ post.eraseP fun u => u.method == method && u.uri == uri))
        else (.notFound, table (pre ++ post))) := by
  induction post generalizing pre n with
  | nil =>
    cases n with
    | zero => rfl
    | succ n =>
      rw [unregisterLoop, List.append_nil, table_of_le (Nat.le_refl _)]
      rfl
  | cons u post ih =>
    obtain ⟨n, rfl⟩ : ∃ k, n = k + 1 := ⟨n - 1, by rw [List.length_cons] at hn; omega⟩
    rw [unregisterLoop, table_append_length]
    dsimp only
    by_cases hu : u.method = method ∧ u.uri = uri
    · have hgap : Gap (table (pre ++ u :: post)) pre (u :: post) 0 :=
        ⟨fun i hi => table_append_left hi, fun k => table_append_right k⟩
      have hshift : shiftLoop n (pre.length + 1)
          (Function.update (table (pre ++ u :: post)) pre.length .null) = table (pre ++ post) :=
        shiftLoop_gap (Nat.le_of_succ_le_succ hn) (hgap.drop .null)
      rw [if_pos hu, hshift]
      simp [hu.1, hu.2]
    · have hnext := @ih (pre ++ [u]) n (Nat.le_of_succ_le_succ hn)
      simp only [List.append_assoc, List.singleton_append, List.length_append,
        List.length_singleton] at hnext
      have hfalse : (u.method == method && u.uri == uri) = false := by
        rw [← Bool.not_eq_true, Bool.and_eq_true, beq_iff_eq, beq_iff_eq]
        exact hu
      rw [if_neg hu, hnext, List.any_cons, List.eraseP_cons, hfalse]
      rfl

/-- All handlers with the string are removed. -/
lemma removeLoop_gap {uri : List Char} (hn : post.length ≤ n) (h : Gap calls pre post j) :
    ∃ j' calls', removeLoop uri n (pre.length + j) j calls =
        some ((pre ++ post.filter fun u => u.uri != uri).length + j', j', calls') ∧
      Gap calls' (pre ++ post.filter fun u => u.uri != uri) [] j' ∧
      j' = j + post.countP fun u => u.uri == uri := by
  induction post generalizing pre n j calls with
  | nil =>
    have hnull : calls (pre.length + j) = .null := h.back 0
    refine ⟨j, calls, ?_, by simpa using h, rfl⟩
    rw [List.filter_nil, List.append_nil]
    cases n with
    | zero => rfl
    | succ n =>
      rw [removeLoop, hnull]
  | cons u post ih =>
    obtain ⟨n, rfl⟩ : ∃ k, n = k + 1 := ⟨n - 1, by rw [List.length_cons] at hn; omega⟩
    obtain ⟨hslot, hmove⟩ := h.move
    rw [removeLoop, hslot]
    dsimp only
    by_cases hu : u.uri = uri
    · obtain ⟨j', calls', hrun, hgap, hj⟩ := ih (Nat.le_of_succ_le_succ hn) (h.drop .null)
      have hfilter : (u :: post).filter (fun u => u.uri != uri) =
          post.filter fun u => u.uri != uri := List.filter_cons_of_neg (by simp [hu])
      rw [if_pos hu, hfilter]
      refine ⟨j', calls', hrun, hgap, ?_⟩
      rw [hj, List.countP_cons_of_pos (by simp [hu])]
      omega
    · obtain ⟨j', calls', hrun, hgap, hj⟩ := ih (Nat.le_of_succ_le_succ hn) hmove
      have hfilter : (u :: post).filter (fun u => u.uri != uri) =
          u :: post.filter fun u => u.uri != uri := List.filter_cons_of_pos (by simp [hu])
      have hi : (pre ++ [u]).length + j = pre.length + j + 1 := by
        rw [List.length_append, List.length_singleton]
        omega
      rw [hi, List.append_assoc, List.singleton_append, ← hfilter] at hrun
      rw [List.append_assoc, List.singleton_append, ← hfilter] at hgap
      rw [if_neg hu, Nat.add_sub_cancel]
      refine ⟨j', calls', hrun, hgap, ?_⟩
      rw [hj, List.countP_cons_of_neg (by simp [hu])]

/-! ### The calls -/

lemma findUriHandler_table (h : hs.length ≤ config.maxUriHandlers) (uri : List Char)
    (uriLen method : ℕ) :
    findUriHandler config (table hs) uri uriLen method =
      some (firstMatch config hs uri uriLen method .notFound) :=
  @findLoop_table H C config [] hs config.maxUriHandlers uri uriLen method h .notFound

lemma unregisterUriHandler_table (h : hs.length ≤ config.maxUriHandlers) (uri : List Char)
    (method : ℕ) :
    unregisterUriHandler config (table hs) (some uri) method =
      some (if hs.any fun u => u.method == method && u.uri == uri then
        (.ok, table (hs.eraseP fun u => u.method == method && u.uri == uri))
        else (.notFound, table hs)) :=
  @unregisterLoop_table H C [] hs config.maxUriHandlers uri method h

lemma unregisterUri_table (h : hs.length ≤ config.maxUriHandlers) (uri : List Char) :
    unregisterUri config (table hs) (some uri) =
      some (if hs.any fun u => u.uri == uri then .ok else .notFound,
        table (hs.filter fun u => u.uri != uri)) := by
  have hgap : Gap (table hs) [] hs 0 :=
    ⟨fun i hi => absurd hi i.not_lt_zero, fun k => by rw [List.length_nil, Nat.zero_add]⟩
  obtain ⟨j, calls', hrun, hgap', hj⟩ := @removeLoop_gap _ _ _ _ _ _ _ uri h hgap
  have hfound : j ≠ 0 ↔ (hs.any fun u => u.uri == uri) = true := by
    rw [hj, Nat.zero_add, List.any_eq_true, ← Nat.pos_iff_ne_zero, List.countP_pos_iff]
  have hrun' : removeLoop uri config.maxUriHandlers 0 0 (table hs) =
      some ((hs.filter fun u => u.uri != uri).length + j, j, calls') := hrun
  have hclose := hgap'.close
  rw [List.nil_append] at hclose
  rw [unregisterUri, hrun', Option.bind_eq_bind, Option.bind_some]
  simp only [Nat.add_sub_cancel, hclose, hfound]
  rfl

/-- Registering puts the handler behind the others, unless it is refused or the first allocation
fails; if only the second one fails, an entry that is freed stays behind. -/
lemma registerUriHandler_table (h : hs.length ≤ config.maxUriHandlers) (u : Uri H C)
    (structMem strMem : Bool) :
    registerUriHandler config (table hs) (some u) structMem strMem =
      some (if (firstMatch config hs u.uri u.uri.length u.method .notFound).1.isSome then
          (.handlerExists, table hs)
        else if config.maxUriHandlers ≤ hs.length then (.handlersFull, table hs)
        else if structMem = false then (.allocMem, table hs)
        else if strMem = false then (.allocMem, Function.update (table hs) hs.length .freed)
        else (.ok, table (hs ++ [u]))) := by
  have hloop := @registerLoop_table H C [] hs config.maxUriHandlers u structMem strMem
  rw [List.nil_append] at hloop
  rw [registerUriHandler, findUriHandler_table h, Option.bind_eq_bind, Option.bind_some]
  by_cases hfound : (firstMatch config hs u.uri u.uri.length u.method .notFound).1.isSome = true
  · rw [if_pos hfound]
    simp only [hfound]
    rfl
  · rw [if_neg hfound]
    simp only [hfound]
    exact congrArg some hloop

/-! ### Runs -/

/-- The calls, with which allocations succeed. -/
inductive Op (H C : Type) where
  | register (uriHandler : Option (Uri H C)) (structMem strMem : Bool)
  | unregisterHandler (uri : Option (List Char)) (method : ℕ)
  | unregister (uri : Option (List Char))

def Op.run (config : Config) (calls : ℕ → Slot H C) :
    Op H C → Option (Err × (ℕ → Slot H C))
  | .register uriHandler structMem strMem =>
    registerUriHandler config calls uriHandler structMem strMem
  | .unregisterHandler uri method => unregisterUriHandler config calls uri method
  | .unregister uri => unregisterUri config calls uri

/-- The live registrations after a call, in the order in which they were made. -/
def Op.registered (err : Err) (hs : List (Uri H C)) (op : Op H C) : List (Uri H C) :=
  if err = .ok then
    match op with
    | .register (some u) _ _ => hs ++ [u]
    | .unregisterHandler (some uri) method =>
      hs.eraseP fun u => u.method == method && u.uri == uri
    | .unregister (some uri) => hs.filter fun u => u.uri != uri
    | _ => hs
  else hs

/-- The table holds the handlers in order, and the search finds the first one that matches and
has the method. -/
structure Ordered (config : Config) (calls : ℕ → Slot H C) (hs : List (Uri H C)) : Prop where
  length_le : hs.length ≤ config.maxUriHandlers
  table_eq : calls = table hs
  find : ∀ uri uriLen method, findUriHandler config calls uri uriLen method =
    some (firstMatch config hs uri uriLen method .notFound)

/-- In all states of the run the table is ordered, and calls that return an error leave it as it
was. -/
def AlwaysOrdered (config : Config) :
    (ℕ → Slot H C) → List (Uri H C) → List (Op H C) → Prop
  | calls, hs, [] => Ordered config calls hs
  | calls, hs, op :: ops =>
    Ordered config calls hs ∧ ∃ err calls', op.run config calls = some (err, calls') ∧
      (err ≠ .ok → calls' = calls) ∧ AlwaysOrdered config calls' (op.registered err hs) ops

/-- The string is not the only allocation that fails: it is not reached, or it succeeds. -/
def Op.Regular (config : Config) (calls : ℕ → Slot H C) : Op H C → Prop
  | .register (some u) true false =>
    (∃ res, findUriHandler config calls u.uri u.uri.length u.method = some res ∧
      res.1.isSome = true) ∨ ∀ i < config.maxUriHandlers, calls i ≠ .null
  | _ => True

/-- All calls of the run are regular. -/
def RegularRun (config : Config) : (ℕ → Slot H C) → List (Op H C) → Prop
  | _, [] => True
  | calls, op :: ops =>
    op.Regular config calls ∧
      ∀ err calls', op.run config calls = some (err, calls') → RegularRun config calls' ops

lemma full_iff : (∀ i < config.maxUriHandlers, table hs i ≠ .null) ↔
    config.maxUriHandlers ≤ hs.length := by
  constructor
  · intro h
    by_contra hlt
    exact h hs.length (Nat.not_le.mp hlt) (table_of_le (Nat.le_refl _))
  · intro h i hi
    rw [table, List.getElem?_eq_getElem (Nat.lt_of_lt_of_le hi h)]
    nofun

/-- What a call does to an ordered table. -/
structure Step (config : Config) (hs : List (Uri H C)) (op : Op H C) (err : Err)
    (calls' : ℕ → Slot H C) : Prop where
  kept : op.Regular config (table hs) → err ≠ .ok → calls' = table hs
  ordered : op.Regular config (table hs) → calls' = table (op.registered err hs) ∧
    (op.registered err hs).length ≤ config.maxUriHandlers
  dangling : ¬ op.Regular config (table hs) → err ≠ .ok ∧ calls' ≠ table hs

lemma step_failed {op : Op H C} {err : Err} (h : hs.length ≤ config.maxUriHandlers)
    (hreg : op.Regular config (table hs)) (herr : err ≠ .ok) : Step config hs op err (table hs) := by
  have hsame : op.registered err hs = hs := if_neg herr
  exact ⟨fun _ _ => rfl, fun _ => ⟨by rw [hsame], by rwa [hsame]⟩, fun hnot => absurd hreg hnot⟩

lemma step_done {op : Op H C} (hreg : op.Regular config (table hs))
    (hlen : (op.registered .ok hs).length ≤ config.maxUriHandlers) :
    Step config hs op .ok (table (op.registered .ok hs)) :=
  ⟨fun _ h => absurd rfl h, fun _ => ⟨rfl, hlen⟩, fun hnot => absurd hreg hnot⟩

lemma register_step (h : hs.length ≤ config.maxUriHandlers) (u : Uri H C)
    (structMem strMem : Bool) :
    ∃ err calls', registerUriHandler config (table hs) (some u) structMem strMem =
        some (err, calls') ∧
      Step config hs (.register (some u) structMem strMem) err calls' := by
  have hregular : ((firstMatch config hs u.uri u.uri.length u.method .notFound).1.isSome = true ∨
      config.maxUriHandlers ≤ hs.length) ∨ structMem = false ∨ strMem = true →
      (Op.register (some u) structMem strMem).Regular config (table hs) := by
    rintro ((hfound | hfull) | rfl | rfl)
    · cases structMem <;> cases strMem <;>
        first | trivial | exact .inl ⟨_, findUriHandler_table h _ _ _, hfound⟩
    · cases structMem <;> cases strMem <;> first | trivial | exact .inr (full_iff.mpr hfull)
    · trivial
    · cases structMem <;> trivial
  rw [registerUriHandler_table h]
  split
  · next hfound =>
    exact ⟨_, _, rfl, step_failed h (hregular (.inl (.inl hfound))) Err.noConfusion⟩
  · next hfound =>
    split
    · next hfull =>
      exact ⟨_, _, rfl, step_failed h (hregular (.inl (.inr hfull))) Err.noConfusion⟩
    · next hroom =>
      split
      · next hstruct =>
        exact ⟨_, _, rfl, step_failed h (hregular (.inr (.inl hstruct))) Err.noConfusion⟩
      · next hstruct =>
        split
        · next hstr =>
          -- the freed entry stays in the table
          rw [Bool.not_eq_false] at hstruct
          subst hstruct hstr
          have hnot : ¬ (Op.register (some u) true false).Regular config (table hs) := by
            rintro (⟨res, hres, hsome⟩ | hfull)
            · rw [findUriHandler_table h, Option.some.injEq] at hres
              subst hres
              exact hfound hsome
            · exact hroom (full_iff.mp hfull)
          refine ⟨_, _, rfl, fun hreg => absurd hreg hnot, fun hreg => absurd hreg hnot,
            fun _ => ⟨Err.noConfusion, fun heq => ?_⟩⟩
          have hslot := congrFun heq hs.length
          rw [Function.update_self, table_of_le (Nat.le_refl _)] at hslot
          cases hslot
        · next hstr =>
          rw [Bool.not_eq_false] at hstr
          refine ⟨_, _, rfl, step_done (hregular (.inr (.inr hstr))) ?_⟩
          simp only [Op.registered, if_true, List.length_append, List.length_singleton]
          omega

lemma Op.step (h : hs.length ≤ config.maxUriHandlers) (op : Op H C) :
    ∃ err calls', op.run config (table hs) = some (err, calls') ∧ Step config hs op err calls' := by
  cases op with
  | register uriHandler structMem strMem =>
    cases uriHandler with
    | none => exact ⟨_, _, rfl, step_failed h trivial Err.noConfusion⟩
    | some u => exact register_step h u structMem strMem
  | unregisterHandler uri method =>
    cases uri with
    | none => exact ⟨_, _, rfl, step_failed h trivial Err.noConfusion⟩
    | some uri =>
      rw [Op.run, unregisterUriHandler_table h]
      split
      · exact ⟨_, _, rfl, step_done trivial (Nat.le_trans (List.length_eraseP_le) h)⟩
      · exact ⟨_, _, rfl, step_failed h trivial Err.noConfusion⟩
  | unregister uri =>
    cases uri with
    | none => exact ⟨_, _, rfl, step_failed h trivial Err.noConfusion⟩
    | some uri =>
      rw [Op.run, unregisterUri_table h]
      split
      · exact ⟨_, _, rfl, step_done trivial (Nat.le_trans (List.length_filter_le ..) h)⟩
      · next hnone =>
        have hall : (hs.filter fun u => u.uri != uri) = hs := by
          rw [List.filter_eq_self]
          intro u hu
          by_contra heq
          exact hnone (List.any_eq_true.mpr ⟨u, hu, by simpa using heq⟩)
        rw [hall]
        exact ⟨_, _, rfl, step_failed h trivial Err.noConfusion⟩

lemma ordered_table (h : hs.length ≤ config.maxUriHandlers) : Ordered config (table hs) hs :=
  ⟨h, rfl, findUriHandler_table h⟩

lemma alwaysOrdered_iff {ops : List (Op H C)} (h : hs.length ≤ config.maxUriHandlers) :
    AlwaysOrdered config (table hs) hs ops ↔ RegularRun config (table hs) ops := by
  induction ops generalizing hs with
  | nil => exact iff_of_true (ordered_table h) trivial
  | cons op ops ih =>
    obtain ⟨err, calls', hrun, hstep⟩ := op.step h
    constructor
    · rintro ⟨-, err', calls'', hrun', hkept, hrest⟩
      obtain ⟨rfl, rfl⟩ := Prod.mk.inj (Option.some.inj (hrun.symm.trans hrun'))
      have hreg : op.Regular config (table hs) := by
        by_contra hnot
        exact (hstep.dangling hnot).2 (hkept (hstep.dangling hnot).1)
      obtain ⟨rfl, hlen⟩ := hstep.ordered hreg
      refine ⟨hreg, fun err₁ calls₁ hrun₁ => ?_⟩
      obtain ⟨rfl, rfl⟩ := Prod.mk.inj (Option.some.inj (hrun.symm.trans hrun₁))
      exact (ih hlen).mp hrest
    · rintro ⟨hreg, hrest⟩
      obtain ⟨rfl, hlen⟩ := hstep.ordered hreg
      exact ⟨ordered_table h, err, _, hrun, hstep.kept hreg,
        (ih hlen).mpr (hrest err _ hrun)⟩

/-- The table stays ordered in exactly the runs in which no registration fails at the copy of the
string after its entry has been allocated. -/
theorem uriTable_ordered_iff (ops : List (Op H C)) :
    AlwaysOrdered config (fun _ => .null) [] ops ↔ RegularRun config (fun _ => .null) ops := by
  have hnil : (fun _ => .null) = table ([] : List (Uri H C)) := by
    ext i
    exact (table_of_le (Nat.zero_le i)).symm
  rw [hnil]
  exact alwaysOrdered_iff (Nat.zero_le _)

/-- A server for eight handlers with the simple comparison. -/
def eight : Config := ⟨8, none⟩

/-- The handler of the root. -/
def root : Uri Unit Unit := ⟨['/'], 1, (), ()⟩

/-- The copy of the string fails: the entry that is freed stays, and the next search looks into
it. -/
theorem uriTable_dangling :
    ¬ AlwaysOrdered eight (fun _ => .null) [] [.register (some root) true false] ∧
    ∃ calls, Op.run eight (fun _ => .null) (.register (some root) true false) =
        some (.allocMem, calls) ∧
      findUriHandler eight calls ['/'] 1 1 = none := by
  refine ⟨fun h => ?_, _, rfl, rfl⟩
  obtain ⟨-, err, calls', hrun, hkept, -⟩ := h
  obtain ⟨rfl, rfl⟩ := Prod.mk.inj (Option.some.inj hrun)
  have hslot : (Slot.freed : Slot Unit Unit) = .null := congrFun (hkept Err.noConfusion) 0
  cases hslot

end EspIdf.Httpd
