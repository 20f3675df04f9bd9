/-
# Splitting a line into arguments

The arguments are written over the line from which they are read.  What is written stays behind
what is read, so that the machine does the same as one that writes to a list of its own; the
terminator that is written at the end is the exception, for it is written whether or not a
character has been read there.
-/
import Mathlib

namespace EspIdf.Console

/-- `split_state_t`. -/
inductive SplitState where
  | space
  | arg
  | quotedArg
  | argEscaped
  | quotedArgEscaped
deriving DecidableEq

def quote : UInt8 := 34

def escape : UInt8 := 92

def space : UInt8 := 32

/-- The state with the arguments that are found.  Pointers into the line are its indices, and
`NULL` is `none`. -/
structure Parse where
  state : SplitState
  argc : ℕ
  argv : ℕ → Option ℕ
  nextArgStart : ℕ

/-- `END_ARG`. -/
def endArg (p : Parse) : Parse × Option UInt8 :=
  ({ p with
      argv := Function.update p.argv p.argc (some p.nextArgStart)
      argc := p.argc + 1
      state := .space }, some 0)

/-- The switch over the state, with `char_out`. -/
def feed (p : Parse) (outPtr : ℕ) (charIn : UInt8) : Parse × Option UInt8 :=
  match p.state with
  | .space =>
    if charIn = space then (p, none)
    else if charIn = quote then ({ p with nextArgStart := outPtr, state := .quotedArg }, none)
    else if charIn = escape then ({ p with nextArgStart := outPtr, state := .argEscaped }, none)
    else ({ p with nextArgStart := outPtr, state := .arg }, some charIn)
  | .quotedArg =>
    if charIn = quote then endArg p
    else if charIn = escape then ({ p with state := .quotedArgEscaped }, none)
    else (p, some charIn)
  | .argEscaped =>
    ({ p with state := .arg },
      if charIn = escape ∨ charIn = quote ∨ charIn = space then some charIn else none)
  | .quotedArgEscaped =>
    ({ p with state := .quotedArg },
      if charIn = escape ∨ charIn = quote ∨ charIn = space then some charIn else none)
  | .arg =>
    if charIn = space then endArg p
    else if charIn = escape then ({ p with state := .argEscaped }, none)
    else (p, some charIn)

structure Machine where
  parse : Parse
  line : ℕ → UInt8
  inPtr : ℕ
  outPtr : ℕ
  /-- Where characters have been written, and how many had been read by then. -/
  writes : List (ℕ × ℕ)

/-- Write a character after `read` characters have been read. -/
def Machine.write (m : Machine) (c : UInt8) (read : ℕ) : Machine :=
  { m with
    line := Function.update m.line m.outPtr c
    writes := m.writes ++ [(m.outPtr, read)] }

/-- One round of the loop, in which a character is read. -/
def Machine.round (m : Machine) : Machine :=
  let res := feed m.parse m.outPtr (m.line m.inPtr)
  let m' := { m with parse := res.1, inPtr := m.inPtr + 1 }
  match res.2 with
  | none => m'
  | some c => { m'.write c (m.inPtr + 1) with outPtr := m.outPtr + 1 }

def loop (argvSize : ℕ) : ℕ → Machine → Option Machine
  | 0, _ => none
  | fuel + 1, m =>
    if m.parse.argc < argvSize - 1 then
      if m.line m.inPtr = 0 then some m else loop argvSize fuel m.round
    else some m

/-- Finalize the last argument. -/
def endLast (argvSize : ℕ) (p : Parse) : Parse :=
  if p.state ≠ .space ∧ p.argc < argvSize - 1 then
    { p with argv := Function.update p.argv p.argc (some p.nextArgStart), argc := p.argc + 1 }
  else p

/-- What follows the loop. -/
def finish (argvSize : ℕ) (m : Machine) : Machine :=
  -- the loop has read the end of the line if it was not stopped by the number of arguments
  let m := m.write 0 (if m.parse.argc < argvSize - 1 then m.inPtr + 1 else m.inPtr)
  let p := endLast argvSize m.parse
  { m with parse := { p with argv := Function.update p.argv p.argc none } }

/-- `esp_console_split_argv`, with less than `fuel` rounds.  The array `argv` is not empty. -/
def splitArgv (fuel : ℕ) (line : ℕ → UInt8) (argv : ℕ → Option ℕ) (argvSize : ℕ) :
    Option Machine := do
  let m ← loop argvSize fuel ⟨⟨.space, 0, argv, 0⟩, line, 0, 0, []⟩
  return finish argvSize m

/-! ### Strings in memory -/

variable {line : ℕ → UInt8} {p : ℕ} {s t : List UInt8}

/-- The characters stand in memory from `p` on. -/
def Text (line : ℕ → UInt8) : ℕ → List UInt8 → Prop
  | _, [] => True
  | p, c :: s => line p = c ∧ Text line (p + 1) s

/-- The string with its terminator. -/
def CStr (line : ℕ → UInt8) (p : ℕ) (s : List UInt8) : Prop := Text line p (s ++ [0]) ∧ 0 ∉ s

lemma text_append : Text line p (s ++ t) ↔ Text line p s ∧ Text line (p + s.length) t := by
  induction s generalizing p with
  | nil => simp [Text]
  | cons c s ih =>
    rw [List.cons_append, Text, Text, ih, and_assoc, List.length_cons, Nat.add_right_comm,
      Nat.add_assoc]

/-- A character that is written elsewhere changes nothing. -/
lemma Text.update {i : ℕ} {c : UInt8} (h : Text line p s) (hi : i < p ∨ p + s.length ≤ i) :
    Text (Function.update line i c) p s := by
  induction s generalizing p with
  | nil => trivial
  | cons d s ih =>
    rw [List.length_cons] at hi
    refine ⟨?_, ih h.2 (by omega)⟩
    rw [Function.update_of_ne (by omega)]
    exact h.1

/-- A part of a text. -/
lemma Text.drop {w : List UInt8} (h : Text line 0 w) (hs : s <+: w.drop p) : Text line p s := by
  by_cases hp : p ≤ w.length
  · obtain ⟨t, ht⟩ := hs
    rw [← List.take_append_drop p w, text_append, List.length_take_of_le hp, ← ht, Nat.zero_add,
      text_append] at h
    exact h.2.1
  · rw [List.drop_eq_nil_of_le (Nat.le_of_not_le hp), List.prefix_nil] at hs
    rw [hs]
    trivial

/-! ### The machine that writes elsewhere -/

/-- The rounds with a list for what is written, and what is left unread. -/
def splitList (argvSize : ℕ) : Parse → List UInt8 → List UInt8 → Parse × List UInt8 × List UInt8
  | p, w, [] => (p, w, [])
  | p, w, c :: rest =>
    if p.argc < argvSize - 1 then
      splitList argvSize (feed p w.length c).1 (w ++ (feed p w.length c).2.toList) rest
    else (p, w, c :: rest)

variable {argvSize fuel : ℕ} {m m' : Machine} {w rest : List UInt8} {c : UInt8}

/-- What is written and what is still to be read. -/
structure At (m : Machine) (w rest : List UInt8) : Prop where
  outPtr_eq : m.outPtr = w.length
  written : Text m.line 0 w
  le : m.outPtr ≤ m.inPtr
  unread : Text m.line m.inPtr (rest ++ [0])
  nonzero : 0 ∉ rest
  behind : ∀ x ∈ m.writes, x.1 < x.2 ∧ x.2 ≤ m.inPtr

/-- A write behind what has been read. -/
lemma At.write (h : At m w rest) (read : ℕ) (hread : m.outPtr < m.inPtr) :
    Text (m.write c read).line 0 (w ++ [c]) ∧ Text (m.write c read).line m.inPtr (rest ++ [0]) := by
  have hlen := h.outPtr_eq
  refine ⟨text_append.mpr ⟨h.written.update (.inr (by omega)), ?_, trivial⟩,
    h.unread.update (.inl hread)⟩
  rw [Nat.zero_add, ← hlen]
  exact Function.update_self ..

/-- A round does in place what the list machine does. -/
lemma At.round (h : At m w (c :: rest)) :
    m.round.parse = (feed m.parse w.length c).1 ∧ m.round.inPtr = m.inPtr + 1 ∧
      At m.round (w ++ (feed m.parse w.length c).2.toList) rest := by
  have hc : m.line m.inPtr = c := h.unread.1
  have hnonzero : 0 ∉ rest := fun hmem => h.nonzero (List.mem_cons_of_mem _ hmem)
  rw [← h.outPtr_eq, ← hc, Machine.round]
  generalize feed m.parse m.outPtr (m.line m.inPtr) = res
  have hnext : At { m with parse := res.1, inPtr := m.inPtr + 1 } w rest :=
    ⟨h.outPtr_eq, h.written, Nat.le_succ_of_le h.le, h.unread.2, hnonzero, fun x hx =>
      ⟨(h.behind x hx).1, Nat.le_succ_of_le (h.behind x hx).2⟩⟩
  obtain ⟨parse, charOut⟩ := res
  cases charOut with
  | none =>
    refine ⟨rfl, rfl, ?_⟩
    rw [Option.toList_none, List.append_nil]
    exact hnext
  | some d =>
    have hlt : m.outPtr < m.inPtr + 1 := Nat.lt_succ_of_le h.le
    obtain ⟨hwritten, hunread⟩ := hnext.write (c := d) (m.inPtr + 1) hlt
    refine ⟨rfl, rfl, ?_, hwritten, hlt, hunread, hnonzero, fun x hx => ?_⟩
    · rw [Option.toList_some, List.length_append, List.length_singleton, ← h.outPtr_eq]
    · rcases List.mem_append.mp hx with hx | hx
      · exact hnext.behind x hx
      · rw [List.mem_singleton.mp hx]
        exact ⟨hlt, Nat.le_refl _⟩

/-- The loop does in place what the list machine does. -/
lemma loop_spec (h : At m w rest) (hfuel : rest.length < fuel) :
    ∃ m', loop argvSize fuel m = some m' ∧
      m'.parse = (splitList argvSize m.parse w rest).1 ∧
      At m' (splitList argvSize m.parse w rest).2.1 (splitList argvSize m.parse w rest).2.2 ∧
      m'.inPtr + (splitList argvSize m.parse w rest).2.2.length = m.inPtr + rest.length ∧
      (m'.parse.argc < argvSize - 1 → (splitList argvSize m.parse w rest).2.2 = []) := by
  induction rest generalizing m w fuel with
  | nil =>
    obtain ⟨fuel, rfl⟩ : ∃ k, fuel = k + 1 := ⟨fuel - 1, by rw [List.length_nil] at hfuel; omega⟩
    have hzero : m.line m.inPtr = 0 := h.unread.1
    refine ⟨m, ?_, rfl, h, rfl, fun _ => rfl⟩
    rw [loop, if_pos hzero, ite_self]
  | cons c rest ih =>
    obtain ⟨fuel, rfl⟩ : ∃ k, fuel = k + 1 := ⟨fuel - 1, by rw [List.length_cons] at hfuel; omega⟩
    have hne : m.line m.inPtr ≠ 0 := by
      intro hzero
      exact h.nonzero (hzero ▸ h.unread.1 ▸ List.mem_cons_self)
    rw [loop, splitList]
    by_cases hargc : m.parse.argc < argvSize - 1
    · obtain ⟨hparse, hin, hround⟩ := h.round
      obtain ⟨m', hrun, hp, hat, hleft, hend⟩ := ih hround (Nat.lt_of_succ_lt_succ hfuel)
      rw [if_pos hargc, if_neg hne, if_pos hargc, ← hparse]
      refine ⟨m', hrun, hp, hat, ?_, hend⟩
      rw [hleft, hin, List.length_cons]
      omega
    · rw [if_neg hargc, if_neg hargc]
      exact ⟨m, rfl, rfl, h, rfl, fun hlt => absurd hlt hargc⟩

/-! ### The arguments -/

/-- The arguments that are found end within what is written. -/
structure Found (argvSize : ℕ) (p : Parse) (w : List UInt8) : Prop where
  argc_le : p.argc ≤ argvSize - 1
  ends : ∀ i < p.argc, ∃ start q, p.argv i = some start ∧ start ≤ q ∧ w[q]? = some 0
  going : p.state ≠ .space → p.argc < argvSize - 1 ∧ p.nextArgStart ≤ w.length

lemma Found.endArg {q : Parse} (h : Found argvSize q w) (hstate : q.state ≠ .space) :
    Found argvSize (endArg q).1 (w ++ (endArg q).2.toList) := by
  obtain ⟨hlt, hstart⟩ := h.going hstate
  refine ⟨hlt, fun i hi => ?_, fun hne => absurd rfl hne⟩
  rcases Nat.lt_succ_iff_lt_or_eq.mp hi with hi | rfl
  · obtain ⟨start, r, harg, hle, hzero⟩ := h.ends i hi
    refine ⟨start, r, (Function.update_of_ne (Nat.ne_of_lt hi) ..).trans harg, hle, ?_⟩
    obtain ⟨hr, -⟩ := List.getElem?_eq_some_iff.mp hzero
    rwa [List.getElem?_append_left hr]
  · exact ⟨_, w.length, Function.update_self .., hstart, List.getElem?_concat_length⟩

/-- A round ends an argument, or it keeps the arguments and the start of the present one, or
begins one. -/
lemma feed_cases (q : Parse) (n : ℕ) (c : UInt8) :
    (q.state ≠ .space ∧ feed q n c = endArg q) ∨
    ((feed q n c).1.argc = q.argc ∧ (feed q n c).1.argv = q.argv ∧
      ((feed q n c).1.state ≠ .space → (feed q n c).1.nextArgStart = n ∨
        (q.state ≠ .space ∧ (feed q n c).1.nextArgStart = q.nextArgStart))) := by
  have hne : ∀ {st}, q.state = st → st ≠ .space → q.state ≠ .space := fun h h' => h ▸ h'
  rw [feed]
  split
  · next hstate =>
    split
    · exact .inr ⟨rfl, rfl, fun h => absurd hstate h⟩
    · split
      · exact .inr ⟨rfl, rfl, fun _ => .inl rfl⟩
      · split <;> exact .inr ⟨rfl, rfl, fun _ => .inl rfl⟩
  · next hstate =>
    have hquoted := hne hstate SplitState.noConfusion
    split
    · exact .inl ⟨hquoted, rfl⟩
    · split <;> exact .inr ⟨rfl, rfl, fun _ => .inr ⟨hquoted, rfl⟩⟩
  · next hstate => exact .inr ⟨rfl, rfl, fun _ => .inr ⟨hne hstate SplitState.noConfusion, rfl⟩⟩
  · next hstate => exact .inr ⟨rfl, rfl, fun _ => .inr ⟨hne hstate SplitState.noConfusion, rfl⟩⟩
  · next hstate =>
    have harg := hne hstate SplitState.noConfusion
    split
    · exact .inl ⟨harg, rfl⟩
    · split <;> exact .inr ⟨rfl, rfl, fun _ => .inr ⟨harg, rfl⟩⟩

lemma Found.feed {q : Parse} (h : Found argvSize q w) (hlt : q.argc < argvSize - 1) (c : UInt8) :
    Found argvSize (feed q w.length c).1 (w ++ (feed q w.length c).2.toList) := by
  rcases feed_cases q w.length c with ⟨hstate, heq⟩ | ⟨hargc, hargv, hstart⟩
  · rw [heq]
    exact h.endArg hstate
  · refine ⟨hargc ▸ h.argc_le, fun i hi => ?_, fun hne => ⟨hargc ▸ hlt, ?_⟩⟩
    · obtain ⟨start, r, harg, hle, hzero⟩ := h.ends i (hargc ▸ hi)
      refine ⟨start, r, hargv ▸ harg, hle, ?_⟩
      obtain ⟨hr, -⟩ := List.getElem?_eq_some_iff.mp hzero
      rwa [List.getElem?_append_left hr]
    · rw [List.length_append]
      rcases hstart hne with heq | ⟨hstate, heq⟩
      · omega
      · have := (h.going hstate).2
        omega

lemma Found.splitList {q : Parse} (h : Found argvSize q w) :
    Found argvSize (splitList argvSize q w rest).1 (splitList argvSize q w rest).2.1 := by
  induction rest generalizing q w with
  | nil => exact h
  | cons c rest ih =>
    rw [Console.splitList]
    split
    · next hlt => exact ih (h.feed hlt c)
    · exact h

/-! ### Quoted arguments -/

/-- An argument with a backslash before every quote and backslash. -/
def escaped (arg : List UInt8) : List UInt8 :=
  arg.flatMap fun c => if c = quote ∨ c = escape then [escape, c] else [c]

/-- Arguments in quotes, each with the number of spaces before it. -/
def quotedLine (args : List (ℕ × List UInt8)) : List UInt8 :=
  args.flatMap fun a => List.replicate a.1 space ++ (quote :: (escaped a.2 ++ [quote]))

/-- The arguments with their terminators. -/
def stored (args : List (ℕ × List UInt8)) : List UInt8 := args.flatMap fun a => a.2 ++ [0]

variable {argc start k : ℕ} {argv : ℕ → Option ℕ}

lemma splitList_spaces (hlt : argc < argvSize - 1) :
    splitList argvSize ⟨.space, argc, argv, start⟩ w (List.replicate k space ++ rest) =
      splitList argvSize ⟨.space, argc, argv, start⟩ w rest := by
  induction k with
  | zero => rfl
  | succ k ih =>
    rw [List.replicate_succ, List.cons_append, splitList, if_pos hlt, ← ih]
    simp only [feed, if_true, Option.toList_none, List.append_nil]

lemma splitList_body (hlt : argc < argvSize - 1) (arg : List UInt8) :
    splitList argvSize ⟨.quotedArg, argc, argv, start⟩ w (escaped arg ++ quote :: rest) =
      splitList argvSize ⟨.space, argc + 1, Function.update argv argc (some start), start⟩
        (w ++ arg ++ [0]) rest := by
  induction arg generalizing w with
  | nil =>
    rw [escaped, List.flatMap_nil, List.nil_append, List.append_nil, splitList, if_pos hlt]
    rfl
  | cons c arg ih =>
    have hnext := @ih (w ++ [c])
    rw [List.append_assoc w, List.singleton_append] at hnext
    rw [escaped, List.flatMap_cons, ← escaped, List.append_assoc, ← hnext]
    by_cases hc : c = quote ∨ c = escape
    · have hout : c = escape ∨ c = quote ∨ c = space := by
        rcases hc with h | h
        · exact .inr (.inl h)
        · exact .inl h
      rw [if_pos hc, List.cons_append, splitList, if_pos hlt, List.singleton_append, splitList,
        if_pos (by exact hlt)]
      have hesc : ¬ escape = quote := by decide
      simp only [feed, hesc, hout, if_true, if_false, Option.toList_none, Option.toList_some,
        List.append_nil]
    · rw [not_or] at hc
      rw [if_neg (not_or.mpr hc), List.singleton_append, splitList, if_pos hlt]
      simp only [feed, hc.1, hc.2, if_false, Option.toList_some]

/-- One quoted argument. -/
lemma splitList_arg (hlt : argc < argvSize - 1) (a : ℕ × List UInt8) :
    splitList argvSize ⟨.space, argc, argv, start⟩ w
        (List.replicate a.1 space ++ (quote :: (escaped a.2 ++ [quote])) ++ rest) =
      splitList argvSize ⟨.space, argc + 1, Function.update argv argc (some w.length), w.length⟩
        (w ++ (a.2 ++ [0])) rest := by
  have hquote : ¬ quote = space := by decide
  rw [List.append_assoc, splitList_spaces hlt, List.cons_append, List.append_assoc,
    List.singleton_append, splitList, if_pos hlt]
  simp only [feed, hquote, if_true, if_false, Option.toList_none, List.append_nil]
  rw [splitList_body hlt, List.append_assoc]

/-- Quoted arguments are found and written one behind the other. -/
lemma splitList_quoted {args : List (ℕ × List UInt8)} (h : argc + args.length ≤ argvSize - 1) :
    ∃ q, splitList argvSize ⟨.space, argc, argv, start⟩ w (quotedLine args) =
        (q, w ++ stored args, []) ∧
      q.state = .space ∧ q.argc = argc + args.length ∧ (∀ i < argc, q.argv i = argv i) ∧
      ∀ i (hi : i < args.length), ∃ pos, q.argv (argc + i) = some pos ∧
        args[i].2 ++ [0] <+: (w ++ stored args).drop pos := by
  induction args generalizing argc argv start w with
  | nil =>
    refine ⟨⟨.space, argc, argv, start⟩, ?_, rfl, rfl, fun _ _ => rfl, fun i hi => ?_⟩
    · rw [quotedLine, stored, List.flatMap_nil, List.flatMap_nil, List.append_nil, splitList]
    · exact absurd hi i.not_lt_zero
  | cons a args ih =>
    rw [List.length_cons] at h
    obtain ⟨q, hrun, hstate, hargc, hkept, hargs⟩ := @ih (w ++ (a.2 ++ [0])) (argc + 1) w.length
      (Function.update argv argc (some w.length)) (by omega)
    rw [List.append_assoc] at hrun hargs
    refine ⟨q, ?_, hstate, ?_, fun i hi => ?_, fun i hi => ?_⟩
    · rw [quotedLine, List.flatMap_cons, ← quotedLine, splitList_arg (by omega), hrun,
        stored, stored, List.flatMap_cons]
    · rw [hargc, List.length_cons]
      omega
    · rw [hkept i (by omega), Function.update_of_ne (Nat.ne_of_lt hi)]
    · rw [stored, List.flatMap_cons, ← stored]
      cases i with
      | zero =>
        refine ⟨w.length, ?_, ?_⟩
        · rw [Nat.add_zero, hkept argc (Nat.lt_succ_self _), Function.update_self]
        · rw [List.drop_left']
          · exact List.prefix_append ..
          · rfl
      | succ i =>
        obtain ⟨pos, hpos, hpre⟩ := hargs i (Nat.lt_of_succ_lt_succ hi)
        refine ⟨pos, ?_, hpre⟩
        rw [← hpos]
        congr 1
        omega

/-! ### The whole line -/

/-- What holds of every line: everything is written inside it, in the loop only over characters
that have been read, and the arguments end inside it. -/
structure Safe (argvSize : ℕ) (text : List UInt8) (r : Machine) : Prop where
  inside : ∀ x ∈ r.writes, x.1 ≤ text.length
  /-- The terminator that is written last may lie on the first character that is not read, if
  the number of arguments is reached. -/
  behind : ∃ writes last, r.writes = writes ++ [last] ∧ (∀ x ∈ writes, x.1 < x.2) ∧
    (last.1 < last.2 ∨ (last.1 = last.2 ∧ r.parse.argc = argvSize - 1))
  argc_le : r.parse.argc ≤ argvSize - 1
  last : r.parse.argv r.parse.argc = none
  ends : ∀ i < r.parse.argc, ∃ start q, r.parse.argv i = some start ∧ start ≤ q ∧
    q ≤ text.length ∧ r.line q = 0

/-- The arguments are those that were quoted. -/
def Inverts (args : List (ℕ × List UInt8)) (r : Machine) : Prop :=
  r.parse.argc = args.length ∧ r.parse.argv r.parse.argc = none ∧
    ∀ i (h : i < args.length), ∃ pos, r.parse.argv i = some pos ∧ CStr r.line pos args[i].2

lemma text_getElem {w : List UInt8} {i : ℕ} (h : Text line p w) (hi : w[i]? = some c) :
    line (p + i) = c := by
  induction w generalizing p i with
  | nil => cases hi
  | cons d w ih =>
    cases i with
    | zero => exact h.1.trans (Option.some.inj hi)
    | succ i =>
      rw [← ih h.2 hi]
      congr 1
      omega

lemma finish_parse : (finish argvSize m).parse =
    { endLast argvSize m.parse with
      argv := Function.update (endLast argvSize m.parse).argv (endLast argvSize m.parse).argc
        none } := rfl

/-- The arguments end within what is written with the last terminator. -/
lemma Found.endLast {q : Parse} (h : Found argvSize q w) :
    (endLast argvSize q).argc ≤ argvSize - 1 ∧
    (¬ q.argc < argvSize - 1 → endLast argvSize q = q) ∧
    ∀ i < (endLast argvSize q).argc, ∃ start r, (endLast argvSize q).argv i = some start ∧
      start ≤ r ∧ (w ++ [0])[r]? = some 0 := by
  have hold : ∀ i < q.argc, ∃ start r, q.argv i = some start ∧ start ≤ r ∧
      (w ++ [0])[r]? = some 0 := by
    intro i hi
    obtain ⟨start, r, harg, hle, hzero⟩ := h.ends i hi
    obtain ⟨hr, -⟩ := List.getElem?_eq_some_iff.mp hzero
    exact ⟨start, r, harg, hle, by rwa [List.getElem?_append_left hr]⟩
  rw [Console.endLast]
  split
  · next hgoing =>
    refine ⟨hgoing.2, fun hnot => absurd hgoing.2 hnot, fun i hi => ?_⟩
    dsimp only at hi ⊢
    rcases Nat.lt_succ_iff_lt_or_eq.mp hi with hi | rfl
    · rw [Function.update_of_ne (Nat.ne_of_lt hi)]
      exact hold i hi
    · exact ⟨_, w.length, Function.update_self .., (h.going hgoing.1).2,
        List.getElem?_concat_length⟩
  · exact ⟨h.argc_le, fun _ => rfl, hold⟩

lemma finish_safe {text : List UInt8} (hm : At m w rest) (hfound : Found argvSize m.parse w)
    (hle : m.inPtr ≤ text.length) : Safe argvSize text (finish argvSize m) := by
  have hout := hm.outPtr_eq
  have hwrites : (finish argvSize m).writes = m.writes ++
      [(m.outPtr, if m.parse.argc < argvSize - 1 then m.inPtr + 1 else m.inPtr)] := rfl
  have hwritten : Text (finish argvSize m).line 0 (w ++ [0]) := by
    refine text_append.mpr ⟨hm.written.update (.inr (by omega)), ?_, trivial⟩
    rw [Nat.zero_add, ← hout]
    exact Function.update_self ..
  obtain ⟨hargc, hsame, hends⟩ := hfound.endLast
  refine ⟨fun x hx => ?_, ⟨m.writes, _, hwrites, fun x hx => (hm.behind x hx).1, ?_⟩, hargc,
    Function.update_self .., fun i hi => ?_⟩
  · rw [hwrites] at hx
    rcases List.mem_append.mp hx with hx | hx
    · have := hm.behind x hx
      omega
    · rw [List.mem_singleton.mp hx]
      exact Nat.le_trans hm.le hle
  · by_cases hlt : m.parse.argc < argvSize - 1
    · rw [if_pos hlt]
      exact .inl (Nat.lt_succ_of_le hm.le)
    · rw [if_neg hlt, finish_parse, hsame hlt]
      exact (Nat.lt_or_eq_of_le hm.le).imp_right fun heq =>
        ⟨heq, Nat.le_antisymm hfound.argc_le (Nat.not_lt.mp hlt)⟩
  · obtain ⟨start, r, harg, hstart, hzero⟩ := hends i hi
    have hline := text_getElem hwritten hzero
    obtain ⟨hr, -⟩ := List.getElem?_eq_some_iff.mp hzero
    rw [Nat.zero_add] at hline
    rw [List.length_append, List.length_singleton] at hr
    have hbehind := hm.le
    refine ⟨start, r, ?_, hstart, by omega, hline⟩
    rw [finish_parse]
    exact (Function.update_of_ne (Nat.ne_of_lt hi) ..).trans harg

/-- Splitting keeps inside every line, and it inverts quoting. -/
theorem splitArgv_spec {text : List UInt8} (hline : CStr line 0 text) (hfuel : text.length < fuel) :
    ∃ r, splitArgv fuel line argv argvSize = some r ∧ Safe argvSize text r ∧
      ∀ args, text = quotedLine args → args.length ≤ argvSize - 1 → (∀ a ∈ args, 0 ∉ a.2) →
        Inverts args r := by
  have hat : At ⟨⟨.space, 0, argv, 0⟩, line, 0, 0, []⟩ [] text :=
    ⟨rfl, trivial, Nat.le_refl _, hline.1, hline.2, fun x hx => absurd hx List.not_mem_nil⟩
  have hfound : Found argvSize ⟨.space, 0, argv, 0⟩ [] :=
    ⟨Nat.zero_le _, fun i hi => absurd hi i.not_lt_zero, fun hne => absurd rfl hne⟩
  obtain ⟨m, hrun, hparse, hm, hleft, -⟩ := @loop_spec argvSize _ _ _ _ hat hfuel
  refine ⟨finish argvSize m, by rw [splitArgv, hrun]; rfl, ?_, fun args htext hargs hzero => ?_⟩
  · refine finish_safe hm (hparse ▸ hfound.splitList) ?_
    dsimp only at hleft
    omega
  · obtain ⟨q, hq, hstate, hargc, -, hall⟩ := @splitList_quoted argvSize [] 0 0 argv args (by omega)
    rw [htext, hq] at hparse hm
    obtain rfl : m.parse = q := hparse
    have hsame : endLast argvSize m.parse = m.parse := if_neg fun h => h.1 hstate
    have hwritten : Text (finish argvSize m).line 0 (stored args) :=
      hm.written.update (.inr (Nat.le_of_eq (by rw [hm.outPtr_eq, Nat.zero_add])))
    rw [Nat.zero_add] at hargc
    rw [Inverts, finish_parse, hsame]
    refine ⟨hargc, Function.update_self .., fun i hi => ?_⟩
    obtain ⟨pos, hpos, hpre⟩ := hall i hi
    rw [Nat.zero_add] at hpos
    refine ⟨pos, ?_, hwritten.drop hpre, hzero _ (List.getElem_mem hi)⟩
    rw [← hpos]
    exact Function.update_of_ne (by omega) ..

/-- The memory that holds a string. -/
def memory (text : List UInt8) (i : ℕ) : UInt8 := text.getD i 0

/-- The line `"a" "\""`. -/
def quotedTwo : List UInt8 := [34, 97, 34, 32, 34, 92, 34, 34]

example : quotedLine [(0, [97]), (1, [34])] = quotedTwo := by decide

theorem splitArgv_spec_quotedTwo :
    ∃ r, splitArgv 9 (memory quotedTwo) (fun _ => none) 3 = some r ∧ Safe 3 quotedTwo r ∧
      ∀ args, quotedTwo = quotedLine args → args.length ≤ 2 → (∀ a ∈ args, 0 ∉ a.2) →
        Inverts args r :=
  splitArgv_spec ⟨⟨rfl, rfl, rfl, rfl, rfl, rfl, rfl, rfl, rfl, trivial⟩, by decide⟩ (by decide)

/-- The line `a b`. -/
def twoWords : List UInt8 := [97, 32, 98]

/-- If there is room for one argument only, the last terminator lies on the `b`, which has not been
read. -/
theorem splitArgv_overwrites_unread :
    CStr (memory twoWords) 0 twoWords ∧
    (splitArgv 4 (memory twoWords) (fun _ => none) 2).map Machine.writes =
      some [(0, 1), (1, 2), (2, 2)] ∧
    ¬ ∀ r, splitArgv 4 (memory twoWords) (fun _ => none) 2 = some r →
      ∀ x ∈ r.writes, x.1 < x.2 := by
  have hwrites : (splitArgv 4 (memory twoWords) (fun _ => none) 2).map Machine.writes =
      some [(0, 1), (1, 2), (2, 2)] := by decide
  refine ⟨⟨⟨rfl, rfl, rfl, rfl, trivial⟩, by decide⟩, hwrites, fun h => ?_⟩
  obtain ⟨r, hr, hlist⟩ := Option.map_eq_some_iff.mp hwrites
  have hlt := h r hr (2, 2) (by rw [hlist]; decide)
  omega

end EspIdf.Console
