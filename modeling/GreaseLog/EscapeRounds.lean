import GreaseLog.JsonEscape

/-!
# The rounds of the escape loop

`JsonEscape` says what `memcpy_and_json_escape` stores.  Here are its local
variables, round by round: where it reads, where it stores, when it stops and
what it returns.  The memory behind the input is arbitrary and has no end, so
that the loop need not stop.

Every round reads one byte, at `walk_in`, and moves on by one.
-/

namespace GreaseLog

/-! ## The loop -/

/-- The local variables.  Positions are offsets from `in` and `out`, and `out`
has the bytes stored so far.  `out_space` and `walk_out` are the same number. -/
structure JsonEscaper where
  state : EscapeState
  walkIn : ℕ
  inRemain : ℕ
  walkOut : ℕ
  space : ℕ
  out : ℕ → Option UInt8

namespace JsonEscaper

def start (inLen outLen : ℕ) : JsonEscaper where
  state := .looking
  walkIn := 0
  inRemain := inLen
  walkOut := 0
  space := outLen
  out := fun _ => none

/-- The condition of the `while` loop. -/
def Running (e : JsonEscaper) : Prop := 0 < e.inRemain ∧ 0 < e.space

instance (e : JsonEscaper) : Decidable e.Running :=
  inferInstanceAs (Decidable (_ ∧ _))

def put (e : JsonEscaper) (byte : UInt8) : JsonEscaper :=
  { e with
    out := fun i => if i = e.walkOut then some byte else e.out i
    walkOut := e.walkOut + 1
    space := e.space - 1 }

/-- `MEMCPY_STATIC_STRING_APPEND`. -/
def append : List UInt8 → JsonEscaper → JsonEscaper
  | [], e => e
  | byte :: s, e => if 0 < e.space then append s (e.put byte) else e

/-- The branches for escape characters count the remaining bytes up. -/
def skip (e : JsonEscaper) (state : EscapeState) : JsonEscaper :=
  { e with
    state := state
    walkIn := e.walkIn + 1
    inRemain := e.inRemain + 1 }

def advance (e : JsonEscaper) : JsonEscaper :=
  { e with
    state := .looking
    walkIn := e.walkIn + 1
    inRemain := e.inRemain - 1 }

/-- One round, over the memory from `in` on.  A byte which is passed as it is
is stored without a look at the space, of which the loop has made sure. -/
def round (mem : ℕ → UInt8) (e : JsonEscaper) : JsonEscaper :=
  let byte := mem e.walkIn
  if e.state = .escape ∧ byte = 91 then e.skip .ansiEscape
  else if e.state = .ansiEscape then
    e.skip (if isCsiParameter byte then .ansiEscape else .looking)
  else if byte = 0x1B then e.skip .escape
  else (append (escapeByte byte) e).advance

/-- So many rounds, unless the loop stops before. -/
def rounds (mem : ℕ → UInt8) : ℕ → JsonEscaper → JsonEscaper
  | 0, e => e
  | n + 1, e => if e.Running then rounds mem n (e.round mem) else e

/-- The positions of the input which these rounds read. -/
def reads (mem : ℕ → UInt8) : ℕ → JsonEscaper → List ℕ
  | 0, _ => []
  | n + 1, e =>
      if e.Running then e.walkIn :: reads mem n (e.round mem) else []

end JsonEscaper

/-- What the function leaves behind: the bytes at `out`, `*out_len` and its
answer. -/
structure EscapeResult where
  out : ℕ → Option UInt8
  outLen : ℕ
  ret : ℤ

/-- The bytes the caller takes. -/
def EscapeResult.text (r : EscapeResult) : List UInt8 :=
  (List.range r.outLen).map fun i => (r.out i).getD 0

namespace JsonEscaper

/-- The end of the function, with the terminating zero. -/
def finish (e : JsonEscaper) : EscapeResult where
  out := fun i => if 0 < e.space ∧ i = e.walkOut then some 0 else e.out i
  outLen := e.walkOut
  ret := if 0 < e.inRemain then -1 else 0

/-- The function, if it is through after so many rounds. -/
def run (mem : ℕ → UInt8) (inLen outLen n : ℕ) : Option EscapeResult :=
  let e := rounds mem n (start inLen outLen)
  if e.Running then none else some e.finish

/-! ## Stopping -/

variable {mem mem' : ℕ → UInt8} {e : JsonEscaper}

theorem rounds_of_stopped (hstop : ¬e.Running) (n : ℕ) :
    rounds mem n e = e := by
  cases n with
  | zero => rfl
  | succ n => rw [rounds, if_neg hstop]

theorem rounds_add (m n : ℕ) :
    rounds mem (m + n) e = rounds mem n (rounds mem m e) := by
  induction m generalizing e with
  | zero => rw [Nat.zero_add, rounds]
  | succ m ih =>
      rw [Nat.succ_add, rounds, rounds]
      split
      · exact ih
      · rename_i hstop
        exact (rounds_of_stopped hstop n).symm

theorem reads_add (m n : ℕ) :
    reads mem (m + n) e = reads mem m e ++ reads mem n (rounds mem m e) := by
  induction m generalizing e with
  | zero => rw [Nat.zero_add, rounds, reads, List.nil_append]
  | succ m ih =>
      rw [Nat.succ_add, rounds, reads, reads]
      split
      · rw [ih, List.cons_append]
      · rename_i hstop
        cases n with
        | zero => rfl
        | succ n => rw [reads, if_neg hstop, List.nil_append]

/-- The function returns at most one result. -/
theorem run_unique
    {inLen outLen m n : ℕ} {r r' : EscapeResult}
    (h : run mem inLen outLen m = some r)
    (h' : run mem inLen outLen n = some r') : r = r' := by
  wlog hle : m ≤ n generalizing m n r r'
  · exact (this h' h (Nat.le_of_not_le hle)).symm
  unfold run at h h'
  dsimp only at h h'
  split at h
  · simp at h
  · rename_i hstop
    obtain ⟨d, rfl⟩ := Nat.exists_eq_add_of_le hle
    rw [rounds_add, rounds_of_stopped hstop, if_neg hstop] at h'
    exact Option.some.inj (h.symm.trans h')

/-- Storing does not move the reading position. -/
theorem append_frame (s : List UInt8) (e : JsonEscaper) :
    (append s e).walkIn = e.walkIn ∧ (append s e).inRemain = e.inRemain := by
  induction s generalizing e with
  | nil => exact ⟨rfl, rfl⟩
  | cons byte s ih =>
      rw [append]
      split
      · exact ih (e.put byte)
      · exact ⟨rfl, rfl⟩

theorem walkIn_round : (e.round mem).walkIn = e.walkIn + 1 := by
  unfold round
  dsimp only
  split_ifs
  · rfl
  · rfl
  · rfl
  · rfl
  · exact congrArg (· + 1) (append_frame _ e).1

theorem lt_of_mem_reads {n i : ℕ} (hi : i ∈ reads mem n e) :
    i < e.walkIn + n := by
  induction n generalizing e with
  | zero => simp [reads] at hi
  | succ n ih =>
      rw [reads] at hi
      split at hi
      · rcases List.mem_cons.mp hi with rfl | hrest
        · omega
        · have hlt := ih hrest
          rw [walkIn_round] at hlt
          omega
      · simp at hi

/-- The rounds depend on nothing but the bytes they pass over. -/
theorem rounds_congr
    {n : ℕ} (hsame : ∀ i, i < e.walkIn + n → mem i = mem' i) :
    rounds mem n e = rounds mem' n e := by
  induction n generalizing e with
  | zero => rfl
  | succ n ih =>
      have hround : e.round mem = e.round mem' := by
        unfold round
        rw [hsame e.walkIn (by omega)]
      rw [rounds, rounds, hround]
      split
      · apply ih
        intro i hi
        rw [walkIn_round] at hi
        exact hsame i (by omega)
      · rfl

end JsonEscaper

end GreaseLog
