import Mathlib.Tactic

/-!
# Traces of lock operations

A call chain locks and unlocks mutexes.  The mutexes are not recursive: a chain
that locks a mutex it holds waits for itself.  `run` follows a trace with the
mutexes held so far and gives up where that happens.

A trace keeps to a lock order when it locks mutexes of growing rank only and
gives them all back.  Such traces never lock a mutex twice, and they can be put
together one after the other and inside each other.
-/

namespace LockTrace

variable {μ : Type*}

inductive Op (μ : Type*) where
  | lock (m : μ)
  | unlock (m : μ)
  deriving DecidableEq, Repr

/-- The body of a block which holds the mutex. -/
def synchronized (m : μ) (ops : List (Op μ)) : List (Op μ) :=
  .lock m :: (ops ++ [.unlock m])

variable [DecidableEq μ]

/-- What is held after the trace, or `none` if it locks what it holds. -/
def run (held : List μ) : List (Op μ) → Option (List μ)
  | [] => some held
  | .lock m :: ops => if m ∈ held then none else run (m :: held) ops
  | .unlock m :: ops => run (held.erase m) ops

/-- The trace locks a mutex that it is still holding. -/
def Relocks (ops : List (Op μ)) : Prop := run [] ops = none

instance (ops : List (Op μ)) : Decidable (Relocks ops) :=
  inferInstanceAs (Decidable (run [] ops = none))

theorem run_append (held : List μ) (ops more : List (Op μ)) :
    run held (ops ++ more) = (run held ops).bind fun held => run held more := by
  induction ops generalizing held with
  | nil => rfl
  | cons op ops ih =>
      cases op with
      | unlock m => exact ih (held.erase m)
      | lock m =>
          simp only [List.cons_append, run]
          split
          · rfl
          · exact ih (m :: held)

/-- A block that begins by locking its own mutex. -/
theorem run_synchronized_again
    (held : List μ) (m : μ) (ops more : List (Op μ)) :
    run held (synchronized m (synchronized m ops ++ more)) = none := by
  simp only [synchronized, List.cons_append, run]
  split
  · rfl
  · simp

/-! ## Lock orders -/

/-- Behind mutexes of lower rank the trace runs to its end and gives back what
it locks. -/
def Ranked (rank : μ → ℕ) (r : ℕ) (ops : List (Op μ)) : Prop :=
  ∀ held, (∀ m ∈ held, rank m < r) → run held ops = some held

variable {rank : μ → ℕ} {r r' : ℕ} {ops more : List (Op μ)}

theorem Ranked.nil : Ranked rank r [] := fun _ _ => rfl

theorem Ranked.append
    (h : Ranked rank r ops) (hmore : Ranked rank r more) :
    Ranked rank r (ops ++ more) := by
  intro held hheld
  rw [run_append, h held hheld]
  exact hmore held hheld

theorem Ranked.mono (h : Ranked rank r' ops) (hle : r ≤ r') :
    Ranked rank r ops :=
  fun held hheld => h held fun m hm => (hheld m hm).trans_le hle

theorem Ranked.synchronized
    {m : μ} (h : Ranked rank r' ops) (hm : rank m < r') (hr : r ≤ rank m) :
    Ranked rank r (synchronized m ops) := by
  intro held hheld
  have hfree : m ∉ held := fun hmem => absurd (hheld m hmem) (by omega)
  have hinner : run (m :: held) ops = some (m :: held) := by
    apply h
    intro k hk
    rcases List.mem_cons.mp hk with rfl | hk
    · exact hm
    · exact ((hheld k hk).trans_le hr).trans hm
  simp only [LockTrace.synchronized, run, hfree, if_false]
  rw [run_append, hinner]
  simp [run]

theorem Ranked.run_nil (h : Ranked rank r ops) : run [] ops = some [] :=
  h [] (by simp)

theorem Ranked.not_relocks (h : Ranked rank r ops) : ¬Relocks ops := by
  unfold Relocks
  rw [h.run_nil]
  exact Option.some_ne_none _

/-- Behind a trace that keeps to the order, the rest decides. -/
theorem Ranked.relocks_append_iff
    (h : Ranked rank r ops) : Relocks (ops ++ more) ↔ Relocks more := by
  unfold Relocks
  rw [run_append, h.run_nil]
  rfl

theorem Relocks.append (h : Relocks ops) (more : List (Op μ)) :
    Relocks (ops ++ more) := by
  unfold Relocks at h ⊢
  rw [run_append, h]
  rfl

end LockTrace
