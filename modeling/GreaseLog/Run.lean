import Mathlib.Tactic

/-!
# Runs of a deterministic machine

A machine is a step function on states; a run is the list of acts it is given.
The rules below carry a property of states, or a relation between the state
and what the acts ask for, from single steps to whole runs.  `Meets` restricts
a run to acts that satisfy a condition on the state they start from.
-/

namespace Run

variable {σ α β : Type*} {step : σ → α → σ} {guard : σ → α → Prop}

def final (step : σ → α → σ) (s : σ) (acts : List α) : σ :=
  acts.foldl step s

@[simp] theorem final_nil (s : σ) : final step s [] = s := rfl

@[simp] theorem final_cons (s : σ) (a : α) (acts : List α) :
    final step s (a :: acts) = final step (step s a) acts := rfl

/-- Every act of the run meets the condition where it happens. -/
def Meets (step : σ → α → σ) (guard : σ → α → Prop) : σ → List α → Prop
  | _, [] => True
  | s, a :: acts => guard s a ∧ Meets step guard (step s a) acts

theorem final_append (s : σ) (acts more : List α) :
    final step s (acts ++ more) = final step (final step s acts) more :=
  List.foldl_append

theorem meets_append {s : σ} {acts more : List α} :
    Meets step guard s (acts ++ more) ↔
      Meets step guard s acts ∧ Meets step guard (final step s acts) more := by
  induction acts generalizing s with
  | nil => simp [Meets]
  | cons a acts ih => simp [Meets, ih, and_assoc]

theorem meets_congr {guard' : σ → α → Prop}
    (hguard : ∀ s a, guard s a ↔ guard' s a) {s : σ} {acts : List α} :
    Meets step guard s acts ↔ Meets step guard' s acts := by
  induction acts generalizing s with
  | nil => exact Iff.rfl
  | cons a acts ih => exact and_congr (hguard s a) ih

/-- A relation between states and emitted values which every step carries on
holds at the end of every run. -/
theorem final_relates
    {R : σ → List β → Prop} {emit : α → List β}
    (hstep : ∀ s a out, R s out → guard s a → R (step s a) (out ++ emit a))
    {s : σ} {out : List β} {acts : List α}
    (hstart : R s out) (hmeets : Meets step guard s acts) :
    R (final step s acts) (out ++ acts.flatMap emit) := by
  induction acts generalizing s out with
  | nil => simpa using hstart
  | cons a acts ih =>
      have hnext := ih (hstep s a out hstart hmeets.1) hmeets.2
      simpa [List.append_assoc] using hnext

/-- What every step preserves holds at the end of every run. -/
theorem final_invariant
    {I : σ → Prop}
    (hstep : ∀ s a, I s → guard s a → I (step s a))
    {s : σ} {acts : List α}
    (hstart : I s) (hmeets : Meets step guard s acts) :
    I (final step s acts) := by
  induction acts generalizing s with
  | nil => exact hstart
  | cons a acts ih => exact ih (hstep s a hstart hmeets.1) hmeets.2

/-- What follows from the invariant and the condition of a step holds at every
step of the run. -/
theorem meets_of_invariant
    {I : σ → Prop} {P : σ → α → Prop}
    (hstep : ∀ s a, I s → guard s a → I (step s a) ∧ P s a)
    {s : σ} {acts : List α}
    (hstart : I s) (hmeets : Meets step guard s acts) :
    Meets step P s acts := by
  induction acts generalizing s with
  | nil => trivial
  | cons a acts ih =>
      have hnext := hstep s a hstart hmeets.1
      exact ⟨hnext.2, ih hnext.1 hmeets.2⟩

/-- `final_invariant` for runs without a condition. -/
theorem final_preserves
    {I : σ → Prop} (hstep : ∀ s a, I s → I (step s a))
    {s : σ} (acts : List α) (hstart : I s) : I (final step s acts) := by
  induction acts generalizing s with
  | nil => exact hstart
  | cons a acts ih => exact ih (hstep s a hstart)

end Run
