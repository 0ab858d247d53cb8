import Mathlib.Data.List.Perm.Basic
import Mathlib.Data.List.Nodup
import Mathlib.Tactic

/-!
# Condition variables

The threads asleep at a condition variable, and those that were woken and have
not got the mutex back yet.  A signal wakes one sleeper, whichever the system
picks; a sleeper may also wake for no reason.

`Covers` is what rules out a lost signal: as long as somebody sleeps, there is
a woken thread for every unit of what the sleepers wait for.
-/

structure CondVar where
  asleep : List ℕ
  woken : List ℕ

namespace CondVar

def empty : CondVar := ⟨[], []⟩

def sleepers (c : CondVar) : List ℕ := c.asleep ++ c.woken

def wait (c : CondVar) (t : ℕ) : CondVar :=
  { c with asleep := c.asleep ++ [t] }

def wake (c : CondVar) (i : ℕ) : CondVar :=
  match c.asleep[i]? with
  | some t => ⟨c.asleep.eraseIdx i, c.woken ++ [t]⟩
  | none => c

def signal (c : CondVar) (pick : ℕ) : CondVar :=
  c.wake (pick % c.asleep.length)

def broadcast (c : CondVar) : CondVar := ⟨[], c.woken ++ c.asleep⟩

/-- A woken thread has the mutex again. -/
def resume (c : CondVar) (t : ℕ) : CondVar :=
  { c with woken := c.woken.erase t }

/-! ## Who is there -/

variable {c : CondVar} {t : ℕ}

theorem sleepers_wait (c : CondVar) (t : ℕ) :
    (c.wait t).sleepers.Perm (t :: c.sleepers) := by
  unfold sleepers wait
  rw [List.append_assoc]
  exact List.perm_middle

theorem sleepers_wake (c : CondVar) (i : ℕ) :
    (c.wake i).sleepers.Perm c.sleepers := by
  unfold wake
  split
  · rename_i t ht
    have hlt : i < c.asleep.length := by
      by_contra hge
      rw [List.getElem?_eq_none (by omega)] at ht
      simp at ht
    have hget : c.asleep[i] = t := by
      rw [List.getElem?_eq_getElem hlt] at ht
      exact Option.some.inj ht
    have hperm := List.getElem_cons_eraseIdx_perm hlt
    rw [hget] at hperm
    unfold sleepers
    have hfirst : (c.asleep.eraseIdx i ++ (c.woken ++ [t])).Perm
        (t :: (c.asleep.eraseIdx i ++ c.woken)) := by
      rw [← List.append_assoc]
      exact List.perm_append_singleton t _
    exact hfirst.trans (hperm.append_right c.woken)
  · exact List.Perm.refl _

theorem sleepers_signal (c : CondVar) (pick : ℕ) :
    (c.signal pick).sleepers.Perm c.sleepers :=
  c.sleepers_wake _

theorem sleepers_broadcast (c : CondVar) :
    c.broadcast.sleepers.Perm c.sleepers := by
  unfold sleepers broadcast
  rw [List.nil_append]
  exact List.perm_append_comm

theorem sleepers_resume (ht : t ∈ c.woken) :
    c.sleepers.Perm (t :: (c.resume t).sleepers) := by
  unfold sleepers resume
  have hwoken := List.perm_cons_erase ht
  exact (hwoken.append_left c.asleep).trans List.perm_middle

theorem mem_sleepers_of_woken (ht : t ∈ c.woken) : t ∈ c.sleepers :=
  List.mem_append_right _ ht

/-! ## No signal is lost -/

/-- While somebody sleeps, `n` units are matched by the woken threads and by
`k` more that are on their way. -/
def Covers (c : CondVar) (k n : ℕ) : Prop :=
  c.asleep ≠ [] → n ≤ c.woken.length + k

variable {k k' n n' : ℕ}

theorem Covers.mono (h : c.Covers k n) (hle : n' + k ≤ n + k') :
    c.Covers k' n' := by
  intro hasleep
  have hn := h hasleep
  omega

theorem covers_zero (c : CondVar) (k : ℕ) : c.Covers k 0 :=
  fun _ => Nat.zero_le _

theorem covers_of_asleep_nil (hnil : c.asleep = []) : c.Covers k n :=
  fun hasleep => absurd hnil hasleep

theorem Covers.wake (h : c.Covers k n) (i : ℕ) : (c.wake i).Covers k n := by
  unfold CondVar.wake
  split
  · intro hasleep
    have hn := h fun hnil => hasleep (by simp [hnil])
    simp only [List.length_append, List.length_singleton]
    omega
  · exact h

/-- A signal pays for one more unit. -/
theorem Covers.signal (h : c.Covers k n) (pick : ℕ) :
    (c.signal pick).Covers k (n + 1) := by
  intro hleft
  unfold CondVar.signal CondVar.wake at hleft ⊢
  split at hleft
  · rename_i t ht
    have hn := h fun hnil => by simp [hnil] at ht
    simp only [List.length_append, List.length_singleton]
    omega
  · rename_i hnone
    have hlength : 0 < c.asleep.length := List.length_pos_iff.mpr hleft
    have hlt := Nat.mod_lt pick hlength
    rw [List.getElem?_eq_none_iff] at hnone
    omega

theorem Covers.resume (h : c.Covers k n) (ht : t ∈ c.woken) :
    (c.resume t).Covers (k + 1) n := by
  intro hasleep
  have hn := h hasleep
  have hlength := List.length_erase_of_mem ht
  have hpos := List.length_pos_of_mem ht
  unfold CondVar.resume
  dsimp only
  omega

end CondVar
