import GreaseLog.CircularRuns

/-!
# Nobody sleeps for nothing

`add` and `removeOrBlock` signal each other with the mutex held, one signal for
each element, and a signal wakes one thread only.  That thread may find that
another call was faster.  The invariant counts the signals: as long as a thread
sleeps, every free cell (every element) has a thread that is awake for it.

`clear` gives cells back and signals nobody.
-/

namespace GreaseLog

/-- A thread that has woken up for a free cell and holds the mutex. -/
def RingPc.adder {α : Type*} : RingPc α → ℕ
  | .resumed (.add _) => 1
  | _ => 0

/-- The same for an element, up to where it is counted. -/
def RingPc.remover {α : Type*} : RingPc α → ℕ
  | .resumed .removeOrBlock | .grabbed _ | .stepped _ => 1
  | _ => 0

namespace CircularMonitor

variable {α : Type*}

def atMutex (s : CircularMonitor α) (f : RingPc α → ℕ) : ℕ :=
  s.localMutex.elim 0 fun t => f (s.pc t)

/-- The sleepers are the threads inside a wait, and enough of them are awake. -/
structure Watched (s : CircularMonitor α) : Prop where
  adders : ∀ t, t ∈ s.gtZeroCond.sleepers ↔ ∃ x, s.pc t = .waiting (.add x)
  removers : ∀ t, t ∈ s.decrementCond.sleepers ↔ s.pc t = .waiting .removeOrBlock
  addersOnce : s.gtZeroCond.sleepers.Nodup
  removersOnce : s.decrementCond.sleepers.Nodup
  room : s.gtZeroCond.Covers (s.atMutex RingPc.adder) s.ring.cnt
  elements : s.decrementCond.Covers (s.atMutex RingPc.remover) s.ring.remaining

variable {s : CircularMonitor α} {t : ℕ}

theorem Watched.adderAwake (h : s.Watched) (hlock : s.localMutex = some t) :
    s.gtZeroCond.Covers (s.pc t).adder s.ring.cnt := by
  have hroom := h.room
  rw [atMutex, hlock] at hroom
  exact hroom

theorem Watched.removerAwake (h : s.Watched) (hlock : s.localMutex = some t) :
    s.decrementCond.Covers (s.pc t).remover s.ring.remaining := by
  have helements := h.elements
  rw [atMutex, hlock] at helements
  exact helements

/-! ## The thread with the mutex -/

/-- A statement that neither begins nor ends a wait. -/
theorem Watched.goto (h : s.Watched) (hpc : ∀ c, s.pc t ≠ .waiting c)
    {q : SafeCircular α} {mutex : Option ℕ} {g d : CondVar}
    {returns : List (RingReturn α)} {p : RingPc α} (hp : ∀ c, p ≠ .waiting c)
    (hg : g.sleepers.Perm s.gtZeroCond.sleepers)
    (hd : d.sleepers.Perm s.decrementCond.sleepers)
    (hmutex : mutex = some t ∨ mutex = none ∧ p = .idle)
    (hroom : g.Covers p.adder q.cnt)
    (helements : d.Covers p.remover q.remaining) :
    (CircularMonitor.goto ⟨q, mutex, g, d, s.pc, returns⟩ t p).Watched where
  adders := by
    intro t'
    change t' ∈ g.sleepers ↔ _
    rw [hg.mem_iff, h.adders]
    by_cases heq : t' = t
    · subst heq
      simp [CircularMonitor.goto, hpc, hp]
    · simp [CircularMonitor.goto, heq]
  removers := by
    intro t'
    change t' ∈ d.sleepers ↔ _
    rw [hd.mem_iff, h.removers]
    by_cases heq : t' = t
    · subst heq
      simp [CircularMonitor.goto, hpc, hp]
    · simp [CircularMonitor.goto, heq]
  addersOnce := hg.nodup_iff.mpr h.addersOnce
  removersOnce := hd.nodup_iff.mpr h.removersOnce
  room := by
    rcases hmutex with rfl | ⟨rfl, rfl⟩
    · simpa [atMutex, CircularMonitor.goto] using hroom
    · exact hroom
  elements := by
    rcases hmutex with rfl | ⟨rfl, rfl⟩
    · simpa [atMutex, CircularMonitor.goto] using helements
    · exact helements

/-- A statement that leaves the count and the sleepers alone. -/
theorem Watched.still (h : s.Watched) (hlock : s.localMutex = some t)
    (hpc : ∀ c, s.pc t ≠ .waiting c) {q : SafeCircular α} {p : RingPc α}
    (hp : ∀ c, p ≠ .waiting c)
    (hcount : q.cnt = s.ring.cnt ∧ q.size = s.ring.size)
    (hadder : p.adder = (s.pc t).adder) (hremover : p.remover = (s.pc t).remover) :
    ({ s with ring := q }.goto t p).Watched := by
  refine h.goto hpc hp (List.Perm.refl _) (List.Perm.refl _) (Or.inl hlock) ?_ ?_
  · rw [hadder, hcount.1]
    exact h.adderAwake hlock
  · rw [hremover, SafeCircular.remaining, hcount.1, hcount.2]
    exact h.removerAwake hlock

/-- A cell is taken: for that a thread that had been woken is not needed any
more, and an element will be there for a remover. -/
theorem Watched.acquire (h : s.Watched) (hlock : s.localMutex = some t)
    (hpc : ∀ c, s.pc t ≠ .waiting c) (hremover : (s.pc t).remover = 0)
    (hroom : 1 ≤ s.ring.cnt) (c : RingCall α) (x : α) (pick : ℕ) :
    ((s.acquire pick).goto t (.acquired c x)).Watched := by
  have hadder : (s.pc t).adder ≤ 1 := by
    unfold RingPc.adder
    split <;> omega
  refine h.goto hpc (by simp) (List.Perm.refl _)
    (s.decrementCond.sleepers_signal pick) (Or.inl hlock) ?_ ?_
  · refine (h.adderAwake hlock).mono ?_
    change s.ring.cnt - 1 + (s.pc t).adder ≤ s.ring.cnt + 0
    omega
  · refine ((h.removerAwake hlock).signal pick).mono ?_
    rw [hremover]
    change s.ring.size - (s.ring.cnt - 1) + 0 ≤ s.ring.size - s.ring.cnt + 1 + 0
    omega

/-- A cell is given back. -/
theorem Watched.release (h : s.Watched) (hlock : s.localMutex = some t)
    (hpc : ∀ c, s.pc t ≠ .waiting c) (hadder : (s.pc t).adder = 0)
    (hsome : (s.pc t).remover ≤ s.ring.remaining) {p : RingPc α}
    (hp : ∀ c, p ≠ .waiting c) (hzero : p.adder = 0 ∧ p.remover = 0) (pick : ℕ) :
    ((s.releaseWithoutLock pick).goto t p).Watched := by
  have hremover : (s.pc t).remover ≤ 1 := by
    unfold RingPc.remover
    split <;> omega
  refine h.goto hpc hp (s.gtZeroCond.sleepers_signal pick) (List.Perm.refl _)
    (Or.inl hlock) ?_ ?_
  · refine ((h.adderAwake hlock).signal pick).mono ?_
    rw [hadder, hzero.1]
  · refine (h.removerAwake hlock).mono ?_
    rw [hzero.2]
    simp only [SafeCircular.remaining] at hsome ⊢
    omega

theorem Watched.waitForRoom (h : s.Watched) (hlock : s.localMutex = some t)
    (hpc : ∀ c, s.pc t ≠ .waiting c) (hremover : (s.pc t).remover = 0)
    (hfull : s.ring.cnt = 0) (x : α) : (s.waitForRoom t (.add x)).Watched where
  adders := by
    intro t'
    change t' ∈ (s.gtZeroCond.wait t).sleepers ↔ _
    rw [(s.gtZeroCond.sleepers_wait t).mem_iff, List.mem_cons, h.adders]
    by_cases heq : t' = t
    · subst heq
      simp [CircularMonitor.waitForRoom, CircularMonitor.goto]
    · simp [CircularMonitor.waitForRoom, CircularMonitor.goto, heq]
  removers := by
    intro t'
    change t' ∈ s.decrementCond.sleepers ↔ _
    rw [h.removers]
    by_cases heq : t' = t
    · subst heq
      simp [CircularMonitor.waitForRoom, CircularMonitor.goto, hpc]
    · simp [CircularMonitor.waitForRoom, CircularMonitor.goto, heq]
  addersOnce := by
    refine (s.gtZeroCond.sleepers_wait t).nodup_iff.mpr
      (List.nodup_cons.mpr ⟨fun hmem => ?_, h.addersOnce⟩)
    rcases (h.adders t).mp hmem with ⟨y, hy⟩
    exact hpc _ hy
  removersOnce := h.removersOnce
  room := by
    change (s.gtZeroCond.wait t).Covers 0 s.ring.cnt
    rw [hfull]
    exact CondVar.covers_zero _ _
  elements := by
    have helements := h.removerAwake hlock
    rw [hremover] at helements
    exact helements

theorem Watched.waitForAcquirers (h : s.Watched) (hlock : s.localMutex = some t)
    (hpc : ∀ c, s.pc t ≠ .waiting c) (hadder : (s.pc t).adder = 0)
    (hempty : s.ring.remaining = 0) :
    (s.waitForAcquirers t .removeOrBlock).Watched where
  adders := by
    intro t'
    change t' ∈ s.gtZeroCond.sleepers ↔ _
    rw [h.adders]
    by_cases heq : t' = t
    · subst heq
      simp [CircularMonitor.waitForAcquirers, CircularMonitor.goto, hpc]
    · simp [CircularMonitor.waitForAcquirers, CircularMonitor.goto, heq]
  removers := by
    intro t'
    change t' ∈ (s.decrementCond.wait t).sleepers ↔ _
    rw [(s.decrementCond.sleepers_wait t).mem_iff, List.mem_cons, h.removers]
    by_cases heq : t' = t
    · subst heq
      simp [CircularMonitor.waitForAcquirers, CircularMonitor.goto]
    · simp [CircularMonitor.waitForAcquirers, CircularMonitor.goto, heq]
  addersOnce := h.addersOnce
  removersOnce := by
    refine (s.decrementCond.sleepers_wait t).nodup_iff.mpr
      (List.nodup_cons.mpr ⟨fun hmem => ?_, h.removersOnce⟩)
    exact hpc _ ((h.removers t).mp hmem)
  room := by
    have hroom := h.adderAwake hlock
    rw [hadder] at hroom
    exact hroom
  elements := by
    change (s.decrementCond.wait t).Covers 0 s.ring.remaining
    rw [hempty]
    exact CondVar.covers_zero _ _

theorem Watched.wakeAdder (h : s.Watched) (i : ℕ) :
    ({ s with gtZeroCond := s.gtZeroCond.wake i } : CircularMonitor α).Watched := by
  have hperm := s.gtZeroCond.sleepers_wake i
  exact {
    adders := fun t => (hperm.mem_iff).trans (h.adders t)
    removers := h.removers
    addersOnce := hperm.nodup_iff.mpr h.addersOnce
    removersOnce := h.removersOnce
    room := h.room.wake i
    elements := h.elements }

theorem Watched.wakeRemover (h : s.Watched) (i : ℕ) :
    ({ s with decrementCond := s.decrementCond.wake i } :
      CircularMonitor α).Watched := by
  have hperm := s.decrementCond.sleepers_wake i
  exact {
    adders := h.adders
    removers := fun t => (hperm.mem_iff).trans (h.removers t)
    addersOnce := h.addersOnce
    removersOnce := hperm.nodup_iff.mpr h.removersOnce
    room := h.room
    elements := h.elements.wake i }

/-! ## Threads that sleep -/

/-- The thread has the mutex, or would get it if it asked. -/
def CanGoOn (s : CircularMonitor α) (t : ℕ) : Prop :=
  s.localMutex = some t ∨
    s.localMutex = none ∧
      ((∃ c, s.pc t = .locking c) ∨ t ∈ s.gtZeroCond.woken ∨
        t ∈ s.decrementCond.woken)

theorem asleep_of_stuck (hstuck : ∀ t, ¬s.CanGoOn t) :
    s.localMutex = none ∧ s.gtZeroCond.woken = [] ∧ s.decrementCond.woken = [] := by
  have hfree : s.localMutex = none := by
    cases hlock : s.localMutex with
    | none => rfl
    | some t => exact absurd (Or.inl hlock) (hstuck t)
  refine ⟨hfree, List.eq_nil_iff_forall_not_mem.mpr fun t ht => ?_,
    List.eq_nil_iff_forall_not_mem.mpr fun t ht => ?_⟩
  · exact hstuck t (Or.inr ⟨hfree, Or.inr (Or.inl ht)⟩)
  · exact hstuck t (Or.inr ⟨hfree, Or.inr (Or.inr ht)⟩)

section Objects

variable [Inhabited α]

/-! ## What each statement does to the sleepers -/

theorem Watched.enter (h : s.Watched) (hlock : s.localMutex = some t)
    {c : RingCall α} (hpc : s.pc t = .entered c)
    (hclear : c = .clear → s.gtZeroCond.asleep = []) (pick : ℕ) :
    (s.exec t pick).Watched := by
  have hawake : ∀ c, s.pc t ≠ .waiting c := by simp [hpc]
  have hadder : (s.pc t).adder = 0 := by rw [hpc]; rfl
  have hremover : (s.pc t).remover = 0 := by rw [hpc]; rfl
  cases c with
  | add x =>
      simp only [exec, hpc]
      split_ifs with hroom
      · exact h.acquire hlock hawake hremover hroom _ x pick
      · exact h.waitForRoom hlock hawake hremover (by omega) x
  | addIfRoom x =>
      simp only [exec, hpc]
      split_ifs with hroom
      · exact h.acquire hlock hawake hremover hroom _ x pick
      · exact h.still hlock hawake (by simp) ⟨rfl, rfl⟩ hadder.symm hremover.symm
  | remove =>
      simp only [exec, hpc]
      split_ifs with hsome
      · exact h.release hlock hawake hadder (by omega) (by simp) ⟨rfl, rfl⟩ pick
      · exact h.still hlock hawake (by simp) ⟨rfl, rfl⟩ hadder.symm hremover.symm
  | removeOrBlock =>
      simp only [exec, hpc]
      split_ifs with hsome
      · exact h.release hlock hawake hadder (by omega) (by simp) ⟨rfl, rfl⟩ pick
      · exact h.waitForAcquirers hlock hawake hadder (by omega)
  | remaining =>
      simp only [exec, hpc]
      exact h.still hlock hawake (by simp) ⟨rfl, rfl⟩ hadder.symm hremover.symm
  | clear =>
      simp only [exec, hpc]
      refine h.goto hawake (by simp) (List.Perm.refl _) (List.Perm.refl _)
        (Or.inl hlock) (CondVar.covers_of_asleep_nil (hclear rfl)) ?_
      have hempty : s.ring.clear.remaining = 0 := Nat.sub_self s.ring.size
      rw [hempty]
      exact CondVar.covers_zero _ _
  | unblockAllRemovers =>
      simp only [exec, hpc]
      refine h.goto hawake (by simp) (List.Perm.refl _)
        s.decrementCond.sleepers_broadcast (Or.inl hlock) ?_
        (CondVar.covers_of_asleep_nil rfl)
      have hroom := h.adderAwake hlock
      rw [hadder] at hroom
      exact hroom

theorem Watched.wakeUp (h : s.Watched) (hlock : s.localMutex = some t)
    {c : RingCall α} (hpc : s.pc t = .resumed c) (pick : ℕ) :
    (s.exec t pick).Watched := by
  have hawake : ∀ c, s.pc t ≠ .waiting c := by simp [hpc]
  cases c with
  | add x =>
      have hremover : (s.pc t).remover = 0 := by rw [hpc]; rfl
      simp only [exec, hpc]
      split_ifs with hroom
      · exact h.acquire hlock hawake hremover hroom _ x pick
      · exact h.waitForRoom hlock hawake hremover (by omega) x
  | removeOrBlock =>
      have hadder : (s.pc t).adder = 0 := by rw [hpc]; rfl
      have hremover : (s.pc t).remover = 1 := by rw [hpc]; rfl
      simp only [exec, hpc]
      split_ifs with hempty
      · refine h.goto hawake (by simp) (List.Perm.refl _) (List.Perm.refl _)
          (Or.inl hlock) ?_ ?_
        · have hroom := h.adderAwake hlock
          rw [hadder] at hroom
          exact hroom
        · rw [SafeCircular.remaining, Nat.sub_eq_zero_of_le hempty]
          exact CondVar.covers_zero _ _
      · exact h.still hlock hawake (by simp) ⟨rfl, rfl⟩ hadder.symm hremover.symm
  | addIfRoom x => simpa only [exec, hpc] using h
  | remove => simpa only [exec, hpc] using h
  | remaining => simpa only [exec, hpc] using h
  | clear => simpa only [exec, hpc] using h
  | unblockAllRemovers => simpa only [exec, hpc] using h

theorem Watched.exec {size : ℕ} {queue : BoundedFifo α} (h : s.Watched)
    (hserial : s.Serialized size queue) (hlock : s.localMutex = some t)
    (hclear : s.pc t = .entered .clear → s.gtZeroCond.asleep = []) (pick : ℕ) :
    (s.exec t pick).Watched := by
  have hmid := hserial.locked t hlock
  cases hpc : s.pc t with
  | idle => rw [hpc] at hmid; exact hmid.elim
  | locking c => rw [hpc] at hmid; exact hmid.elim
  | waiting c => rw [hpc] at hmid; exact hmid.elim
  | entered c =>
      exact h.enter hlock hpc (fun hc => hclear (by rw [hpc, hc])) pick
  | resumed c => exact h.wakeUp hlock hpc pick
  | acquired c x =>
      simp only [CircularMonitor.exec, hpc]
      exact h.still hlock (by simp [hpc]) (by simp) ⟨rfl, rfl⟩
        (by rw [hpc]; rfl) (by rw [hpc]; rfl)
  | advanced c x =>
      simp only [CircularMonitor.exec, hpc]
      exact h.still hlock (by simp [hpc]) (by simp) ⟨rfl, rfl⟩
        (by rw [hpc]; rfl) (by rw [hpc]; rfl)
  | released c r =>
      simp only [CircularMonitor.exec, hpc]
      exact h.still hlock (by simp [hpc]) (by simp) ⟨rfl, rfl⟩
        (by rw [hpc]; rfl) (by rw [hpc]; rfl)
  | fetched c r x =>
      simp only [CircularMonitor.exec, hpc]
      refine h.still hlock (by simp [hpc]) (by simp) ?_
        (by rw [hpc]; rfl) (by rw [hpc]; rfl)
      split_ifs <;> exact ⟨rfl, rfl⟩
  | grabbed x =>
      simp only [CircularMonitor.exec, hpc]
      refine h.still hlock (by simp [hpc]) (by simp) ?_
        (by rw [hpc]; rfl) (by rw [hpc]; rfl)
      split_ifs <;> exact ⟨rfl, rfl⟩
  | stepped x =>
      rw [hpc] at hmid
      rcases hmid with ⟨p, -, hsome, -, hq⟩
      have hremaining : s.ring.remaining = p.remaining := by rw [hq]; rfl
      simp only [CircularMonitor.exec, hpc]
      refine h.release hlock (by simp [hpc]) (by rw [hpc]; rfl) ?_ (by simp)
        ⟨rfl, rfl⟩ pick
      rw [hremaining, hpc]
      exact hsome
  | leaving c a =>
      simp only [CircularMonitor.exec, hpc]
      refine h.goto (by simp [hpc]) (by simp) (List.Perm.refl _)
        (List.Perm.refl _) (Or.inr ⟨rfl, rfl⟩) ?_ ?_
      · have hroom := h.adderAwake hlock
        rw [hpc] at hroom
        exact hroom
      · have helements := h.removerAwake hlock
        rw [hpc] at helements
        exact helements

/-! ## The other threads -/

theorem Watched.call {size : ℕ} {queue : BoundedFifo α} (h : s.Watched)
    (hserial : s.Serialized size queue) (hpc : s.pc t = .idle) (c : RingCall α) :
    (s.goto t (.locking c)).Watched := by
  have hmutex : s.localMutex ≠ some t := by
    intro hlock
    have hmid := hserial.locked t hlock
    rw [hpc] at hmid
    exact hmid
  have hsame : ∀ f, (s.goto t (.locking c)).atMutex f = s.atMutex f := by
    intro f
    change s.localMutex.elim 0 _ = s.localMutex.elim 0 _
    cases hlock : s.localMutex with
    | none => rfl
    | some t' =>
        have hne : t' ≠ t := fun heq => hmutex (heq ▸ hlock)
        simp [CircularMonitor.goto, hne]
  exact {
    adders := by
      intro t'
      change t' ∈ s.gtZeroCond.sleepers ↔ _
      rw [h.adders]
      by_cases heq : t' = t
      · subst heq
        simp [CircularMonitor.goto, hpc]
      · simp [CircularMonitor.goto, heq]
    removers := by
      intro t'
      change t' ∈ s.decrementCond.sleepers ↔ _
      rw [h.removers]
      by_cases heq : t' = t
      · subst heq
        simp [CircularMonitor.goto, hpc]
      · simp [CircularMonitor.goto, heq]
    addersOnce := h.addersOnce
    removersOnce := h.removersOnce
    room := by rw [hsame]; exact h.room
    elements := by rw [hsame]; exact h.elements }

theorem Watched.resumeAdder (h : s.Watched) (hfree : s.localMutex = none)
    (ht : t ∈ s.gtZeroCond.woken) (x : α) :
    ({ s with
      localMutex := some t
      gtZeroCond := s.gtZeroCond.resume t }.goto t (.resumed (.add x))).Watched := by
  have hperm := CondVar.sleepers_resume ht
  have hnodup := List.nodup_cons.mp (hperm.nodup_iff.mp h.addersOnce)
  have hpc := (h.adders t).mp (CondVar.mem_sleepers_of_woken ht)
  rcases hpc with ⟨y, hpc⟩
  have hroom := h.room
  have helements := h.elements
  rw [atMutex, hfree] at hroom helements
  exact {
    adders := by
      intro t'
      change t' ∈ (s.gtZeroCond.resume t).sleepers ↔ _
      by_cases heq : t' = t
      · subst heq
        simp [CircularMonitor.goto, hnodup.1]
      · have hmem := hperm.mem_iff (a := t')
        rw [h.adders, List.mem_cons] at hmem
        simp [CircularMonitor.goto, heq, hmem]
    removers := by
      intro t'
      change t' ∈ s.decrementCond.sleepers ↔ _
      rw [h.removers]
      by_cases heq : t' = t
      · subst heq
        simp [CircularMonitor.goto, hpc]
      · simp [CircularMonitor.goto, heq]
    addersOnce := hnodup.2
    removersOnce := h.removersOnce
    room := by
      simpa [atMutex, CircularMonitor.goto, RingPc.adder] using hroom.resume ht
    elements := by
      simpa [atMutex, CircularMonitor.goto, RingPc.remover] using helements }

theorem Watched.resumeRemover (h : s.Watched) (hfree : s.localMutex = none)
    (ht : t ∈ s.decrementCond.woken) :
    ({ s with
      localMutex := some t
      decrementCond := s.decrementCond.resume t }.goto t
        (.resumed .removeOrBlock)).Watched := by
  have hperm := CondVar.sleepers_resume ht
  have hnodup := List.nodup_cons.mp (hperm.nodup_iff.mp h.removersOnce)
  have hpc := (h.removers t).mp (CondVar.mem_sleepers_of_woken ht)
  have hroom := h.room
  have helements := h.elements
  rw [atMutex, hfree] at hroom helements
  exact {
    adders := by
      intro t'
      change t' ∈ s.gtZeroCond.sleepers ↔ _
      rw [h.adders]
      by_cases heq : t' = t
      · subst heq
        simp [CircularMonitor.goto, hpc]
      · simp [CircularMonitor.goto, heq]
    removers := by
      intro t'
      change t' ∈ (s.decrementCond.resume t).sleepers ↔ _
      by_cases heq : t' = t
      · subst heq
        simp [CircularMonitor.goto, hnodup.1]
      · have hmem := hperm.mem_iff (a := t')
        rw [h.removers, List.mem_cons] at hmem
        simp [CircularMonitor.goto, heq, hmem]
    addersOnce := h.addersOnce
    removersOnce := hnodup.2
    room := by
      simpa [atMutex, CircularMonitor.goto, RingPc.adder] using hroom
    elements := by
      simpa [atMutex, CircularMonitor.goto, RingPc.remover] using
        helements.resume ht }

theorem Watched.lock (h : s.Watched) (hfree : s.localMutex = none) (t : ℕ) :
    (s.lock t).Watched := by
  have hroom := h.room
  have helements := h.elements
  rw [atMutex, hfree] at hroom helements
  unfold CircularMonitor.lock
  split
  · rename_i c hpc
    exact h.goto (by simp [hpc]) (by simp) (List.Perm.refl _) (List.Perm.refl _)
      (Or.inl rfl) hroom helements
  · split_ifs with ht
    · exact h.resumeAdder hfree ht _
    · exact h
  · split_ifs with ht
    · exact h.resumeRemover hfree ht
    · exact h
  · exact h

/-! ## Runs -/

/-- `clear` is not called while a thread sleeps in `add`. -/
def ClearsAwake (s : CircularMonitor α) : RingAct α → Prop
  | .exec t _ => s.pc t = .entered .clear → s.gtZeroCond.asleep = []
  | _ => True

theorem Watched.step {size : ℕ} {queue : BoundedFifo α} (h : s.Watched)
    (hserial : s.Serialized size queue) {a : RingAct α} (ha : s.ClearsAwake a) :
    (s.step a).Watched := by
  cases a with
  | call t c =>
      simp only [CircularMonitor.step]
      split
      · rename_i hpc
        exact h.call hserial hpc c
      · exact h
  | lock t =>
      simp only [CircularMonitor.step]
      split_ifs with hfree
      · exact h.lock hfree t
      · exact h
  | exec t pick =>
      simp only [CircularMonitor.step]
      split_ifs with hlock
      · exact h.exec hserial hlock ha pick
      · exact h
  | wakeAdder i => exact h.wakeAdder i
  | wakeRemover i => exact h.wakeRemover i

theorem watched_start (size : ℕ) : (start size : CircularMonitor α).Watched where
  adders := fun t => by simp [start, CondVar.empty, CondVar.sleepers]
  removers := fun t => by simp [start, CondVar.empty, CondVar.sleepers]
  addersOnce := List.nodup_nil
  removersOnce := List.nodup_nil
  room := CondVar.covers_of_asleep_nil rfl
  elements := CondVar.covers_of_asleep_nil rfl

theorem watched_final {size : ℕ} (hsize : 0 < size) {acts : List (RingAct α)}
    (hclear : Run.Meets step ClearsAwake (start size : CircularMonitor α) acts) :
    (Run.final step (start size : CircularMonitor α) acts).Watched := by
  have hstep : ∀ (s : CircularMonitor α) (a : RingAct α),
      (s.Watched ∧ ∃ queue, s.Serialized size queue) → s.ClearsAwake a →
        (s.step a).Watched ∧ ∃ queue, (s.step a).Serialized size queue := by
    rintro s a ⟨hs, queue, hserial⟩ ha
    exact ⟨hs.step hserial ha, hserial.step a⟩
  exact (Run.final_invariant hstep
    ⟨watched_start size, _, serialized_start hsize⟩ hclear).1

/-- When no thread can go on, whoever is inside `add` waits at a full queue and
whoever is inside `removeOrBlock` waits at an empty one. -/
theorem ring_sleepers_must {size : ℕ} (hsize : 0 < size) (acts : List (RingAct α))
    (hclear : Run.Meets step ClearsAwake (start size : CircularMonitor α) acts)
    (hstuck : ∀ t,
      ¬(Run.final step (start size : CircularMonitor α) acts).CanGoOn t) :
    let s := Run.final step (start size : CircularMonitor α) acts
    let queue := (serveAll (BoundedFifo.empty size)
      (s.returns.map RingReturn.call)).2
    (∀ t x, s.pc t = .waiting (.add x) → ¬queue.hasRoom) ∧
      ∀ t, s.pc t = .waiting .removeOrBlock → queue.items = [] := by
  intro s queue
  have hwatched : s.Watched := watched_final hsize hclear
  rcases exists_serialized hsize acts with ⟨final, hserial⟩
  rcases asleep_of_stuck hstuck with ⟨hfree, hadders, hremovers⟩
  have hqueue : queue = final := congrArg Prod.snd hserial.served
  have hring : s.ring.Standing queue := hqueue ▸ hserial.free hfree
  have hroom := hwatched.room
  have helements := hwatched.elements
  rw [atMutex, hfree] at hroom helements
  refine ⟨fun t x hpc => ?_, fun t hpc => ?_⟩
  · have hmem := (hwatched.adders t).mpr ⟨x, hpc⟩
    rw [CondVar.sleepers, hadders, List.append_nil] at hmem
    have hcnt := hroom (List.ne_nil_of_mem hmem)
    rw [hadders] at hcnt
    rw [hring.hasRoom_iff]
    exact Nat.not_lt_of_le hcnt
  · have hmem := (hwatched.removers t).mpr hpc
    rw [CondVar.sleepers, hremovers, List.append_nil] at hmem
    have hremaining := helements (List.ne_nil_of_mem hmem)
    rw [hremovers] at hremaining
    rw [← List.length_eq_zero_iff, hring.length_items]
    exact Nat.le_zero.mp hremaining

end Objects

/-- Two threads add to a ring with one cell: the second one sleeps. -/
def addTwice : List (RingAct ℕ) :=
  [.call 0 (.add 5), .lock 0, .exec 0 0, .exec 0 0, .exec 0 0, .exec 0 0,
    .call 1 (.add 6), .lock 1, .exec 1 0]

theorem ring_sleepers_must_two :
    (∀ t, ¬(Run.final step (start 1 : CircularMonitor ℕ) addTwice).CanGoOn t) ∧
      (Run.final step (start 1 : CircularMonitor ℕ) addTwice).pc 1 =
        .waiting (.add 6) ∧
      ¬(serveAll (BoundedFifo.empty 1) ((Run.final step
        (start 1 : CircularMonitor ℕ) addTwice).returns.map
          RingReturn.call)).2.hasRoom := by
  have hstuck : ∀ t,
      ¬(Run.final step (start 1 : CircularMonitor ℕ) addTwice).CanGoOn t := by
    intro t hgo
    rcases hgo with hlock | ⟨-, ⟨c, hc⟩ | hwoken | hwoken⟩
    · cases hlock
    · rcases t with _ | _ | t <;> cases hc
    · cases hwoken
    · cases hwoken
  have hpc : (Run.final step (start 1 : CircularMonitor ℕ) addTwice).pc 1 =
      .waiting (.add 6) := rfl
  exact ⟨hstuck, hpc, (ring_sleepers_must (by decide) addTwice
    ⟨trivial, trivial, fun _ => rfl, fun _ => rfl, fun _ => rfl, fun _ => rfl,
      trivial, trivial, fun _ => rfl, trivial⟩ hstuck).1 1 6 hpc⟩

end CircularMonitor

end GreaseLog
