import GreaseLog.CircularMonitor

/-!
# Calls of a shared ring take turns

Whatever the threads do and however their statements interleave, the calls
that have returned answer as if each of them had been made alone, on a bounded
queue and in the order of the returns.  A thread sleeps only as long as it has
to: when no thread can go on, whoever waits to add waits at a full queue, and
whoever waits to remove waits at an empty one.
-/

namespace SafeCircular

variable {α : Type*} [Inhabited α]

/-- The queue a ring stands for.  Other than `Represents`, this lets an empty
ring stand anywhere: a removal that had to wait does not reset it. -/
structure Standing (q : SafeCircular α) (queue : BoundedFifo α) : Prop where
  size_pos : 0 < q.size
  length_data : q.data.length = q.size
  cnt_le : q.cnt ≤ q.size
  nextOut_range : 0 ≤ q.nextOut ∧ q.nextOut < q.size
  follows : advance q.size q.reversed q.nextIn = q.cell q.remaining
  items : queue.items = q.toList
  capacity : queue.capacity = q.size

variable {q : SafeCircular α} {queue : BoundedFifo α}

theorem standing_new {size : ℕ} (hsize : 0 < size) :
    (new size : SafeCircular α).Standing (BoundedFifo.empty size) where
  size_pos := hsize
  length_data := List.length_replicate
  cnt_le := le_rfl
  nextOut_range := ⟨le_rfl, Int.natCast_pos.mpr hsize⟩
  follows := (valid_new hsize).advance_nextIn
  items := (toList_new size).symm
  capacity := rfl

namespace Standing

theorem length_items (h : q.Standing queue) :
    queue.items.length = q.remaining := by
  rw [h.items, length_toList]

theorem hasRoom_iff (h : q.Standing queue) : queue.hasRoom ↔ 1 ≤ q.cnt := by
  have hcnt := h.cnt_le
  have hpos := h.size_pos
  unfold BoundedFifo.hasRoom
  rw [h.length_items, h.capacity]
  unfold remaining
  omega

theorem toNat_cell_lt (h : q.Standing queue) (i : ℕ) :
    (q.cell i).toNat < q.data.length := by
  have hrange := walk_range h.size_pos q.reversed q.nextOut i
  rw [h.length_data]
  unfold cell
  omega

theorem toNat_cell_ne
    (h : q.Standing queue) {i j : ℕ} (hlt : i < j) (hj : j < q.size) :
    (q.cell j).toNat ≠ (q.cell i).toNat := by
  intro heq
  have hi := walk_range h.size_pos q.reversed q.nextOut i
  have hj' := walk_range h.size_pos q.reversed q.nextOut j
  have hsame : q.cell j = q.cell i := by
    unfold cell at heq ⊢
    omega
  have hindex := walk_inj ⟨by omega, by omega⟩ ⟨by omega, by omega⟩ hsame
  omega

theorem advance_cell (h : q.Standing queue) (i : ℕ) :
    advance q.size q.reversed (q.cell i) = q.cell (i + 1) := by
  have hrange := walk_range h.size_pos q.reversed q.nextOut i
  unfold cell
  rw [advance_eq_walk hrange.1 hrange.2, walk_walk]
  norm_cast

theorem cell_zero (h : q.Standing queue) : q.cell 0 = q.nextOut :=
  walk_zero h.nextOut_range.1 h.nextOut_range.2

/-! ## An element comes in -/

def stored (q : SafeCircular α) (x : α) : SafeCircular α :=
  let p := advance q.size q.reversed q.nextIn
  { q with cnt := q.cnt - 1, nextIn := p, data := q.data.set p.toNat x }

theorem toList_stored (h : q.Standing queue) (hroom : 1 ≤ q.cnt) (x : α) :
    (stored q x).toList = q.toList ++ [x] := by
  have hcnt := h.cnt_le
  have hremaining : (stored q x).remaining = q.remaining + 1 := by
    unfold stored remaining
    dsimp only
    omega
  have hdata : (stored q x).data = q.data.set (q.cell q.remaining).toNat x := by
    unfold stored
    rw [h.follows]
  have hcell : ∀ i, (stored q x).cell i = q.cell i := fun _ => rfl
  have hold : ∀ i ∈ List.range q.remaining,
      (stored q x).data.getD ((stored q x).cell i).toNat default =
        q.data.getD (q.cell i).toNat default := by
    intro i hi
    have hne := h.toNat_cell_ne (List.mem_range.mp hi)
      (by unfold remaining; omega)
    rw [hdata, hcell, List.getD_eq_getElem?_getD, List.getElem?_set_ne hne,
      List.getD_eq_getElem?_getD]
  have hnew : (stored q x).data.getD
      ((stored q x).cell q.remaining).toNat default = x := by
    rw [hdata, hcell, List.getD_eq_getElem?_getD,
      List.getElem?_set_self (h.toNat_cell_lt q.remaining), Option.getD_some]
  rw [toList, hremaining, List.range_succ, List.map_append, List.map_singleton,
    hnew, List.map_congr_left hold]
  rfl

theorem add (h : q.Standing queue) (hroom : 1 ≤ q.cnt) (x : α) :
    ∃ queue', queue.addIfRoom x = some queue' ∧
      (stored q x).Standing queue' := by
  have hcnt := h.cnt_le
  rcases BoundedFifo.addIfRoom_of_hasRoom (h.hasRoom_iff.mpr hroom) x with
    ⟨queue', hadd, hitems, hcapacity⟩
  have hremaining : (stored q x).remaining = q.remaining + 1 := by
    unfold stored remaining
    dsimp only
    omega
  refine ⟨queue', hadd, ?_⟩
  exact {
    size_pos := h.size_pos
    length_data := by
      unfold stored
      rw [List.length_set]
      exact h.length_data
    cnt_le := (Nat.sub_le _ _).trans hcnt
    nextOut_range := h.nextOut_range
    follows := by
      rw [hremaining]
      change advance q.size q.reversed (advance q.size q.reversed q.nextIn) =
        q.cell (q.remaining + 1)
      rw [h.follows, h.advance_cell]
    items := by rw [hitems, h.items, h.toList_stored hroom x]
    capacity := by rw [hcapacity, h.capacity]; rfl }

/-! ## An element goes out -/

def emptied (q : SafeCircular α) : SafeCircular α :=
  { q with
    cnt := q.cnt + 1
    nextOut := advance q.size q.reversed q.nextOut }

theorem cell_emptied (h : q.Standing queue) (i : ℕ) :
    (emptied q).cell i = q.cell (i + 1) := by
  unfold emptied cell
  dsimp only
  rw [advance_eq_walk h.nextOut_range.1 h.nextOut_range.2, walk_walk,
    Nat.cast_add, Nat.cast_one, add_comm]

theorem toList_cons (h : q.Standing queue) (hne : 0 < q.remaining) :
    q.toList = q.data.getD q.nextOut.toNat default :: (emptied q).toList := by
  have hcount : q.remaining = (emptied q).remaining + 1 := by
    unfold remaining at hne ⊢
    unfold emptied
    dsimp only
    omega
  rw [toList, hcount, List.range_succ_eq_map, List.map_cons, List.map_map,
    h.cell_zero, toList]
  congr 2
  funext i
  rw [h.cell_emptied]
  rfl

theorem remove_eq (h : q.Standing queue) (hne : 0 < q.remaining) :
    ∃ queue', queue.remove =
        some (q.data.getD q.nextOut.toNat default, queue') ∧
      queue'.items = (emptied q).toList ∧ queue'.capacity = q.size := by
  cases hremove : queue.remove with
  | none =>
      have hnil := BoundedFifo.remove_eq_none_iff.mp hremove
      have hlength := h.length_items
      rw [hnil, List.length_nil] at hlength
      omega
  | some taken =>
      rcases taken with ⟨y, queue'⟩
      rcases BoundedFifo.remove_eq_some hremove with ⟨hitems, hcapacity⟩
      rw [h.items, h.toList_cons hne, List.cons.injEq] at hitems
      exact ⟨queue', by rw [hitems.1], hitems.2.symm,
        by rw [hcapacity, h.capacity]⟩

/-- The removal that does not look whether it took the last element. -/
theorem removeBlocked (h : q.Standing queue) (hne : 0 < q.remaining) :
    ∃ queue', queue.remove =
        some (q.data.getD q.nextOut.toNat default, queue') ∧
      (emptied q).Standing queue' := by
  rcases h.remove_eq hne with ⟨queue', hremove, hitems, hcapacity⟩
  have hcount : q.remaining = (emptied q).remaining + 1 := by
    unfold remaining at hne ⊢
    unfold emptied
    dsimp only
    omega
  refine ⟨queue', hremove, ?_⟩
  exact {
    size_pos := h.size_pos
    length_data := h.length_data
    cnt_le := by
      unfold remaining at hne
      unfold emptied
      dsimp only
      omega
    nextOut_range := by
      have hrange := walk_range h.size_pos q.reversed q.nextOut 1
      rw [← advance_eq_walk h.nextOut_range.1 h.nextOut_range.2] at hrange
      exact hrange
    follows := by
      rw [h.cell_emptied, ← hcount]
      exact h.follows
    items := hitems
    capacity := hcapacity }

theorem remove (h : q.Standing queue) (hne : 0 < q.remaining) :
    ∃ queue', queue.remove =
        some (q.data.getD q.nextOut.toNat default, queue') ∧
      SafeCircular.Standing
        (if q.remaining = 1 then GreaseLog.CircularMonitor.resetRing (emptied q)
          else emptied q) queue' := by
  by_cases hlast : q.remaining = 1
  · rcases h.remove_eq hne with ⟨queue', hremove, hitems, hcapacity⟩
    have hempty : (emptied q).remaining = 0 := by
      unfold remaining at hlast ⊢
      unfold emptied
      dsimp only
      omega
    have hnil : (emptied q).toList = [] := by
      rw [← List.length_eq_zero_iff, length_toList, hempty]
    rw [if_pos hlast]
    refine ⟨queue', hremove, ?_⟩
    exact {
      size_pos := h.size_pos
      length_data := h.length_data
      cnt_le := by
        unfold remaining at hlast
        change q.cnt + 1 ≤ q.size
        omega
      nextOut_range := ⟨le_rfl, Int.natCast_pos.mpr h.size_pos⟩
      follows := by
        change advance q.size false (-1) =
          walk q.size false 0 (emptied q).remaining
        rw [hempty, Nat.cast_zero,
          walk_zero le_rfl (Int.natCast_pos.mpr h.size_pos)]
        have hpos := h.size_pos
        simp only [advance, Bool.false_eq_true, if_false]
        rw [if_neg (by omega)]
        rfl
      items := by
        rw [hitems, hnil, eq_comm, ← List.length_eq_zero_iff, length_toList]
        exact hempty
      capacity := hcapacity }
  · rw [if_neg hlast]
    exact h.removeBlocked hne

theorem remove_eq_none (h : q.Standing queue) (hempty : q.remaining = 0) :
    queue.remove = none := by
  apply BoundedFifo.remove_eq_none_iff.mpr
  rw [← List.length_eq_zero_iff, h.length_items, hempty]

end Standing

end SafeCircular

namespace GreaseLog.CircularMonitor

variable {α : Type*}

/-! ## The calls one by one -/

def serve (queue : BoundedFifo α) :
    RingCall α → RingAnswer α × BoundedFifo α
  | .add x | .addIfRoom x =>
      match queue.addIfRoom x with
      | some next => (.added true, next)
      | none => (.added false, queue)
  | .remove | .removeOrBlock =>
      match queue.remove with
      | some (x, next) => (.taken (some x), next)
      | none => (.taken none, queue)
  | .remaining => (.count queue.items.length, queue)
  | .clear => (.done, BoundedFifo.empty queue.capacity)
  | .unblockAllRemovers => (.done, queue)

def serveAll (queue : BoundedFifo α) :
    List (RingCall α) → List (RingAnswer α) × BoundedFifo α
  | [] => ([], queue)
  | c :: calls =>
      let first := serve queue c
      let rest := serveAll first.2 calls
      (first.1 :: rest.1, rest.2)

theorem serveAll_append (queue : BoundedFifo α) (calls : List (RingCall α))
    (c : RingCall α) :
    serveAll queue (calls ++ [c]) =
      ((serveAll queue calls).1 ++ [(serve (serveAll queue calls).2 c).1],
        (serve (serveAll queue calls).2 c).2) := by
  induction calls generalizing queue with
  | nil => rfl
  | cons first calls ih =>
      simp only [List.cons_append, serveAll]
      rw [ih]

def stored? (r : RingReturn α) : Option α :=
  match r.call, r.answer with
  | .add x, .added true => some x
  | .addIfRoom x, .added true => some x
  | _, _ => none

def taken? (r : RingReturn α) : Option α :=
  match r.answer with
  | .taken x => x
  | _ => none

/-- A call puts its element behind the others or takes the first one. -/
theorem serve_elements {queue : BoundedFifo α} {r : RingReturn α}
    (hanswer : (serve queue r.call).1 = r.answer) (hclear : r.call ≠ .clear) :
    queue.items ++ (stored? r).toList =
      (taken? r).toList ++ (serve queue r.call).2.items := by
  rcases r with ⟨t, c, a⟩
  dsimp only at hanswer hclear
  subst hanswer
  cases c with
  | add x =>
      cases hadd : queue.addIfRoom x with
      | none => simp [serve, stored?, taken?, hadd]
      | some next =>
          have hitems := (BoundedFifo.addIfRoom_eq_some hadd).2.1
          simp [serve, stored?, taken?, hadd, hitems]
  | addIfRoom x =>
      cases hadd : queue.addIfRoom x with
      | none => simp [serve, stored?, taken?, hadd]
      | some next =>
          have hitems := (BoundedFifo.addIfRoom_eq_some hadd).2.1
          simp [serve, stored?, taken?, hadd, hitems]
  | remove =>
      cases hremove : queue.remove with
      | none => simp [serve, stored?, taken?, hremove]
      | some taken =>
          have hitems := (BoundedFifo.remove_eq_some hremove).1
          simp [serve, stored?, taken?, hremove, hitems]
  | removeOrBlock =>
      cases hremove : queue.remove with
      | none => simp [serve, stored?, taken?, hremove]
      | some taken =>
          have hitems := (BoundedFifo.remove_eq_some hremove).1
          simp [serve, stored?, taken?, hremove, hitems]
  | remaining => simp [serve, stored?, taken?]
  | clear => exact absurd rfl hclear
  | unblockAllRemovers => simp [serve, stored?, taken?]

theorem serveAll_elements {queue queue' : BoundedFifo α}
    {returns : List (RingReturn α)}
    (hserved : serveAll queue (returns.map RingReturn.call) =
      (returns.map RingReturn.answer, queue'))
    (hclear : ∀ r ∈ returns, r.call ≠ .clear) :
    queue.items ++ returns.filterMap stored? =
      returns.filterMap taken? ++ queue'.items := by
  induction returns generalizing queue with
  | nil =>
      simp only [List.map_nil, serveAll, Prod.mk.injEq, true_and] at hserved
      simp [hserved]
  | cons r returns ih =>
      simp only [List.map_cons, serveAll, Prod.mk.injEq, List.cons.injEq]
        at hserved
      have hfirst := serve_elements hserved.1.1 (hclear r (by simp))
      have hrest := ih (Prod.ext hserved.1.2 hserved.2)
        fun r' hr' => hclear r' (List.mem_cons_of_mem _ hr')
      have hcons : ∀ f : RingReturn α → Option α,
          (r :: returns).filterMap f = (f r).toList ++ returns.filterMap f := by
        intro f
        cases hr : f r <;> simp [hr]
      rw [hcons, hcons, ← List.append_assoc, hfirst, List.append_assoc, hrest,
        List.append_assoc]

theorem serve_add_of_some {queue next : BoundedFifo α} {x : α}
    (hadd : queue.addIfRoom x = some next) {c : RingCall α}
    (hc : c = .add x ∨ c = .addIfRoom x) :
    serve queue c = (.added true, next) := by
  rcases hc with rfl | rfl <;> simp [serve, hadd]

theorem serve_remove_of_some {queue next : BoundedFifo α} {x : α}
    (hremove : queue.remove = some (x, next)) {c : RingCall α}
    (hc : c = .remove ∨ c = .removeOrBlock) :
    serve queue c = (.taken (some x), next) := by
  rcases hc with rfl | rfl <;> simp [serve, hremove]

section Objects

variable [Inhabited α]

open SafeCircular

/-- How far the thread with the mutex has got: `queue` is what the ring stood
for when it was locked. -/
def Midway (q : SafeCircular α) (queue : BoundedFifo α) : RingPc α → Prop
  | .entered _ | .resumed _ => q.Standing queue
  | .acquired c x =>
      (c = .add x ∨ c = .addIfRoom x) ∧ ∃ p : SafeCircular α,
        p.Standing queue ∧ 1 ≤ p.cnt ∧ q = { p with cnt := p.cnt - 1 }
  | .advanced c x =>
      (c = .add x ∨ c = .addIfRoom x) ∧ ∃ p : SafeCircular α,
        p.Standing queue ∧ 1 ≤ p.cnt ∧ q = { p with
          cnt := p.cnt - 1
          nextIn := advance p.size p.reversed p.nextIn }
  | .released c r =>
      (c = .remove ∨ c = .removeOrBlock) ∧ ∃ p : SafeCircular α,
        p.Standing queue ∧ 0 < p.remaining ∧ r = p.remaining ∧
          q = { p with cnt := p.cnt + 1 }
  | .fetched c r x =>
      (c = .remove ∨ c = .removeOrBlock) ∧ ∃ p : SafeCircular α,
        p.Standing queue ∧ 0 < p.remaining ∧ r = p.remaining ∧
          x = p.data.getD p.nextOut.toNat default ∧
          q = { p with cnt := p.cnt + 1 }
  | .grabbed x =>
      q.Standing queue ∧ 0 < q.remaining ∧
        x = q.data.getD q.nextOut.toNat default
  | .stepped x => ∃ p : SafeCircular α,
      p.Standing queue ∧ 0 < p.remaining ∧
        x = p.data.getD p.nextOut.toNat default ∧
        q = { p with nextOut := advance p.size p.reversed p.nextOut }
  | .leaving c a =>
      (serve queue c).1 = a ∧ q.Standing (serve queue c).2 ∧
        ∀ x, c = .add x → a = .added true
  | _ => False

/-- The returned calls have been served one by one, and the ring stands for
the queue they left behind, up to what the thread with the mutex has done. -/
structure Serialized (size : ℕ) (s : CircularMonitor α)
    (queue : BoundedFifo α) : Prop where
  served : serveAll (BoundedFifo.empty size) (s.returns.map RingReturn.call) =
    (s.returns.map RingReturn.answer, queue)
  stored : ∀ r ∈ s.returns, ∀ x, r.call = .add x → r.answer = .added true
  free : s.localMutex = none → s.ring.Standing queue
  locked : ∀ t, s.localMutex = some t → Midway s.ring queue (s.pc t)

variable {size : ℕ} {s s' : CircularMonitor α} {queue : BoundedFifo α} {t : ℕ}

/-- A statement of the thread with the mutex that does not give it away. -/
theorem Serialized.goto (h : s.Serialized size queue)
    (hlock : s.localMutex = some t) {q : SafeCircular α} {adders removers : CondVar}
    {p : RingPc α} (hmid : Midway q queue p) :
    ({ s with
      ring := q
      gtZeroCond := adders
      decrementCond := removers }.goto t p).Serialized size queue where
  served := h.served
  stored := h.stored
  free := by
    change s.localMutex = none → _
    rw [hlock]
    exact fun hnone => by simp at hnone
  locked := by
    change ∀ t', s.localMutex = some t' → _
    intro t' ht'
    rw [hlock, Option.some.injEq] at ht'
    subst ht'
    simpa [CircularMonitor.goto] using hmid

/-- The mutex is given away before anything has happened to the ring. -/
theorem Serialized.sleep (h : s.Serialized size queue)
    (hring : s.ring.Standing queue) {adders removers : CondVar} {p : RingPc α} :
    ({ s with
      localMutex := none
      gtZeroCond := adders
      decrementCond := removers }.goto t p).Serialized size queue where
  served := h.served
  stored := h.stored
  free := fun _ => hring
  locked := fun t' ht' => by simp [CircularMonitor.goto] at ht'

/-- The loop of a blocking `add`. -/
theorem Serialized.acquire (h : s.Serialized size queue)
    (hlock : s.localMutex = some t) (hring : s.ring.Standing queue)
    {c : RingCall α} {x : α} (hc : c = .add x ∨ c = .addIfRoom x)
    (hroom : 1 ≤ s.ring.cnt) (pick : ℕ) :
    ((s.acquire pick).goto t (.acquired c x)).Serialized size queue := by
  refine h.goto hlock ?_
  exact ⟨hc, s.ring, hring, hroom, rfl⟩

theorem Serialized.release (h : s.Serialized size queue)
    (hlock : s.localMutex = some t) (hring : s.ring.Standing queue)
    {c : RingCall α} (hc : c = .remove ∨ c = .removeOrBlock)
    (hsome : 0 < s.ring.remaining) (pick : ℕ) :
    ((s.releaseWithoutLock pick).goto t
      (.released c s.ring.remaining)).Serialized size queue := by
  refine h.goto hlock ?_
  exact ⟨hc, s.ring, hring, hsome, rfl, rfl⟩

/-- The first statement behind the lock. -/
theorem Serialized.enter (h : s.Serialized size queue)
    (hlock : s.localMutex = some t) {c : RingCall α}
    (hpc : s.pc t = .entered c) (pick : ℕ) :
    (s.exec t pick).Serialized size queue := by
  have hring : s.ring.Standing queue := by
    have hmid := h.locked t hlock
    rw [hpc] at hmid
    exact hmid
  cases c with
  | add x =>
      simp only [CircularMonitor.exec, hpc]
      split_ifs with hroom
      · exact h.acquire hlock hring (Or.inl rfl) hroom pick
      · exact h.sleep hring
  | addIfRoom x =>
      simp only [CircularMonitor.exec, hpc]
      split_ifs with hroom
      · exact h.acquire hlock hring (Or.inr rfl) hroom pick
      · have hfull : queue.addIfRoom x = none :=
          BoundedFifo.addIfRoom_eq_none_iff.mpr (mt hring.hasRoom_iff.mp hroom)
        refine h.goto hlock ?_
        simp only [Midway, serve, hfull]
        exact ⟨trivial, hring, fun y hy => by simp at hy⟩
  | remove =>
      simp only [CircularMonitor.exec, hpc]
      split_ifs with hsome
      · exact h.release hlock hring (Or.inl rfl) hsome pick
      · have hnone := hring.remove_eq_none (by omega)
        refine h.goto hlock ?_
        simp only [Midway, serve, hnone]
        exact ⟨trivial, hring, fun y hy => by simp at hy⟩
  | removeOrBlock =>
      simp only [CircularMonitor.exec, hpc]
      split_ifs with hsome
      · exact h.release hlock hring (Or.inr rfl) hsome pick
      · exact h.sleep hring
  | remaining =>
      simp only [CircularMonitor.exec, hpc]
      refine h.goto hlock ?_
      exact ⟨by rw [serve, hring.length_items], hring, fun y hy => by simp at hy⟩
  | clear =>
      simp only [CircularMonitor.exec, hpc]
      refine h.goto hlock ?_
      refine ⟨rfl, ?_, fun y hy => by simp at hy⟩
      rw [serve, hring.capacity]
      exact standing_new hring.size_pos
  | unblockAllRemovers =>
      simp only [CircularMonitor.exec, hpc]
      refine h.goto hlock ?_
      exact ⟨rfl, hring, fun y hy => by simp at hy⟩

theorem Serialized.wakeUp (h : s.Serialized size queue)
    (hlock : s.localMutex = some t) {c : RingCall α}
    (hpc : s.pc t = .resumed c) (pick : ℕ) :
    (s.exec t pick).Serialized size queue := by
  have hring : s.ring.Standing queue := by
    have hmid := h.locked t hlock
    rw [hpc] at hmid
    exact hmid
  cases c with
  | add x =>
      simp only [CircularMonitor.exec, hpc]
      split_ifs with hroom
      · exact h.acquire hlock hring (Or.inl rfl) hroom pick
      · exact h.sleep hring
  | removeOrBlock =>
      simp only [CircularMonitor.exec, hpc]
      split_ifs with hempty
      · have hnone := hring.remove_eq_none (Nat.sub_eq_zero_of_le hempty)
        refine h.goto hlock ?_
        simp only [Midway, serve, hnone]
        exact ⟨trivial, hring, fun y hy => by simp at hy⟩
      · refine h.goto hlock ?_
        exact ⟨hring, Nat.sub_pos_of_lt (Nat.lt_of_not_le hempty), rfl⟩
  | addIfRoom x => simpa only [CircularMonitor.exec, hpc] using h
  | remove => simpa only [CircularMonitor.exec, hpc] using h
  | remaining => simpa only [CircularMonitor.exec, hpc] using h
  | clear => simpa only [CircularMonitor.exec, hpc] using h
  | unblockAllRemovers => simpa only [CircularMonitor.exec, hpc] using h

/-- The call returns: it has been served behind all others. -/
theorem Serialized.unlock (h : s.Serialized size queue)
    (hlock : s.localMutex = some t) {c : RingCall α} {a : RingAnswer α}
    (hpc : s.pc t = .leaving c a) (pick : ℕ) :
    (s.exec t pick).Serialized size (serve queue c).2 := by
  have hmid := h.locked t hlock
  rw [hpc] at hmid
  rcases hmid with ⟨hanswer, hring, hadd⟩
  simp only [CircularMonitor.exec, hpc]
  exact {
    served := by
      change serveAll _ ((s.returns ++ [_]).map RingReturn.call) =
        ((s.returns ++ [_]).map RingReturn.answer, _)
      rw [List.map_append, List.map_append, List.map_singleton,
        List.map_singleton, serveAll_append, h.served, hanswer]
    stored := by
      intro r hr x hx
      rcases List.mem_append.mp hr with hold | hnew
      · exact h.stored r hold x hx
      · rw [List.mem_singleton] at hnew
        subst hnew
        exact hadd x hx
    free := fun _ => hring
    locked := fun t' ht' => by simp [CircularMonitor.goto] at ht' }

/-- One statement of the thread with the mutex. -/
theorem Serialized.exec (h : s.Serialized size queue)
    (hlock : s.localMutex = some t) (pick : ℕ) :
    ∃ queue', (s.exec t pick).Serialized size queue' := by
  have hmid := h.locked t hlock
  cases hpc : s.pc t with
  | idle => rw [hpc] at hmid; exact hmid.elim
  | locking c => rw [hpc] at hmid; exact hmid.elim
  | waiting c => rw [hpc] at hmid; exact hmid.elim
  | entered c => exact ⟨queue, h.enter hlock hpc pick⟩
  | resumed c => exact ⟨queue, h.wakeUp hlock hpc pick⟩
  | acquired c x =>
      rw [hpc] at hmid
      rcases hmid with ⟨hc, p, hp, hroom, hq⟩
      refine ⟨queue, ?_⟩
      simp only [CircularMonitor.exec, hpc]
      refine h.goto hlock ?_
      exact ⟨hc, p, hp, hroom, by simp [hq]⟩
  | advanced c x =>
      rw [hpc] at hmid
      rcases hmid with ⟨hc, p, hp, hroom, hq⟩
      rcases hp.add hroom x with ⟨next, hadd, hnext⟩
      refine ⟨queue, ?_⟩
      simp only [CircularMonitor.exec, hpc]
      refine h.goto hlock ?_
      simp only [Midway, serve_add_of_some hadd hc]
      refine ⟨trivial, ?_, fun _ _ => trivial⟩
      simpa [CircularMonitor.goto, hq, Standing.stored] using hnext
  | released c r =>
      rw [hpc] at hmid
      rcases hmid with ⟨hc, p, hp, hsome, hr, hq⟩
      refine ⟨queue, ?_⟩
      simp only [CircularMonitor.exec, hpc]
      refine h.goto hlock ?_
      exact ⟨hc, p, hp, hsome, hr, by rw [hq], hq⟩
  | fetched c r x =>
      rw [hpc] at hmid
      rcases hmid with ⟨hc, p, hp, hsome, hr, hx, hq⟩
      rcases hp.remove hsome with ⟨next, hremove, hnext⟩
      rw [← hx] at hremove
      refine ⟨queue, ?_⟩
      simp only [CircularMonitor.exec, hpc]
      refine h.goto hlock ?_
      simp only [Midway, serve_remove_of_some hremove hc]
      refine ⟨trivial, ?_, fun y hy => ?_⟩
      · simpa [CircularMonitor.goto, hq, hr, Standing.emptied] using hnext
      · rcases hc with rfl | rfl <;> simp at hy
  | grabbed x =>
      rw [hpc] at hmid
      rcases hmid with ⟨hring, hsome, hx⟩
      refine ⟨queue, ?_⟩
      simp only [CircularMonitor.exec, hpc]
      refine h.goto hlock ?_
      refine ⟨s.ring, hring, hsome, hx, ?_⟩
      have hne : s.ring.remaining ≠ 0 := by omega
      simp [hne]
  | stepped x =>
      rw [hpc] at hmid
      rcases hmid with ⟨p, hp, hsome, hx, hq⟩
      rcases hp.removeBlocked hsome with ⟨next, hremove, hnext⟩
      rw [← hx] at hremove
      refine ⟨queue, ?_⟩
      simp only [CircularMonitor.exec, hpc]
      refine h.goto hlock ?_
      simp only [Midway, serve_remove_of_some hremove (Or.inr rfl)]
      refine ⟨trivial, ?_, fun y hy => by simp at hy⟩
      simpa [CircularMonitor.goto, CircularMonitor.releaseWithoutLock, hq,
        Standing.emptied] using hnext
  | leaving c a => exact ⟨_, h.unlock hlock hpc pick⟩

theorem Serialized.call (h : s.Serialized size queue) (hpc : s.pc t = .idle)
    (c : RingCall α) : (s.goto t (.locking c)).Serialized size queue where
  served := h.served
  stored := h.stored
  free := h.free
  locked := by
    intro t' ht'
    have hmid := h.locked t' ht'
    have hne : t' ≠ t := by
      rintro rfl
      rw [hpc] at hmid
      exact hmid
    simpa [CircularMonitor.goto, hne] using hmid

theorem Serialized.take (h : s.Serialized size queue) {adders removers : CondVar} {p : RingPc α}
    (hmid : Midway s.ring queue p) :
    ({ s with
      localMutex := some t
      gtZeroCond := adders
      decrementCond := removers }.goto t p).Serialized size queue where
  served := h.served
  stored := h.stored
  free := fun hnone => by simp [CircularMonitor.goto] at hnone
  locked := by
    intro t' ht'
    have heq : t = t' := Option.some.inj ht'
    subst heq
    simpa [CircularMonitor.goto] using hmid

theorem Serialized.lock (h : s.Serialized size queue)
    (hfree : s.localMutex = none) (t : ℕ) :
    (s.lock t).Serialized size queue := by
  have hring := h.free hfree
  unfold CircularMonitor.lock
  split
  · exact h.take hring
  · split_ifs
    · exact h.take hring
    · exact h
  · split_ifs
    · exact h.take hring
    · exact h
  · exact h

theorem Serialized.step (h : s.Serialized size queue) (a : RingAct α) :
    ∃ queue', (s.step a).Serialized size queue' := by
  cases a with
  | call t c =>
      refine ⟨queue, ?_⟩
      simp only [CircularMonitor.step]
      split
      · rename_i hpc
        exact h.call hpc c
      · exact h
  | lock t =>
      refine ⟨queue, ?_⟩
      simp only [CircularMonitor.step]
      split_ifs with hfree
      · exact h.lock hfree t
      · exact h
  | exec t pick =>
      simp only [CircularMonitor.step]
      split_ifs with hlock
      · exact h.exec hlock pick
      · exact ⟨queue, h⟩
  | wakeAdder i => exact ⟨queue, h.served, h.stored, h.free, h.locked⟩
  | wakeRemover i => exact ⟨queue, h.served, h.stored, h.free, h.locked⟩

theorem serialized_start (hsize : 0 < size) :
    (start size : CircularMonitor α).Serialized size (BoundedFifo.empty size) where
  served := rfl
  stored := fun r hr => by simp [start] at hr
  free := fun _ => standing_new hsize
  locked := fun t ht => by simp [start] at ht

theorem exists_serialized (hsize : 0 < size) (acts : List (RingAct α)) :
    ∃ queue, (Run.final step (start size : CircularMonitor α) acts).Serialized
      size queue := by
  have hstep : ∀ (s : CircularMonitor α) (a : RingAct α),
      (∃ queue, s.Serialized size queue) →
        ∃ queue, (s.step a).Serialized size queue := by
    rintro s a ⟨queue, hs⟩
    exact hs.step a
  exact Run.final_preserves hstep acts ⟨_, serialized_start hsize⟩

/-- However the threads interleave, the calls that have returned answer as if
made one at a time in the order of their returns, and a blocking `add` always
has stored its element. -/
theorem ring_calls_take_turns (hsize : 0 < size) (acts : List (RingAct α)) :
    let s := Run.final step (start size : CircularMonitor α) acts
    ∃ queue, serveAll (BoundedFifo.empty size)
        (s.returns.map RingReturn.call) =
          (s.returns.map RingReturn.answer, queue) ∧
      (∀ r ∈ s.returns, ∀ x, r.call = .add x → r.answer = .added true) ∧
      (s.localMutex = none → s.ring.Standing queue) := by
  rcases exists_serialized hsize acts with ⟨queue, h⟩
  exact ⟨queue, h.served, h.stored, h.free⟩

/-- Between the calls of a run without `clear`, what has been taken out and
what the ring still has is what was put in, in the same order. -/
theorem ring_keeps_order (hsize : 0 < size) (acts : List (RingAct α))
    (hclear : ∀ r ∈ (Run.final step (start size : CircularMonitor α) acts).returns,
      r.call ≠ .clear)
    (hfree : (Run.final step (start size : CircularMonitor α) acts).localMutex =
      none) :
    let s := Run.final step (start size : CircularMonitor α) acts
    s.returns.filterMap taken? ++ s.ring.toList =
      s.returns.filterMap stored? := by
  intro s
  rcases exists_serialized hsize acts with ⟨queue, h⟩
  have helements := serveAll_elements h.served hclear
  rw [BoundedFifo.items_empty, List.nil_append, (h.free hfree).items] at helements
  exact helements.symm

end Objects

/-- One thread adds while another is between its lock and its removal. -/
def addAndRemove : List (RingAct ℕ) :=
  [.call 0 (.add 5), .call 1 .removeOrBlock, .lock 1, .exec 1 0, .lock 0,
    .exec 0 0, .exec 0 0, .exec 0 0, .exec 0 0, .lock 1, .exec 1 0, .exec 1 0,
    .exec 1 0, .exec 1 0]

theorem ring_calls_take_turns_two :
    ∃ queue, serveAll (BoundedFifo.empty 1) [.add 5, .removeOrBlock] =
        ([.added true, .taken (some 5)], queue) ∧
      SafeCircular.Standing (Run.final step (start 1 : CircularMonitor ℕ)
        addAndRemove).ring queue := by
  rcases ring_calls_take_turns Nat.one_pos addAndRemove with
    ⟨queue, hserved, -, hfree⟩
  exact ⟨queue, hserved, hfree rfl⟩

theorem ring_keeps_order_two :
    let s := Run.final step (start 1 : CircularMonitor ℕ) addAndRemove
    s.returns.filterMap taken? ++ s.ring.toList =
      s.returns.filterMap stored? := by
  refine ring_keeps_order (by decide) addAndRemove ?_ rfl
  intro r hr
  change r ∈ [RingReturn.mk 0 (.add 5) (.added true),
    RingReturn.mk 1 .removeOrBlock (.taken (some 5))] at hr
  rw [List.mem_cons, List.mem_singleton] at hr
  rcases hr with rfl | rfl <;> simp

end GreaseLog.CircularMonitor
