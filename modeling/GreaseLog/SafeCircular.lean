import GreaseLog.BoundedFifo

/-!
# Ring buffers which can be turned around

A ring of `size` cells, a semaphore with the number of free cells, the cell of
the last element that came in and the cell of the next one to go out.  Turning
the buffer around exchanges the two and lets both run the other way.

`toList` is what a reader of the buffer gets.  Each operation is described by
what it does to this list; a buffer that is not turned around behaves like a
`BoundedFifo`.
-/

structure SafeCircular (α : Type*) where
  size : ℕ
  cnt : ℕ
  nextIn : ℤ
  nextOut : ℤ
  reversed : Bool
  data : List α

namespace SafeCircular

variable {α : Type*}

def remaining (q : SafeCircular α) : ℕ := q.size - q.cnt

/-- `nextNextIn` and `nextNextOut`. -/
def advance (size : ℕ) (reversed : Bool) (p : ℤ) : ℤ :=
  if reversed then
    if p - 1 < 0 then size - 1 else p - 1
  else
    if size ≤ p + 1 then 0 else p + 1

/-- A full buffer makes the producer wait. -/
def addMv (q : SafeCircular α) (x : α) : Option (SafeCircular α) :=
  if q.cnt < 1 then none
  else
    let p := advance q.size q.reversed q.nextIn
    some { q with
      cnt := q.cnt - 1
      nextIn := p
      data := q.data.set p.toNat x }

def reverse (q : SafeCircular α) : SafeCircular α :=
  if q.remaining < 1 then q
  else
    { q with
      reversed := !q.reversed
      nextOut := q.nextIn
      nextIn := q.nextOut }

/-- The contents and the state of `other` replace those of the buffer. -/
def transferFrom (_ other : SafeCircular α) : SafeCircular α := other

section Objects

variable [Inhabited α]

def new (size : ℕ) : SafeCircular α where
  size := size
  cnt := size
  nextIn := -1
  nextOut := 0
  reversed := false
  data := List.replicate size default

def clear (q : SafeCircular α) : SafeCircular α := new q.size

/-- The last element to leave resets the buffer. -/
def removeMv (q : SafeCircular α) : Option (α × SafeCircular α) :=
  if q.remaining = 0 then none
  else
    let x := q.data.getD q.nextOut.toNat default
    let next := { q with
      cnt := q.cnt + 1
      nextOut := advance q.size q.reversed q.nextOut }
    some (x, if q.remaining = 1 then
      { next with nextIn := -1, nextOut := 0, reversed := false } else next)

end Objects

/-! ## Walking along the ring -/

def walk (size : ℕ) (reversed : Bool) (p : ℤ) (i : ℤ) : ℤ :=
  if reversed then (p - i) % size else (p + i) % size

section Walk

variable {size : ℕ} {reversed : Bool} {p i j : ℤ}

theorem walk_range (hsize : 0 < size) (reversed : Bool) (p i : ℤ) :
    0 ≤ walk size reversed p i ∧ walk size reversed p i < size := by
  have hpos : (0 : ℤ) < size := by exact_mod_cast hsize
  unfold walk
  split
  · exact ⟨Int.emod_nonneg _ hpos.ne', Int.emod_lt_of_pos _ hpos⟩
  · exact ⟨Int.emod_nonneg _ hpos.ne', Int.emod_lt_of_pos _ hpos⟩

theorem walk_zero (hlow : 0 ≤ p) (hhigh : p < size) :
    walk size reversed p 0 = p := by
  unfold walk
  split
  · rw [sub_zero]
    exact Int.emod_eq_of_lt hlow hhigh
  · rw [add_zero]
    exact Int.emod_eq_of_lt hlow hhigh

theorem advance_eq_walk (hlow : 0 ≤ p) (hhigh : p < size) :
    advance size reversed p = walk size reversed p 1 := by
  cases reversed with
  | true =>
      simp only [advance, walk, if_true]
      split
      · have hp : p = 0 := by omega
        rw [hp, ← Int.add_emod_right, Int.emod_eq_of_lt (by omega) (by omega)]
        omega
      · rw [Int.emod_eq_of_lt (by omega) (by omega)]
  | false =>
      simp only [advance, walk, Bool.false_eq_true, if_false]
      split
      · have hp : p + 1 = size := by omega
        rw [hp, Int.emod_self]
      · rw [Int.emod_eq_of_lt (by omega) (by omega)]

theorem walk_walk (p i j : ℤ) :
    walk size reversed (walk size reversed p i) j =
      walk size reversed p (i + j) := by
  cases reversed with
  | true =>
      simp only [walk, if_true]
      rw [Int.emod_sub_emod]
      congr 1
      ring
  | false =>
      simp only [walk, Bool.false_eq_true, if_false]
      rw [Int.emod_add_emod]
      congr 1
      ring

/-- The other way round. -/
theorem walk_not (size : ℕ) (reversed : Bool) (p i j : ℤ) :
    walk size (!reversed) (walk size reversed p i) j =
      walk size reversed p (i - j) := by
  cases reversed with
  | true =>
      simp only [walk, if_true, Bool.not_true, Bool.false_eq_true, if_false]
      rw [Int.emod_add_emod]
      congr 1
      ring
  | false =>
      simp only [walk, if_true, Bool.not_false, Bool.false_eq_true, if_false]
      rw [Int.emod_sub_emod]
      congr 1
      ring

/-- One round of the ring meets every cell once. -/
theorem walk_inj
    (hi : 0 ≤ i ∧ i < size) (hj : 0 ≤ j ∧ j < size)
    (heq : walk size reversed p i = walk size reversed p j) : i = j := by
  have hdvd : (size : ℤ) ∣ i - j := by
    cases reversed with
    | true =>
        simp only [walk, if_true] at heq
        have hzero := Int.emod_eq_emod_iff_emod_sub_eq_zero.mp heq.symm
        rw [show p - j - (p - i) = i - j by ring] at hzero
        exact Int.dvd_of_emod_eq_zero hzero
    | false =>
        simp only [walk, Bool.false_eq_true, if_false] at heq
        have hzero := Int.emod_eq_emod_iff_emod_sub_eq_zero.mp heq
        rw [show p + i - (p + j) = i - j by ring] at hzero
        exact Int.dvd_of_emod_eq_zero hzero
  have hsmall : |i - j| < size := by
    rw [abs_lt]
    omega
  have hzero := Int.eq_zero_of_abs_lt_dvd hdvd hsmall
  omega

end Walk

/-! ## The list of the elements -/

def cell (q : SafeCircular α) (i : ℕ) : ℤ :=
  walk q.size q.reversed q.nextOut i

/-- The elements lie between the two ends; an empty buffer is in the state it
was made in. -/
structure Valid (q : SafeCircular α) : Prop where
  size_pos : 0 < q.size
  length_data : q.data.length = q.size
  cnt_le : q.cnt ≤ q.size
  nextOut_range : 0 ≤ q.nextOut ∧ q.nextOut < q.size
  nextIn_eq : q.remaining ≠ 0 → q.nextIn = q.cell (q.remaining - 1)
  of_empty : q.remaining = 0 →
    q.nextIn = -1 ∧ q.nextOut = 0 ∧ q.reversed = false

variable {q next : SafeCircular α} {x : α}

theorem Valid.cell_range (h : q.Valid) (i : ℕ) :
    0 ≤ q.cell i ∧ q.cell i < q.size :=
  walk_range h.size_pos q.reversed q.nextOut i

theorem Valid.cell_zero (h : q.Valid) : q.cell 0 = q.nextOut :=
  walk_zero h.nextOut_range.1 h.nextOut_range.2

theorem Valid.toNat_cell_lt (h : q.Valid) (i : ℕ) :
    (q.cell i).toNat < q.data.length := by
  have hrange := h.cell_range i
  rw [h.length_data]
  omega

theorem Valid.toNat_cell_ne
    (h : q.Valid) {i j : ℕ} (hlt : i < j) (hj : j < q.size) :
    (q.cell j).toNat ≠ (q.cell i).toNat := by
  intro heq
  have hi := h.cell_range i
  have hj' := h.cell_range j
  have hsame : q.cell j = q.cell i := by omega
  have hindex := walk_inj ⟨by omega, by omega⟩ ⟨by omega, by omega⟩ hsame
  omega

/-- The next element goes behind the last one. -/
theorem Valid.advance_nextIn (h : q.Valid) :
    advance q.size q.reversed q.nextIn = q.cell q.remaining := by
  have hpos : (0 : ℤ) < q.size := by exact_mod_cast h.size_pos
  by_cases hempty : q.remaining = 0
  · rcases h.of_empty hempty with ⟨hin, hout, hreversed⟩
    rw [cell, hin, hout, hreversed, hempty, Nat.cast_zero,
      walk_zero le_rfl hpos]
    simp only [advance, Bool.false_eq_true, if_false]
    rw [if_neg (by omega)]
    rfl
  · have hin := h.nextIn_eq hempty
    have hrange := h.cell_range (q.remaining - 1)
    rw [hin, advance_eq_walk hrange.1 hrange.2, cell, walk_walk, cell]
    congr 1
    omega

variable [Inhabited α]

def toList (q : SafeCircular α) : List α :=
  (List.range q.remaining).map fun i => q.data.getD (q.cell i).toNat default

theorem length_toList (q : SafeCircular α) :
    q.toList.length = q.remaining := by
  simp [toList]

theorem valid_new {size : ℕ} (hsize : 0 < size) :
    (new size : SafeCircular α).Valid where
  size_pos := hsize
  length_data := List.length_replicate
  cnt_le := le_rfl
  nextOut_range := ⟨le_rfl, Int.natCast_pos.mpr hsize⟩
  nextIn_eq := fun hne => absurd (Nat.sub_self size) hne
  of_empty := fun _ => ⟨rfl, rfl, rfl⟩

theorem toList_new (size : ℕ) : (new size : SafeCircular α).toList = [] := by
  simp [toList, remaining, new]

theorem addMv_eq_none_iff (h : q.Valid) (x : α) :
    q.addMv x = none ↔ q.toList.length = q.size := by
  have hcnt := h.cnt_le
  have hpos := h.size_pos
  rw [length_toList, remaining]
  unfold addMv
  split
  · simp only [true_iff]
    omega
  · simp only [reduceCtorEq, false_iff]
    omega

theorem Valid.addMv (h : q.Valid) (hadd : q.addMv x = some next) :
    next.Valid ∧ next.toList = q.toList ++ [x] ∧ next.size = q.size := by
  unfold SafeCircular.addMv at hadd
  split at hadd
  · simp at hadd
  rename_i hroom
  have hcnt := h.cnt_le
  simp only [Option.some.injEq] at hadd
  rw [h.advance_nextIn] at hadd
  have hremaining : next.remaining = q.remaining + 1 := by
    subst hadd
    simp only [remaining]
    omega
  have hcell : ∀ i, next.cell i = q.cell i := by
    subst hadd
    exact fun _ => rfl
  refine ⟨⟨?_, ?_, ?_, ?_, ?_, ?_⟩, ?_, ?_⟩
  · subst hadd
    exact h.size_pos
  · subst hadd
    simpa using h.length_data
  · subst hadd
    dsimp only
    omega
  · subst hadd
    exact h.nextOut_range
  · intro _
    rw [hcell, hremaining, Nat.add_sub_cancel]
    subst hadd
    rfl
  · intro hempty
    omega
  · have hdata : next.data = q.data.set (q.cell q.remaining).toNat x := by
      rw [← hadd]
    have hold : ∀ i ∈ List.range q.remaining,
        next.data.getD (next.cell i).toNat default =
          q.data.getD (q.cell i).toNat default := by
      intro i hi
      have hne := h.toNat_cell_ne (List.mem_range.mp hi)
        (by unfold remaining; omega)
      rw [hdata, hcell, List.getD_eq_getElem?_getD, List.getElem?_set_ne hne,
        List.getD_eq_getElem?_getD]
    have hnew : next.data.getD (next.cell q.remaining).toNat default = x := by
      rw [hdata, hcell, List.getD_eq_getElem?_getD,
        List.getElem?_set_self (h.toNat_cell_lt q.remaining), Option.getD_some]
    rw [toList, hremaining, List.range_succ, List.map_append, List.map_singleton,
      hnew, List.map_congr_left hold]
    rfl
  · subst hadd
    rfl

theorem removeMv_eq_none_iff : q.removeMv = none ↔ q.toList = [] := by
  rw [← List.length_eq_zero_iff, length_toList]
  unfold removeMv
  split
  · rename_i hempty
    simp [hempty]
  · rename_i hne
    simp [hne]

theorem Valid.toList_cons (h : q.Valid) (hne : q.remaining ≠ 0) :
    q.toList = q.data.getD q.nextOut.toNat default ::
      (List.range (q.remaining - 1)).map fun i =>
        q.data.getD (q.cell (i + 1)).toNat default := by
  have hcount : q.remaining = q.remaining - 1 + 1 := by omega
  rw [toList, hcount, List.range_succ_eq_map, List.map_cons, List.map_map,
    h.cell_zero]
  rfl

theorem Valid.removeMv (h : q.Valid) (hremove : q.removeMv = some (x, next)) :
    next.Valid ∧ q.toList = x :: next.toList ∧ next.size = q.size := by
  unfold SafeCircular.removeMv at hremove
  split at hremove
  · simp at hremove
  rename_i hne
  have hcnt := h.cnt_le
  simp only [Option.some.injEq, Prod.mk.injEq] at hremove
  rcases hremove with ⟨hx, hnext⟩
  have hremaining : next.remaining + 1 = q.remaining := by
    subst hnext
    unfold remaining at hne ⊢
    split <;> dsimp only <;> omega
  have hhead := h.toList_cons hne
  rw [hx, ← hremaining, Nat.add_sub_cancel] at hhead
  by_cases hlast : q.remaining = 1
  · rw [if_pos hlast] at hnext
    have hempty : next.remaining = 0 := by omega
    rw [hhead, hempty]
    subst hnext
    refine ⟨⟨h.size_pos, h.length_data, ?_, ?_, ?_, ?_⟩, ?_, rfl⟩
    · unfold remaining at hlast
      dsimp only
      omega
    · exact ⟨le_rfl, Int.natCast_pos.mpr h.size_pos⟩
    · exact fun hrest => absurd hempty hrest
    · exact fun _ => ⟨rfl, rfl, rfl⟩
    · rw [toList, hempty]
      rfl
  · rw [if_neg hlast] at hnext
    have hcell : ∀ i, next.cell i = q.cell (i + 1) := by
      intro i
      subst hnext
      unfold cell
      dsimp only
      rw [advance_eq_walk h.nextOut_range.1 h.nextOut_range.2, walk_walk,
        Nat.cast_add, Nat.cast_one, add_comm]
    have hlist : q.toList = x :: next.toList := by
      rw [hhead, toList]
      congr 2
      funext i
      rw [hcell]
      subst hnext
      rfl
    have hin := h.nextIn_eq hne
    have hrange := walk_range h.size_pos q.reversed q.nextOut 1
    rw [← advance_eq_walk h.nextOut_range.1 h.nextOut_range.2] at hrange
    have hend : next.cell (next.remaining - 1) = q.cell (q.remaining - 1) := by
      rw [hcell]
      congr 1
      omega
    refine ⟨⟨?_, ?_, ?_, ?_, ?_, ?_⟩, hlist, ?_⟩
    · subst hnext
      exact h.size_pos
    · subst hnext
      exact h.length_data
    · subst hnext
      unfold remaining at hne
      dsimp only
      omega
    · subst hnext
      exact hrange
    · intro _
      rw [hend]
      subst hnext
      exact hin
    · intro hempty
      omega
    · subst hnext
      rfl

theorem Valid.reverse (h : q.Valid) :
    q.reverse.Valid ∧ q.reverse.toList = q.toList.reverse ∧
      q.reverse.size = q.size := by
  unfold SafeCircular.reverse
  split
  · rename_i hempty
    have hnil : q.toList = [] := by
      apply List.length_eq_zero_iff.mp
      rw [length_toList]
      omega
    refine ⟨h, ?_, rfl⟩
    rw [hnil]
    rfl
  · rename_i hne
    have hin := h.nextIn_eq (by omega)
    set turned : SafeCircular α := { q with
      reversed := !q.reversed
      nextOut := q.nextIn
      nextIn := q.nextOut } with hturned
    have hcell : ∀ i < q.remaining,
        turned.cell i = q.cell (q.remaining - 1 - i) := by
      intro i hi
      have hback := walk_not q.size q.reversed q.nextOut
        ((q.remaining - 1 : ℕ) : ℤ) i
      have hindex : ((q.remaining - 1 : ℕ) : ℤ) - i =
          ((q.remaining - 1 - i : ℕ) : ℤ) := by omega
      rw [hindex] at hback
      unfold cell at hin ⊢
      rw [← hback, ← hin]
    have hremaining : turned.remaining = q.remaining := rfl
    refine ⟨⟨h.size_pos, h.length_data, h.cnt_le, ?_, ?_, ?_⟩, ?_, rfl⟩
    · change 0 ≤ q.nextIn ∧ q.nextIn < q.size
      rw [hin]
      exact h.cell_range _
    · intro _
      rw [hremaining, hcell _ (by omega), Nat.sub_self]
      exact h.cell_zero.symm
    · intro hempty
      omega
    · apply List.ext_getElem
      · rw [List.length_reverse, length_toList, length_toList, hremaining]
      · intro i hleft hright
        rw [length_toList, hremaining] at hleft
        simp only [toList, List.getElem_reverse, List.getElem_map,
          List.getElem_range, List.length_map, List.length_range]
        rw [hcell i hleft]

/-! ## The bounded queue behind the ring -/

structure Represents (q : SafeCircular α) (queue : BoundedFifo α) : Prop where
  valid : q.Valid
  items : queue.items = q.toList
  capacity : queue.capacity = q.size

theorem Represents.addMv
    {queue : BoundedFifo α} (h : q.Represents queue) (x : α) :
    (q.addMv x = none ∧ queue.addIfRoom x = none) ∨
      ∃ next queue', q.addMv x = some next ∧
        queue.addIfRoom x = some queue' ∧ next.Represents queue' := by
  cases hadd : q.addMv x with
  | none =>
      have hfull := (addMv_eq_none_iff h.valid x).mp hadd
      refine Or.inl ⟨rfl, BoundedFifo.addIfRoom_eq_none_iff.mpr ?_⟩
      unfold BoundedFifo.hasRoom
      rw [h.items, h.capacity]
      omega
  | some next =>
      rcases h.valid.addMv hadd with ⟨hvalid, hlist, hsize⟩
      have hroom : queue.hasRoom := by
        have hle := queue.fits
        have hnotFull : q.toList.length ≠ q.size := by
          intro hfull
          rw [(addMv_eq_none_iff h.valid x).mpr hfull] at hadd
          simp at hadd
        unfold BoundedFifo.hasRoom
        rw [h.items, h.capacity] at hle ⊢
        omega
      rcases BoundedFifo.addIfRoom_of_hasRoom hroom x with
        ⟨queue', hqueue, hitems, hcapacity⟩
      refine Or.inr ⟨next, queue', rfl, hqueue, hvalid, ?_, ?_⟩
      · rw [hitems, h.items, hlist]
      · rw [hcapacity, h.capacity, hsize]

theorem Represents.removeMv
    {queue : BoundedFifo α} (h : q.Represents queue) :
    (q.removeMv = none ∧ queue.remove = none) ∨
      ∃ x next queue', q.removeMv = some (x, next) ∧
        queue.remove = some (x, queue') ∧ next.Represents queue' := by
  cases hremove : q.removeMv with
  | none =>
      have hnil := removeMv_eq_none_iff.mp hremove
      refine Or.inl ⟨rfl, BoundedFifo.remove_eq_none_iff.mpr ?_⟩
      rw [h.items, hnil]
  | some taken =>
      rcases taken with ⟨x, next⟩
      rcases h.valid.removeMv hremove with ⟨hvalid, hlist, hsize⟩
      cases hqueue : queue.remove with
      | none =>
          have hnil := BoundedFifo.remove_eq_none_iff.mp hqueue
          rw [h.items, hlist] at hnil
          simp at hnil
      | some taken' =>
          rcases taken' with ⟨y, queue'⟩
          rcases BoundedFifo.remove_eq_some hqueue with ⟨hitems, hcapacity⟩
          rw [h.items, hlist, List.cons.injEq] at hitems
          rcases hitems with ⟨rfl, hrest⟩
          refine Or.inr ⟨x, next, queue', rfl, rfl, hvalid, hrest.symm, ?_⟩
          rw [hcapacity, h.capacity, hsize]

end SafeCircular
