import Mathlib.Tactic
import Mathlib.Algebra.BigOperators.Group.Finset.Piecewise

/-!
# Open addressing

A table of `n` buckets is searched from the home bucket of a key in steps that
are coprime to `n`, so that a search can see every bucket.  A bucket is empty,
holds an entry, or is a marker left by a deletion: markers are passed over,
empty buckets end a search.  `Sound` says that every entry can be found, and
`contents` is the multiset of entries, whatever buckets they lie in.
-/

namespace OpenAddressing

inductive Cell (κ ν : Type*) where
  | empty
  | deleted
  | live (key : κ) (val : ν)

/-- How keys are probed for: the home bucket and the step of each key. -/
structure Layout (κ : Type*) where
  n : ℕ
  home : κ → ℕ
  inc : κ → ℕ
  home_lt : ∀ k, home k < n
  coprime : ∀ k, (inc k).Coprime n

variable {κ ν : Type*}

namespace Layout

variable (L : Layout κ)

/-- The bucket the `j`-th probe for a key looks at. -/
def path (k : κ) (j : ℕ) : ℕ :=
  (L.home k + j * L.inc k) % L.n

theorem n_pos (k : κ) : 0 < L.n :=
  Nat.zero_lt_of_lt (L.home_lt k)

theorem path_lt (k : κ) (j : ℕ) : L.path k j < L.n :=
  Nat.mod_lt _ (L.n_pos k)

@[simp] theorem path_zero (k : κ) : L.path k 0 = L.home k := by
  simp [path, Nat.mod_eq_of_lt (L.home_lt k)]

theorem path_succ (k : κ) (j : ℕ) :
    L.path k (j + 1) = (L.path k j + L.inc k) % L.n := by
  simp only [path, Nat.mod_add_mod]
  congr 1
  ring

theorem path_injOn (k : κ) {i j : ℕ} (hi : i < L.n) (hj : j < L.n)
    (heq : L.path k i = L.path k j) : i = j := by
  have hmul : i * L.inc k ≡ j * L.inc k [MOD L.n] :=
    Nat.ModEq.add_left_cancel' (L.home k) heq
  have hmod : i ≡ j [MOD L.n] :=
    Nat.ModEq.cancel_right_of_coprime (L.coprime k).symm hmul
  rwa [Nat.ModEq, Nat.mod_eq_of_lt hi, Nat.mod_eq_of_lt hj] at hmod

/-- Every bucket lies on the path of every key. -/
theorem exists_path (k : κ) {i : ℕ} (hi : i < L.n) :
    ∃ j < L.n, L.path k j = i := by
  have himage :
      (Finset.range L.n).image (L.path k) = Finset.range L.n := by
    apply Finset.eq_of_subset_of_card_le
    · intro b hb
      obtain ⟨j, -, rfl⟩ := Finset.mem_image.mp hb
      exact Finset.mem_range.mpr (L.path_lt k j)
    · rw [Finset.card_image_of_injOn]
      intro a ha b hb hab
      simp only [Finset.coe_range, Set.mem_Iio] at ha hb
      exact L.path_injOn k ha hb hab
  have hmem : i ∈ (Finset.range L.n).image (L.path k) := by
    rw [himage]
    exact Finset.mem_range.mpr hi
  obtain ⟨j, hj, hji⟩ := Finset.mem_image.mp hmem
  exact ⟨j, Finset.mem_range.mp hj, hji⟩

/-- A search that some bucket stops ends at a first stop, before it is back at
its home bucket. -/
theorem exists_first (k : κ) (stop : ℕ → Prop) (hstop : ∃ i < L.n, stop i) :
    ∃ j < L.n, stop (L.path k j) ∧ ∀ l < j, ¬stop (L.path k l) := by
  classical
  obtain ⟨i, hi, hs⟩ := hstop
  obtain ⟨j, hj, rfl⟩ := L.exists_path k hi
  have hex : ∃ j, stop (L.path k j) := ⟨j, hs⟩
  refine ⟨Nat.find hex, ?_, Nat.find_spec hex, fun l hl => Nat.find_min hex hl⟩
  exact lt_of_le_of_lt (Nat.find_min' hex hs) hj

end Layout

/-! ## Contents -/

namespace Cell

def entries : Cell κ ν → Multiset (κ × ν)
  | live k v => {(k, v)}
  | _ => 0

@[simp] theorem entries_empty : (empty : Cell κ ν).entries = 0 := rfl

@[simp] theorem entries_deleted : (deleted : Cell κ ν).entries = 0 := rfl

@[simp] theorem entries_live (k : κ) (v : ν) :
    (live k v).entries = {(k, v)} := rfl

theorem mem_entries {c : Cell κ ν} {k : κ} {v : ν} :
    (k, v) ∈ c.entries ↔ c = live k v := by
  cases c with
  | empty => simp
  | deleted => simp
  | live k' v' => simp [eq_comm]

end Cell

/-- How many buckets a cell takes from the empty ones. -/
def Cell.weight : Cell κ ν → ℕ
  | .empty => 0
  | _ => 1

/-- What the first `n` cells of a table amount to. -/
def tally {M : Type*} [AddCommMonoid M] (w : Cell κ ν → M) (n : ℕ)
    (t : ℕ → Cell κ ν) : M :=
  ∑ i ∈ Finset.range n, w (t i)

def contents (n : ℕ) (t : ℕ → Cell κ ν) : Multiset (κ × ν) :=
  tally Cell.entries n t

/-- The number of buckets that are not empty. -/
def occupied (n : ℕ) (t : ℕ → Cell κ ν) : ℕ :=
  tally Cell.weight n t

theorem tally_congr {M : Type*} [AddCommMonoid M] {w : Cell κ ν → M} {n : ℕ}
    {t u : ℕ → Cell κ ν} (heq : ∀ i < n, t i = u i) :
    tally w n t = tally w n u :=
  Finset.sum_congr rfl fun i hi => by rw [heq i (Finset.mem_range.mp hi)]

/-- A write to one bucket trades the old cell for the new one. -/
theorem tally_update {M : Type*} [AddCommMonoid M] (w : Cell κ ν → M)
    {n i : ℕ} (hi : i < n) (t : ℕ → Cell κ ν) (c : Cell κ ν) :
    tally w n (Function.update t i c) + w (t i) = tally w n t + w c := by
  have hmem : i ∈ Finset.range n := Finset.mem_range.mpr hi
  have hcomp :
      (fun j => w (Function.update t i c j)) =
        Function.update (fun j => w (t j)) i (w c) := by
    funext j
    by_cases hj : j = i
    · subst hj
      simp
    · simp [hj]
  have hsplit := Finset.add_sum_erase (Finset.range n) (fun j => w (t j)) hmem
  unfold tally
  rw [hcomp, Finset.sum_update_of_mem hmem, ← hsplit,
    Finset.sdiff_singleton_eq_erase]
  abel

theorem contents_update {n i : ℕ} (hi : i < n) (t : ℕ → Cell κ ν)
    (c : Cell κ ν) :
    contents n (Function.update t i c) + (t i).entries =
      contents n t + c.entries :=
  tally_update Cell.entries hi t c

theorem occupied_update {n i : ℕ} (hi : i < n) (t : ℕ → Cell κ ν)
    (c : Cell κ ν) :
    occupied n (Function.update t i c) + (t i).weight =
      occupied n t + c.weight :=
  tally_update Cell.weight hi t c

theorem mem_contents {n : ℕ} {t : ℕ → Cell κ ν} {k : κ} {v : ν} :
    (k, v) ∈ contents n t ↔ ∃ i < n, t i = .live k v := by
  simp [contents, tally, Multiset.mem_sum, Cell.mem_entries]

theorem contents_of_empty {n : ℕ} {t : ℕ → Cell κ ν}
    (hempty : ∀ i < n, t i = .empty) : contents n t = 0 := by
  unfold contents tally
  apply Finset.sum_eq_zero
  intro i hi
  rw [hempty i (Finset.mem_range.mp hi)]
  rfl

theorem occupied_of_empty {n : ℕ} {t : ℕ → Cell κ ν}
    (hempty : ∀ i < n, t i = .empty) : occupied n t = 0 := by
  unfold occupied tally
  apply Finset.sum_eq_zero
  intro i hi
  rw [hempty i (Finset.mem_range.mp hi)]
  rfl

theorem card_contents_le_occupied (n : ℕ) (t : ℕ → Cell κ ν) :
    (contents n t).card ≤ occupied n t := by
  unfold contents occupied tally
  rw [Multiset.card_sum]
  apply Finset.sum_le_sum
  intro i _
  cases t i <;> simp [Cell.weight]

theorem card_contents_le (n : ℕ) (t : ℕ → Cell κ ν) :
    (contents n t).card ≤ n := by
  unfold contents tally
  rw [Multiset.card_sum]
  calc
    ∑ i ∈ Finset.range n, (t i).entries.card ≤ ∑ _i ∈ Finset.range n, 1 := by
      apply Finset.sum_le_sum
      intro i _
      cases t i <;> simp
    _ = n := by simp

theorem exists_empty {n : ℕ} {t : ℕ → Cell κ ν} (hroom : occupied n t < n) :
    ∃ i < n, t i = .empty := by
  by_contra hnone
  have hall : occupied n t = ∑ _i ∈ Finset.range n, 1 := by
    unfold occupied tally
    apply Finset.sum_congr rfl
    intro i hi
    have hi' : t i ≠ .empty :=
      fun hcell => hnone ⟨i, Finset.mem_range.mp hi, hcell⟩
    cases hcell : t i with
    | empty => exact absurd hcell hi'
    | deleted => rfl
    | live k v => rfl
  simp at hall
  omega

/-- Without markers the occupied buckets are the ones with an entry. -/
theorem occupied_eq_card {n : ℕ} {t : ℕ → Cell κ ν}
    (hclean : ∀ i < n, t i ≠ .deleted) :
    occupied n t = (contents n t).card := by
  unfold contents occupied tally
  rw [Multiset.card_sum]
  apply Finset.sum_congr rfl
  intro i hi
  have hi' := hclean i (Finset.mem_range.mp hi)
  cases hcell : t i with
  | empty => rfl
  | deleted => exact absurd hcell hi'
  | live k v => rfl

/-! ## Soundness -/

/-- A search for `k` comes to bucket `i` without meeting an empty one. -/
def Reaches (L : Layout κ) (t : ℕ → Cell κ ν) (k : κ) (i : ℕ) : Prop :=
  ∃ j < L.n, L.path k j = i ∧ ∀ l < j, t (L.path k l) ≠ .empty

structure Sound (L : Layout κ) (t : ℕ → Cell κ ν) : Prop where
  reach : ∀ i < L.n, ∀ k v, t i = .live k v → Reaches L t k i
  nodup : ((contents L.n t).map Prod.fst).Nodup

/-- No two buckets hold the same key. -/
theorem Sound.eq_of_key {L : Layout κ} {t : ℕ → Cell κ ν} (hsound : Sound L t)
    {i j : ℕ} (hi : i < L.n) (hj : j < L.n) {k : κ} {v w : ν}
    (hik : t i = .live k v) (hjk : t j = .live k w) : i = j := by
  by_contra hne
  have hrest := contents_update hi t .deleted
  have hmem : (k, w) ∈ contents L.n (Function.update t i .deleted) := by
    refine mem_contents.mpr ⟨j, hj, ?_⟩
    rw [Function.update_of_ne (Ne.symm hne)]
    exact hjk
  have hnodup := hsound.nodup
  rw [hik, Cell.entries_live, Cell.entries_deleted, add_zero] at hrest
  rw [← hrest, Multiset.map_add, Multiset.map_singleton,
    Multiset.nodup_add] at hnodup
  have hkey : k ∈ (contents L.n (Function.update t i .deleted)).map Prod.fst :=
    Multiset.mem_map.mpr ⟨(k, w), hmem, rfl⟩
  exact Multiset.disjoint_left.mp hnodup.2.2 hkey (by simp)

theorem Sound.empty (L : Layout κ) {t : ℕ → Cell κ ν}
    (hempty : ∀ i < L.n, t i = .empty) : Sound L t := by
  have hzero := contents_of_empty hempty
  constructor
  · intro i hi k v hlive
    rw [hempty i hi] at hlive
    cases hlive
  · simp [hzero]

/-- Filling a bucket or leaving a marker in it cuts no search short. -/
theorem Reaches.update {L : Layout κ} {t : ℕ → Cell κ ν} {k : κ} {i b : ℕ}
    {c : Cell κ ν} (hreach : Reaches L t k i) (hc : c ≠ .empty) :
    Reaches L (Function.update t b c) k i := by
  obtain ⟨j, hj, hji, hbefore⟩ := hreach
  refine ⟨j, hj, hji, fun l hl => ?_⟩
  by_cases hb : L.path k l = b
  · rw [hb, Function.update_self]
    exact hc
  · rw [Function.update_of_ne hb]
    exact hbefore l hl

/-- An entry may be written to any bucket a search for its key comes to, as
long as the keys stay distinct. -/
theorem Sound.write {L : Layout κ} {t : ℕ → Cell κ ν} (hsound : Sound L t)
    {k : κ} {v : ν} {b : ℕ} (hreach : Reaches L t k b)
    (hnodup :
      ((contents L.n (Function.update t b (.live k v))).map Prod.fst).Nodup) :
    Sound L (Function.update t b (.live k v)) := by
  refine ⟨fun i hi k' v' hlive => ?_, hnodup⟩
  by_cases hib : i = b
  · subst hib
    rw [Function.update_self] at hlive
    cases hlive
    exact hreach.update (by simp)
  · rw [Function.update_of_ne hib] at hlive
    exact (hsound.reach i hi k' v' hlive).update (by simp)

/-- Leaving a marker in the place of an entry. -/
theorem Sound.mark {L : Layout κ} {t : ℕ → Cell κ ν} (hsound : Sound L t)
    {b : ℕ} (hb : b < L.n) : Sound L (Function.update t b .deleted) := by
  refine ⟨fun i hi k v hlive => ?_, ?_⟩
  · by_cases hib : i = b
    · subst hib
      rw [Function.update_self] at hlive
      cases hlive
    · rw [Function.update_of_ne hib] at hlive
      exact (hsound.reach i hi k v hlive).update (by simp)
  · have hrest := contents_update hb t .deleted
    have hle : contents L.n (Function.update t b .deleted) ≤ contents L.n t := by
      rw [Cell.entries_deleted, add_zero] at hrest
      exact hrest ▸ Multiset.le_add_right _ _
    exact Multiset.nodup_of_le (Multiset.map_le_map hle) hsound.nodup

/-! ## Searching -/

/-- A search for `k` ends at its `j`-th probe. -/
structure Ends (L : Layout κ) (t : ℕ → Cell κ ν) (k : κ) (j : ℕ) : Prop where
  lt : j < L.n
  stop : t (L.path k j) = .empty ∨ ∃ v, t (L.path k j) = .live k v
  before : ∀ l < j, t (L.path k l) ≠ .empty ∧ ∀ v, t (L.path k l) ≠ .live k v

theorem exists_ends (L : Layout κ) {t : ℕ → Cell κ ν}
    (hempty : ∃ i < L.n, t i = .empty) (k : κ) : ∃ j, Ends L t k j := by
  obtain ⟨i, hi, hcell⟩ := hempty
  obtain ⟨j, hj, hstop, hbefore⟩ :=
    L.exists_first k (fun b => t b = .empty ∨ ∃ v, t b = .live k v)
      ⟨i, hi, Or.inl hcell⟩
  exact ⟨j, hj, hstop, fun l hl => by simpa using hbefore l hl⟩

theorem Ends.reaches {L : Layout κ} {t : ℕ → Cell κ ν} {k : κ} {j l : ℕ}
    (hends : Ends L t k j) (hl : l ≤ j) : Reaches L t k (L.path k l) :=
  ⟨l, lt_of_le_of_lt hl hends.lt, rfl,
    fun m hm => (hends.before m (lt_of_lt_of_le hm hl)).1⟩

/-- A key that is in the table is found. -/
theorem Ends.of_mem {L : Layout κ} {t : ℕ → Cell κ ν} {k : κ} {v : ν} {j : ℕ}
    (hends : Ends L t k j) (hsound : Sound L t)
    (hmem : (k, v) ∈ contents L.n t) : t (L.path k j) = .live k v := by
  obtain ⟨i, hi, hlive⟩ := mem_contents.mp hmem
  obtain ⟨l, hl, hli, hbefore⟩ := hsound.reach i hi k v hlive
  subst hli
  have hlj : l = j := by
    rcases lt_trichotomy l j with hlt | heq | hgt
    · exact absurd hlive ((hends.before l hlt).2 v)
    · exact heq
    · rcases hends.stop with hstop | ⟨w, hstop⟩
      · exact absurd hstop (hbefore j hgt)
      · exact L.path_injOn k hl hends.lt
          (hsound.eq_of_key (L.path_lt k l) (L.path_lt k j) hlive hstop)
  rw [← hlj]
  exact hlive

/-- A search for a key that is not there ends at an empty bucket. -/
theorem Ends.of_not_mem {L : Layout κ} {t : ℕ → Cell κ ν} {k : κ} {j : ℕ}
    (hends : Ends L t k j) (hnot : ∀ v, (k, v) ∉ contents L.n t) :
    t (L.path k j) = .empty := by
  rcases hends.stop with hstop | ⟨v, hstop⟩
  · exact hstop
  · exact absurd (mem_contents.mpr ⟨_, L.path_lt k j, hstop⟩) (hnot v)

end OpenAddressing
