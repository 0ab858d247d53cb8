import GreaseLog.KHashSearch

/-!
# Rehashing in place

The old and the new table share the arrays of keys and values.  What is left
in the old table, what is in the new one and the entry in hand are together
the entries the resize started with; a write to a bucket that the old table
still uses takes the entry of that bucket in hand, so that none is lost.
Every kick-out takes an entry from the old table, which bounds the loop.
-/

namespace GreaseLog

open OpenAddressing

variable {K V : Type} {hashFunc : K → UInt32}

namespace KhA

namespace Rehash

/-- The old table: the buckets it has not given up yet. -/
def oldCells (r : Rehash K V) : ℕ → Cell K V :=
  khCells r.flags r.keys r.vals

def newCells (r : Rehash K V) : ℕ → Cell K V :=
  khCells r.newFlags r.keys r.vals

end Rehash

/-- In the middle of a rehash from `n` to `2 ^ (m + 2)` buckets, with the
entries `hand` in hand. -/
structure Moving (hashFunc : K → UInt32) (n m : ℕ) (all : Multiset (K × V))
    (hand : Multiset (K × V)) (r : Rehash K V) : Prop where
  kept :
    contents n r.oldCells + contents (2 ^ (m + 2)) r.newCells + hand = all
  clean : ∀ i < 2 ^ (m + 2), acIsdel r.newFlags i = false
  sound : Sound (khLayout hashFunc m) r.newCells

/-- The entries to be moved: distinct keys, fewer than there will be buckets. -/
structure Movable (m : ℕ) (all : Multiset (K × V)) : Prop where
  nodup : (all.map Prod.fst).Nodup
  fits : all.card < 2 ^ (m + 2)

variable {n m : ℕ} {all hand : Multiset (K × V)} {r : Rehash K V}

theorem Moving.new_le (hmov : Moving hashFunc n m all hand r) :
    contents (2 ^ (m + 2)) r.newCells + hand ≤ all := by
  rw [← hmov.kept, add_assoc]
  exact Multiset.le_add_left _ _

theorem Moving.exists_first_empty (hmov : Moving hashFunc n m all hand r)
    (hall : Movable m all) (key : K) :
    ∃ j < 2 ^ (m + 2),
      r.newCells ((khLayout hashFunc m).path key j) = .empty ∧
        ∀ l < j, r.newCells ((khLayout hashFunc m).path key l) ≠ .empty := by
  have hclean : ∀ i < 2 ^ (m + 2), r.newCells i ≠ .deleted := by
    intro i hi hdel
    have hbit := (khCells_eq_deleted.mp hdel).2
    rw [hmov.clean i hi] at hbit
    cases hbit
  have hroom : occupied (2 ^ (m + 2)) r.newCells < 2 ^ (m + 2) := by
    rw [occupied_eq_card hclean]
    calc
      (contents (2 ^ (m + 2)) r.newCells).card ≤ all.card :=
        Multiset.card_le_card ((Multiset.le_add_right _ _).trans hmov.new_le)
      _ < 2 ^ (m + 2) := hall.fits
  exact (khLayout hashFunc m).exists_first key (fun i => r.newCells i = .empty)
    (exists_empty hroom)

theorem findEmpty_eq {key : K} {j : ℕ}
    (hempty : r.newCells ((khLayout hashFunc m).path key j) = .empty)
    (hbefore :
      ∀ l < j, r.newCells ((khLayout hashFunc m).path key l) ≠ .empty)
    (fuel l : ℕ) (hl : l ≤ j) (hfuel : j < l + fuel) :
    findEmpty r.newFlags ((khLayout hashFunc m).inc key) (2 ^ (m + 2) - 1) fuel
        ((khLayout hashFunc m).path key l) =
      some ((khLayout hashFunc m).path key j) := by
  induction fuel generalizing l with
  | zero => omega
  | succ fuel ih =>
      unfold findEmpty
      rcases Nat.eq_or_lt_of_le hl with rfl | hlt
      · rw [khCells_eq_empty.mp hempty]
        simp
      · have hfull := hbefore l hlt
        rw [Rehash.newCells, ne_eq, khCells_eq_empty, Bool.not_eq_true] at hfull
        rw [hfull, khLayout_next]
        simp only [Bool.not_false, if_true]
        exact ih (l + 1) hlt (by omega)

/-! ## Placing the entry in hand -/

/-- The new table gets the entry in hand, at the first empty bucket of its
search. -/
theorem Moving.newCells_place {key : K} {val : V} {j : ℕ}
    (hmov : Moving hashFunc n m all {(key, val)} r) (hall : Movable m all)
    (hempty : r.newCells ((khLayout hashFunc m).path key j) = .empty)
    (hj : j < 2 ^ (m + 2))
    (hbefore :
      ∀ l < j, r.newCells ((khLayout hashFunc m).path key l) ≠ .empty) :
    Sound (khLayout hashFunc m)
        (Function.update r.newCells ((khLayout hashFunc m).path key j)
          (.live key val)) ∧
      contents (2 ^ (m + 2))
          (Function.update r.newCells ((khLayout hashFunc m).path key j)
            (.live key val)) =
        contents (2 ^ (m + 2)) r.newCells + {(key, val)} := by
  have hcontents := contents_update ((khLayout hashFunc m).path_lt key j)
    r.newCells (.live key val)
  rw [hempty, Cell.entries_empty, add_zero, Cell.entries_live] at hcontents
  refine ⟨hmov.sound.write ⟨j, hj, rfl, hbefore⟩ ?_, hcontents⟩
  rw [hcontents]
  exact Multiset.nodup_of_le (Multiset.map_le_map hmov.new_le) hall.nodup

/-- The state after the entry in hand was written to bucket `i`. -/
def Rehash.write (r : Rehash K V) (flags : KhFlags) (i : ℕ) (key : K) (val : V) :
    Rehash K V where
  flags := flags
  newFlags := acSetIsemptyFalse r.newFlags i
  keys := Function.update r.keys i key
  vals := Function.update r.vals i val

theorem Moving.write {key : K} {val : V} {j : ℕ} {flags : KhFlags}
    (hmov : Moving hashFunc n m all {(key, val)} r) (hall : Movable m all)
    (hempty : r.newCells ((khLayout hashFunc m).path key j) = .empty)
    (hj : j < 2 ^ (m + 2))
    (hbefore :
      ∀ l < j, r.newCells ((khLayout hashFunc m).path key l) ≠ .empty)
    (hold :
      contents n (r.write flags ((khLayout hashFunc m).path key j) key
        val).oldCells + hand = contents n r.oldCells) :
    Moving hashFunc n m all hand
      (r.write flags ((khLayout hashFunc m).path key j) key val) := by
  obtain ⟨hsound, hcontents⟩ := hmov.newCells_place hall hempty hj hbefore
  have hi := (khLayout hashFunc m).path_lt key j
  have hcells :
      (r.write flags ((khLayout hashFunc m).path key j) key val).newCells =
        Function.update r.newCells ((khLayout hashFunc m).path key j)
          (.live key val) :=
    khCells_setIsemptyFalse (hmov.clean _ hi) r.keys r.vals key val
  constructor
  · rw [hcells, hcontents, ← hmov.kept, ← hold]
    abel
  · intro i hlt
    simpa [Rehash.write] using hmov.clean i hlt
  · rwa [hcells]

theorem oldCells_kick {i : ℕ} (hi : i < n) (hlive : acIseither r.flags i = false)
    (key : K) (val : V) :
    contents n (r.write (acSetIsdelTrue r.flags i) i key val).oldCells +
        {(r.keys i, r.vals i)} =
      contents n r.oldCells := by
  have hempty : acIsempty r.flags i = false := by
    rw [acIseither_eq, Bool.or_eq_false_iff] at hlive
    exact hlive.1
  have hcells :
      (r.write (acSetIsdelTrue r.flags i) i key val).oldCells =
        Function.update r.oldCells i .deleted :=
    khCells_setIsdelTrue hempty
      (fun j hj => Function.update_of_ne hj _ _)
      (fun j hj => Function.update_of_ne hj _ _)
  have hcell : r.oldCells i = .live (r.keys i) (r.vals i) :=
    khCells_eq_live.mpr ⟨hlive, rfl, rfl⟩
  have hcontents := contents_update hi r.oldCells .deleted
  rwa [hcell, Cell.entries_live, Cell.entries_deleted, add_zero,
    ← hcells] at hcontents

theorem oldCells_write {i : ℕ}
    (hdead : ¬(i < n ∧ acIseither r.flags i = false)) (key : K) (val : V) :
    contents n (r.write r.flags i key val).oldCells + 0 =
      contents n r.oldCells := by
  rw [add_zero]
  apply tally_congr
  intro b hb
  apply khCells_of_dead
  intro hlive
  have hne : b ≠ i := by
    rintro rfl
    exact hdead ⟨hb, hlive⟩
  exact ⟨Function.update_of_ne hne _ _, Function.update_of_ne hne _ _⟩

/-! ## The loops -/

/-- Buckets the old table has given up stay given up. -/
def GivesUp (r r' : Rehash K V) : Prop :=
  ∀ i, acIseither r.flags i = true → acIseither r'.flags i = true

theorem acIseither_setIsdelTrue {flags : KhFlags} {i j : ℕ}
    (heither : acIseither flags j = true) :
    acIseither (acSetIsdelTrue flags i) j = true := by
  rw [acIseither_eq, Bool.or_eq_true] at heither ⊢
  rcases heither with hempty | hdel
  · exact Or.inl (by simpa using hempty)
  · exact Or.inr (by simp [hdel])

theorem kickOut_spec (hall : Movable m all) (fuel : ℕ) (r : Rehash K V) (key : K)
    (val : V) (hmov : Moving hashFunc n m all {(key, val)} r)
    (hfuel : (contents n r.oldCells).card < fuel) :
    ∃ r', kickOut hashFunc n (2 ^ (m + 2)) fuel r key val = some r' ∧
      Moving hashFunc n m all 0 r' ∧ GivesUp r r' := by
  induction fuel generalizing r key val with
  | zero => omega
  | succ fuel ih =>
      obtain ⟨j, hj, hempty, hbefore⟩ := hmov.exists_first_empty hall key
      have hfind :
          findEmpty r.newFlags (acInc (hashFunc key).toNat (2 ^ (m + 2) - 1))
              (2 ^ (m + 2) - 1) (2 ^ (m + 2))
              ((hashFunc key).toNat &&& (2 ^ (m + 2) - 1)) =
            some ((khLayout hashFunc m).path key j) := by
        have hwalk := findEmpty_eq hempty hbefore (2 ^ (m + 2)) 0
          (Nat.zero_le j) (by omega)
        rw [Layout.path_zero] at hwalk
        exact hwalk
      unfold kickOut
      simp only [hfind, Option.bind_some]
      split_ifs with hkick
      · have hold := oldCells_kick hkick.1 hkick.2 key val
        have hnext := hmov.write hall hempty hj hbefore hold
        have hless := congrArg Multiset.card hold
        rw [Multiset.card_add, Multiset.card_singleton] at hless
        obtain ⟨r', hrun, hmov', hgives⟩ := ih _ _ _ hnext (by omega)
        exact ⟨r', hrun, hmov', fun i hi => hgives i (acIseither_setIsdelTrue hi)⟩
      · have hold := oldCells_write hkick key val
        exact ⟨_, rfl, hmov.write hall hempty hj hbefore hold, fun i hi => hi⟩

theorem rehashBucket_spec (hall : Movable m all) (r : Rehash K V)
    (hmov : Moving hashFunc n m all 0 r) {j : ℕ} (hj : j < n) :
    ∃ r', rehashBucket hashFunc n (2 ^ (m + 2)) r j = some r' ∧
      Moving hashFunc n m all 0 r' ∧ GivesUp r r' ∧
        acIseither r'.flags j = true := by
  unfold rehashBucket
  split_ifs with hlive
  · have hempty : acIsempty r.flags j = false := by
      rw [acIseither_eq, Bool.or_eq_false_iff] at hlive
      exact hlive.1
    have hcells :
        ({ r with flags := acSetIsdelTrue r.flags j } : Rehash K V).oldCells =
          Function.update r.oldCells j .deleted :=
      khCells_setIsdelTrue hempty (fun _ _ => rfl) (fun _ _ => rfl)
    have hcell : r.oldCells j = .live (r.keys j) (r.vals j) :=
      khCells_eq_live.mpr ⟨hlive, rfl, rfl⟩
    have hcontents := contents_update hj r.oldCells .deleted
    rw [hcell, Cell.entries_live, Cell.entries_deleted, add_zero,
      ← hcells] at hcontents
    have htake : Moving hashFunc n m all {(r.keys j, r.vals j)}
        { r with flags := acSetIsdelTrue r.flags j } := by
      refine ⟨?_, hmov.clean, hmov.sound⟩
      rw [← hmov.kept, ← hcontents]
      change _ + contents (2 ^ (m + 2)) r.newCells + _ = _
      abel
    have hcard := card_contents_le n
      ({ r with flags := acSetIsdelTrue r.flags j } : Rehash K V).oldCells
    obtain ⟨r', hrun, hmov', hgives⟩ :=
      kickOut_spec hall (n + 1) _ _ _ htake (by omega)
    refine ⟨r', hrun, hmov', fun i hi => hgives i (acIseither_setIsdelTrue hi), ?_⟩
    apply hgives
    rw [acIseither_eq]
    simp
  · exact ⟨r, rfl, hmov, fun i hi => hi, by simpa using hlive⟩

theorem rehash_spec (hall : Movable m all) (r : Rehash K V)
    (hmov : Moving hashFunc n m all 0 r) (d : ℕ) (hd : d ≤ n) :
    ∃ r', (List.range d).foldlM (rehashBucket hashFunc n (2 ^ (m + 2))) r =
        some r' ∧
      Moving hashFunc n m all 0 r' ∧
        ∀ j < d, acIseither r'.flags j = true := by
  induction d with
  | zero => exact ⟨r, rfl, hmov, by simp⟩
  | succ d ih =>
      obtain ⟨r₁, hrun, hmov₁, hdone⟩ := ih (by omega)
      obtain ⟨r₂, hstep, hmov₂, hgives, hlast⟩ :=
        rehashBucket_spec hall r₁ hmov₁ (show d < n by omega)
      refine ⟨r₂, ?_, hmov₂, fun j hj => ?_⟩
      · rw [List.range_succ, List.foldlM_append, hrun]
        simpa using hstep
      · rcases Nat.lt_succ_iff_lt_or_eq.mp hj with hlt | rfl
        · exact hgives j (hdone j hlt)
        · exact hlast

/-! ## Resizing -/

/-- The entries of a table, with or without buckets. -/
theorem Valid.nodup {h : KhA K V} (hok : Valid hashFunc h) :
    (h.entries.map Prod.fst).Nodup := by
  rcases hok with hun | ⟨m, hok⟩
  · simp [hun.entries_eq]
  · have hnodup := hok.sound.nodup
    rwa [show (khLayout hashFunc m).n = h.nBuckets from hok.buckets.symm]
      at hnodup

theorem Valid.size_eq {h : KhA K V} (hok : Valid hashFunc h) :
    h.size = h.entries.card := by
  rcases hok with hun | ⟨m, hok⟩
  · simp [hun.entries_eq, hun.size_eq]
  · exact hok.size_eq

/-- A resize to `2 ^ (m + 2)` buckets that is large enough for the entries
keeps them all, and leaves room for one more. -/
theorem khResize_spec {h : KhA K V} {x : ℕ} (hok : Valid hashFunc h)
    (hm : m ≤ 29)
    (hnew : (if kroundup32 x < 4 then 4 else kroundup32 x) = 2 ^ (m + 2))
    (hfits : h.size < hashUpper (2 ^ (m + 2))) :
    ∃ h', khResize hashFunc h x = some h' ∧ Allocated hashFunc h' m ∧
      h'.entries = h.entries ∧ h'.nOccupied < h'.upperBound := by
  have hsize := hok.size_eq
  have hupper := hashUpper_lt (four_le_buckets m)
  have hall : Movable m h.entries := ⟨hok.nodup, by omega⟩
  have hblank : ∀ i < 2 ^ (m + 2), ∀ b < 2,
      acBit (memsetFlags (fun _ => 0) (2 ^ (m + 2))) i b = decide (b = 1) :=
    fun i hi b hb => acBit_memset _ (flags_cover m) hi hb
  have hstart : Moving hashFunc h.nBuckets m h.entries 0
      { flags := h.flags
        newFlags := memsetFlags (fun _ => 0) (2 ^ (m + 2))
        keys := h.keys
        vals := h.vals } := by
    have hempty : ∀ i < 2 ^ (m + 2),
        khCells (memsetFlags (fun _ => 0) (2 ^ (m + 2))) h.keys h.vals i =
          .empty := by
      intro i hi
      rw [khCells_eq_empty, acIsempty_eq, hblank i hi 1 (by omega)]
      rfl
    refine ⟨?_, fun i hi => ?_, Sound.empty _ hempty⟩
    · have hzero := contents_of_empty hempty
      simp only [Rehash.newCells, hzero, add_zero]
      rfl
    · rw [acIsdel_eq, hblank i hi 0 (by omega)]
      rfl
  obtain ⟨r, hrun, hmov, hdone⟩ := rehash_spec hall _ hstart h.nBuckets le_rfl
  have hnone : contents h.nBuckets r.oldCells = 0 := by
    rw [Multiset.eq_zero_iff_forall_notMem]
    rintro ⟨k, v⟩ hmem
    obtain ⟨i, hi, hlive⟩ := mem_contents.mp hmem
    have hdead := hdone i hi
    rw [(khCells_eq_live.mp hlive).1] at hdead
    cases hdead
  have hkept := hmov.kept
  rw [hnone, zero_add, add_zero] at hkept
  have hclean : ∀ i < 2 ^ (m + 2), r.newCells i ≠ .deleted := by
    intro i hi hdel
    have hbit := (khCells_eq_deleted.mp hdel).2
    rw [hmov.clean i hi] at hbit
    cases hbit
  unfold khResize
  simp only [hnew]
  rw [if_neg (by omega), hrun]
  refine ⟨_, rfl, ?_, hkept, hfits⟩
  exact {
    small := hm
    buckets := rfl
    upper := rfl
    size_eq := by
      rw [hsize, ← hkept]
      rfl
    occupied_eq := by
      rw [hsize, ← hkept, ← occupied_eq_card hclean]
      rfl
    room := hfits.le
    sound := hmov.sound }

end KhA

end GreaseLog
