import GreaseLog.KHash
import Mathlib.Tactic

/-!
# Buckets as cells

The flag words are read as one cell for each bucket, and each write of the
table is an update of one cell.  The sizes the table takes are powers of two,
and the steps of its searches are odd, so that it is searched along a
`Layout`.
-/

namespace GreaseLog

open OpenAddressing

/-! ## Reading and writing flags -/

/-- One of the two bits of a bucket. -/
def acBit (flags : KhFlags) (i b : ℕ) : Bool :=
  (flags (i / 16)).getLsbD (2 * (i % 16) + b)

theorem flagWord (i : ℕ) : i >>> 4 = i / 16 := by
  rw [Nat.shiftRight_eq_div_pow]

theorem flagShift (i : ℕ) : (i &&& 0xf) <<< 1 = 2 * (i % 16) := by
  have hmask := Nat.and_two_pow_sub_one_eq_mod i 4
  norm_num at hmask
  rw [hmask, Nat.shiftLeft_eq]
  ring

theorem testBit_flagMask {m b : ℕ} (hm : m < 4) (hb : 2 ≤ b) :
    m.testBit b = false := by
  apply Nat.testBit_lt_two_pow
  calc
    m < 2 ^ 2 := hm
    _ ≤ 2 ^ b := Nat.pow_le_pow_right (by omega) hb

theorem and_flagMask_ne_zero (x : BitVec 32) {m : ℕ} (hm : m < 4) :
    ((x &&& BitVec.ofNat 32 m) != 0#32) =
      ((m.testBit 0 && x.getLsbD 0) || (m.testBit 1 && x.getLsbD 1)) := by
  rw [Bool.eq_iff_iff, bne_iff_ne, ne_eq, ← not_iff_not, not_not]
  constructor
  · intro hzero
    have h0 := congrArg (fun y => y.getLsbD 0) hzero
    have h1 := congrArg (fun y => y.getLsbD 1) hzero
    simp only [BitVec.getLsbD_and, BitVec.getLsbD_ofNat] at h0 h1
    simp [Bool.and_comm] at h0 h1 ⊢
    exact ⟨h0, h1⟩
  · intro hbits
    apply BitVec.eq_of_getLsbD_eq
    intro i hi
    simp only [BitVec.getLsbD_and, BitVec.getLsbD_ofNat, hi, decide_true,
      Bool.true_and]
    by_cases h2 : 2 ≤ i
    · simp [testBit_flagMask hm h2]
    · have hlow : i = 0 ∨ i = 1 := by omega
      rcases hlow with rfl | rfl
      · simp_all [Bool.and_comm]
      · simp_all [Bool.and_comm]

theorem acIsempty_eq (flags : KhFlags) (i : ℕ) :
    acIsempty flags i = acBit flags i 1 := by
  unfold acIsempty
  rw [and_flagMask_ne_zero _ (by omega), flagWord, flagShift]
  simp [acBit, Nat.testBit_succ]

theorem acIsdel_eq (flags : KhFlags) (i : ℕ) :
    acIsdel flags i = acBit flags i 0 := by
  unfold acIsdel
  rw [and_flagMask_ne_zero _ (by omega), flagWord, flagShift]
  simp [acBit, Nat.testBit_succ]

theorem acIseither_eq (flags : KhFlags) (i : ℕ) :
    acIseither flags i = (acIsempty flags i || acIsdel flags i) := by
  rw [acIsempty_eq, acIsdel_eq]
  unfold acIseither
  rw [and_flagMask_ne_zero _ (by omega), flagWord, flagShift]
  simp [acBit, Nat.testBit_succ, Bool.or_comm]

/-- The mask of a bucket has its bits at that bucket. -/
theorem getLsbD_shiftedMask {m : ℕ} (hm : m < 4) (i j : ℕ) {b : ℕ}
    (hb : b < 2) :
    (BitVec.ofNat 32 m <<< (2 * (i % 16))).getLsbD (2 * (j % 16) + b) =
      (decide (j % 16 = i % 16) && m.testBit b) := by
  have hlt : 2 * (j % 16) + b < 32 := by omega
  simp only [BitVec.getLsbD_shiftLeft, BitVec.getLsbD_ofNat, hlt, decide_true,
    Bool.true_and]
  by_cases hji : j % 16 = i % 16
  · have hsub : 2 * (i % 16) + b - 2 * (i % 16) = b := by omega
    have hb32 : b < 32 := by omega
    simp [hji, hsub, hb32]
  · by_cases hbelow : 2 * (j % 16) + b < 2 * (i % 16)
    · simp [hbelow, hji]
    · have habove : 2 ≤ 2 * (j % 16) + b - 2 * (i % 16) := by omega
      simp [hbelow, hji, testBit_flagMask hm habove]

/-- The bits of a bucket after its word was written with a function that acts
on each bit. -/
theorem acBit_update (flags : KhFlags) (i j b : ℕ) (w : BitVec 32) :
    acBit (Function.update flags (i / 16) w) j b =
      if j / 16 = i / 16 then w.getLsbD (2 * (j % 16) + b)
      else acBit flags j b := by
  unfold acBit
  by_cases hw : j / 16 = i / 16
  · rw [hw, Function.update_self, if_pos rfl]
  · rw [Function.update_of_ne hw, if_neg hw]

theorem decide_bucket {i j : ℕ} (hw : j / 16 = i / 16) :
    decide (j % 16 = i % 16) = decide (j = i) := by
  rw [decide_eq_decide]
  constructor
  · intro hmod
    omega
  · rintro rfl
    rfl

theorem acBit_clear (flags : KhFlags) {m : ℕ} (hm : m < 4) (i j : ℕ) {b : ℕ}
    (hb : b < 2) :
    acBit (Function.update flags (i >>> 4) (flags (i >>> 4) &&&
        ~~~(BitVec.ofNat 32 m <<< ((i &&& 0xf) <<< 1)))) j b =
      (acBit flags j b && !(decide (j = i) && m.testBit b)) := by
  rw [flagWord, flagShift, acBit_update]
  have hlt : 2 * (j % 16) + b < 32 := by omega
  by_cases hw : j / 16 = i / 16
  · rw [if_pos hw, BitVec.getLsbD_and, BitVec.getLsbD_not,
      getLsbD_shiftedMask hm i j hb, decide_bucket hw, acBit, hw]
    simp [hlt]
  · have hji : j ≠ i := by
      rintro rfl
      exact hw rfl
    simp [hw, hji]

theorem acBit_set (flags : KhFlags) {m : ℕ} (hm : m < 4) (i j : ℕ) {b : ℕ}
    (hb : b < 2) :
    acBit (Function.update flags (i >>> 4) (flags (i >>> 4) |||
        (BitVec.ofNat 32 m <<< ((i &&& 0xf) <<< 1)))) j b =
      (acBit flags j b || (decide (j = i) && m.testBit b)) := by
  rw [flagWord, flagShift, acBit_update]
  by_cases hw : j / 16 = i / 16
  · rw [if_pos hw, BitVec.getLsbD_or, getLsbD_shiftedMask hm i j hb,
      decide_bucket hw, acBit, hw]
  · have hji : j ≠ i := by
      rintro rfl
      exact hw rfl
    simp [hw, hji]

@[simp] theorem acIsempty_setIsdelTrue (flags : KhFlags) (i j : ℕ) :
    acIsempty (acSetIsdelTrue flags i) j = acIsempty flags j := by
  rw [acIsempty_eq, acIsempty_eq, acSetIsdelTrue, acBit_set flags (by omega) i j
    (by omega)]
  simp [Nat.testBit_succ]

@[simp] theorem acIsdel_setIsdelTrue (flags : KhFlags) (i j : ℕ) :
    acIsdel (acSetIsdelTrue flags i) j = (acIsdel flags j || decide (j = i)) := by
  rw [acIsdel_eq, acIsdel_eq, acSetIsdelTrue, acBit_set flags (by omega) i j
    (by omega)]
  simp

@[simp] theorem acIsempty_setIsemptyFalse (flags : KhFlags) (i j : ℕ) :
    acIsempty (acSetIsemptyFalse flags i) j =
      (acIsempty flags j && !decide (j = i)) := by
  rw [acIsempty_eq, acIsempty_eq, acSetIsemptyFalse,
    acBit_clear flags (by omega) i j (by omega)]
  simp [Nat.testBit_succ]

@[simp] theorem acIsdel_setIsemptyFalse (flags : KhFlags) (i j : ℕ) :
    acIsdel (acSetIsemptyFalse flags i) j = acIsdel flags j := by
  rw [acIsdel_eq, acIsdel_eq, acSetIsemptyFalse,
    acBit_clear flags (by omega) i j (by omega)]
  simp

@[simp] theorem acIsempty_setIsbothFalse (flags : KhFlags) (i j : ℕ) :
    acIsempty (acSetIsbothFalse flags i) j =
      (acIsempty flags j && !decide (j = i)) := by
  rw [acIsempty_eq, acIsempty_eq, acSetIsbothFalse,
    acBit_clear flags (by omega) i j (by omega)]
  simp [Nat.testBit_succ]

@[simp] theorem acIsdel_setIsbothFalse (flags : KhFlags) (i j : ℕ) :
    acIsdel (acSetIsbothFalse flags i) j =
      (acIsdel flags j && !decide (j = i)) := by
  rw [acIsdel_eq, acIsdel_eq, acSetIsbothFalse,
    acBit_clear flags (by omega) i j (by omega)]
  simp

theorem acBit_memset (flags : KhFlags) {n i b : ℕ} (hn : n < 16 ∨ 16 ∣ n)
    (hi : i < n) (hb : b < 2) :
    acBit (memsetFlags flags n) i b = decide (b = 1) := by
  have hword : i / 16 < acFsize n := by
    unfold acFsize
    split
    · omega
    · rw [flagWord]
      omega
  have hoffset : i % 16 < 16 := Nat.mod_lt _ (by omega)
  simp only [acBit, memsetFlags, hword, if_true]
  generalize i % 16 = o at hoffset
  interval_cases b <;> interval_cases o <;> rfl

/-! ## Cells -/

variable {K V : Type}

/-- What the flags make of a bucket. -/
def khCells (flags : KhFlags) (keys : ℕ → K) (vals : ℕ → V) (i : ℕ) :
    Cell K V :=
  if acIsempty flags i then .empty
  else if acIsdel flags i then .deleted
  else .live (keys i) (vals i)

theorem khCells_eq_empty {flags : KhFlags} {keys : ℕ → K} {vals : ℕ → V}
    {i : ℕ} : khCells flags keys vals i = .empty ↔ acIsempty flags i = true := by
  unfold khCells
  split_ifs <;> simp_all

theorem khCells_eq_deleted {flags : KhFlags} {keys : ℕ → K} {vals : ℕ → V}
    {i : ℕ} :
    khCells flags keys vals i = .deleted ↔
      acIsempty flags i = false ∧ acIsdel flags i = true := by
  unfold khCells
  split_ifs <;> simp_all

theorem khCells_eq_live {flags : KhFlags} {keys : ℕ → K} {vals : ℕ → V}
    {i : ℕ} {k : K} {v : V} :
    khCells flags keys vals i = .live k v ↔
      acIseither flags i = false ∧ keys i = k ∧ vals i = v := by
  rw [acIseither_eq]
  unfold khCells
  split_ifs <;> simp_all

/-- Marking a bucket deleted; what is in the arrays does not matter then. -/
theorem khCells_setIsdelTrue {flags : KhFlags} {keys keys' : ℕ → K}
    {vals vals' : ℕ → V} {i : ℕ} (hi : acIsempty flags i = false)
    (hkeys : ∀ j ≠ i, keys' j = keys j) (hvals : ∀ j ≠ i, vals' j = vals j) :
    khCells (acSetIsdelTrue flags i) keys' vals' =
      Function.update (khCells flags keys vals) i .deleted := by
  funext j
  by_cases hj : j = i
  · subst hj
    simp [khCells, hi]
  · simp [khCells, hj, hkeys j hj, hvals j hj]

theorem khCells_setIsbothFalse (flags : KhFlags) (keys : ℕ → K) (vals : ℕ → V)
    (i : ℕ) (k : K) :
    khCells (acSetIsbothFalse flags i) (Function.update keys i k) vals =
      Function.update (khCells flags keys vals) i (.live k (vals i)) := by
  funext j
  by_cases hj : j = i
  · subst hj
    simp [khCells]
  · simp [khCells, hj]

theorem khCells_setIsemptyFalse {flags : KhFlags} {i : ℕ}
    (hi : acIsdel flags i = false) (keys : ℕ → K) (vals : ℕ → V) (k : K)
    (v : V) :
    khCells (acSetIsemptyFalse flags i) (Function.update keys i k)
        (Function.update vals i v) =
      Function.update (khCells flags keys vals) i (.live k v) := by
  funext j
  by_cases hj : j = i
  · subst hj
    simp [khCells, hi]
  · simp [khCells, hj]

theorem khCells_updateVal {flags : KhFlags} {i : ℕ}
    (hi : acIseither flags i = false) (keys : ℕ → K) (vals : ℕ → V) (v : V) :
    khCells flags keys (Function.update vals i v) =
      Function.update (khCells flags keys vals) i (.live (keys i) v) := by
  rw [acIseither_eq, Bool.or_eq_false_iff] at hi
  funext j
  by_cases hj : j = i
  · subst hj
    simp [khCells, hi.1, hi.2]
  · simp [khCells, hj]

/-- The arrays may change where the flags say that there is nothing. -/
theorem khCells_of_dead {flags : KhFlags} {keys keys' : ℕ → K}
    {vals vals' : ℕ → V} {i : ℕ}
    (heq : acIseither flags i = false → keys' i = keys i ∧ vals' i = vals i) :
    khCells flags keys' vals' i = khCells flags keys vals i := by
  rw [acIseither_eq, Bool.or_eq_false_iff] at heq
  unfold khCells
  split_ifs with hempty hdel
  · rfl
  · rfl
  · simp [heq ⟨by simpa using hempty, by simpa using hdel⟩]

/-! ## Sizes and steps -/

/-- The bits of `x` end at bit `h`, and the last `s` up to there are set. -/
structure TopOnes (x h s : ℕ) : Prop where
  lt : x < 2 ^ (h + 1)
  ones : ∀ i, i ≤ h → h < i + s → x.testBit i = true

theorem TopOnes.double {x h s : ℕ} (htop : TopOnes x h s) :
    TopOnes (x ||| (x >>> s)) h (2 * s) := by
  constructor
  · exact Nat.or_lt_two_pow htop.lt
      (lt_of_le_of_lt (Nat.shiftRight_le x s) htop.lt)
  · intro i hi hs
    rw [Nat.testBit_or, Nat.testBit_shiftRight, Bool.or_eq_true]
    by_cases hnear : h < i + s
    · exact Or.inl (htop.ones i hi hnear)
    · exact Or.inr (htop.ones (s + i) (by omega) (by omega))

theorem TopOnes.eq {x h s : ℕ} (htop : TopOnes x h s) (hs : h < s) :
    x = 2 ^ (h + 1) - 1 := by
  apply Nat.eq_of_testBit_eq
  intro i
  rw [Nat.testBit_two_pow_sub_one]
  by_cases hi : i ≤ h
  · rw [htop.ones i hi (by omega)]
    simp
    omega
  · have hlt : x < 2 ^ i :=
      lt_of_lt_of_le htop.lt (Nat.pow_le_pow_right (by omega) (by omega))
    rw [Nat.testBit_lt_two_pow hlt]
    simp
    omega

theorem kroundup32_eq {x m : ℕ} (hlow : 2 ^ m < x) (hhigh : x ≤ 2 ^ (m + 1))
    (hm : m < 31) : kroundup32 x = 2 ^ (m + 1) := by
  have hpow : 2 ^ (m + 1) ≤ 2 ^ 31 :=
    Nat.pow_le_pow_right (by omega) (by omega)
  have hone : (1 : ℕ) ≤ 2 ^ m := Nat.one_le_two_pow
  have hdec : (x + (2 ^ 32 - 1)) % 2 ^ 32 = x - 1 := by omega
  have htop : TopOnes (x - 1) m 1 := by
    refine ⟨by omega, fun i hi hs => ?_⟩
    have him : i = m := by omega
    subst him
    have hdiv : (x - 1) / 2 ^ i = 1 := by
      apply Nat.div_eq_of_lt_le
      · omega
      · rw [pow_succ] at hhigh
        omega
    rw [Nat.testBit, Nat.shiftRight_eq_div_pow, hdiv]
    rfl
  -- the five shifts set thirty-two bits, more than a number below `2 ^ 31` has
  have hfill := htop.double.double.double.double.double.eq (by omega)
  unfold kroundup32
  simp only [hdec]
  norm_num at hfill ⊢
  rw [hfill]
  omega

theorem acInc_odd (k : ℕ) {m : ℕ} (hm : 1 ≤ m) :
    acInc k (2 ^ m - 1) % 2 = 1 := by
  unfold acInc
  rw [Nat.and_two_pow_sub_one_eq_mod,
    Nat.mod_mod_of_dvd _ (dvd_pow_self 2 (by omega))]
  simp

/-- The searches of a table of `2 ^ (m + 2)` buckets. -/
def khLayout (hashFunc : K → UInt32) (m : ℕ) : Layout K where
  n := 2 ^ (m + 2)
  home key := (hashFunc key).toNat &&& (2 ^ (m + 2) - 1)
  inc key := acInc (hashFunc key).toNat (2 ^ (m + 2) - 1)
  home_lt key := by
    rw [Nat.and_two_pow_sub_one_eq_mod]
    exact Nat.mod_lt _ (by positivity)
  coprime key := by
    apply Nat.Coprime.pow_right
    rw [Nat.coprime_two_right, Nat.odd_iff]
    exact acInc_odd _ (by omega)

theorem khLayout_next (hashFunc : K → UInt32) (m : ℕ) (key : K) (j : ℕ) :
    ((khLayout hashFunc m).path key j + (khLayout hashFunc m).inc key) &&&
        (2 ^ (m + 2) - 1) =
      (khLayout hashFunc m).path key (j + 1) := by
  rw [Nat.and_two_pow_sub_one_eq_mod, Layout.path_succ]
  rfl

theorem four_le_buckets (m : ℕ) : 4 ≤ 2 ^ (m + 2) := by
  have hone : (1 : ℕ) ≤ 2 ^ m := Nat.one_le_two_pow
  rw [pow_add]
  omega

theorem flags_cover (m : ℕ) : 2 ^ (m + 2) < 16 ∨ 16 ∣ 2 ^ (m + 2) := by
  by_cases hm : m < 2
  · left
    interval_cases m <;> decide
  · right
    exact pow_dvd_pow 2 (show 4 ≤ m + 2 by omega)

theorem hashUpper_lt {n : ℕ} (hn : 4 ≤ n) : hashUpper n < n := by
  unfold hashUpper
  omega

end GreaseLog
