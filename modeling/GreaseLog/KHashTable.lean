import GreaseLog.KHashRehash
import GreaseLog.Run
import Mathlib.Data.List.AList

/-!
# `TW_KHash_32`

The tables of the logger wrap the hash table: a value is a pointer to a copy
of the data, made when an entry is added and freed when it is replaced or
removed.  Under its lock every operation is one step, and a run of operations
answers as a finite map does.  `kroundup32` only knows sizes of up to `2 ^ 31`
buckets, so a run must keep fewer than `2 ^ 30` keys.
-/

namespace GreaseLog

open OpenAddressing

/-! ## Insertion with a resize -/

namespace KhA

variable {K V : Type} {hashFunc : K → UInt32}

theorem kroundup32_same (m : ℕ) (hm : m ≤ 29) :
    kroundup32 (2 ^ (m + 2) - 1) = 2 ^ (m + 2) := by
  have hone : (1 : ℕ) ≤ 2 ^ m := Nat.one_le_two_pow
  apply kroundup32_eq
  · rw [pow_succ 2 (m + 1), pow_succ]
    omega
  · exact Nat.sub_le _ _
  · omega

theorem kroundup32_double (m : ℕ) (hm : m ≤ 28) :
    kroundup32 (2 ^ (m + 2) + 1) = 2 ^ (m + 1 + 2) := by
  have hpow : 2 ^ (m + 1 + 2) = 2 * 2 ^ (m + 2) := by ring
  have hfour := four_le_buckets m
  apply kroundup32_eq
  · omega
  · exact hpow ▸ by omega
  · omega

/-- The resize `kh_put_A` starts with. -/
def makeRoom (hashFunc : K → UInt32) (h : KhA K V) : Option (KhA K V) :=
  if h.upperBound ≤ h.nOccupied then
    if (h.size <<< 1) % 2 ^ 32 < h.nBuckets then
      khResize hashFunc h (h.nBuckets - 1)
    else
      khResize hashFunc h (h.nBuckets + 1)
  else
    some h

theorem makeRoom_spec {h : KhA K V} (hok : Valid hashFunc h)
    (hsmall : h.size < 2 ^ 30) :
    ∃ h' m, makeRoom hashFunc h = some h' ∧ Allocated hashFunc h' m ∧
      h'.entries = h.entries ∧ h'.nOccupied < h'.upperBound := by
  unfold makeRoom
  by_cases hfull : h.upperBound ≤ h.nOccupied
  · rw [if_pos hfull]
    have hdouble : (h.size <<< 1) % 2 ^ 32 = 2 * h.size := by
      rw [Nat.shiftLeft_eq]
      omega
    rw [hdouble]
    rcases hok with hun | ⟨m, hall⟩
    · have hround : kroundup32 1 = 1 := by decide
      rw [if_neg (by rw [hun.buckets]; omega), hun.buckets]
      obtain ⟨h', hrun, hok', hentries, hroom⟩ :=
        khResize_spec (m := 0) (x := 0 + 1)
          (show Valid hashFunc h from Or.inl hun) (by omega) (by rw [Nat.zero_add, hround]; rfl)
          (by rw [hun.size_eq]; decide)
      exact ⟨h', 0, hrun, hok', hentries, hroom⟩
    · have hfour := four_le_buckets m
      have hsize : h.size ≤ hashUpper (2 ^ (m + 2)) := by
        calc
          h.size = h.entries.card := hall.size_eq
          _ ≤ occupied h.nBuckets h.cells := card_contents_le_occupied _ _
          _ = h.nOccupied := hall.occupied_eq.symm
          _ ≤ h.upperBound := hall.room
          _ = hashUpper (2 ^ (m + 2)) := by rw [hall.upper, hall.buckets]
      split_ifs with hhalf
      · -- markers take up the room: the same size again
        rw [hall.buckets] at hhalf ⊢
        obtain ⟨h', hrun, hok', hentries, hroom⟩ :=
          khResize_spec (m := m) (x := 2 ^ (m + 2) - 1) (Or.inr ⟨m, hall⟩)
            hall.small
            (by rw [kroundup32_same m hall.small, if_neg (by omega)])
            (by unfold hashUpper; omega)
        exact ⟨h', m, hrun, hok', hentries, hroom⟩
      · rw [hall.buckets] at hhalf ⊢
        have hm : m ≤ 28 := by
          by_contra hlarge
          have hpow : 2 ^ 31 ≤ 2 ^ (m + 2) :=
            Nat.pow_le_pow_right (by omega) (by omega)
          omega
        have hpow : 2 ^ (m + 1 + 2) = 2 * 2 ^ (m + 2) := by ring
        obtain ⟨h', hrun, hok', hentries, hroom⟩ :=
          khResize_spec (m := m + 1) (x := 2 ^ (m + 2) + 1) (Or.inr ⟨m, hall⟩)
            (by omega)
            (by rw [kroundup32_double m hm, if_neg (by omega)])
            (by
              rw [hpow]
              unfold hashUpper at hsize ⊢
              omega)
        exact ⟨h', m + 1, hrun, hok', hentries, hroom⟩
  · rcases hok with hun | ⟨m, hall⟩
    · rw [hun.upper, hun.occupied_eq] at hfull
      omega
    · exact ⟨h, m, if_neg hfull, hall, rfl, by omega⟩

variable [DecidableEq K]

theorem khPut_eq (h : KhA K V) (key : K) :
    khPut hashFunc h key = (makeRoom hashFunc h).bind fun h =>
      (khPutSite hashFunc h key).map fun x => khPutAt h key x := rfl

/-- A new key gets a bucket of its own, with the value that lies there. -/
theorem khPut_spec {h : KhA K V} (hok : Valid hashFunc h)
    (hsmall : h.size < 2 ^ 30) {key : K} (hnot : ∀ v, (key, v) ∉ h.entries) :
    ∃ h' m x ret v, khPut hashFunc h key = some (h', x, ret) ∧
      Allocated hashFunc h' m ∧ x < h'.nBuckets ∧ h'.cells x = .live key v ∧
      h'.entries = h.entries + {(key, v)} := by
  obtain ⟨h₁, m, hroom, hok₁, hentries₁, hless⟩ := makeRoom_spec hok hsmall
  obtain ⟨x, hsite, hput⟩ := hok₁.khPutSite_spec key
  rw [← hentries₁] at hnot
  obtain ⟨h', ret, hat, hok', hx, hcell, hentries⟩ :=
    hok₁.khPutAt_spec hless hput hnot
  refine ⟨h', m, x, ret, _, ?_, hok', hx, hcell, hentries₁ ▸ hentries⟩
  rw [khPut_eq, hroom, Option.bind_some, hsite, Option.map_some, hat]

end KhA

/-! ## The operations of `TW_KHash_32` -/

/-- The values are pointers; `none` is `NULL`. -/
abbrev TwKHash (K D : Type) := KhA K (Option D)

namespace TwKHash

variable {K D : Type}

/-- `removeAll` frees what the entries point to and clears the flags. -/
def removeAll (h : TwKHash K D) : TwKHash K D :=
  h.khClear

variable [DecidableEq K] (hashFunc : K → UInt32)

/-- Both overloads of `find`. -/
def find (h : TwKHash K D) (key : K) : Option (Option D) :=
  (h.khGet hashFunc key).map fun k =>
    if k ≠ h.nBuckets then h.vals k else none

/-- The branch all the `add` operations share: `kh_put_A`, then a copy of the
data for the bucket. -/
def insertNew (h : TwKHash K D) (key : K) (dat : D) : Option (TwKHash K D) :=
  (h.khPut hashFunc key).map fun p =>
    { p.1 with vals := Function.update p.1.vals p.2.1 (some dat) }

/-- Both overloads of `addReplace`, with what is assigned to `oldref`. -/
def addReplace (h : TwKHash K D) (key : K) (dat : D) :
    Option (TwKHash K D × Option D) :=
  (h.khGet hashFunc key).bind fun k =>
    if k ≠ h.nBuckets then
      some ({ h with vals := Function.update h.vals k (some dat) }, h.vals k)
    else
      (insertNew hashFunc h key dat).map fun h => (h, none)

def addNoreplace (h : TwKHash K D) (key : K) (dat : D) :
    Option (TwKHash K D × Bool) :=
  (h.khGet hashFunc key).bind fun k =>
    if k = h.nBuckets then
      (insertNew hashFunc h key dat).map fun h => (h, true)
    else
      some (h, false)

/-- Both overloads of `remove`, with what is assigned to `fill`. -/
def remove (h : TwKHash K D) (key : K) : Option (TwKHash K D × Bool × Option D) :=
  (h.khGet hashFunc key).map fun k =>
    if k ≠ h.nBuckets then
      (h.khDel k, true, h.vals k)
    else
      (h, false, none)

end TwKHash

/-! ## Iterators -/

namespace TwKHash

variable {K D : Type}

/-- `while(_iter != kh_end && !kh_exist(_iter)) _iter++`. -/
def skipDead (h : TwKHash K D) : ℕ → ℕ → Option ℕ
  | 0, _ => none
  | fuel + 1, iter =>
      if iter ≠ h.nBuckets ∧ acIseither h.flags iter = true then
        skipDead h fuel (iter + 1)
      else
        some iter

def gotoStart (h : TwKHash K D) : Option ℕ :=
  skipDead h (h.nBuckets + 1) 0

def getNext (h : TwKHash K D) (iter : ℕ) : Option ℕ :=
  if iter = h.nBuckets then some iter
  else skipDead h (h.nBuckets + 1) (iter + 1)

/-- `HashIterator::data`. -/
def iterData (h : TwKHash K D) (iter : ℕ) : Option D :=
  if iter ≠ h.nBuckets then h.vals iter else none

/-- `while(!iter.atEnd()) { t = iter.data(); ...; iter.getNext(); }`, with the
data it went over. -/
def iterLoop (h : TwKHash K D) : ℕ → ℕ → Option (List (Option D))
  | 0, _ => none
  | fuel + 1, iter =>
      if iter = h.nBuckets then
        some []
      else
        (h.getNext iter).bind fun next =>
          (iterLoop h fuel next).map (h.iterData iter :: ·)

/-- The loops of `flushAll`, `flushAllSync` and `~GreaseLogger` over a table. -/
def iterate (h : TwKHash K D) : Option (List (Option D)) :=
  h.gotoStart.bind (iterLoop h (h.nBuckets + 1))

end TwKHash

/-! ## Runs -/

inductive TwOp (K D : Type) where
  | find (key : K)
  | addReplace (key : K) (dat : D)
  | addNoreplace (key : K) (dat : D)
  | remove (key : K)
  | removeAll
  | size

inductive TwAnswer (D : Type) where
  | found (dat : Option D)
  | replaced (old : Option D)
  | added (ret : Bool)
  | removed (ret : Bool) (fill : Option D)
  | cleared
  | count (n : ℕ)
  deriving DecidableEq

section Runs

variable {K D : Type} [DecidableEq K] (hashFunc : K → UInt32)

def TwKHash.step (h : TwKHash K D) : TwOp K D → Option (TwKHash K D × TwAnswer D)
  | .find key => (h.find hashFunc key).map fun d => (h, .found d)
  | .addReplace key dat =>
      (h.addReplace hashFunc key dat).map fun p => (p.1, .replaced p.2)
  | .addNoreplace key dat =>
      (h.addNoreplace hashFunc key dat).map fun p => (p.1, .added p.2)
  | .remove key =>
      (h.remove hashFunc key).map fun p => (p.1, .removed p.2.1 p.2.2)
  | .removeAll => some (h.removeAll, .cleared)
  | .size => some (h, .count h.size)

/-- A run of operations with the answers it gave. -/
def TwKHash.run (h : TwKHash K D) :
    List (TwOp K D) → Option (TwKHash K D × List (TwAnswer D))
  | [] => some (h, [])
  | op :: ops =>
      (h.step hashFunc op).bind fun p =>
        (TwKHash.run p.1 ops).map fun q => (q.1, p.2 :: q.2)

/-! ## Finite maps -/

abbrev TwMap (K D : Type) := AList (fun _ : K => D)

/-- What the operations mean for a finite map. -/
def TwMap.step (m : TwMap K D) : TwOp K D → TwMap K D × TwAnswer D
  | .find key => (m, .found (m.lookup key))
  | .addReplace key dat => (m.insert key dat, .replaced (m.lookup key))
  | .addNoreplace key dat =>
      if (m.lookup key).isSome then (m, .added false)
      else (m.insert key dat, .added true)
  | .remove key =>
      (m.erase key, .removed (m.lookup key).isSome (m.lookup key))
  | .removeAll => (∅, .cleared)
  | .size => (m, .count m.entries.length)

def TwMap.run (m : TwMap K D) : List (TwOp K D) → TwMap K D × List (TwAnswer D)
  | [] => (m, [])
  | op :: ops =>
      let rest := TwMap.run (m.step op).1 ops
      (rest.1, (m.step op).2 :: rest.2)

/-- At every step of the run the map has fewer than `bound` keys. -/
def TwMap.StaysBelow (bound : ℕ) (m : TwMap K D) (ops : List (TwOp K D)) : Prop :=
  Run.Meets (fun m op => (TwMap.step m op).1)
    (fun m _ => m.entries.length < bound) m ops

end Runs

end GreaseLog
