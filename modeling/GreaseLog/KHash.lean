import GreaseLog.OpenAddressing
import Mathlib.Data.BitVec

/-!
# The hash table

`kh_A_t` of `tw_khash.h`, an open addressing table with a power of two of
buckets.  Two bits of a flag word tell for each bucket whether it is empty or
deleted; the arrays of keys and values are only read where neither bit is set.
A resize rehashes in place: an entry that is put where an entry of the old
table still lies kicks that one out, and goes on with it.

Loops that probe are given as much fuel as there are buckets.  `none` stands
for a loop that does not come to an end within it.
-/

namespace GreaseLog

open OpenAddressing

/-! ## Flags -/

/-- Sixteen buckets share a flag word; the words past the allocation are never
read. -/
abbrev KhFlags := ℕ → BitVec 32

def acIsempty (flags : KhFlags) (i : ℕ) : Bool :=
  ((flags (i >>> 4) >>> ((i &&& 0xf) <<< 1)) &&& 2#32) != 0#32

def acIsdel (flags : KhFlags) (i : ℕ) : Bool :=
  ((flags (i >>> 4) >>> ((i &&& 0xf) <<< 1)) &&& 1#32) != 0#32

def acIseither (flags : KhFlags) (i : ℕ) : Bool :=
  ((flags (i >>> 4) >>> ((i &&& 0xf) <<< 1)) &&& 3#32) != 0#32

def acSetIsemptyFalse (flags : KhFlags) (i : ℕ) : KhFlags :=
  Function.update flags (i >>> 4)
    (flags (i >>> 4) &&& ~~~(2#32 <<< ((i &&& 0xf) <<< 1)))

def acSetIsbothFalse (flags : KhFlags) (i : ℕ) : KhFlags :=
  Function.update flags (i >>> 4)
    (flags (i >>> 4) &&& ~~~(3#32 <<< ((i &&& 0xf) <<< 1)))

def acSetIsdelTrue (flags : KhFlags) (i : ℕ) : KhFlags :=
  Function.update flags (i >>> 4)
    (flags (i >>> 4) ||| (1#32 <<< ((i &&& 0xf) <<< 1)))

def acFsize (m : ℕ) : ℕ :=
  if m < 16 then 1 else m >>> 4

/-- `memset(flags, 0xaa, ...)`: every bucket is empty and not deleted. -/
def memsetFlags (flags : KhFlags) (n : ℕ) : KhFlags :=
  fun w => if w < acFsize n then 0xaaaaaaaa#32 else flags w

/-! ## Probing and sizes -/

/-- `__ac_inc`, the step of a search. -/
def acInc (k mask : ℕ) : ℕ :=
  (((k >>> 3) ^^^ ((k <<< 3) % 2 ^ 32)) ||| 1) &&& mask

/-- `kroundup32` on a 32-bit variable: the next power of two. -/
def kroundup32 (x : ℕ) : ℕ :=
  let x := (x + (2 ^ 32 - 1)) % 2 ^ 32
  let x := x ||| (x >>> 1)
  let x := x ||| (x >>> 2)
  let x := x ||| (x >>> 4)
  let x := x ||| (x >>> 8)
  let x := x ||| (x >>> 16)
  (x + 1) % 2 ^ 32

/-- `(khint_t)(n * __ac_HASH_UPPER + 0.5)` with `__ac_HASH_UPPER = 0.77`.  For
a power of two the product is never within a rounding error of an integer. -/
def hashUpper (n : ℕ) : ℕ :=
  (n * 77 + 50) / 100

/-- `kh_int64_hash_func`. -/
def khInt64HashFunc (key : UInt64) : UInt32 :=
  (key >>> 33 ^^^ key ^^^ key <<< 11).toUInt32

/-- `TW_KHash_32::__hash_func`.  The tables of the logger use no
specialisation of `tw_hash`, whose general case answers `0`. -/
def twHashFunc {K : Type} (_ : K) : UInt32 :=
  khInt64HashFunc 0

/-! ## The table -/

structure KhA (K V : Type) where
  nBuckets : ℕ
  size : ℕ
  nOccupied : ℕ
  upperBound : ℕ
  flags : KhFlags
  keys : ℕ → K
  vals : ℕ → V

namespace KhA

variable {K V : Type}

/-- `kh_init_A`.  The arrays are not allocated yet; whatever their memory will
hold is arbitrary. -/
def khInit (flags : KhFlags) (keys : ℕ → K) (vals : ℕ → V) : KhA K V where
  nBuckets := 0
  size := 0
  nOccupied := 0
  upperBound := 0
  flags := flags
  keys := keys
  vals := vals

/-- `kh_clear_A`; `flags` is `NULL` as long as there are no buckets. -/
def khClear (h : KhA K V) : KhA K V :=
  if h.nBuckets = 0 then h
  else { h with
    flags := memsetFlags h.flags h.nBuckets
    size := 0
    nOccupied := 0 }

def khDel (h : KhA K V) (x : ℕ) : KhA K V :=
  if x ≠ h.nBuckets ∧ acIseither h.flags x = false then
    { h with
      flags := acSetIsdelTrue h.flags x
      size := h.size - 1 }
  else h

variable (hashFunc : K → UInt32)

section Retrieval

variable [DecidableEq K]

def khGetLoop (h : KhA K V) (key : K) (inc mask last : ℕ) : ℕ → ℕ → Option ℕ
  | 0, _ => none
  | fuel + 1, i =>
      if !acIsempty h.flags i && (acIsdel h.flags i || h.keys i != key) then
        let i := (i + inc) &&& mask
        if i = last then
          some h.nBuckets
        else
          khGetLoop h key inc mask last fuel i
      else if acIseither h.flags i then
        some h.nBuckets
      else
        some i

def khGet (h : KhA K V) (key : K) : Option ℕ :=
  if h.nBuckets ≠ 0 then
    let mask := h.nBuckets - 1
    let k := (hashFunc key).toNat
    let i := k &&& mask
    khGetLoop h key (acInc k mask) mask i h.nBuckets i
  else
    some 0

end Retrieval

/-! ## Resizing -/

/-- What the rehash works on: `h->flags`, `new_flags` and the arrays that the
old and the new table share. -/
structure Rehash (K V : Type) where
  flags : KhFlags
  newFlags : KhFlags
  keys : ℕ → K
  vals : ℕ → V

/-- `while (!__ac_isempty(new_flags, i)) i = (i + inc) & new_mask`. -/
def findEmpty (newFlags : KhFlags) (inc mask : ℕ) : ℕ → ℕ → Option ℕ
  | 0, _ => none
  | fuel + 1, i =>
      if !acIsempty newFlags i then
        findEmpty newFlags inc mask fuel ((i + inc) &&& mask)
      else
        some i

/-- The kick-out process, with the entry in hand. -/
def kickOut (nBuckets newN : ℕ) :
    ℕ → Rehash K V → K → V → Option (Rehash K V)
  | 0, _, _, _ => none
  | fuel + 1, r, key, val =>
      let newMask := newN - 1
      let k := (hashFunc key).toNat
      (findEmpty r.newFlags (acInc k newMask) newMask newN
          (k &&& newMask)).bind fun i =>
        if i < nBuckets ∧ acIseither r.flags i = false then
          kickOut nBuckets newN fuel
            { flags := acSetIsdelTrue r.flags i
              newFlags := acSetIsemptyFalse r.newFlags i
              keys := Function.update r.keys i key
              vals := Function.update r.vals i val }
            (r.keys i) (r.vals i)
        else
          some { r with
            newFlags := acSetIsemptyFalse r.newFlags i
            keys := Function.update r.keys i key
            vals := Function.update r.vals i val }

/-- The body of `for (j = 0; j != h->n_buckets; ++j)`.  Every pass but the
first through the kick-out process takes an entry out of the old table. -/
def rehashBucket (nBuckets newN : ℕ) (r : Rehash K V) (j : ℕ) :
    Option (Rehash K V) :=
  if acIseither r.flags j = false then
    kickOut hashFunc nBuckets newN (nBuckets + 1)
      { r with flags := acSetIsdelTrue r.flags j } (r.keys j) (r.vals j)
  else
    some r

def khResize (h : KhA K V) (newNBuckets : ℕ) : Option (KhA K V) :=
  let rounded := kroundup32 newNBuckets
  let newN := if rounded < 4 then 4 else rounded
  if hashUpper newN ≤ h.size then
    some h
  else
    ((List.range h.nBuckets).foldlM (rehashBucket hashFunc h.nBuckets newN)
      { flags := h.flags
        newFlags := memsetFlags (fun _ => 0) newN
        keys := h.keys
        vals := h.vals }).map fun r =>
      { nBuckets := newN
        size := h.size
        nOccupied := h.size
        upperBound := hashUpper newN
        flags := r.newFlags
        keys := r.keys
        vals := r.vals }

/-! ## Insertion -/

/-- What `kh_put_A` writes at bucket `x`, and its `*ret`. -/
def khPutAt (h : KhA K V) (key : K) (x : ℕ) : KhA K V × ℕ × ℕ :=
  if acIsempty h.flags x then
    ({ h with
      keys := Function.update h.keys x key
      flags := acSetIsbothFalse h.flags x
      size := h.size + 1
      nOccupied := h.nOccupied + 1 }, x, 1)
  else if acIsdel h.flags x then
    ({ h with
      keys := Function.update h.keys x key
      flags := acSetIsbothFalse h.flags x
      size := h.size + 1 }, x, 2)
  else
    (h, x, 0)

section Insertion

variable [DecidableEq K]

/-- The probing loop of `kh_put_A`; its result is `i`, `site` and `x`. -/
def khPutLoop (h : KhA K V) (key : K) (inc mask last : ℕ) :
    ℕ → ℕ → ℕ → Option (ℕ × ℕ × ℕ)
  | 0, _, _ => none
  | fuel + 1, i, site =>
      if !acIsempty h.flags i && (acIsdel h.flags i || h.keys i != key) then
        let site := if acIsdel h.flags i then i else site
        let i := (i + inc) &&& mask
        if i = last then
          some (i, site, site)
        else
          khPutLoop h key inc mask last fuel i site
      else
        some (i, site, h.nBuckets)

/-- The bucket `kh_put_A` decides on. -/
def khPutSite (h : KhA K V) (key : K) : Option ℕ :=
  let mask := h.nBuckets - 1
  let k := (hashFunc key).toNat
  let i := k &&& mask
  if acIsempty h.flags i then
    some i
  else
    (khPutLoop h key (acInc k mask) mask i h.nBuckets i h.nBuckets).map
      fun p =>
        if p.2.2 = h.nBuckets then
          if acIsempty h.flags p.1 ∧ p.2.1 ≠ h.nBuckets then p.2.1 else p.1
        else p.2.2

/-- `kh_put_A`: the table, the bucket and `*ret`. -/
def khPut (h : KhA K V) (key : K) : Option (KhA K V × ℕ × ℕ) :=
  let resized :=
    if h.upperBound ≤ h.nOccupied then
      if (h.size <<< 1) % 2 ^ 32 < h.nBuckets then
        khResize hashFunc h (h.nBuckets - 1)
      else
        khResize hashFunc h (h.nBuckets + 1)
    else
      some h
  resized.bind fun h =>
    (khPutSite hashFunc h key).map fun x => khPutAt h key x

end Insertion

end KhA

end GreaseLog
