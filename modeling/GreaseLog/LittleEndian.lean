import Mathlib.Tactic

/-!
# Little-endian records

A record is a sequence of unsigned numbers, each stored in a fixed number of
bytes with the least significant byte first.  Storing drops what does not fit
the width of a field; loading a stored record from the front of any longer
sequence of bytes gives the rest back.
-/

namespace LittleEndian

def store (width value : ℕ) : List UInt8 :=
  (List.range width).map fun i => UInt8.ofNat (value / 256 ^ i)

def load (bytes : List UInt8) : ℕ :=
  bytes.foldr (fun byte value => byte.toNat + 256 * value) 0

@[simp] theorem length_store (width value : ℕ) :
    (store width value).length = width := by
  simp [store]

theorem store_succ (width value : ℕ) :
    store (width + 1) value =
      UInt8.ofNat value :: store width (value / 256) := by
  unfold store
  rw [List.range_succ_eq_map, List.map_cons, List.map_map]
  congr 1
  · simp
  · apply List.map_congr_left
    intro i _
    simp only [Function.comp_apply, Nat.succ_eq_add_one, pow_succ,
      Nat.div_div_eq_div_mul]
    rw [Nat.mul_comm]

theorem load_store (width value : ℕ) :
    load (store width value) = value % 256 ^ width := by
  induction width generalizing value with
  | zero => simp [store, load, Nat.mod_one]
  | succ width ih =>
      have htail : load (store (width + 1) value) =
          (UInt8.ofNat value).toNat + 256 * load (store width (value / 256)) := by
        rw [store_succ]
        rfl
      have hbyte : (UInt8.ofNat value).toNat = value % 256 :=
        UInt8.toNat_ofNat'
      have hmod : value % 256 ^ (width + 1) =
          value % 256 + 256 * (value / 256 % 256 ^ width) := by
        rw [pow_succ', Nat.mod_mul]
      rw [htail, ih, hbyte, hmod]

theorem store_load (bytes : List UInt8) :
    store bytes.length (load bytes) = bytes := by
  induction bytes with
  | nil => rfl
  | cons byte rest ih =>
      have hload : load (byte :: rest) = byte.toNat + 256 * load rest := rfl
      have hlow : UInt8.ofNat (byte.toNat + 256 * load rest) = byte := by
        apply UInt8.toNat_inj.mp
        rw [UInt8.toNat_ofNat', Nat.add_mul_mod_self_left]
        exact Nat.mod_eq_of_lt byte.toNat_lt
      have hhigh : (byte.toNat + 256 * load rest) / 256 = load rest := by
        have hbyte := byte.toNat_lt
        omega
      rw [List.length_cons, store_succ, hload, hlow, hhigh, ih]

/-! ## Records -/

def storeRecord (fields : List (ℕ × ℕ)) : List UInt8 :=
  fields.flatMap fun field => store field.1 field.2

def loadRecord : List ℕ → List UInt8 → List ℕ
  | [], _ => []
  | width :: widths, bytes =>
      load (bytes.take width) :: loadRecord widths (bytes.drop width)

theorem length_storeRecord (fields : List (ℕ × ℕ)) :
    (storeRecord fields).length = (fields.map Prod.fst).sum := by
  induction fields with
  | nil => rfl
  | cons field rest ih =>
      have hsplit : storeRecord (field :: rest) =
          store field.1 field.2 ++ storeRecord rest := rfl
      rw [hsplit, List.length_append, length_store, ih]
      rfl

theorem loadRecord_storeRecord
    (fields : List (ℕ × ℕ)) (rest : List UInt8) :
    loadRecord (fields.map Prod.fst) (storeRecord fields ++ rest) =
      fields.map fun field => field.2 % 256 ^ field.1 := by
  induction fields with
  | nil => rfl
  | cons field fields ih =>
      have hsplit : storeRecord (field :: fields) ++ rest =
          store field.1 field.2 ++ (storeRecord fields ++ rest) := by
        simp [storeRecord]
      have hlength := length_store field.1 field.2
      rw [hsplit, List.map_cons, List.map_cons, loadRecord,
        List.take_left' hlength, List.drop_left' hlength, load_store, ih]

end LittleEndian
