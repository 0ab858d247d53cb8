import GreaseLog.KHashTable

/-!
# Runs of the hash table

The table represents a finite map when its entries are those of the map,
whatever buckets they lie in.  Every operation keeps this and gives the answer
of the map, and the iterator visits every entry once.
-/

namespace GreaseLog

open OpenAddressing

variable {K D : Type} {hashFunc : K → UInt32}

/-! ## Entries of a finite map -/

namespace TwMap

/-- The entries of the map, as the table holds them. -/
def held (m : TwMap K D) : Multiset (K × Option D) :=
  (m.entries.map fun e => (e.1, some e.2) : List (K × Option D))

theorem card_held (m : TwMap K D) : m.held.card = m.entries.length := by
  simp [held]

variable [DecidableEq K]

theorem mem_held {m : TwMap K D} {k : K} {v : Option D} :
    (k, v) ∈ m.held ↔ ∃ d, v = some d ∧ m.lookup k = some d := by
  simp only [held, Multiset.mem_coe, List.mem_map, Prod.mk.injEq]
  constructor
  · rintro ⟨⟨k', d⟩, hmem, rfl, rfl⟩
    exact ⟨d, rfl, AList.mem_lookup_iff.mpr hmem⟩
  · rintro ⟨d, rfl, hlookup⟩
    exact ⟨⟨k, d⟩, AList.mem_lookup_iff.mp hlookup, rfl, rfl⟩

theorem held_insert_of_none {m : TwMap K D} {k : K} (hnone : m.lookup k = none)
    (d : D) : held (m.insert k d) = m.held + {(k, some d)} := by
  have hnot := AList.lookup_eq_none.mp hnone
  unfold held
  rw [AList.entries_insert_of_notMem hnot, List.map_cons, ← Multiset.cons_coe,
    ← Multiset.singleton_add, add_comm]

theorem held_erase {m : TwMap K D} {k : K} {d : D} (hsome : m.lookup k = some d) :
    held (m.erase k) + {(k, some d)} = m.held := by
  have hmem : k ∈ m.entries.keys := AList.lookup_isSome.mp (by simp [hsome])
  obtain ⟨d', l₁, l₂, -, hentries, herase⟩ := List.exists_of_kerase hmem
  have hd : d' = d := by
    have hin : (⟨k, d'⟩ : Sigma fun _ : K => D) ∈ m.entries := by
      rw [hentries]
      simp
    have hlookup := AList.mem_lookup_iff.mpr hin
    rw [hsome] at hlookup
    exact (Option.mem_some_iff.mp hlookup).symm
  subst hd
  have hkerase : (m.erase k).entries = l₁ ++ l₂ := herase
  unfold held
  rw [hkerase, hentries]
  simp only [List.map_append, List.map_cons, ← Multiset.coe_add,
    ← Multiset.cons_coe, ← Multiset.singleton_add]
  abel

theorem held_insert_of_some {m : TwMap K D} {k : K} {d : D}
    (hsome : m.lookup k = some d) (d' : D) :
    held (m.insert k d') + {(k, some d)} = m.held + {(k, some d')} := by
  have hinsert : held (m.insert k d') = held (m.erase k) + {(k, some d')} := by
    unfold held
    rw [AList.entries_insert, List.map_cons, ← Multiset.cons_coe,
      ← Multiset.singleton_add, add_comm]
    rfl
  rw [hinsert, ← held_erase hsome]
  abel

theorem erase_of_none {m : TwMap K D} {k : K} (hnone : m.lookup k = none) :
    m.erase k = m :=
  AList.ext (List.kerase_of_notMem_keys (AList.lookup_eq_none.mp hnone))

end TwMap

/-! ## Representation -/

namespace TwKHash

structure Represents (hashFunc : K → UInt32) (h : TwKHash K D) (m : TwMap K D) :
    Prop where
  valid : KhA.Valid hashFunc h
  entries_eq : h.entries = m.held

theorem represents_khInit (flags : KhFlags) (keys : ℕ → K)
    (vals : ℕ → Option D) :
    Represents hashFunc (KhA.khInit flags keys vals) (∅ : TwMap K D) :=
  ⟨KhA.valid_khInit flags keys vals, rfl⟩

namespace Represents

variable {h : TwKHash K D} {m : TwMap K D}

theorem size_eq (hrep : Represents hashFunc h m) :
    h.size = m.entries.length := by
  rw [hrep.valid.size_eq, hrep.entries_eq, TwMap.card_held]

theorem removeAll (hrep : Represents hashFunc h m) :
    Represents hashFunc h.removeAll (∅ : TwMap K D) := by
  rcases hrep.valid with hun | ⟨n, hok⟩
  · have hsame : h.removeAll = h := if_pos hun.buckets
    rw [hsame]
    exact ⟨Or.inl hun, hun.entries_eq⟩
  · have hpos : h.nBuckets ≠ 0 := by
      have hfour := four_le_buckets n
      rw [hok.buckets]
      omega
    have hclear : h.removeAll = { h with
        flags := memsetFlags h.flags h.nBuckets
        size := 0
        nOccupied := 0 } := if_neg hpos
    have hempty : ∀ i < h.nBuckets, h.removeAll.cells i = .empty := by
      intro i hi
      rw [hclear]
      apply khCells_eq_empty.mpr
      rw [acIsempty_eq]
      exact acBit_memset _ (by rw [hok.buckets]; exact flags_cover n) hi
        (by omega)
    rw [hclear] at hempty ⊢
    have hcount := contents_of_empty hempty
    refine ⟨Or.inr ⟨n, ?_⟩, hcount⟩
    exact {
      small := hok.small
      buckets := hok.buckets
      upper := hok.upper
      size_eq := (congrArg Multiset.card hcount).symm
      occupied_eq := (occupied_of_empty hempty).symm
      room := Nat.zero_le _
      sound := Sound.empty _ fun i hi => hempty i (hok.buckets ▸ hi) }

variable [DecidableEq K]

theorem not_mem (hrep : Represents hashFunc h m) {k : K}
    (hnone : m.lookup k = none) (v : Option D) : (k, v) ∉ h.entries := by
  rw [hrep.entries_eq, TwMap.mem_held]
  rintro ⟨d, -, hsome⟩
  rw [hnone] at hsome
  cases hsome

/-- `kh_get_A` for a key of the map. -/
theorem khGet_of_some (hrep : Represents hashFunc h m) {k : K} {d : D}
    (hsome : m.lookup k = some d) :
    ∃ n i, KhA.Allocated hashFunc h n ∧ i < h.nBuckets ∧
      h.khGet hashFunc k = some i ∧ h.cells i = .live k (some d) := by
  have hmem : (k, some d) ∈ h.entries := by
    rw [hrep.entries_eq, TwMap.mem_held]
    exact ⟨d, rfl, hsome⟩
  rcases hrep.valid with hun | ⟨n, hok⟩
  · rw [hun.entries_eq] at hmem
    simp at hmem
  · obtain ⟨i, hi, hget, hcell⟩ := hok.khGet_of_mem hmem
    exact ⟨n, i, hok, hi, hget, hcell⟩

theorem khGet_of_none (hrep : Represents hashFunc h m) {k : K}
    (hnone : m.lookup k = none) : h.khGet hashFunc k = some h.nBuckets := by
  rcases hrep.valid with hun | ⟨n, hok⟩
  · simp [KhA.khGet, hun.buckets]
  · exact hok.khGet_of_not_mem (hrep.not_mem hnone)

theorem find (hrep : Represents hashFunc h m) (k : K) :
    h.find hashFunc k = some (m.lookup k) := by
  unfold TwKHash.find
  cases hlookup : m.lookup k with
  | none =>
      rw [hrep.khGet_of_none hlookup]
      simp
  | some d =>
      obtain ⟨n, i, -, hi, hget, hcell⟩ := hrep.khGet_of_some hlookup
      rw [hget]
      simp [Nat.ne_of_lt hi, (khCells_eq_live.mp hcell).2.2]

theorem insertNew (hrep : Represents hashFunc h m)
    (hsmall : m.entries.length < 2 ^ 30) {k : K} (hnone : m.lookup k = none)
    (d : D) :
    ∃ h', h.insertNew hashFunc k d = some h' ∧
      Represents hashFunc h' (m.insert k d) := by
  have hsize : h.size < 2 ^ 30 := hrep.size_eq ▸ hsmall
  obtain ⟨h₁, n, x, ret, v, hput, hok, hx, hcell, hentries⟩ :=
    KhA.khPut_spec hrep.valid hsize (hrep.not_mem hnone)
  obtain ⟨hok', hset⟩ := hok.setVal (w := some d) hx hcell
  refine ⟨{ h₁ with vals := Function.update h₁.vals x (some d) }, ?_, ?_, ?_⟩
  · unfold TwKHash.insertNew
    rw [hput]
    rfl
  · exact Or.inr ⟨n, hok'⟩
  · have hcancel : { h₁ with vals := Function.update h₁.vals x (some d) }.entries +
        {(k, v)} = h.entries + {(k, some d)} + {(k, v)} := by
      rw [hset, hentries]
      abel
    rw [add_right_cancel hcancel, hrep.entries_eq,
      TwMap.held_insert_of_none hnone]

theorem addReplace (hrep : Represents hashFunc h m)
    (hsmall : m.entries.length < 2 ^ 30) (k : K) (d : D) :
    ∃ h', h.addReplace hashFunc k d = some (h', m.lookup k) ∧
      Represents hashFunc h' (m.insert k d) := by
  unfold TwKHash.addReplace
  cases hlookup : m.lookup k with
  | none =>
      obtain ⟨h', hnew, hrep'⟩ := hrep.insertNew hsmall hlookup d
      refine ⟨h', ?_, hrep'⟩
      rw [hrep.khGet_of_none hlookup]
      simp [hnew]
  | some d₀ =>
      obtain ⟨n, i, hok, hi, hget, hcell⟩ := hrep.khGet_of_some hlookup
      obtain ⟨hok', hset⟩ := hok.setVal (w := some d) hi hcell
      refine ⟨{ h with vals := Function.update h.vals i (some d) }, ?_,
        Or.inr ⟨n, hok'⟩, ?_⟩
      · rw [hget]
        simp [Nat.ne_of_lt hi, (khCells_eq_live.mp hcell).2.2]
      · rw [hrep.entries_eq, ← TwMap.held_insert_of_some hlookup] at hset
        exact add_right_cancel hset

theorem addNoreplace (hrep : Represents hashFunc h m)
    (hsmall : m.entries.length < 2 ^ 30) (k : K) (d : D) :
    ∃ h', h.addNoreplace hashFunc k d = some (h', (m.lookup k).isNone) ∧
      Represents hashFunc h'
        (if (m.lookup k).isSome then m else m.insert k d) := by
  unfold TwKHash.addNoreplace
  cases hlookup : m.lookup k with
  | none =>
      obtain ⟨h', hnew, hrep'⟩ := hrep.insertNew hsmall hlookup d
      refine ⟨h', ?_, by simpa using hrep'⟩
      rw [hrep.khGet_of_none hlookup]
      simp [hnew]
  | some d₀ =>
      obtain ⟨n, i, -, hi, hget, -⟩ := hrep.khGet_of_some hlookup
      refine ⟨h, ?_, by simpa using hrep⟩
      rw [hget]
      simp [Nat.ne_of_lt hi]

theorem remove (hrep : Represents hashFunc h m) (k : K) :
    ∃ h', h.remove hashFunc k =
        some (h', (m.lookup k).isSome, m.lookup k) ∧
      Represents hashFunc h' (m.erase k) := by
  unfold TwKHash.remove
  cases hlookup : m.lookup k with
  | none =>
      refine ⟨h, ?_, by rwa [TwMap.erase_of_none hlookup]⟩
      rw [hrep.khGet_of_none hlookup]
      simp
  | some d =>
      obtain ⟨n, i, hok, hi, hget, hcell⟩ := hrep.khGet_of_some hlookup
      obtain ⟨hok', hdel⟩ := hok.khDel_spec hi hcell
      refine ⟨h.khDel i, ?_, Or.inr ⟨n, hok'⟩, ?_⟩
      · rw [hget]
        simp [Nat.ne_of_lt hi, (khCells_eq_live.mp hcell).2.2]
      · rw [hrep.entries_eq, ← TwMap.held_erase hlookup] at hdel
        exact add_right_cancel hdel

/-! ## Runs -/

theorem step (hrep : Represents hashFunc h m)
    (hsmall : m.entries.length < 2 ^ 30) (op : TwOp K D) :
    ∃ h', h.step hashFunc op = some (h', (TwMap.step m op).2) ∧
      Represents hashFunc h' (TwMap.step m op).1 := by
  cases op with
  | find key =>
      exact ⟨h, by simp [TwKHash.step, hrep.find, TwMap.step], hrep⟩
  | addReplace key dat =>
      obtain ⟨h', hrun, hrep'⟩ := hrep.addReplace hsmall key dat
      exact ⟨h', by simp [TwKHash.step, hrun, TwMap.step], hrep'⟩
  | addNoreplace key dat =>
      obtain ⟨h', hrun, hrep'⟩ := hrep.addNoreplace hsmall key dat
      refine ⟨h', ?_, ?_⟩
      · cases hlookup : m.lookup key <;>
          simp [TwKHash.step, hrun, TwMap.step, hlookup]
      · cases hlookup : m.lookup key <;>
          simpa [TwMap.step, hlookup] using hrep'
  | remove key =>
      obtain ⟨h', hrun, hrep'⟩ := hrep.remove key
      exact ⟨h', by simp [TwKHash.step, hrun, TwMap.step], hrep'⟩
  | removeAll => exact ⟨h.removeAll, rfl, hrep.removeAll⟩
  | size => exact ⟨h, by simp [TwKHash.step, TwMap.step, hrep.size_eq], hrep⟩

theorem run (hrep : Represents hashFunc h m) (ops : List (TwOp K D))
    (hbelow : TwMap.StaysBelow (2 ^ 30) m ops) :
    ∃ h', h.run hashFunc ops = some (h', (TwMap.run m ops).2) ∧
      Represents hashFunc h' (TwMap.run m ops).1 := by
  induction ops generalizing h m with
  | nil => exact ⟨h, rfl, hrep⟩
  | cons op ops ih =>
      obtain ⟨h₁, hstep, hrep₁⟩ := hrep.step hbelow.1 op
      obtain ⟨h₂, hrun, hrep₂⟩ := ih hrep₁ hbelow.2
      refine ⟨h₂, ?_, hrep₂⟩
      simp [TwKHash.run, hstep, hrun, TwMap.run]

end Represents

/-! ## Iteration -/

/-- The data of the entries from bucket `i` on. -/
def dataFrom (h : TwKHash K D) (i : ℕ) : List (Option D) :=
  ((List.range' i (h.nBuckets - i)).filter
    (fun b => acIseither h.flags b = false)).map h.vals

theorem dataFrom_live {h : TwKHash K D} {i : ℕ} (hi : i < h.nBuckets)
    (hlive : acIseither h.flags i = false) :
    h.dataFrom i = h.vals i :: h.dataFrom (i + 1) := by
  have hsplit : h.nBuckets - i = (h.nBuckets - (i + 1)) + 1 := by omega
  simp [dataFrom, hsplit, List.range'_succ, hlive]

theorem dataFrom_dead {h : TwKHash K D} {i : ℕ} (hi : i < h.nBuckets)
    (hdead : acIseither h.flags i = true) :
    h.dataFrom i = h.dataFrom (i + 1) := by
  have hsplit : h.nBuckets - i = (h.nBuckets - (i + 1)) + 1 := by omega
  simp [dataFrom, hsplit, List.range'_succ, hdead]

/-- A skip passes nothing but dead buckets, and stops at an entry or at the
end. -/
theorem skipDead_spec (h : TwKHash K D) (fuel i : ℕ) (hi : i ≤ h.nBuckets)
    (hfuel : h.nBuckets < i + fuel) :
    ∃ next, h.skipDead fuel i = some next ∧ i ≤ next ∧ next ≤ h.nBuckets ∧
      h.dataFrom next = h.dataFrom i ∧
      (next = h.nBuckets ∨ acIseither h.flags next = false) := by
  induction fuel generalizing i with
  | zero => omega
  | succ fuel ih =>
      unfold skipDead
      split_ifs with hskip
      · obtain ⟨next, hrun, hle, hnext, hdata, hstop⟩ :=
          ih (i + 1) (by omega) (by omega)
        refine ⟨next, hrun, by omega, hnext, ?_, hstop⟩
        rw [hdata, dataFrom_dead (by omega) hskip.2]
      · refine ⟨i, rfl, le_rfl, hi, rfl, ?_⟩
        by_cases hend : i = h.nBuckets
        · exact Or.inl hend
        · exact Or.inr (by simpa [hend] using hskip)

theorem iterLoop_spec (h : TwKHash K D) (fuel i : ℕ) (hi : i ≤ h.nBuckets)
    (hfuel : h.nBuckets < i + fuel)
    (hstop : i = h.nBuckets ∨ acIseither h.flags i = false) :
    h.iterLoop fuel i = some (h.dataFrom i) := by
  induction fuel generalizing i with
  | zero => omega
  | succ fuel ih =>
      unfold iterLoop
      split_ifs with hend
      · subst hend
        simp [dataFrom]
      · have hlive := hstop.resolve_left hend
        obtain ⟨next, hrun, hle, hnext, hdata, hstop'⟩ :=
          skipDead_spec h (h.nBuckets + 1) (i + 1) (by omega) (by omega)
        have hrest := ih next hnext (by omega) hstop'
        rw [dataFrom_live (by omega) hlive, ← hdata]
        simp [getNext, hend, hrun, hrest, iterData]

theorem iterate_eq (h : TwKHash K D) : h.iterate = some (h.dataFrom 0) := by
  obtain ⟨start, hrun, -, hstart, hdata, hstop⟩ :=
    skipDead_spec h (h.nBuckets + 1) 0 (by omega) (by omega)
  unfold iterate gotoStart
  rw [hrun, Option.bind_some,
    iterLoop_spec h (h.nBuckets + 1) start hstart (by omega) hstop, hdata]

theorem liveData_eq (h : TwKHash K D) (n : ℕ) :
    ((((List.range n).filter (fun b => acIseither h.flags b = false)).map
        h.vals : List (Option D)) : Multiset (Option D)) =
      (contents n h.cells).map Prod.snd := by
  induction n with
  | zero => rfl
  | succ n ih =>
      have hsum : contents (n + 1) h.cells =
          contents n h.cells + (h.cells n).entries :=
        Finset.sum_range_succ _ n
      rw [hsum, Multiset.map_add, ← ih, List.range_succ, List.filter_append,
        List.map_append, ← Multiset.coe_add]
      congr 1
      cases hlive : acIseither h.flags n with
      | false =>
          have hcell : h.cells n = .live (h.keys n) (h.vals n) :=
            khCells_eq_live.mpr ⟨hlive, rfl, rfl⟩
          rw [hcell]
          simp [hlive]
      | true =>
          have hcell : (h.cells n).entries = 0 := by
            rw [acIseither_eq, Bool.or_eq_true] at hlive
            unfold KhA.cells khCells
            split_ifs <;> simp_all
          rw [hcell]
          simp [hlive]

/-- The iterator goes over the data of every entry, each once. -/
theorem Represents.iterate {h : TwKHash K D} {m : TwMap K D}
    (hrep : Represents hashFunc h m) :
    ∃ visited, h.iterate = some visited ∧
      visited.Perm (m.entries.map fun e => some e.2) := by
  refine ⟨h.dataFrom 0, iterate_eq h, Multiset.coe_eq_coe.mp ?_⟩
  have hdata := liveData_eq h h.nBuckets
  rw [show contents h.nBuckets h.cells = m.held from hrep.entries_eq] at hdata
  rw [List.range_eq_range'] at hdata
  simpa [dataFrom, TwMap.held, Function.comp_def] using hdata

end TwKHash

/-! ## Resizing by hand -/

/-- The size `kh_resize_A` settles on for the size it is asked for. -/
theorem rounded_size {x : ℕ} (hx : x ≤ 2 ^ 31) :
    ∃ m ≤ 29, (if kroundup32 x < 4 then 4 else kroundup32 x) = 2 ^ (m + 2) ∧
      2 ^ (m + 2) = max 4 (2 ^ Nat.clog 2 x) := by
  by_cases hsmall : x ≤ 4
  · refine ⟨0, by omega, ?_⟩
    interval_cases x <;> decide
  · have hlow : 2 ^ (Nat.clog 2 x).pred < x :=
      Nat.pow_pred_clog_lt_self (by omega) (by omega)
    have hhigh : x ≤ 2 ^ Nat.clog 2 x := Nat.le_pow_clog (by omega) x
    have htwo : 2 < Nat.clog 2 x := by
      by_contra hle
      have hpow : 2 ^ Nat.clog 2 x ≤ 2 ^ 2 :=
        Nat.pow_le_pow_right (by omega) (by omega)
      omega
    have hmax : Nat.clog 2 x ≤ 31 := by
      by_contra hlarge
      have hpow : 2 ^ 31 ≤ 2 ^ (Nat.clog 2 x).pred :=
        Nat.pow_le_pow_right (by omega) (by rw [Nat.pred_eq_sub_one]; omega)
      omega
    obtain ⟨m, hm⟩ : ∃ m, Nat.clog 2 x = m + 2 := ⟨Nat.clog 2 x - 2, by omega⟩
    rw [hm] at hlow hhigh htwo hmax ⊢
    have hfour := four_le_buckets m
    have hround : kroundup32 x = 2 ^ (m + 2) :=
      kroundup32_eq hlow hhigh (by omega)
    refine ⟨m, by omega, ?_, (max_eq_right hfour).symm⟩
    rw [hround, if_neg (by omega)]

theorem TwKHash.Represents.khResize {h : TwKHash K D} {m : TwMap K D}
    (hrep : Represents hashFunc h m) {x : ℕ} (hx : x ≤ 2 ^ 31) :
    ∃ h', KhA.khResize hashFunc h x = some h' ∧ Represents hashFunc h' m ∧
      h'.nBuckets =
        if m.entries.length < hashUpper (max 4 (2 ^ Nat.clog 2 x)) then
          max 4 (2 ^ Nat.clog 2 x)
        else h.nBuckets := by
  obtain ⟨n, hn, hnew, hsize⟩ := rounded_size hx
  rw [← hsize, ← hrep.size_eq]
  split_ifs with hfits
  · obtain ⟨h', hrun, hok, hentries, -⟩ :=
      KhA.khResize_spec hrep.valid hn hnew hfits
    exact ⟨h', hrun, ⟨Or.inr ⟨n, hok⟩, hentries.trans hrep.entries_eq⟩,
      hok.buckets⟩
  · refine ⟨h, ?_, hrep, rfl⟩
    unfold KhA.khResize
    simp only [hnew]
    exact if_pos (Nat.le_of_not_lt hfits)

/-! ## The table from its start -/

section Start

variable [DecidableEq K]

/-- Whatever the hash function and whatever memory the arrays are given, every
operation of every run ends, and answers as the finite map does. -/
theorem table_run_answers (hashFunc : K → UInt32) (flags : KhFlags)
    (keys : ℕ → K) (vals : ℕ → Option D) (ops : List (TwOp K D))
    (hbelow : TwMap.StaysBelow (2 ^ 30) (∅ : TwMap K D) ops) :
    ∃ h, TwKHash.run hashFunc (KhA.khInit flags keys vals) ops =
      some (h, (TwMap.run ∅ ops).2) := by
  obtain ⟨h, hrun, -⟩ :=
    (TwKHash.represents_khInit flags keys vals).run ops hbelow
  exact ⟨h, hrun⟩

theorem table_run_answers_small :
    ∃ h, TwKHash.run (D := ℕ) (twHashFunc (K := UInt32))
        (KhA.khInit (fun _ => 0) (fun _ => 0) (fun _ => none))
        [.addReplace 7 70, .addNoreplace 7 71, .addReplace 8 80, .remove 7,
          .addReplace 9 90, .addReplace 10 100, .find 8, .find 7, .size] =
      some (h, [.replaced none, .added false, .replaced none,
        .removed true (some 70), .replaced none, .replaced none,
        .found (some 80), .found none, .count 3]) :=
  table_run_answers twHashFunc _ _ _ _
    ⟨by decide, by decide, by decide, by decide, by decide, by decide,
      by decide, by decide, by decide, trivial⟩

/-- After every run the iterator visits exactly the data the run has left in
the table, each entry once. -/
theorem table_iterator_visits_once (hashFunc : K → UInt32) (flags : KhFlags)
    (keys : ℕ → K) (vals : ℕ → Option D) (ops : List (TwOp K D))
    (hbelow : TwMap.StaysBelow (2 ^ 30) (∅ : TwMap K D) ops) :
    ∃ h answers visited,
      TwKHash.run hashFunc (KhA.khInit flags keys vals) ops =
        some (h, answers) ∧
      h.iterate = some visited ∧
      visited.Perm ((TwMap.run ∅ ops).1.entries.map fun e => some e.2) := by
  obtain ⟨h, hrun, hrep⟩ :=
    (TwKHash.represents_khInit flags keys vals).run ops hbelow
  obtain ⟨visited, hiter, hperm⟩ := hrep.iterate
  exact ⟨h, _, visited, hrun, hiter, hperm⟩

theorem table_iterator_visits_once_small :
    ∃ h answers visited,
      TwKHash.run (D := ℕ) (twHashFunc (K := UInt32))
          (KhA.khInit (fun _ => 0) (fun _ => 0) (fun _ => none))
          [.addReplace 7 70, .addReplace 8 80, .remove 7] =
        some (h, answers) ∧
      h.iterate = some visited ∧ visited.Perm [some 80] :=
  table_iterator_visits_once twHashFunc _ _ _ _
    ⟨by decide, by decide, by decide, trivial⟩

/-- Growing or shrinking the table at any point of any run, to any size that
`kroundup32` knows, changes no answer; it changes the number of buckets when
the entries fit. -/
theorem table_resize_keeps_entries (hashFunc : K → UInt32) (flags : KhFlags)
    (keys : ℕ → K) (vals : ℕ → Option D) (ops : List (TwOp K D))
    (hbelow : TwMap.StaysBelow (2 ^ 30) (∅ : TwMap K D) ops) {x : ℕ}
    (hx : x ≤ 2 ^ 31) :
    ∃ h answers h',
      TwKHash.run hashFunc (KhA.khInit flags keys vals) ops =
        some (h, answers) ∧
      KhA.khResize hashFunc h x = some h' ∧
      (∀ key, TwKHash.find hashFunc h' key = h.find hashFunc key) ∧
      h'.nBuckets =
        if h.size < hashUpper (max 4 (2 ^ Nat.clog 2 x)) then
          max 4 (2 ^ Nat.clog 2 x)
        else h.nBuckets := by
  obtain ⟨h, hrun, hrep⟩ :=
    (TwKHash.represents_khInit flags keys vals).run ops hbelow
  obtain ⟨h', hresize, hrep', hbuckets⟩ := hrep.khResize hx
  refine ⟨h, _, h', hrun, hresize, fun key => ?_, ?_⟩
  · rw [hrep.find, hrep'.find]
  · rw [hrep.size_eq]
    exact hbuckets

theorem table_resize_keeps_entries_small :
    ∃ h answers h',
      TwKHash.run (D := ℕ) (twHashFunc (K := UInt32))
          (KhA.khInit (fun _ => 0) (fun _ => 0) (fun _ => none))
          [.addReplace 7 70, .addReplace 8 80, .remove 7] =
        some (h, answers) ∧
      KhA.khResize twHashFunc h 20 = some h' ∧
      (∀ key, TwKHash.find twHashFunc h' key = h.find twHashFunc key) ∧
      h'.nBuckets =
        if h.size < hashUpper (max 4 (2 ^ Nat.clog 2 20)) then
          max 4 (2 ^ Nat.clog 2 20)
        else h.nBuckets :=
  table_resize_keeps_entries twHashFunc _ _ _
    [.addReplace 7 70, .addReplace 8 80, .remove 7]
    ⟨by decide, by decide, by decide, trivial⟩ (by decide)

end Start

end GreaseLog
