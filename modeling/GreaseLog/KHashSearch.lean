import GreaseLog.KHashCells

/-!
# Searching the hash table

`Allocated` is the invariant of a table with buckets: the counters count what
they say, at least one bucket is empty, and every entry can be found.  The
searches of `kh_get_A` and `kh_put_A` then stop before they are back at the
home bucket of the key.
-/

namespace GreaseLog

open OpenAddressing

variable {K V : Type} {hashFunc : K → UInt32}

namespace KhA

def cells (h : KhA K V) : ℕ → Cell K V :=
  khCells h.flags h.keys h.vals

def entries (h : KhA K V) : Multiset (K × V) :=
  contents h.nBuckets h.cells

structure Allocated (hashFunc : K → UInt32) (h : KhA K V) (m : ℕ) : Prop where
  small : m ≤ 29
  buckets : h.nBuckets = 2 ^ (m + 2)
  upper : h.upperBound = hashUpper h.nBuckets
  size_eq : h.size = h.entries.card
  occupied_eq : h.nOccupied = occupied h.nBuckets h.cells
  room : h.nOccupied ≤ h.upperBound
  sound : Sound (khLayout hashFunc m) h.cells

/-- A table without buckets has nothing in it. -/
structure Unallocated (h : KhA K V) : Prop where
  buckets : h.nBuckets = 0
  size_eq : h.size = 0
  occupied_eq : h.nOccupied = 0
  upper : h.upperBound = 0

def Valid (hashFunc : K → UInt32) (h : KhA K V) : Prop :=
  Unallocated h ∨ ∃ m, Allocated hashFunc h m

theorem valid_khInit (flags : KhFlags) (keys : ℕ → K) (vals : ℕ → V) :
    Valid hashFunc (khInit flags keys vals) :=
  Or.inl ⟨rfl, rfl, rfl, rfl⟩

theorem Unallocated.entries_eq {h : KhA K V} (hun : Unallocated h) :
    h.entries = 0 := by
  simp [KhA.entries, hun.buckets, contents, tally]

variable {h : KhA K V} {m : ℕ}

theorem Allocated.exists_ends (hok : Allocated hashFunc h m) (key : K) :
    ∃ j, Ends (khLayout hashFunc m) h.cells key j := by
  apply OpenAddressing.exists_ends
  have hroom : occupied h.nBuckets h.cells < h.nBuckets := by
    have hroom' := hok.room
    have hlt := hashUpper_lt (four_le_buckets m)
    rw [hok.upper, hok.occupied_eq] at hroom'
    rw [← hok.buckets] at hlt
    omega
  have hempty := exists_empty hroom
  rwa [hok.buckets] at hempty

theorem path_ne_home {key : K} {j l : ℕ} (hj : j < (khLayout hashFunc m).n)
    (hl : l < j) :
    (khLayout hashFunc m).path key (l + 1) ≠ (khLayout hashFunc m).home key := by
  intro heq
  rw [← Layout.path_zero] at heq
  have hzero := Layout.path_injOn _ key (by omega) (by omega) heq
  omega

/-! ## Where a new key goes -/

/-- What `site` holds after `l` probes: the last marker passed, if any. -/
def SiteAt (h : KhA K V) (L : Layout K) (key : K) (l site : ℕ) : Prop :=
  site = h.nBuckets ∨ ∃ l' < l, site = L.path key l' ∧ h.cells site = .deleted

/-- The bucket `kh_put_A` decides on is on the way of a search for the key; it
holds the key if the table does, and else it is free. -/
structure PutSite (h : KhA K V) (L : Layout K) (key : K) (x : ℕ) : Prop where
  lt : x < L.n
  reaches : Reaches L h.cells key x
  found : ∀ v, (key, v) ∈ contents L.n h.cells → h.cells x = .live key v
  free : (∀ v, (key, v) ∉ contents L.n h.cells) →
    h.cells x = .empty ∨ h.cells x = .deleted

theorem putSite_of_end {key : K} {j : ℕ}
    (hends : Ends (khLayout hashFunc m) h.cells key j)
    (hsound : Sound (khLayout hashFunc m) h.cells) :
    PutSite h (khLayout hashFunc m) key ((khLayout hashFunc m).path key j) where
  lt := Layout.path_lt _ key j
  reaches := hends.reaches le_rfl
  found _ hmem := hends.of_mem hsound hmem
  free hnot := Or.inl (hends.of_not_mem hnot)

theorem putSite_of_marker {key : K} {j l : ℕ}
    (hends : Ends (khLayout hashFunc m) h.cells key j)
    (hsound : Sound (khLayout hashFunc m) h.cells)
    (hempty : h.cells ((khLayout hashFunc m).path key j) = .empty) (hl : l < j)
    (hdel : h.cells ((khLayout hashFunc m).path key l) = .deleted) :
    PutSite h (khLayout hashFunc m) key ((khLayout hashFunc m).path key l) where
  lt := Layout.path_lt _ key l
  reaches := hends.reaches hl.le
  found v hmem := by
    have hlive := hends.of_mem hsound hmem
    rw [hempty] at hlive
    cases hlive
  free _ := Or.inr hdel

/-! ## The searches -/

section

variable [DecidableEq K]

/-- A probe before the end of a search goes on. -/
theorem probe_continues {key : K} {j l : ℕ}
    (hends : Ends (khLayout hashFunc m) h.cells key j) (hl : l < j) :
    (!acIsempty h.flags ((khLayout hashFunc m).path key l) &&
      (acIsdel h.flags ((khLayout hashFunc m).path key l) ||
        h.keys ((khLayout hashFunc m).path key l) != key)) = true := by
  obtain ⟨hempty, hlive⟩ := hends.before l hl
  rw [KhA.cells, ne_eq, khCells_eq_empty, Bool.not_eq_true] at hempty
  simp only [hempty, Bool.not_false, Bool.true_and, Bool.or_eq_true, bne_iff_ne]
  by_contra hno
  push Not at hno
  apply hlive (h.vals ((khLayout hashFunc m).path key l))
  rw [KhA.cells, khCells_eq_live, acIseither_eq, hempty]
  simp [hno.1, hno.2]

/-- The last probe of a search stops it. -/
theorem probe_stops {key : K} {j : ℕ}
    (hends : Ends (khLayout hashFunc m) h.cells key j) :
    (!acIsempty h.flags ((khLayout hashFunc m).path key j) &&
      (acIsdel h.flags ((khLayout hashFunc m).path key j) ||
        h.keys ((khLayout hashFunc m).path key j) != key)) = false := by
  rcases hends.stop with hempty | ⟨v, hlive⟩
  · rw [KhA.cells, khCells_eq_empty] at hempty
    simp [hempty]
  · rw [KhA.cells, khCells_eq_live, acIseither_eq, Bool.or_eq_false_iff] at hlive
    simp [hlive.1.2, hlive.2.1]

theorem khGetLoop_eq {key : K} {j : ℕ}
    (hends : Ends (khLayout hashFunc m) h.cells key j) (fuel l : ℕ)
    (hl : l ≤ j) (hfuel : j < l + fuel) :
    khGetLoop h key ((khLayout hashFunc m).inc key) (2 ^ (m + 2) - 1)
        ((khLayout hashFunc m).home key) fuel ((khLayout hashFunc m).path key l) =
      if acIseither h.flags ((khLayout hashFunc m).path key j) then
        some h.nBuckets
      else
        some ((khLayout hashFunc m).path key j) := by
  induction fuel generalizing l with
  | zero => omega
  | succ fuel ih =>
      unfold khGetLoop
      rcases Nat.eq_or_lt_of_le hl with rfl | hlt
      · rw [probe_stops hends]
        simp
      · rw [probe_continues hends hlt]
        simp only [if_true]
        rw [khLayout_next, if_neg (path_ne_home hends.lt hlt)]
        exact ih (l + 1) hlt (by omega)

theorem khGet_eq (hok : Allocated hashFunc h m) {key : K} {j : ℕ}
    (hends : Ends (khLayout hashFunc m) h.cells key j) :
    khGet hashFunc h key =
      if acIseither h.flags ((khLayout hashFunc m).path key j) then
        some h.nBuckets
      else
        some ((khLayout hashFunc m).path key j) := by
  have hpos : h.nBuckets ≠ 0 := by
    have hfour := four_le_buckets m
    rw [hok.buckets]
    omega
  have hfuel : j < 0 + h.nBuckets := by
    rw [Nat.zero_add, hok.buckets]
    exact hends.lt
  have hloop := khGetLoop_eq hends h.nBuckets 0 (Nat.zero_le j) hfuel
  rw [Layout.path_zero] at hloop
  unfold khGet
  rw [if_pos hpos]
  simp only [hok.buckets] at hloop ⊢
  exact hloop

theorem Allocated.khGet_of_mem (hok : Allocated hashFunc h m) {key : K} {v : V}
    (hmem : (key, v) ∈ h.entries) :
    ∃ i < h.nBuckets, khGet hashFunc h key = some i ∧
      h.cells i = .live key v := by
  obtain ⟨j, hends⟩ := hok.exists_ends key
  rw [KhA.entries, hok.buckets] at hmem
  have hlive := hends.of_mem hok.sound hmem
  refine ⟨(khLayout hashFunc m).path key j, ?_, ?_, hlive⟩
  · rw [hok.buckets]
    exact Layout.path_lt _ key j
  · rw [KhA.cells, khCells_eq_live] at hlive
    rw [khGet_eq hok hends, hlive.1]
    simp

theorem Allocated.khGet_of_not_mem (hok : Allocated hashFunc h m) {key : K}
    (hnot : ∀ v, (key, v) ∉ h.entries) :
    khGet hashFunc h key = some h.nBuckets := by
  obtain ⟨j, hends⟩ := hok.exists_ends key
  rw [KhA.entries, hok.buckets] at hnot
  have hempty := hends.of_not_mem hnot
  rw [KhA.cells, khCells_eq_empty] at hempty
  rw [khGet_eq hok hends, acIseither_eq, hempty]
  simp

theorem khPutLoop_eq {key : K} {j : ℕ}
    (hends : Ends (khLayout hashFunc m) h.cells key j) (fuel l site : ℕ)
    (hl : l ≤ j) (hfuel : j < l + fuel)
    (hsite : SiteAt h (khLayout hashFunc m) key l site) :
    ∃ site', SiteAt h (khLayout hashFunc m) key j site' ∧
      khPutLoop h key ((khLayout hashFunc m).inc key) (2 ^ (m + 2) - 1)
          ((khLayout hashFunc m).home key) fuel
          ((khLayout hashFunc m).path key l) site =
        some ((khLayout hashFunc m).path key j, site', h.nBuckets) := by
  induction fuel generalizing l site with
  | zero => omega
  | succ fuel ih =>
      unfold khPutLoop
      rcases Nat.eq_or_lt_of_le hl with rfl | hlt
      · refine ⟨site, hsite, ?_⟩
        rw [probe_stops hends]
        simp
      · rw [probe_continues hends hlt]
        simp only [if_true]
        rw [khLayout_next, if_neg (path_ne_home hends.lt hlt)]
        refine ih (l + 1) _ hlt (by omega) ?_
        split_ifs with hdel
        · refine Or.inr ⟨l, by omega, rfl, ?_⟩
          have hempty := (hends.before l hlt).1
          rw [KhA.cells, ne_eq, khCells_eq_empty, Bool.not_eq_true] at hempty
          exact khCells_eq_deleted.mpr ⟨hempty, hdel⟩
        · rcases hsite with hnone | ⟨l', hl', hsome⟩
          · exact Or.inl hnone
          · exact Or.inr ⟨l', by omega, hsome⟩

theorem Allocated.khPutSite_spec (hok : Allocated hashFunc h m) (key : K) :
    ∃ x, khPutSite hashFunc h key = some x ∧
      PutSite h (khLayout hashFunc m) key x := by
  obtain ⟨j, hends⟩ := hok.exists_ends key
  have hend := putSite_of_end hends hok.sound
  have hfuel : j < 0 + h.nBuckets := by
    rw [Nat.zero_add, hok.buckets]
    exact hends.lt
  obtain ⟨site, hsite, hloop⟩ :=
    khPutLoop_eq hends h.nBuckets 0 h.nBuckets (Nat.zero_le j) hfuel (Or.inl rfl)
  rw [Layout.path_zero] at hloop
  unfold khPutSite
  simp only [hok.buckets] at hloop ⊢
  by_cases hhome : acIsempty h.flags ((khLayout hashFunc m).home key) = true
  · -- the search ends where it starts
    have hj : j = 0 := by
      by_contra hne
      have hnot := (hends.before 0 (by omega)).1
      rw [Layout.path_zero, KhA.cells, ne_eq, khCells_eq_empty] at hnot
      exact hnot hhome
    subst hj
    rw [Layout.path_zero] at hend
    exact ⟨_, if_pos hhome, hend⟩
  · refine ⟨_, (if_neg hhome).trans (congrArg (Option.map _) hloop), ?_⟩
    simp only [if_true]
    split_ifs with htake
    · rcases hsite with hnone | ⟨l, hl, hpath, hdel⟩
      · exact absurd (hnone.trans hok.buckets) htake.2
      · rw [hpath] at hdel ⊢
        exact putSite_of_marker hends hok.sound
          (khCells_eq_empty.mpr htake.1) hl hdel
    · exact hend

end

/-! ## Writes -/

/-- One bucket was written, and the counters were moved along with it. -/
theorem Allocated.update (hok : Allocated hashFunc h m) (h' : KhA K V) {x : ℕ}
    {c : Cell K V} (hx : x < h.nBuckets) (hbuckets : h'.nBuckets = h.nBuckets)
    (hupper : h'.upperBound = h.upperBound)
    (hcells : h'.cells = Function.update h.cells x c)
    (hsize : h'.size + (h.cells x).entries.card = h.size + c.entries.card)
    (hoccupied : h'.nOccupied + (h.cells x).weight = h.nOccupied + c.weight)
    (hroom : h'.nOccupied ≤ h.upperBound)
    (hsound : Sound (khLayout hashFunc m) (Function.update h.cells x c)) :
    Allocated hashFunc h' m ∧
      h'.entries + (h.cells x).entries = h.entries + c.entries := by
  have hentries :
      h'.entries + (h.cells x).entries = h.entries + c.entries := by
    unfold KhA.entries
    rw [hbuckets, hcells]
    exact contents_update hx h.cells c
  refine ⟨?_, hentries⟩
  constructor
  · exact hok.small
  · rw [hbuckets, hok.buckets]
  · rw [hupper, hbuckets, hok.upper]
  · have hcard := congrArg Multiset.card hentries
    rw [Multiset.card_add, Multiset.card_add, ← hok.size_eq] at hcard
    omega
  · have hweight := occupied_update hx h.cells c
    rw [hbuckets, hcells]
    rw [← hok.occupied_eq] at hweight
    omega
  · rwa [hupper]
  · rwa [hcells]

theorem Allocated.fresh_nodup (hok : Allocated hashFunc h m) {key : K} {v : V}
    {x : ℕ} (hx : x < h.nBuckets) (hfree : (h.cells x).entries = 0)
    (hnot : ∀ v, (key, v) ∉ h.entries) :
    ((contents (khLayout hashFunc m).n
      (Function.update h.cells x (.live key v))).map Prod.fst).Nodup := by
  have hentries := contents_update hx h.cells (.live key v)
  have hnodup := hok.sound.nodup
  have hn : (khLayout hashFunc m).n = h.nBuckets := hok.buckets.symm
  rw [hn] at hnodup ⊢
  rw [hfree, add_zero, Cell.entries_live] at hentries
  rw [hentries, Multiset.map_add, Multiset.map_singleton, Multiset.nodup_add]
  refine ⟨hnodup, by simp, ?_⟩
  rw [Multiset.disjoint_right]
  intro k hk hmem
  rw [Multiset.mem_singleton] at hk
  subst hk
  obtain ⟨⟨k', v'⟩, hmem', rfl⟩ := Multiset.mem_map.mp hmem
  exact hnot v' hmem'

/-- What `kh_put_A` makes of a table without the key: one entry more, with the
value that happens to lie in its bucket. -/
theorem Allocated.khPutAt_spec (hok : Allocated hashFunc h m)
    (hroom : h.nOccupied < h.upperBound) {key : K} {x : ℕ}
    (hsite : PutSite h (khLayout hashFunc m) key x)
    (hnot : ∀ v, (key, v) ∉ h.entries) :
    ∃ h' ret, khPutAt h key x = (h', x, ret) ∧ Allocated hashFunc h' m ∧
      x < h'.nBuckets ∧ h'.cells x = .live key (h.vals x) ∧
      h'.entries = h.entries + {(key, h.vals x)} := by
  have hn : (khLayout hashFunc m).n = h.nBuckets := hok.buckets.symm
  have hx : x < h.nBuckets := hn ▸ hsite.lt
  have hfree := hsite.free (by rw [hn]; exact hnot)
  have hzero : (h.cells x).entries = 0 := by
    rcases hfree with hcell | hcell <;> rw [hcell] <;> rfl
  have hsound := hok.sound.write hsite.reaches
    (hok.fresh_nodup (v := h.vals x) hx hzero hnot)
  have hcells := khCells_setIsbothFalse h.flags h.keys h.vals x key
  unfold khPutAt
  rcases hfree with hcell | hcell
  · rw [if_pos (khCells_eq_empty.mp hcell)]
    refine ⟨_, _, rfl, ?_⟩
    obtain ⟨hok', hentries⟩ := hok.update
      { h with
        keys := Function.update h.keys x key
        flags := acSetIsbothFalse h.flags x
        size := h.size + 1
        nOccupied := h.nOccupied + 1 }
      hx rfl rfl hcells (by simp [hcell]) (by simp [hcell, Cell.weight])
      hroom hsound
    rw [hzero, add_zero] at hentries
    refine ⟨hok', hx, ?_, hentries⟩
    exact (congrFun hcells x).trans (Function.update_self _ _ _)
  · obtain ⟨hempty, hdel⟩ := khCells_eq_deleted.mp hcell
    rw [if_neg (by simp [hempty]), if_pos hdel]
    refine ⟨_, _, rfl, ?_⟩
    obtain ⟨hok', hentries⟩ := hok.update
      { h with
        keys := Function.update h.keys x key
        flags := acSetIsbothFalse h.flags x
        size := h.size + 1 }
      hx rfl rfl hcells (by simp [hcell]) (by simp [hcell, Cell.weight])
      hroom.le hsound
    rw [hzero, add_zero] at hentries
    refine ⟨hok', hx, ?_, hentries⟩
    exact (congrFun hcells x).trans (Function.update_self _ _ _)

theorem Allocated.khDel_spec (hok : Allocated hashFunc h m) {key : K} {v : V}
    {x : ℕ} (hx : x < h.nBuckets) (hlive : h.cells x = .live key v) :
    Allocated hashFunc (khDel h x) m ∧
      (khDel h x).entries + {(key, v)} = h.entries := by
  have hn : (khLayout hashFunc m).n = h.nBuckets := hok.buckets.symm
  have heither := (khCells_eq_live.mp hlive).1
  have hempty : acIsempty h.flags x = false := by
    rw [acIseither_eq, Bool.or_eq_false_iff] at heither
    exact heither.1
  have hsize : 1 ≤ h.size := by
    rw [hok.size_eq]
    exact Multiset.card_pos_iff_exists_mem.mpr
      ⟨_, mem_contents.mpr ⟨x, hx, hlive⟩⟩
  have hkey : khDel h x = { h with
      flags := acSetIsdelTrue h.flags x
      size := h.size - 1 } := if_pos ⟨by omega, heither⟩
  rw [hkey]
  obtain ⟨hok', hentries⟩ := hok.update
    { h with
      flags := acSetIsdelTrue h.flags x
      size := h.size - 1 }
    (c := .deleted) hx rfl rfl
    (khCells_setIsdelTrue hempty (fun _ _ => rfl) (fun _ _ => rfl))
    (by simp [hlive]; omega) (by simp [hlive, Cell.weight]) hok.room
    (hok.sound.mark (by omega))
  rw [hlive, Cell.entries_live, Cell.entries_deleted, add_zero] at hentries
  exact ⟨hok', hentries⟩

/-- A write to the value of an entry. -/
theorem Allocated.setVal (hok : Allocated hashFunc h m) {key : K} {v w : V}
    {x : ℕ} (hx : x < h.nBuckets) (hlive : h.cells x = .live key v) :
    Allocated hashFunc { h with vals := Function.update h.vals x w } m ∧
      { h with vals := Function.update h.vals x w }.entries + {(key, v)} =
        h.entries + {(key, w)} := by
  have hn : (khLayout hashFunc m).n = h.nBuckets := hok.buckets.symm
  obtain ⟨heither, hkey, -⟩ := khCells_eq_live.mp hlive
  have hcells := khCells_updateVal heither h.keys h.vals w
  rw [hkey] at hcells
  have hentries := contents_update hx h.cells (.live key w)
  rw [hlive, Cell.entries_live, Cell.entries_live] at hentries
  have hnodup :
      ((contents (khLayout hashFunc m).n
        (Function.update h.cells x (.live key w))).map Prod.fst).Nodup := by
    have hkeys := congrArg (Multiset.map Prod.fst) hentries
    simp only [Multiset.map_add, Multiset.map_singleton] at hkeys
    rw [hn, add_right_cancel hkeys, ← hn]
    exact hok.sound.nodup
  have hreach := hok.sound.reach x (by omega) key v hlive
  have hupdate := hok.update
    { h with vals := Function.update h.vals x w }
    hx rfl rfl hcells (by simp [hlive]) (by simp [hlive, Cell.weight]) hok.room
    (hok.sound.write hreach hnodup)
  rwa [hlive, Cell.entries_live, Cell.entries_live] at hupdate

end KhA

end GreaseLog
