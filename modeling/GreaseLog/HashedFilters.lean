import GreaseLog.KHashRuns
import GreaseLog.FilterTable

/-!
# The filter table on the hash table

`FilterTable` looks lists up in a finite map.  Here `filterHashTable` is the
hash table itself, as `_addFilter` and `_lookupFilter` use it, and the two are
shown to agree after every history of calls: the same lists, the same answers
and the same list for every hash that `sift` may ask for.
-/

namespace GreaseLog

structure HashedFilters where
  nextFilterId : FilterId
  lists : List FilterList
  hashTable : TwKHash FilterHash FilterListPtr

namespace HashedFilters

/-- The constructor of the logger; the memory of the table is arbitrary. -/
def start (flags : KhFlags) (keys : ℕ → FilterHash)
    (vals : ℕ → Option FilterListPtr) : HashedFilters where
  nextFilterId := 1
  lists := []
  hashTable := KhA.khInit flags keys vals

def find (t : HashedFilters) (hash : FilterHash) :
    Option (Option FilterListPtr) :=
  t.hashTable.find twHashFunc hash

def deref (t : HashedFilters) (p : FilterListPtr) : Option FilterList :=
  if p = 0 then none else t.lists[p.toNat - 1]?

/-- `if(!filterHashTable.find(hash,list)) { list = new FilterList();
filterHashTable.addNoreplace(hash, list); }`.  The inner result is none when
the list cannot be allocated. -/
def findOrNew (t : HashedFilters) (hash : FilterHash) :
    Option (HashedFilters × Option FilterListPtr) :=
  (t.find hash).bind fun list =>
    match list with
    | some p => some (t, some p)
    | none =>
        if t.lists.length + 1 < 2 ^ 64 then
          let p : FilterListPtr := UInt64.ofNat (t.lists.length + 1)
          (t.hashTable.addNoreplace twHashFunc hash p).map fun q =>
            ({ t with
              lists := t.lists ++ [FilterList.new]
              hashTable := q.1 }, some p)
        else
          some (t, none)

/-- The change made through a list pointer, if there is one to make. -/
def modify (t : HashedFilters) (list : Option FilterListPtr)
    (change : FilterList → Option FilterList) : HashedFilters × Bool :=
  match list with
  | none => (t, false)
  | some p =>
      match (t.deref p).bind change with
      | some next => ({ t with lists := t.lists.set (p.toNat - 1) next }, true)
      | none => (t, false)

def addFilter (t : HashedFilters) (a : FilterArgs) :
    Option (HashedFilters × Option FilterId) :=
  let id := t.nextFilterId
  (findOrNew { t with nextFilterId := id + 1 }
      (filterhash a.tag a.origin)).map fun q =>
    let r := q.1.modify q.2 (·.add (a.filter id))
    (r.1, if r.2 then some id else none)

def setFilter (t : HashedFilters) (origin : OriginId) (tag : TagId)
    (id : FilterId) (v : Bool) : Option (HashedFilters × Bool) :=
  (t.find (filterhash tag origin)).map fun list =>
    t.modify list (·.setDisabled id v)

def call (t : HashedFilters) : FilterCall → Option HashedFilters
  | .add a => (t.addFilter a).map Prod.fst
  | .disable origin tag id => (t.setFilter origin tag id true).map Prod.fst
  | .enable origin tag id => (t.setFilter origin tag id false).map Prod.fst

def build (t : HashedFilters) (history : List FilterCall) :
    Option HashedFilters :=
  history.foldlM call t

/-! ## Simulation -/

structure Simulates (t : HashedFilters) (table : FilterTable) : Prop where
  nextFilterId : t.nextFilterId = table.nextFilterId
  lists : t.lists = table.lists
  hashTable : TwKHash.Represents twHashFunc t.hashTable table.hashTable
  one_each : table.hashTable.entries.length = table.lists.length

theorem Simulates.start (flags : KhFlags) (keys : ℕ → FilterHash)
    (vals : ℕ → Option FilterListPtr) :
    Simulates (start flags keys vals) FilterTable.empty :=
  ⟨rfl, rfl, TwKHash.represents_khInit flags keys vals, rfl⟩

variable {t : HashedFilters} {table : FilterTable}

theorem Simulates.find (hsim : Simulates t table) (hash : FilterHash) :
    t.find hash = some (table.find hash) :=
  hsim.hashTable.find hash

theorem Simulates.deref (hsim : Simulates t table) (p : FilterListPtr) :
    t.deref p = table.deref p := by
  unfold HashedFilters.deref FilterTable.deref
  rw [hsim.lists]

theorem Simulates.store (hsim : Simulates t table) (p : FilterListPtr)
    (list : FilterList) :
    Simulates { t with lists := t.lists.set (p.toNat - 1) list }
      (table.store p list) := by
  refine ⟨hsim.nextFilterId, ?_, hsim.hashTable, ?_⟩
  · rw [FilterTable.store, ← hsim.lists]
  · simpa [FilterTable.store] using hsim.one_each

theorem Simulates.findOrNew (hsim : Simulates t table)
    (hsmall : table.lists.length < 2 ^ 30) (hash : FilterHash) :
    ∃ t' table' p, t.findOrNew hash = some (t', some p) ∧
      table.findOrNew hash = some (table', p) ∧ Simulates t' table' := by
  have hroom : table.lists.length + 1 < 2 ^ 64 := by omega
  cases hfind : table.find hash with
  | some p =>
      refine ⟨t, table, p, ?_, ?_, hsim⟩
      · simp [HashedFilters.findOrNew, hsim.find, hfind]
      · simp [FilterTable.findOrNew, hfind]
  | none =>
      have hlookup : table.hashTable.lookup hash = none := hfind
      obtain ⟨h', hadd, hrep⟩ := hsim.hashTable.addNoreplace
        (by rw [hsim.one_each]; exact hsmall) hash
        (UInt64.ofNat (table.lists.length + 1))
      rw [hlookup] at hadd hrep
      refine ⟨{ t with
          lists := t.lists ++ [FilterList.new]
          hashTable := h' },
        { table with
          lists := table.lists ++ [FilterList.new]
          hashTable := table.hashTable.insert hash
            (UInt64.ofNat (table.lists.length + 1)) },
        UInt64.ofNat (table.lists.length + 1), ?_, ?_, ?_⟩
      · unfold HashedFilters.findOrNew
        simp only [hsim.find, hfind, Option.bind_some, hsim.lists]
        rw [if_pos hroom, hadd]
        rfl
      · unfold FilterTable.findOrNew FilterTable.newList
        simp only [hfind]
        rw [if_pos hroom]
      · refine ⟨hsim.nextFilterId, by rw [hsim.lists], by simpa using hrep, ?_⟩
        have hnot := AList.lookup_eq_none.mp hlookup
        rw [AList.entries_insert_of_notMem hnot, List.length_cons,
          List.length_append, List.length_singleton, hsim.one_each]

/-- A change made through a pointer, on the other side. -/
theorem Simulates.modify (hsim : Simulates t table) (p : FilterListPtr)
    (change : FilterList → Option FilterList) :
    (∃ list, (table.deref p).bind change = some list ∧
        (t.modify (some p) change).2 = true ∧
        Simulates (t.modify (some p) change).1 (table.store p list)) ∨
      ((table.deref p).bind change = none ∧
        t.modify (some p) change = (t, false)) := by
  unfold HashedFilters.modify
  simp only [hsim.deref p]
  cases (table.deref p).bind change with
  | none => exact Or.inr ⟨rfl, rfl⟩
  | some list => exact Or.inl ⟨list, rfl, rfl, hsim.store p list⟩

theorem Simulates.addFilter (hsim : Simulates t table)
    (hsmall : table.lists.length < 2 ^ 30) (a : FilterArgs) :
    ∃ t', t.addFilter a = some (t', (table.addFilter a).2) ∧
      Simulates t' (table.addFilter a).1 := by
  have hcount : Simulates { t with nextFilterId := table.nextFilterId + 1 }
      { table with nextFilterId := table.nextFilterId + 1 } :=
    ⟨rfl, hsim.lists, hsim.hashTable, hsim.one_each⟩
  obtain ⟨t₁, table₁, p, hnew, hnew', hsim₁⟩ :=
    hcount.findOrNew hsmall (filterhash a.tag a.origin)
  unfold HashedFilters.addFilter FilterTable.addFilter
  simp only [hsim.nextFilterId, hnew, hnew', Option.map_some]
  rcases hsim₁.modify p (·.add (a.filter table.nextFilterId)) with
    ⟨list, hlist, hanswer, hsim₂⟩ | ⟨hlist, hsame⟩
  · simp only [hlist, hanswer, if_true]
    exact ⟨_, rfl, hsim₂⟩
  · simp only [hlist, hsame]
    exact ⟨t₁, rfl, hsim₁⟩

theorem Simulates.setFilter (hsim : Simulates t table) (origin : OriginId)
    (tag : TagId) (id : FilterId) (v : Bool) :
    ∃ t', t.setFilter origin tag id v =
        some (t', (table.setFilter origin tag id v).2) ∧
      Simulates t' (table.setFilter origin tag id v).1 := by
  unfold HashedFilters.setFilter FilterTable.setFilter
  rw [hsim.find, Option.map_some]
  cases table.find (filterhash tag origin) with
  | none => exact ⟨t, rfl, hsim⟩
  | some p =>
      rcases hsim.modify p (·.setDisabled id v) with
        ⟨list, hlist, hanswer, hsim'⟩ | ⟨hlist, hsame⟩
      · simp only [hlist]
        exact ⟨_, congrArg some (Prod.ext rfl hanswer), hsim'⟩
      · simp only [hlist, hsame]
        exact ⟨t, rfl, hsim⟩

theorem Simulates.call (hsim : Simulates t table)
    (hsmall : table.lists.length < 2 ^ 30) (c : FilterCall) :
    ∃ t', t.call c = some t' ∧ Simulates t' (table.call c) := by
  cases c with
  | add a =>
      obtain ⟨t', hrun, hsim'⟩ := hsim.addFilter hsmall a
      exact ⟨t', by simp [HashedFilters.call, hrun], hsim'⟩
  | disable origin tag id =>
      obtain ⟨t', hrun, hsim'⟩ := hsim.setFilter origin tag id true
      exact ⟨t', by simp [HashedFilters.call, hrun], hsim'⟩
  | enable origin tag id =>
      obtain ⟨t', hrun, hsim'⟩ := hsim.setFilter origin tag id false
      exact ⟨t', by simp [HashedFilters.call, hrun], hsim'⟩

/-! ## Histories -/

theorem length_lists_findOrNew {table next : FilterTable} {hash : FilterHash}
    {p : FilterListPtr} (hnew : table.findOrNew hash = some (next, p)) :
    table.lists.length ≤ next.lists.length := by
  unfold FilterTable.findOrNew at hnew
  cases hfind : table.find hash with
  | some q =>
      simp only [hfind, Option.some.injEq, Prod.mk.injEq] at hnew
      rw [hnew.1]
  | none =>
      simp only [hfind, FilterTable.newList] at hnew
      split at hnew
      · simp only [Option.some.injEq, Prod.mk.injEq] at hnew
        rw [← hnew.1]
        simp
      · cases hnew

/-- Lists are never freed. -/
theorem length_lists_call (table : FilterTable) (c : FilterCall) :
    table.lists.length ≤ (table.call c).lists.length := by
  have hset : ∀ origin tag id v,
      table.lists.length ≤ (table.setFilter origin tag id v).1.lists.length := by
    intro origin tag id v
    unfold FilterTable.setFilter
    split
    · exact le_rfl
    · split <;> simp [FilterTable.store]
  cases c with
  | add a =>
      unfold FilterTable.call FilterTable.addFilter
      simp only
      split
      · exact le_rfl
      · rename_i next p hnew
        have hle := length_lists_findOrNew hnew
        split <;> simpa [FilterTable.store] using hle
  | disable origin tag id => exact hset origin tag id true
  | enable origin tag id => exact hset origin tag id false

theorem length_lists_foldl (table : FilterTable) (history : List FilterCall) :
    table.lists.length ≤ (history.foldl FilterTable.call table).lists.length := by
  induction history generalizing table with
  | nil => exact le_rfl
  | cons c history ih => exact (length_lists_call table c).trans (ih _)

theorem Simulates.build (hsim : Simulates t table) (history : List FilterCall)
    (hsmall :
      (history.foldl FilterTable.call table).lists.length < 2 ^ 30) :
    ∃ t', t.build history = some t' ∧
      Simulates t' (history.foldl FilterTable.call table) := by
  induction history generalizing t table with
  | nil => exact ⟨t, rfl, hsim⟩
  | cons c history ih =>
      have hgrow := length_lists_foldl table (c :: history)
      obtain ⟨t₁, hcall, hsim₁⟩ := hsim.call (by omega) c
      obtain ⟨t₂, hbuild, hsim₂⟩ := ih hsim₁ hsmall
      refine ⟨t₂, ?_, hsim₂⟩
      rw [HashedFilters.build, List.foldlM_cons, hcall]
      exact hbuild

end HashedFilters

open HashedFilters in
/-- With the hash table in the place of the finite map, every history of calls
leaves the same lists and ids, finds the same list for every hash, and gives
the same answers to the next call. -/
theorem hashed_filters_agree (flags : KhFlags) (keys : ℕ → FilterHash)
    (vals : ℕ → Option FilterListPtr) (history : List FilterCall)
    (hsmall : (FilterTable.build history).lists.length < 2 ^ 30) :
    ∃ t, (start flags keys vals).build history = some t ∧
      t.lists = (FilterTable.build history).lists ∧
      t.nextFilterId = (FilterTable.build history).nextFilterId ∧
      (∀ hash, t.find hash = some ((FilterTable.build history).find hash)) ∧
      (∀ a, (t.addFilter a).map Prod.snd =
        some ((FilterTable.build history).addFilter a).2) ∧
      ∀ origin tag id v, (t.setFilter origin tag id v).map Prod.snd =
        some ((FilterTable.build history).setFilter origin tag id v).2 := by
  obtain ⟨t, hbuild, hsim⟩ :=
    (Simulates.start flags keys vals).build history hsmall
  refine ⟨t, hbuild, hsim.lists, hsim.nextFilterId, hsim.find, fun a => ?_,
    fun origin tag id v => ?_⟩
  · obtain ⟨t', hadd, -⟩ := hsim.addFilter hsmall a
    rw [hadd]
    rfl
  · obtain ⟨t', hset, -⟩ := hsim.setFilter origin tag id v
    rw [hset]
    rfl

open HashedFilters in
theorem hashed_filters_agree_two :
    ∃ t, (start (fun _ => 0) (fun _ => 0) (fun _ => none)).build
        [.add { target := 0, origin := 1, tag := 2, mask := 1 },
          .add { target := 0, origin := 1, tag := 3, mask := 1 }] = some t ∧
      t.find (filterhash 3 1) = some (some 2) := by
  obtain ⟨t, hbuild, -, -, hfind, -⟩ :=
    hashed_filters_agree (fun _ => 0) (fun _ => 0) (fun _ => none)
      [.add { target := 0, origin := 1, tag := 2, mask := 1 },
        .add { target := 0, origin := 1, tag := 3, mask := 1 }] (by decide)
  exact ⟨t, hbuild, (hfind _).trans (by decide)⟩

end GreaseLog
