import GreaseLog.FilterTableInvariant

/-!
# Sifting and dispatch

`sift` decides whether a message is logged and caches in its metadata which
filter list applies: the first one that exists among the lists of
`(tag, origin)`, `(0, origin)`, `(tag, 0)` and `(0, 0)`.  The dispatch of
`handleInternalCmd` walks over the cached lists and writes the message once
for every filter that applies, or once with the default filter if there was no
such write.

Writes change neither the filters nor which targets exist, so the dispatch is
given as the list of filters it writes for.  The target of a write is the
target of its filter, where `0` stands for the default target.
-/

namespace GreaseLog

/-- The part of `Opts` that `sift` reads. -/
structure SiftOpts where
  levelFilterOutMask : LevelMask
  defaultFilterOut : Bool
  deriving DecidableEq, Repr

namespace FilterTable

/-- The lookups of `sift`, with the cache slot for the list they find. -/
def firstList (table : FilterTable) (hashes : Vector FilterHash 3) :
    Option (Fin 4 × FilterListPtr) :=
  match table.find (hashes.get 0) with
  | some list => some (0, list)
  | none =>
      match table.find (hashes.get 1) with
      | some list => some (1, list)
      | none =>
          match table.find (hashes.get 2) with
          | some list => some (2, list)
          | none =>
              match table.find 0 with
              | some list => some (3, list)
              | none => none

def sift (table : FilterTable) (opts : SiftOpts) (m : LogMeta) :
    Bool × LogMeta :=
  if opts.levelFilterOutMask &&& m.level ≠ 0 then
    (false, m)
  else if m.hasCache then
    (true, m)
  else
    let m := { m with cachedHash := getHashes m.tag m.origin }
    match table.firstList m.cachedHash with
    | some (i, list) => (true, m.setList i list)
    | none => (!opts.defaultFilterOut, m)

end FilterTable

def LogMeta.consulted (m : LogMeta) : List FilterListPtr :=
  m.cachedLists.toList.filter (· != 0)

def Filter.selects (f : Filter) (registered : TargetId → Bool)
    (e : ExtraLogMeta) : Bool :=
  f.applies e.m.level &&
    (f.targetId == 0 || (!e.ignores f.targetId && registered f.targetId))

def FilterList.routes (list : FilterList) (registered : TargetId → Bool)
    (e : ExtraLogMeta) : List Filter :=
  if list.valid e.m.level then
    list.live.filter (·.selects registered e)
  else
    []

namespace FilterTable

def routes (table : FilterTable) (registered : TargetId → Bool)
    (e : ExtraLogMeta) : List Filter :=
  e.m.consulted.flatMap fun p =>
    match table.deref p with
    | some list => list.routes registered e
    | none => []

/-- The filters the message is written for; `Filter.empty` is
`defaultFilter`. -/
def dispatch (table : FilterTable) (registered : TargetId → Bool)
    (e : ExtraLogMeta) : List Filter :=
  if table.routes registered e = [] then [Filter.empty]
  else table.routes registered e

/-- The dispatch follows a stray pointer or walks past the end of a list. -/
def strays (table : FilterTable) (m : LogMeta) : Bool :=
  m.consulted.any fun p =>
    match table.deref p with
    | some list => list.valid m.level && list.overruns
    | none => true

/-! ## What `sift` leaves in the metadata -/

theorem sift_masked
    (table : FilterTable) {opts : SiftOpts} {m : LogMeta}
    (hmask : opts.levelFilterOutMask &&& m.level ≠ 0) :
    table.sift opts m = (false, m) := by
  simp [sift, hmask]

theorem sift_cached
    (table : FilterTable) {opts : SiftOpts} {m : LogMeta}
    (hmask : opts.levelFilterOutMask &&& m.level = 0)
    (hcache : m.hasCache = true) :
    table.sift opts m = (true, m) := by
  simp [sift, hmask, hcache]

theorem sift_uncached
    (table : FilterTable) {opts : SiftOpts} {m : LogMeta}
    (hmask : opts.levelFilterOutMask &&& m.level = 0)
    (hcache : m.hasCache = false) :
    table.sift opts m =
      match table.firstList (getHashes m.tag m.origin) with
      | some (i, list) =>
          (true, { m with
            cachedHash := getHashes m.tag m.origin }.setList i list)
      | none =>
          (!opts.defaultFilterOut,
            { m with cachedHash := getHashes m.tag m.origin }) := by
  simp only [sift, hmask, ne_eq, not_true_eq_false, if_false, hcache,
    Bool.false_eq_true]

theorem sift_frame
    (table : FilterTable) (opts : SiftOpts) (m : LogMeta) :
    (table.sift opts m).2.tag = m.tag ∧
      (table.sift opts m).2.level = m.level ∧
      (table.sift opts m).2.origin = m.origin ∧
      (table.sift opts m).2.target = m.target ∧
      (table.sift opts m).2.extras = m.extras := by
  unfold sift
  split
  · simp
  · split
    · simp
    · dsimp only
      split <;> simp [LogMeta.setList]

/-- A message accepted once is accepted again with the same cache, as long as
the filters stay as they are. -/
theorem sift_sift
    (table : FilterTable) {opts : SiftOpts} {m : LogMeta}
    (haccept : (table.sift opts m).1 = true) :
    table.sift opts (table.sift opts m).2 =
      (true, (table.sift opts m).2) := by
  by_cases hmask : opts.levelFilterOutMask &&& m.level = 0
  · cases hcache : m.hasCache with
    | true =>
        rw [sift_cached table hmask hcache]
        exact sift_cached table hmask hcache
    | false =>
        rw [sift_uncached table hmask hcache] at haccept ⊢
        cases hfirst : table.firstList (getHashes m.tag m.origin) with
        | none =>
            simp only [hfirst] at haccept ⊢
            -- the cached hash may still be the one that means "no cache"
            cases hagain : LogMeta.hasCache
                { m with cachedHash := getHashes m.tag m.origin } with
            | true => exact sift_cached table hmask hagain
            | false =>
                have hsift := sift_uncached table
                  (m := { m with cachedHash := getHashes m.tag m.origin })
                  hmask hagain
                simp only [hfirst, haccept] at hsift
                exact hsift
        | some found =>
            obtain ⟨i, list⟩ := found
            simp only
            cases hagain : LogMeta.hasCache ({ m with
                cachedHash := getHashes m.tag m.origin }.setList i list) with
            | true => exact sift_cached table hmask hagain
            | false =>
                have hsift := sift_uncached table
                  (m := { m with
                    cachedHash := getHashes m.tag m.origin }.setList i list)
                  hmask hagain
                simp only [LogMeta.setList, hfirst, Vector.set_set] at hsift
                exact hsift
  · rw [sift_masked table hmask] at haccept
    exact absurd haccept (by simp)

/-! ## Fresh metadata -/

/-- The pairs of tag and origin under which filters for a message are looked
up, in order. -/
def pairs (tag : TagId) (origin : OriginId) : List (TagId × OriginId) :=
  [(tag, origin), (0, origin), (tag, 0), (0, 0)]

/-- The filter list that decides about messages with this tag and origin. -/
def chosenList (table : FilterTable) (tag : TagId) (origin : OriginId) :
    Option FilterList :=
  (pairs tag origin).findSome? fun pair =>
    table.listAt (filterhash pair.1 pair.2)

def chosenPtr (table : FilterTable) (tag : TagId) (origin : OriginId) :
    Option FilterListPtr :=
  (pairs tag origin).findSome? fun pair =>
    table.find (filterhash pair.1 pair.2)

theorem firstList_map_snd
    (table : FilterTable) (tag : TagId) (origin : OriginId) :
    (table.firstList (getHashes tag origin)).map Prod.snd =
      table.chosenPtr tag origin := by
  have hhash : (getHashes tag origin).get 0 = filterhash tag origin := by
    rw [getHashes_eq]
    rfl
  have hhash' : (getHashes tag origin).get 1 = filterhash 0 origin := by
    rw [getHashes_eq]
    rfl
  have hhash'' : (getHashes tag origin).get 2 = filterhash tag 0 := by
    rw [getHashes_eq]
    rfl
  unfold firstList chosenPtr pairs
  simp only [hhash, hhash', hhash'', List.findSome?_cons, List.findSome?_nil,
    filterhash_zero_zero]
  cases table.find (filterhash tag origin) <;>
    cases table.find (filterhash 0 origin) <;>
    cases table.find (filterhash tag 0) <;>
    cases table.find 0 <;> rfl

theorem Valid.findSome_bind_deref
    {table : FilterTable} (hvalid : table.Valid)
    (pairs : List (TagId × OriginId)) :
    (pairs.findSome? fun pair => table.find (filterhash pair.1 pair.2)).bind
        table.deref =
      pairs.findSome? fun pair => table.listAt (filterhash pair.1 pair.2) := by
  induction pairs with
  | nil => rfl
  | cons pair rest ih =>
      cases hfind : table.find (filterhash pair.1 pair.2) with
      | none =>
          have hat := hvalid.find_eq_none_iff.mp hfind
          simp [hfind, hat, ih]
      | some p =>
          rcases hvalid.deref_find hfind with ⟨list, hderef, -⟩
          simp [hfind, listAt, hderef]

theorem Valid.chosenPtr_bind_deref
    {table : FilterTable} (hvalid : table.Valid)
    (tag : TagId) (origin : OriginId) :
    (table.chosenPtr tag origin).bind table.deref =
      table.chosenList tag origin :=
  hvalid.findSome_bind_deref (pairs tag origin)

theorem exists_find_of_chosenPtr
    {table : FilterTable} {tag : TagId} {origin : OriginId}
    {p : FilterListPtr} (hchosen : table.chosenPtr tag origin = some p) :
    ∃ pair ∈ pairs tag origin,
      table.find (filterhash pair.1 pair.2) = some p := by
  rcases List.exists_of_findSome?_eq_some hchosen with ⟨pair, hpair, hfind⟩
  exact ⟨pair, hpair, hfind⟩

theorem consulted_setList
    {m : LogMeta} (hempty : m.cachedLists = #v[0, 0, 0, 0]) (i : Fin 4)
    {p : FilterListPtr} (hp : p ≠ 0) :
    (m.setList i p).consulted = [p] := by
  simp only [LogMeta.consulted, LogMeta.setList, hempty]
  fin_cases i <;> simp [hp]

/-- Sifting fresh metadata accepts the message if there is a list for it or
messages pass by default, and makes the dispatch consult that list only. -/
theorem Valid.sift_fresh
    {table : FilterTable} (hvalid : table.Valid)
    {opts : SiftOpts} {m : LogMeta} (hfresh : m.Fresh)
    (hmask : opts.levelFilterOutMask &&& m.level = 0) :
    (table.sift opts m).1 =
        ((table.chosenPtr m.tag m.origin).isSome ||
          !opts.defaultFilterOut) ∧
      (table.sift opts m).2.consulted =
        (table.chosenPtr m.tag m.origin).toList := by
  have hcache : m.hasCache = false := by simp [LogMeta.hasCache, hfresh.1]
  have hfirst := table.firstList_map_snd m.tag m.origin
  rw [sift_uncached table hmask hcache, ← hfirst]
  cases hfound : table.firstList (getHashes m.tag m.origin) with
  | none => simp [LogMeta.consulted, hfresh.2]
  | some found =>
      rcases found with ⟨i, p⟩
      have hp : p ≠ 0 := by
        rw [hfound, Option.map_some] at hfirst
        rcases exists_find_of_chosenPtr hfirst.symm with ⟨pair, -, hfind⟩
        exact (hvalid.points _ p hfind).1
      refine ⟨by simp, ?_⟩
      simp only [Option.map_some, Option.toList_some]
      exact consulted_setList hfresh.2 i hp

theorem Valid.chosenPtr_cases
    {table : FilterTable} (hvalid : table.Valid)
    (tag : TagId) (origin : OriginId) :
    (table.chosenPtr tag origin = none ∧
        table.chosenList tag origin = none) ∨
      ∃ p list, table.chosenPtr tag origin = some p ∧
        table.chosenList tag origin = some list ∧
        table.deref p = some list ∧ list.Good := by
  have hbind := hvalid.chosenPtr_bind_deref tag origin
  cases hchosen : table.chosenPtr tag origin with
  | none =>
      rw [hchosen] at hbind
      exact Or.inl ⟨rfl, hbind.symm⟩
  | some p =>
      rcases exists_find_of_chosenPtr hchosen with ⟨pair, -, hfind⟩
      rcases hvalid.deref_find hfind with ⟨list, hderef, hmem⟩
      rw [hchosen, Option.bind_some, hderef] at hbind
      exact Or.inr ⟨p, list, rfl, hbind.symm, hderef, hvalid.good list hmem⟩

theorem Valid.routes_fresh
    {table : FilterTable} (hvalid : table.Valid)
    {opts : SiftOpts} {m : LogMeta} (hfresh : m.Fresh)
    (hmask : opts.levelFilterOutMask &&& m.level = 0)
    (registered : TargetId → Bool) {e : ExtraLogMeta}
    (he : e.m = (table.sift opts m).2) :
    table.routes registered e =
      ((table.chosenList m.tag m.origin).map
        (·.routes registered e)).getD [] := by
  unfold routes
  rw [he, (hvalid.sift_fresh hfresh hmask).2]
  rcases hvalid.chosenPtr_cases m.tag m.origin with
    ⟨hnone, hmissing⟩ | ⟨p, list, hchosen, hlist, hderef, -⟩
  · simp [hnone, hmissing]
  · simp [hchosen, hlist, hderef]

end FilterTable

namespace FilterList

/-- In a good list the bloom only says again what the masks say. -/
theorem Good.routes_eq
    {list : FilterList} (hgood : list.Good)
    (registered : TargetId → Bool) (e : ExtraLogMeta) :
    list.routes registered e = list.live.filter (·.selects registered e) := by
  unfold routes
  split
  · rfl
  · rename_i hinvalid
    symm
    rw [List.filter_eq_nil_iff]
    intro f hf hselects
    apply hinvalid
    obtain ⟨hslot, hid⟩ := mem_slots_of_mem_live hf
    simp only [Filter.selects, Filter.applies, Bool.and_eq_true,
      bne_iff_ne] at hselects
    simp only [valid, bne_iff_ne]
    exact hgood.covered f hslot hid e.m.level hselects.1.1

end FilterList

end GreaseLog
