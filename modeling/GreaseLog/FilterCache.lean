import GreaseLog.LoggerSteps
import GreaseLog.Run

/-!
# The cache in the caller's metadata

`logP` sifts the metadata of the caller in place, so that a caller who logs
with one object again hands back the hashes and the list that an earlier call
found.  `sift` trusts such an object without another look at the table.  A run
below is a caller who keeps one object, while the rest of the program goes on
logging and calling `addFilter`.

The cached answer is right in two cases: nothing has been cached yet, or a sift
of the reset object would accept the message now and cache the same.
-/

namespace GreaseLog

structure LogCall where
  following : IgnoreList
  text : List UInt8

namespace Logger

/-- `logP`, with the metadata it leaves to the caller. -/
def logP (s : Logger) (m : LogMeta) (c : LogCall) : Logger × LogMeta :=
  (s.log m c.following c.text,
    if greaseMaxMessageSize < c.text.length then m
    else (s.filters.sift s.opts m).2)

/-- A caller who logs with the same metadata object. -/
def logAgain (held : Logger × LogMeta) (c : LogCall) : Logger × LogMeta :=
  held.1.logP held.2 c

theorem logP_rejected
    {s : Logger} {m : LogMeta}
    (hreject : (s.filters.sift s.opts m).1 = false) (c : LogCall) :
    s.logP m c =
      (s, if greaseMaxMessageSize < c.text.length then m
        else (s.filters.sift s.opts m).2) := by
  unfold logP log
  simp [hreject]

end Logger

namespace LogMeta

theorem fresh_resetCache (m : LogMeta) : m.resetCache.Fresh := ⟨rfl, rfl⟩

theorem Fresh.hasCache {m : LogMeta} (hfresh : m.Fresh) :
    m.hasCache = false := by
  simp [LogMeta.hasCache, hfresh.1]

theorem hasCache_getHashes (m : LogMeta) :
    ({ m with cachedHash := getHashes m.tag m.origin }).hasCache =
      (filterhash m.tag m.origin != noCachedHash) := by
  simp [hasCache, getHashes_eq]

end LogMeta

/-! ## Messages no filter is for -/

namespace FilterTable

theorem firstList_eq_none
    {table : FilterTable} {tag : TagId} {origin : OriginId}
    (hnone : table.chosenPtr tag origin = none) :
    table.firstList (getHashes tag origin) = none := by
  have hfirst := table.firstList_map_snd tag origin
  rw [hnone] at hfirst
  exact Option.map_eq_none_iff.mp hfirst

theorem sift_unlisted
    {table : FilterTable} {opts : SiftOpts} {m : LogMeta}
    (hnone : table.chosenPtr m.tag m.origin = none)
    (hout : opts.defaultFilterOut = true)
    (hmask : opts.levelFilterOutMask &&& m.level = 0)
    (hcache : m.hasCache = false) :
    table.sift opts m =
      (false, { m with cachedHash := getHashes m.tag m.origin }) := by
  rw [sift_uncached table hmask hcache, firstList_eq_none hnone]
  simp [hout]

end FilterTable

namespace Logger

/-- However often the message is logged with its metadata object, nothing is
queued, and the object is judged as if its cache were reset. -/
def StaysRejected (table : FilterTable) (opts : SiftOpts) (m : LogMeta) :
    Prop :=
  ∀ s : Logger, s.filters = table → s.opts = opts → ∀ calls : List LogCall,
    (Run.final logAgain (s, m) calls).1 = s ∧
      (table.sift opts (Run.final logAgain (s, m) calls).2).1 =
        (table.sift opts (Run.final logAgain (s, m) calls).2.resetCache).1

/-- A masked level rejects the message before the cache is looked at. -/
theorem staysRejected_masked
    (table : FilterTable) {opts : SiftOpts} {m : LogMeta}
    (hmask : opts.levelFilterOutMask &&& m.level ≠ 0) :
    StaysRejected table opts m := by
  intro s hfilters hopts calls
  have hstep : ∀ held c, held = (s, m) → logAgain held c = (s, m) := by
    rintro held c rfl
    have hsift : s.filters.sift s.opts m = (false, m) := by
      rw [hfilters, hopts]
      exact table.sift_masked hmask
    unfold logAgain
    rw [logP_rejected (by rw [hsift]) c, hsift]
    simp
  have hfinal : Run.final logAgain (s, m) calls = (s, m) :=
    Run.final_preserves (I := fun held => held = (s, m)) hstep calls rfl
  have hreset : opts.levelFilterOutMask &&& m.resetCache.level ≠ 0 := hmask
  rw [hfinal, table.sift_masked hmask, table.sift_masked hreset]
  exact ⟨rfl, rfl⟩

/-- The object after some calls which cached nothing. -/
structure StillUncached (m m' : LogMeta) : Prop where
  tag : m'.tag = m.tag
  origin : m'.origin = m.origin
  level : m'.level = m.level
  uncached : m'.hasCache = false

/-- With all bits of tag and origin set the hash is the one which means that
nothing is cached, so that every call looks at the table. -/
theorem staysRejected_noCachedHash
    {table : FilterTable} {opts : SiftOpts} {m : LogMeta}
    (hnone : table.chosenPtr m.tag m.origin = none)
    (hout : opts.defaultFilterOut = true)
    (hmask : opts.levelFilterOutMask &&& m.level = 0)
    (hcache : m.hasCache = false)
    (hhash : filterhash m.tag m.origin = noCachedHash) :
    StaysRejected table opts m := by
  intro s hfilters hopts calls
  have hsift : ∀ m', StillUncached m m' → table.sift opts m' =
      (false, { m' with cachedHash := getHashes m'.tag m'.origin }) := by
    intro m' h
    apply FilterTable.sift_unlisted _ hout _ h.uncached
    · rw [h.tag, h.origin]
      exact hnone
    · rw [h.level]
      exact hmask
  have hstep : ∀ (held : Logger × LogMeta) c, held.1 = s ∧ StillUncached m held.2 →
      (logAgain held c).1 = s ∧ StillUncached m (logAgain held c).2 := by
    rintro ⟨s', m'⟩ c ⟨hs, h⟩
    dsimp only at hs h
    subst s'
    have hsifted : s.filters.sift s.opts m' =
        (false, { m' with cachedHash := getHashes m'.tag m'.origin }) := by
      rw [hfilters, hopts]
      exact hsift m' h
    unfold logAgain
    rw [logP_rejected (by rw [hsifted]) c, hsifted]
    refine ⟨rfl, ?_⟩
    dsimp only
    split
    · exact h
    · refine ⟨h.tag, h.origin, h.level, ?_⟩
      rw [LogMeta.hasCache_getHashes, h.tag, h.origin, hhash]
      simp
  have hstart : (s, m).1 = s ∧ StillUncached m (s, m).2 :=
    ⟨rfl, rfl, rfl, rfl, hcache⟩
  have hfinal := Run.final_preserves
    (I := fun held : Logger × LogMeta => held.1 = s ∧ StillUncached m held.2)
    hstep calls hstart
  generalize Run.final logAgain (s, m) calls = held at hfinal
  rcases hfinal with ⟨hs, h⟩
  have hreset : StillUncached m held.2.resetCache :=
    ⟨h.tag, h.origin, h.level, (LogMeta.fresh_resetCache _).hasCache⟩
  refine ⟨hs, ?_⟩
  rw [hsift _ h, hsift _ hreset]

/-- The first call that is not too long leaves the hash of tag and origin in
the object, and from then on the object is accepted. -/
theorem not_staysRejected
    {table : FilterTable} {opts : SiftOpts} {m : LogMeta}
    (hmask : opts.levelFilterOutMask &&& m.level = 0)
    (calls : List LogCall) {s : Logger}
    (hfilters : s.filters = table) (hopts : s.opts = opts)
    (hlevel : (Run.final logAgain (s, m) calls).2.level = m.level)
    (hcache : (Run.final logAgain (s, m) calls).2.hasCache = true)
    (hnone : table.chosenPtr (Run.final logAgain (s, m) calls).2.tag
      (Run.final logAgain (s, m) calls).2.origin = none)
    (hout : opts.defaultFilterOut = true) :
    ¬StaysRejected table opts m := by
  intro hstays
  have hsame := (hstays s hfilters hopts calls).2
  generalize Run.final logAgain (s, m) calls = held at *
  have hmasked : opts.levelFilterOutMask &&& held.2.level = 0 := by
    rw [hlevel]
    exact hmask
  have hreset : table.sift opts held.2.resetCache = _ :=
    FilterTable.sift_unlisted (m := held.2.resetCache) hnone hout hmasked
      (LogMeta.fresh_resetCache _).hasCache
  rw [table.sift_cached hmasked hcache, hreset] at hsame
  simp at hsame

theorem staysRejected_iff
    (table : FilterTable) (opts : SiftOpts) (m : LogMeta)
    (hnone : table.chosenPtr m.tag m.origin = none)
    (hout : opts.defaultFilterOut = true) :
    StaysRejected table opts m ↔
      opts.levelFilterOutMask &&& m.level ≠ 0 ∨
        (m.hasCache = false ∧ filterhash m.tag m.origin = noCachedHash) := by
  by_cases hmask : opts.levelFilterOutMask &&& m.level = 0
  · constructor
    · intro hstays
      right
      set s : Logger := { Logger.new 0 with filters := table, opts := opts }
      by_contra hcond
      cases hcache : m.hasCache with
      | true =>
          exact not_staysRejected hmask [] (s := s) rfl rfl rfl hcache hnone
            hout hstays
      | false =>
          have hhash : filterhash m.tag m.origin ≠ noCachedHash :=
            fun hhash => hcond ⟨hcache, hhash⟩
          have hcall : logAgain (s, m) ⟨noIgnoreList, []⟩ =
              (s, { m with cachedHash := getHashes m.tag m.origin }) := by
            have hsift := FilterTable.sift_unlisted hnone hout hmask hcache
            have hsifted : s.filters.sift s.opts m = _ := hsift
            unfold logAgain
            rw [logP_rejected (by rw [hsifted]), hsifted]
            rfl
          have hfinal : Run.final logAgain (s, m) [⟨noIgnoreList, []⟩] =
              (s, { m with cachedHash := getHashes m.tag m.origin }) := hcall
          apply not_staysRejected hmask [⟨noIgnoreList, []⟩] (s := s) rfl rfl _ _
            _ hout hstays
          · rw [hfinal]
          · rw [hfinal, LogMeta.hasCache_getHashes]
            simpa using hhash
          · rw [hfinal]
            exact hnone
    · rintro (hmasked | ⟨hcache, hhash⟩)
      · exact absurd hmask hmasked
      · exact staysRejected_noCachedHash hnone hout hmask hcache hhash
  · exact iff_of_true (staysRejected_masked table hmask) (Or.inl hmask)

theorem staysRejected_iff_at_empty :
    FilterTable.empty.chosenPtr 7 9 = none ∧
      (StaysRejected FilterTable.empty ⟨0, true⟩ (LogMeta.declare 7 1 9) ↔
        (0 : LevelMask) &&& 1 ≠ 0 ∨
          ((LogMeta.declare 7 1 9).hasCache = false ∧
            filterhash 7 9 = noCachedHash)) :=
  ⟨rfl, staysRejected_iff FilterTable.empty ⟨0, true⟩ (LogMeta.declare 7 1 9)
    rfl rfl⟩

/-- Without any filter and with `defaultFilterOut`, the second of two equal
calls is queued. -/
theorem second_call_accepted :
    FilterTable.empty.chosenPtr 7 9 = none ∧
      ¬StaysRejected FilterTable.empty ⟨0, true⟩ (LogMeta.declare 7 1 9) ∧
      ((Run.final logAgain
        ({ Logger.new 4 with opts := ⟨0, true⟩ }, LogMeta.declare 7 1 9)
        [⟨noIgnoreList, [104]⟩, ⟨noIgnoreList, [104]⟩]).1.nextSeq = 1) := by
  have hqueued : (Run.final logAgain
      ({ Logger.new 4 with opts := ⟨0, true⟩ }, LogMeta.declare 7 1 9)
      [⟨noIgnoreList, [104]⟩, ⟨noIgnoreList, [104]⟩]).1.nextSeq = 1 := by
    decide +kernel
  refine ⟨rfl, ?_, hqueued⟩
  intro hstays
  have hsame := (hstays { Logger.new 4 with opts := ⟨0, true⟩ } rfl rfl
    [⟨noIgnoreList, [104]⟩, ⟨noIgnoreList, [104]⟩]).1
  rw [hsame] at hqueued
  simp [Logger.new] at hqueued

end Logger

/-! ## Filter calls between messages -/

namespace FilterTable

/-- The pairs at which the lookups for a message come back empty, up to the
first one that has a list. -/
def openPairs (table : FilterTable) (tag : TagId) (origin : OriginId) :
    List (TagId × OriginId) :=
  (pairs tag origin).takeWhile fun pair =>
    (table.find (filterhash pair.1 pair.2)).isNone

theorem find_findOrNew
    {table next : FilterTable} {key : FilterHash} {p : FilterListPtr}
    (hfound : table.findOrNew key = some (next, p)) {hash : FilterHash}
    (hkeep : hash = key → table.find hash ≠ none) :
    next.find hash = table.find hash := by
  unfold findOrNew at hfound
  split at hfound
  · simp only [Option.some.injEq, Prod.mk.injEq] at hfound
    rw [← hfound.1]
  · rename_i hmissing
    have hne : hash ≠ key := fun heq => hkeep heq (heq ▸ hmissing)
    unfold newList at hfound
    split at hfound
    · simp only [Option.some.injEq, Prod.mk.injEq] at hfound
      rw [← hfound.1]
      exact AList.lookup_insert_ne hne
    · simp at hfound

/-- A filter call adds a list at most under its own pair, and only if there
was none. -/
theorem find_addFilter
    (table : FilterTable) (a : FilterArgs) {hash : FilterHash}
    (hkeep : hash = filterhash a.tag a.origin → table.find hash ≠ none) :
    (table.addFilter a).1.find hash = table.find hash := by
  unfold addFilter
  dsimp only
  split
  · rfl
  · rename_i next p hfound
    have hnext : next.find hash = table.find hash :=
      find_findOrNew hfound hkeep
    split
    · rw [find_store]
      exact hnext
    · exact hnext

theorem find_setFilter
    (table : FilterTable) (origin : OriginId) (tag : TagId) (id : FilterId)
    (v : Bool) (hash : FilterHash) :
    (table.setFilter origin tag id v).1.find hash = table.find hash := by
  unfold setFilter
  split
  · rfl
  · split <;> rfl

theorem firstList_getHashes
    (table : FilterTable) (tag : TagId) (origin : OriginId) :
    table.firstList (getHashes tag origin) =
      match table.find (filterhash tag origin) with
      | some list => some (0, list)
      | none =>
          match table.find (filterhash 0 origin) with
          | some list => some (1, list)
          | none =>
              match table.find (filterhash tag 0) with
              | some list => some (2, list)
              | none =>
                  match table.find 0 with
                  | some list => some (3, list)
                  | none => none := by
  rw [getHashes_eq]
  rfl

theorem firstList_addFilter
    {table : FilterTable} {a : FilterArgs} {tag : TagId} {origin : OriginId}
    (hpair : (a.tag, a.origin) ∉ table.openPairs tag origin) :
    (table.addFilter a).1.firstList (getHashes tag origin) =
      table.firstList (getHashes tag origin) := by
  have hkeep : ∀ tag' origin',
      (table.find (filterhash tag' origin') = none →
        (tag', origin') ∈ table.openPairs tag origin) →
      (table.addFilter a).1.find (filterhash tag' origin') =
        table.find (filterhash tag' origin') := by
    intro tag' origin' hopen
    apply find_addFilter
    intro hhash hmissing
    rcases filterhash_inj.mp hhash with ⟨htag, horigin⟩
    have hmem := hopen hmissing
    rw [htag, horigin] at hmem
    exact hpair hmem
  have hzero : filterhash 0 0 = 0 := filterhash_zero_zero
  have hboth := hkeep tag origin (by simp +contextual [openPairs, pairs])
  -- each lookup is reached only if the ones before came back empty
  rw [firstList_getHashes, firstList_getHashes]
  rw [hboth]
  cases hfirst : table.find (filterhash tag origin) with
  | some list => rfl
  | none =>
      have horigin := hkeep 0 origin
        (by simp +contextual [openPairs, pairs, hfirst])
      dsimp only
      rw [horigin]
      cases hsecond : table.find (filterhash 0 origin) with
      | some list => rfl
      | none =>
          have htag := hkeep tag 0
            (by simp +contextual [openPairs, pairs, hfirst, hsecond])
          dsimp only
          rw [htag]
          cases hthird : table.find (filterhash tag 0) with
          | some list => rfl
          | none =>
              have hall := hkeep 0 0 (by
                simp +contextual [openPairs, pairs, hfirst, hsecond, hthird])
              rw [hzero] at hall
              dsimp only
              rw [hall]

end FilterTable

/-! ## A caller who keeps one object -/

inductive CallerAct where
  | logP (c : LogCall)
  | other (a : Logger.Act)

namespace Logger

def callerStep (held : Logger × LogMeta) : CallerAct → Logger × LogMeta
  | .logP c => held.1.logP held.2 c
  | .other a => (held.1.step a, held.2)

/-- A message logged with the object is written for the filters, and to the
targets, for which it would be written with the cache reset, whatever the
program does before the message is dispatched and after. -/
def RoutedAsReset (held : Logger × LogMeta) : Prop :=
  ∀ following text (acts : List Act),
    (Run.final step (held.1.log held.2 following text)
        acts).owner.delivered =
      (Run.final step (held.1.log held.2.resetCache following text)
        acts).owner.delivered

/-- A filter for an open pair of the message comes before anything has been
cached, and a message that no list is for is not filtered out. -/
def CacheSafe (held : Logger × LogMeta) : CallerAct → Prop
  | .logP c =>
      held.1.opts.defaultFilterOut = true →
        held.1.filters.chosenPtr held.2.tag held.2.origin ≠ none ∨
          held.1.opts.levelFilterOutMask &&& held.2.level ≠ 0 ∨
          greaseMaxMessageSize < c.text.length ∨
          filterhash held.2.tag held.2.origin = noCachedHash
  | .other (.filter (.add a)) =>
      held.2.Fresh ∨
        (a.tag, a.origin) ∉
          held.1.filters.openPairs held.2.tag held.2.origin
  | .other _ => True

/-- The cache is empty, or it is what a sift of the reset object would put
there now. -/
def CacheCurrent (held : Logger × LogMeta) : Prop :=
  held.2.Fresh ∨
    held.1.filters.sift held.1.opts held.2.resetCache = (true, held.2)

end Logger

theorem LogMeta.Fresh.sift_resetCache
    {m : LogMeta} (hfresh : m.Fresh) (table : FilterTable) {opts : SiftOpts}
    (hmask : opts.levelFilterOutMask &&& m.level = 0) :
    table.sift opts m.resetCache = table.sift opts m := by
  have hreset : opts.levelFilterOutMask &&& m.resetCache.level = 0 := hmask
  have hlists : m.resetCache.cachedLists = m.cachedLists := hfresh.2.symm
  rw [FilterTable.sift_uncached table hreset
      (LogMeta.fresh_resetCache m).hasCache,
    FilterTable.sift_uncached table hmask hfresh.hasCache, hlists]
  rfl

theorem FilterTable.resetCache_sift
    (table : FilterTable) (opts : SiftOpts) (m : LogMeta) :
    (table.sift opts m).2.resetCache = m.resetCache := by
  rcases table.sift_frame opts m with ⟨htag, hlevel, horigin, htarget, hextras⟩
  simp [LogMeta.resetCache, htag, hlevel, horigin, htarget, hextras]

namespace Logger

theorem CacheCurrent.log_resetCache
    {s : Logger} {m : LogMeta} (hcurrent : CacheCurrent (s, m))
    (following : IgnoreList) (text : List UInt8) :
    s.log m.resetCache following text = s.log m following text := by
  unfold log
  by_cases hmask : s.opts.levelFilterOutMask &&& m.level = 0
  · have hsame : s.filters.sift s.opts m.resetCache =
        s.filters.sift s.opts m := by
      rcases hcurrent with hfresh | hcached
      · exact hfresh.sift_resetCache s.filters hmask
      · have hagain := s.filters.sift_sift
          (congrArg Prod.fst hcached : (s.filters.sift s.opts _).1 = true)
        dsimp only at hcached
        rw [hcached] at hagain ⊢
        exact hagain.symm
    rw [hsame]
  · have hreset : s.opts.levelFilterOutMask &&& m.resetCache.level ≠ 0 := hmask
    rw [s.filters.sift_masked hmask, s.filters.sift_masked hreset]
    simp

theorem CacheCurrent.routedAsReset
    {held : Logger × LogMeta} (hcurrent : CacheCurrent held) :
    RoutedAsReset held := by
  intro following text acts
  rw [hcurrent.log_resetCache following text]

theorem CacheCurrent.logP
    {s : Logger} {m : LogMeta} (hcurrent : CacheCurrent (s, m)) {c : LogCall}
    (hsafe : CacheSafe (s, m) (.logP c)) :
    CacheCurrent (s.logP m c) := by
  have hrouting := (s.takes_log m c.following c.text).routing
  have hfilters : (s.log m c.following c.text).filters = s.filters :=
    congrArg Prod.fst hrouting
  have hopts : (s.log m c.following c.text).opts = s.opts :=
    congrArg Prod.snd hrouting
  unfold CacheCurrent Logger.logP
  dsimp only
  rw [hfilters, hopts]
  by_cases hlong : greaseMaxMessageSize < c.text.length
  · simp only [hlong, if_true]
    exact hcurrent
  simp only [hlong, if_false]
  by_cases hmask : s.opts.levelFilterOutMask &&& m.level = 0
  · rw [FilterTable.resetCache_sift]
    rcases hcurrent with hfresh | hcached
    · have hreset := hfresh.sift_resetCache s.filters hmask
      cases haccept : (s.filters.sift s.opts m).1 with
      | true =>
          right
          rw [hreset, ← haccept]
      | false =>
          left
          have hunlisted : s.filters.chosenPtr m.tag m.origin = none ∧
              s.opts.defaultFilterOut = true := by
            have hsift := s.filters.sift_uncached hmask hfresh.hasCache
            have hfirst := s.filters.firstList_map_snd m.tag m.origin
            cases hfound : s.filters.firstList
                (getHashes m.tag m.origin) with
            | some found => simp [hsift, hfound] at haccept
            | none =>
                rw [hfound] at hfirst
                simp only [hsift, hfound, Bool.not_eq_false'] at haccept
                exact ⟨hfirst.symm, haccept⟩
          have hhash : filterhash m.tag m.origin = noCachedHash := by
            rcases hsafe hunlisted.2 with hlisted | hmasked | htoo | hhash
            · exact absurd hunlisted.1 hlisted
            · exact absurd hmask hmasked
            · exact absurd htoo hlong
            · exact hhash
          rw [FilterTable.sift_unlisted hunlisted.1 hunlisted.2 hmask
            hfresh.hasCache]
          refine ⟨?_, hfresh.2⟩
          simp [getHashes_eq, hhash]
    · have hagain := s.filters.sift_sift
        (congrArg Prod.fst hcached : (s.filters.sift s.opts _).1 = true)
      dsimp only at hcached
      rw [hcached] at hagain
      dsimp only at hagain
      rw [hagain]
      exact Or.inr hcached
  · rw [s.filters.sift_masked hmask]
    exact hcurrent

/-- What a sift of fresh metadata finds depends on the first list only. -/
theorem sift_resetCache_congr
    {table table' : FilterTable} (opts : SiftOpts) {m : LogMeta}
    (hfirst : table'.firstList (getHashes m.tag m.origin) =
      table.firstList (getHashes m.tag m.origin)) :
    table'.sift opts m.resetCache = table.sift opts m.resetCache := by
  by_cases hmask : opts.levelFilterOutMask &&& m.resetCache.level = 0
  · have hcache := (LogMeta.fresh_resetCache m).hasCache
    have hfirst' : table'.firstList
        (getHashes m.resetCache.tag m.resetCache.origin) =
      table.firstList (getHashes m.resetCache.tag m.resetCache.origin) :=
      hfirst
    rw [table.sift_uncached hmask hcache, table'.sift_uncached hmask hcache,
      hfirst']
  · rw [table.sift_masked hmask, table'.sift_masked hmask]

theorem CacheCurrent.other
    {s : Logger} {m : LogMeta} (hcurrent : CacheCurrent (s, m)) {a : Act}
    (hsafe : CacheSafe (s, m) (.other a)) :
    CacheCurrent (s.step a, m) := by
  rcases hcurrent with hfresh | hcached
  · exact Or.inl hfresh
  by_cases hfilter : ∃ c, a = .filter c
  · rcases hfilter with ⟨c, rfl⟩
    have hlater : (s.filters.call c).firstList (getHashes m.tag m.origin) =
        s.filters.firstList (getHashes m.tag m.origin) ∨ m.Fresh := by
      cases c with
      | add a =>
          rcases hsafe with hfresh | hpair
          · exact Or.inr hfresh
          · exact Or.inl (FilterTable.firstList_addFilter hpair)
      | disable origin tag id =>
          left
          unfold FilterTable.firstList FilterTable.call
          simp only [FilterTable.find_setFilter]
      | enable origin tag id =>
          left
          unfold FilterTable.firstList FilterTable.call
          simp only [FilterTable.find_setFilter]
    rcases hlater with hfirst | hfresh
    · right
      have hsift := sift_resetCache_congr s.opts hfirst
      exact hsift.trans hcached
    · exact Or.inl hfresh
  · have hrouting := s.routing_step fun c hc => hfilter ⟨c, hc⟩
    have hfilters : (s.step a).filters = s.filters := congrArg Prod.fst hrouting
    have hopts : (s.step a).opts = s.opts := congrArg Prod.snd hrouting
    right
    dsimp only at hcached ⊢
    rw [hfilters, hopts]
    exact hcached

/-- In a run whose filter calls and messages are safe for the cache, messages
logged with the kept object go where the reset object would send them. -/
theorem routed_as_reset
    {s : Logger} {m : LogMeta} (hfresh : m.Fresh) {acts : List CallerAct}
    (hsafe : Run.Meets callerStep CacheSafe (s, m) acts) :
    RoutedAsReset (Run.final callerStep (s, m) acts) := by
  apply CacheCurrent.routedAsReset
  refine Run.final_invariant (I := CacheCurrent) ?_ (Or.inl hfresh) hsafe
  rintro ⟨s, m⟩ a hcurrent hguard
  cases a with
  | logP c => exact hcurrent.logP hguard
  | other a => exact hcurrent.other hguard

def filterFor (tag : TagId) (origin : OriginId) : CallerAct :=
  .other (.filter (.add
    { target := 1, origin := origin, tag := tag, mask := 1 }))

/-- A logger with target 1 in the table. -/
def oneTarget : Logger :=
  (Logger.new 4).setTarget 1 (LogTarget.new .file 2000 1 none 4)

theorem routed_as_reset_lower_pair :
    (LogMeta.declare 7 1 9).Fresh ∧
      RoutedAsReset (Run.final callerStep (oneTarget, LogMeta.declare 7 1 9)
        [filterFor 7 9, .logP ⟨noIgnoreList, [104]⟩, filterFor 0 0]) :=
  ⟨by decide, routed_as_reset (by decide)
    ⟨Or.inl (by decide), by intro hout; simp [callerStep, filterFor, step,
      oneTarget, setTarget, Logger.new] at hout, Or.inr (by decide +kernel),
      trivial⟩⟩

/-- After one message, the filter for its tag and origin is not seen: with the
cache reset the next message goes to target 1, with the object as it is to no
target. -/
theorem added_filter_unseen :
    (LogMeta.declare 7 1 9).Fresh ∧
      ¬RoutedAsReset (Run.final callerStep (oneTarget, LogMeta.declare 7 1 9)
        [.logP ⟨noIgnoreList, [104]⟩, filterFor 7 9]) := by
  refine ⟨by decide, ?_⟩
  intro hrouted
  have hsame := congrArg (·.map Delivery.target) (hrouted noIgnoreList [104]
    [.handle noFormatting, .handle noFormatting])
  revert hsame
  decide +kernel

end Logger

end GreaseLog
