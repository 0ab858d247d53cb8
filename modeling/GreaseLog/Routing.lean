import GreaseLog.LoggerSteps
import GreaseLog.RoutingReference

/-!
# Where messages go

The writes the logger makes for a message with fresh metadata, compared with
the reference and with the rule that every matching filter causes a write.
-/

namespace GreaseLog

/-! ## The deciding list -/

theorem Represents.findSome_listAt
    {table : FilterTable} {entries : List HistoryEntry}
    (hrep : Represents table entries) (pairs : List (TagId × OriginId)) :
    ((((pairs.map fun pair => entriesFor entries pair.1 pair.2).find?
          (· ≠ [])).getD []) = [] ∧
        (pairs.findSome? fun pair =>
          table.listAt (filterhash pair.1 pair.2)) = none) ∨
      ∃ list, (pairs.findSome? fun pair =>
          table.listAt (filterhash pair.1 pair.2)) = some list ∧
        list.slots = slotsOf
          (((pairs.map fun pair => entriesFor entries pair.1 pair.2).find?
            (· ≠ [])).getD []) := by
  induction pairs with
  | nil => simp
  | cons pair rest ih =>
      by_cases hnil : entriesFor entries pair.1 pair.2 = []
      · have hmissing := hrep.missing pair.1 pair.2 hnil
        simpa [hnil, hmissing] using ih
      · rcases hrep.listed pair.1 pair.2 hnil with ⟨list, hat, hslots⟩
        right
        exact ⟨list, by simp [hat], by simp [hnil, hslots]⟩

theorem live_of_slotsOf
    {list : FilterList} {entries : List HistoryEntry}
    (hslots : list.slots = slotsOf entries)
    (hids : ∀ e ∈ entries, e.id ≠ 0) :
    list.live = entries.map HistoryEntry.filter := by
  unfold FilterList.live
  rw [hslots]
  unfold slotsOf
  rw [List.takeWhile_append_of_pos]
  · have hstop : List.takeWhile (fun f : Filter => f.id != 0)
        (List.replicate (maxIdenticalFilters - entries.length) Filter.empty) =
          [] := by
      cases maxIdenticalFilters - entries.length with
      | zero => rfl
      | succ n => simp [List.replicate_succ, Filter.empty]
    rw [hstop, List.append_nil]
  · intro f hf
    rcases List.mem_map.mp hf with ⟨e, he, rfl⟩
    simpa [HistoryEntry.filter, FilterArgs.filter] using hids e he

theorem mem_of_mem_decidingEntries
    {entries : List HistoryEntry} {tag : TagId} {origin : OriginId}
    {e : HistoryEntry} (he : e ∈ decidingEntries entries tag origin) :
    e ∈ entries := by
  unfold decidingEntries at he
  cases hfind : ((FilterTable.pairs tag origin).map fun pair =>
      entriesFor entries pair.1 pair.2).find? (· ≠ []) with
  | none =>
      rw [hfind, Option.getD_none] at he
      simp at he
  | some found =>
      rw [hfind, Option.getD_some] at he
      rcases List.mem_map.mp (List.mem_of_find?_eq_some hfind) with
        ⟨pair, -, rfl⟩
      exact List.mem_of_mem_filter he

/-- The writes for the filters of one list are those of the reference for the
entries the list holds. -/
theorem filter_selects_map_filter
    (entries : List HistoryEntry) (registered : TargetId → Bool)
    (e : ExtraLogMeta) :
    (entries.map HistoryEntry.filter).filter (·.selects registered e) =
      ((entries.filter fun h =>
          h.enabled && (h.args.mask &&& e.m.level) != 0).filter fun h =>
        h.args.target == 0 || (registered h.args.target &&
          !e.ignores h.args.target)).map HistoryEntry.filter := by
  rw [List.filter_map, List.filter_filter]
  congr 1
  apply List.filter_congr
  intro h _
  simp only [Function.comp_apply, Filter.selects, Filter.applies,
    HistoryEntry.filter, FilterArgs.filter, Bool.not_not]
  cases h.enabled <;> cases (h.args.target == 0) <;>
    cases (registered h.args.target) <;> cases (e.ignores h.args.target) <;>
    simp

theorem Represents.dispatch_eq_reference
    {table : FilterTable} {entries : List HistoryEntry}
    (hrep : Represents table entries) (hlength : entries.length < 2 ^ 32)
    {opts : SiftOpts} {m : LogMeta} (hfresh : m.Fresh)
    (hmask : opts.levelFilterOutMask &&& m.level = 0)
    (registered : TargetId → Bool) {e : ExtraLogMeta}
    (he : e.m = (table.sift opts m).2) :
    table.dispatch registered e =
      reference entries registered e.ignores m.tag m.origin m.level := by
  have hlevel : e.m.level = m.level := by
    rw [he]
    exact (FilterTable.sift_frame table opts m).2.1
  have hroutes : table.routes registered e =
      ((decidingEntries entries m.tag m.origin).map
        HistoryEntry.filter).filter (·.selects registered e) := by
    rw [hrep.valid.routes_fresh hfresh hmask registered he]
    rcases hrep.findSome_listAt (FilterTable.pairs m.tag m.origin) with
      ⟨hnil, hnone⟩ | ⟨list, hsome, hslots⟩
    · have hchosen : table.chosenList m.tag m.origin = none := hnone
      have hdeciding : decidingEntries entries m.tag m.origin = [] := hnil
      simp [hchosen, hdeciding]
    · have hchosen : table.chosenList m.tag m.origin = some list := hsome
      have hgood : list.Good := by
        rcases hrep.valid.chosenPtr_cases m.tag m.origin with
          ⟨-, hmissing⟩ | ⟨p, found, -, hfound, -, hgood⟩
        · rw [hchosen] at hmissing
          simp at hmissing
        · rw [hchosen] at hfound
          exact Option.some.inj hfound ▸ hgood
      rw [hchosen, Option.map_some, Option.getD_some,
        hgood.routes_eq registered e]
      congr 1
      apply live_of_slotsOf hslots
      intro h hh
      exact hrep.id_ne_zero hlength (mem_of_mem_decidingEntries hh)
  unfold FilterTable.dispatch reference
  rw [hroutes, filter_selects_map_filter, hlevel]
  simp only [List.map_eq_nil_iff]

/-! ## The reference is what the logger does -/

theorem overruns_of_slotsOf
    {list : FilterList} {entries : List HistoryEntry}
    (hslots : list.slots = slotsOf entries)
    (hroom : entries.length < maxIdenticalFilters) :
    list.overruns = false := by
  have hhole : Filter.empty ∈ list.slots := by
    rw [hslots]
    unfold slotsOf
    apply List.mem_append_right
    rw [List.mem_replicate]
    exact ⟨by omega, rfl⟩
  unfold FilterList.overruns
  rw [List.all_eq_false]
  exact ⟨Filter.empty, hhole, by simp [Filter.empty]⟩

theorem Represents.strays_eq_false
    {table : FilterTable} {entries : List HistoryEntry}
    (hrep : Represents table entries)
    (hperPair : ∀ tag origin,
      (entriesFor entries tag origin).length < maxIdenticalFilters)
    {opts : SiftOpts} {m : LogMeta} (hfresh : m.Fresh)
    (hmask : opts.levelFilterOutMask &&& m.level = 0) :
    table.strays (table.sift opts m).2 = false := by
  have hdeciding : (decidingEntries entries m.tag m.origin).length <
      maxIdenticalFilters := by
    unfold decidingEntries
    cases hfind : ((FilterTable.pairs m.tag m.origin).map fun pair =>
        entriesFor entries pair.1 pair.2).find? (· ≠ []) with
    | none => simp [maxIdenticalFilters]
    | some found =>
        rcases List.mem_map.mp (List.mem_of_find?_eq_some hfind) with
          ⟨pair, -, rfl⟩
        exact hperPair pair.1 pair.2
  unfold FilterTable.strays
  rw [(hrep.valid.sift_fresh hfresh hmask).2]
  rcases hrep.valid.chosenPtr_cases m.tag m.origin with
    ⟨hnone, -⟩ | ⟨p, list, hptr, hchosen, hderef, -⟩
  · simp [hnone]
  · have hoverruns : list.overruns = false := by
      rcases hrep.findSome_listAt (FilterTable.pairs m.tag m.origin) with
        ⟨-, hnone⟩ | ⟨found, hfound, hslots⟩
      · have hmissing : table.chosenList m.tag m.origin = none := hnone
        rw [hchosen] at hmissing
        simp at hmissing
      · have hsame : table.chosenList m.tag m.origin = some found := hfound
        rw [hchosen] at hsame
        have heq : list = found := Option.some.inj hsame
        subst found
        exact overruns_of_slotsOf hslots hdeciding
    simp [hptr, hderef, hoverruns]

/-- What the dispatch of an entry does that was queued with metadata sifted by
the same table. -/
theorem Represents.newLog_acts
    {s : Logger} {entries : List HistoryEntry}
    (hrep : Represents s.filters entries) (hlength : entries.length < 2 ^ 32)
    (hperPair : ∀ tag origin,
      (entriesFor entries tag origin).length < maxIdenticalFilters)
    {m : LogMeta} (hfresh : m.Fresh)
    (hmask : s.opts.levelFilterOutMask &&& m.level = 0)
    (haccept : (s.filters.sift s.opts m).1 = true) {entry : SingleLog}
    (hmeta : entry.logMeta.m = (s.filters.sift s.opts m).2) :
    s.cmdStrays (.newLog entry) = false ∧
      s.cmdActs (.newLog entry) =
        (reference entries s.registered entry.logMeta.ignores
          m.tag m.origin m.level).map fun f =>
            (f.targetId, .write entry.seq entry.buf.text entry.logMeta.m f) := by
  have hagain := Logger.sifted_again haccept hmeta
  have hdispatch : s.dispatch entry = reference entries s.registered
      entry.logMeta.ignores m.tag m.origin m.level := by
    unfold Logger.dispatch
    rw [hagain.2]
    exact hrep.dispatch_eq_reference hlength hfresh hmask s.registered hmeta
  constructor
  · simp only [Logger.cmdStrays, hagain.2, hmeta, Bool.and_eq_false_iff]
    exact Or.inr (hrep.strays_eq_false hperPair hfresh hmask)
  · simp only [Logger.cmdActs, hagain.1, if_true, Logger.newLogActs,
      hdispatch, hagain.2]

theorem Logger.handleInternalCmd_of_removeCmd
    {s next : Logger} {c : InternalCmdReq} (hremove : s.removeCmd = some (c, next))
    (hstrays : next.cmdStrays c = false) (env : Formatting) :
    s.handleInternalCmd env =
      (next.performAll env (next.cmdActs c)).finishCmd c := by
  unfold Logger.handleInternalCmd Logger.execCmd
  rw [hremove]
  dsimp only
  rw [hstrays, Bool.or_false]

/-- Taking a command off the queue leaves the tables alone. -/
theorem Logger.removeCmd_tables
    {s next : Logger} {c : InternalCmdReq} (hremove : s.removeCmd = some (c, next)) :
    next.filters = s.filters ∧ next.opts = s.opts ∧
      next.registered = s.registered := by
  unfold Logger.removeCmd at hremove
  split at hremove
  · rw [Option.some.injEq, Prod.mk.injEq] at hremove
    rw [← hremove.2]
    exact ⟨rfl, rfl, rfl⟩
  · simp at hremove

/-- The writes made for a message are those of the reference on the history of
filter calls, `handleInternalCmd` lets the targets make them, and the packed
hash keeps all pairs of tag and origin apart. -/
theorem log_then_newLog_writes_reference
    {s : Logger} {history : List FilterCall}
    (hfilters : s.filters = FilterTable.build history)
    (hlimits : HistoryWithinLimits history)
    {m : LogMeta} (hfresh : m.Fresh)
    (hmask : s.opts.levelFilterOutMask &&& m.level = 0)
    (hdefault : s.opts.defaultFilterOut = false)
    (following : IgnoreList) {text : List UInt8}
    (hmax : text.length ≤ greaseMaxMessageSize)
    (hpos : 0 < s.bufferSize) (hfits : text.length ≤ s.bufferSize)
    (hbuffers : ∀ l ∈ s.masterBufferAvail.items, l.buf.len = s.bufferSize)
    (hpool : s.masterBufferAvail.items ≠ [])
    (hroom : s.owner.internalCmdQueue.hasRoom) :
    (∀ tag tag' origin origin',
      filterhash tag origin = filterhash tag' origin' →
        tag = tag' ∧ origin = origin') ∧
    ∃ l, (s.log m following text).owner.internalCmdQueue.items =
        s.owner.internalCmdQueue.items ++ [.newLog l] ∧
      ∀ s' : Logger, s'.filters = s.filters → s'.opts = s.opts →
        let writes := (reference (entriesOf history) s'.registered
            (ExtraLogMeta.ignores ⟨m, following⟩)
            m.tag m.origin m.level).map
              fun f => (f.targetId, .write l.seq text l.logMeta.m f)
        s'.cmdStrays (.newLog l) = false ∧ s'.cmdActs (.newLog l) = writes ∧
          ∀ env next, s'.removeCmd = some (.newLog l, next) →
            s'.handleInternalCmd env =
              (next.performAll env writes).finishCmd (.newLog l) := by
  refine ⟨fun tag tag' origin origin' => filterhash_inj.mp, ?_⟩
  have hrep : Represents s.filters (entriesOf history) := by
    rw [hfilters]
    exact represents_build hlimits history [] (by simp)
  have hlength : (entriesOf history).length < 2 ^ 32 :=
    lt_of_le_of_lt (length_entriesOf history) hlimits.calls
  have haccept : (s.filters.sift s.opts m).1 = true := by
    rw [(hrep.valid.sift_fresh hfresh hmask).1, hdefault]
    simp
  rcases Logger.exists_log_fits following haccept hmax hpos hfits hbuffers
    hpool hroom with ⟨l, avail, queue, hfilled, hitems, hlog⟩
  refine ⟨_, by rw [hlog]; exact hitems, ?_⟩
  set entry : SingleLog :=
    { Logger.fillMessage (s.filters.sift s.opts m).2 following text l with
      seq := s.nextSeq } with hentry
  have htext : entry.buf.text = text := hfilled
  have hignores : entry.logMeta.ignores =
      ExtraLogMeta.ignores ⟨m, following⟩ := by
    have hset := SingleLog.setMeta_ignores
      { l with buf := l.buf.memcpy text }
      (s.filters.sift s.opts m).2 following
    have hextras := (s.filters.sift_frame s.opts m).2.2.2.2
    simp only [hentry, Logger.fillMessage, hset]
    funext id
    simp [ExtraLogMeta.ignores, ExtraLogMeta.ignoredTargets,
      LogMeta.hasIgnores, hextras]
  have hacts : ∀ s' : Logger, s'.filters = s.filters → s'.opts = s.opts →
      s'.cmdStrays (.newLog entry) = false ∧
        s'.cmdActs (.newLog entry) =
          (reference (entriesOf history) s'.registered
            (ExtraLogMeta.ignores ⟨m, following⟩) m.tag m.origin m.level).map
              fun f => (f.targetId, .write entry.seq text entry.logMeta.m f) := by
    intro s' hsame hopts
    rw [← hignores, ← htext]
    apply Represents.newLog_acts (hsame ▸ hrep) hlength _ hfresh (hopts ▸ hmask)
    · rw [hsame, hopts]
      exact haccept
    · rw [hsame, hopts]
      simp [hentry, Logger.fillMessage]
    · intro tag origin
      rw [length_entriesFor]
      exact hlimits.perPair tag origin
  intro s' hsame hopts writes
  refine ⟨(hacts s' hsame hopts).1, (hacts s' hsame hopts).2, ?_⟩
  intro env next hremove
  rcases Logger.removeCmd_tables hremove with ⟨hfilters', hopts', hregistered⟩
  have hnext := hacts next (hfilters'.trans hsame) (hopts'.trans hopts)
  rw [Logger.handleInternalCmd_of_removeCmd hremove hnext.1, hnext.2, hregistered]

/-- Target 2 is not to get the message. -/
def exceptSecond : ExtraLogMeta where
  m := { LogMeta.declare 7 1 0 with extras := 1 }
  ignoreList := #v[2, 0, 0, 0, 0, 0, 0, 0, 0, 0, 0]

/-- Filters for target 1, for target 2, which the message ignores, for target 3,
which nobody has registered, and a disabled one. -/
def filtersForThree : List FilterCall :=
  [.add ⟨1, 0, 7, 1, none, none, none⟩, .add ⟨2, 0, 7, 1, none, none, none⟩,
    .add ⟨3, 0, 7, 3, none, none, none⟩, .add ⟨1, 0, 7, 3, none, none, none⟩,
    .disable 0 7 4]

theorem filtersForThree_withinLimits : HistoryWithinLimits filtersForThree := by
  constructor
  · intro tag origin
    exact lt_of_le_of_lt (List.length_filter_le _ _) (by decide)
  · decide
  · intro earlier later origin tag id hsplit
    have hreturned : Returned [.add ⟨1, 0, 7, 1, none, none, none⟩,
        .add ⟨2, 0, 7, 1, none, none, none⟩, .add ⟨3, 0, 7, 3, none, none, none⟩,
        .add ⟨1, 0, 7, 3, none, none, none⟩] 4 :=
      ⟨[.add ⟨1, 0, 7, 1, none, none, none⟩, .add ⟨2, 0, 7, 1, none, none, none⟩,
        .add ⟨3, 0, 7, 3, none, none, none⟩], ⟨1, 0, 7, 3, none, none, none⟩, _, rfl,
        by decide⟩
    rcases earlier with _ | ⟨c₁, _ | ⟨c₂, _ | ⟨c₃, _ | ⟨c₄, _ | ⟨c₅, rest⟩⟩⟩⟩⟩ <;>
      simp [filtersForThree] at hsplit
    rcases hsplit with ⟨rfl, rfl, rfl, rfl, ⟨rfl, rfl, rfl⟩, -⟩
    exact hreturned

theorem log_then_newLog_writes_reference_at_three :
    let first := (Logger.new 2000).setTarget 1 (LogTarget.new .file 2000 1 none 4)
    let s := { first.setTarget 2 (LogTarget.new .file 2000 2 none 4) with
      filters := FilterTable.build filtersForThree }
    let s' := s.log exceptSecond.m exceptSecond.ignoreList [104, 105]
    ∃ l next, s'.removeCmd = some (.newLog l, next) ∧
      ∀ env, s'.handleInternalCmd env =
        (next.performAll env [(1, .write l.seq [104, 105] l.logMeta.m
          ((FilterArgs.mk 1 0 7 1 none none none).filter 1))]).finishCmd
            (.newLog l) := by
  intro first s s'
  have hwrites := log_then_newLog_writes_reference (s := s) rfl
    filtersForThree_withinLimits (m := exceptSecond.m) (by decide) (by decide) rfl
    exceptSecond.ignoreList
    (show [104, 105].length ≤ greaseMaxMessageSize by decide) (by decide)
    (by decide)
    (by
      intro l hl
      rcases List.mem_map.mp hl with ⟨n, -, rfl⟩
      rfl)
    (by simp [s, first, Logger.setTarget, Logger.new, primaryBufferEntries])
    (by decide)
  rcases hwrites.2 with ⟨l, hqueue, hacts⟩
  have htakes := s.takes_log exceptSecond.m exceptSecond.ignoreList [104, 105]
  have href : reference (entriesOf filtersForThree) s'.registered
      (ExtraLogMeta.ignores ⟨exceptSecond.m, exceptSecond.ignoreList⟩)
      exceptSecond.m.tag exceptSecond.m.origin exceptSecond.m.level =
        [(FilterArgs.mk 1 0 7 1 none none none).filter 1] := by decide +kernel
  have hdone := (hacts s' htakes.filters htakes.opts).2.2
  rw [href] at hdone
  rcases Logger.exists_removeCmd hqueue with ⟨next, hremove⟩
  exact ⟨l, next, hremove, fun env => hdone env next hremove⟩

end GreaseLog
