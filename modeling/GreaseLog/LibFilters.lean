import GreaseLog.FilterSwitches
import GreaseLog.Routing

/-!
# Filters as the library hands them out

A program describes a filter in a `GreaseLibFilter` that it keeps: it sets the
values it wants, adds the filter, and switches it later through the same
structure.  The structure remembers the id; tag and origin are read from it
again with every call.
-/

namespace GreaseLog

def greaseLibSetFilterOrigin : UInt32 := 0x1
def greaseLibSetFilterTag : UInt32 := 0x2
def greaseLibSetFilterTarget : UInt32 := 0x4
def greaseLibSetFilterMask : UInt32 := 0x8

structure GreaseLibFilter where
  enabledFlags : UInt32
  origin : OriginId
  tag : TagId
  target : TargetId
  mask : LevelMask
  id : FilterId
  formatPre : LogLabel
  formatPost : LogLabel
  formatPostPreMsg : LogLabel
  deriving DecidableEq

namespace GreaseLibFilter

/-- `memset(ret,0,sizeof(GreaseLibFilter))`. -/
def init : GreaseLibFilter where
  enabledFlags := 0
  origin := 0
  tag := 0
  target := 0
  mask := 0
  id := 0
  formatPre := none
  formatPost := none
  formatPostPreMsg := none

/-- `GreaseLib_setvalue_GreaseLibFilter`; other flags do nothing. -/
def setvalue (f : GreaseLibFilter) (flag val : UInt32) : GreaseLibFilter :=
  if flag = greaseLibSetFilterOrigin then
    { f with origin := val, enabledFlags := f.enabledFlags ||| flag }
  else if flag = greaseLibSetFilterTag then
    { f with tag := val, enabledFlags := f.enabledFlags ||| flag }
  else if flag = greaseLibSetFilterTarget then
    { f with target := val, enabledFlags := f.enabledFlags ||| flag }
  else if flag = greaseLibSetFilterMask then
    { f with mask := val, enabledFlags := f.enabledFlags ||| flag }
  else f

/-- What `addFilter` passes on; `_enabledFlags` is not read. -/
def args (f : GreaseLibFilter) : FilterArgs where
  target := f.target
  origin := f.origin
  tag := f.tag
  mask := f.mask
  preFormat := f.formatPre
  postFormatPreMsg := f.formatPostPreMsg
  postFormat := f.formatPost

end GreaseLibFilter

/-- Calls with the number of the structure they are given. -/
inductive LibFilterCall where
  | init (k : ℕ)
  | setvalue (k : ℕ) (flag val : UInt32)
  | setFormats (k : ℕ) (pre post postPreMsg : LogLabel)
  | addFilter (k : ℕ)
  | disableFilter (k : ℕ)
  | enableFilter (k : ℕ)

/-- The structures of the program and the table of the logger.  The other two are
not in the source: what each structure was last added with, and the filters that
were added, with their switches. -/
structure LibFilters where
  filters : ℕ → GreaseLibFilter
  table : FilterTable
  added : ℕ → Option FilterArgs
  entries : List HistoryEntry

namespace LibFilters

def new : LibFilters where
  filters := fun _ => .init
  table := FilterTable.empty
  added := fun _ => none
  entries := []

def addFilter (s : LibFilters) (k : ℕ) : LibFilters :=
  match s.table.addFilter (s.filters k).args with
  | (table, some id) =>
      { filters := Function.update s.filters k { s.filters k with id := id }
        table := table
        added := Function.update s.added k (some (s.filters k).args)
        entries := s.entries ++ [⟨(s.filters k).args, id, true⟩] }
  | (table, none) => { s with table := table }

/-- `disableFilter` and `enableFilter`. -/
def switchFilter (s : LibFilters) (k : ℕ) (disabled : Bool) : LibFilters :=
  let f := s.filters k
  { s with
    table := (s.table.setFilter f.origin f.tag f.id disabled).1
    entries := s.entries.map (HistoryEntry.setEnabled f.origin f.tag f.id !disabled) }

def step (s : LibFilters) : LibFilterCall → LibFilters
  | .init k =>
      { s with
        filters := Function.update s.filters k .init
        added := Function.update s.added k none }
  | .setvalue k flag val =>
      { s with filters := Function.update s.filters k ((s.filters k).setvalue flag val) }
  | .setFormats k pre post postPreMsg =>
      { s with
        filters := Function.update s.filters k { s.filters k with
          formatPre := pre, formatPost := post, formatPostPreMsg := postPreMsg } }
  | .addFilter k => s.addFilter k
  | .disableFilter k => s.switchFilter k true
  | .enableFilter k => s.switchFilter k false

/-- Only structures that were added are switched; ids do not come round, and no
tag and origin gets as many filters as a list has slots. -/
def Within (s : LibFilters) : LibFilterCall → Prop
  | .addFilter k => s.entries.length + 1 < 2 ^ 32 ∧
      (entriesFor s.entries (s.filters k).tag (s.filters k).origin).length + 1 <
        maxIdenticalFilters
  | .disableFilter k => s.added k ≠ none
  | .enableFilter k => s.added k ≠ none
  | _ => True

/-! ## The structures and the table -/

/-- A structure that was added has the id of a filter with these values, and its
mask is zero until it is set. -/
structure Sound (entries : List HistoryEntry) (added : Option FilterArgs)
    (f : GreaseLibFilter) : Prop where
  known : ∀ a, added = some a → ∃ e ∈ entries, e.id = f.id ∧ e.args = a
  unset : f.enabledFlags &&& greaseLibSetFilterMask = 0 → f.mask = 0

theorem Sound.mono {entries more : List HistoryEntry} {added : Option FilterArgs}
    {f : GreaseLibFilter} (h : Sound entries added f)
    (hmore : ∀ e ∈ entries, ∃ e' ∈ more, e'.id = e.id ∧ e'.args = e.args) :
    Sound more added f := by
  refine ⟨fun a ha => ?_, h.unset⟩
  rcases h.known a ha with ⟨e, he, hid, hargs⟩
  rcases hmore e he with ⟨e', he', hid', hargs'⟩
  exact ⟨e', he', hid'.trans hid, hargs'.trans hargs⟩

structure Kept (s : LibFilters) : Prop where
  represents : Represents s.table s.entries
  few : s.entries.length < 2 ^ 32
  room : ∀ tag origin,
    (entriesFor s.entries tag origin).length < maxIdenticalFilters
  sound : ∀ k, Sound s.entries (s.added k) (s.filters k)

theorem sound_init (entries : List HistoryEntry) : Sound entries none .init :=
  ⟨fun a ha => by simp at ha, fun _ => rfl⟩

theorem kept_new : new.Kept where
  represents := represents_empty
  few := by decide
  room := fun _ _ => (by decide : 0 < maxIdenticalFilters)
  sound := fun _ => sound_init []

theorem Sound.setvalue {entries : List HistoryEntry} {added : Option FilterArgs}
    {f : GreaseLibFilter} (h : Sound entries added f) (flag val : UInt32) :
    Sound entries added (f.setvalue flag val) := by
  have hold : ∀ {flags : UInt32},
      (f.enabledFlags ||| flags) &&& greaseLibSetFilterMask = 0 → f.mask = 0 :=
    fun hset => h.unset (or_and_eq_zero_iff.mp hset).1
  unfold GreaseLibFilter.setvalue
  split_ifs with horigin htag htarget hmask
  · exact ⟨h.known, hold⟩
  · exact ⟨h.known, hold⟩
  · exact ⟨h.known, hold⟩
  · refine ⟨h.known, fun hset => ?_⟩
    rw [hmask] at hset
    exact absurd (or_and_eq_zero_iff.mp hset).2 (by decide)
  · exact h

theorem Kept.update {s : LibFilters} (h : s.Kept) (k : ℕ) {f : GreaseLibFilter}
    {added : Option FilterArgs} (hf : Sound s.entries added f) :
    { s with
      filters := Function.update s.filters k f
      added := Function.update s.added k added }.Kept := by
  refine ⟨h.represents, h.few, h.room, fun j => ?_⟩
  dsimp only
  by_cases heq : j = k
  · subst heq
    simpa using hf
  · simpa [heq] using h.sound j

theorem Kept.addFilter {s : LibFilters} (h : s.Kept) {k : ℕ}
    (hk : s.Within (.addFilter k)) : (s.addFilter k).Kept := by
  have hadd := h.represents.add (s.filters k).args h.few
    (h.room (s.filters k).tag (s.filters k).origin)
  unfold LibFilters.addFilter
  rcases hresult : s.table.addFilter (s.filters k).args with ⟨table, answer⟩
  rw [hresult] at hadd
  rcases hadd with ⟨hrep, rfl⟩
  refine ⟨hrep, ?_, fun tag origin => ?_, ?_⟩
  · change (s.entries ++ [_]).length < _
    rw [List.length_append]
    exact hk.1
  · change (entriesFor (s.entries ++ [_]) tag origin).length < _
    rw [entriesFor_concat]
    split_ifs with hpair
    · rw [hpair.1, hpair.2, List.length_append]
      exact hk.2
    · exact h.room tag origin
  · intro j
    dsimp only
    by_cases heq : j = k
    · subst heq
      rw [Function.update_self, Function.update_self]
      refine ⟨fun a ha => ?_, (h.sound j).unset⟩
      exact ⟨_, List.mem_append_right _ (List.mem_singleton_self _), rfl,
        Option.some.inj ha⟩
    · rw [Function.update_of_ne heq, Function.update_of_ne heq]
      apply (h.sound j).mono
      exact fun e he => ⟨e, List.mem_append_left _ he, rfl, rfl⟩

theorem Kept.id_ne_zero {s : LibFilters} (h : s.Kept) {k : ℕ}
    (hk : s.added k ≠ none) : (s.filters k).id ≠ 0 := by
  rcases Option.ne_none_iff_exists'.mp hk with ⟨a, ha⟩
  rcases (h.sound k).known a ha with ⟨e, he, hid, -⟩
  rw [← hid]
  exact h.represents.id_ne_zero h.few he

theorem Kept.switchFilter {s : LibFilters} (h : s.Kept) {k : ℕ}
    (hk : s.added k ≠ none) (disabled : Bool) :
    (s.switchFilter k disabled).Kept := by
  refine ⟨h.represents.setFilter _ _ disabled (h.id_ne_zero hk) h.few, ?_,
    fun tag origin => ?_, fun j => ?_⟩
  · change (s.entries.map _).length < _
    rw [List.length_map]
    exact h.few
  · change (entriesFor (s.entries.map _) tag origin).length < _
    rw [Represents.entriesFor_map_setEnabled]
    split_ifs
    · rw [List.length_map]
      exact h.room tag origin
    · exact h.room tag origin
  · apply (h.sound j).mono
    exact fun e he => ⟨_, List.mem_map_of_mem he,
      HistoryEntry.id_setEnabled _ _ _ _ e, HistoryEntry.args_setEnabled _ _ _ _ e⟩

theorem Kept.step {s : LibFilters} {c : LibFilterCall} (h : s.Kept)
    (hc : s.Within c) : (s.step c).Kept := by
  cases c with
  | init k => exact h.update k (sound_init s.entries)
  | setvalue k flag val =>
      have hset := h.update k ((h.sound k).setvalue flag val)
      rwa [Function.update_eq_self] at hset
  | setFormats k pre post postPreMsg =>
      have hset := h.update k (f := { s.filters k with
        formatPre := pre, formatPost := post, formatPostPreMsg := postPreMsg })
        ⟨(h.sound k).known, (h.sound k).unset⟩
      rwa [Function.update_eq_self] at hset
  | addFilter k => exact h.addFilter hc
  | disableFilter k => exact h.switchFilter hc true
  | enableFilter k => exact h.switchFilter hc false

theorem kept_final {calls : List LibFilterCall}
    (hcalls : Run.Meets step Within new calls) : (Run.final step new calls).Kept :=
  Run.final_invariant (fun _ _ h hc => h.step hc) kept_new hcalls

/-! ## What the filters do -/

theorem isSome_chosenPtr {table : FilterTable} {entries : List HistoryEntry}
    (hrep : Represents table entries) (tag : TagId) (origin : OriginId) :
    (table.chosenPtr tag origin).isSome ↔
      ∃ pair ∈ FilterTable.pairs tag origin, entriesFor entries pair.1 pair.2 ≠ [] := by
  have hlist : ∀ tag origin, (table.listAt (filterhash tag origin)).isSome ↔
      entriesFor entries tag origin ≠ [] := by
    intro tag origin
    by_cases hnil : entriesFor entries tag origin = []
    · simp [hrep.missing tag origin hnil, hnil]
    · rcases hrep.listed tag origin hnil with ⟨list, hat, -⟩
      simp [hat, hnil]
  have hchosen : (table.chosenList tag origin).isSome ↔
      ∃ pair ∈ FilterTable.pairs tag origin, entriesFor entries pair.1 pair.2 ≠ [] := by
    unfold FilterTable.chosenList
    rw [List.findSome?_isSome_iff]
    simp only [hlist]
  rw [← hchosen]
  rcases hrep.valid.chosenPtr_cases tag origin with
    ⟨hnone, hmissing⟩ | ⟨p, list, hptr, hfound, -, -⟩
  · simp [hnone, hmissing]
  · simp [hptr, hfound]

/-- A message is written for no filter whose mask misses its level. -/
theorem notMem_reference {entries : List HistoryEntry} {known ignored : TargetId → Bool}
    {tag : TagId} {origin : OriginId} {level : LevelMask} {f : Filter}
    (hid : f.id ≠ 0) (hmask : f.levelMask = 0) :
    f ∉ reference entries known ignored tag origin level := by
  unfold reference
  dsimp only
  split_ifs with hnone
  · intro hmem
    rw [List.mem_singleton.mp hmem] at hid
    exact hid rfl
  · intro hmem
    rcases List.mem_map.mp hmem with ⟨e, he, rfl⟩
    have hselected := (List.mem_filter.mp (List.mem_filter.mp he).1).2
    have hzero : e.args.mask = 0 := hmask
    simp [hzero] at hselected

/-- In every run of library calls within the limits, a message that was never
logged before is accepted if and only if there is a filter for its tag and
origin, with whatever mask, or messages pass by default; it is then written for
the filters that the structures of the program describe, and for none whose mask
was not set. -/
theorem lib_filters_route (calls : List LibFilterCall)
    (hcalls : Run.Meets step Within new calls)
    (opts : SiftOpts) (m : LogMeta) (hfresh : m.Fresh)
    (hmask : opts.levelFilterOutMask &&& m.level = 0)
    (registered : TargetId → Bool) (following : IgnoreList) :
    let s := Run.final step new calls
    let e : ExtraLogMeta := ⟨(s.table.sift opts m).2, following⟩
    ((s.table.sift opts m).1 = true ↔
        (∃ pair ∈ FilterTable.pairs m.tag m.origin,
          entriesFor s.entries pair.1 pair.2 ≠ []) ∨ opts.defaultFilterOut = false) ∧
      s.table.dispatch registered e =
        reference s.entries registered e.ignores m.tag m.origin m.level ∧
      (∀ f ∈ s.entries, f.args.mask = 0 → f.filter ∉ s.table.dispatch registered e) ∧
      ∀ k, (s.filters k).enabledFlags &&& greaseLibSetFilterMask = 0 →
        (s.filters k).args.mask = 0 := by
  intro s e
  have h : s.Kept := kept_final hcalls
  have hroute : s.table.dispatch registered e =
      reference s.entries registered e.ignores m.tag m.origin m.level :=
    h.represents.dispatch_eq_reference h.few hfresh hmask registered rfl
  refine ⟨?_, hroute, fun f hf hzero => ?_, fun k => (h.sound k).unset⟩
  · rw [(h.represents.valid.sift_fresh hfresh hmask).1, Bool.or_eq_true,
      isSome_chosenPtr h.represents, Bool.not_eq_true']
  · rw [hroute]
    exact notMem_reference (h.represents.id_ne_zero h.few hf) hzero

theorem lib_filters_route_maskless :
    let s := Run.final step new [.setvalue 0 greaseLibSetFilterTag 7, .addFilter 0]
    let m := LogMeta.declare 7 1 0
    (s.table.sift ⟨0, true⟩ m).1 = true ∧
      ∀ f ∈ s.entries, f.args.mask = 0 →
        f.filter ∉ s.table.dispatch (fun _ => true)
          ⟨(s.table.sift ⟨0, true⟩ m).2, noIgnoreList⟩ := by
  have hcalls : Run.Meets step Within new
      [.setvalue 0 greaseLibSetFilterTag 7, .addFilter 0] :=
    ⟨trivial, (by decide : 0 + 1 < 2 ^ 32 ∧ 0 + 1 < maxIdenticalFilters), trivial⟩
  have h := lib_filters_route _ hcalls ⟨0, true⟩ (LogMeta.declare 7 1 0) (by decide)
    (by decide) (fun _ => true) noIgnoreList
  exact ⟨h.1.mpr (.inl ⟨(7, 0), by decide, by decide +kernel⟩), h.2.2.1⟩

theorem setFilter_found_iff_mem {table : FilterTable} {entries : List HistoryEntry}
    (hrep : Represents table entries) {origin : OriginId} {tag : TagId} {id : FilterId}
    (hid : id ≠ 0) (v : Bool) :
    (table.setFilter origin tag id v).2 = true ↔
      ∃ e ∈ entriesFor entries tag origin, e.id = id := by
  rw [table.setFilter_found]
  by_cases hnil : entriesFor entries tag origin = []
  · simp [hrep.missing tag origin hnil, hnil]
  · rcases hrep.listed tag origin hnil with ⟨list, hat, hslots⟩
    have hslot := @mem_slotsOf_id (entriesFor entries tag origin) id
    simp [hat, hslots, hslot, hid]

section OneEntry

-- ids are handed out once, so one entry bears the id of a call
variable {entries : List HistoryEntry} {tag : TagId} {origin : OriginId} {e : HistoryEntry}

theorem exists_entriesFor_iff_isFor (he : e ∈ entries)
    (honly : ∀ other ∈ entries, other.id = e.id → other = e) :
    (∃ other ∈ entriesFor entries tag origin, other.id = e.id) ↔
      e.isFor tag origin = true := by
  constructor
  · rintro ⟨other, hother, hsame⟩
    rw [← honly other (List.mem_of_mem_filter hother) hsame]
    exact (List.mem_filter.mp hother).2
  · intro hpair
    exact ⟨e, List.mem_filter.mpr ⟨he, hpair⟩, rfl⟩

theorem map_setEnabled_of_isFor (honly : ∀ other ∈ entries, other.id = e.id → other = e)
    (hpair : e.isFor tag origin = true) (v : Bool) :
    entries.map (HistoryEntry.setEnabled origin tag e.id v) =
      entries.map fun other =>
        if other.id = e.id then { other with enabled := v } else other := by
  apply List.map_congr_left
  intro other hother
  unfold HistoryEntry.setEnabled
  by_cases hsame : other.id = e.id
  · rw [honly other hother hsame, if_pos ⟨hpair, rfl⟩, if_pos rfl]
  · rw [if_neg fun hboth => hsame hboth.2, if_neg hsame]

theorem map_setEnabled_of_not_isFor (honly : ∀ other ∈ entries, other.id = e.id → other = e)
    (hpair : ¬ e.isFor tag origin = true) (v : Bool) :
    entries.map (HistoryEntry.setEnabled origin tag e.id v) = entries := by
  conv_rhs => rw [← List.map_id entries]
  apply List.map_congr_left
  intro other hother
  apply if_neg
  rintro ⟨hfor, hsame⟩
  rw [honly other hother hsame] at hfor
  exact hpair hfor

end OneEntry

/-! ## Slots -/

section Slots

variable {table : FilterTable} {entries : List HistoryEntry} {id : FilterId}

/-- The slots of the list for a tag and an origin. -/
def slotsAt (table : FilterTable) (tag : TagId) (origin : OriginId) : List Filter :=
  ((table.listAt (filterhash tag origin)).map FilterList.slots).getD []

/-- The filter with this id is switched. -/
def switched (id : FilterId) (disabled : Bool) (f : Filter) : Filter :=
  if f.id = id then { f with disabled := disabled } else f

theorem slotsAt_eq (hrep : Represents table entries) (tag : TagId) (origin : OriginId) :
    slotsAt table tag origin =
      if entriesFor entries tag origin = [] then []
      else slotsOf (entriesFor entries tag origin) := by
  unfold slotsAt
  split_ifs with hnil
  · rw [hrep.missing tag origin hnil]
    rfl
  · rcases hrep.listed tag origin hnil with ⟨list, hat, hslots⟩
    rw [hat, Option.map_some, Option.getD_some, hslots]

theorem mem_slotsAt (hrep : Represents table entries) {e : HistoryEntry}
    (he : e ∈ entries) : e.filter ∈ slotsAt table e.args.tag e.args.origin := by
  have hfor : e ∈ entriesFor entries e.args.tag e.args.origin :=
    mem_entriesFor.mpr ⟨he, rfl, rfl⟩
  rw [slotsAt_eq hrep, if_neg (List.ne_nil_of_mem hfor)]
  exact List.mem_append_left _ (List.mem_map_of_mem hfor)

/-- Empty slots do not count. -/
theorem countP_slotsOf (hid : id ≠ 0) :
    (slotsOf entries).countP (·.id = id) = (entries.map HistoryEntry.id).count id := by
  have hempty : (List.replicate (maxIdenticalFilters - entries.length)
      Filter.empty).countP (·.id = id) = 0 := by
    apply List.countP_eq_zero.mpr
    intro f hf
    rw [List.eq_of_mem_replicate hf, decide_eq_true_eq]
    exact hid.symm
  unfold slotsOf
  rw [List.countP_append, hempty, List.countP_map, List.count_eq_countP, List.countP_map]
  rfl

/-- One slot of the whole table has the id of a filter that was added. -/
theorem countP_slotsAt (hrep : Represents table entries) (hfew : entries.length < 2 ^ 32)
    {e : HistoryEntry} (he : e ∈ entries) (tag : TagId) (origin : OriginId) :
    (slotsAt table tag origin).countP (·.id = e.id) =
      if tag = e.args.tag ∧ origin = e.args.origin then 1 else 0 := by
  have hnodup := hrep.ids_nodup hfew
  have hcount : (slotsAt table tag origin).countP (·.id = e.id) =
      ((entriesFor entries tag origin).map HistoryEntry.id).count e.id := by
    rw [slotsAt_eq hrep]
    split_ifs with hnil
    · rw [hnil]
      rfl
    · exact countP_slotsOf (hrep.id_ne_zero hfew he)
  rw [hcount]
  split_ifs with hpair
  · rcases hpair with ⟨rfl, rfl⟩
    apply List.count_eq_one_of_mem
    · exact hnodup.sublist (List.filter_sublist.map _)
    · exact List.mem_map_of_mem (mem_entriesFor.mpr ⟨he, rfl, rfl⟩)
  · apply List.count_eq_zero_of_not_mem
    intro hmem
    rcases List.mem_map.mp hmem with ⟨other, hother, hsame⟩
    rcases mem_entriesFor.mp hother with ⟨hmem, horigin, htag⟩
    have heq : other = e := List.inj_on_of_nodup_map hnodup hmem he hsame
    exact hpair ⟨heq ▸ htag.symm, heq ▸ horigin.symm⟩

theorem slotsOf_map_switched (hid : id ≠ 0) (disabled : Bool) :
    slotsOf (entries.map fun e =>
        if e.id = id then { e with enabled := !disabled } else e) =
      (slotsOf entries).map (switched id disabled) := by
  unfold slotsOf
  rw [List.map_append, List.map_replicate, List.length_map, List.map_map, List.map_map]
  congr 1
  · apply List.map_congr_left
    intro e _
    simp only [Function.comp_apply, switched]
    by_cases heq : e.id = id
    · simp [heq, HistoryEntry.filter, FilterArgs.filter]
    · simp [heq, HistoryEntry.filter, FilterArgs.filter]
  · have hempty : switched id disabled Filter.empty = Filter.empty :=
      if_neg fun heq => hid heq.symm
    rw [hempty]

theorem entriesFor_map_enabled (tag : TagId) (origin : OriginId) (v : Bool) :
    entriesFor (entries.map fun e =>
        if e.id = id then { e with enabled := v } else e) tag origin =
      (entriesFor entries tag origin).map fun e =>
        if e.id = id then { e with enabled := v } else e := by
  unfold entriesFor
  rw [List.filter_map]
  congr 1
  apply List.filter_congr
  intro e _
  simp only [Function.comp_apply, HistoryEntry.isFor]
  split_ifs <;> rfl

theorem slotsAt_of_map_enabled {table' : FilterTable} (hrep : Represents table entries)
    (hid : id ≠ 0) {disabled : Bool}
    (hrep' : Represents table' (entries.map fun e =>
      if e.id = id then { e with enabled := !disabled } else e))
    (tag : TagId) (origin : OriginId) :
    slotsAt table' tag origin =
      (slotsAt table tag origin).map (switched id disabled) := by
  rw [slotsAt_eq hrep, slotsAt_eq hrep', entriesFor_map_enabled]
  simp only [List.map_eq_nil_iff]
  split_ifs
  · rfl
  · exact slotsOf_map_switched hid disabled

end Slots

/-- In every such run there is exactly one filter for a structure that was added,
with the values it was added with; a call through the structure finds this
filter if and only if tag and origin are still those values, and then this one
and no other slot of the table is switched. -/
theorem lib_switch_finds_own (calls : List LibFilterCall)
    (hcalls : Run.Meets step Within new calls) (k : ℕ) (disabled : Bool) :
    let s := Run.final step new calls
    let f := s.filters k
    ∀ a, s.added k = some a →
      (∃ slot ∈ slotsAt s.table a.tag a.origin,
        { slot with disabled := false } = a.filter f.id) ∧
      (∀ tag origin, (slotsAt s.table tag origin).countP (·.id = f.id) =
        if tag = a.tag ∧ origin = a.origin then 1 else 0) ∧
      ((s.table.setFilter f.origin f.tag f.id disabled).2 = true ↔
        a.tag = f.tag ∧ a.origin = f.origin) ∧
      ∀ tag origin, slotsAt (s.switchFilter k disabled).table tag origin =
        if a.tag = f.tag ∧ a.origin = f.origin then
          (slotsAt s.table tag origin).map (switched f.id disabled)
        else slotsAt s.table tag origin := by
  intro s f a ha
  have h : s.Kept := kept_final hcalls
  have hk : s.added k ≠ none := by simp [ha]
  have hid : f.id ≠ 0 := h.id_ne_zero hk
  rcases (h.sound k).known a ha with ⟨e, he, heid, rfl⟩
  have honly : ∀ other ∈ s.entries, other.id = e.id → other = e := fun other hother =>
    List.inj_on_of_nodup_map (h.represents.ids_nodup h.few) hother he
  have hfor : e.isFor f.tag f.origin = true ↔
      e.args.tag = f.tag ∧ e.args.origin = f.origin := by
    simp [HistoryEntry.isFor]
  refine ⟨⟨e.filter, mem_slotsAt h.represents he, ?_⟩, fun tag origin => ?_, ?_,
    fun tag origin => ?_⟩
  · change e.args.filter e.id = e.args.filter f.id
    rw [heid]
  · rw [← heid]
    exact countP_slotsAt h.represents h.few he tag origin
  · rw [setFilter_found_iff_mem h.represents hid, ← heid, ← hfor]
    exact exists_entriesFor_iff_isFor he honly
  · have hafter := (h.switchFilter hk disabled).represents
    change Represents _ (s.entries.map
      (HistoryEntry.setEnabled f.origin f.tag f.id !disabled)) at hafter
    rw [← heid] at hafter
    split_ifs with hpair
    · rw [map_setEnabled_of_isFor honly (hfor.mpr hpair), heid] at hafter
      exact slotsAt_of_map_enabled h.represents hid hafter tag origin
    · rw [map_setEnabled_of_not_isFor honly (mt hfor.mp hpair)] at hafter
      rw [slotsAt_eq hafter, slotsAt_eq h.represents]

theorem lib_switch_finds_own_changed :
    let s := Run.final step new [.setvalue 0 greaseLibSetFilterTag 7, .addFilter 0,
      .setvalue 0 greaseLibSetFilterTag 8]
    ((s.table.setFilter 0 8 1 true).2 = true ↔ (7 : TagId) = 8 ∧ (0 : OriginId) = 0) ∧
      slotsAt (s.switchFilter 0 true).table 7 0 = slotsAt s.table 7 0 := by
  have hcalls : Run.Meets step Within new [.setvalue 0 greaseLibSetFilterTag 7,
      .addFilter 0, .setvalue 0 greaseLibSetFilterTag 8] :=
    ⟨trivial, (by decide : 0 + 1 < 2 ^ 32 ∧ 0 + 1 < maxIdenticalFilters), trivial, trivial⟩
  have h := lib_switch_finds_own _ hcalls 0 true
    { target := 0, origin := 0, tag := 7, mask := 0 } (by decide +kernel)
  refine ⟨h.2.2.1, ?_⟩
  have hslots := h.2.2.2 7 0
  rwa [if_neg (by decide +kernel)] at hslots

end LibFilters

end GreaseLog
