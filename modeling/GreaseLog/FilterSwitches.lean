import GreaseLog.RoutingReference
import GreaseLog.Run

/-!
# Switching filters on and off

`disableFilter` and `enableFilter` look a filter up by its id.  An empty slot
has the id zero: a call with that id finds the first empty slot of the list and
switches it, and `operator=` leaves the flag as it is when the slot is filled
later on.

As long as no call names an empty slot and ids are not handed out twice, the
calls find exactly the filters that were added, and a filter is off if the last
call for it switched it off.
-/

namespace GreaseLog

/-! ## What the calls should do -/

/-- The id was handed out for a filter of this origin and tag. -/
def ReturnedFor (history : List FilterCall) (origin : OriginId) (tag : TagId)
    (id : FilterId) : Prop :=
  ∃ before a later, history = before ++ .add a :: later ∧
    a.origin = origin ∧ a.tag = tag ∧
    ((FilterTable.build before).addFilter a).2 = some id

def FilterTable.lookupFilter (table : FilterTable) (origin : OriginId)
    (tag : TagId) (id : FilterId) : Option Filter :=
  (table.listAt (filterhash tag origin)).bind fun list =>
    list.slots.find? (·.id = id)

/-- Whether a filter is off after the call, if it was `off` before: only
successful calls for this filter count. -/
def FilterCall.switches (table : FilterTable) (origin : OriginId) (tag : TagId)
    (id : FilterId) (off : Bool) : FilterCall → Bool
  | .add _ => off
  | .disable origin' tag' id' =>
      if origin' = origin ∧ tag' = tag ∧ id' = id ∧
          (table.setFilter origin' tag' id' true).2 = true then true
      else off
  | .enable origin' tag' id' =>
      if origin' = origin ∧ tag' = tag ∧ id' = id ∧
          (table.setFilter origin' tag' id' false).2 = true then false
      else off

def switchedOff (origin : OriginId) (tag : TagId) (id : FilterId) :
    FilterTable → Bool → List FilterCall → Bool
  | _, off, [] => off
  | table, off, c :: rest =>
      switchedOff origin tag id (table.call c)
        (c.switches table origin tag id off) rest

/-- The answer of a call that switches a filter. -/
def ExactAnswer (history : List FilterCall) (origin : OriginId) (tag : TagId)
    (id : FilterId) (v : Bool) : Prop :=
  let result := (FilterTable.build history).setFilter origin tag id v
  (result.2 = true ↔ ReturnedFor history origin tag id) ∧
    (result.2 = false → result.1 = FilterTable.build history)

def ExactCall (history : List FilterCall) : FilterCall → Prop
  | .add _ => True
  | .disable origin tag id => ExactAnswer history origin tag id true
  | .enable origin tag id => ExactAnswer history origin tag id false

/-- Every filter that was added is in its list, and off if it was switched off
since. -/
def ExactState (history : List FilterCall) : Prop :=
  ∀ before a later id, history = before ++ .add a :: later →
    ((FilterTable.build before).addFilter a).2 = some id →
    (FilterTable.build history).lookupFilter a.origin a.tag id =
      some { a.filter id with
        disabled := switchedOff a.origin a.tag id
          (FilterTable.build (before ++ [.add a])) false later }

/-- A call names no empty slot, and a new filter gets an id that no slot of its
list has, the empty ones included. -/
def FilterTable.Distinguishes (table : FilterTable) : FilterCall → Prop
  | .add a =>
      let list := (table.listAt (filterhash a.tag a.origin)).getD FilterList.new
      list.overruns = false → ∀ f ∈ list.slots, f.id ≠ table.nextFilterId
  | .disable origin tag id | .enable origin tag id =>
      id = 0 → ∀ list, table.listAt (filterhash tag origin) = some list →
        list.overruns = true

/-! ## Slots -/

theorem setDisabledSlot_isSome
    (slots : List Filter) (id : FilterId) (v : Bool) :
    (setDisabledSlot slots id v).isSome = true ↔ ∃ f ∈ slots, f.id = id := by
  induction slots with
  | nil => simp [setDisabledSlot]
  | cons slot rest ih =>
      unfold setDisabledSlot
      split
      · rename_i hid
        simp [hid]
      · rename_i hid
        rw [Option.isSome_map, ih]
        simp [hid]

theorem FilterTable.setFilter_found
    (table : FilterTable) (origin : OriginId) (tag : TagId) (id : FilterId)
    (v : Bool) :
    (table.setFilter origin tag id v).2 = true ↔
      ∃ list, table.listAt (filterhash tag origin) = some list ∧
        ∃ f ∈ list.slots, f.id = id := by
  unfold FilterTable.setFilter FilterTable.listAt
  cases hfind : table.find (filterhash tag origin) with
  | none => simp
  | some p =>
      cases hderef : table.deref p with
      | none => simp [hderef]
      | some list =>
          have hslots := setDisabledSlot_isSome list.slots id v
          simp only [Option.bind_some, hderef, Option.some.injEq,
            exists_eq_left']
          rw [← hslots]
          cases hset : list.setDisabled id v with
          | none => simp [FilterList.setDisabled_eq_none_iff.mp hset]
          | some next => simp [(FilterList.setDisabled_eq_some hset).1]

theorem FilterTable.setFilter_of_not_found
    {table : FilterTable} {origin : OriginId} {tag : TagId} {id : FilterId}
    {v : Bool} (hfound : (table.setFilter origin tag id v).2 = false) :
    (table.setFilter origin tag id v).1 = table := by
  unfold FilterTable.setFilter at hfound ⊢
  cases hfind : table.find (filterhash tag origin) with
  | none => rfl
  | some p =>
      rw [hfind] at hfound
      dsimp only at hfound ⊢
      cases hset : (table.deref p).bind (·.setDisabled id v) with
      | none => rfl
      | some list =>
          rw [hset] at hfound
          simp at hfound

theorem mem_slotsOf_id
    {entries : List HistoryEntry} {id : FilterId} :
    (∃ f ∈ slotsOf entries, f.id = id) ↔
      (∃ e ∈ entries, e.id = id) ∨
        id = 0 ∧ entries.length < maxIdenticalFilters := by
  unfold slotsOf
  simp only [List.mem_append, List.mem_map, List.mem_replicate, ne_eq]
  constructor
  · rintro ⟨f, ⟨e, he, rfl⟩ | ⟨hroom, rfl⟩, hid⟩
    · exact Or.inl ⟨e, he, hid⟩
    · exact Or.inr ⟨hid.symm, by omega⟩
  · rintro (⟨e, he, hid⟩ | ⟨rfl, hroom⟩)
    · exact ⟨e.filter, Or.inl ⟨e, he, rfl⟩, hid⟩
    · exact ⟨Filter.empty, Or.inr ⟨by omega, rfl⟩, rfl⟩

theorem overruns_slotsOf
    {list : FilterList} {entries : List HistoryEntry}
    (hslots : list.slots = slotsOf entries) (hused : ∀ e ∈ entries, e.id ≠ 0) :
    list.overruns = true ↔ maxIdenticalFilters ≤ entries.length := by
  have hzero := @mem_slotsOf_id entries 0
  unfold FilterList.overruns
  rw [hslots, List.all_eq_true]
  constructor
  · intro hall
    by_contra hroom
    rcases hzero.mpr (Or.inr ⟨rfl, by omega⟩) with ⟨f, hf, hid⟩
    have hne := hall f hf
    simp [hid] at hne
  · intro hfull f hf
    have hid : f.id ≠ 0 := by
      intro hfid
      rcases hzero.mp ⟨f, hf, hfid⟩ with ⟨e, he, heid⟩ | ⟨-, hroom⟩
      · exact hused e he heid
      · omega
    simpa using hid

/-! ## The filters that were added -/

/-- The filters after one more call, with the ids they were given. -/
def recordAnswer (table : FilterTable) (entries : List HistoryEntry) :
    FilterCall → List HistoryEntry
  | .add a =>
      match (table.addFilter a).2 with
      | some id => entries ++ [⟨a, id, true⟩]
      | none => entries
  | .disable origin tag id =>
      entries.map (HistoryEntry.setEnabled origin tag id false)
  | .enable origin tag id =>
      entries.map (HistoryEntry.setEnabled origin tag id true)

/-- The lists of the table hold the filters in the order of their calls, and
their empty slots have never been touched. -/
structure FilterTable.Keeps (table : FilterTable)
    (entries : List HistoryEntry) : Prop where
  valid : table.Valid
  distinct : ∀ tag origin,
    ((entriesFor entries tag origin).map HistoryEntry.id).Nodup
  used : ∀ e ∈ entries, e.id ≠ 0
  slots : ∀ tag origin,
    ((table.listAt (filterhash tag origin)).getD FilterList.new).slots =
      slotsOf (entriesFor entries tag origin)
  listed : ∀ tag origin, entriesFor entries tag origin ≠ [] →
    (table.listAt (filterhash tag origin)).isSome = true

namespace FilterTable.Keeps

variable {table : FilterTable} {entries : List HistoryEntry}

theorem empty : FilterTable.empty.Keeps [] := by
  refine ⟨valid_empty, ?_, by simp, ?_, ?_⟩
  · intro tag origin
    exact List.nodup_nil
  · intro tag origin
    rfl
  · intro tag origin hne
    exact absurd rfl hne

theorem used_for
    (h : table.Keeps entries) (tag : TagId) (origin : OriginId) :
    ∀ e ∈ entriesFor entries tag origin, e.id ≠ 0 :=
  fun e he => h.used e (List.mem_of_mem_filter he)

/-- A call finds a filter exactly if it was added. -/
theorem setFilter_found_iff
    (h : table.Keeps entries) {origin : OriginId} {tag : TagId} {id : FilterId}
    (hguard : id = 0 → ∀ list, table.listAt (filterhash tag origin) =
      some list → list.overruns = true) (v : Bool) :
    (table.setFilter origin tag id v).2 = true ↔
      ∃ e ∈ entriesFor entries tag origin, e.id = id := by
  have hslots := h.slots tag origin
  rw [table.setFilter_found]
  cases hat : table.listAt (filterhash tag origin) with
  | none =>
      simp only [reduceCtorEq, false_and, exists_false, false_iff]
      rintro ⟨e, he, -⟩
      have hsome := h.listed tag origin (List.ne_nil_of_mem he)
      rw [hat] at hsome
      simp at hsome
  | some list =>
      rw [hat, Option.getD_some] at hslots
      simp only [Option.some.injEq, exists_eq_left']
      rw [hslots, mem_slotsOf_id, or_iff_left_iff_imp]
      rintro ⟨rfl, hroom⟩
      have hfull := (overruns_slotsOf hslots (h.used_for tag origin)).mp
        (hguard rfl list hat)
      omega

theorem setFilter
    (h : table.Keeps entries) {origin : OriginId} {tag : TagId} {id : FilterId}
    (hguard : id = 0 → ∀ list, table.listAt (filterhash tag origin) =
      some list → list.overruns = true) (v : Bool) :
    (table.setFilter origin tag id v).1.Keeps
      (entries.map (HistoryEntry.setEnabled origin tag id (!v))) := by
  rcases h.valid.setFilter origin tag id v with ⟨hvalid, -, -, hat⟩
  refine ⟨hvalid, ?_, ?_, ?_, ?_⟩
  · intro tag' origin'
    rw [Represents.entriesFor_map_setEnabled]
    split
    · rw [HistoryEntry.map_id_map_setEnabled]
      exact h.distinct tag' origin'
    · exact h.distinct tag' origin'
  · intro e he
    rcases List.mem_map.mp he with ⟨e', he', rfl⟩
    rw [HistoryEntry.id_setEnabled]
    exact h.used e' he'
  · intro tag' origin'
    rw [Represents.entriesFor_map_setEnabled, hat]
    by_cases hpair : tag' = tag ∧ origin' = origin
    · rw [if_pos hpair, if_pos (filterhash_inj.mpr hpair)]
      rcases hpair with ⟨rfl, rfl⟩
      have hslots := h.slots tag' origin'
      cases hlist : table.listAt (filterhash tag' origin') with
      | none =>
          have hnil : entriesFor entries tag' origin' = [] := by
            by_contra hne
            have hsome := h.listed tag' origin' hne
            rw [hlist] at hsome
            simp at hsome
          rw [hnil]
          rfl
      | some list =>
          rw [hlist, Option.getD_some] at hslots
          rw [Option.map_some, Option.getD_some, setDisabled_slots, hslots]
          apply setDisabledSlot_slotsOf v _ (h.distinct tag' origin')
            fun e he => (List.mem_filter.mp he).2
          intro hzero
          exact (overruns_slotsOf hslots (h.used_for tag' origin')).mp
            (hguard hzero list hlist)
    · rw [if_neg hpair, if_neg fun hhash => hpair (filterhash_inj.mp hhash)]
      exact h.slots tag' origin'
  · intro tag' origin' hne
    have hbefore : entriesFor entries tag' origin' ≠ [] := by
      intro hnil
      rw [Represents.entriesFor_map_setEnabled, hnil] at hne
      split at hne <;> simp at hne
    have hsome := h.listed tag' origin' hbefore
    rw [hat]
    split
    · rw [Option.isSome_map]
      exact hsome
    · exact hsome

/-- The same filters are in the lists of another table. -/
theorem of_slots
    (h : table.Keeps entries) {table' : FilterTable} (hvalid : table'.Valid)
    (hslots : ∀ tag origin,
      ((table'.listAt (filterhash tag origin)).getD FilterList.new).slots =
        ((table.listAt (filterhash tag origin)).getD FilterList.new).slots)
    (hlisted : ∀ hash, (table.listAt hash).isSome = true →
      (table'.listAt hash).isSome = true) : table'.Keeps entries :=
  ⟨hvalid, h.distinct, h.used,
    fun tag origin => (hslots tag origin).trans (h.slots tag origin),
    fun tag origin hne => hlisted _ (h.listed tag origin hne)⟩

/-- A filter finds its place behind the others of its list. -/
theorem room_of_add
    (h : table.Keeps entries) {a : FilterArgs} {f : Filter} {next : List Filter}
    (hadd : addSlot ((table.listAt (filterhash a.tag a.origin)).getD
      FilterList.new).slots f = some next) :
    (entriesFor entries a.tag a.origin).length < maxIdenticalFilters := by
  rcases addSlot_eq_some hadd with ⟨before, hole, after, hsplit, -, -, hzero⟩
  have hempty : ∃ f ∈ slotsOf (entriesFor entries a.tag a.origin),
      f.id = 0 := by
    rw [← h.slots, hsplit]
    exact ⟨hole, by simp, hzero⟩
  rcases mem_slotsOf_id.mp hempty with ⟨e, he, hid⟩ | ⟨-, hlt⟩
  · exact absurd hid (h.used_for a.tag a.origin e he)
  · exact hlt

theorem nextFilterId_fresh
    (h : table.Keeps entries) {a : FilterArgs}
    (hguard : table.Distinguishes (.add a))
    (hroom : (entriesFor entries a.tag a.origin).length <
      maxIdenticalFilters) :
    table.nextFilterId ≠ 0 ∧ table.nextFilterId ∉
      (entriesFor entries a.tag a.origin).map HistoryEntry.id := by
  have hhere := h.slots a.tag a.origin
  have hfresh : ¬∃ f ∈ slotsOf (entriesFor entries a.tag a.origin),
      f.id = table.nextFilterId := by
    rintro ⟨f, hf, hid⟩
    refine hguard ?_ f (by rw [hhere]; exact hf) hid
    rw [Bool.eq_false_iff, ne_eq,
      overruns_slotsOf hhere (h.used_for a.tag a.origin)]
    omega
  rw [mem_slotsOf_id, not_or] at hfresh
  refine ⟨fun hzero => hfresh.2 ⟨hzero, hroom⟩, ?_⟩
  intro hmem
  rcases List.mem_map.mp hmem with ⟨e, he, hid⟩
  exact hfresh.1 ⟨e, he, hid⟩

/-- One more filter, at the end of its list. -/
theorem concat
    (h : table.Keeps entries) {table' : FilterTable} (hvalid : table'.Valid)
    {e : HistoryEntry} {next : FilterList}
    (hat : ∀ hash, table'.listAt hash =
      if hash = filterhash e.args.tag e.args.origin then some next
      else table.listAt hash)
    (hslots : next.slots =
      slotsOf (entriesFor entries e.args.tag e.args.origin ++ [e]))
    (hused : e.id ≠ 0)
    (hnew : e.id ∉
      (entriesFor entries e.args.tag e.args.origin).map HistoryEntry.id) :
    table'.Keeps (entries ++ [e]) := by
  refine ⟨hvalid, ?_, ?_, ?_, ?_⟩
  · intro tag origin
    rw [entriesFor_concat]
    split
    · rename_i hpair
      rcases hpair with ⟨rfl, rfl⟩
      rw [List.map_append, List.nodup_append]
      refine ⟨h.distinct _ _, List.nodup_singleton _, ?_⟩
      intro x hx y hy hxy
      have hlast : y = e.id := List.mem_singleton.mp hy
      exact hnew (by rw [← hlast, ← hxy]; exact hx)
    · exact h.distinct tag origin
  · intro e' he'
    rcases List.mem_append.mp he' with hold | hlast
    · exact h.used e' hold
    · rw [List.mem_singleton.mp hlast]
      exact hused
  · intro tag origin
    rw [entriesFor_concat, hat]
    by_cases hpair : tag = e.args.tag ∧ origin = e.args.origin
    · rw [if_pos hpair, if_pos (filterhash_inj.mpr hpair)]
      rcases hpair with ⟨rfl, rfl⟩
      exact hslots
    · rw [if_neg hpair, if_neg fun hhash => hpair (filterhash_inj.mp hhash)]
      exact h.slots tag origin
  · intro tag origin hne
    rw [hat]
    split
    · rfl
    · rename_i hhash
      rw [entriesFor_concat, if_neg fun hpair =>
        hhash (filterhash_inj.mpr hpair)] at hne
      exact h.listed tag origin hne

theorem addFilter
    (h : table.Keeps entries) {a : FilterArgs}
    (hguard : table.Distinguishes (.add a)) :
    (table.addFilter a).1.Keeps (recordAnswer table entries (.add a)) := by
  rcases h.valid.addFilter a with ⟨hvalid, -, -, ⟨-, hnone, hat⟩ |
    ⟨added, hadd, hid, hat⟩⟩
  · -- no memory for a new list
    simp only [recordAnswer, hnone]
    exact h.of_slots hvalid (fun _ _ => by rw [hat]) fun _ hsome => by
      rw [hat]
      exact hsome
  cases hresult : added with
  | none =>
      -- the list is full
      rw [hresult] at hid hat
      simp only [recordAnswer, hid, Option.map_none]
      apply h.of_slots hvalid
      · intro tag origin
        rw [hat]
        split <;> rfl
      · intro hash hsome
        rw [hat]
        split
        · rfl
        · exact hsome
  | some next =>
      rw [hresult] at hadd hid hat
      simp only [recordAnswer, hid, Option.map_some]
      have hslot := (FilterList.add_eq_some hadd.symm).1
      have hroom := h.room_of_add hslot
      have hfresh := h.nextFilterId_fresh hguard hroom
      refine h.concat hvalid hat ?_ hfresh.1 hfresh.2
      have hplaced := addSlot_slotsOf
        (e := ⟨a, table.nextFilterId, true⟩) (h.used_for a.tag a.origin) rfl
        hroom
      rw [← h.slots] at hplaced
      exact Option.some.inj (hslot.symm.trans hplaced)

theorem call
    (h : table.Keeps entries) {c : FilterCall}
    (hguard : table.Distinguishes c) :
    (table.call c).Keeps (recordAnswer table entries c) := by
  cases c with
  | add a => exact h.addFilter hguard
  | disable origin tag id => exact h.setFilter hguard true
  | enable origin tag id => exact h.setFilter hguard false

/-- A filter is found in its list under its id. -/
theorem lookupFilter
    (h : table.Keeps entries) {e : HistoryEntry} (he : e ∈ entries) :
    table.lookupFilter e.args.origin e.args.tag e.id = some e.filter := by
  have hfor : e ∈ entriesFor entries e.args.tag e.args.origin := by
    simp [entriesFor, HistoryEntry.isFor, he]
  have hslots := h.slots e.args.tag e.args.origin
  have hsome := h.listed e.args.tag e.args.origin (List.ne_nil_of_mem hfor)
  rcases Option.isSome_iff_exists.mp hsome with ⟨list, hlist⟩
  rw [hlist, Option.getD_some] at hslots
  unfold FilterTable.lookupFilter
  rw [hlist, Option.bind_some, hslots]
  rcases List.mem_iff_append.mp hfor with ⟨before, after, hsplit⟩
  have hnodup := h.distinct e.args.tag e.args.origin
  rw [hsplit, List.map_append, List.map_cons, List.nodup_append] at hnodup
  have hbefore : ∀ f ∈ before.map HistoryEntry.filter,
      ¬decide (f.id = e.id) = true := by
    intro f hf
    rcases List.mem_map.mp hf with ⟨e', he', rfl⟩
    have hne : e'.filter.id ≠ e.id := hnodup.2.2 e'.id
      (List.mem_map_of_mem he') e.id (List.mem_cons_self ..)
    simpa using hne
  unfold slotsOf
  rw [hsplit, List.map_append, List.map_cons, List.append_assoc,
    List.find?_append, List.find?_eq_none.mpr hbefore, Option.none_or,
    List.cons_append, List.find?_cons_of_pos]
  exact decide_eq_true rfl

end FilterTable.Keeps

/-! ## Histories -/

/-- The filters of a history of calls. -/
def addedEntries (history : List FilterCall) : List HistoryEntry :=
  (history.foldl (fun state c =>
    (state.1.call c, recordAnswer state.1 state.2 c))
    (FilterTable.empty, ([] : List HistoryEntry))).2

theorem addedEntries_concat (history : List FilterCall) (c : FilterCall) :
    addedEntries (history ++ [c]) =
      recordAnswer (FilterTable.build history) (addedEntries history) c := by
  have hfirst : ∀ calls : List FilterCall, (calls.foldl (fun state c =>
      (state.1.call c, recordAnswer state.1 state.2 c))
      (FilterTable.empty, ([] : List HistoryEntry))).1 =
        FilterTable.build calls := by
    intro calls
    induction calls using List.reverseRecOn with
    | nil => rfl
    | append_singleton earlier c ih =>
        rw [List.foldl_append, build_append, ← ih]
        rfl
  unfold addedEntries
  rw [List.foldl_append, ← hfirst history]
  rfl

theorem keeps_build
    {history : List FilterCall}
    (hmeets : Run.Meets FilterTable.call FilterTable.Distinguishes
      FilterTable.empty history) :
    (FilterTable.build history).Keeps (addedEntries history) := by
  induction history using List.reverseRecOn with
  | nil => exact FilterTable.Keeps.empty
  | append_singleton earlier c ih =>
      rcases Run.meets_append.mp hmeets with ⟨hearlier, hguard, -⟩
      rw [build_append, addedEntries_concat]
      exact (ih hearlier).call hguard

theorem returnedFor_concat
    (history : List FilterCall) (c : FilterCall) (origin : OriginId)
    (tag : TagId) (id : FilterId) :
    ReturnedFor (history ++ [c]) origin tag id ↔
      ReturnedFor history origin tag id ∨
        ∃ a, c = .add a ∧ a.origin = origin ∧ a.tag = tag ∧
          ((FilterTable.build history).addFilter a).2 = some id := by
  constructor
  · rintro ⟨before, a, later, hsplit, horigin, htag, hid⟩
    rcases List.eq_nil_or_concat later with rfl | ⟨front, d, rfl⟩
    · have hlast := List.append_inj' hsplit rfl
      rw [hlast.1]
      exact Or.inr ⟨a, by simpa using hlast.2, horigin, htag, hid⟩
    · rw [List.concat_eq_append, ← List.cons_append, ← List.append_assoc]
        at hsplit
      exact Or.inl ⟨before, a, front, List.append_inj_left' hsplit rfl,
        horigin, htag, hid⟩
  · rintro (⟨before, a, later, rfl, horigin, htag, hid⟩ |
      ⟨a, rfl, horigin, htag, hid⟩)
    · exact ⟨before, a, later ++ [c], by simp, horigin, htag, hid⟩
    · exact ⟨history, a, [], rfl, horigin, htag, hid⟩

theorem mem_map_setEnabled
    {entries : List HistoryEntry} {origin origin' : OriginId}
    {tag tag' : TagId} {id id' : FilterId} {v : Bool} :
    (∃ e ∈ entries.map (HistoryEntry.setEnabled origin' tag' id' v),
        e.args.origin = origin ∧ e.args.tag = tag ∧ e.id = id) ↔
      ∃ e ∈ entries, e.args.origin = origin ∧ e.args.tag = tag ∧
        e.id = id := by
  simp

theorem returnedFor_iff
    (history : List FilterCall) (origin : OriginId) (tag : TagId)
    (id : FilterId) :
    ReturnedFor history origin tag id ↔
      ∃ e ∈ addedEntries history, e.args.origin = origin ∧
        e.args.tag = tag ∧ e.id = id := by
  induction history using List.reverseRecOn with
  | nil => simp [ReturnedFor, addedEntries]
  | append_singleton earlier c ih =>
      rw [returnedFor_concat, addedEntries_concat, ih]
      cases c with
      | add a =>
          simp only [FilterCall.add.injEq, recordAnswer]
          cases hid : ((FilterTable.build earlier).addFilter a).2 with
          | none =>
              rw [or_iff_left]
              rintro ⟨a', rfl, -, -, hsome⟩
              rw [hid] at hsome
              simp at hsome
          | some id' =>
              simp only [List.mem_append, List.mem_singleton, or_and_right,
                exists_or, exists_eq_left]
              refine or_congr Iff.rfl ?_
              constructor
              · rintro ⟨a', rfl, horigin, htag, hsome⟩
                rw [hid] at hsome
                exact ⟨horigin, htag, Option.some.inj hsome⟩
              · rintro ⟨horigin, htag, rfl⟩
                exact ⟨a, rfl, horigin, htag, hid⟩
      | disable origin' tag' id' =>
          simp only [reduceCtorEq, false_and, exists_false, or_false]
          exact mem_map_setEnabled.symm
      | enable origin' tag' id' =>
          simp only [reduceCtorEq, false_and, exists_false, or_false]
          exact mem_map_setEnabled.symm

theorem switchedOff_concat
    (origin : OriginId) (tag : TagId) (id : FilterId) (table : FilterTable)
    (off : Bool) (calls : List FilterCall) (c : FilterCall) :
    switchedOff origin tag id table off (calls ++ [c]) =
      c.switches (calls.foldl FilterTable.call table) origin tag id
        (switchedOff origin tag id table off calls) := by
  induction calls generalizing table off with
  | nil => rfl
  | cons d calls ih => exact ih _ _

theorem mem_entriesFor
    {entries : List HistoryEntry} {e : HistoryEntry} {tag : TagId}
    {origin : OriginId} :
    e ∈ entriesFor entries tag origin ↔
      e ∈ entries ∧ e.args.origin = origin ∧ e.args.tag = tag := by
  simp only [entriesFor, List.mem_filter, HistoryEntry.isFor,
    Bool.and_eq_true, beq_iff_eq]
  tauto

/-- One more call switches the filter as it should. -/
theorem FilterTable.Keeps.switches
    {table : FilterTable} {entries : List HistoryEntry}
    (h : table.Keeps entries) {c : FilterCall}
    (hguard : table.Distinguishes c) {a : FilterArgs} {id : FilterId}
    {off : Bool} (hmem : ⟨a, id, !off⟩ ∈ entries) :
    ⟨a, id, !c.switches table a.origin a.tag id off⟩ ∈
      recordAnswer table entries c := by
  have hswitch : ∀ origin' tag' id' v, (id' = 0 → ∀ list,
      table.listAt (filterhash tag' origin') = some list →
        list.overruns = true) →
      HistoryEntry.setEnabled origin' tag' id' (!v) ⟨a, id, !off⟩ =
        ⟨a, id, !if origin' = a.origin ∧ tag' = a.tag ∧ id' = id ∧
          (table.setFilter origin' tag' id' v).2 = true then v else off⟩ := by
    intro origin' tag' id' v hnamed
    by_cases hown : origin' = a.origin ∧ tag' = a.tag ∧ id' = id
    · rcases hown with ⟨rfl, rfl, rfl⟩
      have hfound := (h.setFilter_found_iff hnamed v).mpr
        ⟨_, mem_entriesFor.mpr ⟨hmem, rfl, rfl⟩, rfl⟩
      simp [HistoryEntry.setEnabled, HistoryEntry.isFor, hfound]
    · have hother : ¬((HistoryEntry.mk a id (!off)).isFor tag' origin' = true ∧
          id = id') := by
        rintro ⟨hfor, rfl⟩
        simp only [HistoryEntry.isFor, Bool.and_eq_true, beq_iff_eq] at hfor
        exact hown ⟨hfor.2.symm, hfor.1.symm, rfl⟩
      rw [HistoryEntry.setEnabled, if_neg hother, if_neg]
      rintro ⟨horigin, htag, hid, -⟩
      exact hown ⟨horigin, htag, hid⟩
  cases c with
  | add b =>
      simp only [recordAnswer, FilterCall.switches]
      split
      · exact List.mem_append_left _ hmem
      · exact hmem
  | disable origin' tag' id' =>
      have hentry := hswitch origin' tag' id' true hguard
      simp only [recordAnswer, FilterCall.switches]
      rw [← hentry]
      exact List.mem_map_of_mem hmem
  | enable origin' tag' id' =>
      have hentry := hswitch origin' tag' id' false hguard
      simp only [recordAnswer, FilterCall.switches]
      rw [← hentry]
      exact List.mem_map_of_mem hmem

theorem mem_addedEntries
    {before later : List FilterCall} {a : FilterArgs} {id : FilterId}
    (hmeets : Run.Meets FilterTable.call FilterTable.Distinguishes
      FilterTable.empty (before ++ .add a :: later))
    (hid : ((FilterTable.build before).addFilter a).2 = some id) :
    ⟨a, id, !switchedOff a.origin a.tag id
      (FilterTable.build (before ++ [.add a])) false later⟩ ∈
        addedEntries (before ++ .add a :: later) := by
  induction later using List.reverseRecOn with
  | nil =>
      rw [addedEntries_concat]
      simp only [recordAnswer, hid]
      exact List.mem_append_right _ (List.mem_singleton.mpr rfl)
  | append_singleton later c ih =>
      rw [← List.cons_append, ← List.append_assoc] at hmeets ⊢
      rcases Run.meets_append.mp hmeets with ⟨hbefore, hguard, -⟩
      have hkeeps := keeps_build hbefore
      have htable : later.foldl FilterTable.call
          (FilterTable.build (before ++ [.add a])) =
            FilterTable.build (before ++ .add a :: later) := by
        unfold FilterTable.build
        rw [← List.foldl_append, List.append_assoc, List.singleton_append]
      rw [switchedOff_concat, addedEntries_concat, htable]
      exact hkeeps.switches hguard (ih hbefore)

theorem exactAnswer
    {history : List FilterCall}
    (hmeets : Run.Meets FilterTable.call FilterTable.Distinguishes
      FilterTable.empty history)
    {origin : OriginId} {tag : TagId} {id : FilterId}
    (hguard : id = 0 → ∀ list, (FilterTable.build history).listAt
      (filterhash tag origin) = some list → list.overruns = true) (v : Bool) :
    ExactAnswer history origin tag id v := by
  refine ⟨?_, FilterTable.setFilter_of_not_found⟩
  rw [(keeps_build hmeets).setFilter_found_iff hguard, returnedFor_iff]
  simp only [mem_entriesFor, and_assoc]

/-- In a run without calls that name an empty slot and with fresh ids every
call gets the right answer, and at every moment the filters that were added are
off exactly if they were switched off. -/
theorem switches_exact
    {history : List FilterCall}
    (hmeets : Run.Meets FilterTable.call FilterTable.Distinguishes
      FilterTable.empty history) :
    ∀ earlier later, history = earlier ++ later →
      ExactState earlier ∧
        ∀ c rest, later = c :: rest → ExactCall earlier c := by
  rintro earlier later rfl
  rcases Run.meets_append.mp hmeets with ⟨hearlier, hlater⟩
  constructor
  · rintro before a after id rfl hid
    have hmem := mem_addedEntries hearlier hid
    have hfound := (keeps_build hearlier).lookupFilter hmem
    simpa [HistoryEntry.filter] using hfound
  · rintro c rest rfl
    have hguard : (FilterTable.build earlier).Distinguishes c := hlater.1
    cases c with
    | add a => trivial
    | disable origin tag id => exact exactAnswer hearlier hguard true
    | enable origin tag id => exact exactAnswer hearlier hguard false

def someFilter : FilterArgs where
  target := 1
  origin := 3
  tag := 7
  mask := 1

theorem switches_exact_once :
    ExactState [.add someFilter, .disable 3 7 1] ∧
      ExactAnswer [.add someFilter] 3 7 1 true := by
  have hmeets : Run.Meets FilterTable.call FilterTable.Distinguishes
      FilterTable.empty [.add someFilter, .disable 3 7 1] := by
    refine ⟨?_, ?_, trivial⟩
    · intro _
      decide +kernel
    · intro hzero
      simp at hzero
  exact ⟨(switches_exact hmeets _ [] rfl).1,
    (switches_exact hmeets [.add someFilter] [.disable 3 7 1] rfl).2 _ [] rfl⟩

/-- Disabling the filter with the id zero, which nobody has been given, is
answered with `GREASE_LIB_OK`, and the filter added next is off from the
start. -/
theorem empty_slot_disabled :
    ¬ExactAnswer [.add someFilter] 3 7 0 true ∧
      ¬ExactState [.add someFilter, .disable 3 7 0, .add someFilter] := by
  constructor
  · intro hexact
    have hfound : ((FilterTable.build [.add someFilter]).setFilter 3 7 0
        true).2 = true := by decide +kernel
    have hreturned := hexact.1.mp hfound
    rw [returnedFor_iff] at hreturned
    revert hreturned
    decide +kernel
  · intro hexact
    have hstate := hexact [.add someFilter, .disable 3 7 0] someFilter [] 2 rfl
      (by decide +kernel)
    revert hstate
    decide +kernel

end GreaseLog
