import GreaseLog.Logger

/-!
# A reference for routing

The filters of a table, in the order in which they were added, say where a
message goes: the first of the four pairs of tag and origin which has any
filter decides.  `entries` reads the filters off a history of calls, without
tables, hashes or blooms, and `reference` computes the writes from them.

The file shows that the filter table represents these entries as long as no
pair runs out of slots and ids do not wrap around, and that the writes of the
logger are the ones of the reference.
-/

namespace GreaseLog

structure HistoryEntry where
  args : FilterArgs
  id : FilterId
  enabled : Bool
  deriving DecidableEq, Repr

namespace HistoryEntry

def filter (e : HistoryEntry) : Filter :=
  { e.args.filter e.id with disabled := !e.enabled }

def isFor (e : HistoryEntry) (tag : TagId) (origin : OriginId) : Bool :=
  e.args.tag == tag && e.args.origin == origin

def setEnabled (origin : OriginId) (tag : TagId) (id : FilterId) (v : Bool)
    (e : HistoryEntry) : HistoryEntry :=
  if e.isFor tag origin ∧ e.id = id then { e with enabled := v } else e

section SetEnabled

variable (origin : OriginId) (tag : TagId) (id : FilterId) (v : Bool)

@[simp] theorem args_setEnabled (e : HistoryEntry) :
    (setEnabled origin tag id v e).args = e.args := by
  unfold setEnabled
  split <;> rfl

@[simp] theorem id_setEnabled (e : HistoryEntry) :
    (setEnabled origin tag id v e).id = e.id := by
  unfold setEnabled
  split <;> rfl

@[simp] theorem isFor_setEnabled
    (e : HistoryEntry) (tag' : TagId) (origin' : OriginId) :
    (setEnabled origin tag id v e).isFor tag' origin' =
      e.isFor tag' origin' := by
  simp [isFor]

theorem map_id_map_setEnabled (entries : List HistoryEntry) :
    (entries.map (setEnabled origin tag id v)).map HistoryEntry.id =
      entries.map HistoryEntry.id := by
  simp [Function.comp_def]

end SetEnabled

end HistoryEntry

def recordCall (entries : List HistoryEntry) :
    FilterCall → List HistoryEntry
  | .add a => entries ++ [⟨a, UInt32.ofNat (entries.length + 1), true⟩]
  | .disable origin tag id =>
      entries.map (HistoryEntry.setEnabled origin tag id false)
  | .enable origin tag id =>
      entries.map (HistoryEntry.setEnabled origin tag id true)

/-- The filters after a history of calls; ids count from one. -/
def entriesOf (history : List FilterCall) : List HistoryEntry :=
  history.foldl recordCall []

def entriesFor (entries : List HistoryEntry) (tag : TagId)
    (origin : OriginId) : List HistoryEntry :=
  entries.filter (·.isFor tag origin)

/-- The filters of the first pair which has any. -/
def decidingEntries (entries : List HistoryEntry) (tag : TagId)
    (origin : OriginId) : List HistoryEntry :=
  (((FilterTable.pairs tag origin).map
    fun pair => entriesFor entries pair.1 pair.2).find? (· ≠ [])).getD []

/-- The filters a message is written for.  `known` says which targets are
registered, `ignored` which ones the message leaves out. -/
def reference (entries : List HistoryEntry) (known ignored : TargetId → Bool)
    (tag : TagId) (origin : OriginId) (level : LevelMask) : List Filter :=
  let matching := (decidingEntries entries tag origin).filter fun e =>
    e.enabled && (e.args.mask &&& level) != 0
  let written := matching.filter fun e =>
    e.args.target == 0 || (known e.args.target && !ignored e.args.target)
  if written = [] then [Filter.empty] else written.map HistoryEntry.filter

/-! ## Histories -/

def Returned (history : List FilterCall) (id : FilterId) : Prop :=
  ∃ earlier a later, history = earlier ++ .add a :: later ∧
    ((FilterTable.build earlier).addFilter a).2 = some id

def FilterCall.addsTo (tag : TagId) (origin : OriginId) : FilterCall → Bool
  | .add a => a.tag == tag && a.origin == origin
  | _ => false

/-- The histories the reference is about: no pair gets
`MAX_IDENTICAL_FILTERS` filters, ids do not wrap around, and filters are
switched by ids that had been handed out. -/
structure HistoryWithinLimits (history : List FilterCall) : Prop where
  perPair : ∀ tag origin,
    (history.filter (FilterCall.addsTo tag origin)).length <
      maxIdenticalFilters
  calls : history.length < 2 ^ 32
  ids : ∀ earlier later origin tag id,
    history = earlier ++ .disable origin tag id :: later ∨
      history = earlier ++ .enable origin tag id :: later →
    Returned earlier id

theorem HistoryWithinLimits.init
    {earlier : List FilterCall} {c : FilterCall}
    (hlimits : HistoryWithinLimits (earlier ++ [c])) :
    HistoryWithinLimits earlier := by
  constructor
  · intro tag origin
    have hpair := hlimits.perPair tag origin
    rw [List.filter_append, List.length_append] at hpair
    omega
  · have hcalls := hlimits.calls
    simp only [List.length_append, List.length_singleton] at hcalls
    omega
  · intro before later origin tag id hsplit
    apply hlimits.ids before (later ++ [c]) origin tag id
    rcases hsplit with hsplit | hsplit
    · left
      simp [hsplit]
    · right
      simp [hsplit]

theorem length_entriesOf (history : List FilterCall) :
    (entriesOf history).length ≤ history.length := by
  induction history using List.reverseRecOn with
  | nil => simp [entriesOf]
  | append_singleton earlier c ih =>
      unfold entriesOf at ih ⊢
      rw [List.foldl_append]
      cases c <;> simp [recordCall] <;> omega

theorem length_entriesFor
    (history : List FilterCall) (tag : TagId) (origin : OriginId) :
    (entriesFor (entriesOf history) tag origin).length =
      (history.filter (FilterCall.addsTo tag origin)).length := by
  have hkeep : ∀ (entries : List HistoryEntry) origin' tag' id v,
      (entriesFor (entries.map (HistoryEntry.setEnabled origin' tag' id v))
        tag origin).length = (entriesFor entries tag origin).length := by
    intro entries origin' tag' id v
    simp [entriesFor, List.filter_map, Function.comp_def]
  induction history using List.reverseRecOn with
  | nil => simp [entriesOf, entriesFor]
  | append_singleton earlier c ih =>
      have hstep : entriesOf (earlier ++ [c]) =
          recordCall (entriesOf earlier) c := by
        simp [entriesOf, List.foldl_append]
      rw [hstep, List.filter_append, List.length_append, ← ih]
      cases c with
      | add a =>
          have hlast : ∀ id, (HistoryEntry.mk a id true).isFor tag origin =
              FilterCall.addsTo tag origin (.add a) := fun _ => rfl
          simp only [recordCall, entriesFor, List.filter_append,
            List.length_append, List.filter_singleton, hlast]
          cases FilterCall.addsTo tag origin (.add a) <;> simp
      | disable origin' tag' id =>
          simp [recordCall, hkeep, FilterCall.addsTo]
      | enable origin' tag' id =>
          simp [recordCall, hkeep, FilterCall.addsTo]

/-! ## Slots -/

theorem addSlot_used
    {used : List Filter} (hused : ∀ f ∈ used, f.id ≠ 0)
    {hole : Filter} (hhole : hole.id = 0) (rest : List Filter) (f : Filter) :
    addSlot (used ++ hole :: rest) f =
      some (used ++ hole.assign f :: rest) := by
  induction used with
  | nil => simp [addSlot, hhole]
  | cons g used ih =>
      have hg : g.id ≠ 0 := hused g (by simp)
      have htail := ih fun h hh => hused h (by simp [hh])
      simp [addSlot, hg, htail]

/-- With distinct ids, switching the slot that is found first is switching
every slot with the id. -/
theorem setDisabledSlot_getD
    {slots : List Filter} {id : FilterId} (v : Bool)
    (hdistinct : slots.Pairwise fun f g => f.id = id → g.id ≠ id) :
    (setDisabledSlot slots id v).getD slots =
      slots.map fun f => if f.id = id then { f with disabled := v } else f := by
  induction slots with
  | nil => rfl
  | cons slot rest ih =>
      have hparts := List.pairwise_cons.mp hdistinct
      unfold setDisabledSlot
      by_cases hid : slot.id = id
      · have hrest : rest.map (fun f =>
            if f.id = id then { f with disabled := v } else f) = rest := by
          conv_rhs => rw [← List.map_id rest]
          apply List.map_congr_left
          intro f hf
          rw [if_neg (hparts.1 f hf hid)]
          rfl
        simp [hid, hrest]
      · have htail := ih hparts.2
        cases hset : setDisabledSlot rest id v with
        | none =>
            rw [hset] at htail
            simp only [Option.getD_none] at htail
            simp [hid, ← htail]
        | some next =>
            rw [hset] at htail
            simp only [Option.getD_some] at htail
            simp [hid, htail]

theorem setDisabled_slots
    (list : FilterList) (id : FilterId) (v : Bool) :
    ((list.setDisabled id v).getD list).slots =
      (setDisabledSlot list.slots id v).getD list.slots := by
  cases hset : list.setDisabled id v with
  | none =>
      rw [FilterList.setDisabled_eq_none_iff.mp hset]
      rfl
  | some next =>
      rw [(FilterList.setDisabled_eq_some hset).1]
      rfl

/-! ## The table represents the entries -/

def slotsOf (entries : List HistoryEntry) : List Filter :=
  entries.map HistoryEntry.filter ++
    List.replicate (maxIdenticalFilters - entries.length) Filter.empty

theorem addSlot_slotsOf
    {entries : List HistoryEntry} {e : HistoryEntry}
    (hids : ∀ e ∈ entries, e.id ≠ 0) (henabled : e.enabled = true)
    (hroom : entries.length < maxIdenticalFilters) :
    addSlot (slotsOf entries) (e.args.filter e.id) =
      some (slotsOf (entries ++ [e])) := by
  have hsplit : maxIdenticalFilters - entries.length =
      maxIdenticalFilters - (entries ++ [e]).length + 1 := by
    simp only [List.length_append, List.length_singleton]
    omega
  have hused : ∀ f ∈ entries.map HistoryEntry.filter, f.id ≠ 0 := by
    intro f hf
    rcases List.mem_map.mp hf with ⟨g, hg, rfl⟩
    exact hids g hg
  have hfilter : Filter.empty.assign (e.args.filter e.id) = e.filter := by
    simp [Filter.assign, Filter.empty, HistoryEntry.filter, henabled]
  unfold slotsOf
  rw [hsplit, List.replicate_succ, addSlot_used hused rfl, hfilter]
  simp

/-- Switching a filter of the list.  An id of zero is harmless only if there is
no empty slot. -/
theorem setDisabledSlot_slotsOf
    {entries : List HistoryEntry} {id : FilterId} (v : Bool)
    (hid : id = 0 → maxIdenticalFilters ≤ entries.length)
    (hnodup : (entries.map HistoryEntry.id).Nodup)
    {tag : TagId} {origin : OriginId}
    (hfor : ∀ e ∈ entries, e.isFor tag origin = true) :
    (setDisabledSlot (slotsOf entries) id v).getD (slotsOf entries) =
      slotsOf (entries.map (HistoryEntry.setEnabled origin tag id (!v))) := by
  have hempty : ∀ f ∈ List.replicate (maxIdenticalFilters - entries.length)
      Filter.empty, f.id ≠ id := by
    intro f hf hfid
    rcases List.mem_replicate.mp hf with ⟨hroom, rfl⟩
    have hfull := hid hfid.symm
    omega
  have hdistinct : (slotsOf entries).Pairwise
      fun f g => f.id = id → g.id ≠ id := by
    unfold slotsOf
    rw [List.pairwise_append]
    refine ⟨?_, ?_, fun f _ g hg _ => hempty g hg⟩
    · rw [List.pairwise_map]
      have hne := List.pairwise_map.mp hnodup
      apply hne.imp
      intro e e' hdiffer he he'
      exact hdiffer (he.trans he'.symm)
    · exact List.pairwise_of_forall_mem_list fun f _ g hg _ => hempty g hg
  rw [setDisabledSlot_getD v hdistinct]
  unfold slotsOf
  rw [List.map_append, List.length_map, List.map_map, List.map_map]
  congr 1
  · apply List.map_congr_left
    intro e he
    simp only [Function.comp_apply, HistoryEntry.setEnabled, hfor e he,
      true_and]
    by_cases heq : e.id = id
    · simp [HistoryEntry.filter, FilterArgs.filter, heq]
    · have hfilter : e.filter.id ≠ id := heq
      simp [heq, hfilter]
  · conv_rhs => rw [← List.map_id (List.replicate _ _)]
    apply List.map_congr_left
    intro f hf
    rw [if_neg (hempty f hf)]
    rfl

theorem entriesFor_concat
    (entries : List HistoryEntry) (e : HistoryEntry) (tag : TagId)
    (origin : OriginId) :
    entriesFor (entries ++ [e]) tag origin =
      if tag = e.args.tag ∧ origin = e.args.origin then
        entriesFor entries tag origin ++ [e]
      else entriesFor entries tag origin := by
  have hfor : e.isFor tag origin = true ↔
      tag = e.args.tag ∧ origin = e.args.origin := by
    simp only [HistoryEntry.isFor, Bool.and_eq_true, beq_iff_eq]
    exact ⟨fun h => ⟨h.1.symm, h.2.symm⟩, fun h => ⟨h.1.symm, h.2.symm⟩⟩
  simp only [entriesFor, List.filter_append, List.filter_singleton]
  by_cases hpair : tag = e.args.tag ∧ origin = e.args.origin
  · rw [if_pos hpair, hfor.mpr hpair]
    rfl
  · rw [if_neg hpair, Bool.eq_false_iff.mpr fun h => hpair (hfor.mp h)]
    exact List.append_nil _

structure Represents (table : FilterTable) (entries : List HistoryEntry) :
    Prop where
  valid : table.Valid
  nextId : table.nextFilterId = UInt32.ofNat (entries.length + 1)
  few : table.lists.length ≤ entries.length
  ids : entries.map HistoryEntry.id =
    (List.range entries.length).map fun n => UInt32.ofNat (n + 1)
  missing : ∀ tag origin, entriesFor entries tag origin = [] →
    table.listAt (filterhash tag origin) = none
  listed : ∀ tag origin, entriesFor entries tag origin ≠ [] →
    ∃ list, table.listAt (filterhash tag origin) = some list ∧
      list.slots = slotsOf (entriesFor entries tag origin)

namespace Represents

variable {table : FilterTable} {entries : List HistoryEntry}

theorem slots_getD
    (hrep : Represents table entries) (tag : TagId) (origin : OriginId) :
    ((table.listAt (filterhash tag origin)).getD FilterList.new).slots =
      slotsOf (entriesFor entries tag origin) := by
  by_cases hnil : entriesFor entries tag origin = []
  · rw [hrep.missing tag origin hnil, hnil]
    rfl
  · rcases hrep.listed tag origin hnil with ⟨list, hat, hslots⟩
    rw [hat]
    exact hslots

theorem ids_nodup
    (hrep : Represents table entries) (hlength : entries.length < 2 ^ 32) :
    (entries.map HistoryEntry.id).Nodup := by
  rw [hrep.ids]
  apply List.Nodup.map_on _ List.nodup_range
  intro n hn k hk heq
  have hn' := List.mem_range.mp hn
  have hk' := List.mem_range.mp hk
  have hnat := congrArg UInt32.toNat heq
  simp only [UInt32.toNat_ofNat'] at hnat
  rw [Nat.mod_eq_of_lt (by omega), Nat.mod_eq_of_lt (by omega)] at hnat
  omega

theorem id_ne_zero
    (hrep : Represents table entries) (hlength : entries.length < 2 ^ 32)
    {e : HistoryEntry} (he : e ∈ entries) :
    e.id ≠ 0 := by
  have hmem : e.id ∈ entries.map HistoryEntry.id := List.mem_map_of_mem he
  rw [hrep.ids] at hmem
  rcases List.mem_map.mp hmem with ⟨n, hn, hid⟩
  have hn' := List.mem_range.mp hn
  intro hzero
  have hnat := congrArg UInt32.toNat (hid.trans hzero)
  simp only [UInt32.toNat_ofNat', UInt32.toNat_zero] at hnat
  rw [Nat.mod_eq_of_lt (by omega)] at hnat
  omega

theorem add
    (hrep : Represents table entries) (a : FilterArgs)
    (hlength : entries.length < 2 ^ 32)
    (hroom : (entriesFor entries a.tag a.origin).length <
      maxIdenticalFilters) :
    Represents (table.addFilter a).1
        (recordCall entries (.add a)) ∧
      (table.addFilter a).2 = some (UInt32.ofNat (entries.length + 1)) := by
  set e : HistoryEntry := ⟨a, UInt32.ofNat (entries.length + 1), true⟩ with he
  have hspec := hrep.valid.addFilter a
  rcases hspec with ⟨hvalid, hnext, hlists, hfull | hadded⟩
  · have hfew := hrep.few
    omega
  · rcases hadded with ⟨added, hadd, hid, hat⟩
    have hslot : addSlot
        ((table.listAt (filterhash a.tag a.origin)).getD FilterList.new).slots
        (a.filter table.nextFilterId) =
          some (slotsOf (entriesFor entries a.tag a.origin ++ [e])) := by
      rw [hrep.slots_getD, hrep.nextId]
      apply addSlot_slotsOf (e := e) _ rfl hroom
      intro g hg
      exact hrep.id_ne_zero hlength (List.mem_of_mem_filter hg)
    cases hresult : added with
    | none =>
        rw [hresult] at hadd
        have hnone := FilterList.add_eq_none_iff.mp hadd.symm
        rw [hslot] at hnone
        simp at hnone
    | some list =>
        rw [hresult] at hadd hid hat
        have hslots : list.slots =
            slotsOf (entriesFor entries a.tag a.origin ++ [e]) := by
          have hnew := (FilterList.add_eq_some hadd.symm).1
          rw [hslot] at hnew
          exact (Option.some.inj hnew).symm
        refine ⟨⟨hvalid, ?_, ?_, ?_, ?_, ?_⟩, ?_⟩
        · rw [hnext, hrep.nextId]
          simp [recordCall, UInt32.ofNat_add]
        · have hfew := hrep.few
          simp only [recordCall, List.length_append, List.length_singleton]
          omega
        · simp only [recordCall, List.map_append, List.map_singleton,
            List.length_append, List.length_singleton, List.range_succ,
            hrep.ids]
        · intro tag origin hnil
          simp only [recordCall] at hnil
          rw [← he, entriesFor_concat] at hnil
          split at hnil
          · simp at hnil
          · rename_i hpair
            rw [hat, if_neg]
            · exact hrep.missing tag origin hnil
            · intro hhash
              exact hpair (filterhash_inj.mp hhash)
        · intro tag origin hne
          simp only [recordCall] at hne ⊢
          rw [← he, entriesFor_concat] at hne ⊢
          by_cases hpair : tag = a.tag ∧ origin = a.origin
          · rcases hpair with ⟨rfl, rfl⟩
            refine ⟨list, ?_, ?_⟩
            · rw [hat, if_pos rfl]
              rfl
            · rw [if_pos ⟨rfl, rfl⟩, hslots]
          · rw [if_neg hpair] at hne ⊢
            rw [hat, if_neg]
            · exact hrep.listed tag origin hne
            · intro hhash
              exact hpair (filterhash_inj.mp hhash)
        · rw [hid, hrep.nextId]
          rfl

theorem entriesFor_map_setEnabled
    (entries : List HistoryEntry) (origin origin' : OriginId)
    (tag tag' : TagId) (id : FilterId) (v : Bool) :
    entriesFor (entries.map (HistoryEntry.setEnabled origin tag id v))
        tag' origin' =
      if tag' = tag ∧ origin' = origin then
        (entriesFor entries tag' origin').map
          (HistoryEntry.setEnabled origin tag id v)
      else entriesFor entries tag' origin' := by
  have hmap : entriesFor
      (entries.map (HistoryEntry.setEnabled origin tag id v)) tag' origin' =
        (entriesFor entries tag' origin').map
          (HistoryEntry.setEnabled origin tag id v) := by
    simp [entriesFor, List.filter_map, Function.comp_def]
  rw [hmap]
  split
  · rfl
  · rename_i hpair
    conv_rhs => rw [← List.map_id (entriesFor entries tag' origin')]
    apply List.map_congr_left
    intro e he
    have hfor : e.isFor tag' origin' = true := (List.mem_filter.mp he).2
    have hother : ¬(e.isFor tag origin = true ∧ e.id = id) := by
      rintro ⟨hhere, -⟩
      simp only [HistoryEntry.isFor, Bool.and_eq_true, beq_iff_eq]
        at hfor hhere
      exact hpair ⟨hfor.1.symm.trans hhere.1, hfor.2.symm.trans hhere.2⟩
    simp [HistoryEntry.setEnabled, hother]

theorem setFilter
    (hrep : Represents table entries) (origin : OriginId) (tag : TagId)
    {id : FilterId} (v : Bool) (hid : id ≠ 0)
    (hlength : entries.length < 2 ^ 32) :
    Represents (table.setFilter origin tag id v).1
      (entries.map (HistoryEntry.setEnabled origin tag id (!v))) := by
  have hspec := hrep.valid.setFilter origin tag id v
  rcases hspec with ⟨hvalid, hnext, hlists, hat⟩
  refine ⟨hvalid, ?_, ?_, ?_, ?_, ?_⟩
  · rw [hnext, hrep.nextId, List.length_map]
  · rw [hlists, List.length_map]
    exact hrep.few
  · rw [HistoryEntry.map_id_map_setEnabled, List.length_map, hrep.ids]
  · intro tag' origin' hnil
    rw [entriesFor_map_setEnabled] at hnil
    have hbefore : entriesFor entries tag' origin' = [] := by
      split at hnil
      · exact List.map_eq_nil_iff.mp hnil
      · exact hnil
    rw [hat, hrep.missing tag' origin' hbefore]
    simp
  · intro tag' origin' hne
    rw [entriesFor_map_setEnabled] at hne ⊢
    by_cases hpair : tag' = tag ∧ origin' = origin
    · rw [if_pos hpair] at hne ⊢
      have hbefore : entriesFor entries tag' origin' ≠ [] := by
        intro hnil
        simp [hnil] at hne
      rcases hrep.listed tag' origin' hbefore with ⟨list, hlist, hslots⟩
      refine ⟨(list.setDisabled id v).getD list, ?_, ?_⟩
      · rw [hat, if_pos (filterhash_inj.mpr hpair), hlist]
        rfl
      · rcases hpair with ⟨rfl, rfl⟩
        rw [setDisabled_slots, hslots]
        apply setDisabledSlot_slotsOf v fun hzero => absurd hzero hid
        · exact (hrep.ids_nodup hlength).sublist
            (List.filter_sublist.map HistoryEntry.id)
        · intro e he
          exact (List.mem_filter.mp he).2
    · rw [if_neg hpair] at hne ⊢
      rw [hat, if_neg fun hhash => hpair (filterhash_inj.mp hhash)]
      exact hrep.listed tag' origin' hne

end Represents

theorem represents_empty : Represents FilterTable.empty [] := by
  refine ⟨FilterTable.valid_empty, rfl, by simp [FilterTable.empty], rfl, ?_, ?_⟩
  · intro tag origin _
    simp [FilterTable.listAt, FilterTable.find, FilterTable.empty]
  · intro tag origin hne
    exact absurd rfl hne

theorem entriesOf_append (earlier : List FilterCall) (c : FilterCall) :
    entriesOf (earlier ++ [c]) = recordCall (entriesOf earlier) c := by
  simp [entriesOf, List.foldl_append]

theorem build_append (earlier : List FilterCall) (c : FilterCall) :
    FilterTable.build (earlier ++ [c]) =
      (FilterTable.build earlier).call c := by
  simp [FilterTable.build, List.foldl_append]

theorem Returned.ne_zero
    {history : List FilterCall} {id : FilterId}
    (hreturned : Returned history id) (hlength : history.length < 2 ^ 32)
    (hrep : ∀ earlier later, history = earlier ++ later →
      Represents (FilterTable.build earlier) (entriesOf earlier)) :
    id ≠ 0 := by
  rcases hreturned with ⟨earlier, a, later, hsplit, hresult⟩
  have hspec := (hrep earlier _ hsplit).valid.addFilter a
  have hnext := (hrep earlier _ hsplit).nextId
  have hid : id = UInt32.ofNat ((entriesOf earlier).length + 1) := by
    rcases hspec with ⟨-, -, -, ⟨-, hnone, -⟩ | ⟨added, -, hadded, -⟩⟩
    · rw [hnone] at hresult
      simp at hresult
    · rw [hadded] at hresult
      rcases Option.map_eq_some_iff.mp hresult with ⟨list, -, hlist⟩
      rw [← hlist, hnext]
  have hle := length_entriesOf earlier
  have hlt : earlier.length < history.length := by
    rw [hsplit]
    simp
  intro hzero
  have hnat := congrArg UInt32.toNat (hid.symm.trans hzero)
  simp only [UInt32.toNat_ofNat', UInt32.toNat_zero] at hnat
  rw [Nat.mod_eq_of_lt (by omega)] at hnat
  omega

theorem represents_build
    {history : List FilterCall} (hlimits : HistoryWithinLimits history) :
    ∀ earlier later, history = earlier ++ later →
      Represents (FilterTable.build earlier) (entriesOf earlier) := by
  induction history using List.reverseRecOn with
  | nil =>
      intro earlier later hsplit
      have hnil : earlier = [] := (List.append_eq_nil_iff.mp hsplit.symm).1
      subst earlier
      exact represents_empty
  | append_singleton before c ih =>
      have hinit := ih hlimits.init
      have hbefore := hinit before [] (by simp)
      have hcalls := hlimits.calls
      rw [List.length_append, List.length_singleton] at hcalls
      have hentries := length_entriesOf before
      have hlast : Represents (FilterTable.build (before ++ [c]))
          (entriesOf (before ++ [c])) := by
        have hid : ∀ origin tag id, c = .disable origin tag id ∨
            c = .enable origin tag id → id ≠ 0 := by
          intro origin tag id hc
          have hreturned := hlimits.ids before [] origin tag id (by
            rcases hc with rfl | rfl <;> simp)
          exact hreturned.ne_zero (by omega) hinit
        rw [build_append, entriesOf_append]
        cases c with
        | add a =>
            refine (hbefore.add a (by omega) ?_).1
            have hpair := hlimits.perPair a.tag a.origin
            rw [List.filter_append, List.length_append,
              ← length_entriesFor] at hpair
            omega
        | disable origin tag id =>
            exact hbefore.setFilter origin tag true
              (hid origin tag id (Or.inl rfl)) (by omega)
        | enable origin tag id =>
            exact hbefore.setFilter origin tag false
              (hid origin tag id (Or.inr rfl)) (by omega)
      intro earlier later hsplit
      rcases List.eq_nil_or_concat later with hnil | ⟨front, d, hlater⟩
      · subst hnil
        rw [List.append_nil] at hsplit
        exact hsplit ▸ hlast
      · rw [hlater, List.concat_eq_append, ← List.append_assoc] at hsplit
        exact hinit earlier front (List.append_inj_left' hsplit rfl)

end GreaseLog
