import GreaseLog.LogMeta
import Mathlib.Data.List.AList

/-!
# The filter table

Filters with the same tag and origin share one `FilterList`, a fixed array of
`MAX_IDENTICAL_FILTERS` slots in which an id of `0` marks an empty slot.  The
lists are reached through `filterHashTable`, keyed by the packed tag and
origin.  Lists are allocated once and never freed; the list allocated as
number `n` (counting from one) lives at address `n`, and `0` is `NULL`.
-/

namespace GreaseLog

def maxIdenticalFilters : ℕ := 16

/-- The text of a `logLabel`; an empty label has no buffer at all. -/
abbrev LogLabel := Option (List UInt8)

structure Filter where
  disabled : Bool
  id : FilterId
  levelMask : LevelMask
  targetId : TargetId
  preFormat : LogLabel
  postFormatPreMsg : LogLabel
  postFormat : LogLabel
  deriving DecidableEq, Repr

namespace Filter

/-- The default constructor.  `defaultFilter` is this value too. -/
def empty : Filter where
  disabled := false
  id := 0
  levelMask := 0
  targetId := 0
  preFormat := none
  postFormatPreMsg := none
  postFormat := none

/-- `operator=`, which copies every field but `_disabled`. -/
def assign (slot f : Filter) : Filter :=
  { f with disabled := slot.disabled }

def applies (f : Filter) (level : LevelMask) : Bool :=
  (f.levelMask &&& level) != 0 && !f.disabled

end Filter

/-! ## Filter lists -/

/-- `FilterList::add`'s scan for the first empty slot. -/
def addSlot : List Filter → Filter → Option (List Filter)
  | [], _ => none
  | slot :: rest, f =>
      if slot.id = 0 then
        some (slot.assign f :: rest)
      else
        (addSlot rest f).map (slot :: ·)

/-- The scan of `FilterList::find`, followed by the assignment its two callers
make through the pointer it returns.  Slots are compared by id alone, so that
an id of `0` names the first empty slot. -/
def setDisabledSlot : List Filter → FilterId → Bool → Option (List Filter)
  | [], _, _ => none
  | slot :: rest, id, v =>
      if slot.id = id then
        some ({ slot with disabled := v } :: rest)
      else
        (setDisabledSlot rest id v).map (slot :: ·)

theorem addSlot_length
    {slots next : List Filter} {f : Filter}
    (hadd : addSlot slots f = some next) :
    next.length = slots.length := by
  induction slots generalizing next with
  | nil => simp [addSlot] at hadd
  | cons slot rest ih =>
      unfold addSlot at hadd
      split at hadd
      · simp only [Option.some.injEq] at hadd
        subst next
        simp
      · obtain ⟨tail, htail, rfl⟩ := Option.map_eq_some_iff.mp hadd
        simp [ih htail]

theorem setDisabledSlot_length
    {slots next : List Filter} {id : FilterId} {v : Bool}
    (hset : setDisabledSlot slots id v = some next) :
    next.length = slots.length := by
  induction slots generalizing next with
  | nil => simp [setDisabledSlot] at hset
  | cons slot rest ih =>
      unfold setDisabledSlot at hset
      split at hset
      · simp only [Option.some.injEq] at hset
        subst next
        simp
      · obtain ⟨tail, htail, rfl⟩ := Option.map_eq_some_iff.mp hset
        simp [ih htail]

structure FilterList where
  slots : List Filter
  bloom : LevelMask
  full : slots.length = maxIdenticalFilters
  deriving DecidableEq

namespace FilterList

def new : FilterList where
  slots := List.replicate maxIdenticalFilters Filter.empty
  bloom := 0
  full := by simp

def valid (list : FilterList) (level : LevelMask) : Bool :=
  (list.bloom &&& level) != 0

def add (list : FilterList) (f : Filter) : Option FilterList :=
  match hadd : addSlot list.slots f with
  | some slots => some {
      slots := slots
      bloom := list.bloom ||| f.levelMask
      full := (addSlot_length hadd).trans list.full }
  | none => none

def setDisabled (list : FilterList) (id : FilterId) (v : Bool) :
    Option FilterList :=
  match hset : setDisabledSlot list.slots id v with
  | some slots => some {
      slots := slots
      bloom := list.bloom
      full := (setDisabledSlot_length hset).trans list.full }
  | none => none

/-- The slots `while(LIST->list[n].id != 0)` walks over. -/
def live (list : FilterList) : List Filter :=
  list.slots.takeWhile (·.id != 0)

/-- No slot is empty, so that the walk reads past the array. -/
def overruns (list : FilterList) : Bool :=
  list.slots.all (·.id != 0)

end FilterList

/-! ## Hashing -/

/-- `filterhash`: the origin in the high half, the tag in the low half. -/
def filterhash (tag : TagId) (origin : OriginId) : FilterHash :=
  ((0xFFFFFFFF00000000 : UInt64) &&& (origin.toUInt64 <<< 32)) |||
    tag.toUInt64

def getHashes (tag : TagId) (origin : OriginId) : Vector FilterHash 3 :=
  let both := filterhash tag origin
  #v[both, both &&& 0xFFFFFFFF00000000, both &&& 0x00000000FFFFFFFF]

/-! ## The table -/

structure FilterArgs where
  target : TargetId
  origin : OriginId
  tag : TagId
  mask : LevelMask
  preFormat : LogLabel := none
  postFormatPreMsg : LogLabel := none
  postFormat : LogLabel := none
  deriving DecidableEq, Repr

def FilterArgs.filter (a : FilterArgs) (id : FilterId) : Filter where
  disabled := false
  id := id
  levelMask := a.mask
  targetId := a.target
  preFormat := a.preFormat
  postFormatPreMsg := a.postFormatPreMsg
  postFormat := a.postFormat

structure FilterTable where
  nextFilterId : FilterId
  lists : List FilterList
  hashTable : AList (fun _ : FilterHash => FilterListPtr)

namespace FilterTable

def empty : FilterTable where
  nextFilterId := 1
  lists := []
  hashTable := ∅

def find (table : FilterTable) (hash : FilterHash) : Option FilterListPtr :=
  table.hashTable.lookup hash

/-- The list a pointer leads to; none for `NULL` and for a stray pointer. -/
def deref (table : FilterTable) (p : FilterListPtr) : Option FilterList :=
  if p = 0 then none else table.lists[p.toNat - 1]?

def listAt (table : FilterTable) (hash : FilterHash) : Option FilterList :=
  (table.find hash).bind table.deref

/-- `new FilterList()` and `addNoreplace`.  Allocation fails when the address
space is exhausted. -/
def newList (table : FilterTable) (hash : FilterHash) :
    Option (FilterTable × FilterListPtr) :=
  if table.lists.length + 1 < 2 ^ 64 then
    let p : FilterListPtr := UInt64.ofNat (table.lists.length + 1)
    some ({ table with
      lists := table.lists ++ [FilterList.new]
      hashTable := table.hashTable.insert hash p }, p)
  else
    none

def findOrNew (table : FilterTable) (hash : FilterHash) :
    Option (FilterTable × FilterListPtr) :=
  match table.find hash with
  | some p => some (table, p)
  | none => table.newList hash

def store (table : FilterTable) (p : FilterListPtr) (list : FilterList) :
    FilterTable :=
  { table with lists := table.lists.set (p.toNat - 1) list }

/-- `_addFilter`, with the id it hands out when it succeeds.  The id counter
moves on and the list is created even when the list turns out to be full. -/
def addFilter (table : FilterTable) (a : FilterArgs) :
    FilterTable × Option FilterId :=
  let id := table.nextFilterId
  let table := { table with nextFilterId := id + 1 }
  match table.findOrNew (filterhash a.tag a.origin) with
  | none => (table, none)
  | some (table, p) =>
      match (table.deref p).bind (·.add (a.filter id)) with
      | some list => (table.store p list, some id)
      | none => (table, none)

/-- `disableFilter` (`v = true`) and `enableFilter` (`v = false`): whether the
filter was found, after `_lookupFilter`. -/
def setFilter (table : FilterTable) (origin : OriginId) (tag : TagId)
    (id : FilterId) (v : Bool) : FilterTable × Bool :=
  match table.find (filterhash tag origin) with
  | none => (table, false)
  | some p =>
      match (table.deref p).bind (·.setDisabled id v) with
      | some list => (table.store p list, true)
      | none => (table, false)

end FilterTable

inductive FilterCall where
  | add (a : FilterArgs)
  | disable (origin : OriginId) (tag : TagId) (id : FilterId)
  | enable (origin : OriginId) (tag : TagId) (id : FilterId)
  deriving DecidableEq, Repr

namespace FilterTable

def call (table : FilterTable) : FilterCall → FilterTable
  | .add a => (table.addFilter a).1
  | .disable origin tag id => (table.setFilter origin tag id true).1
  | .enable origin tag id => (table.setFilter origin tag id false).1

def build (history : List FilterCall) : FilterTable :=
  history.foldl call empty

end FilterTable

end GreaseLog
