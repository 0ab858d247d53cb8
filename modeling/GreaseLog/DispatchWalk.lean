import GreaseLog.Dispatch
import GreaseLog.Run
import Mathlib.Data.List.TakeWhile

/-!
# The walk over a filter list

`NEW_LOG` and `WRITE_TARGET_OVERFLOW` walk over a list with
`while(LIST->list[n].id != 0)`.  Nothing but an empty slot ends the loop, while
`FilterList::add` fills the array up to its last slot: behind a full list the
loop goes on with the memory that follows the array.
-/

namespace GreaseLog

/-! ## The loop -/

namespace FilterList

/-- `LIST->list[n]`, where `beyond` is the memory behind the array, read as
filters. -/
def entry (list : FilterList) (beyond : ℕ → Filter) (n : ℕ) : Filter :=
  list.slots.getD n (beyond n)

/-- The loop from index `n` on: the indices it reads, and the filters it
writes the message for.  There is no result if it does not end within
`fuel` rounds. -/
def walk (list : FilterList) (beyond : ℕ → Filter)
    (selects : Filter → Bool) : ℕ → ℕ → Option (List ℕ × List Filter)
  | 0, _ => none
  | fuel + 1, n =>
      if (list.entry beyond n).id = 0 then
        some ([n], [])
      else
        (list.walk beyond selects fuel (n + 1)).map fun rest =>
          (n :: rest.1,
            if selects (list.entry beyond n) then
              list.entry beyond n :: rest.2
            else rest.2)

/-- Whatever lies behind the array, the walk ends, reads slots of the array
only, and writes for the filters of the list. -/
def WalkedInside (list : FilterList) (selects : Filter → Bool) : Prop :=
  ∀ beyond, ∃ fuel reads written,
    list.walk beyond selects fuel 0 = some (reads, written) ∧
      (∀ n ∈ reads, n < maxIdenticalFilters) ∧
      written = (list.slots.filter (·.id != 0)).filter selects

theorem entry_of_drop
    {list : FilterList} {n : ℕ} {slot : Filter} {rest : List Filter}
    (hdrop : list.slots.drop n = slot :: rest) (beyond : ℕ → Filter) :
    list.entry beyond n = slot := by
  have hslot : list.slots[n]? = some slot := by
    have hhead := congrArg List.head? hdrop
    rwa [List.head?_drop] at hhead
  simp [entry, List.getD, hslot]

/-- Used slots before an empty one are walked over, and the walk ends there. -/
theorem walk_of_hole
    {list : FilterList} {before after : List Filter} {hole : Filter} {n : ℕ}
    (hdrop : list.slots.drop n = before ++ hole :: after)
    (hbefore : ∀ f ∈ before, f.id ≠ 0) (hhole : hole.id = 0)
    (beyond : ℕ → Filter) (selects : Filter → Bool) :
    list.walk beyond selects (before.length + 1) n =
      some (List.range' n (before.length + 1), before.filter selects) := by
  induction before generalizing n with
  | nil =>
      have hentry := entry_of_drop hdrop beyond
      simp [walk, hentry, hhole]
  | cons f before ih =>
      have hentry := entry_of_drop hdrop beyond
      have hused : f.id ≠ 0 := hbefore f (by simp)
      have hnext : list.slots.drop (n + 1) = before ++ hole :: after := by
        rw [← List.drop_drop, hdrop]
        rfl
      have hrest := ih hnext fun g hg => hbefore g (by simp [hg])
      rw [List.length_cons, walk, hentry, if_neg hused, hrest]
      simp [List.range'_succ, List.filter_cons]

/-- With no empty slot the walk reads the entry behind the array, if it ends
at all. -/
theorem end_mem_of_overruns
    {list : FilterList} (hfull : list.overruns = true)
    {beyond : ℕ → Filter} {selects : Filter → Bool} {fuel n : ℕ}
    {reads : List ℕ} {written : List Filter}
    (hwalk : list.walk beyond selects fuel n = some (reads, written))
    (hn : n ≤ maxIdenticalFilters) :
    maxIdenticalFilters ∈ reads := by
  induction fuel generalizing n reads written with
  | zero => simp [walk] at hwalk
  | succ fuel ih =>
      rw [walk] at hwalk
      split at hwalk
      · rename_i hend
        simp only [Option.some.injEq, Prod.mk.injEq] at hwalk
        rcases Nat.lt_or_ge n maxIdenticalFilters with hlt | hge
        · have hn' : n < list.slots.length := by
            rw [list.full]
            exact hlt
          have hentry : list.entry beyond n = list.slots[n] := by
            simp [entry, List.getD, hn']
          have hused := List.all_eq_true.mp hfull list.slots[n]
            (List.getElem_mem hn')
          rw [hentry] at hend
          simp [hend] at hused
        · obtain rfl : n = maxIdenticalFilters := le_antisymm hn hge
          simp [← hwalk.1]
      · obtain ⟨⟨more, others⟩, hrest, hpair⟩ :=
          Option.map_eq_some_iff.mp hwalk
        simp only [Prod.mk.injEq] at hpair
        rcases Nat.lt_or_ge n maxIdenticalFilters with hlt | hge
        · rw [← hpair.1]
          exact List.mem_cons_of_mem _ (ih hrest hlt)
        · obtain rfl : n = maxIdenticalFilters := le_antisymm hn hge
          rw [← hpair.1]
          exact List.mem_cons_self

theorem exists_hole_of_not_overruns
    {list : FilterList} (hroom : list.overruns = false) :
    ∃ before hole after, list.slots = before ++ hole :: after ∧
      (∀ f ∈ before, f.id ≠ 0) ∧ hole.id = 0 := by
  have hsplit := List.takeWhile_append_dropWhile
    (p := fun f : Filter => f.id != 0) (l := list.slots)
  cases hrest : list.slots.dropWhile (·.id != 0) with
  | nil =>
      have hfull : list.overruns = true := by
        simpa [overruns] using List.dropWhile_eq_nil_iff.mp hrest
      rw [hroom] at hfull
      simp at hfull
  | cons hole after =>
      have hhole : hole.id = 0 := by
        have hhead := List.head_dropWhile_not
          (fun f : Filter => f.id != 0) (l := list.slots) (by simp [hrest])
        simpa [hrest] using hhead
      refine ⟨_, hole, after, (hrest ▸ hsplit).symm, ?_, hhole⟩
      intro f hf
      exact (mem_slots_of_mem_live hf).2

/-- The walk writes for the filters `routes` gives. -/
theorem walk_eq_routes
    {list : FilterList} (hroom : list.overruns = false)
    {registered : TargetId → Bool} {e : ExtraLogMeta}
    (hopen : list.valid e.m.level = true) (beyond : ℕ → Filter) :
    ∃ fuel reads, list.walk beyond (·.selects registered e) fuel 0 =
      some (reads, list.routes registered e) := by
  obtain ⟨before, hole, after, hslots, hbefore, hhole⟩ :=
    exists_hole_of_not_overruns hroom
  have hlive : list.live = before := by
    unfold live
    rw [hslots, List.takeWhile_append_of_pos (by simpa using hbefore),
      List.takeWhile_cons_of_neg (by simp [hhole]), List.append_nil]
  have hwalk := walk_of_hole (n := 0) (by simpa using hslots) hbefore hhole
    beyond (·.selects registered e)
  rw [routes, if_pos hopen, hlive]
  exact ⟨_, _, hwalk⟩

/-- A walk stays inside exactly when the list has an empty slot left. -/
theorem Good.walkedInside_iff
    {list : FilterList} (hgood : list.Good) (selects : Filter → Bool) :
    list.WalkedInside selects ↔ list.overruns = false := by
  constructor
  · intro hinside
    by_contra hroom
    have hfull : list.overruns = true := by simpa using hroom
    obtain ⟨fuel, reads, written, hwalk, hreads, -⟩ :=
      hinside fun _ => Filter.empty
    have hend := hreads _ (end_mem_of_overruns hfull hwalk (Nat.zero_le _))
    exact lt_irrefl _ hend
  · intro hroom beyond
    obtain ⟨before, hole, after, hslots, hbefore, hhole⟩ :=
      exists_hole_of_not_overruns hroom
    have hlength : before.length + (after.length + 1) =
        maxIdenticalFilters := by
      have hfull := list.full
      rw [hslots] at hfull
      simpa using hfull
    refine ⟨before.length + 1, _, _,
      walk_of_hole (by simpa using hslots) hbefore hhole beyond selects, ?_, ?_⟩
    · intro n hn
      have hrange := List.mem_range'_1.mp hn
      omega
    · -- the slots behind an empty one are empty, too
      have hcontiguous := hgood.contiguous
      rw [hslots] at hcontiguous
      have htail := (List.pairwise_cons.mp
        (List.pairwise_append.mp hcontiguous).2.1).1
      have hafter : after.filter (·.id != 0) = [] := by
        rw [List.filter_eq_nil_iff]
        intro f hf hused
        exact htail f hf (by simpa using hused) hhole
      have hkept : before.filter (·.id != 0) = before := by
        rw [List.filter_eq_self]
        intro f hf
        simpa using hbefore f hf
      rw [hslots, List.filter_append, List.filter_cons, hafter, hkept]
      simp [hhole]

end FilterList

/-! ## Filling a list -/

namespace FilterList

def emptySlots (list : FilterList) : ℕ :=
  list.slots.countP (·.id == 0)

theorem overruns_iff_emptySlots {list : FilterList} :
    list.overruns = true ↔ list.emptySlots = 0 := by
  simp [overruns, emptySlots, List.countP_eq_zero]

/-- A list with an empty slot takes the filter. -/
theorem exists_add
    {list : FilterList} (hroom : list.overruns = false) (f : Filter) :
    ∃ next, list.add f = some next := by
  obtain ⟨before, hole, after, hslots, hbefore, hhole⟩ :=
    exists_hole_of_not_overruns hroom
  have hadd : addSlot list.slots f ≠ none := by
    rw [hslots]
    clear hslots
    induction before with
    | nil => simp [addSlot, hhole]
    | cons g before ih =>
        have hused : g.id ≠ 0 := hbefore g (by simp)
        have hrest := ih fun g hg => hbefore g (by simp [hg])
        simpa [addSlot, hused] using hrest
  exact Option.ne_none_iff_exists'.mp fun hnone =>
    hadd (add_eq_none_iff.mp hnone)

/-- Only a filter that takes the last empty slot makes a list full. -/
theorem overruns_add_iff
    {list next : FilterList} {f : Filter} (hadd : list.add f = some next) :
    next.overruns = true ↔ list.emptySlots = 1 ∧ f.id ≠ 0 := by
  obtain ⟨before, hole, after, hslots, hnext, -, hhole⟩ :=
    addSlot_eq_some (add_eq_some hadd).1
  have hid : (hole.assign f).id = f.id := rfl
  rw [overruns_iff_emptySlots]
  unfold emptySlots
  rw [hslots, hnext]
  simp only [List.countP_append, List.countP_cons, hhole, hid]
  by_cases hzero : f.id = 0
  · simp [hzero]
  · have hused : (f.id == 0) = false := by simpa using hzero
    simp only [hused, beq_self_eq_true, if_true, Bool.false_eq_true, if_false,
      and_iff_left hzero]
    omega

theorem overruns_setDisabled
    {list next : FilterList} {id : FilterId} {v : Bool}
    (hset : list.setDisabled id v = some next) :
    next.overruns = list.overruns := by
  obtain ⟨before, slot, after, hslots, hnext, -, -⟩ :=
    setDisabledSlot_eq_some (setDisabled_eq_some hset).1
  unfold overruns
  rw [hslots, hnext]
  simp

/-- The list has an empty slot, or its bloom keeps every message away. -/
def Terminated (list : FilterList) : Prop :=
  list.overruns = true → list.bloom = 0

theorem terminated_new : new.Terminated := by
  intro hfull
  revert hfull
  decide

end FilterList

namespace FilterTable

/-- The call does not put a filter into the last empty slot of a list that
lets messages of some level in. -/
def KeepsTerminator (table : FilterTable) : FilterCall → Prop
  | .add a =>
      ((table.listAt (filterhash a.tag a.origin)).getD
          FilterList.new).emptySlots = 1 →
        table.nextFilterId = 0 ∨
          ((table.listAt (filterhash a.tag a.origin)).getD
            FilterList.new).bloom ||| a.mask = 0
  | .disable _ _ _ => True
  | .enable _ _ _ => True

def Terminated (table : FilterTable) : Prop :=
  ∀ hash list, table.listAt hash = some list → list.Terminated

theorem terminated_empty : empty.Terminated := by
  intro hash list hat
  simp [listAt, find, empty] at hat

theorem Terminated.getD
    {table : FilterTable} (hterminated : table.Terminated)
    (hash : FilterHash) :
    ((table.listAt hash).getD FilterList.new).Terminated := by
  cases hat : table.listAt hash with
  | none => exact FilterList.terminated_new
  | some list => exact hterminated hash list hat

/-- A list that takes the filter is full and open to messages afterwards
exactly when the call took its terminator. -/
theorem terminated_add_iff
    {table : FilterTable} {a : FilterArgs} {next : FilterList}
    (hadd : ((table.listAt (filterhash a.tag a.origin)).getD
      FilterList.new).add (a.filter table.nextFilterId) = some next) :
    next.Terminated ↔ table.KeepsTerminator (.add a) := by
  have hid : (a.filter table.nextFilterId).id = table.nextFilterId := rfl
  have hbloom := (FilterList.add_eq_some hadd).2
  unfold FilterList.Terminated KeepsTerminator
  rw [FilterList.overruns_add_iff hadd, hid, hbloom]
  change _ ∧ _ → _ ||| a.mask = 0 ↔ _
  tauto

theorem Terminated.addFilter
    {table : FilterTable} (hvalid : table.Valid)
    (hterminated : table.Terminated) {a : FilterArgs}
    (hkeeps : table.KeepsTerminator (.add a)) :
    (table.addFilter a).1.Terminated := by
  intro hash list hat
  rcases (hvalid.addFilter a).2.2.2 with
    ⟨-, -, hsame⟩ | ⟨added, hadded, -, heffect⟩
  · rw [hsame] at hat
    exact hterminated hash list hat
  · rw [heffect] at hat
    split at hat
    · rename_i hhash
      obtain rfl := Option.some.inj hat
      cases added with
      | none => exact hterminated.getD hash
      | some next => exact (terminated_add_iff hadded.symm).mpr hkeeps
    · exact hterminated hash list hat

theorem Terminated.setFilter
    {table : FilterTable} (hvalid : table.Valid)
    (hterminated : table.Terminated)
    (origin : OriginId) (tag : TagId) (id : FilterId) (v : Bool) :
    (table.setFilter origin tag id v).1.Terminated := by
  intro hash list hat
  rw [(hvalid.setFilter origin tag id v).2.2.2] at hat
  split at hat
  · obtain ⟨old, hold, rfl⟩ := Option.map_eq_some_iff.mp hat
    have hbefore := hterminated hash old hold
    cases hset : old.setDisabled id v with
    | none => exact hbefore
    | some next =>
        intro hfull
        rw [Option.getD_some, FilterList.overruns_setDisabled hset] at hfull
        rw [Option.getD_some, (FilterList.setDisabled_eq_some hset).2]
        exact hbefore hfull
  · exact hterminated hash list hat

theorem Terminated.call
    {table : FilterTable} (hvalid : table.Valid)
    (hterminated : table.Terminated) {c : FilterCall}
    (hkeeps : table.KeepsTerminator c) :
    (table.call c).Terminated := by
  cases c with
  | add a => exact hterminated.addFilter hvalid hkeeps
  | disable origin tag id => exact hterminated.setFilter hvalid origin tag id true
  | enable origin tag id => exact hterminated.setFilter hvalid origin tag id false

theorem Valid.listAt_addFilter_of_add
    {table : FilterTable} (hvalid : table.Valid) {a : FilterArgs}
    {list next : FilterList}
    (hat : table.listAt (filterhash a.tag a.origin) = some list)
    (hadd : list.add (a.filter table.nextFilterId) = some next) :
    (table.addFilter a).1.listAt (filterhash a.tag a.origin) = some next := by
  obtain ⟨p, hfind, hderef⟩ := Option.bind_eq_some_iff.mp hat
  set bumped : FilterTable :=
    { table with nextFilterId := table.nextFilterId + 1 } with hbumped
  have hbumpedFind : bumped.find (filterhash a.tag a.origin) = some p := hfind
  have hbumpedDeref : bumped.deref p = some list := hderef
  have hstep : (table.addFilter a).1 = bumped.store p next := by
    simp only [FilterTable.addFilter, ← hbumped, FilterTable.findOrNew,
      hbumpedFind, hbumpedDeref, Option.bind_some, hadd]
  rw [hstep, (hvalid.with_nextFilterId _).listAt_store hbumpedFind next _]
  simp

/-- A call that takes a terminator leaves a full list behind, which messages
of its own tag and origin are sent to. -/
theorem Valid.exists_full_of_takes
    {table : FilterTable} (hvalid : table.Valid) {c : FilterCall}
    (htakes : ¬table.KeepsTerminator c) :
    ∃ tag origin list,
      (table.call c).listAt (filterhash tag origin) = some list ∧
        list.overruns = true ∧ list.bloom ≠ 0 := by
  cases c with
  | disable origin tag id => exact absurd trivial htakes
  | enable origin tag id => exact absurd trivial htakes
  | add a =>
      cases hat : table.listAt (filterhash a.tag a.origin) with
      | none =>
          -- a new list has room for more than one filter
          refine absurd (fun hone => ?_) htakes
          rw [hat, Option.getD_none] at hone
          exact absurd hone (by decide)
      | some list =>
          have hone : list.emptySlots = 1 := by
            by_contra hother
            refine htakes fun hone => absurd ?_ hother
            simpa [hat] using hone
          have hroom : list.overruns = false := by
            rw [Bool.eq_false_iff, ne_eq, FilterList.overruns_iff_emptySlots]
            omega
          obtain ⟨next, hadd⟩ := FilterList.exists_add hroom
            (a.filter table.nextFilterId)
          have hnext := hvalid.listAt_addFilter_of_add hat hadd
          have hopen : ¬next.Terminated := by
            rw [terminated_add_iff (by rwa [hat, Option.getD_some])]
            exact htakes
          unfold FilterList.Terminated at hopen
          push Not at hopen
          exact ⟨a.tag, a.origin, next, hnext, hopen.1, hopen.2⟩

/-! ## Dispatching a message -/

/-- The cache of the metadata, if it holds anything, has been filled by an
earlier `sift`. -/
def Cached (table : FilterTable) (m : LogMeta) : Prop :=
  ∀ p ∈ m.consulted, ∃ hash, table.find hash = some p

theorem Cached.sift
    {table : FilterTable} {m : LogMeta} (hcached : table.Cached m)
    (opts : SiftOpts) : table.Cached (table.sift opts m).2 := by
  by_cases hmask : opts.levelFilterOutMask &&& m.level = 0
  · cases hcache : m.hasCache with
    | true =>
        rw [sift_cached table hmask hcache]
        exact hcached
    | false =>
        rw [sift_uncached table hmask hcache]
        have hfirst := table.firstList_map_snd m.tag m.origin
        cases hfound : table.firstList (getHashes m.tag m.origin) with
        | none => exact hcached
        | some found =>
            obtain ⟨i, list⟩ := found
            rw [hfound, Option.map_some] at hfirst
            obtain ⟨pair, -, hfind⟩ := exists_find_of_chosenPtr hfirst.symm
            intro p hp
            obtain ⟨hmem, hnull⟩ := List.mem_filter.mp hp
            simp only [LogMeta.setList, Vector.toList_set] at hmem
            rcases List.mem_or_eq_of_mem_set hmem with hold | rfl
            · exact hcached p (List.mem_filter.mpr ⟨hold, hnull⟩)
            · exact ⟨_, hfind⟩
  · rw [sift_masked table hmask]
    exact hcached

/-- Every message that `sift` lets through is dispatched with walks that stay
inside the lists. -/
def DispatchesInside (table : FilterTable) : Prop :=
  ∀ (registered : TargetId → Bool) (opts : SiftOpts) (e : ExtraLogMeta),
    table.Cached e.m → (table.sift opts e.m).1 = true →
      ∀ p ∈ (table.sift opts e.m).2.consulted,
        ∃ list, table.deref p = some list ∧
          (list.valid e.m.level = true →
            list.WalkedInside
              (·.selects registered { e with m := (table.sift opts e.m).2 }))

theorem Terminated.dispatchesInside
    {table : FilterTable} (hvalid : table.Valid)
    (hterminated : table.Terminated) : table.DispatchesInside := by
  intro registered opts e hcached _ p hp
  obtain ⟨hash, hfind⟩ := hcached.sift opts p hp
  obtain ⟨list, hderef, hmem⟩ := hvalid.deref_find hfind
  refine ⟨list, hderef, ?_⟩
  intro hopen
  rw [(hvalid.good list hmem).walkedInside_iff]
  by_contra hfull
  have hbloom := hterminated hash list (by simp [listAt, hfind, hderef])
    (by simpa using hfull)
  simp [FilterList.valid, hbloom] at hopen

/-- A message of the list's tag and origin with one of its levels is walked
past the end of a full list. -/
theorem Valid.not_dispatchesInside
    {table : FilterTable} (hvalid : table.Valid)
    {tag : TagId} {origin : OriginId} {list : FilterList}
    (hat : table.listAt (filterhash tag origin) = some list)
    (hfull : list.overruns = true) (hbloom : list.bloom ≠ 0) :
    ¬table.DispatchesInside := by
  intro hinside
  obtain ⟨p, hfind, hderef⟩ := Option.bind_eq_some_iff.mp hat
  have hchosen : table.chosenPtr tag origin = some p := by
    simp [chosenPtr, pairs, hfind]
  have hmask : (SiftOpts.mk 0 false).levelFilterOutMask &&&
      (LogMeta.declare tag list.bloom origin).level = 0 := by simp
  have hsift := hvalid.sift_fresh ⟨rfl, rfl⟩ hmask
  have hcached : table.Cached (LogMeta.declare tag list.bloom origin) := by
    intro q hq
    simp [LogMeta.consulted, LogMeta.declare] at hq
  obtain ⟨list', hderef', hwalked⟩ := hinside (fun _ => true)
    (SiftOpts.mk 0 false)
    { m := LogMeta.declare tag list.bloom origin, ignoreList := noIgnoreList }
    hcached (by rw [hsift.1]; simp) p
    (by rw [hsift.2]; simp [LogMeta.declare, hchosen])
  obtain rfl : list = list' := Option.some.inj (hderef.symm.trans hderef')
  have hgood := hvalid.good_listAt hat
  have hroom := (hgood.walkedInside_iff _).mp
    (hwalked (by simp [FilterList.valid, LogMeta.declare, hbloom]))
  rw [hfull] at hroom
  simp at hroom

/-- For every history of calls, the walks of all messages stay inside the
lists in every state reached exactly when no call has put a filter into the
last empty slot of a list. -/
theorem dispatch_walks_inside_iff (history : List FilterCall) :
    (∀ earlier, earlier <+: history → (build earlier).DispatchesInside) ↔
      Run.Meets call KeepsTerminator empty history := by
  constructor
  · intro hinside
    induction history using List.reverseRecOn with
    | nil => trivial
    | append_singleton earlier c ih =>
        have hearlier := ih fun first hfirst =>
          hinside first (hfirst.trans (List.prefix_append _ _))
        refine Run.meets_append.mpr ⟨hearlier, ?_, trivial⟩
        by_contra htakes
        have hvalid := valid_build earlier
        obtain ⟨tag, origin, list, hat, hfull, hbloom⟩ :=
          hvalid.exists_full_of_takes htakes
        have hlast := hinside (earlier ++ [c]) List.prefix_rfl
        rw [show build (earlier ++ [c]) = (build earlier).call c by
          simp [build]] at hlast
        exact (hvalid.call c).not_dispatchesInside hat hfull hbloom hlast
  · rintro hmeets earlier ⟨later, rfl⟩
    have hinvariant : (build earlier).Valid ∧ (build earlier).Terminated := by
      refine Run.final_invariant
        (I := fun table : FilterTable => table.Valid ∧ table.Terminated)
        ?_ ⟨valid_empty, terminated_empty⟩ (Run.meets_append.mp hmeets).1
      intro table c hinvariant hkeeps
      exact ⟨hinvariant.1.call c, hinvariant.2.call hinvariant.1 hkeeps⟩
    exact hinvariant.2.dispatchesInside hinvariant.1

/-- Sixteen filters of one tag and origin fill their list, and a message of
this tag and origin is walked past its end. -/
theorem full_list_overrun :
    ¬(build (List.replicate 16 (.add
      { target := 1, origin := 3, tag := 7, mask := 1 }))).DispatchesInside := by
  set history := List.replicate 16 (FilterCall.add
    { target := 1, origin := 3, tag := 7, mask := 1 }) with hhistory
  have hlist : ((build history).listAt (filterhash 7 3)).map
      (fun list => (list.overruns, list.bloom)) = some (true, 1) := by
    decide +kernel
  obtain ⟨list, hat, hpair⟩ := Option.map_eq_some_iff.mp hlist
  simp only [Prod.mk.injEq] at hpair
  exact (valid_build history).not_dispatchesInside hat hpair.1
    (by simp [hpair.2])

end FilterTable

end GreaseLog
