import GreaseLog.Dispatch

/-!
# Does every matching filter cause a write?

`logger.h` defines a filter as a condition which, if it matches, causes a log
to go to a target.  The table looks for the most specific list and leaves the
others alone, so a matching filter is passed over as soon as a more specific
pair of tag and origin has a list of its own.

A filter is named by the pair it was added for and its slot, since the
dispatch passes on the address of a slot and two slots may hold equal values.
-/

namespace GreaseLog

def FilterList.routeSlots (list : FilterList) (registered : TargetId → Bool)
    (e : ExtraLogMeta) : List (Filter × ℕ) :=
  if list.valid e.m.level then
    list.live.zipIdx.filter (·.1.selects registered e)
  else
    []

namespace FilterTable

def routeSlots (table : FilterTable) (registered : TargetId → Bool)
    (e : ExtraLogMeta) : List (FilterListPtr × Filter × ℕ) :=
  e.m.consulted.flatMap fun p =>
    match table.deref p with
    | some list => (list.routeSlots registered e).map (p, ·)
    | none => []

theorem map_routeSlots
    (table : FilterTable) (registered : TargetId → Bool) (e : ExtraLogMeta) :
    (table.routeSlots registered e).map (·.2.1) =
      table.routes registered e := by
  have hfilter : ∀ (filters : List Filter) (n : ℕ),
      ((filters.zipIdx n).filter (·.1.selects registered e)).map Prod.fst =
        filters.filter (·.selects registered e) := by
    intro filters
    induction filters with
    | nil => simp
    | cons f rest ih =>
        intro n
        cases hselects : f.selects registered e <;>
          simp [List.zipIdx_cons, hselects, ih]
  unfold routeSlots routes
  rw [List.map_flatMap]
  congr 1
  funext p
  cases table.deref p with
  | none => rfl
  | some list =>
      simp only [FilterList.routeSlots, FilterList.routes, List.map_map]
      split
      · exact hfilter list.live 0
      · rfl

def Holds (table : FilterTable) (tag : TagId) (origin : OriginId) (n : ℕ)
    (f : Filter) : Prop :=
  ∃ list, table.listAt (filterhash tag origin) = some list ∧
    list.slots[n]? = some f ∧ f.id ≠ 0

/-- The filter's condition is met, and its target exists and is not ignored. -/
structure Matches (tag : TagId) (origin : OriginId) (f : Filter)
    (known : TargetId → Bool) (e : ExtraLogMeta) : Prop where
  enabled : f.disabled = false
  tag : tag = 0 ∨ tag = e.m.tag
  origin : origin = 0 ∨ origin = e.m.origin
  level : f.levelMask &&& e.m.level ≠ 0
  target : known f.targetId = true
  notIgnored : e.ignores f.targetId = false

def Fires (table : FilterTable) (opts : SiftOpts) (known : TargetId → Bool)
    (e : ExtraLogMeta) (tag : TagId) (origin : OriginId) (n : ℕ) : Prop :=
  (table.sift opts e.m).1 = true ∧
    ∃ p f, table.find (filterhash tag origin) = some p ∧
      (p, f, n) ∈ table.routeSlots known
        { e with m := (table.sift opts e.m).2 }

def AllFire (table : FilterTable) (opts : SiftOpts) (known : TargetId → Bool)
    (e : ExtraLogMeta) : Prop :=
  ∀ tag origin n f, table.Holds tag origin n f →
    Matches tag origin f known e → table.Fires opts known e tag origin n

/-- Every matching filter of the table causes a write and keeps doing so when
filters are added. -/
def FireForGood (history : List FilterCall) (opts : SiftOpts)
    (known : TargetId → Bool) (e : ExtraLogMeta) : Prop :=
  ∀ tag origin n f, (build history).Holds tag origin n f →
    Matches tag origin f known e →
    ∀ more : List FilterArgs,
      (build (history ++ more.map .add)).Fires opts known e tag origin n

/-! ## Which slots fire -/

theorem live_getElem
    {slots : List Filter} (hcontiguous : Contiguous slots)
    {n : ℕ} {f : Filter} (hslot : slots[n]? = some f) (hid : f.id ≠ 0) :
    (slots.takeWhile (·.id != 0))[n]? = some f := by
  induction slots generalizing n with
  | nil => simp at hslot
  | cons slot rest ih =>
      have hparts := List.pairwise_cons.mp hcontiguous
      cases n with
      | zero =>
          have heq : slot = f := by simpa using hslot
          subst f
          simp [hid]
      | succ n =>
          have hrest : rest[n]? = some f := by simpa using hslot
          have hused : slot.id ≠ 0 :=
            hparts.1 f (List.mem_of_getElem? hrest) hid
          simpa [hused] using ih hparts.2 hrest

/-- A matching filter fires exactly if its list is the one that is chosen. -/
theorem Valid.fires_iff
    {table : FilterTable} (hvalid : table.Valid)
    {opts : SiftOpts} {known : TargetId → Bool} {e : ExtraLogMeta}
    (hfresh : e.m.Fresh) (hmask : opts.levelFilterOutMask &&& e.m.level = 0)
    {tag : TagId} {origin : OriginId} {n : ℕ} {f : Filter}
    (hholds : table.Holds tag origin n f)
    (hmatches : Matches tag origin f known e) :
    table.Fires opts known e tag origin n ↔
      table.chosenPtr e.m.tag e.m.origin =
        table.find (filterhash tag origin) := by
  rcases hholds with ⟨list, hlist, hslot, hid⟩
  rcases Option.bind_eq_some_iff.mp hlist with ⟨p, hfind, hderef⟩
  have hsift := hvalid.sift_fresh hfresh hmask
  have hframe := table.sift_frame opts e.m
  constructor
  · rintro ⟨-, q, g, hq, hmem⟩
    unfold routeSlots at hmem
    rw [List.mem_flatMap] at hmem
    rcases hmem with ⟨r, hr, hmem⟩
    rw [hsift.2] at hr
    have hrq : r = q := by
      cases hat : table.deref r with
      | none => simp [hat] at hmem
      | some other =>
          simp only [hat, List.mem_map, Prod.mk.injEq] at hmem
          rcases hmem with ⟨slot, -, hrq, -⟩
          exact hrq
    rw [hq, ← hrq]
    exact Option.mem_toList.mp hr
  · intro hchosen
    have hgood : list.Good := hvalid.good_listAt hlist
    have hselects : f.selects known
        { e with m := (table.sift opts e.m).2 } = true := by
      have hnotIgnored := hmatches.notIgnored
      simp only [ExtraLogMeta.ignores, LogMeta.hasIgnores] at hnotIgnored
      simp [Filter.selects, Filter.applies, hframe, hmatches.level,
        hmatches.enabled, hmatches.target, ExtraLogMeta.ignores,
        LogMeta.hasIgnores, ExtraLogMeta.ignoredTargets] at hnotIgnored ⊢
      tauto
    have hbloom : list.valid (table.sift opts e.m).2.level = true := by
      simp only [FilterList.valid, bne_iff_ne, hframe.2.1]
      exact hgood.covered f (List.mem_of_getElem? hslot) hid e.m.level
        hmatches.level
    refine ⟨?_, p, f, hfind, ?_⟩
    · rw [hsift.1, hchosen, hfind]
      rfl
    · unfold routeSlots
      rw [List.mem_flatMap]
      refine ⟨p, ?_, ?_⟩
      · rw [hsift.2, hchosen, hfind]
        simp
      · simp only [hderef, List.mem_map, Prod.mk.injEq, true_and]
        refine ⟨(f, n), ?_, rfl⟩
        unfold FilterList.routeSlots
        rw [if_pos hbloom, List.mem_filter]
        refine ⟨?_, hselects⟩
        rw [List.mk_mem_zipIdx_iff_getElem?]
        exact live_getElem hgood.contiguous hslot hid

theorem Matches.mem_pairs
    {tag : TagId} {origin : OriginId} {f : Filter}
    {known : TargetId → Bool} {e : ExtraLogMeta}
    (hmatches : Matches tag origin f known e) :
    (tag, origin) ∈ pairs e.m.tag e.m.origin := by
  rcases hmatches.tag with htag | htag <;>
    rcases hmatches.origin with horigin | horigin <;>
    simp [pairs, htag, horigin]

theorem findSome_eq_iff_takeWhile
    {α β : Type*} [DecidableEq α] {look : α → Option β} {x : α} {y : β}
    (hx : look x = some y) (hunique : ∀ x', look x' = some y → x' = x)
    {xs : List α} (hmem : x ∈ xs) :
    xs.findSome? look = some y ↔
      ∀ x' ∈ xs.takeWhile (· ≠ x), look x' = none := by
  induction xs with
  | nil => simp at hmem
  | cons x' rest ih =>
      by_cases hhead : x' = x
      · subst x'
        simp [hx]
      · have hrest : x ∈ rest := by
          rcases List.mem_cons.mp hmem with heq | hin
          · exact absurd heq.symm hhead
          · exact hin
        cases hlook : look x' with
        | none => simpa [hhead, hlook] using ih hrest
        | some y' =>
            have hne : y' ≠ y := by
              intro heq
              exact hhead (hunique x' (heq ▸ hlook))
            simp [hhead, hlook, hne]

/-- The list of a matching filter is chosen if no pair that is looked up
before has a list. -/
theorem Valid.chosenPtr_eq_find_iff
    {table : FilterTable} (hvalid : table.Valid)
    {known : TargetId → Bool} {e : ExtraLogMeta}
    {tag : TagId} {origin : OriginId} {n : ℕ} {f : Filter}
    (hholds : table.Holds tag origin n f)
    (hmatches : Matches tag origin f known e) :
    table.chosenPtr e.m.tag e.m.origin =
        table.find (filterhash tag origin) ↔
      ∀ pair ∈ (pairs e.m.tag e.m.origin).takeWhile (· ≠ (tag, origin)),
        table.listAt (filterhash pair.1 pair.2) = none := by
  rcases hholds with ⟨list, hlist, -, -⟩
  rcases Option.bind_eq_some_iff.mp hlist with ⟨p, hfind, -⟩
  have hunique : ∀ pair : TagId × OriginId,
      table.find (filterhash pair.1 pair.2) = some p →
        pair = (tag, origin) := by
    intro pair hpair
    have hhash := hvalid.separate _ _ p hpair hfind
    have hsame := filterhash_inj.mp hhash
    exact Prod.ext hsame.1 hsame.2
  have hiff : ((pairs e.m.tag e.m.origin).findSome? fun pair =>
        table.find (filterhash pair.1 pair.2)) = some p ↔
      ∀ pair ∈ (pairs e.m.tag e.m.origin).takeWhile (· ≠ (tag, origin)),
        table.find (filterhash pair.1 pair.2) = none :=
    findSome_eq_iff_takeWhile (x := (tag, origin)) hfind hunique
      hmatches.mem_pairs
  have hmissing : (∀ pair ∈ (pairs e.m.tag e.m.origin).takeWhile
        (· ≠ (tag, origin)),
        table.find (filterhash pair.1 pair.2) = none) ↔
      ∀ pair ∈ (pairs e.m.tag e.m.origin).takeWhile (· ≠ (tag, origin)),
        table.listAt (filterhash pair.1 pair.2) = none :=
    forall₂_congr fun pair _ => hvalid.find_eq_none_iff
  rw [hfind]
  exact hiff.trans hmissing

/-! ## Adding filters -/

theorem addSlot_getElem
    {slots next : List Filter} {f g : Filter} {n : ℕ}
    (hadd : addSlot slots f = some next)
    (hslot : slots[n]? = some g) (hid : g.id ≠ 0) :
    next[n]? = some g := by
  rcases addSlot_eq_some hadd with
    ⟨before, slot, after, rfl, rfl, -, hzero⟩
  rcases Nat.lt_trichotomy n before.length with hlt | heq | hgt
  · rw [List.getElem?_append_left hlt] at hslot ⊢
    exact hslot
  · subst heq
    have hsame : slot = g := by simpa using hslot
    exact absurd (hsame ▸ hzero) hid
  · rw [List.getElem?_append_right (by omega)] at hslot ⊢
    have hpos : n - before.length = (n - before.length - 1) + 1 := by omega
    rw [hpos] at hslot ⊢
    simpa using hslot

theorem Valid.holds_addFilter
    {table : FilterTable} (hvalid : table.Valid) (a : FilterArgs)
    {tag : TagId} {origin : OriginId} {n : ℕ} {f : Filter}
    (hholds : table.Holds tag origin n f) :
    (table.addFilter a).1.Holds tag origin n f := by
  rcases hholds with ⟨list, hlist, hslot, hid⟩
  rcases hvalid.addFilter a with
    ⟨-, -, -, ⟨-, -, hat⟩ | ⟨added, hadd, -, hat⟩⟩
  · exact ⟨list, by rw [hat, hlist], hslot, hid⟩
  · by_cases hhash :
        filterhash tag origin = filterhash a.tag a.origin
    · rw [← hhash, hlist, Option.getD_some] at hadd
      refine ⟨added.getD list, by rw [hat, if_pos hhash, hlist]; rfl, ?_, hid⟩
      cases hresult : added with
      | none => exact hslot
      | some next =>
          rw [hresult] at hadd
          exact addSlot_getElem (FilterList.add_eq_some hadd.symm).1 hslot hid
    · exact ⟨list, by rw [hat, if_neg hhash, hlist], hslot, hid⟩

theorem build_append_adds (history : List FilterCall)
    (more : List FilterArgs) (a : FilterArgs) :
    build (history ++ (more ++ [a]).map .add) =
      ((build (history ++ more.map .add)).addFilter a).1 := by
  simp only [build, List.map_append, List.map_singleton, ← List.append_assoc,
    List.foldl_append, List.foldl_cons, List.foldl_nil]
  rfl

theorem holds_append_adds
    {history : List FilterCall} (more : List FilterArgs)
    {tag : TagId} {origin : OriginId} {n : ℕ} {f : Filter}
    (hholds : (build history).Holds tag origin n f) :
    (build (history ++ more.map .add)).Holds tag origin n f := by
  induction more using List.reverseRecOn with
  | nil => simpa using hholds
  | append_singleton more a ih =>
      rw [build_append_adds]
      exact (valid_build _).holds_addFilter a ih

theorem length_lists_build (history : List FilterCall) :
    (build history).lists.length ≤ history.length := by
  induction history using List.reverseRecOn with
  | nil => simp [build, empty]
  | append_singleton earlier c ih =>
      have hstep : build (earlier ++ [c]) = (build earlier).call c := by
        simp [build, List.foldl_append]
      have hvalid := valid_build earlier
      rw [hstep, List.length_append, List.length_singleton]
      cases c with
      | add a =>
          have hlists := (hvalid.addFilter a).2.2.1
          exact hlists.trans (by omega)
      | disable origin tag id =>
          have hlists := (hvalid.setFilter origin tag id true).2.2.1
          exact hlists.le.trans (by omega)
      | enable origin tag id =>
          have hlists := (hvalid.setFilter origin tag id false).2.2.1
          exact hlists.le.trans (by omega)

theorem listAt_add_isSome
    {history : List FilterCall} (hspace : history.length + 1 < 2 ^ 64)
    (a : FilterArgs) :
    ((build (history ++ [.add a])).listAt
      (filterhash a.tag a.origin)).isSome = true := by
  have hstep : build (history ++ [.add a]) =
      ((build history).addFilter a).1 := by
    simp only [build, List.foldl_append, List.foldl_cons, List.foldl_nil]
    rfl
  have hlists := length_lists_build history
  rw [hstep]
  rcases (valid_build history).addFilter a with
    ⟨-, -, -, ⟨hfull, -⟩ | ⟨added, -, -, hat⟩⟩
  · omega
  · rw [hat, if_pos rfl]
    rfl

/-! ## When the law holds -/

/-- Every matching filter causes a write if and only if no pair looked up
before its own has a list; it keeps doing so under further `addFilter` calls
if and only if it was added for exactly the tag and origin of the message. -/
theorem matching_filters_fire_iff
    {history : List FilterCall} (hspace : history.length + 1 < 2 ^ 64)
    {opts : SiftOpts} (known : TargetId → Bool) {e : ExtraLogMeta}
    (hfresh : e.m.Fresh)
    (hmask : opts.levelFilterOutMask &&& e.m.level = 0) :
    ((build history).AllFire opts known e ↔
      ∀ tag origin n f, (build history).Holds tag origin n f →
        Matches tag origin f known e →
        ∀ pair ∈ (pairs e.m.tag e.m.origin).takeWhile (· ≠ (tag, origin)),
          (build history).listAt (filterhash pair.1 pair.2) = none) ∧
    (FireForGood history opts known e ↔
      ∀ tag origin n f, (build history).Holds tag origin n f →
        Matches tag origin f known e →
        tag = e.m.tag ∧ origin = e.m.origin) := by
  constructor
  · have hvalid := valid_build history
    constructor
    · intro hall tag origin n f hholds hmatches
      rw [← hvalid.chosenPtr_eq_find_iff hholds hmatches,
        ← hvalid.fires_iff hfresh hmask hholds hmatches]
      exact hall tag origin n f hholds hmatches
    · intro hfirst tag origin n f hholds hmatches
      rw [hvalid.fires_iff hfresh hmask hholds hmatches,
        hvalid.chosenPtr_eq_find_iff hholds hmatches]
      exact hfirst tag origin n f hholds hmatches
  · constructor
    · intro hgood tag origin n f hholds hmatches
      -- a filter for the message's own pair takes the delivery away
      set a : FilterArgs := { target := 0, origin := e.m.origin,
                              tag := e.m.tag, mask := 0 } with ha
      have hfires := hgood tag origin n f hholds hmatches [a]
      have hafter := holds_append_adds [a] hholds
      have hvalid := valid_build (history ++ [a].map .add)
      rw [hvalid.fires_iff hfresh hmask hafter hmatches,
        hvalid.chosenPtr_eq_find_iff hafter hmatches] at hfires
      have hsome := listAt_add_isSome hspace a
      by_contra hother
      have hpair : (e.m.tag, e.m.origin) ≠ (tag, origin) := by
        intro heq
        apply hother
        simp only [Prod.mk.injEq] at heq
        exact ⟨heq.1.symm, heq.2.symm⟩
      have hnone := hfires (e.m.tag, e.m.origin) (by
        have hkeep : decide ((e.m.tag, e.m.origin) ≠ (tag, origin)) = true :=
          decide_eq_true hpair
        simp only [pairs, List.takeWhile_cons, hkeep, if_true]
        exact List.mem_cons_self)
      simp only [List.map_cons, List.map_nil, ha] at hnone hsome
      rw [hnone] at hsome
      simp at hsome
    · intro hexact tag origin n f hholds hmatches more
      have hafter := holds_append_adds more hholds
      have hvalid := valid_build (history ++ more.map .add)
      rw [hvalid.fires_iff hfresh hmask hafter hmatches,
        hvalid.chosenPtr_eq_find_iff hafter hmatches]
      rcases hexact tag origin n f hholds hmatches with ⟨rfl, rfl⟩
      intro pair hpair
      unfold pairs at hpair
      rw [List.takeWhile_cons_of_neg (by simp)] at hpair
      simp at hpair

theorem broad_filter_not_for_good :
    ¬FireForGood [.add { target := 1, origin := 0, tag := 0, mask := 1 }]
      ⟨0, false⟩ (fun _ => true) ⟨LogMeta.declare 7 1 0, noIgnoreList⟩ := by
  intro hgood
  have hspace : [FilterCall.add (FilterArgs.mk 1 0 0 1 none none none)].length +
      1 < 2 ^ 64 := by decide
  have hexact := (matching_filters_fire_iff hspace (fun _ => true)
    (by decide) (by decide)).2.mp hgood 0 0 0
    ((FilterArgs.mk 1 0 0 1 none none none).filter 1)
    ⟨(FilterList.new.add
        ((FilterArgs.mk 1 0 0 1 none none none).filter 1)).getD
      FilterList.new, by decide, by decide, by decide⟩
    ⟨by decide, Or.inl rfl, Or.inl rfl, by decide, rfl, by decide⟩
  exact absurd hexact.1 (by decide)

/-- A filter for all messages is passed over once there is a filter for the
message's tag, even if that one does not match. -/
theorem broad_filter_passed_over :
    ¬(build [.add { target := 1, origin := 0, tag := 0, mask := 1 },
        .add { target := 2, origin := 0, tag := 7, mask := 2 }]).AllFire
      ⟨0, false⟩ (fun _ => true) ⟨LogMeta.declare 7 1 0, noIgnoreList⟩ := by
  intro hall
  have hfires := hall 0 0 0
    ((FilterArgs.mk 1 0 0 1 none none none).filter 1)
    ⟨(FilterList.new.add
        ((FilterArgs.mk 1 0 0 1 none none none).filter 1)).getD
      FilterList.new, by decide, by decide, by decide⟩
    ⟨by decide, Or.inl rfl, Or.inl rfl, by decide, rfl, by decide⟩
  have hnone : (build
      [.add { target := 1, origin := 0, tag := 0, mask := 1 },
        .add { target := 2, origin := 0, tag := 7, mask := 2 }]).routeSlots
      (fun _ => true)
      { m := ((build
          [.add { target := 1, origin := 0, tag := 0, mask := 1 },
            .add { target := 2, origin := 0, tag := 7, mask := 2 }]).sift
          ⟨0, false⟩ (LogMeta.declare 7 1 0)).2
        ignoreList := noIgnoreList } = [] := by decide
  rcases hfires with ⟨-, p, f, -, hmem⟩
  rw [hnone] at hmem
  simp at hmem

end FilterTable

end GreaseLog
