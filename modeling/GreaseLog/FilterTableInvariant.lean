import GreaseLog.FilterTable

/-!
# The invariant of the filter table

Whatever calls have been made, a hash leads to a list of its own, the used
slots of a list come first, and the bloom mask of a list covers the masks of
its filters.  The effect of a call is stated through `listAt`, the lists as
seen through their hashes.
-/

namespace GreaseLog

/-! ## Packing of tag and origin -/

theorem filterhash_toNat (tag : TagId) (origin : OriginId) :
    (filterhash tag origin).toNat = 2 ^ 32 * origin.toNat + tag.toNat := by
  have htag : tag.toNat < 2 ^ 32 := tag.toNat_lt
  have horigin : origin.toNat < 2 ^ 32 := origin.toNat_lt
  have hmask :
      (0xFFFFFFFF00000000 : UInt64).toNat = (2 ^ 32 - 1) <<< 32 := rfl
  rw [Nat.two_pow_add_eq_or_of_lt htag]
  apply Nat.eq_of_testBit_eq
  intro i
  simp only [filterhash, UInt64.toNat_or, UInt64.toNat_and,
    UInt64.toNat_shiftLeft, hmask, UInt32.toNat_toUInt64, Nat.testBit_or,
    Nat.testBit_and, Nat.testBit_shiftLeft, Nat.testBit_two_pow_sub_one,
    Nat.testBit_mod_two_pow, Nat.testBit_two_pow_mul]
  by_cases h32 : 32 ≤ i
  · have hhigh : origin.toNat.testBit (i - 32) = true → i - 32 < 32 := by
      intro htest
      by_contra hge
      have hlt : origin.toNat < 2 ^ (i - 32) :=
        lt_of_lt_of_le horigin
          (Nat.pow_le_pow_right (by norm_num) (by omega))
      rw [Nat.testBit_lt_two_pow hlt] at htest
      simp at htest
    cases hbit : origin.toNat.testBit (i - 32) with
    | false => simp [h32, hbit]
    | true =>
        have hsmall := hhigh hbit
        simp [h32, hbit, hsmall, show i < 64 by omega]
  · simp [h32]

theorem filterhash_inj {tag tag' : TagId} {origin origin' : OriginId} :
    filterhash tag origin = filterhash tag' origin' ↔
      tag = tag' ∧ origin = origin' := by
  constructor
  · intro heq
    have hnat := congrArg UInt64.toNat heq
    rw [filterhash_toNat, filterhash_toNat] at hnat
    have htag := tag.toNat_lt
    have htag' := tag'.toNat_lt
    constructor
    · apply UInt32.toNat_inj.mp
      omega
    · apply UInt32.toNat_inj.mp
      omega
  · rintro ⟨rfl, rfl⟩
    rfl

theorem filterhash_and_high (tag : TagId) (origin : OriginId) :
    filterhash tag origin &&& 0xFFFFFFFF00000000 = filterhash 0 origin := by
  apply UInt64.toNat_inj.mp
  have hmask :
      (0xFFFFFFFF00000000 : UInt64).toNat = (2 ^ 32 - 1) <<< 32 := rfl
  have horigin : origin.toNat < 2 ^ 32 := origin.toNat_lt
  have htag : tag.toNat < 2 ^ 32 := tag.toNat_lt
  rw [UInt64.toNat_and, filterhash_toNat, filterhash_toNat, hmask,
    Nat.two_pow_add_eq_or_of_lt htag]
  apply Nat.eq_of_testBit_eq
  intro i
  simp only [Nat.testBit_and, Nat.testBit_or, Nat.testBit_two_pow_mul,
    Nat.testBit_shiftLeft, Nat.testBit_two_pow_sub_one, UInt32.toNat_zero,
    Nat.add_zero]
  by_cases h32 : 32 ≤ i
  · have hlow : tag.toNat.testBit i = false :=
      Nat.testBit_lt_two_pow
        (lt_of_lt_of_le htag (Nat.pow_le_pow_right (by norm_num) h32))
    by_cases hsmall : i - 32 < 32
    · simp [h32, hlow, hsmall]
    · have hhigh : origin.toNat.testBit (i - 32) = false :=
        Nat.testBit_lt_two_pow
          (lt_of_lt_of_le horigin
            (Nat.pow_le_pow_right (by norm_num) (by omega)))
      simp [h32, hhigh, hsmall]
  · simp [h32]

theorem filterhash_and_low (tag : TagId) (origin : OriginId) :
    filterhash tag origin &&& 0x00000000FFFFFFFF = filterhash tag 0 := by
  apply UInt64.toNat_inj.mp
  have hmask : (0x00000000FFFFFFFF : UInt64).toNat = 2 ^ 32 - 1 := rfl
  have htag : tag.toNat < 2 ^ 32 := tag.toNat_lt
  rw [UInt64.toNat_and, filterhash_toNat, filterhash_toNat, hmask,
    Nat.and_two_pow_sub_one_eq_mod]
  simp only [UInt32.toNat_zero]
  omega

@[simp] theorem filterhash_zero_zero : filterhash 0 0 = 0 := by
  decide

theorem getHashes_eq (tag : TagId) (origin : OriginId) :
    getHashes tag origin =
      #v[filterhash tag origin, filterhash 0 origin, filterhash tag 0] := by
  simp only [getHashes, filterhash_and_high, filterhash_and_low]

/-! ## Filter lists -/

theorem addSlot_eq_some
    {slots next : List Filter} {f : Filter}
    (hadd : addSlot slots f = some next) :
    ∃ before slot after,
      slots = before ++ slot :: after ∧
      next = before ++ slot.assign f :: after ∧
      (∀ g ∈ before, g.id ≠ 0) ∧ slot.id = 0 := by
  induction slots generalizing next with
  | nil => simp [addSlot] at hadd
  | cons slot rest ih =>
      unfold addSlot at hadd
      split at hadd
      · rename_i hzero
        simp only [Option.some.injEq] at hadd
        subst next
        exact ⟨[], slot, rest, rfl, rfl, by simp, hzero⟩
      · rename_i hused
        obtain ⟨tail, htail, rfl⟩ := Option.map_eq_some_iff.mp hadd
        obtain ⟨before, hole, after, rfl, rfl, hbefore, hhole⟩ := ih htail
        refine ⟨slot :: before, hole, after, rfl, rfl, ?_, hhole⟩
        intro g hg
        rcases List.mem_cons.mp hg with rfl | hmem
        · exact hused
        · exact hbefore g hmem

theorem setDisabledSlot_eq_some
    {slots next : List Filter} {id : FilterId} {v : Bool}
    (hset : setDisabledSlot slots id v = some next) :
    ∃ before slot after,
      slots = before ++ slot :: after ∧
      next = before ++ { slot with disabled := v } :: after ∧
      (∀ g ∈ before, g.id ≠ id) ∧ slot.id = id := by
  induction slots generalizing next with
  | nil => simp [setDisabledSlot] at hset
  | cons slot rest ih =>
      unfold setDisabledSlot at hset
      split at hset
      · rename_i hid
        simp only [Option.some.injEq] at hset
        subst next
        exact ⟨[], slot, rest, rfl, rfl, by simp, hid⟩
      · rename_i hother
        obtain ⟨tail, htail, rfl⟩ := Option.map_eq_some_iff.mp hset
        obtain ⟨before, found, after, rfl, rfl, hbefore, hfound⟩ := ih htail
        refine ⟨slot :: before, found, after, rfl, rfl, ?_, hfound⟩
        intro g hg
        rcases List.mem_cons.mp hg with rfl | hmem
        · exact hother
        · exact hbefore g hmem

def Contiguous (slots : List Filter) : Prop :=
  slots.Pairwise fun earlier later => later.id ≠ 0 → earlier.id ≠ 0

theorem Contiguous.replaceHole
    {before after : List Filter} {slot g : Filter}
    (hcontiguous : Contiguous (before ++ slot :: after))
    (hbefore : ∀ f ∈ before, f.id ≠ 0) (hslot : slot.id = 0) :
    Contiguous (before ++ g :: after) := by
  have hparts := List.pairwise_append.mp hcontiguous
  obtain ⟨hhead, htail⟩ := List.pairwise_cons.mp hparts.2.1
  refine List.pairwise_append.mpr ⟨hparts.1, ?_, ?_⟩
  · refine List.pairwise_cons.mpr ⟨?_, htail⟩
    intro later hlater hused
    exact absurd hslot (hhead later hlater hused)
  · intro earlier hearlier later _ _
    exact hbefore earlier hearlier

theorem Contiguous.replaceSameId
    {before after : List Filter} {slot g : Filter}
    (hcontiguous : Contiguous (before ++ slot :: after))
    (hid : g.id = slot.id) :
    Contiguous (before ++ g :: after) := by
  have hparts := List.pairwise_append.mp hcontiguous
  obtain ⟨hhead, htail⟩ := List.pairwise_cons.mp hparts.2.1
  refine List.pairwise_append.mpr ⟨hparts.1, ?_, ?_⟩
  · refine List.pairwise_cons.mpr ⟨?_, htail⟩
    intro later hlater hused
    rw [hid]
    exact hhead later hlater hused
  · intro earlier hearlier later hlater hused
    rcases List.mem_cons.mp hlater with rfl | hmem
    · exact hparts.2.2 earlier hearlier slot (by simp) (hid ▸ hused)
    · exact hparts.2.2 earlier hearlier later (by simp [hmem]) hused

theorem or_and_eq_zero_iff {bloom mask level : LevelMask} :
    (bloom ||| mask) &&& level = 0 ↔
      bloom &&& level = 0 ∧ mask &&& level = 0 := by
  have hdistrib :
      (bloom ||| mask) &&& level = (bloom &&& level) ||| (mask &&& level) := by
    apply UInt32.toBitVec_inj.mp
    simp only [UInt32.toBitVec_and, UInt32.toBitVec_or]
    exact BitVec.and_or_distrib_right
  rw [hdistrib, UInt32.or_eq_zero_iff]

namespace FilterList

structure Good (list : FilterList) : Prop where
  contiguous : Contiguous list.slots
  covered : ∀ f ∈ list.slots, f.id ≠ 0 → ∀ level,
    f.levelMask &&& level ≠ 0 → list.bloom &&& level ≠ 0

theorem add_eq_some
    {list next : FilterList} {f : Filter} (hadd : list.add f = some next) :
    addSlot list.slots f = some next.slots ∧
      next.bloom = list.bloom ||| f.levelMask := by
  unfold add at hadd
  split at hadd
  · rename_i slots hslots
    simp only [Option.some.injEq] at hadd
    subst next
    exact ⟨hslots, rfl⟩
  · simp at hadd

theorem add_eq_none_iff {list : FilterList} {f : Filter} :
    list.add f = none ↔ addSlot list.slots f = none := by
  unfold add
  split
  · rename_i slots hslots
    simp [hslots]
  · rename_i hslots
    simp [hslots]

theorem setDisabled_eq_some
    {list next : FilterList} {id : FilterId} {v : Bool}
    (hset : list.setDisabled id v = some next) :
    setDisabledSlot list.slots id v = some next.slots ∧
      next.bloom = list.bloom := by
  unfold setDisabled at hset
  split at hset
  · rename_i slots hslots
    simp only [Option.some.injEq] at hset
    subst next
    exact ⟨hslots, rfl⟩
  · simp at hset

theorem setDisabled_eq_none_iff
    {list : FilterList} {id : FilterId} {v : Bool} :
    list.setDisabled id v = none ↔
      setDisabledSlot list.slots id v = none := by
  unfold setDisabled
  split
  · rename_i slots hslots
    simp [hslots]
  · rename_i hslots
    simp [hslots]

theorem good_new : new.Good := by
  constructor
  · exact List.pairwise_replicate.mpr (Or.inr (by simp [Filter.empty]))
  · intro f hf hid
    rw [new, List.mem_replicate] at hf
    exact absurd (congrArg Filter.id hf.2) hid

theorem Good.add
    {list next : FilterList} (hgood : list.Good)
    {f : Filter} (hadd : list.add f = some next) :
    next.Good := by
  obtain ⟨hslots, hbloom⟩ := add_eq_some hadd
  obtain ⟨before, slot, after, hold, hnew, hbefore, hslot⟩ :=
    addSlot_eq_some hslots
  constructor
  · rw [hnew]
    exact Contiguous.replaceHole (hold ▸ hgood.contiguous) hbefore hslot
  · intro g hg hid level hmeet
    rw [hbloom]
    intro hzero
    obtain ⟨hbloomZero, hmaskZero⟩ := or_and_eq_zero_iff.mp hzero
    rw [hnew] at hg
    rcases List.mem_append.mp hg with hin | hin
    · exact hgood.covered g (by simp [hold, hin]) hid level hmeet hbloomZero
    · rcases List.mem_cons.mp hin with rfl | hafter
      · exact hmeet hmaskZero
      · exact hgood.covered g (by simp [hold, hafter]) hid level hmeet
          hbloomZero

theorem Good.setDisabled
    {list next : FilterList} (hgood : list.Good)
    {id : FilterId} {v : Bool} (hset : list.setDisabled id v = some next) :
    next.Good := by
  obtain ⟨hslots, hbloom⟩ := setDisabled_eq_some hset
  obtain ⟨before, slot, after, hold, hnew, -, -⟩ :=
    setDisabledSlot_eq_some hslots
  constructor
  · have hcontiguous : Contiguous (before ++ slot :: after) :=
      hold ▸ hgood.contiguous
    rw [hnew]
    exact hcontiguous.replaceSameId rfl
  · intro g hg hid level hmeet
    rw [hbloom]
    rw [hnew] at hg
    rcases List.mem_append.mp hg with hin | hin
    · exact hgood.covered g (by simp [hold, hin]) hid level hmeet
    · rcases List.mem_cons.mp hin with rfl | hafter
      · exact hgood.covered slot (by simp [hold]) hid level hmeet
      · exact hgood.covered g (by simp [hold, hafter]) hid level hmeet

theorem mem_slots_of_mem_live
    {list : FilterList} {f : Filter} (hmem : f ∈ list.live) :
    f ∈ list.slots ∧ f.id ≠ 0 := by
  refine ⟨List.takeWhile_prefix _ |>.subset hmem, ?_⟩
  have hall : list.live.all (·.id != 0) = true := List.all_takeWhile
  simpa using List.all_eq_true.mp hall f hmem

end FilterList

/-! ## The table -/

namespace FilterTable

structure Valid (table : FilterTable) : Prop where
  bounded : table.lists.length < 2 ^ 64
  points : ∀ hash p, table.find hash = some p →
    p ≠ 0 ∧ p.toNat - 1 < table.lists.length
  separate : ∀ hash hash' p,
    table.find hash = some p → table.find hash' = some p → hash = hash'
  good : ∀ list ∈ table.lists, list.Good

theorem valid_empty : empty.Valid := by
  constructor
  · simp [empty]
  · intro hash p hfind
    simp [find, empty] at hfind
  · intro hash hash' p hfind
    simp [find, empty] at hfind
  · simp [empty]

theorem Valid.deref_find
    {table : FilterTable} (hvalid : table.Valid)
    {hash : FilterHash} {p : FilterListPtr}
    (hfind : table.find hash = some p) :
    ∃ list, table.deref p = some list ∧ list ∈ table.lists := by
  obtain ⟨hnull, hlt⟩ := hvalid.points hash p hfind
  refine ⟨table.lists[p.toNat - 1], ?_, List.getElem_mem hlt⟩
  simp [deref, hnull, List.getElem?_eq_getElem hlt]

theorem Valid.find_eq_none_iff
    {table : FilterTable} (hvalid : table.Valid) {hash : FilterHash} :
    table.find hash = none ↔ table.listAt hash = none := by
  unfold listAt
  cases hfind : table.find hash with
  | none => simp
  | some p =>
      obtain ⟨list, hlist, -⟩ := hvalid.deref_find hfind
      simp [hlist]

theorem Valid.good_listAt
    {table : FilterTable} (hvalid : table.Valid)
    {hash : FilterHash} {list : FilterList}
    (hlist : table.listAt hash = some list) :
    list.Good := by
  obtain ⟨p, hfind, hderef⟩ := Option.bind_eq_some_iff.mp hlist
  obtain ⟨found, hfound, hmem⟩ := hvalid.deref_find hfind
  have heq : found = list := by
    rw [hderef] at hfound
    exact (Option.some.inj hfound).symm
  exact hvalid.good list (heq ▸ hmem)

theorem Valid.pointer_inj
    {table : FilterTable} (hvalid : table.Valid)
    {hash hash' : FilterHash} {p p' : FilterListPtr}
    (hfind : table.find hash = some p) (hfind' : table.find hash' = some p')
    (hindex : p.toNat - 1 = p'.toNat - 1) :
    hash = hash' := by
  have hp := (hvalid.points hash p hfind).1
  have hp' := (hvalid.points hash' p' hfind').1
  have hpos : p.toNat ≠ 0 := fun h => hp (UInt64.toNat_inj.mp h)
  have hpos' : p'.toNat ≠ 0 := fun h => hp' (UInt64.toNat_inj.mp h)
  have heq : p = p' := by
    apply UInt64.toNat_inj.mp
    omega
  subst p'
  exact hvalid.separate hash hash' p hfind hfind'

/-! Storing a list through a pointer found under `hash` changes what is seen
under `hash` and nothing else. -/

@[simp] theorem find_store
    (table : FilterTable) (p : FilterListPtr) (list : FilterList)
    (hash : FilterHash) :
    (table.store p list).find hash = table.find hash := rfl

theorem Valid.listAt_store
    {table : FilterTable} (hvalid : table.Valid)
    {hash : FilterHash} {p : FilterListPtr}
    (hfind : table.find hash = some p) (list : FilterList)
    (hash' : FilterHash) :
    (table.store p list).listAt hash' =
      if hash' = hash then some list else table.listAt hash' := by
  obtain ⟨hnull, hlt⟩ := hvalid.points hash p hfind
  unfold listAt
  rw [find_store]
  by_cases heq : hash' = hash
  · subst hash'
    simp [hfind, deref, hnull, store, hlt]
  · rw [if_neg heq]
    cases hfind' : table.find hash' with
    | none => rfl
    | some p' =>
        have hnull' := (hvalid.points hash' p' hfind').1
        have hne : p.toNat - 1 ≠ p'.toNat - 1 := by
          intro hindex
          exact heq (hvalid.pointer_inj hfind' hfind hindex.symm)
        simp [deref, hnull', store, List.getElem?_set_ne hne]

theorem Valid.store
    {table : FilterTable} (hvalid : table.Valid)
    (p : FilterListPtr) {list : FilterList} (hgood : list.Good) :
    (table.store p list).Valid := by
  constructor
  · simpa [FilterTable.store] using hvalid.bounded
  · intro hash q hfind
    simpa [FilterTable.store] using hvalid.points hash q hfind
  · exact hvalid.separate
  · intro other hother
    rcases List.mem_or_eq_of_mem_set hother with hmem | rfl
    · exact hvalid.good other hmem
    · exact hgood

/-! ## Creating a list -/

theorem newList_eq_some
    {table next : FilterTable} {hash : FilterHash} {p : FilterListPtr}
    (hnew : table.newList hash = some (next, p)) :
    table.lists.length + 1 < 2 ^ 64 ∧
      p = UInt64.ofNat (table.lists.length + 1) ∧
      next.nextFilterId = table.nextFilterId ∧
      next.lists = table.lists ++ [FilterList.new] ∧
      next.hashTable = table.hashTable.insert hash p := by
  unfold newList at hnew
  split at hnew
  · rename_i hroom
    simp only [Option.some.injEq, Prod.mk.injEq] at hnew
    obtain ⟨rfl, rfl⟩ := hnew
    exact ⟨hroom, rfl, rfl, rfl, rfl⟩
  · simp at hnew

theorem find_of_insert
    {table next : FilterTable} {hash : FilterHash} {p : FilterListPtr}
    (hinsert : next.hashTable = table.hashTable.insert hash p)
    (hash' : FilterHash) :
    next.find hash' = if hash' = hash then some p else table.find hash' := by
  unfold find
  rw [hinsert]
  by_cases heq : hash' = hash
  · subst hash'
    simp
  · rw [if_neg heq, AList.lookup_insert_ne heq]

theorem Valid.newList
    {table next : FilterTable} (hvalid : table.Valid)
    {hash : FilterHash} {p : FilterListPtr}
    (hnew : table.newList hash = some (next, p)) :
    next.Valid := by
  obtain ⟨hroom, hp, -, hlists, hinsert⟩ := newList_eq_some hnew
  have hpNat : p.toNat = table.lists.length + 1 := by
    rw [hp, UInt64.toNat_ofNat']
    exact Nat.mod_eq_of_lt hroom
  have holdNe : ∀ hash' q, table.find hash' = some q → q ≠ p := by
    intro hash' q hfind heq
    have hlt := (hvalid.points hash' q hfind).2
    rw [heq, hpNat] at hlt
    omega
  constructor
  · rw [hlists]
    simpa using hroom
  · intro hash' q hfind
    rw [find_of_insert hinsert] at hfind
    rw [hlists, List.length_append, List.length_singleton]
    split at hfind
    · obtain rfl := Option.some.inj hfind
      constructor
      · intro hzero
        rw [hzero] at hpNat
        simp at hpNat
      · omega
    · obtain ⟨hnull, hlt⟩ := hvalid.points hash' q hfind
      exact ⟨hnull, by omega⟩
  · intro hash' hash'' q hfind hfind'
    rw [find_of_insert hinsert] at hfind hfind'
    split at hfind
    · rename_i heq
      split at hfind'
      · rename_i heq'
        exact heq.trans heq'.symm
      · obtain rfl := Option.some.inj hfind
        exact absurd rfl (holdNe hash'' p hfind')
    · split at hfind'
      · obtain rfl := Option.some.inj hfind'
        exact absurd rfl (holdNe hash' p hfind)
      · exact hvalid.separate hash' hash'' q hfind hfind'
  · intro list hmem
    rw [hlists, List.mem_append, List.mem_singleton] at hmem
    rcases hmem with hold | rfl
    · exact hvalid.good list hold
    · exact FilterList.good_new

theorem Valid.listAt_newList
    {table next : FilterTable} (hvalid : table.Valid)
    {hash : FilterHash} {p : FilterListPtr}
    (hnew : table.newList hash = some (next, p)) (hash' : FilterHash) :
    next.listAt hash' =
      if hash' = hash then some FilterList.new else table.listAt hash' := by
  obtain ⟨hroom, hp, -, hlists, hinsert⟩ := newList_eq_some hnew
  have hpNat : p.toNat = table.lists.length + 1 := by
    rw [hp, UInt64.toNat_ofNat']
    exact Nat.mod_eq_of_lt hroom
  have hnull : p ≠ 0 := by
    intro hzero
    rw [hzero] at hpNat
    simp at hpNat
  unfold listAt
  rw [find_of_insert hinsert]
  by_cases heq : hash' = hash
  · simp [heq, deref, hnull, hpNat, hlists]
  · rw [if_neg heq, if_neg heq]
    cases hfind : table.find hash' with
    | none => rfl
    | some q =>
        obtain ⟨hq, hlt⟩ := hvalid.points hash' q hfind
        simp [deref, hq, hlists, List.getElem?_append_left hlt]

theorem Valid.findOrNew
    {table next : FilterTable} (hvalid : table.Valid)
    {hash : FilterHash} {p : FilterListPtr}
    (hfound : table.findOrNew hash = some (next, p)) :
    next.Valid ∧ next.find hash = some p ∧
      next.nextFilterId = table.nextFilterId ∧
      next.lists.length ≤ table.lists.length + 1 ∧
      ∀ hash', next.listAt hash' =
        if hash' = hash then some ((table.listAt hash).getD FilterList.new)
        else table.listAt hash' := by
  unfold FilterTable.findOrNew at hfound
  cases hfind : table.find hash with
  | some q =>
      simp only [hfind, Option.some.injEq, Prod.mk.injEq] at hfound
      obtain ⟨rfl, rfl⟩ := hfound
      refine ⟨hvalid, hfind, rfl, by omega, ?_⟩
      intro hash'
      obtain ⟨list, hlist, -⟩ := hvalid.deref_find hfind
      by_cases heq : hash' = hash
      · subst hash'
        simp [listAt, hfind, hlist]
      · simp [heq]
  | none =>
      simp only [hfind] at hfound
      obtain ⟨-, -, hid, hlists, hinsert⟩ := newList_eq_some hfound
      refine ⟨hvalid.newList hfound, ?_, hid, by simp [hlists], ?_⟩
      · simp [find_of_insert hinsert]
      · intro hash'
        rw [hvalid.listAt_newList hfound hash']
        simp [hvalid.find_eq_none_iff.mp hfind]

/-! ## The effect of the calls -/

theorem Valid.with_nextFilterId
    {table : FilterTable} (hvalid : table.Valid) (id : FilterId) :
    { table with nextFilterId := id }.Valid :=
  ⟨hvalid.bounded, hvalid.points, hvalid.separate, hvalid.good⟩

/-- `findOrNew` fails only when the address space is exhausted. -/
theorem full_of_findOrNew_eq_none
    {table : FilterTable} {hash : FilterHash}
    (hfound : table.findOrNew hash = none) :
    2 ^ 64 ≤ table.lists.length + 1 := by
  unfold FilterTable.findOrNew at hfound
  cases hfind : table.find hash with
  | some p => simp [hfind] at hfound
  | none =>
      simp only [hfind, FilterTable.newList] at hfound
      by_contra hroom
      rw [if_pos (not_le.mp hroom)] at hfound
      simp at hfound

/-- The pointer `findOrNew` returns leads to the list of the hash, or to a new
one. -/
theorem Valid.deref_findOrNew
    {table next : FilterTable} (hvalid : table.Valid) {hash : FilterHash}
    {p : FilterListPtr} (hfound : table.findOrNew hash = some (next, p)) :
    next.deref p = some ((table.listAt hash).getD FilterList.new) := by
  obtain ⟨-, hfind, -, -, hnextAt⟩ := hvalid.findOrNew hfound
  have hat := hnextAt hash
  rw [if_pos rfl] at hat
  simpa [listAt, hfind] using hat

theorem Valid.good_getD_new
    {table : FilterTable} (hvalid : table.Valid) (hash : FilterHash) :
    ((table.listAt hash).getD FilterList.new).Good := by
  cases hat : table.listAt hash with
  | none => exact FilterList.good_new
  | some list => exact hvalid.good_listAt hat

/-- What `_addFilter` does.  Either there was no room for a new list, or the
list of the filter's hash is what `FilterList::add` makes of it; a full list
stays as it is and no id is handed out. -/
theorem Valid.addFilter
    {table : FilterTable} (hvalid : table.Valid) (a : FilterArgs) :
    (table.addFilter a).1.Valid ∧
      (table.addFilter a).1.nextFilterId = table.nextFilterId + 1 ∧
      (table.addFilter a).1.lists.length ≤ table.lists.length + 1 ∧
      ((2 ^ 64 ≤ table.lists.length + 1 ∧ (table.addFilter a).2 = none ∧
          ∀ hash, (table.addFilter a).1.listAt hash = table.listAt hash) ∨
        ∃ added : Option FilterList,
          added = ((table.listAt (filterhash a.tag a.origin)).getD
            FilterList.new).add (a.filter table.nextFilterId) ∧
          (table.addFilter a).2 = added.map (fun _ => table.nextFilterId) ∧
          ∀ hash, (table.addFilter a).1.listAt hash =
            if hash = filterhash a.tag a.origin then
              some (added.getD ((table.listAt hash).getD FilterList.new))
            else table.listAt hash) := by
  set id := table.nextFilterId with hid
  set hash := filterhash a.tag a.origin with hhash
  set bumped : FilterTable := { table with nextFilterId := id + 1 } with hbumped
  have hbumpedValid : bumped.Valid := hvalid.with_nextFilterId _
  have hlistAt : ∀ hash', bumped.listAt hash' = table.listAt hash' :=
    fun _ => rfl
  cases hfound : bumped.findOrNew hash with
  | none =>
      have hstep : table.addFilter a = (bumped, none) := by
        simp only [FilterTable.addFilter]
        rw [hfound]
      have hfull : 2 ^ 64 ≤ bumped.lists.length + 1 :=
        full_of_findOrNew_eq_none hfound
      rw [hstep]
      exact ⟨hbumpedValid, rfl, by simp [hbumped],
        Or.inl ⟨hfull, rfl, hlistAt⟩⟩
  | some result =>
      obtain ⟨next, p⟩ := result
      obtain ⟨hnextValid, hfind, hnextId, hlength, hnextAt⟩ :=
        hbumpedValid.findOrNew hfound
      have hderef : next.deref p =
          some ((table.listAt hash).getD FilterList.new) :=
        hbumpedValid.deref_findOrNew hfound
      have hgood := hvalid.good_getD_new hash
      cases hadd : ((table.listAt hash).getD FilterList.new).add
          (a.filter id) with
      | none =>
          have hstep : table.addFilter a = (next, none) := by
            simp only [FilterTable.addFilter]
            rw [hfound]
            simp only [hderef, Option.bind_some]
            rw [hadd]
          rw [hstep]
          refine ⟨hnextValid, hnextId, hlength, Or.inr ⟨none, rfl, rfl, ?_⟩⟩
          intro hash'
          rw [hnextAt hash']
          by_cases heq : hash' = hash
          · simp [heq, hlistAt]
          · simp [heq, hlistAt]
      | some list =>
          have hstep : table.addFilter a = (next.store p list, some id) := by
            simp only [FilterTable.addFilter]
            rw [hfound]
            simp only [hderef, Option.bind_some]
            rw [hadd]
          rw [hstep]
          refine ⟨hnextValid.store p (hgood.add hadd), hnextId,
            by simpa [FilterTable.store] using hlength,
            Or.inr ⟨some list, rfl, rfl, ?_⟩⟩
          intro hash'
          rw [hnextValid.listAt_store hfind list hash', hnextAt hash']
          by_cases heq : hash' = hash
          · simp [heq]
          · simp [heq, hlistAt]

theorem Valid.setFilter
    {table : FilterTable} (hvalid : table.Valid)
    (origin : OriginId) (tag : TagId) (id : FilterId) (v : Bool) :
    (table.setFilter origin tag id v).1.Valid ∧
      (table.setFilter origin tag id v).1.nextFilterId =
        table.nextFilterId ∧
      (table.setFilter origin tag id v).1.lists.length =
        table.lists.length ∧
      ∀ hash, (table.setFilter origin tag id v).1.listAt hash =
        if hash = filterhash tag origin then
          (table.listAt hash).map
            (fun list => (list.setDisabled id v).getD list)
        else table.listAt hash := by
  unfold FilterTable.setFilter
  cases hfind : table.find (filterhash tag origin) with
  | none =>
      have hnone := hvalid.find_eq_none_iff.mp hfind
      refine ⟨hvalid, rfl, rfl, ?_⟩
      intro hash
      by_cases heq : hash = filterhash tag origin
      · simp [heq, hnone]
      · simp [heq]
  | some p =>
      obtain ⟨list, hlist, hmem⟩ := hvalid.deref_find hfind
      have hat : table.listAt (filterhash tag origin) = some list := by
        simp [listAt, hfind, hlist]
      simp only [hlist, Option.bind_some]
      cases hset : list.setDisabled id v with
      | none =>
          refine ⟨hvalid, rfl, rfl, ?_⟩
          intro hash
          by_cases heq : hash = filterhash tag origin
          · simp [heq, hat, hset]
          · simp [heq]
      | some next =>
          refine ⟨hvalid.store p ((hvalid.good list hmem).setDisabled hset),
            rfl, by simp [FilterTable.store], ?_⟩
          intro hash
          rw [hvalid.listAt_store hfind next hash]
          by_cases heq : hash = filterhash tag origin
          · simp [heq, hat, hset]
          · simp [heq]

theorem Valid.call
    {table : FilterTable} (hvalid : table.Valid) (c : FilterCall) :
    (table.call c).Valid := by
  cases c with
  | add a => exact (hvalid.addFilter a).1
  | disable origin tag id => exact (hvalid.setFilter origin tag id true).1
  | enable origin tag id => exact (hvalid.setFilter origin tag id false).1

theorem valid_build (history : List FilterCall) : (build history).Valid := by
  unfold build
  induction history using List.reverseRecOn with
  | nil => exact valid_empty
  | append_singleton earlier c ih =>
      rw [List.foldl_append]
      exact ih.call c

end FilterTable

end GreaseLog
