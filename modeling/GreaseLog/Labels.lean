import GreaseLog.Decorations
import GreaseLog.KHashTable
import GreaseLog.SyslogSink

/-!
# Labels and generated ids

Tags, origins and levels are numbers; their labels are what the headers print.
The library labels the tags and the levels it knows, and hands out numbers for
tags and origins of the program.  The numbers start above the common tags and
stay below the reserved ones, where they start again.
-/

namespace GreaseLog

def startTagId : UInt32 := 1000
def startOriginId : UInt32 := 1000
def greaseReservedTagsEcho : TagId := 0xFFF1

/-- The bytes of a C string constant. -/
def ascii (s : String) : List UInt8 := s.toList.map fun c => UInt8.ofNat c.toNat

/-- The calls of `setupStandardTags`, in their order. -/
def standardTags : List (TagId × String) :=
  [(greaseTagSyslog, "syslog"), (greaseTagStdout, "stdout"),
    (greaseTagStderr, "stderr"), (greaseTagKernel, "kernel"),
    (greaseReservedTagsEcho, "grease-echo")] ++
  greaseSyslogfacToTagMap.zip
    ["sys-auth", "sys-authpriv", "sys-cron", "sys-daemon", "sys-ftp",
      "sys-kern", "sys-lpr", "sys-mail", "sys-mark", "sys-news",
      "sys-security", "sys-syslog", "sys-user", "sys-uucp", "sys-local0",
      "sys-local1", "sys-local2", "sys-local3", "sys-local4", "sys-local5",
      "sys-local6", "sys-local7"]

/-- The calls of `setupStandardLevels`; two of the levels are one number. -/
def standardLevels : List (LevelMask × String) :=
  [(0x01, "LOG"), (0x02, "ERROR"), (0x04, "WARN"), (0x08, "DEBUG"),
    (0x10, "DEBUG2"), (0x20, "DEBUG3"), (0x40, "USER1"), (0x80, "USER2"),
    (0x100, "SUCCESS"), (0x100, "INFO"), (0x200, "TRACE")]

inductive LabelCall where
  | addTagLabel (val : TagId) (utf8 : List UInt8)
  | addOriginLabel (val : OriginId) (utf8 : List UInt8)
  | addLevelLabel (val : LevelMask) (utf8 : List UInt8)
  | getUnusedTagId
  | getUnusedOriginId

/-- The tables and counters.  `tagIds` and `originIds` are not in the source:
they are the numbers handed out so far. -/
structure LabelStore where
  tagLabels : TwMap UInt32 LogLabel
  originLabels : TwMap UInt32 LogLabel
  levelLabels : TwMap UInt32 LogLabel
  nextTagId : UInt32
  nextOriginId : UInt32
  tagIds : List UInt32
  originIds : List UInt32

/-- `addReplace` with `logLabel::fromUTF8`; an empty text is refused. -/
def addLabel (table : TwMap UInt32 LogLabel) (val : UInt32) (utf8 : List UInt8) :
    TwMap UInt32 LogLabel :=
  if utf8 = [] then table else table.insert val (some utf8)

/-- The counter after a number has been handed out. -/
def nextUnusedId (first next : UInt32) : UInt32 :=
  if greaseReservedTagsStart ≤ next + 1 then first else next + 1

namespace LabelStore

def empty : LabelStore where
  tagLabels := ∅
  originLabels := ∅
  levelLabels := ∅
  nextTagId := startTagId
  nextOriginId := startOriginId
  tagIds := []
  originIds := []

def step (s : LabelStore) : LabelCall → LabelStore
  | .addTagLabel val utf8 => { s with tagLabels := addLabel s.tagLabels val utf8 }
  | .addOriginLabel val utf8 =>
      { s with originLabels := addLabel s.originLabels val utf8 }
  | .addLevelLabel val utf8 =>
      { s with levelLabels := addLabel s.levelLabels val utf8 }
  | .getUnusedTagId =>
      { s with
        nextTagId := nextUnusedId startTagId s.nextTagId
        tagIds := s.tagIds ++ [s.nextTagId] }
  | .getUnusedOriginId =>
      { s with
        nextOriginId := nextUnusedId startOriginId s.nextOriginId
        originIds := s.originIds ++ [s.nextOriginId] }

def setupStandardTags (s : LabelStore) : LabelStore :=
  Run.final step s (standardTags.map fun t => .addTagLabel t.1 (ascii t.2))

def setupStandardLevels (s : LabelStore) : LabelStore :=
  Run.final step s (standardLevels.map fun t => .addLevelLabel t.1 (ascii t.2))

/-! ## The numbers handed out -/

/-- The `n`-th number of a counter. -/
def unusedId (n : ℕ) : UInt32 := 1000 + UInt32.ofNat (n % 60440)

theorem toNat_unusedId (n : ℕ) : (unusedId n).toNat = 1000 + n % 60440 := by
  have hlt := Nat.mod_lt n (by decide : 0 < 60440)
  have hfirst : (1000 : UInt32).toNat = 1000 := rfl
  simp only [unusedId, UInt32.toNat_add, UInt32.toNat_ofNat', hfirst]
  omega

theorem nextUnusedId_unusedId (n : ℕ) :
    nextUnusedId 1000 (unusedId n) = unusedId (n + 1) := by
  have hlt := Nat.mod_lt n (by decide : 0 < 60440)
  have hn := toNat_unusedId n
  have hnext : (unusedId n + 1).toNat = 1001 + n % 60440 := by
    have hone : (1 : UInt32).toNat = 1 := rfl
    rw [UInt32.toNat_add, hn, hone]
    omega
  apply UInt32.toNat_inj.mp
  rw [toNat_unusedId]
  unfold nextUnusedId
  split_ifs with hend
  · rw [UInt32.le_iff_toNat_le, hnext] at hend
    change 61440 ≤ _ at hend
    change 1000 = _
    omega
  · rw [UInt32.le_iff_toNat_le, hnext] at hend
    change ¬61440 ≤ _ at hend
    rw [hnext]
    omega

structure Counts (s : LabelStore) : Prop where
  nextTagId : s.nextTagId = unusedId s.tagIds.length
  nextOriginId : s.nextOriginId = unusedId s.originIds.length
  tagIds : s.tagIds = (List.range s.tagIds.length).map unusedId
  originIds : s.originIds = (List.range s.originIds.length).map unusedId

theorem counts_append {ids : List UInt32}
    (hids : ids = (List.range ids.length).map unusedId) :
    ids ++ [unusedId ids.length] =
      (List.range (ids ++ [unusedId ids.length]).length).map unusedId := by
  rw [List.length_append, List.length_singleton, List.range_succ, List.map_append,
    List.map_singleton, ← hids]

theorem Counts.step {s : LabelStore} (h : s.Counts) (c : LabelCall) :
    (s.step c).Counts := by
  cases c with
  | addTagLabel val utf8 => exact ⟨h.1, h.2, h.3, h.4⟩
  | addOriginLabel val utf8 => exact ⟨h.1, h.2, h.3, h.4⟩
  | addLevelLabel val utf8 => exact ⟨h.1, h.2, h.3, h.4⟩
  | getUnusedTagId =>
      refine ⟨?_, h.nextOriginId, ?_, h.originIds⟩
      · simp only [LabelStore.step, List.length_append, List.length_singleton]
        rw [h.nextTagId]
        exact nextUnusedId_unusedId _
      · simp only [LabelStore.step]
        rw [h.nextTagId]
        exact counts_append h.tagIds
  | getUnusedOriginId =>
      refine ⟨h.nextTagId, ?_, h.tagIds, ?_⟩
      · simp only [LabelStore.step, List.length_append, List.length_singleton]
        rw [h.nextOriginId]
        exact nextUnusedId_unusedId _
      · simp only [LabelStore.step]
        rw [h.nextOriginId]
        exact counts_append h.originIds

theorem counts_empty : empty.Counts := ⟨rfl, rfl, rfl, rfl⟩

theorem range_unusedId (n : ℕ) :
    startTagId ≤ unusedId n ∧ unusedId n < greaseReservedTagsStart := by
  have hlt := Nat.mod_lt n (by decide : 0 < 60440)
  rw [UInt32.le_iff_toNat_le, UInt32.lt_iff_toNat_lt, toNat_unusedId]
  change 1000 ≤ _ ∧ _ < 61440
  omega

theorem unusedId_inj (i j : ℕ) : unusedId i = unusedId j ↔ i % 60440 = j % 60440 := by
  rw [← UInt32.toNat_inj, toNat_unusedId, toNat_unusedId]
  omega

/-- In every run, whoever asks for numbers gets numbers of the program's own
range, and two requests get the same one if and only if whole rounds lie
between them. -/
theorem unused_ids_repeat_by_rounds (calls : List LabelCall) :
    let s := Run.final step empty calls
    (∀ id ∈ s.tagIds ++ s.originIds,
        startTagId ≤ id ∧ id < greaseReservedTagsStart) ∧
      (∀ i j a b, s.tagIds[i]? = some a → s.tagIds[j]? = some b →
        (a = b ↔ i % 60440 = j % 60440)) ∧
      ∀ i j a b, s.originIds[i]? = some a → s.originIds[j]? = some b →
        (a = b ↔ i % 60440 = j % 60440) := by
  intro s
  have h : s.Counts := Run.final_preserves (fun _ c h => h.step c) calls counts_empty
  have hget : ∀ {ids : List UInt32} {i : ℕ} {a : UInt32},
      ids = (List.range ids.length).map unusedId → ids[i]? = some a →
        a = unusedId i := by
    intro ids i a hids ha
    have hi := (List.getElem?_eq_some_iff.mp ha).1
    rw [hids, List.getElem?_map, List.getElem?_range hi] at ha
    simpa using ha.symm
  refine ⟨fun id hid => ?_, fun i j a b ha hb => ?_, fun i j a b ha hb => ?_⟩
  · rcases List.mem_append.mp hid with hid | hid
    · rw [h.tagIds] at hid
      rcases List.mem_map.mp hid with ⟨n, -, rfl⟩
      exact range_unusedId n
    · rw [h.originIds] at hid
      rcases List.mem_map.mp hid with ⟨n, -, rfl⟩
      exact range_unusedId n
  · rw [hget h.tagIds ha, hget h.tagIds hb]
    exact unusedId_inj i j
  · rw [hget h.originIds ha, hget h.originIds hb]
    exact unusedId_inj i j

theorem unused_ids_repeat_by_rounds_two :
    let s := Run.final step empty [.getUnusedTagId, .getUnusedOriginId, .getUnusedTagId]
    s.tagIds = [1000, 1001] ∧
      ((1000 : UInt32) = 1001 ↔ 0 % 60440 = 1 % 60440) :=
  ⟨rfl, (unused_ids_repeat_by_rounds [.getUnusedTagId, .getUnusedOriginId,
    .getUnusedTagId]).2.1 0 1 1000 1001 rfl rfl⟩

/-! ## The labels -/

def labels? (id : UInt32) : LabelCall → Option (List UInt8)
  | .addTagLabel val utf8 => if val = id ∧ utf8 ≠ [] then some utf8 else none
  | _ => none

/-- The text of the last call that labels a tag. -/
def lastTagLabel (id : UInt32) (calls : List LabelCall) : Option (List UInt8) :=
  (calls.filterMap (labels? id)).getLast?

theorem lookup_addLabel (table : TwMap UInt32 LogLabel) (val id : UInt32)
    (utf8 : List UInt8) :
    (addLabel table val utf8).lookup id =
      if val = id ∧ utf8 ≠ [] then some (some utf8) else table.lookup id := by
  unfold addLabel
  split_ifs with hempty hboth hval
  · exact absurd hempty hboth.2
  · rfl
  · rw [hval.1, AList.lookup_insert]
  · rw [AList.lookup_insert_ne fun heq => hval ⟨heq.symm, hempty⟩]

theorem lookup_step (s : LabelStore) (c : LabelCall) (id : UInt32) :
    (s.step c).tagLabels.lookup id =
      ((labels? id c).map some).orElse fun _ => s.tagLabels.lookup id := by
  cases c with
  | addTagLabel val utf8 =>
      simp only [step, lookup_addLabel, labels?]
      split_ifs <;> rfl
  | addOriginLabel val utf8 => rfl
  | addLevelLabel val utf8 => rfl
  | getUnusedTagId => rfl
  | getUnusedOriginId => rfl

theorem lookup_final (s : LabelStore) (calls : List LabelCall) (id : UInt32) :
    (Run.final step s calls).tagLabels.lookup id =
      ((lastTagLabel id calls).map some).orElse fun _ =>
        s.tagLabels.lookup id := by
  induction calls generalizing s with
  | nil => rfl
  | cons c calls ih =>
      rw [Run.final_cons, ih, lookup_step]
      unfold lastTagLabel
      cases hc : labels? id c with
      | none => simp [hc]
      | some text =>
          rw [List.filterMap_cons_some hc, List.getLast?_cons]
          cases (calls.filterMap (labels? id)).getLast? <;> rfl

/-- A program that labels only the tags it was given. -/
def LabelsOwn (s : LabelStore) : LabelCall → Prop
  | .addTagLabel val _ => val ∈ s.tagIds
  | _ => True

theorem lastTagLabel_eq_none {s : LabelStore} (h : s.Counts)
    {calls : List LabelCall} (hown : Run.Meets step LabelsOwn s calls) {id : UInt32}
    (hid : ¬(startTagId ≤ id ∧ id < greaseReservedTagsStart)) :
    lastTagLabel id calls = none := by
  unfold lastTagLabel
  rw [List.getLast?_eq_none_iff]
  induction calls generalizing s with
  | nil => rfl
  | cons c calls ih =>
      have hc : labels? id c = none := by
        cases c with
        | addTagLabel val utf8 =>
            have hval : val ∈ s.tagIds := hown.1
            rw [h.tagIds] at hval
            rcases List.mem_map.mp hval with ⟨n, -, rfl⟩
            apply if_neg
            rintro ⟨rfl, -⟩
            exact hid (range_unusedId n)
        | addOriginLabel val utf8 => rfl
        | addLevelLabel val utf8 => rfl
        | getUnusedTagId => rfl
        | getUnusedOriginId => rfl
      rw [List.filterMap_cons_none hc]
      exact ih (h.step c) hown.2

theorem standardTags_reserved :
    ∀ t ∈ standardTags, ¬(startTagId ≤ t.1 ∧ t.1 < greaseReservedTagsStart) ∧
      0 < t.1 := by
  decide +kernel

theorem lastTagLabel_standardTags : ∀ t ∈ standardTags,
    lastTagLabel t.1 (standardTags.map fun t => .addTagLabel t.1 (ascii t.2)) =
      some (ascii t.2) := by
  decide +kernel

theorem labelOf_eq {labels : UInt32 → Option LogLabel} {id : UInt32} (hid : 0 < id) :
    Decorator.labelOf labels id =
      ((labels id).join.map Snprintf.chars).getD emptyLabel := by
  unfold Decorator.labelOf
  rw [if_pos hid]
  cases (labels id).join <;> rfl

theorem lookup_setupStandardTags (id : UInt32) :
    empty.setupStandardTags.tagLabels.lookup id =
      (lastTagLabel id
        (standardTags.map fun t => .addTagLabel t.1 (ascii t.2))).map some := by
  unfold setupStandardTags
  rw [lookup_final]
  cases lastTagLabel id
    (standardTags.map fun t => LabelCall.addTagLabel t.1 (ascii t.2)) <;> rfl

/-- No standard tag lies in the range of the numbers handed out. -/
theorem lastTagLabel_unusedId (n : ℕ) :
    lastTagLabel (unusedId n)
      (standardTags.map fun t => .addTagLabel t.1 (ascii t.2)) = none := by
  unfold lastTagLabel
  rw [List.getLast?_eq_none_iff, List.filterMap_eq_nil_iff]
  intro c hc
  rcases List.mem_map.mp hc with ⟨t, ht, rfl⟩
  apply if_neg
  rintro ⟨heq, -⟩
  have hout := (standardTags_reserved t ht).1
  rw [heq] at hout
  exact hout (range_unusedId n)

/-- Behind `setupStandardTags`, whatever a program does that labels only tags
it was given: headers print the standard label for each standard tag, and the
last label the program has set for each of its own. -/
theorem standard_labels_printed (calls : List LabelCall)
    (hown : Run.Meets step LabelsOwn empty.setupStandardTags calls) :
    let s := Run.final step empty.setupStandardTags calls
    (∀ t ∈ standardTags, Decorator.labelOf s.tagLabels.lookup t.1 =
        Snprintf.chars (ascii t.2)) ∧
      ∀ id ∈ s.tagIds, Decorator.labelOf s.tagLabels.lookup id =
        ((lastTagLabel id calls).map Snprintf.chars).getD emptyLabel := by
  intro s
  have hsetup : empty.setupStandardTags.Counts :=
    Run.final_preserves (fun _ c h => h.step c) _ counts_empty
  have hcounts : s.Counts := Run.final_preserves (fun _ c h => h.step c) calls hsetup
  constructor
  · intro t ht
    have hout := standardTags_reserved t ht
    rw [labelOf_eq hout.2, lookup_final, lastTagLabel_eq_none hsetup hown hout.1,
      lookup_setupStandardTags, lastTagLabel_standardTags t ht]
    rfl
  · intro id hid
    rw [hcounts.tagIds] at hid
    rcases List.mem_map.mp hid with ⟨n, -, rfl⟩
    have hpos : 0 < unusedId n :=
      UInt32.lt_of_lt_of_le (by decide : (0 : UInt32) < startTagId) (range_unusedId n).1
    rw [labelOf_eq hpos, lookup_final, lookup_setupStandardTags, lastTagLabel_unusedId]
    cases lastTagLabel (unusedId n) calls <;> rfl

theorem standard_labels_printed_own :
    let s := Run.final step empty.setupStandardTags
      [.getUnusedTagId, .addTagLabel 1000 [65]]
    (∀ t ∈ standardTags, Decorator.labelOf s.tagLabels.lookup t.1 =
        Snprintf.chars (ascii t.2)) ∧
      Decorator.labelOf s.tagLabels.lookup 1000 = [65] := by
  have hids : empty.setupStandardTags.tagIds = [] := by decide +kernel
  have hown : Run.Meets step LabelsOwn empty.setupStandardTags
      [.getUnusedTagId, .addTagLabel 1000 [65]] := by
    refine ⟨trivial, ?_, trivial⟩
    change (1000 : UInt32) ∈ empty.setupStandardTags.tagIds ++ [_]
    rw [hids]
    decide +kernel
  have h := standard_labels_printed [.getUnusedTagId, .addTagLabel 1000 [65]] hown
  refine ⟨h.1, ?_⟩
  rw [h.2 1000 (by decide +kernel)]
  decide +kernel

/-! ## The labels of the levels -/

/-- Levels that are labelled one after another: for each number the last label
stays. -/
theorem lookup_levelLabels (s : LabelStore) (labels : List (LevelMask × List UInt8))
    (hlabels : ∀ t ∈ labels, t.2 ≠ []) (level : LevelMask) :
    (Run.final step s (labels.map fun t => .addLevelLabel t.1 t.2)).levelLabels.lookup
        level =
      ((labels.filter fun t => t.1 = level).getLast?.map fun t => some t.2).orElse
        fun _ => s.levelLabels.lookup level := by
  induction labels generalizing s with
  | nil => rfl
  | cons t labels ih =>
      have htext := hlabels t List.mem_cons_self
      rw [List.map_cons, Run.final_cons,
        ih _ fun u hu => hlabels u (List.mem_cons_of_mem _ hu)]
      have hstep : (s.step (.addLevelLabel t.1 t.2)).levelLabels.lookup level =
          if t.1 = level then some (some t.2) else s.levelLabels.lookup level := by
        simp only [step, lookup_addLabel, htext, ne_eq, not_false_eq_true, and_true]
      rw [hstep]
      by_cases hlevel : t.1 = level
      · rw [List.filter_cons_of_pos (by simpa using hlevel), List.getLast?_cons,
          if_pos hlevel]
        cases (labels.filter fun u => u.1 = level).getLast? <;> rfl
      · rw [List.filter_cons_of_neg (by simpa using hlevel), if_neg hlevel]

/-- After `setupStandardLevels` the header prints the standard label of a level,
and the last one where two of them have one number. -/
theorem standard_levels_printed {d : Decorator} {s : LabelStore}
    (hlabels : d.levelLabels = s.setupStandardLevels.levelLabels.lookup) {m : LogMeta}
    {label : LevelMask × String}
    (hlast : (standardLevels.filter fun t => t.1 = m.level).getLast? = some label) :
    d.levelText m =
      d.text d.levelFormat [.string (Snprintf.chars (ascii label.2))] := by
  have hlookup := s.lookup_levelLabels
    (standardLevels.map fun t => (t.1, ascii t.2)) (by decide +kernel) m.level
  rw [List.map_map, List.filter_map, List.getLast?_map] at hlookup
  change s.setupStandardLevels.levelLabels.lookup m.level = (Option.map _ (Option.map _
    (standardLevels.filter fun t => t.1 = m.level).getLast?)).orElse _ at hlookup
  rw [hlast] at hlookup
  unfold Decorator.levelText
  rw [congrFun hlabels m.level, hlookup]
  rfl

/-- A success is printed as information. -/
example : (standardLevels.filter fun t => t.1 = 0x100).getLast? = some (0x100, "INFO") := by
  decide +kernel

end LabelStore

end GreaseLog
