import GreaseLog.LogTarget
import GreaseLog.KHashTable
import GreaseLog.Run

/-!
# Starting targets

A target is made by a call of the program and becomes ready when what it writes
to is open: at once for a terminal or a callback, on the event loop for a file.
Ready targets go into the table of targets or become the default target, and the
call is answered through its callback.
-/

namespace GreaseLog

/-- `actionCB`: the functions the library passes for it. -/
inductive TargetAction where
  | startLoggerCB
  | addTargetActionCB
  deriving DecidableEq

/-- `target_start_info`; of `targetStartCB`, whether there is one. -/
structure TargetStartInfo where
  cb : Option TargetAction
  targetStartCB : Bool
  optsId : ℤ
  targId : TargetId

/-- A target with its `readyData`.  `object` is not in the source: it numbers
the targets in the order of their construction. -/
structure StartedTarget where
  object : ℕ
  myId : TargetId
  readyData : TargetStartInfo

/-- The fields of `GreaseLibTargetOpts` that decide what is made. -/
structure TargetOpts where
  tty : Bool
  file : Bool
  optsId : ℤ

/-- The arguments of a call of `targetStartCB`. -/
inductive StartReport where
  | loggerStarted
  | started (targId : TargetId) (optsId : ℤ)
  | failed (errno : ℤ)
  deriving DecidableEq

/-- The calls, and the event loop with the result of an open.  The terminal is
opened in the call: `none` or the error. -/
inductive StartAct where
  | start (libCB : Bool) (tty : Option ℤ)
  | addTarget (libCB : Bool) (opts : TargetOpts) (tty : Option ℤ)
  | modifyDefaultTarget (opts : TargetOpts) (tty : Option ℤ)
  | onOpen (i : ℕ) (result : Option ℤ)

/-- The fields of the logger.  The others are not in the source: targets that
wait for `on_open`, the numbers of deleted ones and of default targets that were
replaced, how the starts came out, the calls of `targetStartCB` with the target
each is about, the targets whose call has a callback with the `optsId` of the
call, and how often `addTarget` was called. -/
structure TargetStarts where
  nextTargetId : TargetId
  targets : TwMap TargetId StartedTarget
  defaultTarget : Option StartedTarget
  opening : List StartedTarget
  deleted : List ℕ
  replaced : List ℕ
  outcomes : List (ℕ × Option ℤ)
  reports : List (ℕ × StartReport)
  asked : List (ℕ × ℤ)
  made : ℕ
  added : ℕ

namespace StartedTarget

/-- Somebody waits for the answer. -/
def asks (t : StartedTarget) : Bool := t.readyData.cb.isSome && t.readyData.targetStartCB

/-- `info->cb(t->owner,err,info)`: `start_logger_cb` starts anyway,
`addTarget_actionCB` passes the error or the id. -/
def report (t : StartedTarget) (err : Option ℤ) : Option StartReport :=
  match t.readyData.cb with
  | none => none
  | some .startLoggerCB =>
      if t.readyData.targetStartCB then some .loggerStarted else none
  | some .addTargetActionCB =>
      if t.readyData.targetStartCB then
        match err with
        | some errno => some (.failed errno)
        | none => some (.started t.readyData.targId t.readyData.optsId)
      else none

theorem isSome_report (t : StartedTarget) (err : Option ℤ) :
    (t.report err).isSome = t.asks := by
  unfold report asks
  cases t.readyData.cb with
  | none => rfl
  | some action =>
      cases action <;> cases t.readyData.targetStartCB <;> cases err <;> rfl

theorem report_eq_started {t : StartedTarget} {err : Option ℤ} {id : TargetId}
    {optsId : ℤ} (h : t.report err = some (.started id optsId)) :
    err = none ∧ t.readyData.cb = some .addTargetActionCB ∧
      t.readyData.targId = id ∧ t.readyData.optsId = optsId := by
  unfold report at h
  cases hcb : t.readyData.cb with
  | none => simp [hcb] at h
  | some action =>
      cases action with
      | startLoggerCB => simp [hcb] at h
      | addTargetActionCB =>
          cases err with
          | some errno => simp [hcb] at h
          | none =>
              simp only [hcb, Option.ite_none_right_eq_some, Option.some.injEq,
                StartReport.started.injEq] at h
              exact ⟨rfl, rfl, h.2⟩

theorem report_eq_failed {t : StartedTarget} {err : Option ℤ} {errno : ℤ}
    (h : t.report err = some (.failed errno)) : err = some errno := by
  unfold report at h
  cases hcb : t.readyData.cb with
  | none => simp [hcb] at h
  | some action =>
      cases action with
      | startLoggerCB => simp [hcb] at h
      | addTargetActionCB =>
          cases err with
          | none => simp [hcb] at h
          | some other => simp_all

end StartedTarget

namespace TargetStarts

def new : TargetStarts where
  nextTargetId := 1
  targets := ∅
  defaultTarget := none
  opening := []
  deleted := []
  replaced := []
  outcomes := []
  reports := []
  asked := []
  made := 0
  added := 0

def callAction (s : TargetStarts) (err : Option ℤ) (t : StartedTarget) : TargetStarts :=
  { s with reports := s.reports ++ (t.report err).toList.map (t.object, ·) }

def targetReady (s : TargetStarts) (err : Option ℤ) (t : StartedTarget) :
    TargetStarts :=
  let t : StartedTarget := { t with readyData := { t.readyData with targId := t.myId } }
  match err with
  | none =>
      if t.myId = 0 then
        { s with
          defaultTarget := some t
          replaced := s.replaced ++ s.defaultTarget.toList.map StartedTarget.object
        }.callAction none t
      else { s with targets := s.targets.insert t.myId t }.callAction none t
  | some errno =>
      let t : StartedTarget := { t with readyData := { t.readyData with targId := 0 } }
      { s with deleted := s.deleted ++ [t.object] }.callAction (some errno) t

/-- A target calls `readyCB`, which is `targetReady`. -/
def readyCB (s : TargetStarts) (err : Option ℤ) (t : StartedTarget) : TargetStarts :=
  { s with outcomes := s.outcomes ++ [(t.object, err)] }.targetReady err t

/-- A new target with its number. -/
def make (s : TargetStarts) (myId : TargetId) (info : TargetStartInfo) :
    StartedTarget × TargetStarts :=
  let t : StartedTarget := { object := s.made, myId := myId, readyData := info }
  (t, { s with
    made := s.made + 1
    asked := if t.asks then s.asked ++ [(s.made, info.optsId)] else s.asked })

def ttyTarget (s : TargetStarts) (myId : TargetId) (info : TargetStartInfo)
    (tty : Option ℤ) : TargetStarts :=
  (s.make myId info).2.readyCB tty (s.make myId info).1

/-- The path is there, so `post_cstor` asks for the file to be opened. -/
def fileTarget (s : TargetStarts) (myId : TargetId) (info : TargetStartInfo) :
    TargetStarts :=
  { (s.make myId info).2 with
    opening := (s.make myId info).2.opening ++ [(s.make myId info).1] }

def callbackTarget (s : TargetStarts) (myId : TargetId) (info : TargetStartInfo) :
    TargetStarts :=
  (s.make myId info).2.readyCB none (s.make myId info).1

/-- `GreaseLogger::start` with `setupDefaultTarget`; `optsId` is not set. -/
def start (s : TargetStarts) (libCB : Bool) (tty : Option ℤ) : TargetStarts :=
  s.ttyTarget 0
    { cb := some .startLoggerCB, targetStartCB := libCB, optsId := 0, targId := 0 } tty

def addTarget (s : TargetStarts) (libCB : Bool) (opts : TargetOpts)
    (tty : Option ℤ) : TargetStarts :=
  let id := s.nextTargetId
  let info : TargetStartInfo :=
    { cb := some .addTargetActionCB, targetStartCB := libCB, optsId := opts.optsId,
      targId := id }
  let s := { s with nextTargetId := s.nextTargetId + 1, added := s.added + 1 }
  if opts.tty then s.ttyTarget id info tty
  else if opts.file then s.fileTarget id info
  else s.callbackTarget id info

/-- Without a terminal or a file the target that is there is changed. -/
def modifyDefaultTarget (s : TargetStarts) (opts : TargetOpts) (tty : Option ℤ) :
    TargetStarts :=
  let info : TargetStartInfo :=
    { cb := none, targetStartCB := false, optsId := 0, targId := 0 }
  if opts.tty then s.ttyTarget 0 info tty
  else if opts.file then s.fileTarget 0 info
  else s

/-- `on_open` for one of the files. -/
def onOpen (s : TargetStarts) (i : ℕ) (result : Option ℤ) : TargetStarts :=
  match s.opening[i]? with
  | some t => { s with opening := s.opening.eraseIdx i }.readyCB result t
  | none => s

def step (s : TargetStarts) : StartAct → TargetStarts
  | .start libCB tty => s.start libCB tty
  | .addTarget libCB opts tty => s.addTarget libCB opts tty
  | .modifyDefaultTarget opts tty => s.modifyDefaultTarget opts tty
  | .onOpen i result => s.onOpen i result

/-- The numbers of `addTarget` have not come round. -/
def Within (s : TargetStarts) : StartAct → Prop
  | .addTarget _ _ _ => s.added + 1 < 2 ^ 32
  | _ => True

/-! ## Where the targets are -/

/-- The targets the dispatch loops and the flush functions come to. -/
def reached (s : TargetStarts) : List StartedTarget :=
  s.defaultTarget.toList ++ s.targets.entries.map (·.2)

/-- The targets that are neither ready nor deleted are `pending`: those that
wait for the event loop, and one in the hands of a constructor. -/
structure Placed (s : TargetStarts) (pending : Multiset StartedTarget) : Prop where
  objects : pending.map (·.object) + (s.deleted ++ s.replaced : List ℕ) +
    (s.reached.map (·.object) : List ℕ) = Multiset.range s.made
  numbers : ((pending.map (·.myId)).filter (· ≠ 0) +
    (s.targets.keys : Multiset TargetId)).Nodup
  bound : ∀ id ∈ (pending.map (·.myId)).filter (· ≠ 0) +
    (s.targets.keys : Multiset TargetId), 0 < id.toNat ∧ id.toNat ≤ s.added
  added : s.added < 2 ^ 32
  next : s.nextTargetId = UInt32.ofNat (s.added + 1)

theorem Placed.callAction {s : TargetStarts} {pending : Multiset StartedTarget}
    (h : s.Placed pending) (err : Option ℤ) (t : StartedTarget) :
    (s.callAction err t).Placed pending := ⟨h.1, h.2, h.3, h.4, h.5⟩

section Numbers

variable {t : StartedTarget} (pending : Multiset StartedTarget)

theorem numbers_cons_default (hid : t.myId = 0) :
    ((t ::ₘ pending).map (·.myId)).filter (· ≠ 0) =
      (pending.map (·.myId)).filter (· ≠ 0) := by
  rw [Multiset.map_cons, Multiset.filter_cons_of_neg _ (fun hne => hne hid)]

theorem numbers_cons_added (hid : t.myId ≠ 0) :
    ((t ::ₘ pending).map (·.myId)).filter (· ≠ 0) =
      t.myId ::ₘ (pending.map (·.myId)).filter (· ≠ 0) := by
  rw [Multiset.map_cons]
  exact Multiset.filter_cons_of_pos (p := fun id => id ≠ 0) _ hid

end Numbers

theorem Placed.replace {s : TargetStarts} {pending : Multiset StartedTarget}
    {t : StartedTarget} (h : s.Placed (t ::ₘ pending)) (ready : StartedTarget)
    (hobject : ready.object = t.object) (hid : t.myId = 0) :
    { s with
      defaultTarget := some ready
      replaced := s.replaced ++ s.defaultTarget.toList.map StartedTarget.object
    }.Placed pending := by
  have hnumbers := numbers_cons_default pending hid
  refine ⟨?_, hnumbers ▸ h.numbers, hnumbers ▸ h.bound, h.added, h.next⟩
  rw [← h.objects, Multiset.map_cons]
  simp only [reached, Option.toList_some, List.singleton_append, List.map_cons,
    List.map_append, hobject, ← Multiset.cons_coe, ← Multiset.coe_add,
    ← Multiset.singleton_add]
  abel

/-- No other target has the number of a pending one. -/
theorem Placed.fresh {s : TargetStarts} {pending : Multiset StartedTarget}
    {t : StartedTarget} (h : s.Placed (t ::ₘ pending)) (hid : t.myId ≠ 0) :
    t.myId ∉ s.targets := by
  have hnodup := h.numbers
  rw [numbers_cons_added pending hid, Multiset.cons_add, Multiset.nodup_cons,
    Multiset.mem_add] at hnodup
  exact fun hmem => hnodup.1 (.inr hmem)

theorem Placed.enter {s : TargetStarts} {pending : Multiset StartedTarget}
    {t : StartedTarget} (h : s.Placed (t ::ₘ pending)) (ready : StartedTarget)
    (hobject : ready.object = t.object) (hid : t.myId ≠ 0) :
    { s with targets := s.targets.insert t.myId ready }.Placed pending := by
  have hnumbers := numbers_cons_added pending hid
  have hentries :=
    AList.entries_insert_of_notMem (s := s.targets) (b := ready) (h.fresh hid)
  have hkeys : (s.targets.insert t.myId ready).keys = t.myId :: s.targets.keys := by
    rw [AList.keys, hentries]
    rfl
  have hsum : (pending.map (·.myId)).filter (· ≠ 0) +
      ((s.targets.insert t.myId ready).keys : Multiset TargetId) =
      ((t ::ₘ pending).map (·.myId)).filter (· ≠ 0) +
        (s.targets.keys : Multiset TargetId) := by
    rw [hkeys, hnumbers, Multiset.cons_add, ← Multiset.cons_coe, Multiset.add_cons]
  refine ⟨?_, hsum ▸ h.numbers, hsum ▸ h.bound, h.added, h.next⟩
  rw [← h.objects, Multiset.map_cons]
  simp only [reached, hentries, List.map_append, List.map_cons, hobject,
    ← Multiset.cons_coe, ← Multiset.coe_add, ← Multiset.singleton_add]
  abel

theorem Placed.delete {s : TargetStarts} {pending : Multiset StartedTarget}
    {t : StartedTarget} (h : s.Placed (t ::ₘ pending)) :
    { s with deleted := s.deleted ++ [t.object] }.Placed pending := by
  have hle : (pending.map (·.myId)).filter (· ≠ 0) +
      (s.targets.keys : Multiset TargetId) ≤
      ((t ::ₘ pending).map (·.myId)).filter (· ≠ 0) +
        (s.targets.keys : Multiset TargetId) := by
    refine add_le_add (Multiset.filter_le_filter _ ?_) le_rfl
    rw [Multiset.map_cons]
    exact Multiset.le_cons_self _ _
  refine ⟨?_, Multiset.nodup_of_le hle h.numbers,
    fun id hid => h.bound id (Multiset.mem_of_le hle hid), h.added, h.next⟩
  rw [← h.objects, Multiset.map_cons]
  simp only [reached, List.map_append, ← Multiset.coe_add, ← Multiset.singleton_add,
    Multiset.coe_singleton]
  abel

theorem Placed.readyCB {s : TargetStarts} {pending : Multiset StartedTarget}
    {t : StartedTarget} (h : s.Placed (t ::ₘ pending)) (err : Option ℤ) :
    (s.readyCB err t).Placed pending := by
  have hs : { s with outcomes := s.outcomes ++ [(t.object, err)] }.Placed
      (t ::ₘ pending) := ⟨h.1, h.2, h.3, h.4, h.5⟩
  unfold TargetStarts.readyCB targetReady
  cases err with
  | none =>
      dsimp only
      split_ifs with hid
      · apply Placed.callAction
        exact hs.replace _ rfl hid
      · apply Placed.callAction
        exact hs.enter _ rfl hid
  | some errno =>
      apply Placed.callAction
      exact hs.delete

theorem Placed.make_objects {s : TargetStarts} {pending : Multiset StartedTarget}
    (h : s.Placed pending) (myId : TargetId) (info : TargetStartInfo) :
    ((s.make myId info).1 ::ₘ pending).map (·.object) +
        (s.deleted ++ s.replaced : List ℕ) + (s.reached.map (·.object) : List ℕ) =
      Multiset.range (s.made + 1) := by
  rw [Multiset.range_succ, ← h.objects, Multiset.map_cons, Multiset.cons_add,
    Multiset.cons_add]
  rfl

/-- A default target has the number `0`. -/
theorem Placed.make {s : TargetStarts} {pending : Multiset StartedTarget}
    (h : s.Placed pending) (info : TargetStartInfo) :
    (s.make 0 info).2.Placed ((s.make 0 info).1 ::ₘ pending) := by
  have hnumbers : (((s.make 0 info).1 ::ₘ pending).map (·.myId)).filter (· ≠ 0) =
      (pending.map (·.myId)).filter (· ≠ 0) := numbers_cons_default pending rfl
  exact ⟨h.make_objects 0 info, hnumbers ▸ h.numbers, hnumbers ▸ h.bound, h.added,
    h.next⟩

theorem Placed.toNat_next {s : TargetStarts} {pending : Multiset StartedTarget}
    (h : s.Placed pending) (hadded : s.added + 1 < 2 ^ 32) :
    s.nextTargetId.toNat = s.added + 1 := by
  rw [h.next, UInt32.toNat_ofNat', Nat.mod_eq_of_lt hadded]

theorem Placed.next_ne_zero {s : TargetStarts} {pending : Multiset StartedTarget}
    (h : s.Placed pending) (hadded : s.added + 1 < 2 ^ 32) : s.nextTargetId ≠ 0 := by
  intro heq
  have hid := h.toNat_next hadded
  rw [heq] at hid
  exact absurd hid (Nat.succ_ne_zero _).symm

/-- `addTarget` takes the next number, which no target has. -/
theorem Placed.number {s : TargetStarts} {pending : Multiset StartedTarget}
    (h : s.Placed pending) (hadded : s.added + 1 < 2 ^ 32) (info : TargetStartInfo) :
    ({ s with nextTargetId := s.nextTargetId + 1, added := s.added + 1 }.make
        s.nextTargetId info).2.Placed ((s.make s.nextTargetId info).1 ::ₘ pending) := by
  have hid := h.toNat_next hadded
  have hnumbers : (((s.make s.nextTargetId info).1 ::ₘ pending).map
      (·.myId)).filter (· ≠ 0) =
        s.nextTargetId ::ₘ (pending.map (·.myId)).filter (· ≠ 0) :=
    numbers_cons_added pending (h.next_ne_zero hadded)
  refine ⟨h.make_objects s.nextTargetId info, ?_, ?_, hadded, ?_⟩
  · rw [hnumbers, Multiset.cons_add]
    refine Multiset.nodup_cons.mpr ⟨fun hmem => ?_, h.numbers⟩
    have hle := (h.bound _ hmem).2
    omega
  · intro id hmem
    rw [hnumbers, Multiset.cons_add] at hmem
    change 0 < id.toNat ∧ id.toNat ≤ s.added + 1
    rcases Multiset.mem_cons.mp hmem with rfl | hmem
    · omega
    · have hbound := h.bound id hmem
      omega
  · change s.nextTargetId + 1 = UInt32.ofNat (s.added + 1 + 1)
    rw [h.next, UInt32.ofNat_add (s.added + 1) 1]
    rfl

/-! ## The answers -/

/-- The targets somebody waits for. -/
def asking (pending : Multiset StartedTarget) : Multiset ℕ :=
  (pending.filter fun t => t.asks).map (·.object)

theorem asking_cons (t : StartedTarget) (pending : Multiset StartedTarget) :
    asking (t ::ₘ pending) = (if t.asks then {t.object} else 0) + asking pending := by
  unfold asking
  rw [Multiset.filter_cons, Multiset.map_add]
  split_ifs <;> rfl

structure Answered (s : TargetStarts) (pending : Multiset StartedTarget) : Prop where
  once : (s.reports.map (·.1) : Multiset ℕ) + asking pending =
    (s.asked.map (·.1) : List ℕ)
  asked : (s.asked.map (·.1)).Sublist (List.range s.made)
  pending : ∀ t ∈ pending, (t.asks → (t.object, t.readyData.optsId) ∈ s.asked) ∧
    (t.readyData.cb = some .addTargetActionCB → t.myId ≠ 0)
  started : ∀ n id optsId, (n, .started id optsId) ∈ s.reports →
    (n, optsId) ∈ s.asked ∧ id ≠ 0 ∧
      ∃ t, s.targets.lookup id = some t ∧ t.object = n
  failed : ∀ n errno, (n, .failed errno) ∈ s.reports → (n, some errno) ∈ s.outcomes
  gone : ∀ n errno, (n, some errno) ∈ s.outcomes → n ∈ s.deleted

/-- The answer of a target that has become ready or was deleted. -/
theorem Answered.callAction {s : TargetStarts} {pending : Multiset StartedTarget}
    {t : StartedTarget} (h : s.Answered (t ::ₘ pending)) {err : Option ℤ}
    {ready : StartedTarget} (hobject : ready.object = t.object)
    (hasks : ready.asks = t.asks)
    (hstarted : ∀ id optsId, ready.report err = some (.started id optsId) →
      optsId = t.readyData.optsId ∧ id ≠ 0 ∧
        ∃ t', s.targets.lookup id = some t' ∧ t'.object = t.object)
    (hfailed : ∀ errno, ready.report err = some (.failed errno) →
      (t.object, some errno) ∈ s.outcomes) :
    (s.callAction err ready).Answered pending := by
  have hreport := ready.isSome_report err
  rw [hasks] at hreport
  -- the new report, if there is one, is about `t`
  have hnew : ∀ {n answer},
      (n, answer) ∈ (ready.report err).toList.map (ready.object, ·) →
        ready.report err = some answer ∧ n = t.object := by
    intro n answer hmem
    rcases List.mem_map.mp hmem with ⟨other, hother, heq⟩
    cases heq
    exact ⟨Option.mem_toList.mp hother, hobject⟩
  refine ⟨?_, h.asked, fun u hu => h.pending u (Multiset.mem_cons_of_mem hu), ?_, ?_,
    h.gone⟩
  · refine Eq.trans ?_ h.once
    rw [asking_cons, ← hreport]
    simp only [TargetStarts.callAction, List.map_append]
    cases ready.report err with
    | none => simp
    | some answer =>
        simp only [Option.toList_some, List.map_cons, List.map_nil, hobject,
          Option.isSome_some, if_true, ← Multiset.coe_add, Multiset.coe_singleton]
        abel
  · intro n id optsId hmem
    rcases List.mem_append.mp hmem with hmem | hmem
    · exact h.started n id optsId hmem
    · rcases hnew hmem with ⟨hcase, rfl⟩
      rcases hstarted id optsId hcase with ⟨rfl, hid, hlookup⟩
      rw [hcase] at hreport
      exact ⟨(h.pending t (Multiset.mem_cons_self t pending)).1 hreport.symm, hid,
        hlookup⟩
  · intro n errno hmem
    rcases List.mem_append.mp hmem with hmem | hmem
    · exact h.failed n errno hmem
    · rcases hnew hmem with ⟨hcase, rfl⟩
      exact hfailed errno hcase

/-- A fresh entry of the table leaves the others alone. -/
theorem Answered.enter {s : TargetStarts} {pending : Multiset StartedTarget}
    (h : s.Answered pending) {id : TargetId} (hid : id ∉ s.targets)
    (ready : StartedTarget) :
    { s with targets := s.targets.insert id ready }.Answered pending := by
  refine ⟨h.once, h.asked, h.pending, fun n other optsId hmem => ?_, h.failed, h.gone⟩
  rcases h.started n other optsId hmem with ⟨hasked, hother, t, hlookup, ht⟩
  refine ⟨hasked, hother, t, ?_, ht⟩
  have hne : other ≠ id := by
    rintro rfl
    rw [AList.lookup_eq_none.mpr hid] at hlookup
    cases hlookup
  change (s.targets.insert id ready).lookup other = some t
  rw [AList.lookup_insert_ne hne, hlookup]

theorem Answered.readyCB {s : TargetStarts} {pending : Multiset StartedTarget}
    {t : StartedTarget} (h : s.Answered (t ::ₘ pending))
    (hplaced : s.Placed (t ::ₘ pending)) (err : Option ℤ) :
    (s.readyCB err t).Answered pending := by
  have ht := (h.pending t (Multiset.mem_cons_self t pending)).2
  have houtcomes : ∀ n errno, (n, .failed errno) ∈ s.reports →
      (n, some errno) ∈ s.outcomes ++ [(t.object, err)] :=
    fun n errno hmem => List.mem_append_left _ (h.failed n errno hmem)
  unfold TargetStarts.readyCB targetReady
  cases err with
  | none =>
      have hgone : ∀ n errno, (n, some errno) ∈ s.outcomes ++ [(t.object, none)] →
          n ∈ s.deleted := by
        intro n errno hmem
        exact h.gone n errno (by simpa using hmem)
      dsimp only
      split_ifs with hid
      · have hs : { s with
            outcomes := s.outcomes ++ [(t.object, none)]
            defaultTarget := some { t with
              readyData := { t.readyData with targId := t.myId } }
            replaced := s.replaced ++ s.defaultTarget.toList.map StartedTarget.object
          }.Answered (t ::ₘ pending) := ⟨h.1, h.2, h.3, h.4, houtcomes, hgone⟩
        apply hs.callAction
        · rfl
        · rfl
        · intro id optsId hcase
          exact absurd hid (ht (StartedTarget.report_eq_started hcase).2.1)
        · intro errno hcase
          cases StartedTarget.report_eq_failed hcase
      · have hs : { s with outcomes := s.outcomes ++ [(t.object, none)] }.Answered
            (t ::ₘ pending) := ⟨h.1, h.2, h.3, h.4, houtcomes, hgone⟩
        apply (hs.enter (hplaced.fresh hid) _).callAction
        · rfl
        · rfl
        · intro id optsId hcase
          rcases StartedTarget.report_eq_started hcase with ⟨-, -, rfl, rfl⟩
          exact ⟨rfl, hid, _, AList.lookup_insert s.targets, rfl⟩
        · intro errno hcase
          cases StartedTarget.report_eq_failed hcase
  | some errno =>
      have hgone : ∀ n other,
          (n, some other) ∈ s.outcomes ++ [(t.object, some errno)] →
            n ∈ s.deleted ++ [t.object] := by
        intro n other hmem
        rcases List.mem_append.mp hmem with hold | hnew
        · exact List.mem_append_left _ (h.gone n other hold)
        · cases List.mem_singleton.mp hnew
          exact List.mem_append_right _ (List.mem_singleton_self _)
      have hs : { s with
          outcomes := s.outcomes ++ [(t.object, some errno)]
          deleted := s.deleted ++ [t.object] }.Answered (t ::ₘ pending) :=
        ⟨h.1, h.2, h.3, h.4, houtcomes, hgone⟩
      apply hs.callAction
      · rfl
      · rfl
      · intro id optsId hcase
        cases (StartedTarget.report_eq_started hcase).1
      · intro other hcase
        rw [StartedTarget.report_eq_failed hcase]
        exact List.mem_append_right _ (List.mem_singleton_self _)

theorem Answered.make {s : TargetStarts} {pending : Multiset StartedTarget}
    (h : s.Answered pending) {myId : TargetId} {info : TargetStartInfo}
    (hid : info.cb = some .addTargetActionCB → myId ≠ 0) :
    (s.make myId info).2.Answered ((s.make myId info).1 ::ₘ pending) := by
  -- the list of questions as one list with at most one more
  have hasked : (s.make myId info).2.asked =
      s.asked ++ if (s.make myId info).1.asks then [(s.made, info.optsId)] else [] := by
    change (if (s.make myId info).1.asks then s.asked ++ [(s.made, info.optsId)]
      else s.asked) = _
    split_ifs
    · rfl
    · exact (List.append_nil _).symm
  refine ⟨?_, ?_, fun u hu => ?_, fun n id optsId hmem => ?_, h.failed, h.gone⟩
  · rw [hasked, List.map_append, ← Multiset.coe_add, ← h.once]
    change (s.reports.map (·.1) : Multiset ℕ) + _ = _
    rw [asking_cons, add_assoc, add_comm (asking pending)]
    split_ifs <;> rfl
  · rw [hasked, List.map_append]
    change List.Sublist _ (List.range (s.made + 1))
    rw [List.range_succ]
    refine List.Sublist.append h.asked ?_
    split_ifs
    · exact List.Sublist.refl _
    · exact List.nil_sublist _
  · rw [hasked]
    rcases Multiset.mem_cons.mp hu with rfl | hu
    · refine ⟨fun hasks => ?_, hid⟩
      rw [if_pos hasks]
      exact List.mem_append_right _ (List.mem_singleton_self _)
    · have hold := h.pending u hu
      exact ⟨fun hasks => List.mem_append_left _ (hold.1 hasks), hold.2⟩
  · have hold := h.started n id optsId hmem
    rw [hasked]
    exact ⟨List.mem_append_left _ hold.1, hold.2⟩

/-! ## Steps -/

/-- What a run does to the places. -/
structure Moves (s s' : TargetStarts) : Prop where
  deleted : s.deleted ⊆ s'.deleted
  replaced : s.replaced ⊆ s'.replaced
  reached : ∀ t ∈ s.reached, t ∈ s'.reached ∨ t.object ∈ s'.replaced

theorem Moves.refl (s : TargetStarts) : s.Moves s :=
  ⟨List.Subset.refl _, List.Subset.refl _, fun _ ht => .inl ht⟩

theorem Moves.trans {s s' s'' : TargetStarts} (h : s.Moves s') (h' : s'.Moves s'') :
    s.Moves s'' := by
  refine ⟨List.Subset.trans h.deleted h'.deleted,
    List.Subset.trans h.replaced h'.replaced, fun t ht => ?_⟩
  rcases h.reached t ht with ht | ht
  · exact h'.reached t ht
  · exact .inr (h'.replaced ht)

theorem moves_readyCB {s : TargetStarts} {pending : Multiset StartedTarget}
    {t : StartedTarget} (h : s.Placed (t ::ₘ pending)) (err : Option ℤ) :
    s.Moves (s.readyCB err t) := by
  unfold readyCB targetReady
  cases err with
  | none =>
      dsimp only
      split_ifs with hid
      · refine ⟨List.Subset.refl _, List.subset_append_left _ _, fun u hu => ?_⟩
        rcases List.mem_append.mp hu with hu | hu
        · right
          exact List.mem_append_right _ (List.mem_map_of_mem hu)
        · left
          exact List.mem_append_right _ hu
      · refine ⟨List.Subset.refl _, List.Subset.refl _, fun u hu => ?_⟩
        left
        change u ∈ s.defaultTarget.toList ++ (s.targets.insert _ _).entries.map (·.2)
        rw [AList.entries_insert_of_notMem (h.fresh hid)]
        rcases List.mem_append.mp hu with hu | hu
        · exact List.mem_append_left _ hu
        · exact List.mem_append_right _ (List.mem_cons_of_mem _ hu)
  | some errno =>
      exact ⟨List.subset_append_left _ _, List.Subset.refl _, fun u hu => .inl hu⟩

/-- Between two steps the pending targets are those that wait for the loop. -/
structure Orderly (s : TargetStarts) : Prop where
  placed : s.Placed s.opening
  answered : s.Answered s.opening

/-- A step has come from `s` to `s'`, with `t` in its hands. -/
structure Holds (s s' : TargetStarts) (t : StartedTarget) : Prop where
  placed : s'.Placed (t ::ₘ s'.opening)
  answered : s'.Answered (t ::ₘ s'.opening)
  moves : s.Moves s'

/-- The target becomes ready or fails, or begins to wait for its file. -/
def Proceeds (s s' : TargetStarts) : Prop :=
  s' = s ∨ ∃ held t, s.Holds held t ∧
    ((∃ err, s' = held.readyCB err t) ∨
      s' = { held with opening := held.opening ++ [t] })

theorem Orderly.holds_default {s : TargetStarts} (h : s.Orderly)
    (info : TargetStartInfo) (hcb : info.cb ≠ some .addTargetActionCB) :
    s.Holds (s.make 0 info).2 (s.make 0 info).1 where
  placed := h.placed.make info
  answered := h.answered.make fun hadd => absurd hadd hcb
  moves := ⟨List.Subset.refl _, List.Subset.refl _, fun _ ht => .inl ht⟩

theorem Orderly.holds_added {s : TargetStarts} (h : s.Orderly)
    (hadded : s.added + 1 < 2 ^ 32) (info : TargetStartInfo) :
    s.Holds ({ s with nextTargetId := s.nextTargetId + 1, added := s.added + 1 }.make
      s.nextTargetId info).2 (s.make s.nextTargetId info).1 where
  placed := h.placed.number hadded info
  answered := by
    have hcounted : { s with nextTargetId := s.nextTargetId + 1, added := s.added + 1
        }.Answered s.opening :=
      ⟨h.answered.1, h.answered.2, h.answered.3, h.answered.4, h.answered.5,
        h.answered.6⟩
    exact hcounted.make fun _ => h.placed.next_ne_zero hadded
  moves := ⟨List.Subset.refl _, List.Subset.refl _, fun _ ht => .inl ht⟩

theorem Orderly.holds_opening {s : TargetStarts} (h : s.Orderly) {i : ℕ}
    {t : StartedTarget} (hi : s.opening[i]? = some t) :
    s.Holds { s with opening := s.opening.eraseIdx i } t := by
  rcases List.getElem?_eq_some_iff.mp hi with ⟨hlt, rfl⟩
  have hopening : (s.opening : Multiset StartedTarget) =
      s.opening[i] ::ₘ (s.opening.eraseIdx i : List StartedTarget) :=
    Multiset.coe_eq_coe.mpr (List.getElem_cons_eraseIdx_perm hlt).symm
  have hplaced := h.placed
  have hanswered := h.answered
  rw [hopening] at hplaced hanswered
  exact ⟨⟨hplaced.1, hplaced.2, hplaced.3, hplaced.4, hplaced.5⟩,
    ⟨hanswered.1, hanswered.2, hanswered.3, hanswered.4, hanswered.5, hanswered.6⟩,
    ⟨List.Subset.refl _, List.Subset.refl _, fun _ ht => .inl ht⟩⟩

theorem Orderly.proceeds {s : TargetStarts} {a : StartAct} (h : s.Orderly)
    (ha : s.Within a) : s.Proceeds (s.step a) := by
  cases a with
  | start libCB tty =>
      right
      refine ⟨_, _, h.holds_default _ ?_, .inl ⟨tty, rfl⟩⟩
      intro heq
      cases heq
  | addTarget libCB opts tty =>
      right
      refine ⟨_, _, h.holds_added ha
        { cb := some .addTargetActionCB, targetStartCB := libCB, optsId := opts.optsId,
          targId := s.nextTargetId }, ?_⟩
      change (∃ err, s.addTarget libCB opts tty = _) ∨ s.addTarget libCB opts tty = _
      unfold addTarget
      dsimp only
      split_ifs
      · exact .inl ⟨tty, rfl⟩
      · exact .inr rfl
      · exact .inl ⟨none, rfl⟩
  | modifyDefaultTarget opts tty =>
      have hholds := h.holds_default
        { cb := none, targetStartCB := false, optsId := 0, targId := 0 }
        (by intro heq; cases heq)
      change s.Proceeds (s.modifyDefaultTarget opts tty)
      unfold modifyDefaultTarget
      dsimp only
      split_ifs
      · exact .inr ⟨_, _, hholds, .inl ⟨tty, rfl⟩⟩
      · exact .inr ⟨_, _, hholds, .inr rfl⟩
      · exact .inl rfl
  | onOpen i result =>
      change s.Proceeds (s.onOpen i result)
      unfold onOpen
      cases hi : s.opening[i]? with
      | none => exact .inl rfl
      | some t => exact .inr ⟨_, _, h.holds_opening hi, .inl ⟨result, rfl⟩⟩

@[simp] theorem readyCB_opening (s : TargetStarts) (err : Option ℤ)
    (t : StartedTarget) : (s.readyCB err t).opening = s.opening := by
  unfold readyCB targetReady
  cases err with
  | none =>
      dsimp only
      split_ifs <;> rfl
  | some errno => rfl

theorem Orderly.step {s : TargetStarts} {a : StartAct} (h : s.Orderly)
    (ha : s.Within a) : (s.step a).Orderly := by
  rcases h.proceeds ha with heq | ⟨held, t, hholds, ⟨err, heq⟩ | heq⟩
  · rw [heq]
    exact h
  · rw [heq]
    refine ⟨?_, ?_⟩ <;> rw [readyCB_opening]
    · exact hholds.placed.readyCB err
    · exact hholds.answered.readyCB hholds.placed err
  · have hopening : ((held.opening ++ [t] : List StartedTarget) :
        Multiset StartedTarget) = t ::ₘ held.opening := by
      rw [← Multiset.coe_add, Multiset.coe_singleton, add_comm, Multiset.singleton_add]
    rw [heq]
    refine ⟨?_, ?_⟩ <;> dsimp only <;> rw [hopening]
    · exact ⟨hholds.placed.1, hholds.placed.2, hholds.placed.3, hholds.placed.4,
        hholds.placed.5⟩
    · exact ⟨hholds.answered.1, hholds.answered.2, hholds.answered.3,
        hholds.answered.4, hholds.answered.5, hholds.answered.6⟩

theorem Orderly.moves {s : TargetStarts} {a : StartAct} (h : s.Orderly)
    (ha : s.Within a) : s.Moves (s.step a) := by
  rcases h.proceeds ha with heq | ⟨held, t, hholds, ⟨err, heq⟩ | heq⟩
  · rw [heq]
    exact Moves.refl s
  · rw [heq]
    exact hholds.moves.trans (moves_readyCB hholds.placed err)
  · rw [heq]
    exact ⟨hholds.moves.1, hholds.moves.2, hholds.moves.3⟩

/-! ## Runs -/

end TargetStarts

end GreaseLog
