import GreaseLog.PoolSystem
import Mathlib.Data.Multiset.Range

/-!
# No pool entry is lost, and none carries anything over

The logger starts with a fixed number of entries.  Each of them waits in
`masterBufferAvail`, is part of a `NEW_LOG` command on the queue, is held by a
caller, or is worked on by the thread.  As with banks, the places are counted
with multiplicity.  Entries in the pool are clean, so that the metadata of an
entry in use is the metadata of the message it was last filled for.
-/

namespace GreaseLog

/-! ## Metadata of a filled entry -/

/-- The two are the same to the filters and to the dispatch. -/
structure ExtraLogMeta.SameMeta (e e' : ExtraLogMeta) : Prop where
  m : e'.m = e.m
  ignores : e'.ignores = e.ignores

/-- Without the extras flag the ignore list does not count. -/
theorem ExtraLogMeta.sameMeta_of_m
    {e e' : ExtraLogMeta} (hm : e'.m = e.m) (hextras : e.m.extras = 0) :
    e.SameMeta e' := by
  refine ⟨hm, ?_⟩
  funext id
  simp [ignores, LogMeta.hasIgnores, hm, hextras]

structure SingleLog.Clean (l : SingleLog) : Prop where
  used : l.buf.used = 0
  m : l.logMeta.m = noMetaData

theorem SingleLog.clean_clear (l : SingleLog) : l.clear.Clean := ⟨rfl, rfl⟩

theorem SingleLog.clean_new (slot : Option ℕ) (len : ℕ) :
    (SingleLog.new slot len).Clean := ⟨rfl, rfl⟩

namespace KlogCursor

/-- The parser is at the same point, over entries with the same metadata. -/
structure Alike (c c' : KlogCursor) : Prop where
  mem : c'.mem = c.mem
  state : c'.state = c.state
  look : c'.look = c.look
  cap : c'.cap = c.cap
  m : c'.entry.logMeta.m = c.entry.logMeta.m

variable {c c' : KlogCursor}

theorem Alike.ite
    {d d' : KlogCursor} {p p' : Prop} [Decidable p] [Decidable p']
    (hp : p ↔ p') (h : c.Alike c') (h' : d.Alike d') :
    (if p then c else d).Alike (if p' then c' else d') := by
  by_cases hcond : p
  · rw [if_pos hcond, if_pos (hp.mp hcond)]
    exact h
  · rw [if_neg hcond, if_neg (fun hcond' => hcond (hp.mpr hcond'))]
    exact h'

theorem Alike.setLevel (h : c.Alike c') (level : LevelMask) :
    (c.setLevel level).Alike (c'.setLevel level) :=
  ⟨h.mem, h.state, h.look, h.cap, by simp [KlogCursor.setLevel, h.m]⟩

theorem Alike.toState (h : c.Alike c') (state : KlogParseState) :
    Alike { c with state := state } { c' with state := state } :=
  ⟨h.mem, rfl, h.look, h.cap, h.m⟩

theorem Alike.levelEnd (h : c.Alike c') : c.levelEnd.Alike c'.levelEnd := by
  rcases c with ⟨mem, state, look, cap, entry⟩
  rcases c' with ⟨mem', state', look', cap', entry'⟩
  rcases h with ⟨rfl, rfl, rfl, rfl, hm⟩
  have hterminated : Alike ⟨mem'.set look' 0, state', look', cap', entry⟩
      ⟨mem'.set look' 0, state', look', cap', entry'⟩ :=
    ⟨rfl, rfl, rfl, rfl, hm⟩
  cases cap' with
  | none => exact hterminated.toState .invalid
  | some cap =>
      exact Alike.ite Iff.rfl
        (Alike.ite Iff.rfl (hterminated.toState .contBodyBegin)
          (Alike.ite Iff.rfl
            ((hterminated.setLevel _).toState .timeStampBegin)
            (Alike.ite Iff.rfl
              ((hterminated.setLevel _).toState .timeStampBegin)
              (hterminated.toState .invalid))))
        (hterminated.toState .invalid)

theorem Alike.switch (h : c.Alike c') : c.switch.Alike c'.switch := by
  have hlevelEnd := h.levelEnd
  rcases c with ⟨mem, state, look, cap, entry⟩
  rcases c' with ⟨mem', state', look', cap', entry'⟩
  rcases h with ⟨rfl, rfl, rfl, rfl, hm⟩
  have hat : ∀ state cap, Alike ⟨mem', state, look', cap, entry⟩
      ⟨mem', state, look', cap, entry'⟩ :=
    fun _ _ => ⟨rfl, rfl, rfl, rfl, hm⟩
  cases state' with
  | levelBegin => exact Alike.ite Iff.rfl (hat _ _) (hat _ _)
  | inLevel => exact Alike.ite Iff.rfl hlevelEnd (hat _ _)
  | inTimeStamp =>
      exact Alike.ite Iff.rfl (hat _ _)
        (Alike.ite Iff.rfl (hat _ _) (hat _ _))
  | inBody => exact Alike.ite Iff.rfl (hat _ _) (hat _ _)
  | _ => exact hat _ _

theorem Alike.scan (h : c.Alike c') (remain : ℕ) :
    (scan remain c).1.Alike (scan remain c').1 ∧
      (scan remain c').2 = (scan remain c).2 := by
  induction remain generalizing c c' with
  | zero => exact ⟨h, rfl⟩
  | succ remain ih =>
      unfold KlogCursor.scan
      rw [h.state]
      split
      · exact ⟨h, rfl⟩
      · have hnext := h.switch
        exact ih ⟨hnext.mem, hnext.state, congrArg (· + 1) h.look, hnext.cap,
          hnext.m⟩

/-- Only the level changes while the record is read. -/
structure Keeps (l l' : SingleLog) : Prop where
  slot : l'.slot = l.slot
  extras : l'.logMeta.m.extras = l.logMeta.m.extras

theorem keeps_levelEnd (c : KlogCursor) : Keeps c.entry c.levelEnd.entry := by
  unfold KlogCursor.levelEnd
  dsimp only
  split
  · exact ⟨rfl, rfl⟩
  · split_ifs <;> exact ⟨rfl, rfl⟩

theorem keeps_switch (c : KlogCursor) : Keeps c.entry c.switch.entry := by
  have hlevelEnd := keeps_levelEnd c
  unfold KlogCursor.switch
  dsimp only
  split
  · split <;> exact ⟨rfl, rfl⟩
  · split
    · exact hlevelEnd
    · exact ⟨rfl, rfl⟩
  · exact ⟨rfl, rfl⟩
  · split_ifs <;> exact ⟨rfl, rfl⟩
  · exact ⟨rfl, rfl⟩
  · split <;> exact ⟨rfl, rfl⟩
  · exact ⟨rfl, rfl⟩

theorem keeps_scan (c : KlogCursor) (remain : ℕ) :
    Keeps c.entry (scan remain c).1.entry := by
  induction remain generalizing c with
  | zero => exact ⟨rfl, rfl⟩
  | succ remain ih =>
      unfold KlogCursor.scan
      split
      · exact ⟨rfl, rfl⟩
      · have hswitch := keeps_switch c
        have hrest := ih { c.switch with look := c.look + 1 }
        exact ⟨hrest.slot.trans hswitch.slot,
          hrest.extras.trans hswitch.extras⟩

end KlogCursor

theorem parseSingleKlog_entry
    (mem : List UInt8) (start remain : ℕ) (l : SingleLog) :
    (parseSingleKlogToSingleLog mem start remain .levelBegin l).entry.slot =
        l.slot ∧
      (parseSingleKlogToSingleLog mem start remain
        .levelBegin l).entry.logMeta.m.extras = l.logMeta.m.extras := by
  have hkeeps := KlogCursor.keeps_scan ⟨mem, .levelBegin, start, none, l⟩ remain
  unfold parseSingleKlogToSingleLog
  dsimp only
  split
  · split
    · split <;> exact ⟨hkeeps.slot, hkeeps.extras⟩
    · exact ⟨hkeeps.slot, hkeeps.extras⟩
  · exact ⟨hkeeps.slot, hkeeps.extras⟩

theorem parseSingleKlog_m
    (mem : List UInt8) (start remain : ℕ) {l l' : SingleLog}
    (hm : l'.logMeta.m = l.logMeta.m) :
    (parseSingleKlogToSingleLog mem start remain
        .levelBegin l').entry.logMeta.m =
      (parseSingleKlogToSingleLog mem start remain
        .levelBegin l).entry.logMeta.m := by
  have hstart : KlogCursor.Alike ⟨mem, .levelBegin, start, none, l⟩
      ⟨mem, .levelBegin, start, none, l'⟩ := ⟨rfl, rfl, rfl, rfl, hm⟩
  have hscan := (hstart.scan remain).1
  unfold parseSingleKlogToSingleLog
  dsimp only
  rw [hscan.state, hscan.cap, hscan.look]
  split
  · split
    · split <;> simp [KlogCursor.capture, hscan.m]
    · simp [hscan.m]
  · exact hscan.m

namespace PoolJob

theorem fill_slot (job : PoolJob) (l : SingleLog) :
    (job.fill l).slot = l.slot := by
  cases job with
  | log m following text => exact SingleLog.setMeta_slot _ m following
  | redirect r d data =>
      simp only [fill]
      split <;> rfl
  | klog mem start remain => exact (parseSingleKlog_entry mem start remain l).1

/-- The metadata of the message: what the caller writes into an entry fresh
from the constructor. -/
def message (job : PoolJob) : ExtraLogMeta :=
  (job.fill (SingleLog.new none 0)).logMeta

/-- A clean entry holds the metadata of the message and nothing else. -/
theorem fill_sameMeta
    (job : PoolJob) {l : SingleLog} (hclean : l.Clean) :
    job.message.SameMeta (job.fill l).logMeta := by
  have hfresh : l.logMeta.m = (SingleLog.new none 0).logMeta.m := hclean.m
  cases job with
  | log m following text =>
      refine ⟨?_, ?_⟩
      · simp [message, fill, Logger.fillMessage]
      · simp only [message, fill, Logger.fillMessage,
          SingleLog.setMeta_ignores]
  | redirect r d data =>
      apply ExtraLogMeta.sameMeta_of_m
      · simp only [message, fill]
        split
        · exact hfresh
        · simp [FdRedirectorTicket.fill, hfresh]
      · simp only [message, fill]
        split <;> rfl
  | klog mem start remain =>
      apply ExtraLogMeta.sameMeta_of_m
      · exact parseSingleKlog_m mem start remain hfresh
      · exact (parseSingleKlog_entry mem start remain _).2

end PoolJob

/-! ## Places -/

def entrySlots (entries : List SingleLog) : Multiset (Option ℕ) :=
  (entries.map SingleLog.slot : List (Option ℕ))

@[simp] theorem entrySlots_nil : entrySlots [] = 0 := rfl

@[simp] theorem entrySlots_cons (l : SingleLog) (entries : List SingleLog) :
    entrySlots (l :: entries) = {l.slot} + entrySlots entries := rfl

@[simp] theorem entrySlots_append (entries entries' : List SingleLog) :
    entrySlots (entries ++ entries') = entrySlots entries + entrySlots entries' := by
  simp [entrySlots]

theorem entrySlots_perm
    {entries entries' : List SingleLog} (hperm : entries.Perm entries') :
    entrySlots entries = entrySlots entries' :=
  Multiset.coe_eq_coe.mpr (hperm.map _)

theorem card_entrySlots (entries : List SingleLog) :
    (entrySlots entries).card = entries.length := by
  simp [entrySlots]

namespace Logger

def newLogs (s : Logger) : List SingleLog :=
  s.owner.internalCmdQueue.items.filterMap InternalCmdReq.newLog?

/-- Every entry is in one place; `out` are those neither in the pool nor on the
queue. -/
structure PoolHolds (out : Multiset (Option ℕ)) (s : Logger) : Prop where
  places : entrySlots s.masterBufferAvail.items + entrySlots s.newLogs + out =
    (Multiset.range primaryBufferEntries).map some
  capacity : s.masterBufferAvail.capacity = primaryBufferEntries
  notBlocked : s.poolBlocked = false
  clean : ∀ l ∈ s.masterBufferAvail.items, l.Clean

structure SamePool (s s' : Logger) : Prop where
  avail : s'.masterBufferAvail = s.masterBufferAvail
  poolBlocked : s'.poolBlocked = s.poolBlocked
  newLogs : s'.newLogs = s.newLogs
  nextSeq : s.nextSeq ≤ s'.nextSeq

variable {out : Multiset (Option ℕ)} {s s' : Logger} {l : SingleLog}

theorem SamePool.refl (s : Logger) : s.SamePool s := ⟨rfl, rfl, rfl, le_rfl⟩

theorem SamePool.trans {s'' : Logger}
    (h : s.SamePool s') (h' : s'.SamePool s'') : s.SamePool s'' :=
  ⟨h'.avail.trans h.avail, h'.poolBlocked.trans h.poolBlocked,
    h'.newLogs.trans h.newLogs, h.nextSeq.trans h'.nextSeq⟩

theorem PoolHolds.of_same (h : s.PoolHolds out) (hsame : s.SamePool s') :
    s'.PoolHolds out := by
  refine ⟨?_, ?_, hsame.poolBlocked.trans h.notBlocked, ?_⟩
  · rw [hsame.avail, hsame.newLogs]
    exact h.places
  · rw [hsame.avail]
    exact h.capacity
  · rw [hsame.avail]
    exact h.clean

/-- There is room in the pool for an entry which is not in it. -/
theorem PoolHolds.hasRoom
    (h : s.PoolHolds out) (hout : entrySlots s.newLogs + out ≠ 0) :
    s.masterBufferAvail.hasRoom := by
  have hcard := congrArg Multiset.card h.places
  rw [add_assoc, Multiset.card_add, card_entrySlots, Multiset.card_map,
    Multiset.card_range] at hcard
  have hpos := Multiset.card_pos.mpr hout
  have hcapacity := h.capacity
  unfold BoundedFifo.hasRoom
  omega

theorem putBack_queue (s : Logger) (l : SingleLog) :
    (s.putBack l).newLogs = s.newLogs ∧ (s.putBack l).nextSeq = s.nextSeq := by
  unfold Logger.putBack
  split <;> exact ⟨rfl, rfl⟩

theorem PoolHolds.putBack (h : s.PoolHolds ({l.slot} + out)) :
    (s.putBack l).PoolHolds out := by
  have hroom := h.hasRoom (by simp)
  rcases BoundedFifo.addIfRoom_of_hasRoom hroom l.clear with
    ⟨avail, hadd, hitems, hcapacity⟩
  unfold Logger.putBack
  rw [hadd]
  refine ⟨?_, hcapacity.trans h.capacity, h.notBlocked, ?_⟩
  · rw [← h.places, hitems, entrySlots_append, entrySlots_cons, entrySlots_nil]
    change entrySlots s.masterBufferAvail.items + ({l.slot} + 0) +
      entrySlots s.newLogs + out = _
    abel
  · dsimp only
    rw [hitems]
    intro l' hl'
    rcases List.mem_append.mp hl' with hold | hnew
    · exact h.clean l' hold
    · rw [List.mem_singleton.mp hnew]
      exact l.clean_clear

theorem PoolHolds.grabInLogBuffer
    (h : s.PoolHolds out) (hgrab : s.grabInLogBuffer = some (l, s')) :
    l.Clean ∧ s'.PoolHolds ({l.slot} + out) ∧ s'.newLogs = s.newLogs ∧
      s'.nextSeq = s.nextSeq := by
  unfold Logger.grabInLogBuffer at hgrab
  split at hgrab
  · rename_i l' avail hremove
    rcases hgrab with ⟨⟩
    have hremoved := BoundedFifo.remove_eq_some hremove
    have hclean : ∀ l' ∈ l :: avail.items, l'.Clean := by
      rw [← hremoved.1]
      exact h.clean
    refine ⟨hclean l (by simp), ⟨?_, hremoved.2.trans h.capacity, h.notBlocked,
      fun l' hl' => hclean l' (List.mem_cons_of_mem l hl')⟩, rfl, rfl⟩
    rw [← h.places, hremoved.1, entrySlots_cons]
    change entrySlots avail.items + entrySlots s.newLogs + ({l.slot} + out) = _
    abel
  · simp at hgrab

theorem enqueue_eq_some
    {cmd : SingleLog → InternalCmdReq}
    (henqueue : s.enqueue cmd l = some s') :
    s'.masterBufferAvail = s.masterBufferAvail ∧
      s'.poolBlocked = s.poolBlocked ∧ s'.nextSeq = s.nextSeq + 1 ∧
      s'.newLogs = s.newLogs ++
        (cmd { l with seq := s.nextSeq }).newLog?.toList := by
  unfold enqueue at henqueue
  split at henqueue
  · rename_i queue hadd
    rcases henqueue with ⟨⟩
    refine ⟨rfl, rfl, rfl, ?_⟩
    unfold newLogs
    dsimp only
    rw [(BoundedFifo.addIfRoom_eq_some hadd).2.1, List.filterMap_append]
    cases hnewLog : (cmd { l with seq := s.nextSeq }).newLog? <;>
      simp [hnewLog]
  · simp at henqueue

theorem PoolHolds.enqueue
    (h : s.PoolHolds ({l.slot} + out))
    (henqueue : s.enqueue .newLog l = some s') : s'.PoolHolds out := by
  rcases enqueue_eq_some henqueue with ⟨havail, hblocked, -, hnewLogs⟩
  have hslots : entrySlots s'.newLogs = entrySlots s.newLogs + {l.slot} := by
    rw [hnewLogs, entrySlots_append]
    rfl
  refine ⟨?_, ?_, hblocked.trans h.notBlocked, ?_⟩
  · rw [← h.places, havail, hslots]
    abel
  · rw [havail]
    exact h.capacity
  · rw [havail]
    exact h.clean

theorem PoolHolds.removeCmd
    (h : s.PoolHolds out) {c : InternalCmdReq}
    (hremove : s.removeCmd = some (c, s')) :
    s'.PoolHolds (entrySlots c.newLog?.toList + out) ∧
      s.newLogs = c.newLog?.toList ++ s'.newLogs ∧ s'.nextSeq = s.nextSeq := by
  unfold Logger.removeCmd at hremove
  split at hremove
  · rename_i c' queue htaken
    rcases hremove with ⟨⟩
    have hnewLogs : s.newLogs = c.newLog?.toList ++
        queue.items.filterMap InternalCmdReq.newLog? := by
      unfold newLogs
      rw [(BoundedFifo.remove_eq_some htaken).1, List.filterMap_cons]
      cases c.newLog? <;> rfl
    refine ⟨⟨?_, h.capacity, h.notBlocked, h.clean⟩, hnewLogs, rfl⟩
    rw [← h.places, hnewLogs, entrySlots_append]
    unfold newLogs
    dsimp only
    abel
  · simp at hremove

theorem PoolHolds.finishCmd
    {c : InternalCmdReq}
    (h : s.PoolHolds (entrySlots c.newLog?.toList + out)) :
    (s.finishCmd c).PoolHolds out ∧ (s.finishCmd c).newLogs = s.newLogs ∧
      (s.finishCmd c).nextSeq = s.nextSeq := by
  have hnone : c.newLog? = none → s.PoolHolds out := by
    intro hnone
    rw [hnone, Option.toList_none, entrySlots_nil, zero_add] at h
    exact h
  cases c with
  | newLog l =>
      have hqueue := s.putBack_queue (s.sifted l)
      exact ⟨PoolHolds.putBack h, hqueue.1, hqueue.2⟩
  | targetRotateBuffer d => exact ⟨hnone rfl, rfl, rfl⟩
  | writeTargetOverflow d l => exact ⟨hnone rfl, rfl, rfl⟩
  | internalShutdown => exact ⟨hnone rfl, rfl, rfl⟩

/-! ## Moves that leave the pool alone -/

theorem samePool_perform
    (s : Logger) (env : Formatting) (id : TargetId) (a : TargetAct) :
    s.SamePool (s.perform env id a) := by
  rcases s.perform_cases env id a with ⟨-, heq⟩ | ⟨t, hacts⟩
  · rw [heq]
    exact SamePool.refl s
  · refine ⟨hacts.intake.masterBufferAvail, hacts.intake.poolBlocked, ?_,
      hacts.intake.nextSeq.ge⟩
    rcases t.act_queue s.owner env a with ⟨added, hitems, hasks⟩
    have hnone : added.filterMap InternalCmdReq.newLog? = [] := by
      rw [List.filterMap_eq_nil_iff]
      intro c hc
      rcases hasks c hc with rfl | ⟨seq, text, m, filter, -, -, -, rfl⟩ <;> rfl
    unfold newLogs
    rw [hacts.owner, hitems, List.filterMap_append, hnone, List.append_nil]

/-- A message that is too large for the pool takes nothing from it. -/
theorem samePool_atomic_of_large
    {job : PoolJob} (hlarge : job.isLarge s.bufferSize = true) :
    s.SamePool (job.atomic s) := by
  cases job with
  | log m following text =>
      have hlong : s.bufferSize < text.length := by
        simpa [PoolJob.isLarge] using hlarge
      simp only [PoolJob.atomic, logEntry, if_pos hlong]
      cases henqueue : s.enqueue (.writeTargetOverflow 0)
          (largeMessage m following text) with
      | none => exact SamePool.refl s
      | some s' =>
          rcases enqueue_eq_some henqueue with
            ⟨havail, hblocked, hseq, hnewLogs⟩
          refine ⟨havail, hblocked, ?_, by simp [hseq]⟩
          rw [Option.getD_some, hnewLogs]
          exact List.append_nil _
  | redirect r d data => simp [PoolJob.isLarge] at hlarge
  | klog mem start remain => simp [PoolJob.isLarge] at hlarge

theorem samePool_setTarget (s : Logger) (id : TargetId) (t : LogTarget) :
    s.SamePool (s.setTarget id t) := by
  unfold setTarget
  split <;> exact ⟨rfl, rfl, rfl, le_rfl⟩

theorem samePool_returnBufferToTarget
    (s : Logger) (env : Formatting) (id : TargetId) (shadow : LogBuf) :
    s.SamePool (s.returnBufferToTarget env id shadow) := by
  unfold returnBufferToTarget
  split
  · exact s.samePool_perform env id _
  · exact SamePool.refl s

theorem samePool_step
    (s : Logger) {a : Act} (hleaves : a.leavesPool = true) :
    s.SamePool (s.step a) := by
  cases a with
  | log m following text => simp [Act.leavesPool] at hleaves
  | redirect r d data => simp [Act.leavesPool] at hleaves
  | klog mem start remain => simp [Act.leavesPool] at hleaves
  | handle env => simp [Act.leavesPool] at hleaves
  | flushTimer id nocallbacks => exact s.samePool_perform _ id _
  | completeWrite id i => exact s.samePool_perform _ id _
  | completeOverflow id i => exact s.samePool_perform _ id _
  | callV8LogCallbacks =>
      simp only [step, callV8LogCallbacks]
      split
      · exact SamePool.refl s
      · unfold doLibCallback
        split <;> exact ⟨rfl, rfl, rfl, le_rfl⟩
  | cleanup j =>
      have herased : s.SamePool { s with owner := { s.owner with
          userBufs := s.owner.userBufs.eraseIdx j } } :=
        ⟨rfl, rfl, rfl, le_rfl⟩
      simp only [step, cleanupGreaseLibBuf]
      split
      · exact SamePool.refl s
      · split
        · split
          · exact herased.trans (samePool_returnBufferToTarget _ _ _ _)
          · exact herased
        · exact herased
  | filter c => exact ⟨rfl, rfl, rfl, le_rfl⟩
  | disableTarget id v => exact s.samePool_perform _ id _
  | setCallback id => exact s.samePool_perform _ id _

end Logger

/-! ## The system -/

def Holder.Proper (h : Holder) : Prop :=
  match h.stage with
  | .grabbed => h.entry.Clean
  | .ready => h.job.message.SameMeta h.entry.logMeta
  | .returning => True

namespace PoolSystem

def held (s : PoolSystem) : List SingleLog :=
  s.holders.map Holder.entry

def inWork (s : PoolSystem) : List SingleLog :=
  s.worker.toList.filterMap fun w => w.cmd.newLog?

/-- The entry was queued for a job, and has the metadata of its message. -/
def OfJob (s : PoolSystem) (l : SingleLog) : Prop :=
  l.seq < s.logger.nextSeq ∧ ∃ job, s.submitted l.seq = some job ∧
    job.message.SameMeta l.logMeta

structure Sound (s : PoolSystem) : Prop where
  pool : s.logger.PoolHolds (entrySlots s.held + entrySlots s.inWork)
  holders : ∀ h ∈ s.holders, h.Proper
  queued : ∀ l ∈ s.logger.newLogs, s.OfJob l
  working : ∀ l ∈ s.inWork, s.OfJob l

variable {s : PoolSystem}

theorem OfJob.of_le
    {s' : PoolSystem} {l : SingleLog} (h : s.OfJob l)
    (hsubmitted : s'.submitted = s.submitted)
    (hseq : s.logger.nextSeq ≤ s'.logger.nextSeq) : s'.OfJob l := by
  rcases h with ⟨hlt, job, hjob, hmeta⟩
  exact ⟨lt_of_lt_of_le hlt hseq, job, by rw [hsubmitted]; exact hjob, hmeta⟩

theorem Sound.of_samePool
    (h : s.Sound) {logger : Logger} (hsame : s.logger.SamePool logger) :
    Sound { s with logger := logger } := by
  refine ⟨h.pool.of_same hsame, h.holders, ?_, ?_⟩
  · intro l hl
    have hold : l ∈ s.logger.newLogs := hsame.newLogs ▸ hl
    exact (h.queued l hold).of_le rfl hsame.nextSeq
  · intro l hl
    exact (h.working l hl).of_le rfl hsame.nextSeq

theorem held_eraseIdx
    {i : ℕ} {holder : Holder} (hget : s.holders[i]? = some holder) :
    entrySlots s.held = {holder.entry.slot} +
      entrySlots ((s.holders.eraseIdx i).map Holder.entry) := by
  rcases List.getElem?_eq_some_iff.mp hget with ⟨hi, hitem⟩
  have hperm := (List.getElem_cons_eraseIdx_perm hi).map Holder.entry
  rw [hitem] at hperm
  exact (entrySlots_perm hperm).symm

theorem Sound.set
    (h : s.Sound) {i : ℕ} {holder holder' : Holder}
    (hget : s.holders[i]? = some holder)
    (hslot : holder'.entry.slot = holder.entry.slot)
    (hproper : holder'.Proper) :
    Sound { s with holders := s.holders.set i holder' } := by
  have hslots : entrySlots ((s.holders.set i holder').map Holder.entry) =
      entrySlots s.held := by
    rcases List.getElem?_eq_some_iff.mp hget with ⟨hi, hitem⟩
    have hperm := (List.set_perm_cons_eraseIdx hi holder').map Holder.entry
    rw [entrySlots_perm hperm, held_eraseIdx hget, List.map_cons, entrySlots_cons,
      hslot]
  refine ⟨?_, ?_, h.queued, h.working⟩
  · have hpool := h.pool
    rw [← hslots] at hpool
    exact hpool
  · intro other hother
    rcases List.mem_or_eq_of_mem_set hother with hold | heq
    · exact h.holders other hold
    · rw [heq]
      exact hproper

theorem Sound.grab (h : s.Sound) (job : PoolJob) : (s.grab job).Sound := by
  unfold PoolSystem.grab
  split
  · rename_i hlarge
    exact h.of_samePool (Logger.samePool_atomic_of_large hlarge)
  · split
    · exact h
    · rename_i l logger hgrab
      rcases h.pool.grabInLogBuffer hgrab with
        ⟨hclean, hpool, hnewLogs, hseq⟩
      refine ⟨?_, ?_, ?_, ?_⟩
      · have hslots : entrySlots ((s.holders ++
            [(⟨job, .grabbed, l⟩ : Holder)]).map Holder.entry) =
              entrySlots s.held + {l.slot} := by
          simp [held]
        have hout : {l.slot} + (entrySlots s.held + entrySlots s.inWork) =
            entrySlots s.held + {l.slot} + entrySlots s.inWork := by abel
        rw [hout, ← hslots] at hpool
        exact hpool
      · intro other hother
        rcases List.mem_append.mp hother with hold | hnew
        · exact h.holders other hold
        · rw [List.mem_singleton.mp hnew]
          exact hclean
      · intro l' hl'
        have hold : l' ∈ s.logger.newLogs := hnewLogs ▸ hl'
        exact (h.queued l' hold).of_le rfl hseq.ge
      · intro l' hl'
        exact (h.working l' hl').of_le rfl hseq.ge

theorem Sound.fill (h : s.Sound) (i : ℕ) : (s.fill i).Sound := by
  unfold PoolSystem.fill
  split
  · rename_i job l hget
    have hclean : l.Clean := h.holders _ (List.mem_of_getElem? hget)
    apply h.set hget (job.fill_slot l)
    unfold Holder.Proper
    cases job.goesOn l with
    | true => exact job.fill_sameMeta hclean
    | false => trivial
  · exact h

/-- The logger has taken over the entry of a caller. -/
theorem Sound.erase
    (h : s.Sound) {i : ℕ} {holder : Holder}
    (hget : s.holders[i]? = some holder) {s' : PoolSystem}
    (hholders : s'.holders = s.holders.eraseIdx i)
    (hworker : s'.worker = s.worker)
    (hpool : ∀ out, s.logger.PoolHolds ({holder.entry.slot} + out) →
      s'.logger.PoolHolds out)
    (hqueued : ∀ l ∈ s'.logger.newLogs, s'.OfJob l)
    (hkept : ∀ l, s.OfJob l → s'.OfJob l) : s'.Sound := by
  have hinWork : s'.inWork = s.inWork := by
    unfold inWork
    rw [hworker]
  refine ⟨?_, ?_, hqueued, ?_⟩
  · unfold held
    rw [hinWork, hholders]
    apply hpool
    rw [← add_assoc, ← held_eraseIdx hget]
    exact h.pool
  · rw [hholders]
    intro other hother
    exact h.holders other (List.mem_of_mem_eraseIdx hother)
  · rw [hinWork]
    intro l hl
    exact hkept l (h.working l hl)

theorem Sound.submit (h : s.Sound) (i : ℕ) : (s.submit i).Sound := by
  unfold PoolSystem.submit
  split
  · rename_i job l hget
    have hmeta : job.message.SameMeta l.logMeta :=
      h.holders _ (List.mem_of_getElem? hget)
    have hreturning : Sound { s with
        holders := s.holders.set i ⟨job, .returning, l⟩ } :=
      h.set hget rfl trivial
    split
    · split
      · rename_i logger henqueue
        rcases Logger.enqueue_eq_some henqueue with ⟨-, -, hseq, hnewLogs⟩
        have hkept : ∀ l', s.OfJob l' → OfJob { s with
            logger := logger
            holders := s.holders.eraseIdx i
            submitted := Function.update s.submitted s.logger.nextSeq
              (some job) } l' := by
          rintro l' ⟨hlt, job', hjob', hmeta'⟩
          refine ⟨?_, job', ?_, hmeta'⟩
          · dsimp only
            omega
          · dsimp only
            rw [Function.update_of_ne (by omega)]
            exact hjob'
        refine h.erase hget rfl rfl (fun _ hout => hout.enqueue henqueue)
          ?_ hkept
        intro l' hl'
        rw [hnewLogs] at hl'
        rcases List.mem_append.mp hl' with hold | hnew
        · exact hkept l' (h.queued l' hold)
        · have heq : l' = { l with seq := s.logger.nextSeq } := by
            simpa [InternalCmdReq.newLog?] using hnew
          rw [heq]
          exact ⟨by simp [hseq], job, by simp, hmeta⟩
      · exact hreturning
    · exact hreturning
  · exact h

theorem Sound.giveBack (h : s.Sound) (i : ℕ) : (s.giveBack i).Sound := by
  unfold PoolSystem.giveBack
  split
  · rename_i job l hget
    have hqueue := s.logger.putBack_queue l
    have hkept : ∀ l', s.OfJob l' → OfJob { s with
        logger := s.logger.putBack l
        holders := s.holders.eraseIdx i } l' :=
      fun l' hl' => hl'.of_le rfl hqueue.2.ge
    refine h.erase hget rfl rfl (fun _ hout => hout.putBack) ?_ hkept
    intro l' hl'
    have hold : l' ∈ s.logger.newLogs := hqueue.1 ▸ hl'
    exact hkept l' (h.queued l' hold)
  · exact h

theorem Sound.take (h : s.Sound) : s.take.Sound := by
  unfold PoolSystem.take
  split
  · rename_i c logger hidle hremove
    rcases h.pool.removeCmd hremove with ⟨hpool, hnewLogs, hseq⟩
    have hinWork : s.inWork = [] := by
      unfold inWork
      rw [hidle]
      rfl
    have htaken : ∀ l ∈ c.newLog?.toList, s.OfJob l := by
      intro l hl
      apply h.queued
      rw [hnewLogs]
      exact List.mem_append_left _ hl
    have hwork : (some (⟨c, logger.cmdActs c⟩ : Work)).toList.filterMap
        (fun w => w.cmd.newLog?) = c.newLog?.toList := by
      cases hnewLog : c.newLog? <;> simp [hnewLog]
    refine ⟨?_, h.holders, ?_, ?_⟩
    · rw [hinWork, entrySlots_nil, add_zero, add_comm] at hpool
      have hsystem : logger.PoolHolds (entrySlots s.held +
          entrySlots ((some (⟨c, logger.cmdActs c⟩ : Work)).toList.filterMap
            fun w => w.cmd.newLog?)) := by
        rw [hwork]
        exact hpool
      exact hsystem.of_same ⟨rfl, rfl, rfl, le_rfl⟩
    · intro l hl
      have hold : l ∈ s.logger.newLogs := by
        rw [hnewLogs]
        exact List.mem_append_right _ hl
      exact (h.queued l hold).of_le rfl hseq.ge
    · intro l hl
      exact (htaken l (hwork ▸ hl)).of_le rfl hseq.ge
  · exact h

theorem Sound.act (h : s.Sound) (env : Formatting) : (s.act env).Sound := by
  unfold PoolSystem.act
  split
  · rename_i c a rest hworker
    have hmoved := h.of_samePool (s.logger.samePool_perform env a.1 a.2)
    have hinWork : inWork { s with
        logger := s.logger.perform env a.1 a.2
        worker := some ⟨c, rest⟩ } = s.inWork := by
      unfold inWork
      rw [hworker]
      rfl
    refine ⟨?_, hmoved.holders, ?_, ?_⟩
    · rw [hinWork]
      exact hmoved.pool
    · intro l hl
      exact (hmoved.queued l hl).of_le rfl le_rfl
    · rw [hinWork]
      intro l hl
      exact (hmoved.working l hl).of_le rfl le_rfl
  · exact h

theorem Sound.finish (h : s.Sound) : s.finish.Sound := by
  unfold PoolSystem.finish
  split
  · rename_i c hworker
    have hinWork : s.inWork = c.newLog?.toList := by
      unfold inWork
      rw [hworker]
      cases hnewLog : c.newLog? <;> simp [hnewLog]
    have hpool := h.pool
    rw [hinWork, add_comm] at hpool
    rcases hpool.finishCmd with ⟨hholds, hnewLogs, hseq⟩
    refine ⟨?_, h.holders, ?_, ?_⟩
    · rw [← add_zero (entrySlots s.held)] at hholds
      exact hholds
    · intro l hl
      have hold : l ∈ s.logger.newLogs := hnewLogs ▸ hl
      exact (h.queued l hold).of_le rfl hseq.ge
    · intro l hl
      simp [inWork] at hl
  · exact h

theorem Sound.shutdown (h : s.Sound) : s.shutdown.Sound := by
  unfold PoolSystem.shutdown
  split
  · rename_i queue hadd
    apply h.of_samePool
    refine ⟨rfl, rfl, ?_, le_rfl⟩
    unfold Logger.newLogs Logger.withQueue
    dsimp only
    rw [(BoundedFifo.addIfRoom_eq_some hadd).2.1, List.filterMap_append]
    exact List.append_nil _
  · exact h

theorem Sound.step (h : s.Sound) (a : PoolAct) : (s.step a).Sound := by
  cases a with
  | grab job => exact h.grab job
  | fill i => exact h.fill i
  | submit i => exact h.submit i
  | giveBack i => exact h.giveBack i
  | take => exact h.take
  | act env => exact h.act env
  | finish => exact h.finish
  | shutdown => exact h.shutdown
  | addTarget id t => exact h.of_samePool (s.logger.samePool_setTarget id t)
  | other a =>
      simp only [PoolSystem.step]
      split
      · rename_i hleaves
        exact h.of_samePool (s.logger.samePool_step hleaves)
      · exact h

theorem sound_start (s : Logger) : (start s).Sound := by
  refine ⟨⟨?_, rfl, rfl, ?_⟩, ?_, ?_, ?_⟩
  · have hslots : entrySlots ((List.range primaryBufferEntries).map
        fun n => SingleLog.new (some n) s.bufferSize) =
          (Multiset.range primaryBufferEntries).map some := by
      unfold entrySlots
      rw [List.map_map]
      rfl
    rw [← hslots]
    exact add_zero _
  · intro l hl
    rcases List.mem_map.mp hl with ⟨n, -, rfl⟩
    exact SingleLog.clean_new _ _
  · intro h hh
    simp [start] at hh
  · intro l hl
    simp [start, Logger.newLogs] at hl
  · intro l hl
    simp [start, inWork] at hl

/-- Every entry is in one place, there is room in the pool for each entry that
is not in it and no `masterBufferAvail.add` has blocked, the entries in the
pool are clean, and an entry in use carries the metadata of the message it is
used for. -/
structure PoolInPlace (s : PoolSystem) : Prop where
  places : entrySlots s.logger.masterBufferAvail.items +
    entrySlots s.logger.newLogs + entrySlots s.held + entrySlots s.inWork =
      (Multiset.range primaryBufferEntries).map some
  room : ∀ l ∈ s.logger.newLogs ++ s.held ++ s.inWork,
    s.logger.masterBufferAvail.hasRoom
  neverBlocked : s.logger.poolBlocked = false
  clean : ∀ l ∈ s.logger.masterBufferAvail.items,
    l.buf.used = 0 ∧ l.logMeta.m = noMetaData ∧
      l.logMeta.m.hasCache = false
  ready : ∀ h ∈ s.holders, h.stage = .ready →
    h.job.message.SameMeta h.entry.logMeta
  queued : ∀ l ∈ s.logger.newLogs ++ s.inWork,
    ∃ job, s.submitted l.seq = some job ∧ job.message.SameMeta l.logMeta

theorem Sound.poolInPlace (h : s.Sound) : s.PoolInPlace := by
  refine ⟨?_, ?_, h.pool.notBlocked, ?_, ?_, ?_⟩
  · rw [add_assoc _ (entrySlots s.held)]
    exact h.pool.places
  · intro l hl
    apply h.pool.hasRoom
    rw [← add_assoc, ← entrySlots_append, ← entrySlots_append]
    intro hzero
    have hcard := congrArg Multiset.card hzero
    rw [card_entrySlots, Multiset.card_zero, List.length_eq_zero_iff] at hcard
    rw [hcard] at hl
    simp at hl
  · intro l hl
    have hclean := h.pool.clean l hl
    exact ⟨hclean.used, hclean.m, by rw [hclean.m]; decide⟩
  · intro holder hholder hready
    have hproper := h.holders holder hholder
    unfold Holder.Proper at hproper
    rw [hready] at hproper
    exact hproper
  · intro l hl
    rcases List.mem_append.mp hl with hqueued | hworking
    · exact (h.queued l hqueued).2
    · exact (h.working l hworking).2

/-- However callers and the thread interleave, the pool stays in place. -/
theorem pool_in_place (s : Logger) (acts : List PoolAct) :
    (Run.final step (start s) acts).PoolInPlace := by
  have hend : (Run.final step (start s) acts).Sound :=
    Run.final_preserves (fun _ a h => h.step a) acts (sound_start s)
  exact hend.poolInPlace

end PoolSystem

end GreaseLog
