import GreaseLog.PoolConservation

/-!
# The entries of the pool keep their size

The constructor of the logger makes every entry with a buffer of
`Opts.bufferSize` bytes.  Callers write into the buffer and set `used`, and the
thread of the logger clears the entry; none of them touches `handle.len`.
-/

namespace GreaseLog

/-! ## Filling an entry -/

theorem HeapBuf.memcpy_len (b : HeapBuf) (s : List UInt8) :
    (b.memcpy s).len = b.len := by
  unfold HeapBuf.memcpy
  split <;> rfl

namespace KlogCursor

theorem levelEnd_buf (c : KlogCursor) : c.levelEnd.entry.buf = c.entry.buf := by
  unfold levelEnd
  dsimp only
  split
  · rfl
  · split_ifs <;> rfl

theorem switch_buf (c : KlogCursor) : c.switch.entry.buf = c.entry.buf := by
  have hlevelEnd := c.levelEnd_buf
  unfold switch
  dsimp only
  split
  · split <;> rfl
  · split
    · exact hlevelEnd
    · rfl
  · rfl
  · split_ifs <;> rfl
  · rfl
  · split <;> rfl
  · rfl

theorem scan_buf (c : KlogCursor) (remain : ℕ) :
    (scan remain c).1.entry.buf = c.entry.buf := by
  induction remain generalizing c with
  | zero => rfl
  | succ remain ih =>
      unfold scan
      split
      · rfl
      · rw [ih]
        exact c.switch_buf

end KlogCursor

theorem parseSingleKlog_len
    (mem : List UInt8) (start remain : ℕ) (l : SingleLog) :
    (parseSingleKlogToSingleLog mem start remain
      .levelBegin l).entry.buf.len = l.buf.len := by
  have hscan : (KlogCursor.scan remain
      ⟨mem, .levelBegin, start, none, l⟩).1.entry.buf.len = l.buf.len :=
    congrArg HeapBuf.len (KlogCursor.scan_buf _ remain)
  unfold parseSingleKlogToSingleLog
  dsimp only
  split
  · split
    · split <;> exact hscan
    · exact hscan
  · exact hscan

theorem PoolJob.fill_len (job : PoolJob) (l : SingleLog) :
    (job.fill l).buf.len = l.buf.len := by
  cases job with
  | log m following text =>
      simp only [fill, Logger.fillMessage, SingleLog.setMeta_buf]
      exact l.buf.memcpy_len text
  | redirect r d data =>
      simp only [fill]
      split <;> rfl
  | klog mem start remain => exact parseSingleKlog_len mem start remain l

namespace Logger

/-- The entries in the pool and on the queue are as large as the logger takes
them to be. -/
structure Sized (size : ℕ) (s : Logger) : Prop where
  bufferSize : s.bufferSize = size
  avail : ∀ l ∈ s.masterBufferAvail.items, l.buf.len = size
  queued : ∀ l ∈ s.newLogs, l.buf.len = size

variable {size : ℕ} {s s' : Logger} {l : SingleLog}

theorem sized_new (bufferSize : ℕ) : (Logger.new bufferSize).Sized bufferSize := by
  refine ⟨rfl, ?_, ?_⟩
  · intro l hl
    rcases List.mem_map.mp hl with ⟨n, -, rfl⟩
    rfl
  · intro l hl
    simp [newLogs, Logger.new, BoundedFifo.empty] at hl

theorem Sized.of_same
    (h : s.Sized size) (hsame : s.SamePool s')
    (hbufferSize : s'.bufferSize = s.bufferSize) : s'.Sized size := by
  refine ⟨hbufferSize.trans h.bufferSize, ?_, ?_⟩
  · rw [hsame.avail]
    exact h.avail
  · rw [hsame.newLogs]
    exact h.queued

theorem Sized.putBack (h : s.Sized size) (hlen : l.buf.len = size) :
    (s.putBack l).Sized size := by
  unfold Logger.putBack
  split
  · rename_i avail hadd
    refine ⟨h.bufferSize, ?_, h.queued⟩
    dsimp only
    rw [(BoundedFifo.addIfRoom_eq_some hadd).2.1]
    intro l' hl'
    rcases List.mem_append.mp hl' with hold | hnew
    · exact h.avail l' hold
    · rw [List.mem_singleton.mp hnew]
      exact hlen
  · exact ⟨h.bufferSize, h.avail, h.queued⟩

theorem Sized.grabInLogBuffer
    (h : s.Sized size) (hgrab : s.grabInLogBuffer = some (l, s')) :
    l.buf.len = size ∧ s'.Sized size := by
  unfold Logger.grabInLogBuffer at hgrab
  split at hgrab
  · rename_i l' avail hremove
    rcases hgrab with ⟨⟩
    have hitems := (BoundedFifo.remove_eq_some hremove).1
    have hlens : ∀ l' ∈ l :: avail.items, l'.buf.len = size := by
      rw [← hitems]
      exact h.avail
    exact ⟨hlens l (by simp), h.bufferSize,
      fun l' hl' => hlens l' (List.mem_cons_of_mem l hl'), h.queued⟩
  · simp at hgrab

theorem Sized.enqueue
    (h : s.Sized size) (hlen : l.buf.len = size)
    (henqueue : s.enqueue .newLog l = some s') : s'.Sized size := by
  have hbufferSize := (takes_enqueue (fun _ => rfl) henqueue).bufferSize
  rcases enqueue_eq_some henqueue with ⟨havail, -, -, hnewLogs⟩
  refine ⟨hbufferSize.trans h.bufferSize, ?_, ?_⟩
  · rw [havail]
    exact h.avail
  · rw [hnewLogs]
    intro l' hl'
    rcases List.mem_append.mp hl' with hold | hnew
    · exact h.queued l' hold
    · rw [List.mem_singleton.mp hnew]
      exact hlen

/-! ## Steps -/

theorem takes_atomic (job : PoolJob) (s : Logger) : s.Takes (job.atomic s) := by
  cases job with
  | log m following text => exact s.takes_logEntry m following text
  | redirect r d data => exact s.takes_redirect r d data
  | klog mem start remain => exact s.takes_klog mem start remain

/-- Whatever a caller fills the entry with. -/
theorem Sized.atomic (h : s.Sized size) (job : PoolJob) :
    (job.atomic s).Sized size := by
  cases hlarge : job.isLarge s.bufferSize with
  | true =>
      exact h.of_same (samePool_atomic_of_large hlarge)
        (takes_atomic job s).bufferSize
  | false =>
      rw [job.atomic_of_small s hlarge]
      split
      · exact h
      · rename_i l s' hgrab
        have hgrabbed := h.grabInLogBuffer hgrab
        have hlen : (job.fill l).buf.len = size :=
          (job.fill_len l).trans hgrabbed.1
        have hback := hgrabbed.2.putBack hlen
        split_ifs
        · cases henqueue : s'.enqueue .newLog (job.fill l) with
          | none => exact hback
          | some queued => exact hgrabbed.2.enqueue hlen henqueue
        · exact hback
        · exact hback

theorem Sized.log
    (h : s.Sized size) (m : LogMeta) (following : IgnoreList)
    (text : List UInt8) : (s.log m following text).Sized size := by
  unfold Logger.log
  split
  · exact h
  · dsimp only
    split
    · exact h.atomic (.log _ following text)
    · exact h

theorem samePool_performAll
    (s : Logger) (env : Formatting) (acts : List (TargetId × TargetAct)) :
    s.SamePool (s.performAll env acts) := by
  apply performAll_invariant (P := s.SamePool) _ (SamePool.refl s)
  intro s' hs' a _
  exact hs'.trans (s'.samePool_perform env a.1 a.2)

theorem Sized.execCmd
    (h : s.Sized size) (env : Formatting) (c : InternalCmdReq) :
    (s.execCmd env c).Sized size := by
  have hmarked : s.SamePool { s with strayed := s.strayed || s.cmdStrays c } :=
    ⟨rfl, rfl, rfl, le_rfl⟩
  exact h.of_same (hmarked.trans (samePool_performAll _ env (s.cmdActs c)))
    (s.sameIntake_execCmd env c).bufferSize

/-- The entry of a `NEW_LOG` command goes back to the pool in the size it came
from the queue with. -/
theorem Sized.handleInternalCmd (h : s.Sized size) (env : Formatting) :
    (s.handleInternalCmd env).Sized size := by
  rcases s.handleInternalCmd_cases env with ⟨-, heq⟩ | ⟨c, queue, hitems, -, heq⟩
  · rw [heq]
    exact h
  · rw [heq]
    have hnewLogs : s.newLogs = c.newLog?.toList ++
        (s.withQueue queue).newLogs := by
      unfold newLogs
      rw [hitems, List.filterMap_cons]
      cases c.newLog? <;> rfl
    have hlens : ∀ l ∈ c.newLog?.toList ++ (s.withQueue queue).newLogs,
        l.buf.len = size := by
      rw [← hnewLogs]
      exact h.queued
    have hrest : (s.withQueue queue).Sized size :=
      ⟨h.bufferSize, h.avail, fun l hl => hlens l (List.mem_append_right _ hl)⟩
    have hexec := hrest.execCmd env c
    cases c with
    | newLog l =>
        apply hexec.putBack
        exact hlens l (by simp [InternalCmdReq.newLog?])
    | targetRotateBuffer d => exact hexec
    | writeTargetOverflow d l => exact hexec
    | internalShutdown => exact hexec

theorem bufferSize_step
    (s : Logger) {a : Act} (hleaves : a.leavesPool = true) :
    (s.step a).bufferSize = s.bufferSize := by
  cases a with
  | log m following text => simp [Act.leavesPool] at hleaves
  | redirect r d data => simp [Act.leavesPool] at hleaves
  | klog mem start remain => simp [Act.leavesPool] at hleaves
  | handle env => simp [Act.leavesPool] at hleaves
  | flushTimer id nocallbacks => exact (s.sameIntake_perform _ id _).bufferSize
  | completeWrite id i => exact (s.sameIntake_perform _ id _).bufferSize
  | completeOverflow id i => exact (s.sameIntake_perform _ id _).bufferSize
  | callV8LogCallbacks => exact s.sameIntake_callV8LogCallbacks.bufferSize
  | cleanup j => exact (s.sameIntake_cleanupGreaseLibBuf _ j).bufferSize
  | filter c => rfl
  | disableTarget id v => exact (s.sameIntake_perform _ id _).bufferSize
  | setCallback id => exact (s.sameIntake_perform _ id _).bufferSize

theorem Sized.step (h : s.Sized size) (a : Act) : (s.step a).Sized size := by
  cases hleaves : a.leavesPool with
  | true => exact h.of_same (s.samePool_step hleaves) (s.bufferSize_step hleaves)
  | false =>
      cases a with
      | log m following text => exact h.log m following text
      | redirect r d data => exact h.atomic (.redirect r d data)
      | klog mem start remain => exact h.atomic (.klog mem start remain)
      | handle env => exact h.handleInternalCmd env
      | flushTimer id nocallbacks => simp [Act.leavesPool] at hleaves
      | completeWrite id i => simp [Act.leavesPool] at hleaves
      | completeOverflow id i => simp [Act.leavesPool] at hleaves
      | callV8LogCallbacks => simp [Act.leavesPool] at hleaves
      | cleanup j => simp [Act.leavesPool] at hleaves
      | filter c => simp [Act.leavesPool] at hleaves
      | disableTarget id v => simp [Act.leavesPool] at hleaves
      | setCallback id => simp [Act.leavesPool] at hleaves

/-- In every run the entries keep the size the logger was made with. -/
theorem sized_run (bufferSize : ℕ) (acts : List Act) :
    (Run.final step (Logger.new bufferSize) acts).Sized bufferSize :=
  Run.final_preserves (fun _ a h => h.step a) acts (sized_new bufferSize)

end Logger

end GreaseLog
