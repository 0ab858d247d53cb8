import GreaseLog.FlushedBytes
import GreaseLog.LockTrace
import GreaseLog.Logger

/-!
# The mutexes an operation takes

Every bank has a mutex, every target its `writeMutex`, a file target `wrLock`
and `rotateFileMutex` as well, and the logger has `mutexRefLogger`.  They are
locked in nested calls: `write` copies into a bank under `writeMutex`, and a
file is rotated under `wrLock`, which is taken under the mutex of a bank.

The functions below give the trace of each operation.  What an operation finds
outside the model is an `Outcomes`.  All traces but one keep to the order in
which the mutexes are listed: `flushSync` of a tty calls `returnBuffer` under
the mutex of the bank, and `returnBuffer` begins with `isEmpty`, which takes
that mutex.
-/

namespace GreaseLog

open LockTrace

inductive Mutex where
  | writeMutex (t : TargetId)
  | bank (t : TargetId) (b : ℕ)
  | wrLock (t : TargetId)
  | rotateFileMutex (t : TargetId)
  | mutexRefLogger
  deriving DecidableEq, Repr

def Mutex.rank : Mutex → ℕ
  | .writeMutex _ => 0
  | .bank _ _ => 1
  | .wrLock _ => 2
  | .rotateFileMutex _ => 3
  | .mutexRefLogger => 4

abbrev LockOps := List (Op Mutex)

/-- What decides about locks and is not in the state: whether `writev` fails,
whether a completed write rotates the file, and whether the user gives a bank
back before its callback returns.  A target lists all it has handed out, so its
state tells one call of an operation from the next. -/
structure Outcomes where
  failed : LogTarget → Bool
  rotates : LogTarget → Bool
  cleansUp : LogTarget → Bool

/-- `refGreaseInGrease` and `unrefGreaseInGrease`. -/
def refLocks : LockOps := synchronized .mutexRefLogger []

/-! ## Banks -/

namespace LogBuf

/-- `clear`, `isEmpty` and `remain`. -/
def locks (b : LogBuf) (id : TargetId) : LockOps :=
  synchronized (.bank id b.id) []

/-- `copyIn` and `copyInJsonEscape`. -/
def copyInLocks (b : LogBuf) (id : TargetId) (s : List UInt8) : LockOps :=
  if s = [] then [] else b.locks id

end LogBuf

/-! ## Operations of a target -/

namespace LogTarget

def returnBufferLocks (t : LogTarget) (o : Owner) (w : Outcomes)
    (id : TargetId) (b : LogBuf) (sync nocallback : Bool) : LockOps :=
  b.locks id ++ (if b.isEmpty then [] else refLocks) ++
    if !nocallback && t.logCallbackSet && !b.isEmpty then
      if sync then
        if w.cleansUp t then b.locks id else []
      else
        match o.callerLogCallbacks.addIfRoom (.bank t.myId b) with
        | some _ => []
        | none => b.locks id
    else
      b.locks id

/-- A rotation that fails clears the current bank. -/
def rotateLocks (t : LogTarget) (id : TargetId) : LockOps :=
  synchronized (.writeMutex id)
    (if 0 < t.currentBuffer.handleLen ∧ t.rotate.2 = false then
      t.currentBuffer.locks id
    else [])

def copyMessageLocks (t : LogTarget) (id : TargetId)
    (header text footer : List UInt8) : LockOps :=
  t.currentBuffer.copyInLocks id header ++
    t.currentBuffer.copyInLocks id text ++
    t.currentBuffer.copyInLocks id footer

def writeLocks (t : LogTarget) (o : Owner) (env : Formatting) (id : TargetId)
    (text : List UInt8) (m : LogMeta) (filter : Filter) : LockOps :=
  synchronized (.writeMutex id) [] ++
    if t.disabled then []
    else if t.bankSize < text.length + greaseMaxPrefixHeader then []
    else
      let header := env.header t.myId m filter
      let footer := env.footer t.myId m filter
      synchronized (.writeMutex id) [] ++ t.currentBuffer.locks id ++
        if text.length + header.length + footer.length ≤
            t.currentBuffer.remain then
          t.currentBuffer.locks id ++
            (if t.currentBuffer.isEmpty then refLocks else []) ++
            synchronized (.writeMutex id)
              (t.copyMessageLocks id header text footer)
        else
          t.rotateLocks id ++
            if t.rotate.2 then
              match o.internalCmdQueue.addIfRoom
                  (.targetRotateBuffer t.myId) with
              | some _ =>
                  synchronized (.writeMutex id) (refLocks ++
                    t.rotate.1.copyMessageLocks id header text footer)
              | none => []
            else []

def checkAndMaybeRotateLocks (t : LogTarget) (w : Outcomes) (id : TargetId) :
    LockOps :=
  synchronized (.wrLock id)
    (if w.rotates t then synchronized (.rotateFileMutex id) [] else [])

def flushLocks (t : LogTarget) (o : Owner) (w : Outcomes) (id : TargetId)
    (b : LogBuf) (nocallbacks : Bool) : LockOps :=
  match t.kind with
  | .tty => b.locks id
  | .file => synchronized (.bank id b.id) (synchronized (.wrLock id) [])
  | .callback => t.returnBufferLocks o w id b false nocallbacks

def flushSyncLocks (t : LogTarget) (o : Owner) (w : Outcomes) (id : TargetId)
    (b : LogBuf) (nocallbacks : Bool) : LockOps :=
  match t.kind with
  | .tty =>
      synchronized (.bank id b.id)
        (t.returnBufferLocks o w id b true nocallbacks)
  | .file =>
      synchronized (.bank id b.id) (t.checkAndMaybeRotateLocks w id) ++
        t.returnBufferLocks o w id b true nocallbacks
  | .callback => t.returnBufferLocks o w id b true nocallbacks

/-- The calls of `flushLoop`, with the locks each of them takes. -/
def flushLoopLocks
    (out : LogTarget → Owner → LogBuf → LogTarget × Owner)
    (locks : LogTarget → Owner → LogBuf → LockOps) :
    ℕ → LogTarget → Owner → LockOps
  | 0, _, _ => []
  | rounds + 1, t, o =>
      match t.writeOutBuffers.remove with
      | none => []
      | some (b, writeOut) =>
          let t := { t with writeOutBuffers := writeOut }
          let next := out t o b
          locks t o b ++ flushLoopLocks out locks rounds next.1 next.2

def flushAllLocks (t : LogTarget) (o : Owner) (w : Outcomes) (id : TargetId)
    (rotate nocallbacks : Bool) : LockOps :=
  let start := if rotate then t.rotate.1 else t
  (if rotate then t.rotateLocks id else []) ++
    flushLoopLocks (fun t o b => t.flush o b nocallbacks)
      (fun t o b => t.flushLocks o w id b nocallbacks)
      start.writeOutBuffers.items.length start o

def flushAllSyncLocks (t : LogTarget) (o : Owner) (w : Outcomes)
    (id : TargetId) (rotate nocallbacks : Bool) : LockOps :=
  let start := if rotate then t.rotate.1 else t
  (if rotate then t.rotateLocks id else []) ++
    flushLoopLocks (fun t o b => t.flushSync o b nocallbacks)
      (fun t o b => t.flushSyncLocks o w id b nocallbacks)
      start.writeOutBuffers.items.length start o

def writeAsyncOverflowLocks (t : LogTarget) (w : Outcomes) (id : TargetId) :
    LockOps :=
  match t.kind with
  | .file =>
      synchronized (.wrLock id) [] ++
        (if w.failed t then synchronized (.wrLock id) []
          else t.checkAndMaybeRotateLocks w id) ++
        refLocks
  | _ => []

def writeOverflowLocks (t : LogTarget) (w : Outcomes) (id : TargetId) :
    LockOps :=
  synchronized (.writeMutex id) [] ++
    if t.disabled then []
    else
      synchronized (.writeMutex id) [] ++ refLocks ++
        t.writeAsyncOverflowLocks w id

def completeWriteLocks (t : LogTarget) (o : Owner) (w : Outcomes)
    (id : TargetId) (i : ℕ) : LockOps :=
  match t.inFlight[i]? with
  | none => []
  | some (b, nocallback) =>
      (if t.kind = .file then t.checkAndMaybeRotateLocks w id else []) ++
        t.returnBufferLocks o w id b false nocallback

def completeOverflowLocks (t : LogTarget) (i : ℕ) : LockOps :=
  match t.overflowInFlight[i]? with
  | none => []
  | some _ => refLocks

def actLocks (t : LogTarget) (o : Owner) (env : Formatting) (w : Outcomes)
    (id : TargetId) : TargetAct → LockOps
  | .write _ text m filter => t.writeLocks o env id text m filter
  | .writeOverflow _ _ => t.writeOverflowLocks w id
  | .flushAll rotate nocallbacks => t.flushAllLocks o w id rotate nocallbacks
  | .flushAllSync rotate nocallbacks =>
      t.flushAllSyncLocks o w id rotate nocallbacks
  | .completeWrite i => t.completeWriteLocks o w id i
  | .completeOverflow i => t.completeOverflowLocks i
  | .finalizeV8Callback b => b.locks id
  | .disableWrites _ => synchronized (.writeMutex id) []
  | .setCallback => synchronized (.writeMutex id) []

end LogTarget

/-! ## Steps of the logger -/

namespace Logger

def performLocks (s : Logger) (env : Formatting) (w : Outcomes)
    (a : TargetId × TargetAct) : LockOps :=
  match s.target? a.1 with
  | none => []
  | some t => t.actLocks s.owner env w a.1 a.2

def performAllLocks (env : Formatting) (w : Outcomes) :
    Logger → List (TargetId × TargetAct) → LockOps
  | _, [] => []
  | s, a :: acts =>
      s.performLocks env w a ++
        performAllLocks env w (s.perform env a.1 a.2) acts

/-- `strayed` is set before the acts are performed, as in `execCmd`. -/
def execCmdLocks (s : Logger) (env : Formatting) (w : Outcomes)
    (c : InternalCmdReq) : LockOps :=
  performAllLocks env w { s with strayed := s.strayed || s.cmdStrays c }
    (s.cmdActs c)

def handleInternalCmdLocks (s : Logger) (env : Formatting) (w : Outcomes) :
    LockOps :=
  match s.removeCmd with
  | none => []
  | some (c, s) => s.execCmdLocks env w c

def returnBufferToTargetLocks (s : Logger) (env : Formatting) (w : Outcomes)
    (id : TargetId) (shadow : LogBuf) : LockOps :=
  if s.registered id ∧ id ≠ 0 then
    s.performLocks env w (id, .finalizeV8Callback shadow)
  else []

def cleanupGreaseLibBufLocks (s : Logger) (env : Formatting) (w : Outcomes)
    (j : ℕ) : LockOps :=
  match s.owner.userBufs[j]? with
  | none => []
  | some (.bank id shadow) =>
      if -1 < id then s.returnBufferToTargetLocks env w id.toUInt32 shadow
      else []
  | some (.overflow _) => []

def stepLocks (s : Logger) (w : Outcomes) : Act → LockOps
  | .handle env => s.handleInternalCmdLocks env w
  | .flushTimer id nocallbacks =>
      s.performLocks noFormatting w (id, .flushAll true nocallbacks)
  | .completeWrite id i =>
      s.performLocks noFormatting w (id, .completeWrite i)
  | .completeOverflow id i =>
      s.performLocks noFormatting w (id, .completeOverflow i)
  | .cleanup j => s.cleanupGreaseLibBufLocks noFormatting w j
  | .disableTarget id v =>
      s.performLocks noFormatting w (id, .disableWrites v)
  | .setCallback id => s.performLocks noFormatting w (id, .setCallback)
  | .log _ _ _ | .redirect _ _ _ | .klog _ _ _ | .callV8LogCallbacks
  | .filter _ => []

/-- A step of the logger with what it finds, or `shutdown`, which runs at
exit. -/
inductive Call where
  | step (a : Act) (w : Outcomes)
  | shutdown

def shutdown (s : Logger) : Logger :=
  match s.owner.internalCmdQueue.addIfRoom .internalShutdown with
  | some queue => { s with owner := { s.owner with internalCmdQueue := queue } }
  | none => s

def call (s : Logger) : Call → Logger
  | .step a _ => s.step a
  | .shutdown => s.shutdown

def callLocks (s : Logger) : Call → LockOps
  | .step a w => s.stepLocks w a
  | .shutdown => []

end Logger

/-! ## The lock order -/

theorem refLocks_ranked {r : ℕ} (hr : r ≤ 4) :
    Ranked Mutex.rank r refLocks :=
  Ranked.nil.synchronized (Nat.lt_succ_self 4) hr

namespace LogBuf

theorem locks_ranked (b : LogBuf) (id : TargetId) {r : ℕ} (hr : r ≤ 1) :
    Ranked Mutex.rank r (b.locks id) :=
  Ranked.nil.synchronized (Nat.lt_succ_self 1) hr

theorem copyInLocks_ranked (b : LogBuf) (id : TargetId) (s : List UInt8) :
    Ranked Mutex.rank 1 (b.copyInLocks id s) := by
  unfold copyInLocks
  split
  · exact Ranked.nil
  · exact b.locks_ranked id le_rfl

end LogBuf

/-- A short block under `writeMutex`. -/
theorem writeMutex_ranked
    (id : TargetId) {ops : LockOps} (h : Ranked Mutex.rank 1 ops) :
    Ranked Mutex.rank 0 (synchronized (.writeMutex id) ops) :=
  h.synchronized Nat.zero_lt_one le_rfl

namespace LogTarget

theorem returnBufferLocks_ranked
    (t : LogTarget) (o : Owner) (w : Outcomes) (id : TargetId) (b : LogBuf)
    (sync nocallback : Bool) :
    Ranked Mutex.rank 1 (t.returnBufferLocks o w id b sync nocallback) := by
  have hbank := b.locks_ranked id le_rfl
  unfold returnBufferLocks
  refine (hbank.append ?_).append ?_
  · split
    · exact Ranked.nil
    · exact refLocks_ranked (by decide)
  · split
    · split
      · split
        · exact hbank
        · exact Ranked.nil
      · split
        · exact Ranked.nil
        · exact hbank
    · exact hbank

theorem rotateLocks_ranked (t : LogTarget) (id : TargetId) :
    Ranked Mutex.rank 0 (t.rotateLocks id) := by
  refine writeMutex_ranked id ?_
  split
  · exact t.currentBuffer.locks_ranked id le_rfl
  · exact Ranked.nil

theorem copyMessageLocks_ranked
    (t : LogTarget) (id : TargetId) (header text footer : List UInt8) :
    Ranked Mutex.rank 1 (t.copyMessageLocks id header text footer) :=
  ((t.currentBuffer.copyInLocks_ranked id header).append
    (t.currentBuffer.copyInLocks_ranked id text)).append
    (t.currentBuffer.copyInLocks_ranked id footer)

theorem writeLocks_ranked
    (t : LogTarget) (o : Owner) (env : Formatting) (id : TargetId)
    (text : List UInt8) (m : LogMeta) (filter : Filter) :
    Ranked Mutex.rank 0 (t.writeLocks o env id text m filter) := by
  have hshort := writeMutex_ranked id Ranked.nil
  have hbank := t.currentBuffer.locks_ranked id (Nat.zero_le 1)
  unfold writeLocks
  refine hshort.append ?_
  split
  · exact Ranked.nil
  split
  · exact Ranked.nil
  refine (hshort.append hbank).append ?_
  split
  · refine (hbank.append ?_).append
      (writeMutex_ranked id (t.copyMessageLocks_ranked id _ _ _))
    split
    · exact refLocks_ranked (by decide)
    · exact Ranked.nil
  · refine (t.rotateLocks_ranked id).append ?_
    split
    · split
      · exact writeMutex_ranked id ((refLocks_ranked (by decide)).append
          (t.rotate.1.copyMessageLocks_ranked id _ _ _))
      · exact Ranked.nil
    · exact Ranked.nil

theorem checkAndMaybeRotateLocks_ranked
    (t : LogTarget) (w : Outcomes) (id : TargetId) {r : ℕ} (hr : r ≤ 2) :
    Ranked Mutex.rank r (t.checkAndMaybeRotateLocks w id) := by
  have hinner : Ranked Mutex.rank 3
      (if w.rotates t then synchronized (.rotateFileMutex id) [] else []) := by
    split
    · exact Ranked.nil.synchronized (Nat.lt_succ_self 3) le_rfl
    · exact Ranked.nil
  exact hinner.synchronized (Nat.lt_succ_self 2) hr

theorem wrLock_ranked (id : TargetId) {r : ℕ} (hr : r ≤ 2) :
    Ranked Mutex.rank r (synchronized (.wrLock id) []) :=
  Ranked.nil.synchronized (Nat.lt_succ_self 2) hr

theorem flushLocks_ranked
    (t : LogTarget) (o : Owner) (w : Outcomes) (id : TargetId) (b : LogBuf)
    (nocallbacks : Bool) :
    Ranked Mutex.rank 1 (t.flushLocks o w id b nocallbacks) := by
  unfold flushLocks
  split
  · exact b.locks_ranked id le_rfl
  · exact (wrLock_ranked id le_rfl).synchronized (Nat.lt_succ_self 1) le_rfl
  · exact t.returnBufferLocks_ranked o w id b false nocallbacks

theorem flushSyncLocks_ranked
    {t : LogTarget} (hkind : t.kind ≠ .tty) (o : Owner) (w : Outcomes)
    (id : TargetId) (b : LogBuf) (nocallbacks : Bool) :
    Ranked Mutex.rank 1 (t.flushSyncLocks o w id b nocallbacks) := by
  have hreturn := t.returnBufferLocks_ranked o w id b true nocallbacks
  unfold flushSyncLocks
  split
  · contradiction
  · have hcheck := t.checkAndMaybeRotateLocks_ranked w id le_rfl
    have hlock : Ranked Mutex.rank 1
        (synchronized (.bank id b.id) (t.checkAndMaybeRotateLocks w id)) :=
      hcheck.synchronized (Nat.lt_succ_self 1) le_rfl
    exact hlock.append hreturn
  · exact hreturn

/-- The mutex of the bank is taken by `flushSync` and, inside, by `isEmpty`. -/
theorem flushSyncLocks_relocks
    {t : LogTarget} (hkind : t.kind = .tty) (o : Owner) (w : Outcomes)
    (id : TargetId) (b : LogBuf) (nocallbacks : Bool) :
    Relocks (t.flushSyncLocks o w id b nocallbacks) := by
  unfold flushSyncLocks returnBufferLocks
  rw [hkind, List.append_assoc]
  exact run_synchronized_again [] _ _ _

/-! ## Loops over the waiting banks -/

theorem flushLoopLocks_ranked
    {out : LogTarget → Owner → LogBuf → LogTarget × Owner}
    {locks : LogTarget → Owner → LogBuf → LockOps} {P : LogTarget → Prop}
    (hround : ∀ t o b writeOut, P t →
      P (out { t with writeOutBuffers := writeOut } o b).1 ∧
      Ranked Mutex.rank 0
        (locks { t with writeOutBuffers := writeOut } o b))
    (rounds : ℕ) (t : LogTarget) (o : Owner) (hstart : P t) :
    Ranked Mutex.rank 0 (flushLoopLocks out locks rounds t o) := by
  induction rounds generalizing t o with
  | zero => exact Ranked.nil
  | succ rounds ih =>
      rw [flushLoopLocks]
      split
      · exact Ranked.nil
      · rename_i b writeOut _
        have hnext := hround t o b writeOut hstart
        exact hnext.2.append (ih _ _ hnext.1)

theorem flushStartLocks_ranked
    (t : LogTarget) (id : TargetId) (rotate : Bool) :
    Ranked Mutex.rank 0 (if rotate then t.rotateLocks id else []) := by
  split
  · exact t.rotateLocks_ranked id
  · exact Ranked.nil

theorem flushAllLocks_ranked
    (t : LogTarget) (o : Owner) (w : Outcomes) (id : TargetId)
    (rotate nocallbacks : Bool) :
    Ranked Mutex.rank 0 (t.flushAllLocks o w id rotate nocallbacks) := by
  refine (t.flushStartLocks_ranked id rotate).append
    (flushLoopLocks_ranked (P := fun _ => True) ?_ _ _ _ trivial)
  intro t o b writeOut _
  exact ⟨trivial,
    (flushLocks_ranked _ o w id b nocallbacks).mono (Nat.zero_le 1)⟩

theorem flushSync_kind
    (t : LogTarget) (o : Owner) (b : LogBuf) (nocallbacks : Bool) :
    (t.flushSync o b nocallbacks).1.kind = t.kind := by
  unfold flushSync
  split
  · rfl
  · exact (returnBuffer_frame
      { t with handed := t.handed ++ [Handed.bank b.data] } o b true
      nocallbacks).1.kind

theorem flushAllSyncLocks_ranked
    {t : LogTarget} (hkind : t.kind ≠ .tty) (o : Owner) (w : Outcomes)
    (id : TargetId) (rotate nocallbacks : Bool) :
    Ranked Mutex.rank 0 (t.flushAllSyncLocks o w id rotate nocallbacks) := by
  refine (t.flushStartLocks_ranked id rotate).append
    (flushLoopLocks_ranked (P := fun t => t.kind ≠ .tty) ?_ _
      (t.flushStart rotate) o ?_)
  · intro t o b writeOut hkind
    have hlocks := flushSyncLocks_ranked
      (t := { t with writeOutBuffers := writeOut }) hkind o w id b nocallbacks
    refine ⟨?_, hlocks.mono (Nat.zero_le 1)⟩
    rw [flushSync_kind]
    exact hkind
  · rw [(t.flushStart_sameConfig rotate).kind]
    exact hkind

/-- The first bank that waits stops the synchronous flush of a tty. -/
theorem flushAllSyncLocks_relocks_iff
    {t : LogTarget} (hkind : t.kind = .tty) (o : Owner) (w : Outcomes)
    (id : TargetId) (rotate nocallbacks : Bool) :
    Relocks (t.flushAllSyncLocks o w id rotate nocallbacks) ↔
      (t.flushStart rotate).writeOutBuffers.items ≠ [] := by
  have hstart := (t.flushStart_sameConfig rotate).kind
  unfold flushAllSyncLocks
  rw [(t.flushStartLocks_ranked id rotate).relocks_append_iff]
  change Relocks (flushLoopLocks _ _
    (t.flushStart rotate).writeOutBuffers.items.length (t.flushStart rotate)
    o) ↔ _
  generalize t.flushStart rotate = start at hstart ⊢
  cases hremove : start.writeOutBuffers.remove with
  | none =>
      rw [BoundedFifo.remove_eq_none_iff.mp hremove]
      simp [flushLoopLocks, Relocks, run]
  | some taken =>
      rcases taken with ⟨b, writeOut⟩
      have hitems := (BoundedFifo.remove_eq_some hremove).1
      rw [hitems, List.length_cons, flushLoopLocks, hremove]
      have hfirst := flushSyncLocks_relocks
        (t := { start with writeOutBuffers := writeOut }) (hstart.trans hkind)
        o w id b nocallbacks
      exact iff_of_true (hfirst.append _) (List.cons_ne_nil _ _)

/-! ## Acts -/

theorem writeAsyncOverflowLocks_ranked
    (t : LogTarget) (w : Outcomes) (id : TargetId) :
    Ranked Mutex.rank 0 (t.writeAsyncOverflowLocks w id) := by
  have hlock := wrLock_ranked id (Nat.zero_le 2)
  unfold writeAsyncOverflowLocks
  split
  · refine (hlock.append ?_).append (refLocks_ranked (by decide))
    split
    · exact hlock
    · exact t.checkAndMaybeRotateLocks_ranked w id (by decide)
  · exact Ranked.nil

theorem writeOverflowLocks_ranked
    (t : LogTarget) (w : Outcomes) (id : TargetId) :
    Ranked Mutex.rank 0 (t.writeOverflowLocks w id) := by
  have hshort := writeMutex_ranked id Ranked.nil
  unfold writeOverflowLocks
  refine hshort.append ?_
  split
  · exact Ranked.nil
  · exact (hshort.append (refLocks_ranked (by decide))).append
      (t.writeAsyncOverflowLocks_ranked w id)

theorem completeWriteLocks_ranked
    (t : LogTarget) (o : Owner) (w : Outcomes) (id : TargetId) (i : ℕ) :
    Ranked Mutex.rank 0 (t.completeWriteLocks o w id i) := by
  unfold completeWriteLocks
  split
  · exact Ranked.nil
  · rename_i b nocallback _
    refine Ranked.append ?_ ((t.returnBufferLocks_ranked o w id b false
      nocallback).mono (Nat.zero_le 1))
    split
    · exact t.checkAndMaybeRotateLocks_ranked w id (by decide)
    · exact Ranked.nil

theorem completeOverflowLocks_ranked (t : LogTarget) (i : ℕ) :
    Ranked Mutex.rank 0 (t.completeOverflowLocks i) := by
  unfold completeOverflowLocks
  split
  · exact Ranked.nil
  · exact refLocks_ranked (by decide)

/-- A synchronous flush with a rotation finds a bank to write. -/
def HasWaiting (t : LogTarget) : Prop :=
  t.writeOutBuffers.items ≠ [] ∨
    0 < t.currentBuffer.handleLen ∧ t.availBuffers.items ≠ [] ∧
      t.writeOutBuffers.hasRoom

theorem rotate_writeOut_ne_nil_iff (t : LogTarget) :
    t.rotate.1.writeOutBuffers.items ≠ [] ↔ t.HasWaiting := by
  unfold HasWaiting
  rcases t.rotate_cases with ⟨hlen, heq⟩ |
    ⟨next, avail, writeOut, hlen, hremove, hadd, heq⟩ | ⟨hlen, hnone, heq⟩ |
    ⟨next, avail, hlen, hremove, hfull, heq⟩
  · rw [heq, hlen]
    simp
  · have hadded := BoundedFifo.addIfRoom_eq_some hadd
    have havail := (BoundedFifo.remove_eq_some hremove).1
    rw [heq, hadded.2.1, havail]
    simp [hlen, hadded.1]
  · rw [heq, hnone]
    simp
  · rw [heq]
    simp [hfull]

/-- The acts that lock a mutex they hold. -/
def Hangs (t : LogTarget) : TargetAct → Prop
  | .flushAllSync rotate _ =>
      t.kind = .tty ∧ (t.flushStart rotate).writeOutBuffers.items ≠ []
  | _ => False

theorem actLocks_ranked
    {t : LogTarget} {a : TargetAct} (hfree : ¬t.Hangs a) (o : Owner)
    (env : Formatting) (w : Outcomes) (id : TargetId) :
    Ranked Mutex.rank 0 (t.actLocks o env w id a) := by
  cases a with
  | write seq text m filter => exact t.writeLocks_ranked o env id text m filter
  | writeOverflow l filter => exact t.writeOverflowLocks_ranked w id
  | flushAll rotate nocallbacks =>
      exact t.flushAllLocks_ranked o w id rotate nocallbacks
  | flushAllSync rotate nocallbacks =>
      by_cases hkind : t.kind = .tty
      · have hempty : (t.flushStart rotate).writeOutBuffers.items = [] := by
          by_contra hwaiting
          exact hfree ⟨hkind, hwaiting⟩
        refine (t.flushStartLocks_ranked id rotate).append ?_
        change Ranked _ _ (flushLoopLocks _ _
          (t.flushStart rotate).writeOutBuffers.items.length _ _)
        rw [hempty]
        exact Ranked.nil
      · exact flushAllSyncLocks_ranked hkind o w id rotate nocallbacks
  | completeWrite i => exact t.completeWriteLocks_ranked o w id i
  | completeOverflow i => exact t.completeOverflowLocks_ranked i
  | finalizeV8Callback b => exact b.locks_ranked id (Nat.zero_le 1)
  | disableWrites v => exact writeMutex_ranked id Ranked.nil
  | setCallback => exact writeMutex_ranked id Ranked.nil

theorem Hangs.relocks
    {t : LogTarget} {a : TargetAct} (hhangs : t.Hangs a) (o : Owner)
    (env : Formatting) (w : Outcomes) (id : TargetId) :
    Relocks (t.actLocks o env w id a) := by
  cases a with
  | flushAllSync rotate nocallbacks =>
      exact (flushAllSyncLocks_relocks_iff hhangs.1 o w id rotate
        nocallbacks).mpr hhangs.2
  | _ => exact hhangs.elim

/-- A tty that has nothing to write has nothing to write after its synchronous
flush either. -/
theorem not_hasWaiting_flushAllSync
    {t : LogTarget} (hfree : ¬t.HasWaiting) (o : Owner) (nocallbacks : Bool) :
    ¬(t.flushAllSync o true nocallbacks).1.HasWaiting := by
  have hempty : t.rotate.1.writeOutBuffers.items = [] := by
    by_contra hwaiting
    exact hfree (t.rotate_writeOut_ne_nil_iff.mp hwaiting)
  have hflushed : t.flushAllSync o true nocallbacks = (t.rotate.1, o) := by
    unfold flushAllSync
    simp only [if_true, hempty]
    rfl
  rw [hflushed]
  rcases t.rotate_cases with ⟨hlen, heq⟩ |
    ⟨next, avail, writeOut, hlen, hremove, hadd, heq⟩ | ⟨hlen, hnone, heq⟩ |
    ⟨next, avail, hlen, hremove, hfull, heq⟩
  · rw [heq]
    exact hfree
  · rw [heq, (BoundedFifo.addIfRoom_eq_some hadd).2.1] at hempty
    simp at hempty
  all_goals
    rw [heq] at hempty ⊢
    rintro (hwaiting | ⟨hlong, -⟩)
    · exact hwaiting hempty
    · simp [LogBuf.handleLen, LogBuf.clear, bytesOf] at hlong

end LogTarget

end GreaseLog
