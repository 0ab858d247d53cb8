import GreaseLog.LoggerSteps
import GreaseLog.Run

/-!
# Callers and the thread of the logger

In `Logger.step` a caller takes an entry from the pool, fills it and puts it on
the command queue in one move.  Here these are separate moves of any number of
callers, and the thread of the logger takes a command, lets one target act
after the other and gives the entry back, so that all of them interleave.  The
queues are the only things they share, and each operation of a queue is one
move.

The moves of `Logger.step` are runs of this system without interruptions.
-/

namespace GreaseLog

inductive PoolJob where
  | log (m : LogMeta) (following : IgnoreList) (text : List UInt8)
  | redirect (r : FdRedirectorTicket) (d : RedirectDefaults)
      (data : List UInt8)
  | klog (mem : List UInt8) (start remain : ℕ)

namespace PoolJob

def fill : PoolJob → SingleLog → SingleLog
  | .log m following text, l => Logger.fillMessage m following text l
  | .redirect r d data, l => if data = [] then l else r.fill d data l
  | .klog mem start remain, l =>
      (parseSingleKlogToSingleLog mem start remain .levelBegin l).entry

/-- The caller goes on to submit the entry: `read` returned something, or the
record was complete. -/
def goesOn : PoolJob → SingleLog → Bool
  | .log _ _ _, _ => true
  | .redirect _ _ data, _ => !data.isEmpty
  | .klog mem start remain, l =>
      (parseSingleKlogToSingleLog mem start remain .levelBegin l).loggable

/-- `_submitBuffer` does not queue an entry without bytes; `_log` does not
look. -/
def queues : PoolJob → SingleLog → Bool
  | .log _ _ _, _ => true
  | _, l => !(l.buf.used < 1)

/-- `_log` takes no entry for a message that is too large for the pool. -/
def isLarge (bufferSize : ℕ) : PoolJob → Bool
  | .log _ _ text => bufferSize < text.length
  | _ => false

def atomic : PoolJob → Logger → Logger
  | .log m following text, s => s.logEntry m following text
  | .redirect r d data, s => s.redirect r d data
  | .klog mem start remain, s => s.klog mem start remain

/-- A move of the logger, cut at the points where the pool and the queue are
used. -/
theorem atomic_of_small
    (job : PoolJob) (s : Logger) (hsmall : job.isLarge s.bufferSize = false) :
    job.atomic s =
      match s.grabInLogBuffer with
      | none => s
      | some (l, s) =>
          if job.goesOn l then
            if job.queues (job.fill l) then
              (s.enqueue .newLog (job.fill l)).getD (s.putBack (job.fill l))
            else s.putBack (job.fill l)
          else s.putBack (job.fill l) := by
  cases job with
  | log m following text =>
      have hfits : ¬s.bufferSize < text.length := by
        simpa [isLarge] using hsmall
      simp only [atomic, Logger.logEntry]
      rw [if_neg hfits]
      rfl
  | redirect r d data =>
      simp only [atomic, Logger.redirect, goesOn, queues, fill,
        Logger.submitBuffer]
      cases s.grabInLogBuffer with
      | none => rfl
      | some grabbed =>
          cases data with
          | nil => rfl
          | cons byte data => simp
  | klog mem start remain =>
      simp only [atomic, Logger.klog, goesOn, queues, fill,
        Logger.submitBuffer]
      cases s.grabInLogBuffer with
      | none => rfl
      | some grabbed => simp

end PoolJob

inductive Stage where
  | grabbed
  | ready
  | returning
  deriving DecidableEq, Repr

structure Holder where
  job : PoolJob
  stage : Stage
  entry : SingleLog

/-- The command the thread of the logger works on, with the acts still to be
made. -/
structure Work where
  cmd : InternalCmdReq
  acts : List (TargetId × TargetAct)

/-- `submitted` is not in the source: it remembers under which number the
entry of a job was queued. -/
structure PoolSystem where
  logger : Logger
  holders : List Holder
  worker : Option Work
  submitted : ℕ → Option PoolJob

def Logger.Act.leavesPool : Logger.Act → Bool
  | .log _ _ _ | .redirect _ _ _ | .klog _ _ _ | .handle _ => false
  | _ => true

inductive PoolAct where
  | grab (job : PoolJob)
  | fill (i : ℕ)
  | submit (i : ℕ)
  | giveBack (i : ℕ)
  | take
  | act (env : Formatting)
  | finish
  | shutdown
  | addTarget (id : TargetId) (t : LogTarget)
  | other (a : Logger.Act)

namespace PoolSystem

/-- A logger with any targets and filters whose pool and command queue are as
the constructor leaves them. -/
def start (s : Logger) : PoolSystem where
  logger := { s with
    masterBufferAvail := (Logger.new s.bufferSize).masterBufferAvail
    poolBlocked := false
    owner := { s.owner with
      internalCmdQueue := BoundedFifo.empty internalQueueSize } }
  holders := []
  worker := none
  submitted := fun _ => none

def grab (s : PoolSystem) (job : PoolJob) : PoolSystem :=
  if job.isLarge s.logger.bufferSize then
    { s with logger := job.atomic s.logger }
  else
    match s.logger.grabInLogBuffer with
    | none => s
    | some (l, logger) =>
        { s with
          logger := logger
          holders := s.holders ++ [⟨job, .grabbed, l⟩] }

def fill (s : PoolSystem) (i : ℕ) : PoolSystem :=
  match s.holders[i]? with
  | some ⟨job, .grabbed, l⟩ =>
      let stage : Stage := if job.goesOn l then .ready else .returning
      { s with holders := s.holders.set i ⟨job, stage, job.fill l⟩ }
  | _ => s

def submit (s : PoolSystem) (i : ℕ) : PoolSystem :=
  match s.holders[i]? with
  | some ⟨job, .ready, l⟩ =>
      if job.queues l then
        match s.logger.enqueue .newLog l with
        | some logger =>
            { s with
              logger := logger
              holders := s.holders.eraseIdx i
              submitted :=
                Function.update s.submitted s.logger.nextSeq (some job) }
        | none =>
            { s with holders := s.holders.set i ⟨job, .returning, l⟩ }
      else
        { s with holders := s.holders.set i ⟨job, .returning, l⟩ }
  | _ => s

def giveBack (s : PoolSystem) (i : ℕ) : PoolSystem :=
  match s.holders[i]? with
  | some ⟨_, .returning, l⟩ =>
      { s with
        logger := s.logger.putBack l
        holders := s.holders.eraseIdx i }
  | _ => s

def take (s : PoolSystem) : PoolSystem :=
  match s.worker, s.logger.removeCmd with
  | none, some (c, logger) =>
      { s with
        logger := { logger with
          strayed := logger.strayed || logger.cmdStrays c }
        worker := some ⟨c, logger.cmdActs c⟩ }
  | _, _ => s

def act (s : PoolSystem) (env : Formatting) : PoolSystem :=
  match s.worker with
  | some ⟨c, a :: rest⟩ =>
      { s with
        logger := s.logger.perform env a.1 a.2
        worker := some ⟨c, rest⟩ }
  | _ => s

def finish (s : PoolSystem) : PoolSystem :=
  match s.worker with
  | some ⟨c, []⟩ =>
      { s with logger := s.logger.finishCmd c, worker := none }
  | _ => s

/-- `GreaseLogger::shutdown` queues a command like any other. -/
def shutdown (s : PoolSystem) : PoolSystem :=
  match s.logger.owner.internalCmdQueue.addIfRoom .internalShutdown with
  | some queue => { s with logger := s.logger.withQueue queue }
  | none => s

def step (s : PoolSystem) : PoolAct → PoolSystem
  | .grab job => s.grab job
  | .fill i => s.fill i
  | .submit i => s.submit i
  | .giveBack i => s.giveBack i
  | .take => s.take
  | .act env => s.act env
  | .finish => s.finish
  | .shutdown => s.shutdown
  | .addTarget id t => { s with logger := s.logger.setTarget id t }
  | .other a => if a.leavesPool then { s with logger := s.logger.step a } else s

/-! ## Callers without interruptions -/

/-- The moves of one caller, who is the last to have come. -/
def callerRun (s : PoolSystem) (job : PoolJob) : List PoolAct :=
  [.grab job, .fill s.holders.length, .submit s.holders.length,
    .giveBack s.holders.length]

/-- The callers and the thread are where they were, and the logger has moved
to `logger`. -/
structure MovedTo (s : PoolSystem) (logger : Logger) (s' : PoolSystem) :
    Prop where
  logger : s'.logger = logger
  holders : s'.holders = s.holders
  worker : s'.worker = s.worker

section
variable (s : PoolSystem) (logger : Logger) (job : PoolJob) (l : SingleLog)

def withLast (stage : Stage) : PoolSystem :=
  { s with logger := logger, holders := s.holders ++ [⟨job, stage, l⟩] }

theorem getElem?_withLast (stage : Stage) :
    (s.withLast logger job l stage).holders[s.holders.length]? =
      some ⟨job, stage, l⟩ := by
  simp [withLast]

theorem eraseIdx_withLast (stage : Stage) :
    (s.withLast logger job l stage).holders.eraseIdx s.holders.length =
      s.holders := by
  unfold withLast
  rw [List.eraseIdx_append_of_length_le le_rfl, Nat.sub_self]
  simp

theorem set_withLast (stage : Stage) (holder : Holder) :
    (s.withLast logger job l stage).holders.set s.holders.length holder =
      s.holders ++ [holder] := by
  unfold withLast
  rw [List.set_append_right _ _ le_rfl, Nat.sub_self]
  rfl

theorem giveBack_withLast :
    s.MovedTo (logger.putBack l)
      ((s.withLast logger job l .returning).giveBack s.holders.length) := by
  unfold giveBack
  rw [getElem?_withLast]
  exact ⟨rfl, s.eraseIdx_withLast logger job l .returning, rfl⟩

theorem submit_giveBack_withLast :
    s.MovedTo
      (if job.queues l then (logger.enqueue .newLog l).getD (logger.putBack l)
        else logger.putBack l)
      (((s.withLast logger job l .ready).submit
        s.holders.length).giveBack s.holders.length) := by
  have hreturned : { s.withLast logger job l .ready with
      holders := (s.withLast logger job l .ready).holders.set s.holders.length
        ⟨job, .returning, l⟩ } = s.withLast logger job l .returning := by
    rw [set_withLast]
    rfl
  unfold submit
  rw [getElem?_withLast]
  dsimp only
  split
  · cases henqueue : logger.enqueue .newLog l with
    | none =>
        have hnone : (s.withLast logger job l .ready).logger.enqueue .newLog l =
            none := henqueue
        rw [hnone, Option.getD_none]
        dsimp only
        rw [hreturned]
        exact s.giveBack_withLast logger job l
    | some next =>
        have hsome : (s.withLast logger job l .ready).logger.enqueue .newLog l =
            some next := henqueue
        rw [hsome, Option.getD_some]
        dsimp only
        rw [eraseIdx_withLast]
        unfold giveBack
        simp only [List.getElem?_length]
        exact ⟨rfl, rfl, rfl⟩
  · rw [hreturned]
    exact s.giveBack_withLast logger job l

theorem fill_withLast :
    (s.withLast logger job l .grabbed).fill s.holders.length =
      s.withLast logger job (job.fill l)
        (if job.goesOn l then .ready else .returning) := by
  unfold fill
  rw [getElem?_withLast]
  dsimp only
  rw [set_withLast]
  rfl

theorem submit_withLast_returning :
    (s.withLast logger job l .returning).submit s.holders.length =
      s.withLast logger job l .returning := by
  unfold submit
  rw [getElem?_withLast]

end

/-- A caller who is not interrupted makes one move of the logger. -/
theorem final_callerRun (s : PoolSystem) (job : PoolJob) :
    s.MovedTo (job.atomic s.logger) (Run.final step s (s.callerRun job)) := by
  change s.MovedTo (job.atomic s.logger) ((((s.grab job).fill
    s.holders.length).submit s.holders.length).giveBack s.holders.length)
  have hidle : ∀ logger : Logger, s.MovedTo logger
      (((({ s with logger := logger }).fill s.holders.length).submit
        s.holders.length).giveBack s.holders.length) := by
    intro logger
    simp only [fill, submit, giveBack, List.getElem?_length]
    exact ⟨rfl, rfl, rfl⟩
  unfold grab
  cases hlarge : job.isLarge s.logger.bufferSize with
  | true =>
      rw [if_pos rfl]
      exact hidle _
  | false =>
      rw [if_neg Bool.false_ne_true, job.atomic_of_small s.logger hlarge]
      cases hgrab : s.logger.grabInLogBuffer with
      | none => exact hidle s.logger
      | some grabbed =>
          rcases grabbed with ⟨l, logger⟩
          dsimp only
          have hheld : { s with
              logger := logger
              holders := s.holders ++ [⟨job, .grabbed, l⟩] } =
              s.withLast logger job l .grabbed := rfl
          rw [hheld, fill_withLast]
          cases hgoesOn : job.goesOn l with
          | true => exact s.submit_giveBack_withLast logger job (job.fill l)
          | false =>
              simp only [Bool.false_eq_true, if_false]
              rw [submit_withLast_returning]
              exact s.giveBack_withLast logger job (job.fill l)

/-! ## The thread without interruptions -/

def threadRun (s : PoolSystem) (env : Formatting) : List PoolAct :=
  .take :: (List.replicate (s.take.worker.elim 0 fun w => w.acts.length)
    (.act env) ++ [.finish])

theorem final_acts
    (s : PoolSystem) (env : Formatting) (c : InternalCmdReq)
    (acts : List (TargetId × TargetAct)) (hworker : s.worker = some ⟨c, acts⟩) :
    Run.final step s (List.replicate acts.length (.act env) ++ [.finish]) =
      { s with
        logger := (s.logger.performAll env acts).finishCmd c
        worker := none } := by
  induction acts generalizing s with
  | nil => simp [step, finish, hworker, Logger.performAll]
  | cons a acts ih =>
      have hact : s.act env = { s with
          logger := s.logger.perform env a.1 a.2
          worker := some ⟨c, acts⟩ } := by
        simp [act, hworker]
      have hrest := ih (s.act env) (by rw [hact])
      rw [List.length_cons, List.replicate_succ, List.cons_append,
        Run.final_cons]
      change Run.final step (s.act env) _ = _
      rw [hrest, hact]
      rfl

/-- The thread, when it is not interrupted, makes one move of the logger. -/
theorem final_threadRun
    (s : PoolSystem) (env : Formatting) (hidle : s.worker = none) :
    Run.final step s (s.threadRun env) =
      { s with logger := s.logger.handleInternalCmd env } := by
  unfold threadRun Logger.handleInternalCmd
  rw [Run.final_cons]
  change Run.final step s.take _ = _
  cases hremove : s.logger.removeCmd with
  | none =>
      have htake : s.take = s := by simp [take, hidle, hremove]
      have hnone : (s.worker.elim 0 fun w => w.acts.length) = 0 := by
        rw [hidle]
        rfl
      rw [htake, hnone]
      change s.finish = s
      simp [finish, hidle]
  | some taken =>
      rcases taken with ⟨c, logger⟩
      have htake : s.take = { s with
          logger := { logger with
            strayed := logger.strayed || logger.cmdStrays c }
          worker := some ⟨c, logger.cmdActs c⟩ } := by
        simp [take, hidle, hremove]
      have hacts := final_acts s.take env c (logger.cmdActs c) (by rw [htake])
      rw [htake] at hacts ⊢
      simp only [Option.elim_some]
      rw [hacts, ← hidle]
      rfl

end PoolSystem

end GreaseLog
