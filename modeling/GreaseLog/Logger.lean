import GreaseLog.Dispatch
import GreaseLog.EntrySources
import GreaseLog.LogTarget

/-!
# The logger

`GreaseLogger` holds the filters, the pool of entries, the command queue and
the targets.  Callers put messages on the queue; the thread of the logger takes
one command at a time, sifts and dispatches the message and lets the targets
write.  `step` makes one of these moves, and a run is a list of them.

Everything a move does to a target is a `TargetAct`, so that what holds for
every act of a target holds for every move of the logger.
-/

namespace GreaseLog

/-! ## Acts of a target -/

inductive TargetAct where
  | write (seq : ℕ) (text : List UInt8) (m : LogMeta) (filter : Filter)
  | writeOverflow (l : SingleLog) (filter : Filter)
  | flushAll (rotate nocallbacks : Bool)
  | flushAllSync (rotate nocallbacks : Bool)
  | completeWrite (i : ℕ)
  | completeOverflow (i : ℕ)
  | finalizeV8Callback (b : LogBuf)
  | disableWrites (v : Bool)
  | setCallback
  deriving DecidableEq

def LogTarget.act (t : LogTarget) (o : Owner) (env : Formatting) :
    TargetAct → LogTarget × Owner
  | .write seq text m filter => t.write o env seq text m filter
  | .writeOverflow l filter => t.writeOverflow o env l filter
  | .flushAll rotate nocallbacks => t.flushAll o rotate nocallbacks
  | .flushAllSync rotate nocallbacks => t.flushAllSync o rotate nocallbacks
  | .completeWrite i => t.completeWrite o i
  | .completeOverflow i => t.completeOverflow o i
  | .finalizeV8Callback b => (t.finalizeV8Callback b, o)
  | .disableWrites v => (t.disableWrites v, o)
  | .setCallback => (t.setCallback, o)

/-! ## State -/

structure Logger where
  bufferSize : ℕ
  opts : SiftOpts
  filters : FilterTable
  masterBufferAvail : BoundedFifo SingleLog
  defaultTarget : Option LogTarget
  targets : AList (fun _ : TargetId => LogTarget)
  owner : Owner
  nextSeq : ℕ
  poolBlocked : Bool
  strayed : Bool

namespace Logger

def new (bufferSize : ℕ) : Logger where
  bufferSize := bufferSize
  opts := ⟨0, false⟩
  filters := FilterTable.empty
  masterBufferAvail := {
    capacity := primaryBufferEntries
    items := (List.range primaryBufferEntries).map
      fun n => SingleLog.new (some n) bufferSize
    fits := by simp }
  defaultTarget := none
  targets := ∅
  owner := {
    internalCmdQueue := BoundedFifo.empty internalQueueSize
    callerLogCallbacks := BoundedFifo.empty v8LogCallbackQueueSize
    needGreaseThread := 0
    userBufs := []
    unrefFailed := false
    deadlocked := false
    delivered := []
    refused := false }
  nextSeq := 0
  poolBlocked := false
  strayed := false

/-- The target an id stands for; `0` is the default target. -/
def target? (s : Logger) (id : TargetId) : Option LogTarget :=
  if id = 0 then s.defaultTarget else s.targets.lookup id

def setTarget (s : Logger) (id : TargetId) (t : LogTarget) : Logger :=
  if id = 0 then { s with defaultTarget := some t }
  else { s with targets := s.targets.insert id t }

def registered (s : Logger) (id : TargetId) : Bool :=
  (s.targets.lookup id).isSome

/-- Let a target act.  Nothing happens when there is no such target. -/
def perform (s : Logger) (env : Formatting) (id : TargetId) (a : TargetAct) :
    Logger :=
  match s.target? id with
  | none => s
  | some t =>
      let next := t.act s.owner env a
      { s.setTarget id next.1 with owner := next.2 }

def performAll (s : Logger) (env : Formatting)
    (acts : List (TargetId × TargetAct)) : Logger :=
  acts.foldl (fun s a => s.perform env a.1 a.2) s

/-! ## Taking messages in -/

/-- The blocking `masterBufferAvail.add` of a cleared entry. -/
def putBack (s : Logger) (l : SingleLog) : Logger :=
  match s.masterBufferAvail.addIfRoom l.clear with
  | some avail => { s with masterBufferAvail := avail }
  | none => { s with poolBlocked := true }

/-- `internalCmdQueue.addMvIfRoom` for a command that carries a message. -/
def enqueue (s : Logger) (cmd : SingleLog → InternalCmdReq) (l : SingleLog) :
    Option Logger :=
  match s.owner.internalCmdQueue.addIfRoom (cmd { l with seq := s.nextSeq }) with
  | some queue =>
      some { s with
        owner := { s.owner with internalCmdQueue := queue }
        nextSeq := s.nextSeq + 1 }
  | none => none

def grabInLogBuffer (s : Logger) : Option (SingleLog × Logger) :=
  match s.masterBufferAvail.remove with
  | some (l, avail) => some (l, { s with masterBufferAvail := avail })
  | none => none

def submitBuffer (s : Logger) (l : SingleLog) : Logger :=
  if l.buf.used < 1 then s.putBack l
  else (s.enqueue .newLog l).getD (s.putBack l)

/-- The entry `_log` fills for a message that fits the pool. -/
def fillMessage (m : LogMeta) (following : IgnoreList) (text : List UInt8)
    (l : SingleLog) : SingleLog :=
  { l with buf := l.buf.memcpy text }.setMeta m following

/-- The entry `_log` allocates for a message that does not. -/
def largeMessage (m : LogMeta) (following : IgnoreList) (text : List UInt8) :
    SingleLog :=
  let l := SingleLog.new none (min text.length maxLogMessageSize)
  { l with buf := l.buf.memcpyEnding text overflowEnding }.setMeta m following

/-- `_log`.  `following` is what lies behind the metadata in memory. -/
def logEntry (s : Logger) (m : LogMeta) (following : IgnoreList)
    (text : List UInt8) : Logger :=
  if s.bufferSize < text.length then
    (s.enqueue (.writeTargetOverflow 0)
      (largeMessage m following text)).getD s
  else
    match s.grabInLogBuffer with
    | none => s
    | some (l, s) =>
        let l := fillMessage m following text l
        (s.enqueue .newLog l).getD (s.putBack l)

/-- `log` and `logP`.  They differ in where the sifted metadata lives: `logP`
uses the caller's own, `log` a copy on the stack, so that `following` is
whatever the stack holds there. -/
def log (s : Logger) (m : LogMeta) (following : IgnoreList)
    (text : List UInt8) : Logger :=
  if greaseMaxMessageSize < text.length then s
  else
    let sifted := s.filters.sift s.opts m
    if sifted.1 then s.logEntry sifted.2 following text else s

/-- One round of a redirect callback: a read of at least one byte. -/
def redirect (s : Logger) (r : FdRedirectorTicket) (d : RedirectDefaults)
    (data : List UInt8) : Logger :=
  match s.grabInLogBuffer with
  | none => s
  | some (l, s) =>
      if data = [] then s.putBack l else s.submitBuffer (r.fill d data l)

/-- One round of the kernel listener, over the bytes still to be parsed. -/
def klog (s : Logger) (mem : List UInt8) (start remain : ℕ) : Logger :=
  match s.grabInLogBuffer with
  | none => s
  | some (l, s) =>
      let parsed := parseSingleKlogToSingleLog mem start remain .levelBegin l
      if parsed.loggable then s.submitBuffer parsed.entry
      else s.putBack parsed.entry

/-! ## Commands -/

def sifted (s : Logger) (l : SingleLog) : SingleLog :=
  { l with logMeta := { l.logMeta with
    m := (s.filters.sift s.opts l.logMeta.m).2 } }

def accepts (s : Logger) (l : SingleLog) : Bool :=
  (s.filters.sift s.opts l.logMeta.m).1

def dispatch (s : Logger) (l : SingleLog) : List Filter :=
  s.filters.dispatch s.registered (s.sifted l).logMeta

def newLogActs (s : Logger) (l : SingleLog) : List (TargetId × TargetAct) :=
  let entry := s.sifted l
  (s.dispatch l).map fun f =>
    (f.targetId, .write l.seq l.buf.text entry.logMeta.m f)

def overflowActs (s : Logger) (l : SingleLog) : List (TargetId × TargetAct) :=
  (s.dispatch l).flatMap fun f =>
    [(f.targetId, .flushAll true false),
      (f.targetId, .writeOverflow (s.sifted l) f)]

/-- `flushAllSync(true,true)`, which does not pass its arguments on to the
default target. -/
def shutdownActs (s : Logger) : List (TargetId × TargetAct) :=
  (0, .flushAllSync true false) ::
    s.targets.keys.map fun id => (id, .flushAllSync true true)

def cmdActs (s : Logger) : InternalCmdReq → List (TargetId × TargetAct)
  | .newLog l => if s.accepts l then s.newLogActs l else []
  | .targetRotateBuffer d => [(d, .flushAll false false)]
  | .writeTargetOverflow _ l => if s.accepts l then s.overflowActs l else []
  | .internalShutdown => s.shutdownActs

/-- The dispatch of this command leaves the filter table. -/
def cmdStrays (s : Logger) : InternalCmdReq → Bool
  | .newLog l | .writeTargetOverflow _ l =>
      s.accepts l && s.filters.strays (s.sifted l).logMeta.m
  | _ => false

def finishCmd (s : Logger) : InternalCmdReq → Logger
  | .newLog l => s.putBack (s.sifted l)
  | _ => s

def execCmd (s : Logger) (env : Formatting) (c : InternalCmdReq) : Logger :=
  { s with strayed := s.strayed || s.cmdStrays c }.performAll env (s.cmdActs c)

def removeCmd (s : Logger) : Option (InternalCmdReq × Logger) :=
  match s.owner.internalCmdQueue.remove with
  | some (c, queue) =>
      some (c, { s with owner := { s.owner with internalCmdQueue := queue } })
  | none => none

/-- One round of the loop of `handleInternalCmd`. -/
def handleInternalCmd (s : Logger) (env : Formatting) : Logger :=
  match s.removeCmd with
  | none => s
  | some (c, s) => (s.execCmd env c).finishCmd c

/-! ## Callbacks of the caller -/

/-- `_doLibCallback` gives the user a bank or a copy of an overflow write. -/
def doLibCallback (s : Logger) : WriteCBData → Logger
  | .bank t b => { s with owner := { s.owner with
      userBufs := s.owner.userBufs ++ [.bank t.toInt32 b] } }
  | .overflow _ bufs => { s with owner := { s.owner with
      userBufs := s.owner.userBufs ++ [.overflow bufs] } }

/-- One round of the loop of `callV8LogCallbacks`. -/
def callV8LogCallbacks (s : Logger) : Logger :=
  match s.owner.callerLogCallbacks.remove with
  | none => s
  | some (data, callbacks) =>
      { s with owner := { s.owner with
        callerLogCallbacks := callbacks } }.doLibCallback data

/-- `returnBufferToTarget`, which looks the target up in the table. -/
def returnBufferToTarget (s : Logger) (env : Formatting) (id : TargetId)
    (shadow : LogBuf) : Logger :=
  if s.registered id ∧ id ≠ 0 then
    s.perform env id (.finalizeV8Callback shadow)
  else s

/-- `GreaseLib_cleanup_GreaseLibBuf` for the user's buffer number `j`. -/
def cleanupGreaseLibBuf (s : Logger) (env : Formatting) (j : ℕ) : Logger :=
  match s.owner.userBufs[j]? with
  | none => s
  | some buf =>
      let s := { s with owner := { s.owner with
        userBufs := s.owner.userBufs.eraseIdx j } }
      match buf with
      | .bank id shadow =>
          if -1 < id then s.returnBufferToTarget env id.toUInt32 shadow else s
      | .overflow _ => s

/-! ## Steps -/

inductive Act where
  | log (m : LogMeta) (following : IgnoreList) (text : List UInt8)
  | redirect (r : FdRedirectorTicket) (d : RedirectDefaults)
      (data : List UInt8)
  | klog (mem : List UInt8) (start remain : ℕ)
  | handle (env : Formatting)
  | flushTimer (id : TargetId) (nocallbacks : Bool)
  | completeWrite (id : TargetId) (i : ℕ)
  | completeOverflow (id : TargetId) (i : ℕ)
  | callV8LogCallbacks
  | cleanup (j : ℕ)
  | filter (c : FilterCall)
  | disableTarget (id : TargetId) (v : Bool)
  | setCallback (id : TargetId)

def noFormatting : Formatting where
  header := fun _ _ _ => []
  footer := fun _ _ _ => []
  jsonEscape := fun _ s => s

def step (s : Logger) : Act → Logger
  | .log m following text => s.log m following text
  | .redirect r d data => s.redirect r d data
  | .klog mem start remain => s.klog mem start remain
  | .handle env => s.handleInternalCmd env
  | .flushTimer id nocallbacks =>
      s.perform noFormatting id (.flushAll true nocallbacks)
  | .completeWrite id i => s.perform noFormatting id (.completeWrite i)
  | .completeOverflow id i => s.perform noFormatting id (.completeOverflow i)
  | .callV8LogCallbacks => s.callV8LogCallbacks
  | .cleanup j => s.cleanupGreaseLibBuf noFormatting j
  | .filter c => { s with filters := s.filters.call c }
  | .disableTarget id v => s.perform noFormatting id (.disableWrites v)
  | .setCallback id => s.perform noFormatting id .setCallback

end Logger

end GreaseLog
