import GreaseLog.SinkRoundTrip
import GreaseLog.Run

/-!
# Clients of the datagram sink

`grease_client.c` logs through `grease_log`, a pointer all threads of a
process share, to the logger in the same process if its module is loaded, or
to a datagram sink, or not at all, and then to `stderr`.  The socket, its
address and the error count are kept for each thread.  Client processes and
the listeners of the sinks take their steps in any order; a datagram socket
delivers what it accepts, once and in order.

A call of `grease_printf` takes two steps: it reads `grease_log`, for the test
and for the call, and calls what it has read.  In between other threads go on.
An init function takes one step up to the wait for a ping: the model is about
programs in which the threads of a process do not search for the module at the
same time.
-/

namespace GreaseLog

def sinkMaxErrors : ℕ := 10
def greaseCMacroMaxMessage : ℕ := 250
def greaseDefaultSinkPath : String := "/tmp/grease.socket"

/-- What `grease_log` may point to besides `NULL`; a symbol found with `dlsym`
is known by its address. -/
inductive GreaseLogFn where
  | logToSink
  | logLocal (address : ℕ)
  deriving DecidableEq, Repr

/-- `sink_fd`.  Before the first setup of a thread it is `0`, which is not a
socket of the client, and after a failed `socket` it is no descriptor at all.
The number of a closed socket may have been given out again. -/
inductive SinkFd where
  | unset
  | opened
  | broken
  | closed
  deriving DecidableEq, Repr

/-- A call of `grease_printf`, whose text is already formatted. -/
structure PrintfCall where
  m : LogMeta
  padding : UInt32
  text : List UInt8
  deriving DecidableEq, Repr

/-- The variables of a thread.  `myTid` tells whether `my_tid` is its own id,
`configured` whether `message` and `iov` were filled in.  A thread that waits
in `ping_sink` waits for the answer to its ping number `pingNo`; one that is in
`grease_printf` has read `grease_log` and is about to call it.  `inited` is not
a variable of the program: it notes that the thread has called one of the init
functions. -/
structure ClientThread where
  fd : SinkFd := .unset
  addr : String := ""
  configured : Bool := false
  myTid : Bool := false
  errCnt : ℕ := 0
  waiting : Bool := false
  answered : Bool := false
  pingNo : ℕ := 0
  printing : Option (PrintfCall × GreaseLogFn) := none
  inited : Bool := false
  deriving DecidableEq, Repr

def ClientThread.busy (th : ClientThread) : Bool :=
  th.waiting || th.printing.isSome

/-- `foundModule` is none as long as the search has not run. -/
structure ClientProcess where
  greaseLog : Option GreaseLogFn := none
  foundModule : Option Bool := none
  localLog : Option ℕ := none
  threads : ℕ → ClientThread := fun _ => {}

def ClientProcess.setThread (p : ClientProcess) (t : ℕ) (th : ClientThread) :
    ClientProcess :=
  { p with threads := Function.update p.threads t th }

/-! ## Looking for the module -/

/-- A shared object of the process: whether its name has `greaseLog.node` in
it, whether `dlopen` succeeds, and `grease_logLocal` if it is there. -/
structure LoadedModule where
  named : Bool
  opens : Bool
  symbol : Option ℕ
  deriving DecidableEq, Repr

def greasePlhdrCallback (p : ClientProcess) (m : LoadedModule) : ClientProcess :=
  if m.named && m.opens then
    match m.symbol with
    | some r => { p with localLog := some r, foundModule := some true }
    | none => { p with localLog := none }
  else p

def checkGreaseSymbols (p : ClientProcess) (modules : List LoadedModule) :
    ClientProcess :=
  modules.foldl greasePlhdrCallback { p with foundModule := some false }

/-! ## Setting a thread up -/

/-- What the system answers to the calls of a setup; `pingSent` says that the
ping got as far as `sendto`. -/
structure SetupEnv where
  socketOk : Bool
  sendBufSize : ℤ
  pingSent : Bool
  deriving DecidableEq, Repr

inductive SetupResult where
  | ok
  | failed
  | pinging
  deriving DecidableEq, Repr

def setupSinkDgramSocket (th : ClientThread) (path : String) (noPing : Bool)
    (env : SetupEnv) : ClientThread × SetupResult :=
  let th := { th with errCnt := 0 }
  if th.myTid then (th, .ok)
  else
    -- the calls that follow a failed `socket` fail too, and leave
    -- `send_buf_size` as it was set
    let th := if env.socketOk then { th with fd := .opened, addr := path }
      else { th with fd := .broken }
    if env.sendBufSize < 100 then (th, .failed)
    else
      let th := { th with configured := true }
      if noPing then ({ th with myTid := true }, .ok)
      else if env.pingSent then
        ({ th with
          waiting := true
          answered := false
          pingNo := th.pingNo + 1 }, .pinging)
      else (th, .failed)

/-- What an init function makes of the result of the setup. -/
def ClientProcess.afterSetup (p : ClientProcess) : SetupResult → ClientProcess
  | .ok => { p with greaseLog := some .logToSink }
  | .failed => { p with greaseLog := none }
  | .pinging => p

inductive InitKind where
  | initLogger
  | fastInitLogger
  | fastInitLoggerExtended (path : String)
  deriving DecidableEq, Repr

def InitKind.path : InitKind → String
  | .fastInitLoggerExtended path => path
  | _ => greaseDefaultSinkPath

def InitKind.noPing : InitKind → Bool
  | .initLogger => false
  | _ => true

/-- `grease_initLogger` searches once for the process, the others each time. -/
def ClientProcess.search (p : ClientProcess) (kind : InitKind)
    (modules : List LoadedModule) : ClientProcess :=
  if kind = .initLogger ∧ p.foundModule ≠ none then p
  else checkGreaseSymbols p modules

/-- The init functions, up to the wait for the answer to a ping. -/
def ClientProcess.init (p : ClientProcess) (t : ℕ) (kind : InitKind)
    (modules : List LoadedModule) (env : SetupEnv) :
    ClientProcess × SetupResult :=
  let p := (p.setThread t { p.threads t with inited := true }).search kind modules
  if p.foundModule = some true then
    ({ p with greaseLog := p.localLog.map .logLocal }, .ok)
  else
    let r := setupSinkDgramSocket (p.threads t) kind.path kind.noPing env
    ((p.setThread t r.1).afterSetup r.2, r.2)

/-- `grease_initLogger` goes on when the answer is there, or the wait is over. -/
def ClientProcess.afterPing (p : ClientProcess) (t : ℕ) : ClientProcess :=
  let th := p.threads t
  if th.answered then
    (p.setThread t { th with waiting := false, myTid := true }).afterSetup .ok
  else
    (p.setThread t { th with waiting := false }).afterSetup .failed

/-- `grease_getConnectivityMethod`. -/
def ClientProcess.getConnectivityMethod (p : ClientProcess) : ℕ :=
  if p.greaseLog = some .logToSink then 3
  else if p.greaseLog = none then 0
  else if p.greaseLog = p.localLog.map .logLocal then 1
  else 999

def ClientProcess.closeSocket (p : ClientProcess) (t : ℕ) : ClientProcess :=
  p.setThread t { p.threads t with fd := .closed }

/-- `grease_shutdown`.  The number in a `sink_fd` that was closed before, or
never set, may belong to another thread by now, which then loses its socket. -/
def ClientProcess.shutdown (p : ClientProcess) (t : ℕ) (holder : Option ℕ) :
    ClientProcess :=
  if p.greaseLog = some .logToSink then
    match (p.threads t).fd, holder with
    | .opened, _ => p.closeSocket t
    | .broken, _ => p
    | _, some u => if (p.threads u).fd = .opened then p.closeSocket u else p
    | _, none => p
  else p

/-! ## Logging -/

/-- The bytes `grease_printf` passes on for a formatted text: `vsnprintf` ends
what it writes into 250 bytes with a `NUL`, which is sent along when the text
is cut. -/
def printfBytes (text : List UInt8) : List UInt8 :=
  if text.length < greaseCMacroMaxMessage then text
  else text.take (greaseCMacroMaxMessage - 1) ++ [0]

/-- What became of a call of `grease_printf`. -/
inductive Fate where
  | sink (path : String)
  | localLog
  | stderr
  | lost
  deriving DecidableEq, Repr

def PrintfCall.message (c : PrintfCall) : ClientMessage where
  m := c.m
  padding := c.padding
  text := printfBytes c.text

/-- The answer of the system to `sendmsg`, or of the logger in the process.
Only what is sent on a number that was given out again can go `elsewhere`. -/
inductive SendAnswer where
  | refuses
  | accepts
  | elsewhere
  deriving DecidableEq, Repr

/-- `sendmsg`.  On descriptor `0` an empty message is sent. -/
def ClientThread.sendmsg (th : ClientThread) (answer : SendAnswer) :
    Option Fate :=
  if answer = .refuses then none
  else
    match th.fd with
    | .unset => some .lost
    | .opened => if th.configured then some (.sink th.addr) else none
    | .broken => none
    | .closed =>
        if th.configured ∧ answer = .accepts then some (.sink th.addr)
        else some .lost

/-- `grease_logToSink`; none is `GREASE_SINK_FAILURE`. -/
def ClientProcess.logToSink (p : ClientProcess) (t : ℕ) (answer : SendAnswer) :
    ClientProcess × Option Fate :=
  let th := p.threads t
  match th.sendmsg answer with
  | some fate => (p, some fate)
  | none =>
      let p := p.setThread t { th with errCnt := th.errCnt + 1 }
      (if sinkMaxErrors < th.errCnt + 1 then { p with greaseLog := none } else p,
        none)

/-- `grease_printf` up to the test of `grease_log`. -/
def ClientProcess.printf (p : ClientProcess) (t : ℕ) (c : PrintfCall) :
    ClientProcess :=
  p.setThread t { p.threads t with printing := p.greaseLog.map (c, ·) }

/-- The rest of `grease_printf`, with what was read from `grease_log`. -/
def ClientProcess.call (p : ClientProcess) (t : ℕ) (f : GreaseLogFn)
    (answer : SendAnswer) : ClientProcess × Fate :=
  let p := p.setThread t { p.threads t with printing := none }
  match f with
  | .logLocal _ => (p, if answer = .refuses then .stderr else .localLog)
  | .logToSink =>
      let r := p.logToSink t answer
      (r.1, r.2.getD .stderr)

/-! ## Sinks -/

/-- The name of a ping: process, thread and number. -/
abbrev PingName := ℕ × ℕ × ℕ

/-- A datagram; that of a ping comes from a socket with a name. -/
structure Datagram where
  bytes : List UInt8
  sender : Option PingName
  deriving DecidableEq, Repr

def pingDatagram (name : PingName) : Datagram where
  bytes := LittleEndian.store 4 sinkLogPing.toNat
  sender := some name

def logDatagram (msg : ClientMessage) : Datagram where
  bytes := msg.encode
  sender := none

/-- The socket of a sink and the variables of its listener. -/
structure SinkSide where
  queue : List Datagram := []
  logged : List (LogMeta × List UInt8) := []
  headerTemp : List UInt8 := []
  tempBufferEntry : List UInt8 := []
  entrySize : UInt32 := 0

/-- The pass of `listener_work` over a datagram. -/
def SinkSide.listen (s : SinkSide) (rcvBufSize : ℕ) (bytes : List UInt8) :
    SinkCursor :=
  let d : Received := ⟨rcvBufSize, bytes⟩
  SinkCursor.loop d (bytes.length + 1)
    (d.start s.headerTemp s.tempBufferEntry s.entrySize)

def SinkSide.after (s : SinkSide) (rest : List Datagram) (c : SinkCursor) :
    SinkSide where
  queue := rest
  logged := s.logged ++ c.entries.filterMap RawEntry.logFromRaw
  headerTemp := c.headerTemp
  tempBufferEntry := c.tempBufferEntry
  entrySize := c.entrySize

/-! ## The system -/

/-- A call of `grease_printf` with what became of it. -/
structure Printed where
  proc : ℕ
  thread : ℕ
  call : PrintfCall
  fate : Fate
  deriving DecidableEq, Repr

structure ClientSystem where
  procs : ℕ → ClientProcess := fun _ => {}
  sinks : String → SinkSide := fun _ => {}
  trace : List Printed := []

inductive ClientAct where
  | init (proc thread : ℕ) (kind : InitKind) (modules : List LoadedModule)
      (env : SetupEnv)
  | afterPing (proc thread : ℕ)
  | printf (proc thread : ℕ) (call : PrintfCall)
  | call (proc thread : ℕ) (answer : SendAnswer)
  | shutdown (proc thread : ℕ) (holder : Option ℕ)
  | listen (path : String)

namespace ClientSystem

def setProc (s : ClientSystem) (p : ℕ) (proc : ClientProcess) : ClientSystem :=
  { s with procs := Function.update s.procs p proc }

def setSink (s : ClientSystem) (path : String) (sink : SinkSide) :
    ClientSystem :=
  { s with sinks := Function.update s.sinks path sink }

def enqueue (s : ClientSystem) (path : String) (d : Datagram) : ClientSystem :=
  s.setSink path { s.sinks path with queue := (s.sinks path).queue ++ [d] }

/-- The acknowledgement reaches the socket of the ping, if it is still there. -/
def acknowledge (s : ClientSystem) : Option PingName → ClientSystem
  | some (p, t, k) =>
      let th := (s.procs p).threads t
      if th.waiting = true ∧ th.pingNo = k then
        s.setProc p ((s.procs p).setThread t { th with answered := true })
      else s
  | none => s

def init (s : ClientSystem) (p t : ℕ) (kind : InitKind)
    (modules : List LoadedModule) (env : SetupEnv) : ClientSystem :=
  let r := (s.procs p).init t kind modules env
  let th := r.1.threads t
  let s := s.setProc p r.1
  if r.2 = .pinging then s.enqueue th.addr (pingDatagram (p, t, th.pingNo))
  else s

def printf (s : ClientSystem) (p t : ℕ) (c : PrintfCall) : ClientSystem :=
  { s.setProc p ((s.procs p).printf t c) with
    trace := if (s.procs p).greaseLog = none
      then s.trace ++ [⟨p, t, c, .stderr⟩] else s.trace }

def call (s : ClientSystem) (p t : ℕ) (c : PrintfCall) (f : GreaseLogFn)
    (answer : SendAnswer) : ClientSystem :=
  let r := (s.procs p).call t f answer
  let s := { s.setProc p r.1 with trace := s.trace ++ [⟨p, t, c, r.2⟩] }
  match r.2 with
  | .sink path => s.enqueue path (logDatagram c.message)
  | _ => s

def listen (s : ClientSystem) (rcvBufSize : ℕ) (path : String) : ClientSystem :=
  match (s.sinks path).queue with
  | [] => s
  | d :: rest =>
      let c := (s.sinks path).listen rcvBufSize d.bytes
      let s := s.setSink path ((s.sinks path).after rest c)
      if 0 < c.pings then s.acknowledge d.sender else s

/-- A thread that waits for an answer, or is in `grease_printf`, does nothing
else. -/
def step (rcvBufSize : ℕ) (s : ClientSystem) : ClientAct → ClientSystem
  | .init p t kind modules env =>
      if ((s.procs p).threads t).busy then s else s.init p t kind modules env
  | .afterPing p t =>
      if ((s.procs p).threads t).waiting then
        s.setProc p ((s.procs p).afterPing t)
      else s
  | .printf p t c =>
      if ((s.procs p).threads t).busy then s else s.printf p t c
  | .call p t answer =>
      match ((s.procs p).threads t).printing with
      | some (c, f) => s.call p t c f answer
      | none => s
  | .shutdown p t holder =>
      if ((s.procs p).threads t).busy then s
      else s.setProc p ((s.procs p).shutdown t holder)
  | .listen path => s.listen rcvBufSize path

end ClientSystem

end GreaseLog
