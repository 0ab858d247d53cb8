import GreaseLog.LoggerSteps
import GreaseLog.KHashTable

/-!
# Redirected descriptors

A program hands over the reading ends of pipes, and the library logs what
comes out of them.  Each descriptor has a ticket in one of two tables, for
`stdout` and for `stderr`, and a poll handle; the callback of the handle reads
until a read fails or the stream is over.

The system has the pipes with whoever writes into them, the descriptor table of
the process and the logger with its own threads.  A callback is cut into
rounds, one for each read, so that writers and the logger can act in between.
To remove a descriptor deletes its ticket, and nothing keeps another thread
from doing so while the callback still uses it; `BetweenCallbacks` is the
condition on runs that this does not happen.
-/

namespace GreaseLog

/-- What was written into a pipe, and how much of it has been read.  `ended`
says that every writing end is closed. -/
structure Pipe where
  written : List UInt8
  taken : ℕ
  ended : Bool

def Pipe.unread (p : Pipe) : List UInt8 := p.written.drop p.taken

inductive RedirectKind where
  | stdout
  | stderr
  deriving DecidableEq

def RedirectKind.defaults : RedirectKind → RedirectDefaults
  | .stdout => stdoutDefaults
  | .stderr => stderrDefaults

/-- `fdRedirectorTicket`; `polled` is the state of its handle.  `pipe` is not in
the source: it is the pipe behind the descriptor when it was handed over. -/
structure RedirectTicket extends FdRedirectorTicket where
  fd : ℕ
  closed : Bool
  cb : Option ℕ
  polled : Bool
  pipe : Option ℕ

namespace RedirectTicket

def new (origin : OriginId) (fd : ℕ) (cb : Option ℕ) (pipe : Option ℕ) :
    RedirectTicket where
  origin := origin
  tag := 0
  level := 0
  fd := fd
  closed := false
  cb := cb
  polled := false
  pipe := pipe

end RedirectTicket

/-- How a read goes that finds something: it may fail, and it may return less
than there is. -/
structure ReadEnv where
  fails : Bool
  limit : ℕ

inductive ReadResult where
  | data (p : ℕ) (bytes : List UInt8)
  | eof (p : ℕ)
  | error

/-- One read that brought data, and the entry it was submitted in. -/
structure RedirectRound where
  pipe : ℕ
  kind : RedirectKind
  ticket : RedirectTicket
  entry : SingleLog
  seq : Option ℕ

structure ClosedCall where
  cb : ℕ
  kind : RedirectKind
  fd : ℕ
  pipe : ℕ

/-- A `close` of the library: what the descriptor was at that moment. -/
structure LibraryClose where
  ticket : RedirectTicket
  found : Option ℕ

/-- `handled` has the messages that the logger has taken off its queue. -/
structure Redirection where
  logger : Logger
  handled : List SingleLog
  descriptors : ℕ → Option ℕ
  pipes : ℕ → Pipe
  nextPipe : ℕ
  tables : RedirectKind → TwMap ℕ RedirectTicket
  defaultRedirectorClosedCB : Option ℕ
  busy : Option (RedirectKind × ℕ)
  rounds : List RedirectRound
  closes : List LibraryClose
  calls : List ClosedCall

/-- The message that an act takes off the command queue. -/
def Logger.takenBy (s : Logger) : Logger.Act → Option SingleLog
  | .handle _ => s.removeCmd.bind fun taken => taken.1.newLog?
  | _ => none

inductive RedirectAct where
  | write (p : ℕ) (bytes : List UInt8)
  | finish (p : ℕ)
  | openPipe (fd : ℕ)
  | closeFd (fd : ℕ)
  | addFD (k : RedirectKind) (fd : ℕ) (origin : OriginId) (cb : Option ℕ)
      (valid : Bool)
  | removeFD (k : RedirectKind) (fd : ℕ)
  | addDefaultRedirectorClosedCB (cb : Option ℕ)
  | pollEvent (k : RedirectKind) (fd : ℕ)
  | round (env : ReadEnv)
  | logger (a : Logger.Act)

namespace Redirection

def start (bufferSize : ℕ) : Redirection where
  logger := Logger.new bufferSize
  handled := []
  descriptors := fun _ => none
  pipes := fun _ => ⟨[], 0, false⟩
  nextPipe := 0
  tables := fun _ => ∅
  defaultRedirectorClosedCB := none
  busy := none
  rounds := []
  closes := []
  calls := []

def setPipe (s : Redirection) (p : ℕ) (pipe : Pipe) : Redirection :=
  { s with pipes := Function.update s.pipes p pipe }

def setTable (s : Redirection) (k : RedirectKind)
    (table : TwMap ℕ RedirectTicket) : Redirection :=
  { s with tables := Function.update s.tables k table }

/-! ## Writers and the program -/

def write (s : Redirection) (p : ℕ) (bytes : List UInt8) : Redirection :=
  let pipe := s.pipes p
  if pipe.ended then s
  else s.setPipe p { pipe with written := pipe.written ++ bytes }

def finish (s : Redirection) (p : ℕ) : Redirection :=
  s.setPipe p { s.pipes p with ended := true }

/-- A new pipe; its reading end gets a number that is free. -/
def openPipe (s : Redirection) (fd : ℕ) : Redirection :=
  match s.descriptors fd with
  | some _ => s
  | none =>
      { s with
        descriptors := Function.update s.descriptors fd (some s.nextPipe)
        nextPipe := s.nextPipe + 1 }

def closeFd (s : Redirection) (fd : ℕ) : Redirection :=
  { s with descriptors := Function.update s.descriptors fd none }

/-! ## Adding and removing -/

/-- `fdRedirectorTicket::close`, apart from the flag. -/
def closeTicket (s : Redirection) (r : RedirectTicket) : Redirection :=
  if r.closed then s
  else { s.closeFd r.fd with
    closes := s.closes ++ [⟨r, s.descriptors r.fd⟩] }

/-- `addFDForStdout` and `addFDForStderr`.  The ticket that is replaced stops
polling; its descriptor stays open. -/
def addFD (s : Redirection) (k : RedirectKind) (fd : ℕ) (origin : OriginId)
    (cb : Option ℕ) (valid : Bool) : Redirection :=
  if valid then
    let data := RedirectTicket.new origin fd cb (s.descriptors fd)
    s.setTable k ((s.tables k).insert fd { data with polled := true })
  else s

/-- `removeFDForStdout` and `removeFDForStderr`. -/
def removeFD (s : Redirection) (k : RedirectKind) (fd : ℕ) : Redirection :=
  match (s.tables k).lookup fd with
  | some old => (s.setTable k ((s.tables k).erase fd)).closeTicket old
  | none => s

/-! ## The poll callbacks -/

/-- `read` on the descriptor.  A buffer without space makes it return zero,
like the end of the stream. -/
def read (s : Redirection) (fd len : ℕ) (env : ReadEnv) : ReadResult :=
  match s.descriptors fd with
  | none => .error
  | some p =>
      if env.fails then .error
      else if len = 0 then .eof p
      else if (s.pipes p).unread = [] then
        if (s.pipes p).ended then .eof p else .error
      else .data p ((s.pipes p).unread.take (min len (max 1 env.limit)))

/-- The stream is over: close, stop polling, give the buffer back and tell
whoever wants to know. -/
def endStream (s : Redirection) (k : RedirectKind) (r : RedirectTicket) (p : ℕ)
    (l : SingleLog) : Redirection :=
  let s := (s.closeTicket r).setTable k
    ((s.tables k).insert r.fd { r with closed := true, polled := false })
  let s := { s with logger := s.logger.putBack l, busy := none }
  match r.cb.orElse fun _ => s.defaultRedirectorClosedCB with
  | some cb => { s with calls := s.calls ++ [⟨cb, k, r.fd, p⟩] }
  | none => s

/-- A round of `_greaseLib_handle_stdoutFd_cb` or `_greaseLib_handle_stderrFd_cb`.
Without a buffer the loop breaks before it reads. -/
def roundOf (s : Redirection) (k : RedirectKind) (r : RedirectTicket)
    (env : ReadEnv) : Redirection :=
  match s.logger.grabInLogBuffer with
  | none => { s with busy := none }
  | some (l, logger) =>
      match s.read r.fd l.buf.len env with
      | .data p bytes =>
          let entry := r.fill k.defaults bytes l
          let seq := (logger.enqueue .newLog entry).map fun _ => logger.nextSeq
          { s.setPipe p { s.pipes p with
              taken := (s.pipes p).taken + bytes.length } with
            logger := logger.submitBuffer entry
            rounds := s.rounds ++ [⟨p, k, r, entry, seq⟩] }
      | .eof p => { s with logger := logger }.endStream k r p l
      | .error => { s with logger := logger.putBack l, busy := none }

def round (s : Redirection) (env : ReadEnv) : Redirection :=
  match s.busy with
  | none => s
  | some (k, fd) =>
      match (s.tables k).lookup fd with
      | none => s
      | some r => s.roundOf k r env

def pollEvent (s : Redirection) (k : RedirectKind) (fd : ℕ) : Redirection :=
  match s.busy, (s.tables k).lookup fd with
  | none, some r => if r.polled then { s with busy := some (k, fd) } else s
  | _, _ => s

/-! ## Steps -/

/-- The logger takes its turn. -/
def loggerStep (s : Redirection) (a : Logger.Act) : Redirection :=
  { s with
    logger := s.logger.step a
    handled := s.handled ++ (s.logger.takenBy a).toList }

def step (s : Redirection) : RedirectAct → Redirection
  | .write p bytes => s.write p bytes
  | .finish p => s.finish p
  | .openPipe fd => s.openPipe fd
  | .closeFd fd => s.closeFd fd
  | .addFD k fd origin cb valid => s.addFD k fd origin cb valid
  | .removeFD k fd => s.removeFD k fd
  | .addDefaultRedirectorClosedCB cb =>
      { s with defaultRedirectorClosedCB := cb }
  | .pollEvent k fd => s.pollEvent k fd
  | .round env => s.round env
  | .logger a => s.loggerStep a

/-- The program adds and removes descriptors, and sets the callback for closed
streams, while no callback runs.  To do so when it is told of the end of a
stream is fine. -/
def BetweenCallbacks (s : Redirection) : RedirectAct → Prop
  | .addFD _ _ _ _ _ | .removeFD _ _ | .addDefaultRedirectorClosedCB _ =>
      s.busy = none
  | _ => True

end Redirection

end GreaseLog
