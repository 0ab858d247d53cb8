import GreaseLog.SafeCircular
import GreaseLog.CondVar
import GreaseLog.Run

/-!
# Ring buffers shared by threads

`tw_safeCircular` with the semaphore inside it, statement by statement: the
mutex, the two condition variables and any number of threads that call the
queue.  A thread without the mutex does nothing but ask for it.

Every call locks, works on the ring and unlocks.  `add` waits while no cell is
free and looks again when it wakes; `removeOrBlock` waits once, for an element,
and returns without one when somebody else was faster.
-/

namespace GreaseLog

inductive RingCall (α : Type*) where
  | add (x : α)
  | addIfRoom (x : α)
  | remove
  | removeOrBlock
  | remaining
  | clear
  | unblockAllRemovers
  deriving DecidableEq

inductive RingAnswer (α : Type*) where
  | done
  | added (ok : Bool)
  | taken (x : Option α)
  | count (n : ℕ)
  deriving DecidableEq

/-- Where a thread stands.  In `locking` and `waiting` it does not have the
mutex; behind `entered` it has. -/
inductive RingPc (α : Type*) where
  | idle
  | locking (c : RingCall α)
  | entered (c : RingCall α)
  | waiting (c : RingCall α)
  | resumed (c : RingCall α)
  | acquired (c : RingCall α) (x : α)
  | advanced (c : RingCall α) (x : α)
  | released (c : RingCall α) (r : ℕ)
  | fetched (c : RingCall α) (r : ℕ) (x : α)
  | grabbed (x : α)
  | stepped (x : α)
  | leaving (c : RingCall α) (a : RingAnswer α)
  deriving DecidableEq

/-- A call that has returned, in the order of the returns. -/
structure RingReturn (α : Type*) where
  thread : ℕ
  call : RingCall α
  answer : RingAnswer α

structure CircularMonitor (α : Type*) where
  ring : SafeCircular α
  localMutex : Option ℕ
  gtZeroCond : CondVar
  decrementCond : CondVar
  pc : ℕ → RingPc α
  returns : List (RingReturn α)

/-- `pick` says which sleeper a signal wakes. -/
inductive RingAct (α : Type*) where
  | call (t : ℕ) (c : RingCall α)
  | lock (t : ℕ)
  | exec (t : ℕ) (pick : ℕ)
  | wakeAdder (i : ℕ)
  | wakeRemover (i : ℕ)

namespace CircularMonitor

variable {α : Type*}

def goto (s : CircularMonitor α) (t : ℕ) (p : RingPc α) : CircularMonitor α :=
  { s with pc := Function.update s.pc t p }

/-! ## The semaphore -/

/-- The loop of `acquireAndKeepLock`, and `acquireAndKeepLockNoBlock`. -/
def acquire (s : CircularMonitor α) (pick : ℕ) : CircularMonitor α :=
  { s with
    ring := { s.ring with cnt := s.ring.cnt - 1 }
    decrementCond := s.decrementCond.signal pick }

def releaseWithoutLock (s : CircularMonitor α) (pick : ℕ) : CircularMonitor α :=
  { s with
    ring := { s.ring with cnt := s.ring.cnt + 1 }
    gtZeroCond := s.gtZeroCond.signal pick }

/-- `pthread_cond_wait`: the mutex is free while the thread sleeps. -/
def waitForRoom (s : CircularMonitor α) (t : ℕ) (c : RingCall α) :
    CircularMonitor α :=
  { s with
    localMutex := none
    gtZeroCond := s.gtZeroCond.wait t }.goto t (.waiting c)

def waitForAcquirers (s : CircularMonitor α) (t : ℕ) (c : RingCall α) :
    CircularMonitor α :=
  { s with
    localMutex := none
    decrementCond := s.decrementCond.wait t }.goto t (.waiting c)

section Objects

variable [Inhabited α]

/-- The last element to leave resets the ring. -/
def resetRing (q : SafeCircular α) : SafeCircular α :=
  { q with nextIn := -1, nextOut := 0, reversed := false }

/-- The next statement of the thread that has the mutex.  What the semaphore
does in one go, a count and its signal, is one statement. -/
def exec (s : CircularMonitor α) (t pick : ℕ) : CircularMonitor α :=
  let q := s.ring
  match s.pc t with
  | .entered (.add x) | .resumed (.add x) =>
      if 1 ≤ q.cnt then (s.acquire pick).goto t (.acquired (.add x) x)
      else s.waitForRoom t (.add x)
  | .entered (.addIfRoom x) =>
      if 1 ≤ q.cnt then (s.acquire pick).goto t (.acquired (.addIfRoom x) x)
      else s.goto t (.leaving (.addIfRoom x) (.added false))
  | .acquired c x =>
      { s with ring := { q with
        nextIn := SafeCircular.advance q.size q.reversed q.nextIn } }.goto t
          (.advanced c x)
  | .advanced c x =>
      { s with ring := { q with data := q.data.set q.nextIn.toNat x } }.goto t
        (.leaving c (.added true))
  | .entered .remove =>
      if 0 < q.remaining then
        (s.releaseWithoutLock pick).goto t (.released .remove q.remaining)
      else s.goto t (.leaving .remove (.taken none))
  | .entered .removeOrBlock =>
      if 0 < q.remaining then
        (s.releaseWithoutLock pick).goto t
          (.released .removeOrBlock q.remaining)
      else s.waitForAcquirers t .removeOrBlock
  | .released c r =>
      s.goto t (.fetched c r (q.data.getD q.nextOut.toNat default))
  | .fetched c r x =>
      let next := { q with
        nextOut := SafeCircular.advance q.size q.reversed q.nextOut }
      { s with ring := if r = 1 then resetRing next else next }.goto t
        (.leaving c (.taken (some x)))
  -- A removal that had to wait counts last, so that its test for an empty
  -- ring does not see the element that is leaving.
  | .resumed .removeOrBlock =>
      if q.size ≤ q.cnt then s.goto t (.leaving .removeOrBlock (.taken none))
      else s.goto t (.grabbed (q.data.getD q.nextOut.toNat default))
  | .grabbed x =>
      let p := if q.remaining = 0 then resetRing q else q
      { s with ring := { p with
        nextOut := SafeCircular.advance p.size p.reversed p.nextOut } }.goto t
          (.stepped x)
  | .stepped x =>
      (s.releaseWithoutLock pick).goto t
        (.leaving .removeOrBlock (.taken (some x)))
  | .entered .remaining =>
      s.goto t (.leaving .remaining (.count q.remaining))
  | .entered .clear =>
      { s with ring := q.clear }.goto t (.leaving .clear .done)
  | .entered .unblockAllRemovers =>
      { s with decrementCond := s.decrementCond.broadcast }.goto t
        (.leaving .unblockAllRemovers .done)
  | .leaving c a =>
      { s with
        localMutex := none
        returns := s.returns ++ [RingReturn.mk t c a] }.goto t .idle
  | _ => s

/-- The mutex goes to a thread that asks for it: at the start of a call, or
at the end of a wait. -/
def lock (s : CircularMonitor α) (t : ℕ) : CircularMonitor α :=
  match s.pc t with
  | .locking c => { s with localMutex := some t }.goto t (.entered c)
  | .waiting (.add x) =>
      if t ∈ s.gtZeroCond.woken then
        { s with
          localMutex := some t
          gtZeroCond := s.gtZeroCond.resume t }.goto t (.resumed (.add x))
      else s
  | .waiting .removeOrBlock =>
      if t ∈ s.decrementCond.woken then
        { s with
          localMutex := some t
          decrementCond := s.decrementCond.resume t }.goto t
            (.resumed .removeOrBlock)
      else s
  | _ => s

def step (s : CircularMonitor α) : RingAct α → CircularMonitor α
  | .call t c =>
      match s.pc t with
      | .idle => s.goto t (.locking c)
      | _ => s
  | .lock t => if s.localMutex = none then s.lock t else s
  | .exec t pick => if s.localMutex = some t then s.exec t pick else s
  | .wakeAdder i => { s with gtZeroCond := s.gtZeroCond.wake i }
  | .wakeRemover i => { s with decrementCond := s.decrementCond.wake i }

def start (size : ℕ) : CircularMonitor α where
  ring := SafeCircular.new size
  localMutex := none
  gtZeroCond := CondVar.empty
  decrementCond := CondVar.empty
  pc := fun _ => .idle
  returns := []

end Objects

end CircularMonitor

end GreaseLog
