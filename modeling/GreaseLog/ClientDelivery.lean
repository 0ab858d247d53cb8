import GreaseLog.GreaseClient

/-!
# From clients to sinks

What a sink has logged is a prefix of what was sent to it, and all of it once
its socket is empty, whatever pings lie between the messages.
-/

namespace GreaseLog

/-! ## One datagram -/

theorem Received.start_at {d : Received} (hfits : d.bytes.length ≤ d.rcvBufSize)
    (headerTemp tempBufferEntry : List UInt8) (entrySize : UInt32) :
    (d.start headerTemp tempBufferEntry entrySize).At d
      ([] : List UInt8).length .needPreamble := by
  have hone : ¬(d.rcvBufSize : ℤ) < d.recvCnt := by
    unfold Received.recvCnt
    omega
  constructor <;> simp [Received.start, hone]

theorem SinkSide.listen_message (s : SinkSide) {rcvBufSize : ℕ}
    {msg : ClientMessage} (hsendable : msg.Sendable)
    (hfits : msg.encode.length ≤ rcvBufSize) (hint : rcvBufSize < 2 ^ 31) :
    (s.listen rcvBufSize msg.encode).entries.filterMap RawEntry.logFromRaw =
        [(msg.m, msg.text)] ∧
      (s.listen rcvBufSize msg.encode).pings = 0 := by
  have hbytes : (Received.mk rcvBufSize msg.encode).bytes =
      [] ++ encodeAll [msg] := by
    simp [encodeAll]
  have hcnt : (Received.mk rcvBufSize msg.encode).recvCnt < 2 ^ 31 := by
    unfold Received.recvCnt
    simp only
    omega
  have hat := Received.start_at (d := ⟨rcvBufSize, msg.encode⟩) hfits
    s.headerTemp s.tempBufferEntry s.entrySize
  obtain ⟨hend, entries, hentries, hdecoded⟩ :=
    hat.loop_messages hfits hcnt (by simpa using hsendable) hbytes
      (msg.encode.length - 1)
  have hlen := msg.length_encode
  have hrounds : 2 * [msg].length + (msg.encode.length - 1) =
      msg.encode.length + 1 := by
    rw [List.length_singleton]
    omega
  rw [hrounds] at hend hentries
  refine ⟨?_, hend.pings⟩
  unfold SinkSide.listen
  simp only
  rw [hentries, List.filterMap_append, hdecoded]
  rfl

theorem SinkSide.listen_ping (s : SinkSide) {rcvBufSize : ℕ}
    (hfits : 4 ≤ rcvBufSize) (name : PingName) :
    (s.listen rcvBufSize (pingDatagram name).bytes).entries = [] ∧
      (s.listen rcvBufSize (pingDatagram name).bytes).pings = 1 := by
  have hlen : (pingDatagram name).bytes.length = 4 := rfl
  obtain ⟨d, hd⟩ : ∃ d : Received, d = ⟨rcvBufSize, (pingDatagram name).bytes⟩ :=
    ⟨_, rfl⟩
  have hbytes : d.bytes = (pingDatagram name).bytes := by rw [hd]
  have hin : d.bytes.length ≤ d.rcvBufSize := by
    rw [hd]
    exact hfits
  have hcnt : d.recvCnt = 4 := by
    unfold Received.recvCnt
    rw [hbytes, hlen]
    rfl
  obtain ⟨c, hc⟩ : ∃ c, c = d.start s.headerTemp s.tempBufferEntry s.entrySize :=
    ⟨_, rfl⟩
  have hat : c.At d ([] : List UInt8).length .needPreamble := by
    rw [hc]
    exact Received.start_at hin _ _ _
  obtain ⟨zeros, hmemory, hbuffer⟩ :=
    hat.memory_eq (List.nil_append d.bytes).symm hin
  have htouch : c.touch d 4 = c := by
    apply SinkCursor.touch_inside
    · rw [hat.walkBuf]
      simp
    · omega
    · rw [hat.walkBuf, hbuffer, hbytes]
      simp [hlen]
  have hword : c.isWord d sinkLogPing = true := by
    unfold SinkCursor.isWord
    rw [hmemory, hbytes]
    have htake : ((pingDatagram name).bytes ++ zeros).take 4 =
        (pingDatagram name).bytes := List.take_left' hlen
    rw [htake]
    simp [pingDatagram]
  have hround : c.round d =
      { c.sdWalk greaseClientHeaderSize with pings := c.pings + 1 } := by
    rw [SinkCursor.round_of_lt (by rw [hat.walkBuf, hcnt]; simp) hat.overflowed,
      hat.state]
    unfold SinkCursor.needPreamble
    rw [if_pos (by
      right
      rw [hat.remain, hcnt]
      decide)]
    simp only [htouch, hword, if_true]
  have hstop : d.recvCnt ≤ (c.round d).walk := by
    rw [hround, hcnt]
    simp only [SinkCursor.sdWalk, hat.walk]
    decide
  have hloop : s.listen rcvBufSize (pingDatagram name).bytes = c.round d := by
    unfold SinkSide.listen
    simp only
    rw [← hd, ← hc, hlen, SinkCursor.loop_of_lt _ (by
      rw [hat.walk, hcnt]
      simp) hat.overflowed, SinkCursor.loop_of_ge _ hstop]
  rw [hloop, hround]
  refine ⟨?_, ?_⟩
  · rw [hc]
    rfl
  · change c.pings + 1 = 1
    rw [hat.pings]

/-! ## The socket of a sink -/

/-- What lies in the socket of a sink. -/
inductive InFlight where
  | ping (name : PingName)
  | message (msg : ClientMessage)

namespace InFlight

def datagram : InFlight → Datagram
  | ping name => pingDatagram name
  | message msg => logDatagram msg

def content : InFlight → Option (LogMeta × List UInt8)
  | ping _ => none
  | message msg => some (msg.m, msg.text)

/-- A message as `grease_printf` sends them, but not empty. -/
def Proper : InFlight → Prop
  | ping _ => True
  | message msg =>
      1 ≤ msg.text.length ∧ msg.text.length ≤ greaseCMacroMaxMessage

end InFlight

/-- The sink has logged what was sent to it, up to what is still in its
socket. -/
def SinkSide.Delivers (sink : SinkSide) (sent : List (LogMeta × List UInt8)) :
    Prop :=
  ∃ items : List InFlight, sink.queue = items.map InFlight.datagram ∧
    (∀ item ∈ items, item.Proper) ∧
    sink.logged ++ items.filterMap InFlight.content = sent

namespace SinkSide.Delivers

variable {sink : SinkSide} {sent : List (LogMeta × List UInt8)}

theorem enqueue (hdelivers : sink.Delivers sent) {item : InFlight}
    (hproper : item.Proper) :
    SinkSide.Delivers { sink with queue := sink.queue ++ [item.datagram] }
      (sent ++ item.content.toList) := by
  obtain ⟨items, hqueue, hitems, hsent⟩ := hdelivers
  refine ⟨items ++ [item], ?_, ?_, ?_⟩
  · simp [hqueue]
  · intro other hother
    rcases List.mem_append.mp hother with hold | hnew
    · exact hitems other hold
    · rw [List.mem_singleton.mp hnew]
      exact hproper
  · rw [List.filterMap_append, ← List.append_assoc, hsent]
    cases hcontent : item.content <;> simp [hcontent]

/-- The listener takes the first datagram off the socket. -/
theorem listen (hdelivers : sink.Delivers sent) {rcvBufSize : ℕ}
    (hlarge : 338 ≤ rcvBufSize) (hint : rcvBufSize < 2 ^ 31) {d : Datagram}
    {rest : List Datagram} (hqueue : sink.queue = d :: rest) :
    (sink.after rest (sink.listen rcvBufSize d.bytes)).Delivers sent := by
  obtain ⟨items, hitems, hproper, hsent⟩ := hdelivers
  rw [hqueue] at hitems
  cases items with
  | nil => simp at hitems
  | cons item items =>
      simp only [List.map_cons, List.cons.injEq] at hitems
      refine ⟨items, hitems.2, fun other hother =>
        hproper other (List.mem_cons_of_mem _ hother), ?_⟩
      rw [hitems.1]
      unfold SinkSide.after
      cases item with
      | ping name =>
          have hping := sink.listen_ping
            (show 4 ≤ rcvBufSize by omega) name
          simp only [InFlight.datagram, hping.1, List.filterMap_nil,
            List.append_nil]
          rw [← hsent]
          rfl
      | message msg =>
          have hmsg := hproper _ List.mem_cons_self
          unfold InFlight.Proper greaseCMacroMaxMessage at hmsg
          have hlog := sink.listen_message
            (⟨hmsg.1, by unfold greaseMaxMessageSize; omega⟩ : msg.Sendable)
            (by rw [msg.length_encode]; omega) hint
          have hdecoded :
              (sink.listen rcvBufSize
                (InFlight.message msg).datagram.bytes).entries.filterMap
                  RawEntry.logFromRaw = [(msg.m, msg.text)] := hlog.1
          simp only [hdecoded]
          rw [← hsent]
          simp [InFlight.content]

/-- What was logged is the beginning of what was sent, and all of it when the
socket is empty. -/
theorem prefix_and_all (hdelivers : sink.Delivers sent) :
    sink.logged <+: sent ∧ (sink.queue = [] → sink.logged = sent) := by
  obtain ⟨items, hqueue, -, hsent⟩ := hdelivers
  refine ⟨⟨_, hsent⟩, fun hempty => ?_⟩
  rw [hempty] at hqueue
  have hnone : items = [] := List.map_eq_nil_iff.mp hqueue.symm
  simpa [hnone] using hsent

end SinkSide.Delivers

/-! ## What an act does to the processes -/

namespace ClientProcess

theorem printing_setThread (p : ClientProcess) {t : ℕ} {th : ClientThread}
    (hsame : th.printing = (p.threads t).printing) (u : ℕ) :
    ((p.setThread t th).threads u).printing = (p.threads u).printing := by
  by_cases hu : u = t
  · subst hu
    simpa [setThread] using hsame
  · simp [setThread, hu]

theorem checkGreaseSymbols_frame (p : ClientProcess)
    (modules : List LoadedModule) :
    (checkGreaseSymbols p modules).greaseLog = p.greaseLog ∧
      (checkGreaseSymbols p modules).threads = p.threads := by
  have hfold : ∀ q : ClientProcess,
      (modules.foldl greasePlhdrCallback q).greaseLog = q.greaseLog ∧
        (modules.foldl greasePlhdrCallback q).threads = q.threads := by
    induction modules with
    | nil => exact fun q => ⟨rfl, rfl⟩
    | cons m modules ih =>
        intro q
        have hstep : (greasePlhdrCallback q m).greaseLog = q.greaseLog ∧
            (greasePlhdrCallback q m).threads = q.threads := by
          unfold greasePlhdrCallback
          split_ifs
          · cases m.symbol <;> exact ⟨rfl, rfl⟩
          · exact ⟨rfl, rfl⟩
        rw [List.foldl_cons, (ih _).1, (ih _).2]
        exact hstep
  exact hfold { p with foundModule := some false }

theorem search_threads (p : ClientProcess) (kind : InitKind)
    (modules : List LoadedModule) :
    (p.search kind modules).threads = p.threads := by
  unfold search
  split_ifs
  · rfl
  · exact (checkGreaseSymbols_frame p modules).2

theorem threads_afterSetup (p : ClientProcess) (result : SetupResult) :
    (p.afterSetup result).threads = p.threads := by
  cases result <;> rfl

theorem printing_setup (th : ClientThread) (path : String) (noPing : Bool)
    (env : SetupEnv) :
    (setupSinkDgramSocket th path noPing env).1.printing = th.printing := by
  unfold setupSinkDgramSocket
  simp only
  by_cases hset : th.myTid = true
  · rw [if_pos hset]
  · rw [if_neg hset]
    cases env.socketOk <;> simp only [Bool.false_eq_true, if_false, if_true] <;>
      split_ifs <;> rfl

theorem printing_init (p : ClientProcess) (t : ℕ) (kind : InitKind)
    (modules : List LoadedModule) (env : SetupEnv) (u : ℕ) :
    ((p.init t kind modules env).1.threads u).printing =
      (p.threads u).printing := by
  have hsearched : (((p.setThread t { p.threads t with
      inited := true }).search kind modules).threads u).printing =
      (p.threads u).printing := by
    rw [search_threads]
    exact p.printing_setThread (by rfl) u
  unfold init
  simp only
  split_ifs
  · exact hsearched
  · rw [threads_afterSetup, printing_setThread _ (printing_setup _ _ _ _) u]
    exact hsearched

theorem printing_afterPing (p : ClientProcess) (t u : ℕ) :
    ((p.afterPing t).threads u).printing = (p.threads u).printing := by
  unfold afterPing
  simp only
  split_ifs <;> rw [threads_afterSetup] <;> exact p.printing_setThread (by rfl) u

/-- `grease_shutdown` closes at most one socket, whosever it is. -/
theorem shutdown_cases (p : ClientProcess) (t : ℕ) (holder : Option ℕ) :
    p.shutdown t holder = p ∨ ∃ u, p.shutdown t holder = p.closeSocket u := by
  unfold shutdown
  split_ifs
  · split
    · exact Or.inr ⟨t, rfl⟩
    · exact Or.inl rfl
    · split_ifs
      · exact Or.inr ⟨_, rfl⟩
      · exact Or.inl rfl
    · exact Or.inl rfl
  · exact Or.inl rfl

theorem printing_shutdown (p : ClientProcess) (t : ℕ) (holder : Option ℕ)
    (u : ℕ) :
    ((p.shutdown t holder).threads u).printing = (p.threads u).printing := by
  rcases p.shutdown_cases t holder with hsame | ⟨v, hclosed⟩
  · rw [hsame]
  · rw [hclosed]
    exact p.printing_setThread (by rfl) u

theorem printing_logToSink (p : ClientProcess) (t : ℕ) (answer : SendAnswer)
    (u : ℕ) :
    ((p.logToSink t answer).1.threads u).printing = (p.threads u).printing := by
  unfold logToSink
  simp only
  split
  · rfl
  · split_ifs <;> exact p.printing_setThread (by rfl) u

/-- A call of `grease_printf` is over when what it has read was called. -/
theorem printing_call (p : ClientProcess) (t : ℕ) (f : GreaseLogFn)
    (answer : SendAnswer) (u : ℕ) :
    ((p.call t f answer).1.threads u).printing =
      if u = t then none else (p.threads u).printing := by
  have hover : ((p.setThread t { p.threads t with
      printing := none }).threads u).printing =
      if u = t then none else (p.threads u).printing := by
    by_cases hu : u = t
    · subst hu
      simp [setThread]
    · simp [setThread, hu]
  unfold call
  cases f with
  | logLocal r => exact hover
  | logToSink => exact (printing_logToSink _ t answer u).trans hover

end ClientProcess

namespace ClientSystem

theorem procs_call (s : ClientSystem) (q t : ℕ) (c : PrintfCall)
    (f : GreaseLogFn) (answer : SendAnswer) :
    (s.call q t c f answer).procs =
      (s.setProc q ((s.procs q).call t f answer).1).procs := by
  unfold call
  simp only
  split <;> rfl

theorem procs_init (s : ClientSystem) (q t : ℕ) (kind : InitKind)
    (modules : List LoadedModule) (env : SetupEnv) :
    (s.init q t kind modules env).procs =
      (s.setProc q ((s.procs q).init t kind modules env).1).procs := by
  unfold init
  simp only
  split_ifs <;> rfl

/-- A listener changes nothing of a process but the answer to a ping. -/
theorem procs_listen (s : ClientSystem) (rcvBufSize : ℕ) (path : String) :
    (s.listen rcvBufSize path).procs = s.procs ∨
      ∃ q t, (s.listen rcvBufSize path).procs =
        (s.setProc q ((s.procs q).setThread t
          { (s.procs q).threads t with answered := true })).procs := by
  unfold listen
  split
  · exact Or.inl rfl
  · simp only
    split_ifs
    · unfold acknowledge
      split
      · rename_i q t k _
        simp only
        split_ifs
        · exact Or.inr ⟨q, t, rfl⟩
        · exact Or.inl rfl
      · exact Or.inl rfl
    · exact Or.inl rfl

theorem forall_procs_setProc {P : ℕ → ClientProcess → Prop} {s : ClientSystem}
    (hs : ∀ p, P p (s.procs p)) {q : ℕ} {proc : ClientProcess} (hproc : P q proc)
    (p : ℕ) : P p ((s.setProc q proc).procs p) := by
  by_cases hp : p = q
  · subst hp
    simpa [setProc] using hproc
  · simpa [setProc, hp] using hs p

end ClientSystem

/-! ## Exactly once and in order -/

theorem length_printfBytes (text : List UInt8) (htext : text ≠ []) :
    1 ≤ (printfBytes text).length ∧
      (printfBytes text).length ≤ greaseCMacroMaxMessage := by
  have hpos := List.length_pos_iff.mpr htext
  unfold printfBytes greaseCMacroMaxMessage
  split_ifs with hshort
  · omega
  · simp

namespace ClientSystem

/-- What `grease_printf` sent to a sink, in the order it was sent. -/
def sentTo (s : ClientSystem) (path : String) : List (LogMeta × List UInt8) :=
  s.trace.filterMap fun e =>
    if e.fate = .sink path then some (e.call.m, printfBytes e.call.text)
    else none

/-- Sinks deliver what was sent to them, and no thread is about to send an empty
text. -/
structure Delivering (s : ClientSystem) : Prop where
  sinks : ∀ path, (s.sinks path).Delivers (s.sentTo path)
  texts : ∀ p t c f, ((s.procs p).threads t).printing = some (c, f) →
    c.text ≠ []

/-- The condition of a run in which no text is empty. -/
def NonemptyText (_ : ClientSystem) : ClientAct → Prop
  | .printf _ _ c => c.text ≠ []
  | _ => True

/-- Nothing is sent, and no other call of `grease_printf` is begun. -/
theorem Delivering.congr {s s' : ClientSystem} (hs : s.Delivering)
    (hsinks : s'.sinks = s.sinks) (hsent : s'.sentTo = s.sentTo)
    (hprinting : ∀ p t, ((s'.procs p).threads t).printing =
      ((s.procs p).threads t).printing) :
    s'.Delivering := by
  refine ⟨?_, fun p t c f => ?_⟩
  · rw [hsinks, hsent]
    exact hs.sinks
  · rw [hprinting]
    exact hs.texts p t c f

theorem Delivering.setProc {s : ClientSystem} (hs : s.Delivering) {q : ℕ}
    {proc : ClientProcess}
    (hprinting : ∀ t, (proc.threads t).printing =
      ((s.procs q).threads t).printing) :
    (s.setProc q proc).Delivering :=
  hs.congr rfl rfl <| forall_procs_setProc
    (P := fun p proc => ∀ t, (proc.threads t).printing =
      ((s.procs p).threads t).printing) (fun _ _ => rfl) hprinting

theorem acknowledge_sinks (s : ClientSystem) (sender : Option PingName) :
    (s.acknowledge sender).sinks = s.sinks ∧
      (s.acknowledge sender).trace = s.trace := by
  unfold acknowledge
  split
  · simp only
    split_ifs <;> exact ⟨rfl, rfl⟩
  · exact ⟨rfl, rfl⟩

theorem Delivering.enqueue {s s' : ClientSystem} (hs : s.Delivering)
    {path : String} (item : InFlight) (hproper : item.Proper)
    (hsinks : s'.sinks = (s.enqueue path item.datagram).sinks)
    (hsent : ∀ path', s'.sentTo path' =
      s.sentTo path' ++ if path' = path then item.content.toList else [])
    (hprocs : s'.procs = s.procs) :
    s'.Delivering := by
  refine ⟨fun path' => ?_, by rw [hprocs]; exact hs.texts⟩
  rw [hsinks, hsent]
  by_cases hpath : path' = path
  · subst hpath
    simpa [ClientSystem.enqueue, setSink] using
      (hs.sinks path').enqueue hproper
  · simpa [ClientSystem.enqueue, setSink, hpath] using hs.sinks path'

theorem sentTo_append (s : ClientSystem) (e : Printed) (path : String) :
    ({ s with trace := s.trace ++ [e] } : ClientSystem).sentTo path =
      s.sentTo path ++
        if e.fate = .sink path then [(e.call.m, printfBytes e.call.text)]
        else [] := by
  unfold sentTo
  rw [List.filterMap_append]
  by_cases hfate : e.fate = .sink path <;> simp [hfate]

theorem Delivering.init {s : ClientSystem} (hs : s.Delivering) (p t : ℕ)
    (kind : InitKind) (modules : List LoadedModule) (env : SetupEnv) :
    (s.init p t kind modules env).Delivering := by
  have hset : (s.setProc p ((s.procs p).init t kind modules
      env).1).Delivering :=
    hs.setProc fun u => (s.procs p).printing_init t kind modules env u
  unfold ClientSystem.init
  simp only
  split_ifs
  · refine hset.enqueue (.ping _) trivial rfl (fun path' => ?_) rfl
    simp only [InFlight.content, Option.toList_none, ite_self, List.append_nil]
    rfl
  · exact hset

theorem Delivering.printf {s : ClientSystem} (hs : s.Delivering) (p t : ℕ)
    {c : PrintfCall} (htext : c.text ≠ []) : (s.printf p t c).Delivering := by
  have hsent : (s.printf p t c).sentTo = s.sentTo := by
    funext path
    unfold ClientSystem.printf
    split_ifs
    · exact (sentTo_append s ⟨p, t, c, .stderr⟩ path).trans (by simp)
    · rfl
  refine ⟨?_, ?_⟩
  · rw [hsent]
    exact hs.sinks
  · refine forall_procs_setProc (P := fun _ proc => ∀ u c f,
      (proc.threads u).printing = some (c, f) → c.text ≠ []) hs.texts ?_
    intro u c' f hprinting
    by_cases hu : u = t
    · subst hu
      simp only [ClientProcess.printf, ClientProcess.setThread,
        Function.update_self, Option.map_eq_some_iff, Prod.mk.injEq] at hprinting
      rcases hprinting with ⟨-, -, rfl, -⟩
      exact htext
    · simp only [ClientProcess.printf, ClientProcess.setThread,
        Function.update_of_ne hu] at hprinting
      exact hs.texts p u c' f hprinting

theorem Delivering.call {s : ClientSystem} (hs : s.Delivering) {p t : ℕ}
    {c : PrintfCall} {f : GreaseLogFn}
    (hprinting : ((s.procs p).threads t).printing = some (c, f))
    (answer : SendAnswer) : (s.call p t c f answer).Delivering := by
  have htext : c.text ≠ [] := hs.texts p t c f hprinting
  have hset : (s.setProc p ((s.procs p).call t f answer).1).Delivering := by
    refine ⟨hs.sinks, forall_procs_setProc (P := fun _ proc => ∀ u c f,
      (proc.threads u).printing = some (c, f) → c.text ≠ []) hs.texts ?_⟩
    intro u c' f' hother
    rw [ClientProcess.printing_call] at hother
    split_ifs at hother
    exact hs.texts p u c' f' hother
  have happend : ∀ path fate,
      ClientSystem.sentTo { s.setProc p ((s.procs p).call t f answer).1 with
        trace := s.trace ++ [⟨p, t, c, fate⟩] } path =
      s.sentTo path ++
        if fate = .sink path then [(c.m, printfBytes c.text)] else [] :=
    fun path fate => sentTo_append s ⟨p, t, c, fate⟩ path
  have hquiet : ∀ fate, (∀ path, fate ≠ .sink path) →
      ClientSystem.Delivering { s.setProc p ((s.procs p).call t f answer).1 with
        trace := s.trace ++ [⟨p, t, c, fate⟩] } := by
    intro fate hnot
    refine hset.congr rfl (funext fun path => ?_) fun _ _ => rfl
    rw [happend path fate, if_neg (hnot path), List.append_nil]
    rfl
  unfold ClientSystem.call
  simp only
  cases hfate : ((s.procs p).call t f answer).2 with
  | sink path =>
      refine hset.enqueue (.message c.message)
        (length_printfBytes c.text htext) rfl (fun path' => ?_) rfl
      refine (happend path' (.sink path)).trans ?_
      by_cases hpath : path' = path
      · subst hpath
        simp [InFlight.content, PrintfCall.message, sentTo, ClientSystem.setProc]
      · simp [hpath, Ne.symm hpath, sentTo, ClientSystem.setProc]
  | localLog => exact hquiet _ (by simp)
  | stderr => exact hquiet _ (by simp)
  | lost => exact hquiet _ (by simp)

theorem Delivering.listen {s : ClientSystem} (hs : s.Delivering)
    {rcvBufSize : ℕ} (hlarge : 338 ≤ rcvBufSize) (hint : rcvBufSize < 2 ^ 31)
    (path : String) : (s.listen rcvBufSize path).Delivering := by
  have htexts : ∀ p t c f, (((s.listen rcvBufSize path).procs p).threads
      t).printing = some (c, f) → c.text ≠ [] := by
    rcases procs_listen s rcvBufSize path with hsame | ⟨q, u, hprocs⟩
    · rw [hsame]
      exact hs.texts
    · rw [hprocs]
      refine forall_procs_setProc (P := fun _ proc => ∀ t c f,
        (proc.threads t).printing = some (c, f) → c.text ≠ []) hs.texts ?_
      intro t c f hprinting
      rw [ClientProcess.printing_setThread _ (by rfl)] at hprinting
      exact hs.texts q t c f hprinting
  refine ⟨?_, htexts⟩
  unfold ClientSystem.listen
  cases hqueue : (s.sinks path).queue with
  | nil => exact hs.sinks
  | cons d rest =>
      simp only
      have htaken : ∀ path', ((s.setSink path ((s.sinks path).after rest
          ((s.sinks path).listen rcvBufSize d.bytes))).sinks path').Delivers
            (s.sentTo path') := by
        intro path'
        by_cases hpath : path' = path
        · subst hpath
          simpa [setSink] using (hs.sinks path').listen hlarge hint hqueue
        · simpa [setSink, hpath] using hs.sinks path'
      split_ifs
      · have hack := acknowledge_sinks (s.setSink path ((s.sinks path).after rest
          ((s.sinks path).listen rcvBufSize d.bytes))) d.sender
        intro path'
        unfold sentTo
        rw [hack.1, hack.2]
        exact htaken path'
      · exact htaken

theorem Delivering.step {s : ClientSystem} (hs : s.Delivering) {rcvBufSize : ℕ}
    (hlarge : 338 ≤ rcvBufSize) (hint : rcvBufSize < 2 ^ 31) {act : ClientAct}
    (hact : NonemptyText s act) : (step rcvBufSize s act).Delivering := by
  cases act with
  | init p t kind modules env =>
      simp only [ClientSystem.step]
      split_ifs
      · exact hs
      · exact hs.init p t kind modules env
  | afterPing p t =>
      simp only [ClientSystem.step]
      split_ifs
      · exact hs.setProc fun u => (s.procs p).printing_afterPing t u
      · exact hs
  | printf p t c =>
      simp only [ClientSystem.step]
      split_ifs
      · exact hs
      · exact hs.printf p t hact
  | call p t answer =>
      simp only [ClientSystem.step]
      split
      · rename_i c f hprinting
        exact hs.call hprinting answer
      · exact hs
  | shutdown p t holder =>
      simp only [ClientSystem.step]
      split_ifs
      · exact hs
      · exact hs.setProc fun u => (s.procs p).printing_shutdown t holder u
  | listen path => exact hs.listen hlarge hint path

theorem delivering_start : Delivering {} :=
  ⟨fun _ => ⟨[], rfl, by simp, rfl⟩, fun _ _ _ _ h => by simp at h⟩

end ClientSystem

/-- Whatever the order in which client threads, pings and listeners take their
steps, each sink logs what was sent to it exactly once and in the order it was
sent: its log is a beginning of that, and all of it when its socket is empty. -/
theorem sink_logs_each_message_once {rcvBufSize : ℕ} (hlarge : 338 ≤ rcvBufSize)
    (hint : rcvBufSize < 2 ^ 31) (acts : List ClientAct)
    (htexts : Run.Meets (ClientSystem.step rcvBufSize) ClientSystem.NonemptyText
      {} acts)
    (path : String) :
    let s := Run.final (ClientSystem.step rcvBufSize) {} acts
    (s.sinks path).logged <+: s.sentTo path ∧
      ((s.sinks path).queue = [] → (s.sinks path).logged = s.sentTo path) := by
  have hs : (Run.final (ClientSystem.step rcvBufSize) {} acts).Delivering :=
    Run.final_invariant
      (fun s act hs hact => hs.step hlarge hint hact)
      ClientSystem.delivering_start htexts
  exact (hs.sinks path).prefix_and_all

/-- A thread with a message and a thread with a ping before its message. -/
theorem sink_logs_each_message_once_two :
    let acts : List ClientAct :=
      [.init 0 0 .fastInitLogger [] ⟨true, 65535, true⟩,
        .printf 0 0 ⟨noMetaData, 0, [72, 105]⟩,
        .init 1 0 .initLogger [] ⟨true, 65535, true⟩, .call 0 0 .accepts,
        .listen greaseDefaultSinkPath, .listen greaseDefaultSinkPath,
        .afterPing 1 0, .printf 1 0 ⟨noMetaData, 0, [79, 107]⟩,
        .call 1 0 .accepts]
    let s := Run.final (ClientSystem.step 65536) {} acts
    (s.sinks greaseDefaultSinkPath).logged <+: s.sentTo greaseDefaultSinkPath ∧
      ((s.sinks greaseDefaultSinkPath).queue = [] →
        (s.sinks greaseDefaultSinkPath).logged =
          s.sentTo greaseDefaultSinkPath) := by
  intro acts
  have htexts : Run.Meets (ClientSystem.step 65536) ClientSystem.NonemptyText
      {} acts :=
    ⟨trivial, List.cons_ne_nil _ _, trivial, trivial, trivial, trivial, trivial,
      List.cons_ne_nil _ _, trivial, trivial⟩
  exact sink_logs_each_message_once (by decide) (by decide) acts htexts
    greaseDefaultSinkPath

end GreaseLog
