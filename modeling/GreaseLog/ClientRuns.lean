import GreaseLog.ClientDelivery

/-!
# Runs of client processes

A message that was not sent to a sink went to the logger in the process or to
`stderr`, as long as threads call an init function first and do not log, or shut
down again, when they have closed their socket.  The answer of `grease_getConnectivityMethod`
is right between the calls that change `grease_log`, and a process gives up on
its sink after a bounded number of failures.
-/

namespace GreaseLog

namespace ClientSystem

theorem trace_listen (s : ClientSystem) (rcvBufSize : ℕ) (path : String) :
    (s.listen rcvBufSize path).trace = s.trace := by
  unfold listen
  split
  · rfl
  · simp only
    split_ifs
    · exact (acknowledge_sinks _ _).2
    · rfl

end ClientSystem

/-! ## Nothing is lost -/

def LoadedModule.provides (m : LoadedModule) : Bool :=
  m.named && m.opens && m.symbol.isSome

theorem checkGreaseSymbols_foundModule (p : ClientProcess)
    (modules : List LoadedModule) :
    (checkGreaseSymbols p modules).foundModule =
      some (modules.any LoadedModule.provides) := by
  have hfold : ∀ (q : ClientProcess) (found : Bool),
      q.foundModule = some found →
      (modules.foldl greasePlhdrCallback q).foundModule =
        some (found || modules.any LoadedModule.provides) := by
    induction modules with
    | nil =>
        intro q found hq
        simpa using hq
    | cons m modules ih =>
        intro q found hq
        have hstep : (greasePlhdrCallback q m).foundModule =
            some (found || m.provides) := by
          unfold greasePlhdrCallback LoadedModule.provides
          cases hnamed : m.named && m.opens <;> cases m.symbol <;> simp [hq]
        rw [List.foldl_cons, ih _ _ hstep, List.any_cons, Bool.or_assoc]
  simpa [checkGreaseSymbols] using
    hfold { p with foundModule := some false } false rfl

/-- What holds for a process whose modules stay the same: if one of them is
the logger, the process never uses a sink; if not, every thread that has called
an init function has a socket, good or bad.  A thread that is about to call
`grease_logToSink` has not closed its socket. -/
structure ClientProcess.Prepared (modules : List LoadedModule)
    (p : ClientProcess) : Prop where
  found : p.foundModule = none ∨
    p.foundModule = some (modules.any LoadedModule.provides)
  viaLocal : modules.any LoadedModule.provides = true →
    p.greaseLog ≠ some .logToSink ∧ ∀ t, (p.threads t).waiting = false
  viaSink : modules.any LoadedModule.provides = false →
    ∀ t, (p.threads t).inited = true → (p.threads t).fd ≠ .unset
  socket : ∀ t, (p.threads t).myTid = true ∨ (p.threads t).waiting = true →
    (p.threads t).fd ≠ .unset
  calls : ∀ t c, (p.threads t).printing = some (c, .logToSink) →
    (p.threads t).fd = .opened ∨ (p.threads t).fd = .broken

theorem ClientThread.not_busy {th : ClientThread} (hidle : th.busy = false) :
    th.waiting = false ∧ th.printing = none := by
  simpa [ClientThread.busy, Option.isNone_iff_eq_none] using hidle

namespace ClientProcess.Prepared

variable {modules : List LoadedModule} {p : ClientProcess}

theorem start : Prepared modules {} :=
  ⟨Or.inl rfl, fun _ => ⟨by simp, fun _ => rfl⟩, fun _ _ h => by simp at h,
    fun _ h => by simp at h, fun _ _ h => by simp at h⟩

/-- A thread may change, as long as it keeps what is asked of it. -/
theorem setThread (hp : p.Prepared modules) (t : ℕ) (th : ClientThread)
    (hlocal : modules.any LoadedModule.provides = true → th.waiting = false)
    (hsink : modules.any LoadedModule.provides = false → th.inited = true →
      th.fd ≠ .unset)
    (hsocket : th.myTid = true ∨ th.waiting = true → th.fd ≠ .unset)
    (hcalls : ∀ c, th.printing = some (c, .logToSink) →
      th.fd = .opened ∨ th.fd = .broken) :
    (p.setThread t th).Prepared modules := by
  refine ⟨hp.found, fun hany => ⟨(hp.viaLocal hany).1, fun t' => ?_⟩,
    fun hany t' hinited => ?_, fun t' hset => ?_, fun t' c hcall => ?_⟩
  · by_cases ht : t' = t
    · subst ht
      simpa [ClientProcess.setThread] using hlocal hany
    · simpa [ClientProcess.setThread, ht] using (hp.viaLocal hany).2 t'
  · by_cases ht : t' = t
    · subst ht
      simp only [ClientProcess.setThread, Function.update_self] at hinited ⊢
      exact hsink hany hinited
    · simp only [ClientProcess.setThread, Function.update_of_ne ht] at hinited ⊢
      exact hp.viaSink hany t' hinited
  · by_cases ht : t' = t
    · subst ht
      simp only [ClientProcess.setThread, Function.update_self] at hset ⊢
      exact hsocket hset
    · simp only [ClientProcess.setThread, Function.update_of_ne ht] at hset ⊢
      exact hp.socket t' hset
  · by_cases ht : t' = t
    · subst ht
      simp only [ClientProcess.setThread, Function.update_self] at hcall ⊢
      exact hcalls c hcall
    · simp only [ClientProcess.setThread, Function.update_of_ne ht] at hcall ⊢
      exact hp.calls t' c hcall

theorem setGreaseLog (hp : p.Prepared modules) {f : Option GreaseLogFn}
    (hf : modules.any LoadedModule.provides = true → f ≠ some .logToSink) :
    ({ p with greaseLog := f } : ClientProcess).Prepared modules :=
  ⟨hp.found, fun hany => ⟨hf hany, (hp.viaLocal hany).2⟩, hp.viaSink, hp.socket,
    hp.calls⟩

theorem afterSetup (hp : p.Prepared modules) (result : SetupResult)
    (hany : modules.any LoadedModule.provides = false) :
    (p.afterSetup result).Prepared modules := by
  cases result with
  | ok => exact hp.setGreaseLog (by simp [hany])
  | failed => exact hp.setGreaseLog (by simp)
  | pinging => exact hp

/-- A setup leaves the thread with a socket, good or bad. -/
theorem setup_fd {th : ClientThread} (hth : th.myTid = true → th.fd ≠ .unset)
    (path : String) (noPing : Bool) (env : SetupEnv) :
    (setupSinkDgramSocket th path noPing env).1.fd ≠ .unset := by
  unfold setupSinkDgramSocket
  simp only
  by_cases hset : th.myTid = true
  · rw [if_pos hset]
    exact hth hset
  · rw [if_neg hset]
    cases env.socketOk <;> simp only [Bool.false_eq_true, if_false, if_true] <;>
      split_ifs <;> simp

/-- The search touches nothing but its own results. -/
theorem search_eq (modules : List LoadedModule)
    (hfound : p.foundModule = none ∨
      p.foundModule = some (modules.any LoadedModule.provides))
    (kind : InitKind) :
    ∃ localLog, p.search kind modules = { p with
      foundModule := some (modules.any LoadedModule.provides)
      localLog := localLog } := by
  unfold ClientProcess.search
  split_ifs with hknown
  · exact ⟨p.localLog, by rw [← hfound.resolve_left hknown.2]⟩
  · have hresult := checkGreaseSymbols_foundModule p modules
    have hframe := ClientProcess.checkGreaseSymbols_frame p modules
    refine ⟨(checkGreaseSymbols p modules).localLog, ?_⟩
    rw [← hresult, ← hframe.1, ← hframe.2]

theorem init (hp : p.Prepared modules) {t : ℕ}
    (hidle : (p.threads t).busy = false) (kind : InitKind) (env : SetupEnv) :
    (p.init t kind modules env).1.Prepared modules := by
  obtain ⟨hwaiting, hprinting⟩ := ClientThread.not_busy hidle
  obtain ⟨th, hth⟩ : ∃ th, th = { p.threads t with inited := true } := ⟨_, rfl⟩
  obtain ⟨localLog, hsearch⟩ :=
    search_eq (p := p.setThread t th) modules hp.found kind
  have hbase : ({ p with
      foundModule := some (modules.any LoadedModule.provides)
      localLog := localLog } : ClientProcess).Prepared modules :=
    ⟨Or.inr rfl, hp.viaLocal, hp.viaSink, hp.socket, hp.calls⟩
  have hsocket : th.myTid = true ∨ th.waiting = true → th.fd ≠ .unset := by
    rw [hth]
    exact hp.socket t
  have hnone : th.printing = none := by
    rw [hth]
    exact hprinting
  unfold ClientProcess.init
  simp only [← hth, hsearch, Option.some.injEq]
  split_ifs with hany
  · have hmark := hbase.setThread t th (fun _ => by rw [hth]; exact hwaiting)
      (by simp [hany]) hsocket (by simp [hnone])
    exact hmark.setGreaseLog (by cases localLog <;> simp)
  · have hmissing : modules.any LoadedModule.provides = false := by
      simpa using hany
    have hfd := setup_fd (fun hset => hsocket (Or.inl hset)) kind.path
      kind.noPing env
    have hsame : (p.setThread t th).threads t = th := by
      simp [ClientProcess.setThread]
    have hset := hbase.setThread t
      (setupSinkDgramSocket th kind.path kind.noPing env).1
      (by simp [hmissing]) (fun _ _ => hfd) (fun _ => hfd)
      (by simp [ClientProcess.printing_setup, hnone])
    have htwice := hset.afterSetup
      (setupSinkDgramSocket th kind.path kind.noPing env).2 hmissing
    simpa [hsame, ClientProcess.setThread] using htwice

theorem afterPing (hp : p.Prepared modules) {t : ℕ}
    (hwaiting : (p.threads t).waiting = true) :
    (p.afterPing t).Prepared modules := by
  have hany : modules.any LoadedModule.provides = false := by
    by_contra hfound
    have hnone := (hp.viaLocal (by simpa using hfound)).2 t
    rw [hwaiting] at hnone
    cases hnone
  have hfd := hp.socket t (Or.inr hwaiting)
  unfold ClientProcess.afterPing
  simp only
  split_ifs
  · have hth := hp.setThread t
      { p.threads t with waiting := false, myTid := true }
      (fun _ => rfl) (fun _ _ => hfd) (fun _ => hfd) (hp.calls t)
    exact hth.afterSetup _ hany
  · have hth := hp.setThread t { p.threads t with waiting := false }
      (fun _ => rfl) (fun _ _ => hfd) (fun _ => hfd) (hp.calls t)
    exact hth.afterSetup _ hany

/-- A thread that has called an init function has a socket if the process uses
the sink. -/
theorem fd_of_inited (hp : p.Prepared modules) {t : ℕ}
    (hlog : p.greaseLog = some .logToSink)
    (hinited : (p.threads t).inited = true)
    (hopen : (p.threads t).fd ≠ .closed) :
    (p.threads t).fd = .opened ∨ (p.threads t).fd = .broken := by
  have hmissing : modules.any LoadedModule.provides = false := by
    by_contra hfound
    exact (hp.viaLocal (by simpa using hfound)).1 hlog
  have hfd := hp.viaSink hmissing t hinited
  cases hcase : (p.threads t).fd with
  | unset => exact absurd hcase hfd
  | opened => exact Or.inl rfl
  | broken => exact Or.inr rfl
  | closed => exact absurd hcase hopen

/-- The socket that is closed is the thread's own. -/
theorem shutdown (hp : p.Prepared modules) {t : ℕ}
    (hidle : (p.threads t).busy = false)
    (hinited : (p.threads t).inited = true)
    (hopen : (p.threads t).fd ≠ .closed) (holder : Option ℕ) :
    (p.shutdown t holder).Prepared modules := by
  obtain ⟨hwaiting, hprinting⟩ := ClientThread.not_busy hidle
  unfold ClientProcess.shutdown
  split_ifs with hlog
  · rcases hp.fd_of_inited hlog hinited hopen with hfd | hfd
    · rw [hfd]
      exact hp.setThread t _ (fun _ => hwaiting) (fun _ _ => by simp)
        (fun _ => by simp) (by simp [hprinting])
    · rw [hfd]
      exact hp
  · exact hp

/-- A thread that has called an init function, and not closed its socket since,
may go on to call what it has read from `grease_log`. -/
theorem printf (hp : p.Prepared modules) {t : ℕ}
    (hidle : (p.threads t).busy = false)
    (hinited : (p.threads t).inited = true)
    (hopen : (p.threads t).fd ≠ .closed) (c : PrintfCall) :
    (p.printf t c).Prepared modules := by
  unfold ClientProcess.printf
  refine hp.setThread t _ (fun _ => (ClientThread.not_busy hidle).1)
    (fun hany hth => hp.viaSink hany t hth) (fun hset => hp.socket t hset) ?_
  intro c' hcall
  have hlog : p.greaseLog = some .logToSink := by
    simp only [Option.map_eq_some_iff, Prod.mk.injEq] at hcall
    rcases hcall with ⟨f, hf, -, rfl⟩
    exact hf
  exact hp.fd_of_inited hlog hinited hopen

theorem logToSink (hp : p.Prepared modules) {t : ℕ}
    (hwaiting : modules.any LoadedModule.provides = true →
      (p.threads t).waiting = false) (answer : SendAnswer) :
    (p.logToSink t answer).1.Prepared modules := by
  unfold ClientProcess.logToSink
  simp only
  split
  · exact hp
  · have hth := hp.setThread t
      { p.threads t with errCnt := (p.threads t).errCnt + 1 }
      hwaiting (fun hany hinited => hp.viaSink hany t hinited)
      (fun hset => hp.socket t hset) (hp.calls t)
    split_ifs
    · exact hth.setGreaseLog (by simp)
    · exact hth

/-- A call that was begun with care loses no message. -/
theorem call (hp : p.Prepared modules) {t : ℕ} {c : PrintfCall} {f : GreaseLogFn}
    (hprinting : (p.threads t).printing = some (c, f)) (answer : SendAnswer) :
    (p.call t f answer).1.Prepared modules ∧ (p.call t f answer).2 ≠ .lost := by
  have hover : (p.setThread t
      { p.threads t with printing := none }).Prepared modules :=
    hp.setThread t _ (fun hany => (hp.viaLocal hany).2 t)
      (fun hany hinited => hp.viaSink hany t hinited)
      (fun hset => hp.socket t hset) (by simp)
  unfold ClientProcess.call
  cases f with
  | logLocal r => exact ⟨hover, by dsimp only; split_ifs <;> simp⟩
  | logToSink =>
      refine ⟨hover.logToSink (fun hany => (hover.viaLocal hany).2 t) answer, ?_⟩
      simp only [ClientProcess.logToSink, ClientThread.sendmsg,
        ClientProcess.setThread, Function.update_self]
      rcases hp.calls t c hprinting with hfd | hfd
      · rw [hfd]
        split_ifs <;> simp
      · rw [hfd]
        split_ifs <;> simp

end ClientProcess.Prepared

namespace ClientSystem

/-- Every process keeps its modules, and threads call an init function before
they log or shut down, and do neither after they have closed their socket. -/
def Disciplined (modules : ℕ → List LoadedModule) (s : ClientSystem) :
    ClientAct → Prop
  | .init p _ _ loaded _ => loaded = modules p
  | .printf p t _ | .shutdown p t _ =>
      ((s.procs p).threads t).inited = true ∧
        ((s.procs p).threads t).fd ≠ .closed
  | _ => True

structure Careful (modules : ℕ → List LoadedModule) (s : ClientSystem) :
    Prop where
  procs : ∀ p, (s.procs p).Prepared (modules p)
  trace : ∀ e ∈ s.trace, e.fate ≠ .lost

variable {modules : ℕ → List LoadedModule}

theorem Careful.setProc {s : ClientSystem} (hs : s.Careful modules) {p : ℕ}
    {proc : ClientProcess} (hproc : proc.Prepared (modules p)) :
    (s.setProc p proc).Careful modules :=
  ⟨forall_procs_setProc (P := fun p proc => proc.Prepared (modules p)) hs.procs
    hproc, hs.trace⟩

theorem Careful.congr {s s' : ClientSystem} (hs : s.Careful modules)
    (hprocs : s'.procs = s.procs) (htrace : s'.trace = s.trace) :
    s'.Careful modules :=
  ⟨fun p => by rw [hprocs]; exact hs.procs p, by rw [htrace]; exact hs.trace⟩

theorem Careful.init {s : ClientSystem} (hs : s.Careful modules) {p t : ℕ}
    (hidle : ((s.procs p).threads t).busy = false) (kind : InitKind)
    (env : SetupEnv) : (s.init p t kind (modules p) env).Careful modules := by
  have hproc := hs.setProc ((hs.procs p).init hidle kind env)
  unfold ClientSystem.init
  simp only
  split_ifs
  · exact hproc.congr rfl rfl
  · exact hproc

theorem Careful.record {s : ClientSystem} (hs : s.Careful modules) {e : Printed}
    (hfate : e.fate ≠ .lost) :
    Careful modules { s with trace := s.trace ++ [e] } := by
  refine ⟨hs.procs, fun e' he' => ?_⟩
  rcases List.mem_append.mp he' with hold | hnew
  · exact hs.trace e' hold
  · rw [List.mem_singleton.mp hnew]
    exact hfate

theorem Careful.printf {s : ClientSystem} (hs : s.Careful modules) {p t : ℕ}
    (hidle : ((s.procs p).threads t).busy = false)
    (hinited : ((s.procs p).threads t).inited = true)
    (hopen : ((s.procs p).threads t).fd ≠ .closed) (c : PrintfCall) :
    (s.printf p t c).Careful modules := by
  have hproc := hs.setProc ((hs.procs p).printf hidle hinited hopen c)
  unfold ClientSystem.printf
  split_ifs
  · exact hproc.record (by simp)
  · exact hproc

theorem Careful.call {s : ClientSystem} (hs : s.Careful modules) {p t : ℕ}
    {c : PrintfCall} {f : GreaseLogFn}
    (hprinting : ((s.procs p).threads t).printing = some (c, f))
    (answer : SendAnswer) : (s.call p t c f answer).Careful modules := by
  obtain ⟨hproc, hfate⟩ := (hs.procs p).call hprinting answer
  have hs' := (hs.setProc hproc).record
    (e := ⟨p, t, c, ((s.procs p).call t f answer).2⟩) hfate
  unfold ClientSystem.call
  simp only
  split
  · exact hs'.congr rfl rfl
  · exact hs'

theorem Careful.listen {s : ClientSystem} (hs : s.Careful modules)
    (rcvBufSize : ℕ) (path : String) :
    (s.listen rcvBufSize path).Careful modules := by
  have htrace := trace_listen s rcvBufSize path
  rcases procs_listen s rcvBufSize path with hsame | ⟨q, t, hprocs⟩
  · exact hs.congr hsame htrace
  · have hq := hs.procs q
    have hanswer := hq.setThread t
      { (s.procs q).threads t with answered := true }
      (fun hany => (hq.viaLocal hany).2 t) (fun hany => hq.viaSink hany t)
      (fun hset => hq.socket t hset) (hq.calls t)
    exact (hs.setProc hanswer).congr hprocs htrace

theorem Careful.step {s : ClientSystem} (hs : s.Careful modules)
    (rcvBufSize : ℕ) {act : ClientAct} (hact : s.Disciplined modules act) :
    (step rcvBufSize s act).Careful modules := by
  cases act with
  | init p t kind loaded env =>
      simp only [ClientSystem.step]
      split_ifs with hbusy
      · exact hs
      · rw [show loaded = modules p from hact]
        exact hs.init (by simpa using hbusy) kind env
  | afterPing p t =>
      simp only [ClientSystem.step]
      split_ifs with hwaiting
      · exact hs.setProc ((hs.procs p).afterPing hwaiting)
      · exact hs
  | printf p t c =>
      simp only [ClientSystem.step]
      split_ifs with hbusy
      · exact hs
      · exact hs.printf (by simpa using hbusy) hact.1 hact.2 c
  | call p t answer =>
      simp only [ClientSystem.step]
      split
      · rename_i c f hprinting
        exact hs.call hprinting answer
      · exact hs
  | shutdown p t holder =>
      simp only [ClientSystem.step]
      split_ifs with hbusy
      · exact hs
      · exact hs.setProc ((hs.procs p).shutdown (by simpa using hbusy) hact.1
          hact.2 holder)
  | listen path => exact hs.listen rcvBufSize path

end ClientSystem

/-- `grease_log` points to the logger in the process only after a search that
has found it, and then to the symbol that was found last. -/
structure ClientProcess.Known (p : ClientProcess) : Prop where
  pointer : p.greaseLog = none ∨ p.greaseLog = some .logToSink ∨
    p.foundModule = some true ∧ p.greaseLog = p.localLog.map .logLocal

namespace ClientProcess.Known

variable {p : ClientProcess}

theorem setThread (hp : p.Known) (t : ℕ) (th : ClientThread) :
    (p.setThread t th).Known := ⟨hp.pointer⟩

theorem afterSetup (result : SetupResult) (hpinging : result = .pinging → p.Known) :
    (p.afterSetup result).Known := by
  cases result with
  | ok => exact ⟨Or.inr (Or.inl rfl)⟩
  | failed => exact ⟨Or.inl rfl⟩
  | pinging => exact hpinging rfl

/-- Only `grease_initLogger` waits for a ping. -/
theorem noPing_of_pinging {th : ClientThread} {path : String} {noPing : Bool}
    {env : SetupEnv}
    (hpinging : (setupSinkDgramSocket th path noPing env).2 = .pinging) :
    noPing = false := by
  by_contra hno
  have hyes : noPing = true := by simpa using hno
  subst hyes
  unfold setupSinkDgramSocket at hpinging
  simp only [if_true] at hpinging
  split_ifs at hpinging

theorem init (hp : p.Known) (t : ℕ) (kind : InitKind)
    (modules : List LoadedModule) (env : SetupEnv) :
    (p.init t kind modules env).1.Known := by
  obtain ⟨q, hq⟩ : ∃ q, q = (p.setThread t
      { p.threads t with inited := true }).search kind modules := ⟨_, rfl⟩
  have hlog : q.greaseLog = p.greaseLog := by
    rw [hq]
    unfold ClientProcess.search
    split_ifs
    · rfl
    · exact (ClientProcess.checkGreaseSymbols_frame _ modules).1
  unfold ClientProcess.init
  simp only [← hq]
  split_ifs with hfound
  · exact ⟨Or.inr (Or.inr ⟨hfound, rfl⟩)⟩
  · refine afterSetup _ fun hpinging => ⟨?_⟩
    have hkind : kind = .initLogger := by
      have hping := noPing_of_pinging hpinging
      cases kind with
      | initLogger => rfl
      | fastInitLogger => cases hping
      | fastInitLoggerExtended path => cases hping
    change q.greaseLog = none ∨ q.greaseLog = some .logToSink ∨ _
    rw [hlog]
    rcases hp.pointer with hnone | hsink | ⟨hmodule, -⟩
    · exact Or.inl hnone
    · exact Or.inr (Or.inl hsink)
    · -- a module that was found is not searched for again
      refine absurd ?_ hfound
      rw [hq, ClientProcess.search, if_pos ⟨hkind, by
        rw [show (p.setThread t _).foundModule = _ from hmodule]
        simp⟩]
      exact hmodule

theorem afterPing (hp : p.Known) (t : ℕ) : (p.afterPing t).Known := by
  unfold ClientProcess.afterPing
  simp only
  split_ifs
  · exact afterSetup _ fun _ => hp.setThread t _
  · exact afterSetup _ fun _ => hp.setThread t _

theorem shutdown (hp : p.Known) (t : ℕ) (holder : Option ℕ) :
    (p.shutdown t holder).Known := by
  rcases p.shutdown_cases t holder with hsame | ⟨u, hclosed⟩
  · rw [hsame]
    exact hp
  · rw [hclosed]
    exact hp.setThread u _

theorem logToSink (hp : p.Known) (t : ℕ) (answer : SendAnswer) :
    (p.logToSink t answer).1.Known := by
  unfold ClientProcess.logToSink
  simp only
  split
  · exact hp
  · split_ifs
    · exact ⟨Or.inl rfl⟩
    · exact hp.setThread t _

theorem call (hp : p.Known) (t : ℕ) (f : GreaseLogFn) (answer : SendAnswer) :
    (p.call t f answer).1.Known := by
  unfold ClientProcess.call
  cases f with
  | logLocal r => exact hp.setThread t _
  | logToSink => exact (hp.setThread t _).logToSink t answer

theorem connectivity (hp : p.Known) :
    p.getConnectivityMethod = 3 ∧ p.greaseLog = some .logToSink ∨
      p.getConnectivityMethod = 0 ∧ p.greaseLog = none ∨
      p.getConnectivityMethod = 1 ∧ p.foundModule = some true ∧
        ∃ r, p.localLog = some r ∧ p.greaseLog = some (.logLocal r) := by
  unfold ClientProcess.getConnectivityMethod
  rcases hp.pointer with hnone | hsink | ⟨hfound, hmodule⟩
  · exact Or.inr (Or.inl ⟨by simp [hnone], hnone⟩)
  · exact Or.inl ⟨by simp [hsink], hsink⟩
  · cases hsymbol : p.localLog with
    | none =>
        rw [hsymbol] at hmodule
        exact Or.inr (Or.inl ⟨by simp [hmodule], hmodule⟩)
    | some r =>
        rw [hsymbol] at hmodule
        exact Or.inr (Or.inr ⟨by simp [hmodule], hfound, r, rfl, hmodule⟩)

end ClientProcess.Known

namespace ClientSystem

theorem known_step (rcvBufSize : ℕ) (s : ClientSystem) (act : ClientAct)
    (hs : ∀ p, (s.procs p).Known) :
    ∀ p, ((step rcvBufSize s act).procs p).Known := by
  cases act with
  | init q t kind modules env =>
      simp only [step]
      split_ifs
      · exact hs
      · rw [procs_init]
        exact forall_procs_setProc (P := fun _ proc => proc.Known) hs
          ((hs q).init t kind modules env)
  | afterPing q t =>
      simp only [step]
      split_ifs
      · exact forall_procs_setProc (P := fun _ proc => proc.Known) hs
          ((hs q).afterPing t)
      · exact hs
  | printf q t c =>
      simp only [step]
      split_ifs
      · exact hs
      · exact forall_procs_setProc (P := fun _ proc => proc.Known) hs
          ((hs q).setThread t _)
  | call q t answer =>
      simp only [step]
      split
      · rename_i c f _
        rw [procs_call]
        exact forall_procs_setProc (P := fun _ proc => proc.Known) hs
          ((hs q).call t f answer)
      · exact hs
  | shutdown q t holder =>
      simp only [step]
      split_ifs
      · exact hs
      · exact forall_procs_setProc (P := fun _ proc => proc.Known) hs
          ((hs q).shutdown t holder)
  | listen path =>
      rcases procs_listen s rcvBufSize path with hsame | ⟨q, t, hprocs⟩
      · rw [step, hsame]
        exact hs
      · rw [step, hprocs]
        exact forall_procs_setProc (P := fun _ proc => proc.Known) hs ((hs q).setThread t _)

end ClientSystem

/-- Between the calls that change `grease_log`, `grease_getConnectivityMethod`
never answers `999`: in every reachable state of every process, whatever modules
come and go, its answer tells where `grease_printf` goes. -/
theorem connectivity_method_truthful (rcvBufSize : ℕ) (acts : List ClientAct)
    (p : ℕ) :
    let proc := (Run.final (ClientSystem.step rcvBufSize) {} acts).procs p
    proc.getConnectivityMethod = 3 ∧ proc.greaseLog = some .logToSink ∨
      proc.getConnectivityMethod = 0 ∧ proc.greaseLog = none ∨
      proc.getConnectivityMethod = 1 ∧ proc.foundModule = some true ∧
        ∃ r, proc.localLog = some r ∧ proc.greaseLog = some (.logLocal r) := by
  have hknown : ∀ p,
      ((Run.final (ClientSystem.step rcvBufSize) {} acts).procs p).Known :=
    Run.final_preserves
      (I := fun s : ClientSystem => ∀ p, (s.procs p).Known)
      (fun s act hs => ClientSystem.known_step rcvBufSize s act hs) acts
      (fun _ => ⟨Or.inl rfl⟩)
  exact (hknown p).connectivity

/-! ## Giving up on a sink -/

/-- The thread has read `grease_logToSink` and is about to call it. -/
def ClientThread.sending (th : ClientThread) : Bool :=
  th.printing.any fun call => call.2 = .logToSink

namespace ClientProcess

/-- How many more failed sends of a thread a process puts up with.  A thread
that has read `grease_log` before it was set to `NULL` fails once more. -/
def allowance (p : ClientProcess) (t : ℕ) : ℕ :=
  if p.greaseLog = some .logToSink then sinkMaxErrors - (p.threads t).errCnt + 1
  else if (p.threads t).sending then 1
  else 0

def patience (p : ClientProcess) (T : Finset ℕ) : ℕ :=
  ∑ t ∈ T, p.allowance t

theorem patience_le (p : ClientProcess) (T : Finset ℕ) :
    p.patience T ≤ (sinkMaxErrors + 1) * T.card := by
  have hsum : p.patience T ≤ ∑ _t ∈ T, (sinkMaxErrors + 1) := by
    apply Finset.sum_le_sum
    intro t _
    unfold allowance
    split_ifs <;> omega
  rwa [Finset.sum_const, smul_eq_mul, Nat.mul_comm] at hsum

theorem allowance_mono {p q : ClientProcess} {t : ℕ}
    (hlog : q.greaseLog = p.greaseLog ∨ q.greaseLog = none)
    (herr : (p.threads t).errCnt ≤ (q.threads t).errCnt)
    (hsending : (q.threads t).sending = true →
      (p.threads t).sending = true ∨ p.greaseLog = some .logToSink) :
    q.allowance t ≤ p.allowance t := by
  unfold allowance
  by_cases hsink : p.greaseLog = some .logToSink
  · rw [if_pos hsink]
    split_ifs <;> omega
  · have hsink' : q.greaseLog ≠ some .logToSink := by
      rcases hlog with hsame | hnone
      · rwa [hsame]
      · simp [hnone]
    rw [if_neg hsink, if_neg hsink']
    by_cases hbusy : (q.threads t).sending = true
    · rw [if_pos hbusy, if_pos ((hsending hbusy).resolve_right hsink)]
    · rw [if_neg hbusy]
      exact Nat.zero_le _

theorem allowance_done {p : ClientProcess} {t : ℕ}
    (hsink : p.greaseLog ≠ some .logToSink)
    (hsending : (p.threads t).sending = false) : p.allowance t = 0 := by
  unfold allowance
  rw [if_neg hsink, hsending]
  rfl

theorem allowance_setThread (p : ClientProcess) {t : ℕ} {th : ClientThread}
    (herr : (p.threads t).errCnt ≤ th.errCnt)
    (hsending : th.sending = true →
      (p.threads t).sending = true ∨ p.greaseLog = some .logToSink) (u : ℕ) :
    (p.setThread t th).allowance u ≤ p.allowance u := by
  apply allowance_mono
  · exact Or.inl rfl
  · by_cases hu : u = t
    · subst hu
      simpa [setThread] using herr
    · simp [setThread, hu]
  · by_cases hu : u = t
    · subst hu
      simpa [setThread] using hsending
    · simpa [setThread, hu] using Or.inl

/-- The thread has left `grease_printf`, with this many errors. -/
def leave (p : ClientProcess) (t n : ℕ) : ClientProcess :=
  p.setThread t { p.threads t with printing := none, errCnt := n }

theorem call_of_sends {p : ClientProcess} {t : ℕ} {f : GreaseLogFn}
    {answer : SendAnswer}
    (hsends : f = .logToSink → (p.threads t).sendmsg answer ≠ none) :
    (p.call t f answer).1 = p.leave t (p.threads t).errCnt := by
  cases f with
  | logLocal r => rfl
  | logToSink =>
      have hsend : ((p.setThread t { p.threads t with
          printing := none }).threads t).sendmsg answer ≠ none := by
        simpa [setThread, ClientThread.sendmsg] using hsends rfl
      unfold call logToSink
      simp only
      split
      · rfl
      · rename_i hnone
        exact absurd hnone hsend

theorem call_of_fails {p : ClientProcess} {t : ℕ} {answer : SendAnswer}
    (hfails : (p.threads t).sendmsg answer = none) :
    (p.call t .logToSink answer).1 =
      if sinkMaxErrors < (p.threads t).errCnt + 1 then
        { p.leave t ((p.threads t).errCnt + 1) with greaseLog := none }
      else p.leave t ((p.threads t).errCnt + 1) := by
  have hsend : ((p.setThread t { p.threads t with
      printing := none }).threads t).sendmsg answer = none := by
    simpa [setThread, ClientThread.sendmsg] using hfails
  unfold call logToSink
  simp only
  split
  · rename_i fate hsome
    rw [hsend] at hsome
    cases hsome
  · simp [leave, setThread]

theorem allowance_leave (p : ClientProcess) (t : ℕ) {n : ℕ}
    (hn : (p.threads t).errCnt ≤ n) (u : ℕ) :
    (p.leave t n).allowance u ≤ p.allowance u :=
  p.allowance_setThread hn (by simp [ClientThread.sending]) u

theorem allowance_call (p : ClientProcess) (t : ℕ) (f : GreaseLogFn)
    (answer : SendAnswer) (u : ℕ) :
    (p.call t f answer).1.allowance u ≤ p.allowance u := by
  by_cases hfails : f = .logToSink ∧ (p.threads t).sendmsg answer = none
  · obtain ⟨rfl, hnone⟩ := hfails
    have hleft := p.allowance_leave t (Nat.le_succ _) u
    rw [call_of_fails hnone]
    split_ifs
    · refine le_trans ?_ hleft
      exact allowance_mono (Or.inr rfl) le_rfl Or.inl
    · exact hleft
  · rw [call_of_sends fun hf hnone => hfails ⟨hf, hnone⟩]
    exact p.allowance_leave t le_rfl u

/-- The thread is about to send, and the send will fail. -/
def SendFails (p : ClientProcess) (t : ℕ) (answer : SendAnswer) : Prop :=
  (p.threads t).sending = true ∧ (p.threads t).sendmsg answer = none

instance (p : ClientProcess) (t : ℕ) (answer : SendAnswer) :
    Decidable (p.SendFails t answer) :=
  inferInstanceAs (Decidable (_ ∧ _))

theorem allowance_fail {p : ClientProcess} {t : ℕ} {answer : SendAnswer}
    (hfail : p.SendFails t answer) :
    (p.call t .logToSink answer).1.allowance t < p.allowance t := by
  obtain ⟨hsending, hnone⟩ := hfail
  have hover : ∀ n, ((p.leave t n).threads t).sending = false ∧
      ((p.leave t n).threads t).errCnt = n := by
    intro n
    simp [leave, setThread, ClientThread.sending]
  have hlog : ∀ n, (p.leave t n).greaseLog = p.greaseLog := fun _ => rfl
  rw [call_of_fails hnone]
  split_ifs with hmany
  · have hgiven : ({ p.leave t ((p.threads t).errCnt + 1) with
        greaseLog := none } : ClientProcess).allowance t = 0 :=
      allowance_done (by simp) (hover _).1
    rw [hgiven]
    unfold allowance
    rw [if_pos hsending]
    split_ifs
    · exact Nat.succ_pos _
    · exact Nat.one_pos
  · by_cases hsink : p.greaseLog = some .logToSink
    · unfold allowance
      rw [hlog, if_pos hsink, if_pos hsink, (hover _).2]
      omega
    · rw [allowance_done ((hlog _).trans_ne hsink) (hover _).1]
      unfold allowance
      rw [if_neg hsink, if_pos hsending]
      exact Nat.one_pos

theorem patience_fail {p : ClientProcess} {t : ℕ} {answer : SendAnswer}
    (hfail : p.SendFails t answer) {T : Finset ℕ} (ht : t ∈ T) :
    (p.call t .logToSink answer).1.patience T + 1 ≤ p.patience T :=
  Finset.sum_lt_sum (fun u _ => p.allowance_call t .logToSink answer u)
    ⟨t, ht, allowance_fail hfail⟩

end ClientProcess

namespace ClientSystem

/-- Whether an act is a failed send of process `p`. -/
def failedSend (p : ℕ) (s : ClientSystem) : ClientAct → Bool
  | .call q t answer => decide (q = p ∧ (s.procs p).SendFails t answer)
  | _ => false

def failedSends (rcvBufSize p : ℕ) : ClientSystem → List ClientAct → ℕ
  | _, [] => 0
  | s, act :: acts =>
      (failedSend p s act).toNat +
        failedSends rcvBufSize p (step rcvBufSize s act) acts

/-- Process `p` calls no init function, and only its threads `T` log. -/
def OnlyLogs (p : ℕ) (T : Finset ℕ) : ClientAct → Prop
  | .init q _ _ _ _ => q ≠ p
  | .afterPing q _ => q ≠ p
  | .printf q t _ => q = p → t ∈ T
  | .call q t _ => q = p → t ∈ T
  | _ => True

theorem patience_setProc {s : ClientSystem} {p q : ℕ} {proc : ClientProcess}
    (hproc : q = p → ∀ t, proc.allowance t ≤ (s.procs p).allowance t)
    (T : Finset ℕ) :
    ((s.setProc q proc).procs p).patience T ≤ (s.procs p).patience T := by
  by_cases hq : p = q
  · subst hq
    have hle : proc.patience T ≤ (s.procs p).patience T :=
      Finset.sum_le_sum fun t _ => hproc rfl t
    simpa [setProc] using hle
  · simp [setProc, hq]

theorem patience_listen (s : ClientSystem) (rcvBufSize : ℕ) (path : String)
    (p : ℕ) (T : Finset ℕ) :
    ((s.listen rcvBufSize path).procs p).patience T ≤
      (s.procs p).patience T := by
  rcases procs_listen s rcvBufSize path with hsame | ⟨q, t, hprocs⟩
  · rw [hsame]
  · rw [hprocs]
    apply patience_setProc
    rintro rfl u
    apply ClientProcess.allowance_setThread
    · rfl
    · exact Or.inl

theorem patience_call (s : ClientSystem) {p q t : ℕ} {c : PrintfCall}
    {f : GreaseLogFn} (hprinting : ((s.procs q).threads t).printing = some (c, f))
    {answer : SendAnswer} {T : Finset ℕ} (ht : q = p → t ∈ T) :
    ((s.call q t c f answer).procs p).patience T +
        (failedSend p s (.call q t answer)).toNat ≤
      (s.procs p).patience T := by
  rw [procs_call]
  cases hfail : failedSend p s (.call q t answer) with
  | true =>
      obtain ⟨rfl, hsend⟩ := of_decide_eq_true hfail
      have hf : f = .logToSink := by
        simpa [ClientThread.sending, hprinting] using hsend.1
      subst hf
      simpa [setProc] using ClientProcess.patience_fail hsend (ht rfl)
  | false =>
      rw [Bool.toNat_false, add_zero]
      apply patience_setProc
      rintro rfl u
      exact (s.procs q).allowance_call t f answer u

/-- Every failed send costs the process some of its patience. -/
theorem patience_step (rcvBufSize : ℕ) (s : ClientSystem) {p : ℕ}
    {T : Finset ℕ} {act : ClientAct} (hact : OnlyLogs p T act) :
    ((step rcvBufSize s act).procs p).patience T + (failedSend p s act).toNat ≤
      (s.procs p).patience T := by
  cases act with
  | init q t kind modules env =>
      simp only [step, failedSend, Bool.toNat_false, add_zero]
      split_ifs
      · exact le_rfl
      · rw [procs_init]
        exact patience_setProc (fun hq => absurd hq hact) T
  | afterPing q t =>
      simp only [step, failedSend, Bool.toNat_false, add_zero]
      split_ifs
      · exact patience_setProc (fun hq => absurd hq hact) T
      · exact le_rfl
  | printf q t c =>
      simp only [step, failedSend, Bool.toNat_false, add_zero]
      split_ifs
      · exact le_rfl
      · refine patience_setProc (fun hq u => ?_) T
        subst hq
        apply ClientProcess.allowance_setThread
        · rfl
        · -- the thread is about to send only if `grease_log` leads to the sink
          intro hsending
          right
          rcases hlog : (s.procs q).greaseLog with - | f
          · simp [ClientThread.sending, hlog] at hsending
          · simpa [ClientThread.sending, hlog] using hsending
  | call q t answer =>
      simp only [step]
      split
      · rename_i c f hprinting
        exact patience_call s hprinting hact
      · rename_i hprinting
        have hnone : failedSend p s (.call q t answer) = false := by
          apply decide_eq_false
          rintro ⟨rfl, hsending, -⟩
          simp [ClientThread.sending, hprinting] at hsending
        rw [hnone, Bool.toNat_false, add_zero]
  | shutdown q t holder =>
      simp only [step, failedSend, Bool.toNat_false, add_zero]
      split_ifs
      · exact le_rfl
      · refine patience_setProc (fun hq u => ?_) T
        subst hq
        rcases (s.procs q).shutdown_cases t holder with hsame | ⟨v, hclosed⟩
        · rw [hsame]
        · rw [hclosed]
          apply ClientProcess.allowance_setThread
          · rfl
          · exact Or.inl
  | listen path =>
      simp only [step, failedSend, Bool.toNat_false, add_zero]
      exact patience_listen s rcvBufSize path p T

theorem failedSends_le (rcvBufSize : ℕ) (p : ℕ) (T : Finset ℕ)
    (acts : List ClientAct) (s : ClientSystem)
    (hacts : ∀ act ∈ acts, OnlyLogs p T act) :
    failedSends rcvBufSize p s acts ≤ (s.procs p).patience T := by
  induction acts generalizing s with
  | nil => exact Nat.zero_le _
  | cons act acts ih =>
      have hstep := patience_step rcvBufSize s (hacts act List.mem_cons_self)
      have hrest := ih (step rcvBufSize s act)
        fun other hother => hacts other (List.mem_cons_of_mem _ hother)
      unfold failedSends
      omega

end ClientSystem

/-- From whatever state, a process whose `n` threads go on logging without
another init has at most `11 * n` failed sends, however its steps and those of
the other processes and of the sinks are interleaved: by then `grease_log` is
`NULL` for all of its threads, and those that had read it before have failed. -/
theorem failed_sends_bounded (rcvBufSize : ℕ) (s : ClientSystem) (p : ℕ)
    (T : Finset ℕ) (acts : List ClientAct)
    (hacts : ∀ act ∈ acts, ClientSystem.OnlyLogs p T act) :
    ClientSystem.failedSends rcvBufSize p s acts ≤
      (sinkMaxErrors + 1) * T.card :=
  (ClientSystem.failedSends_le rcvBufSize p T acts s hacts).trans
    ((s.procs p).patience_le T)

/-- Two threads with broken sockets use the bound up: both read `grease_log`
before their last failures. -/
theorem failed_sends_bounded_two :
    let s : ClientSystem := { procs := fun _ =>
      { greaseLog := some .logToSink
        threads := fun _ => { fd := .broken } } }
    let c : PrintfCall := ⟨noMetaData, 0, [72, 105]⟩
    let acts : List ClientAct :=
      (List.replicate 20 [.printf 0 7 c, .printf 0 8 c, .call 0 7 .accepts,
        .call 0 8 .accepts]).flatten
    ClientSystem.failedSends 65536 0 s acts = 22 ∧
      ClientSystem.failedSends 65536 0 s acts ≤
        (sinkMaxErrors + 1) * ({7, 8} : Finset ℕ).card := by
  intro s c acts
  have hacts : ∀ act ∈ acts, ClientSystem.OnlyLogs 0 {7, 8} act := by
    intro act hact
    rcases List.mem_flatten.mp hact with ⟨round, hround, hmem⟩
    rw [List.eq_of_mem_replicate hround] at hmem
    simp only [List.mem_cons, List.not_mem_nil, or_false] at hmem
    rcases hmem with rfl | rfl | rfl | rfl <;> simp [ClientSystem.OnlyLogs]
  exact ⟨by decide, failed_sends_bounded 65536 s 0 {7, 8} acts hacts⟩

end GreaseLog
