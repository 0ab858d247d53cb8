import GreaseLog.KeepAliveRuns
import GreaseLog.Mutexes

/-!
# Calls that wait for themselves

Commands, completions and the calls of the user are looked at one by one, and
then in runs of any order.  Only the shutdown can lock a mutex it holds: it
flushes all targets synchronously and waits for itself at the first bank of a
tty.  At the end the traces are compared with the flag `deadlocked`, by which
the targets of the model mark such a call.
-/

namespace GreaseLog

open LockTrace

/-! ## Steps -/

namespace Logger

def Hangs (s : Logger) (a : TargetId × TargetAct) : Prop :=
  ∃ t, s.target? a.1 = some t ∧ t.Hangs a.2

theorem performLocks_ranked
    {s : Logger} {a : TargetId × TargetAct} (hfree : ¬s.Hangs a)
    (env : Formatting) (w : Outcomes) :
    Ranked Mutex.rank 0 (s.performLocks env w a) := by
  unfold performLocks
  split
  · exact Ranked.nil
  · rename_i t htarget
    have hact : ¬t.Hangs a.2 := fun hhangs => hfree ⟨t, htarget, hhangs⟩
    exact LogTarget.actLocks_ranked hact s.owner env w a.1

theorem Hangs.relocks
    {s : Logger} {a : TargetId × TargetAct} (hhangs : s.Hangs a)
    (env : Formatting) (w : Outcomes) : Relocks (s.performLocks env w a) := by
  rcases hhangs with ⟨t, htarget, hact⟩
  unfold performLocks
  rw [htarget]
  exact hact.relocks s.owner env w a.1

/-- No act of the list finds a target on which it hangs. -/
def ActsFree (s : Logger) (env : Formatting)
    (acts : List (TargetId × TargetAct)) : Prop :=
  Run.Meets (fun s a => s.perform env a.1 a.2) (fun s a => ¬s.Hangs a) s acts

theorem performAllLocks_ranked
    {env : Formatting} {s : Logger} {acts : List (TargetId × TargetAct)}
    (hfree : s.ActsFree env acts) (w : Outcomes) :
    Ranked Mutex.rank 0 (performAllLocks env w s acts) := by
  induction acts generalizing s with
  | nil => exact Ranked.nil
  | cons a acts ih => exact (performLocks_ranked hfree.1 env w).append (ih hfree.2)

theorem relocks_performAllLocks
    {env : Formatting} {s : Logger} {acts : List (TargetId × TargetAct)}
    (hhangs : ¬s.ActsFree env acts) (w : Outcomes) :
    Relocks (performAllLocks env w s acts) := by
  induction acts generalizing s with
  | nil => exact absurd trivial hhangs
  | cons a acts ih =>
      by_cases hfirst : s.Hangs a
      · exact (hfirst.relocks env w).append _
      · have hrest : ¬(s.perform env a.1 a.2).ActsFree env acts :=
          fun hfree => hhangs ⟨hfirst, hfree⟩
        exact (performLocks_ranked hfirst env w).relocks_append_iff.mpr
          (ih hrest)

/-! ## Commands -/

/-- No tty has a bank to write. -/
def NoTtyWaiting (s : Logger) : Prop :=
  ∀ id t, s.target? id = some t → t.kind = .tty → ¬t.HasWaiting

theorem NoTtyWaiting.perform
    {s : Logger} (hnone : s.NoTtyWaiting) (env : Formatting) (id : TargetId)
    (nocallbacks : Bool) :
    (s.perform env id (.flushAllSync true nocallbacks)).NoTtyWaiting := by
  rcases s.perform_cases env id (.flushAllSync true nocallbacks) with
    ⟨-, heq⟩ | ⟨t, hacts⟩
  · rw [heq]
    exact hnone
  · intro id' t' htarget hkind
    by_cases hsame : id' = id
    · subst hsame
      rw [hacts.after, Option.some.injEq] at htarget
      subst htarget
      have hbefore : t.kind = .tty :=
        (t.flushAllSync_sameConfig s.owner true nocallbacks).kind ▸ hkind
      exact LogTarget.not_hasWaiting_flushAllSync
        (hnone id' t hacts.before hbefore) s.owner nocallbacks
    · rw [hacts.others id' hsame] at htarget
      exact hnone id' t' htarget hkind

theorem NoTtyWaiting.not_hangs
    {s : Logger} (hnone : s.NoTtyWaiting) (id : TargetId)
    (nocallbacks : Bool) : ¬s.Hangs (id, .flushAllSync true nocallbacks) := by
  rintro ⟨t, htarget, hkind, hwaiting⟩
  exact hnone id t htarget hkind (t.rotate_writeOut_ne_nil_iff.mp hwaiting)

theorem NoTtyWaiting.actsFree
    {s : Logger} (hnone : s.NoTtyWaiting) (env : Formatting)
    {acts : List (TargetId × TargetAct)}
    (hsync : ∀ a ∈ acts, ∃ nocallbacks, a.2 = .flushAllSync true nocallbacks) :
    s.ActsFree env acts := by
  induction acts generalizing s with
  | nil => trivial
  | cons a acts ih =>
      rcases a with ⟨id, a⟩
      rcases hsync (id, a) (by simp) with ⟨nocallbacks, rfl⟩
      exact ⟨hnone.not_hangs id nocallbacks,
        ih (hnone.perform env id nocallbacks)
          fun a ha => hsync a (List.mem_cons_of_mem _ ha)⟩

theorem target?_performs_of_ne
    (env : Formatting) {id : TargetId} (s : Logger)
    {acts : List (TargetId × TargetAct)} (hother : ∀ a ∈ acts, a.1 ≠ id) :
    (Run.final (fun s a => s.perform env a.1 a.2) s acts).target? id =
      s.target? id := by
  induction acts generalizing s with
  | nil => rfl
  | cons a acts ih =>
      rw [Run.final_cons, ih _ fun a ha => hother a (List.mem_cons_of_mem _ ha)]
      have hne : id ≠ a.1 := (hother a (by simp)).symm
      rcases s.perform_cases env a.1 a.2 with ⟨-, heq⟩ | ⟨t, hacts⟩
      · rw [heq]
      · exact hacts.others id hne

/-- A shutdown comes to every target, and not before to the same one. -/
theorem shutdownActs_split
    {s : Logger} {id : TargetId} {t : LogTarget}
    (htarget : s.target? id = some t) :
    ∃ before nocallbacks after,
      s.shutdownActs = before ++ (id, .flushAllSync true nocallbacks) :: after ∧
        ∀ a ∈ before, a.1 ≠ id := by
  by_cases hid : id = 0
  · subst hid
    exact ⟨[], false, _, rfl, by simp⟩
  · have hkey : id ∈ s.targets.keys := by
      unfold target? at htarget
      rw [if_neg hid] at htarget
      exact AList.mem_keys.mpr (AList.lookup_isSome.mp (by simp [htarget]))
    rcases List.eq_append_cons_of_mem hkey with ⟨before, after, hkeys, hfirst⟩
    refine ⟨(0, .flushAllSync true false) ::
      before.map fun id => (id, .flushAllSync true true), true,
      after.map fun id => (id, .flushAllSync true true), ?_, ?_⟩
    · simp [shutdownActs, hkeys]
    · intro a ha
      rcases List.mem_cons.mp ha with rfl | ha
      · exact Ne.symm hid
      · rcases List.mem_map.mp ha with ⟨id', hid', rfl⟩
        rintro rfl
        exact hfirst hid'

theorem shutdownActs_free_iff (s : Logger) (env : Formatting) :
    s.ActsFree env s.shutdownActs ↔ s.NoTtyWaiting := by
  constructor
  · intro hfree id t htarget hkind hwaiting
    rcases shutdownActs_split htarget with
      ⟨before, nocallbacks, after, hacts, hothers⟩
    unfold ActsFree at hfree
    rw [hacts, Run.meets_append] at hfree
    refine hfree.2.1 ⟨t, ?_, hkind, t.rotate_writeOut_ne_nil_iff.mpr hwaiting⟩
    exact (target?_performs_of_ne env s hothers).trans htarget
  · intro hnone
    apply hnone.actsFree
    intro a ha
    rcases List.mem_cons.mp ha with rfl | ha
    · exact ⟨false, rfl⟩
    · rcases List.mem_map.mp ha with ⟨id, -, rfl⟩
      exact ⟨true, rfl⟩

theorem actsFree_of_forall
    {acts : List (TargetId × TargetAct)}
    (hfree : ∀ a ∈ acts, ∀ s : Logger, ¬s.Hangs a) (s : Logger)
    (env : Formatting) : s.ActsFree env acts := by
  induction acts generalizing s with
  | nil => trivial
  | cons a acts ih =>
      exact ⟨hfree a (by simp) s,
        ih (fun a ha => hfree a (List.mem_cons_of_mem _ ha)) _⟩

/-- Of the commands only the shutdown flushes synchronously. -/
theorem cmdActs_free
    (s : Logger) {c : InternalCmdReq} (hc : c ≠ .internalShutdown)
    (s' : Logger) (env : Formatting) : s'.ActsFree env (s.cmdActs c) := by
  apply actsFree_of_forall
  rintro a ha s'' ⟨t, -, hhangs⟩
  rcases mem_cmdActs ha with ⟨l, f, -, -, -, rfl⟩ | ⟨d, -, rfl⟩ |
    ⟨d, l, f, -, -, -, rfl | rfl⟩ | hshutdown
  · exact hhangs
  · exact hhangs
  · exact hhangs
  · exact hhangs
  · exact hc hshutdown

/-- The condition for a call: no tty has a bank to write when the command is a
shutdown. -/
def CallFree (s : Logger) : Call → Prop
  | .step (.handle _) _ =>
      s.owner.internalCmdQueue.items.head? = some .internalShutdown →
        s.NoTtyWaiting
  | _ => True

theorem execCmd_actsFree_iff
    (s : Logger) (env : Formatting) (c : InternalCmdReq) :
    ({ s with strayed := s.strayed || s.cmdStrays c }.ActsFree env
      (s.cmdActs c)) ↔ (c = .internalShutdown → s.NoTtyWaiting) := by
  by_cases hc : c = .internalShutdown
  · subst hc
    refine (shutdownActs_free_iff
      { s with strayed := s.strayed || s.cmdStrays .internalShutdown }
      env).trans ?_
    exact ⟨fun hnone _ => hnone, fun hnone => hnone rfl⟩
  · exact iff_of_true (s.cmdActs_free hc _ env) fun h => absurd h hc

theorem handleInternalCmdLocks_cases
    (s : Logger) (env : Formatting) (w : Outcomes) :
    (s.owner.internalCmdQueue.items = [] ∧
        s.handleInternalCmdLocks env w = []) ∨
      ∃ c queue, s.owner.internalCmdQueue.items = c :: queue.items ∧
        s.handleInternalCmdLocks env w =
          (s.withQueue queue).execCmdLocks env w c := by
  unfold handleInternalCmdLocks removeCmd
  cases hremove : s.owner.internalCmdQueue.remove with
  | none => exact Or.inl ⟨BoundedFifo.remove_eq_none_iff.mp hremove, rfl⟩
  | some taken =>
      exact Or.inr ⟨taken.1, taken.2, (BoundedFifo.remove_eq_some hremove).1,
        rfl⟩

theorem cleanupGreaseLibBufLocks_ranked
    (s : Logger) (env : Formatting) (w : Outcomes) (j : ℕ) :
    Ranked Mutex.rank 0 (s.cleanupGreaseLibBufLocks env w j) := by
  have hreturn : ∀ id shadow, Ranked Mutex.rank 0
      (s.returnBufferToTargetLocks env w id shadow) := by
    intro id shadow
    unfold returnBufferToTargetLocks
    split
    · apply performLocks_ranked
      rintro ⟨t, -, hhangs⟩
      exact hhangs
    · exact Ranked.nil
  unfold cleanupGreaseLibBufLocks
  split
  · exact Ranked.nil
  · split
    · exact hreturn _ _
    · exact Ranked.nil
  · exact Ranked.nil

/-- Under the condition a call keeps to the lock order. -/
theorem callLocks_ranked
    {s : Logger} {c : Call} (hfree : s.CallFree c) :
    Ranked Mutex.rank 0 (s.callLocks c) := by
  cases c with
  | shutdown => exact Ranked.nil
  | step a w =>
      cases a with
      | handle env =>
          change Ranked _ _ (s.handleInternalCmdLocks env w)
          rcases s.handleInternalCmdLocks_cases env w with ⟨-, heq⟩ |
            ⟨c, queue, hitems, heq⟩
          · rw [heq]
            exact Ranked.nil
          · rw [heq]
            apply performAllLocks_ranked
            apply (execCmd_actsFree_iff (s.withQueue queue) env c).mpr
            intro hc
            exact hfree (by rw [hitems, hc]; rfl)
      | cleanup j => exact s.cleanupGreaseLibBufLocks_ranked noFormatting w j
      | log m following text => exact Ranked.nil
      | redirect r d data => exact Ranked.nil
      | klog mem start remain => exact Ranked.nil
      | callV8LogCallbacks => exact Ranked.nil
      | filter c => exact Ranked.nil
      | _ =>
          simp only [callLocks, stepLocks]
          apply performLocks_ranked
          rintro ⟨t, -, hhangs⟩
          exact hhangs

theorem relocks_callLocks
    {s : Logger} {c : Call} (hhangs : ¬s.CallFree c) :
    Relocks (s.callLocks c) := by
  cases c with
  | shutdown => exact absurd trivial hhangs
  | step a w =>
      cases a with
      | handle env =>
          simp only [CallFree, Classical.not_imp] at hhangs
          rcases s.handleInternalCmdLocks_cases env w with ⟨hempty, -⟩ |
            ⟨c, queue, hitems, heq⟩
          · rw [hempty] at hhangs
            exact absurd hhangs.1 (by simp)
          · rw [hitems, List.head?_cons, Option.some.injEq] at hhangs
            change Relocks (s.handleInternalCmdLocks env w)
            rw [heq]
            apply relocks_performAllLocks
            rw [execCmd_actsFree_iff]
            exact fun hnone => hhangs.2 (hnone hhangs.1)
      | _ => exact absurd trivial hhangs

theorem relocks_callLocks_iff (s : Logger) (c : Call) :
    ¬Relocks (s.callLocks c) ↔ s.CallFree c := by
  constructor
  · intro hlocks
    by_contra hhangs
    exact hlocks (relocks_callLocks hhangs)
  · intro hfree
    exact (callLocks_ranked hfree).not_relocks

/-- In a run of the logger no call locks a mutex it holds, exactly if no tty
has a bank to write when a shutdown is handled. -/
theorem calls_relock_never_iff (s : Logger) (calls : List Call) :
    Run.Meets call (fun s c => ¬Relocks (s.callLocks c)) s calls ↔
      Run.Meets call CallFree s calls :=
  Run.meets_congr relocks_callLocks_iff

def noOutcomes : Outcomes where
  failed := fun _ => false
  rotates := fun _ => false
  cleansUp := fun _ => false

/-- One message is written to the terminal, and the program exits. -/
def logAndExit : List Call :=
  [.step (.log (LogMeta.declare 0 1 0) noIgnoreList [104]) noOutcomes,
    .step (.handle noFormatting) noOutcomes, .shutdown]

/-- The shutdown locks the mutex of the bank with the message twice. -/
theorem shutdown_relocks_bank :
    Relocks ((Run.final call ttyLogger logAndExit).callLocks
        (.step (.handle noFormatting) noOutcomes)) ∧
      ¬Run.Meets call (fun s c => ¬Relocks (s.callLocks c)) ttyLogger
        (logAndExit ++ [.step (.handle noFormatting) noOutcomes]) := by
  have hrelocks : Relocks ((Run.final call ttyLogger logAndExit).callLocks
      (.step (.handle noFormatting) noOutcomes)) := by decide +kernel
  refine ⟨hrelocks, ?_⟩
  rw [Run.meets_append]
  rintro ⟨-, hlast, -⟩
  exact hlast hrelocks

end Logger

/-! ## The flag of the model -/

namespace LogTarget

theorem flushSync_deadlocked
    (t : LogTarget) (o : Owner) (b : LogBuf) (nocallbacks : Bool) :
    (t.flushSync o b nocallbacks).2.deadlocked =
      (o.deadlocked || t.kind = .tty) := by
  unfold flushSync
  split
  · rename_i hkind
    simp [hkind]
  · rename_i hkind
    rw [(returnBuffer_count
      { t with handed := t.handed ++ [Handed.bank b.data] } o b true
      nocallbacks).2, decide_eq_false hkind, Bool.or_false]

theorem flushAll_deadlocked
    (t : LogTarget) (o : Owner) (rotate nocallbacks : Bool) :
    (t.flushAll o rotate nocallbacks).2.deadlocked = o.deadlocked := by
  refine flushLoop_invariant (f := fun t o b => t.flush o b nocallbacks)
    (P := fun _ o' => o'.deadlocked = o.deadlocked) ?_ _ (t.flushStart rotate)
    o rfl
  intro t' o' b writeOut _ hsame
  rcases flush_accounts { t' with writeOutBuffers := writeOut } o' b
    nocallbacks with ⟨unrefs, -, -, hdeadlocked⟩
  exact hdeadlocked.trans hsame

theorem flushAllSync_deadlocked_iff
    (t : LogTarget) (o : Owner) (rotate nocallbacks : Bool) :
    (t.flushAllSync o rotate nocallbacks).2.deadlocked = true ↔
      o.deadlocked = true ∨ t.Hangs (.flushAllSync rotate nocallbacks) := by
  have hkind := (t.flushStart_sameConfig rotate).kind
  change (flushLoop (fun t o b => t.flushSync o b nocallbacks)
    (t.flushStart rotate).writeOutBuffers.items.length (t.flushStart rotate)
    o).2.deadlocked = true ↔ _ ∨ t.kind = .tty ∧ _
  generalize t.flushStart rotate = start at hkind ⊢
  rw [← hkind]
  cases hremove : start.writeOutBuffers.remove with
  | none =>
      rw [BoundedFifo.remove_eq_none_iff.mp hremove]
      simp [flushLoop]
  | some taken =>
      -- The first round sets the flag or not; the others do the same.
      rcases taken with ⟨b, writeOut⟩
      have hitems := (BoundedFifo.remove_eq_some hremove).1
      rw [hitems, List.length_cons, flushLoop, hremove]
      dsimp only
      have hflag := flushLoop_invariant
        (f := fun t o b => t.flushSync o b nocallbacks)
        (P := fun t' o' => t'.kind = start.kind ∧
          o'.deadlocked = (o.deadlocked || start.kind = .tty))
        (by
          intro t' o' b' writeOut' _ hsame
          refine ⟨(flushSync_kind _ o' b' nocallbacks).trans hsame.1, ?_⟩
          rw [flushSync_deadlocked, hsame.2, Bool.or_assoc]
          dsimp only
          rw [hsame.1, Bool.or_self])
        writeOut.items.length _ _
        ⟨flushSync_kind { start with writeOutBuffers := writeOut } o b
            nocallbacks,
          flushSync_deadlocked { start with writeOutBuffers := writeOut } o b
            nocallbacks⟩
      rw [hflag.2]
      simp

theorem act_deadlocked_iff
    (t : LogTarget) (o : Owner) (env : Formatting) (a : TargetAct) :
    (t.act o env a).2.deadlocked = true ↔ o.deadlocked = true ∨ t.Hangs a := by
  cases a with
  | flushAllSync rotate nocallbacks =>
      exact t.flushAllSync_deadlocked_iff o rotate nocallbacks
  | write seq text m filter =>
      rw [act, (t.write_count o env seq text m filter).2]
      simp [Hangs]
  | writeOverflow l filter =>
      rcases t.writeOverflow_accounts o env l filter with ⟨-, -, -, hsame, -⟩
      rw [act, hsame]
      simp [Hangs]
  | flushAll rotate nocallbacks =>
      rw [act, t.flushAll_deadlocked o rotate nocallbacks]
      simp [Hangs]
  | completeWrite i =>
      rcases t.completeWrite_accounts o i with ⟨-, -, hsame⟩
      rw [act, hsame]
      simp [Hangs]
  | completeOverflow i =>
      rcases t.completeOverflow_accounts o i with ⟨-, -, hsame⟩
      rw [act, hsame]
      simp [Hangs]
  | _ => simp [act, Hangs]

end LogTarget

namespace Logger

theorem perform_deadlocked_iff
    (s : Logger) (env : Formatting) (a : TargetId × TargetAct) :
    (s.perform env a.1 a.2).owner.deadlocked = true ↔
      s.owner.deadlocked = true ∨ s.Hangs a := by
  rcases s.perform_cases env a.1 a.2 with ⟨hnone, heq⟩ | ⟨t, hacts⟩
  · rw [heq]
    simp [Hangs, hnone]
  · rw [hacts.owner, t.act_deadlocked_iff]
    simp [Hangs, hacts.before]

theorem perform_deadlocked
    {a : TargetAct} (hfree : ∀ t : LogTarget, ¬t.Hangs a) (s : Logger)
    (env : Formatting) (id : TargetId) :
    (s.perform env id a).owner.deadlocked = s.owner.deadlocked := by
  rw [Bool.eq_iff_iff, s.perform_deadlocked_iff env (id, a)]
  simp [Hangs, hfree]

theorem performAll_deadlocked_iff
    (s : Logger) (env : Formatting) (acts : List (TargetId × TargetAct)) :
    (s.performAll env acts).owner.deadlocked = true ↔
      s.owner.deadlocked = true ∨ ¬s.ActsFree env acts := by
  induction acts generalizing s with
  | nil => simp [performAll, ActsFree, Run.Meets]
  | cons a acts ih =>
      refine (ih (s.perform env a.1 a.2)).trans ?_
      rw [s.perform_deadlocked_iff env a]
      simp only [ActsFree, Run.Meets]
      tauto

theorem Takes.deadlocked {s s' : Logger} (htakes : s.Takes s') :
    s'.owner.deadlocked = s.owner.deadlocked := by
  rcases htakes.owner with ⟨queue, howner, -⟩
  rw [howner]

theorem handleInternalCmd_deadlocked_iff
    (s : Logger) (env : Formatting) (w : Outcomes) :
    (s.handleInternalCmd env).owner.deadlocked = true ↔
      s.owner.deadlocked = true ∨ ¬s.CallFree (.step (.handle env) w) := by
  unfold CallFree
  rcases s.handleInternalCmd_cases env with ⟨hempty, heq⟩ |
    ⟨c, queue, hitems, -, heq⟩
  · rw [heq, hempty]
    simp
  · rw [heq, (takes_finishCmd _ c).deadlocked, execCmd,
      performAll_deadlocked_iff, execCmd_actsFree_iff, hitems,
      List.head?_cons, Option.some.injEq]
    exact Iff.rfl

theorem cleanupGreaseLibBuf_deadlocked
    (s : Logger) (env : Formatting) (j : ℕ) :
    (s.cleanupGreaseLibBuf env j).owner.deadlocked = s.owner.deadlocked := by
  unfold cleanupGreaseLibBuf
  split
  · rfl
  · dsimp only
    split
    · split
      · unfold returnBufferToTarget
        split
        · rename_i shadow _ _ _
          exact perform_deadlocked (a := .finalizeV8Callback shadow)
            (fun _ hhangs => hhangs) _ env _
        · rfl
      · rfl
    · rfl

/-- The model marks a call that waits for itself by `deadlocked`. -/
theorem call_deadlocked_iff (s : Logger) (c : Call) :
    (s.call c).owner.deadlocked = true ↔
      s.owner.deadlocked = true ∨ Relocks (s.callLocks c) := by
  have hlocks : Relocks (s.callLocks c) ↔ ¬s.CallFree c := by
    rw [← relocks_callLocks_iff, not_not]
  rw [hlocks]
  cases c with
  | shutdown =>
      simp only [call, shutdown, CallFree, not_true, or_false]
      split <;> rfl
  | step a w =>
      cases a with
      | handle env => exact s.handleInternalCmd_deadlocked_iff env w
      | log m following text =>
          simp [call, step, CallFree, (s.takes_log m following text).deadlocked]
      | redirect r d data =>
          simp [call, step, CallFree, (s.takes_redirect r d data).deadlocked]
      | klog mem start remain =>
          simp [call, step, CallFree, (s.takes_klog mem start remain).deadlocked]
      | cleanup j =>
          simp [call, step, CallFree, s.cleanupGreaseLibBuf_deadlocked]
      | callV8LogCallbacks =>
          simp only [call, step, CallFree, callV8LogCallbacks, not_true,
            or_false]
          split
          · rfl
          · unfold doLibCallback
            split <;> rfl
      | filter c => simp [call, step, CallFree]
      | flushTimer id nocallbacks =>
          have hsame := perform_deadlocked (a := .flushAll true nocallbacks)
            (fun _ hhangs => hhangs) s noFormatting id
          simp [call, step, CallFree, hsame]
      | completeWrite id i =>
          have hsame := perform_deadlocked (a := .completeWrite i)
            (fun _ hhangs => hhangs) s noFormatting id
          simp [call, step, CallFree, hsame]
      | completeOverflow id i =>
          have hsame := perform_deadlocked (a := .completeOverflow i)
            (fun _ hhangs => hhangs) s noFormatting id
          simp [call, step, CallFree, hsame]
      | disableTarget id v =>
          have hsame := perform_deadlocked (a := .disableWrites v)
            (fun _ hhangs => hhangs) s noFormatting id
          simp [call, step, CallFree, hsame]
      | setCallback id =>
          have hsame := perform_deadlocked (a := .setCallback)
            (fun _ hhangs => hhangs) s noFormatting id
          simp [call, step, CallFree, hsame]

end Logger

end GreaseLog
