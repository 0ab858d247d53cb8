import GreaseLog.Intake
import GreaseLog.TargetSteps

/-!
# What a step can do to the logger

A step takes a message in, lets targets act, or passes banks between the
targets and the user.  The lemmas here say which parts of the logger each of
these can change.
-/

namespace GreaseLog

def InternalCmdReq.message? : InternalCmdReq → Option SingleLog
  | .newLog l => some l
  | .writeTargetOverflow _ l => some l
  | _ => none

def InternalCmdReq.newLog? : InternalCmdReq → Option SingleLog
  | .newLog l => some l
  | _ => none

namespace Logger

/-! ## Targets -/

theorem target?_setTarget_self (s : Logger) (id : TargetId) (t : LogTarget) :
    (s.setTarget id t).target? id = some t := by
  unfold target? setTarget
  split <;> simp

theorem target?_setTarget_of_ne
    (s : Logger) {id id' : TargetId} (t : LogTarget) (hne : id' ≠ id) :
    (s.setTarget id t).target? id' = s.target? id' := by
  unfold target? setTarget
  by_cases hid : id = 0
  · have hid' : id' ≠ 0 := fun h => hne (h.trans hid.symm)
    rw [if_pos hid, if_neg hid', if_neg hid']
  · rw [if_neg hid]
    dsimp only
    rw [AList.lookup_insert_ne hne]

theorem registered_setTarget
    {s : Logger} {id : TargetId} {t : LogTarget}
    (hexists : s.target? id = some t) (t' : LogTarget) (id' : TargetId) :
    (s.setTarget id t').registered id' = s.registered id' := by
  unfold registered setTarget
  unfold target? at hexists
  split
  · rfl
  · rename_i hid
    rw [if_neg hid] at hexists
    dsimp only
    by_cases hsame : id' = id
    · subst hsame
      rw [AList.lookup_insert, hexists]
      rfl
    · rw [AList.lookup_insert_ne hsame]

/-- What no act of a target reaches. -/
structure SameIntake (s s' : Logger) : Prop where
  bufferSize : s'.bufferSize = s.bufferSize
  opts : s'.opts = s.opts
  filters : s'.filters = s.filters
  masterBufferAvail : s'.masterBufferAvail = s.masterBufferAvail
  nextSeq : s'.nextSeq = s.nextSeq
  poolBlocked : s'.poolBlocked = s.poolBlocked
  registered : ∀ id, s'.registered id = s.registered id

theorem SameIntake.refl (s : Logger) : s.SameIntake s :=
  ⟨rfl, rfl, rfl, rfl, rfl, rfl, fun _ => rfl⟩

structure Acts (s s' : Logger) (env : Formatting) (id : TargetId)
    (a : TargetAct) (t : LogTarget) : Prop where
  before : s.target? id = some t
  after : s'.target? id = some (t.act s.owner env a).1
  others : ∀ id', id' ≠ id → s'.target? id' = s.target? id'
  owner : s'.owner = (t.act s.owner env a).2
  intake : s.SameIntake s'

theorem perform_cases
    (s : Logger) (env : Formatting) (id : TargetId) (a : TargetAct) :
    (s.target? id = none ∧ s.perform env id a = s) ∨
      ∃ t, s.Acts (s.perform env id a) env id a t := by
  unfold perform
  cases htarget : s.target? id with
  | none => exact Or.inl ⟨rfl, rfl⟩
  | some t =>
      right
      have hintake : s.SameIntake { s.setTarget id (t.act s.owner env a).1 with
          owner := (t.act s.owner env a).2 } := by
        refine ⟨?_, ?_, ?_, ?_, ?_, ?_, registered_setTarget htarget _⟩ <;>
          dsimp only <;> unfold setTarget <;> split <;> rfl
      exact ⟨t, htarget, target?_setTarget_self s id _,
        fun id' hne => target?_setTarget_of_ne s _ hne, rfl, hintake⟩

/-- An act adds at most its own delivery. -/
theorem Acts.mem_delivered
    {s s' : Logger} {env : Formatting} {id : TargetId} {a : TargetAct}
    {t : LogTarget} (hacts : s.Acts s' env id a t) {d : Delivery}
    (hd : d ∈ s'.owner.delivered) :
    d ∈ s.owner.delivered ∨ t.delivery? a = some d := by
  rw [hacts.owner] at hd
  rcases t.act_delivered s.owner env a with hsame | ⟨d', hd', hadded⟩
  · rw [hsame] at hd
    exact Or.inl hd
  · rw [hadded] at hd
    rcases List.mem_append.mp hd with hold | hnew
    · exact Or.inl hold
    · rw [List.mem_singleton.mp hnew]
      exact Or.inr hd'

/-- A command on the queue was there before or the act has asked for it. -/
theorem Acts.mem_queue
    {s s' : Logger} {env : Formatting} {id : TargetId} {a : TargetAct}
    {t : LogTarget} (hacts : s.Acts s' env id a t) {c : InternalCmdReq}
    (hc : c ∈ s'.owner.internalCmdQueue.items) :
    c ∈ s.owner.internalCmdQueue.items ∨ t.Asks env a c := by
  rcases t.act_queue s.owner env a with ⟨added, hitems, hasks⟩
  rw [hacts.owner, hitems] at hc
  rcases List.mem_append.mp hc with hold | hnew
  · exact Or.inl hold
  · exact Or.inr (hasks c hnew)

theorem performAll_invariant
    {P : Logger → Prop} {env : Formatting}
    {acts : List (TargetId × TargetAct)}
    (hperform : ∀ s, P s → ∀ a ∈ acts, P (s.perform env a.1 a.2))
    {s : Logger} (hstart : P s) : P (s.performAll env acts) := by
  induction acts generalizing s with
  | nil => exact hstart
  | cons a acts ih =>
      have hnext := hperform s hstart a (by simp)
      exact ih (fun s hs b hb => hperform s hs b (by simp [hb])) hnext

theorem sameIntake_perform
    (s : Logger) (env : Formatting) (id : TargetId) (a : TargetAct) :
    s.SameIntake (s.perform env id a) := by
  rcases s.perform_cases env id a with ⟨-, heq⟩ | ⟨t, hacts⟩
  · rw [heq]
    exact SameIntake.refl s
  · exact hacts.intake

def Filed (s : Logger) : Prop :=
  ∀ id t, s.target? id = some t → t.myId = id

theorem filed_new (bufferSize : ℕ) : (Logger.new bufferSize).Filed := by
  intro id t htarget
  unfold target? at htarget
  split at htarget <;> simp [Logger.new] at htarget

theorem Filed.setTarget
    {s : Logger} (hfiled : s.Filed) (id : TargetId) (t : LogTarget)
    (hid : t.myId = id) : (s.setTarget id t).Filed := by
  intro id' t' htarget
  by_cases hsame : id' = id
  · rw [hsame, target?_setTarget_self] at htarget
    rw [← Option.some.inj htarget, hid, hsame]
  · rw [target?_setTarget_of_ne s t hsame] at htarget
    exact hfiled id' t' htarget

theorem Filed.perform
    {s : Logger} (hfiled : s.Filed) (env : Formatting) (id : TargetId)
    (a : TargetAct) : (s.perform env id a).Filed := by
  rcases s.perform_cases env id a with ⟨-, heq⟩ | ⟨t, hacts⟩
  · rw [heq]
    exact hfiled
  · intro id' t' htarget
    by_cases hsame : id' = id
    · subst hsame
      rw [hacts.after] at htarget
      rw [← Option.some.inj htarget, (t.act_sameConfig s.owner env a).myId]
      exact hfiled id' t hacts.before
    · rw [hacts.others id' hsame] at htarget
      exact hfiled id' t' htarget

/-! ## Taking messages in -/

/-- The logger after a caller's move: at most one message was queued, under
the next number, and targets and callbacks are as before. -/
structure Takes (s s' : Logger) : Prop where
  targets : ∀ id, s'.target? id = s.target? id
  bufferSize : s'.bufferSize = s.bufferSize
  opts : s'.opts = s.opts
  filters : s'.filters = s.filters
  owner : ∃ queue, s'.owner = { s.owner with internalCmdQueue := queue } ∧
    ((queue.items = s.owner.internalCmdQueue.items ∧
        s'.nextSeq = s.nextSeq) ∨
      ∃ c l, queue.items = s.owner.internalCmdQueue.items ++ [c] ∧
        c.message? = some l ∧ l.seq = s.nextSeq ∧
        s'.nextSeq = s.nextSeq + 1)

theorem Takes.refl (s : Logger) : s.Takes s :=
  ⟨fun _ => rfl, rfl, rfl, rfl, _, rfl, Or.inl ⟨rfl, rfl⟩⟩

theorem takes_putBack (s : Logger) (l : SingleLog) : s.Takes (s.putBack l) := by
  unfold putBack
  split <;> exact ⟨fun _ => rfl, rfl, rfl, rfl, _, rfl, Or.inl ⟨rfl, rfl⟩⟩

theorem takes_enqueue
    {s s' : Logger} {cmd : SingleLog → InternalCmdReq} {l : SingleLog}
    (hcmd : ∀ l, (cmd l).message? = some l)
    (henqueue : s.enqueue cmd l = some s') : s.Takes s' := by
  unfold enqueue at henqueue
  split at henqueue
  · rename_i queue hadd
    have hitems := (BoundedFifo.addIfRoom_eq_some hadd).2.1
    rw [← Option.some.inj henqueue]
    exact ⟨fun _ => rfl, rfl, rfl, rfl, queue, rfl,
      Or.inr ⟨_, _, hitems, hcmd _, rfl, rfl⟩⟩
  · simp at henqueue

theorem takes_enqueue_getD
    {s fallback : Logger} {cmd : SingleLog → InternalCmdReq}
    (hcmd : ∀ l, (cmd l).message? = some l) (l : SingleLog)
    (hfallback : s.Takes fallback) :
    s.Takes ((s.enqueue cmd l).getD fallback) := by
  cases henqueue : s.enqueue cmd l with
  | none => exact hfallback
  | some s' => exact takes_enqueue hcmd henqueue

theorem takes_submitBuffer (s : Logger) (l : SingleLog) :
    s.Takes (s.submitBuffer l) := by
  unfold submitBuffer
  split
  · exact takes_putBack s l
  · exact takes_enqueue_getD (fun _ => rfl) l (takes_putBack s l)

theorem takes_grab
    {s s' s'' : Logger} {l : SingleLog}
    (hgrab : s.grabInLogBuffer = some (l, s')) (htakes : s'.Takes s'') :
    s.Takes s'' := by
  unfold grabInLogBuffer at hgrab
  split at hgrab
  · rcases hgrab with ⟨⟩
    exact ⟨htakes.targets, htakes.bufferSize, htakes.opts, htakes.filters,
      htakes.owner⟩
  · simp at hgrab

theorem takes_logEntry
    (s : Logger) (m : LogMeta) (following : IgnoreList) (text : List UInt8) :
    s.Takes (s.logEntry m following text) := by
  unfold logEntry
  split
  · exact takes_enqueue_getD (fun _ => rfl) _ (Takes.refl s)
  · split
    · exact Takes.refl s
    · rename_i l s' hgrab
      exact takes_grab hgrab
        (takes_enqueue_getD (fun _ => rfl) _ (takes_putBack s' _))

theorem takes_log
    (s : Logger) (m : LogMeta) (following : IgnoreList) (text : List UInt8) :
    s.Takes (s.log m following text) := by
  unfold log
  split
  · exact Takes.refl s
  · dsimp only
    split
    · exact s.takes_logEntry _ following text
    · exact Takes.refl s

theorem takes_redirect
    (s : Logger) (r : FdRedirectorTicket) (d : RedirectDefaults)
    (data : List UInt8) : s.Takes (s.redirect r d data) := by
  unfold redirect
  split
  · exact Takes.refl s
  · rename_i l s' hgrab
    apply takes_grab hgrab
    split
    · exact takes_putBack s' l
    · exact takes_submitBuffer s' _

theorem takes_klog (s : Logger) (mem : List UInt8) (start remain : ℕ) :
    s.Takes (s.klog mem start remain) := by
  unfold klog
  split
  · exact Takes.refl s
  · rename_i l s' hgrab
    apply takes_grab hgrab
    dsimp only
    split
    · exact takes_submitBuffer s' _
    · exact takes_putBack s' _

def NoShutdown (s : Logger) : Prop :=
  .internalShutdown ∉ s.owner.internalCmdQueue.items

theorem NoShutdown.perform
    {s : Logger} (hqueue : s.NoShutdown) (env : Formatting) (id : TargetId)
    (a : TargetAct) : (s.perform env id a).NoShutdown := by
  rcases s.perform_cases env id a with ⟨-, heq⟩ | ⟨t, hacts⟩
  · rw [heq]
    exact hqueue
  · intro hmem
    rcases hacts.mem_queue hmem with hold | hasks
    · exact hqueue hold
    · rcases hasks with heq | ⟨seq, text, m, filter, -, -, -, heq⟩ <;>
        simp at heq

theorem NoShutdown.of_takes
    {s s' : Logger} (hqueue : s.NoShutdown) (htakes : s.Takes s') :
    s'.NoShutdown := by
  rcases htakes.owner with ⟨queue, howner, hitems | ⟨c, l, hitems, hmessage, -⟩⟩
  · unfold NoShutdown
    rw [howner]
    dsimp only
    rw [hitems.1]
    exact hqueue
  · unfold NoShutdown
    rw [howner]
    dsimp only
    rw [hitems]
    intro hmem
    rcases List.mem_append.mp hmem with hold | hnew
    · exact hqueue hold
    · rw [← List.mem_singleton.mp hnew] at hmessage
      simp [InternalCmdReq.message?] at hmessage

/-! ## Commands -/

theorem mem_cmdActs
    {s : Logger} {c : InternalCmdReq} {a : TargetId × TargetAct}
    (ha : a ∈ s.cmdActs c) :
    (∃ l f, c = .newLog l ∧ s.accepts l = true ∧ f ∈ s.dispatch l ∧
        a = (f.targetId,
          .write l.seq l.buf.text (s.sifted l).logMeta.m f)) ∨
      (∃ d, c = .targetRotateBuffer d ∧ a = (d, .flushAll false false)) ∨
      (∃ d l f, c = .writeTargetOverflow d l ∧ s.accepts l = true ∧
        f ∈ s.dispatch l ∧
        (a = (f.targetId, .flushAll true false) ∨
          a = (f.targetId, .writeOverflow (s.sifted l) f))) ∨
      c = .internalShutdown := by
  cases c with
  | newLog l =>
      simp only [cmdActs] at ha
      split at ha
      · rename_i haccept
        rcases List.mem_map.mp ha with ⟨f, hf, rfl⟩
        exact Or.inl ⟨l, f, rfl, haccept, hf, rfl⟩
      · simp at ha
  | targetRotateBuffer d =>
      exact Or.inr (Or.inl ⟨d, rfl, List.mem_singleton.mp ha⟩)
  | writeTargetOverflow d l =>
      simp only [cmdActs] at ha
      split at ha
      · rename_i haccept
        rcases List.mem_flatMap.mp ha with ⟨f, hf, hpair⟩
        simp only [List.mem_cons, List.not_mem_nil, or_false] at hpair
        exact Or.inr (Or.inr (Or.inl ⟨d, l, f, rfl, haccept, hf, hpair⟩))
      · simp at ha
  | internalShutdown => exact Or.inr (Or.inr (Or.inr rfl))

def withQueue (s : Logger) (queue : BoundedFifo InternalCmdReq) : Logger :=
  { s with owner := { s.owner with internalCmdQueue := queue } }

theorem NoShutdown.of_cons
    {s : Logger} (hqueue : s.NoShutdown) {c : InternalCmdReq}
    {queue : BoundedFifo InternalCmdReq}
    (hitems : s.owner.internalCmdQueue.items = c :: queue.items) :
    .internalShutdown ≠ c ∧ (s.withQueue queue).NoShutdown := by
  unfold NoShutdown at hqueue ⊢
  rw [hitems, List.mem_cons, not_or] at hqueue
  exact hqueue

theorem exists_removeCmd
    {s : Logger} {c : InternalCmdReq} {rest : List InternalCmdReq}
    (hitems : s.owner.internalCmdQueue.items = c :: rest) :
    ∃ next, s.removeCmd = some (c, next) := by
  unfold removeCmd
  cases hremove : s.owner.internalCmdQueue.remove with
  | none =>
      rw [BoundedFifo.remove_eq_none_iff.mp hremove] at hitems
      simp at hitems
  | some taken =>
      have hsame := (BoundedFifo.remove_eq_some hremove).1
      rw [hitems, List.cons.injEq] at hsame
      rw [hsame.1]
      exact ⟨_, rfl⟩

theorem handleInternalCmd_cases (s : Logger) (env : Formatting) :
    (s.owner.internalCmdQueue.items = [] ∧ s.handleInternalCmd env = s) ∨
      ∃ c queue, s.owner.internalCmdQueue.items = c :: queue.items ∧
        queue.capacity = s.owner.internalCmdQueue.capacity ∧
        s.handleInternalCmd env =
          ((s.withQueue queue).execCmd env c).finishCmd c := by
  unfold handleInternalCmd removeCmd
  cases hremove : s.owner.internalCmdQueue.remove with
  | none =>
      exact Or.inl ⟨BoundedFifo.remove_eq_none_iff.mp hremove, rfl⟩
  | some taken =>
      have hremoved := BoundedFifo.remove_eq_some hremove
      exact Or.inr ⟨taken.1, taken.2, hremoved.1, hremoved.2, rfl⟩

theorem takes_finishCmd (s : Logger) (c : InternalCmdReq) :
    s.Takes (s.finishCmd c) := by
  unfold finishCmd
  split
  · exact takes_putBack s _
  · exact Takes.refl s

/-! ## Configuration -/

theorem SameIntake.trans {s s' s'' : Logger}
    (h : s.SameIntake s') (h' : s'.SameIntake s'') : s.SameIntake s'' :=
  ⟨h'.bufferSize.trans h.bufferSize, h'.opts.trans h.opts,
    h'.filters.trans h.filters,
    h'.masterBufferAvail.trans h.masterBufferAvail,
    h'.nextSeq.trans h.nextSeq, h'.poolBlocked.trans h.poolBlocked,
    fun id => (h'.registered id).trans (h.registered id)⟩

theorem sameIntake_performAll
    (s : Logger) (env : Formatting) (acts : List (TargetId × TargetAct)) :
    s.SameIntake (s.performAll env acts) := by
  apply performAll_invariant (P := s.SameIntake) _ (SameIntake.refl s)
  intro s' hs' a _
  exact hs'.trans (s'.sameIntake_perform env a.1 a.2)

theorem sameIntake_execCmd
    (s : Logger) (env : Formatting) (c : InternalCmdReq) :
    s.SameIntake (s.execCmd env c) := by
  have hmarked : s.SameIntake
      { s with strayed := s.strayed || s.cmdStrays c } :=
    ⟨rfl, rfl, rfl, rfl, rfl, rfl, fun _ => rfl⟩
  exact hmarked.trans (sameIntake_performAll _ env (s.cmdActs c))

theorem sameIntake_callV8LogCallbacks (s : Logger) :
    s.SameIntake s.callV8LogCallbacks := by
  unfold callV8LogCallbacks
  split
  · exact SameIntake.refl s
  · unfold doLibCallback
    split <;> exact ⟨rfl, rfl, rfl, rfl, rfl, rfl, fun _ => rfl⟩

theorem sameIntake_cleanupGreaseLibBuf
    (s : Logger) (env : Formatting) (j : ℕ) :
    s.SameIntake (s.cleanupGreaseLibBuf env j) := by
  have herased : s.SameIntake { s with owner := { s.owner with
      userBufs := s.owner.userBufs.eraseIdx j } } :=
    ⟨rfl, rfl, rfl, rfl, rfl, rfl, fun _ => rfl⟩
  unfold cleanupGreaseLibBuf
  split
  · exact SameIntake.refl s
  · dsimp only
    split
    · split
      · unfold returnBufferToTarget
        split
        · exact herased.trans (sameIntake_perform _ env _ _)
        · exact herased
      · exact herased
    · exact herased

/-- The filters and the options that decide about messages. -/
def routing (s : Logger) : FilterTable × SiftOpts := (s.filters, s.opts)

theorem SameIntake.routing {s s' : Logger} (h : s.SameIntake s') :
    s'.routing = s.routing :=
  Prod.ext h.filters h.opts

theorem Takes.routing {s s' : Logger} (h : s.Takes s') :
    s'.routing = s.routing :=
  Prod.ext h.filters h.opts

theorem routing_handleInternalCmd (s : Logger) (env : Formatting) :
    (s.handleInternalCmd env).routing = s.routing := by
  rcases s.handleInternalCmd_cases env with ⟨-, heq⟩ | ⟨c, queue, -, -, heq⟩
  · rw [heq]
  · rw [heq, (takes_finishCmd _ c).routing,
      (sameIntake_execCmd (s.withQueue queue) env c).routing]
    rfl

/-- Only filter calls change how messages are routed. -/
theorem routing_step
    (s : Logger) {a : Act} (ha : ∀ c, a ≠ .filter c) :
    (s.step a).routing = s.routing := by
  cases a with
  | log m following text => exact (s.takes_log m following text).routing
  | redirect r d data => exact (s.takes_redirect r d data).routing
  | klog mem start remain => exact (s.takes_klog mem start remain).routing
  | handle env => exact s.routing_handleInternalCmd env
  | flushTimer id nocallbacks => exact (s.sameIntake_perform _ id _).routing
  | completeWrite id i => exact (s.sameIntake_perform _ id _).routing
  | completeOverflow id i => exact (s.sameIntake_perform _ id _).routing
  | callV8LogCallbacks => exact s.sameIntake_callV8LogCallbacks.routing
  | cleanup j => exact (s.sameIntake_cleanupGreaseLibBuf _ j).routing
  | filter c => exact absurd rfl (ha c)
  | disableTarget id v => exact (s.sameIntake_perform _ id _).routing
  | setCallback id => exact (s.sameIntake_perform _ id _).routing

end Logger

end GreaseLog
