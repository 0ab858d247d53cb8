import GreaseLog.LoggerSteps
import GreaseLog.Run

/-!
# How often a message is delivered

A message is processed by running `handleInternalCmd` until the command queue
is empty.  Messages that fit the banks of their targets, and messages that are
too large for the pool, are delivered once for every filter that the dispatch
selects.  In between lies a band of lengths in which a target finds the message
too large for its banks: `write` then queues a copy, and the copy is dispatched
again to everybody, without the ignore list of the message.

All this is about filter lists with an empty slot at the end.  The loop over a
full list reads on behind it, whatever is there; `strayed` records such a read,
and one message strays in all its dispatches or in none.
-/

namespace GreaseLog

/-! ## What a target does with a message -/

namespace LogTarget

theorem act_refused
    (t : LogTarget) {o : Owner} (hrefused : o.refused = true)
    (env : Formatting) (a : TargetAct) :
    (t.act o env a).2.refused = true := by
  have hsame : ∀ {o' : Owner}, o.SameQueue o' → o'.refused = true :=
    fun h => h.refused.trans hrefused
  cases a with
  | write seq text m filter =>
      rcases t.write_cases o env seq text m filter with ⟨-, heq⟩ |
        ⟨-, -, queue, -, heq⟩ | ⟨-, -, -, o', hrefs, heq⟩ |
        ⟨-, -, -, -, queue, o', -, hrefs, heq⟩ | ⟨-, -, -, -, heq⟩ <;>
        rw [act, heq]
      · rfl
      · exact hrefused
      · exact hrefs.refused.trans hrefused
      · exact hrefs.refused.trans hrefused
      · rfl
  | writeOverflow l filter =>
      rcases t.writeOverflow_cases o env l filter with ⟨-, heq⟩ | ⟨-, -, hqueue⟩
      · rw [act, heq]
        rfl
      · exact hqueue.refused.trans hrefused
  | flushAll rotate nocallbacks =>
      exact hsame (t.flushAll_frame o rotate nocallbacks).2.1
  | flushAllSync rotate nocallbacks =>
      exact hsame (t.flushAllSync_sameQueue o rotate nocallbacks)
  | completeWrite i => exact hsame (t.completeWrite_frame o i).2
  | completeOverflow i => exact hsame (t.completeOverflow_frame o i).2
  | finalizeV8Callback b => exact hrefused
  | disableWrites v => exact hrefused
  | setCallback => exact hrefused

/-- A write is refused, sent round as an overflow, or done. -/
theorem write_serves
    (t : LogTarget) (o : Owner) (env : Formatting) (seq : ℕ)
    (text : List UInt8) (m : LogMeta) (filter : Filter) :
    (t.write o env seq text m filter).2.refused = true ∨
      (t.oversize text ∧
        (t.write o env seq text m filter).2.delivered = o.delivered ∧
        (t.write o env seq text m filter).2.internalCmdQueue.items =
          o.internalCmdQueue.items ++ [.writeTargetOverflow t.myId
            (t.overflowEntry env seq text m)]) ∨
      (¬t.oversize text ∧
        (t.write o env seq text m filter).2.delivered =
          o.delivered ++ [⟨filter, t.myId, seq⟩] ∧
        ∃ added, (t.write o env seq text m filter).2.internalCmdQueue.items =
            o.internalCmdQueue.items ++ added ∧
          (added = [] ∨ added = [.targetRotateBuffer t.myId])) := by
  rcases t.write_cases o env seq text m filter with ⟨-, heq⟩ |
    ⟨-, hover, queue, hadd, heq⟩ | ⟨-, hsmall, -, o', hrefs, heq⟩ |
    ⟨-, hsmall, -, -, queue, o', hadd, hrefs, heq⟩ | ⟨-, -, -, -, heq⟩ <;>
    rw [heq]
  · exact Or.inl rfl
  · exact Or.inr (Or.inl ⟨hover, rfl,
      (BoundedFifo.addIfRoom_eq_some hadd).2.1⟩)
  · refine Or.inr (Or.inr ⟨hsmall, ?_, [], ?_, Or.inl rfl⟩)
    · exact congrArg (· ++ _) hrefs.delivered
    · rw [List.append_nil]
      exact congrArg BoundedFifo.items hrefs.internalCmdQueue
  · refine Or.inr (Or.inr ⟨hsmall, ?_, _, ?_, Or.inr rfl⟩)
    · exact congrArg (· ++ _) hrefs.delivered
    · rw [← (BoundedFifo.addIfRoom_eq_some hadd).2.1]
      exact congrArg BoundedFifo.items hrefs.internalCmdQueue
  · exact Or.inl rfl

end LogTarget

namespace Logger

theorem refused_perform
    {s : Logger} (hrefused : s.owner.refused = true) (env : Formatting)
    (id : TargetId) (a : TargetAct) :
    (s.perform env id a).owner.refused = true := by
  rcases s.perform_cases env id a with ⟨-, heq⟩ | ⟨t, hacts⟩
  · rw [heq]
    exact hrefused
  · rw [hacts.owner]
    exact t.act_refused hrefused env a

theorem refused_performAll
    {s : Logger} (hrefused : s.owner.refused = true) (env : Formatting)
    (acts : List (TargetId × TargetAct)) :
    (s.performAll env acts).owner.refused = true :=
  performAll_invariant (P := fun s => s.owner.refused = true)
    (fun _ hs a _ => refused_perform hs env a.1 a.2) hrefused

theorem refused_handleInternalCmd
    {s : Logger} (hrefused : s.owner.refused = true) (env : Formatting) :
    (s.handleInternalCmd env).owner.refused = true := by
  rcases s.handleInternalCmd_cases env with ⟨-, heq⟩ |
    ⟨c, queue, -, -, heq⟩
  · rw [heq]
    exact hrefused
  · rw [heq]
    rcases (takes_finishCmd ((s.withQueue queue).execCmd env c) c).owner with
      ⟨queue', howner, -⟩
    rw [howner]
    exact refused_performAll (s := { s.withQueue queue with
      strayed := (s.withQueue queue).strayed ||
        (s.withQueue queue).cmdStrays c }) hrefused env _

theorem refused_final
    {s : Logger} (hrefused : s.owner.refused = true)
    (envs : List Formatting) :
    (Run.final handleInternalCmd s envs).owner.refused = true :=
  Run.final_preserves (I := fun s : Logger => s.owner.refused = true)
    (fun _ env hs => refused_handleInternalCmd hs env) envs hrefused

/-! ## Deliveries -/

def bankSize? (s : Logger) (id : TargetId) : Option ℕ :=
  (s.target? id).map LogTarget.bankSize

def reaches (s : Logger) (f : Filter) : Bool :=
  (s.bankSize? f.targetId).isSome

/-- The target of the filter exists and finds the message too large. -/
def tooLarge (s : Logger) (text : List UInt8) (f : Filter) : Bool :=
  (s.bankSize? f.targetId).any
    fun size => size < text.length + greaseMaxPrefixHeader

/-- The filters a message is to be delivered for. -/
def selected (s : Logger) (e : ExtraLogMeta) : List Filter :=
  (s.filters.dispatch s.registered e).filter s.reaches

def delivery (seq : ℕ) (f : Filter) : Delivery := ⟨f, f.targetId, seq⟩

/-- From `s` to `s'` these deliveries were made and these commands are left;
filters and targets are as before. -/
structure Progress (s s' : Logger) (ds : List Delivery)
    (left : List InternalCmdReq) : Prop where
  filed : s'.Filed
  opts : s'.opts = s.opts
  filters : s'.filters = s.filters
  registered : s'.registered = s.registered
  bankSize? : s'.bankSize? = s.bankSize?
  delivered : s'.owner.delivered = s.owner.delivered ++ ds
  queue : s'.owner.internalCmdQueue.items = left

variable {s s' s'' : Logger} {ds ds' : List Delivery}
  {left left' cmds cmds' : List InternalCmdReq}

theorem Progress.refl (hfiled : s.Filed) :
    s.Progress s [] s.owner.internalCmdQueue.items :=
  ⟨hfiled, rfl, rfl, rfl, rfl, by simp, rfl⟩

theorem Progress.trans
    (h : s.Progress s' ds left) (h' : s'.Progress s'' ds' left') :
    s.Progress s'' (ds ++ ds') left' :=
  ⟨h'.filed, h'.opts.trans h.opts, h'.filters.trans h.filters,
    h'.registered.trans h.registered, h'.bankSize?.trans h.bankSize?,
    by rw [h'.delivered, h.delivered, List.append_assoc], h'.queue⟩

theorem Progress.reaches (h : s.Progress s' ds left) :
    s'.reaches = s.reaches := by
  funext f
  unfold Logger.reaches
  rw [h.bankSize?]

theorem Progress.tooLarge (h : s.Progress s' ds left) (text : List UInt8) :
    s'.tooLarge text = s.tooLarge text := by
  funext f
  unfold Logger.tooLarge
  rw [h.bankSize?]

theorem Progress.selected (h : s.Progress s' ds left) (e : ExtraLogMeta) :
    s'.selected e = s.selected e := by
  unfold Logger.selected
  rw [h.filters, h.registered, h.reaches]

theorem bankSize?_perform
    (s : Logger) (env : Formatting) (id : TargetId) (a : TargetAct) :
    (s.perform env id a).bankSize? = s.bankSize? := by
  funext id'
  rcases s.perform_cases env id a with ⟨-, heq⟩ | ⟨t, hacts⟩
  · rw [heq]
  · unfold bankSize?
    by_cases hid : id' = id
    · rw [hid, hacts.after, hacts.before, Option.map_some, Option.map_some,
        (t.act_sameConfig s.owner env a).bankSize]
    · rw [hacts.others id' hid]

theorem progress_perform
    (hfiled : s.Filed) {env : Formatting} {id : TargetId} {a : TargetAct}
    (hdelivered : (s.perform env id a).owner.delivered =
      s.owner.delivered ++ ds)
    (hqueue : (s.perform env id a).owner.internalCmdQueue.items = left) :
    s.Progress (s.perform env id a) ds left := by
  have hsame := s.sameIntake_perform env id a
  exact ⟨hfiled.perform env id a, hsame.opts, hsame.filters,
    funext hsame.registered, s.bankSize?_perform env id a, hdelivered, hqueue⟩

/-! ## Writing a message to its targets -/

def isOverflow : InternalCmdReq → Bool
  | .writeTargetOverflow _ _ => true
  | _ => false

def FollowsUp (seq : ℕ) (m : LogMeta) (c : InternalCmdReq) : Prop :=
  (∃ d, c = .targetRotateBuffer d) ∨
    ∃ d e, c = .writeTargetOverflow d e ∧ e.logMeta = ⟨m, noIgnoreList⟩ ∧
      e.seq = seq

/-- The commands the writes of a message leave behind, with the number of
copies among them. -/
structure FollowUps (seq : ℕ) (m : LogMeta) (copies : ℕ)
    (cmds : List InternalCmdReq) : Prop where
  shape : ∀ c ∈ cmds, FollowsUp seq m c
  count : (cmds.filter isOverflow).length = copies

theorem FollowUps.append
    {seq : ℕ} {m : LogMeta} {n n' : ℕ} (h : FollowUps seq m n cmds)
    (h' : FollowUps seq m n' cmds') :
    FollowUps seq m (n + n') (cmds ++ cmds') := by
  refine ⟨?_, by rw [List.filter_append, List.length_append, h.count, h'.count]⟩
  intro c hc
  rcases List.mem_append.mp hc with hc | hc
  · exact h.shape c hc
  · exact h'.shape c hc

theorem overflowEntry_logMeta
    (t : LogTarget) (env : Formatting) (seq : ℕ) (text : List UInt8)
    (m : LogMeta) :
    (t.overflowEntry env seq text m).logMeta = ⟨m, noIgnoreList⟩ ∧
      (t.overflowEntry env seq text m).seq = seq := by
  unfold LogTarget.overflowEntry
  split <;> exact ⟨rfl, rfl⟩

/-- One write, unless it is refused: no target, a copy queued, or a
delivery. -/
theorem perform_write
    (hfiled : s.Filed) (env : Formatting) (seq : ℕ) (text : List UInt8)
    (m : LogMeta) (f : Filter) :
    (s.perform env f.targetId (.write seq text m f)).owner.refused = true ∨
      ∃ cmds, s.Progress (s.perform env f.targetId (.write seq text m f))
          (([f].filter fun f => s.reaches f && !s.tooLarge text f).map
            (delivery seq)) (s.owner.internalCmdQueue.items ++ cmds) ∧
        FollowUps seq m ([f].filter (s.tooLarge text)).length cmds ∧
        cmds.length ≤ 1 := by
  rcases s.perform_cases env f.targetId (.write seq text m f) with
    ⟨hnone, heq⟩ | ⟨t, hacts⟩
  · right
    have hmissing : s.bankSize? f.targetId = none := by
      simp [bankSize?, hnone]
    rw [heq]
    refine ⟨[], ?_, ⟨by simp, ?_⟩, by simp⟩
    · simpa [reaches, hmissing] using Progress.refl hfiled
    · simp [tooLarge, hmissing]
  · have hsize : s.bankSize? f.targetId = some t.bankSize := by
      simp [bankSize?, hacts.before]
    have hreaches : s.reaches f = true := by simp [reaches, hsize]
    have htoo : s.tooLarge text f = decide (t.oversize text) := by
      simp only [tooLarge, hsize, Option.any_some]
      rfl
    have hmyId : t.myId = f.targetId := hfiled _ t hacts.before
    rcases t.write_serves s.owner env seq text m f with hrefused |
      ⟨hover, hdelivered, hqueue⟩ |
      ⟨hsmall, hdelivered, added, hqueue, hadded⟩
    · left
      rw [hacts.owner]
      exact hrefused
    · right
      have hentry := overflowEntry_logMeta t env seq text m
      refine ⟨_, progress_perform hfiled ?_ (by rw [hacts.owner]; exact hqueue),
        ⟨?_, ?_⟩, by simp⟩
      · rw [hacts.owner]
        simpa [LogTarget.act, htoo, hover] using hdelivered
      · intro c hc
        exact Or.inr ⟨_, _, List.mem_singleton.mp hc, hentry.1, hentry.2⟩
      · simp only [List.filter_cons, htoo, hover, decide_true, if_true]
        rfl
    · right
      refine ⟨added, progress_perform hfiled ?_
        (by rw [hacts.owner]; exact hqueue), ?_, ?_⟩
      · rw [hacts.owner]
        simpa [LogTarget.act, hreaches, htoo, hsmall, delivery, hmyId] using
          hdelivered
      · rcases hadded with rfl | rfl
        · exact ⟨by simp, by simp [htoo, hsmall]⟩
        · refine ⟨?_, by simp [htoo, hsmall, isOverflow]⟩
          intro c hc
          exact Or.inl ⟨_, List.mem_singleton.mp hc⟩
      · rcases hadded with rfl | rfl <;> simp

theorem performAll_writes
    (env : Formatting) (seq : ℕ) (text : List UInt8) (m : LogMeta)
    (fs : List Filter) (hfiled : s.Filed) :
    (s.performAll env (fs.map fun f =>
        (f.targetId, .write seq text m f))).owner.refused = true ∨
      ∃ cmds, s.Progress (s.performAll env (fs.map fun f =>
            (f.targetId, .write seq text m f)))
          ((fs.filter fun f => s.reaches f && !s.tooLarge text f).map
            (delivery seq)) (s.owner.internalCmdQueue.items ++ cmds) ∧
        FollowUps seq m (fs.filter (s.tooLarge text)).length cmds ∧
        cmds.length ≤ fs.length := by
  induction fs generalizing s with
  | nil =>
      exact Or.inr ⟨[], by simpa [performAll] using Progress.refl hfiled,
        ⟨by simp, rfl⟩, le_rfl⟩
  | cons f rest ih =>
      rcases s.perform_write hfiled env seq text m f with hrefused |
        ⟨cmds, hfirst, hups, hlen⟩
      · exact Or.inl (refused_performAll hrefused env _)
      · rcases ih hfirst.filed with hrefused | ⟨cmds', hrest, hups', hlen'⟩
        · exact Or.inl hrefused
        · have hreaches := hfirst.reaches
          have htoo := hfirst.tooLarge text
          right
          refine ⟨cmds ++ cmds', ?_, ?_, ?_⟩
          · have hall := hfirst.trans hrest
            rw [hreaches, htoo, hfirst.queue, ← List.map_append,
              ← List.filter_append, List.append_assoc] at hall
            exact hall
          · have hall := hups.append hups'
            rw [htoo, ← List.length_append, ← List.filter_append] at hall
            exact hall
          · rw [List.length_append, List.length_cons]
            omega

theorem perform_flushAll
    (hfiled : s.Filed) (env : Formatting) (id : TargetId)
    (rotate nocallbacks : Bool) :
    s.Progress (s.perform env id (.flushAll rotate nocallbacks)) []
      s.owner.internalCmdQueue.items := by
  rcases s.perform_cases env id (.flushAll rotate nocallbacks) with
    ⟨-, heq⟩ | ⟨t, hacts⟩
  · rw [heq]
    exact Progress.refl hfiled
  · have hsame := (t.flushAll_frame s.owner rotate nocallbacks).2.1
    apply progress_perform hfiled
    · rw [hacts.owner, List.append_nil]
      exact hsame.delivered
    · rw [hacts.owner]
      exact congrArg BoundedFifo.items hsame.internalCmdQueue

theorem perform_writeOverflow
    (hfiled : s.Filed) (env : Formatting) (l : SingleLog) (f : Filter) :
    (s.perform env f.targetId (.writeOverflow l f)).owner.refused = true ∨
      s.Progress (s.perform env f.targetId (.writeOverflow l f))
        (([f].filter s.reaches).map (delivery l.seq))
        s.owner.internalCmdQueue.items := by
  rcases s.perform_cases env f.targetId (.writeOverflow l f) with
    ⟨hnone, heq⟩ | ⟨t, hacts⟩
  · right
    rw [heq]
    simpa [reaches, bankSize?, hnone] using Progress.refl hfiled
  · have hreaches : s.reaches f = true := by
      simp [reaches, bankSize?, hacts.before]
    have hmyId : t.myId = f.targetId := hfiled _ t hacts.before
    rcases t.writeOverflow_cases s.owner env l f with ⟨-, heq⟩ | ⟨-, -, hsame⟩
    · left
      rw [hacts.owner, LogTarget.act, heq]
      rfl
    · right
      have hdelivered := hsame.delivered
      have hqueue := congrArg BoundedFifo.items hsame.internalCmdQueue
      apply progress_perform hfiled
      · rw [hacts.owner]
        simpa [LogTarget.act, hreaches, delivery, hmyId, Owner.deliver] using
          hdelivered
      · rw [hacts.owner]
        exact hqueue

theorem performAll_overflows
    (env : Formatting) (l : SingleLog) (fs : List Filter)
    (hfiled : s.Filed) :
    (s.performAll env (fs.flatMap fun f =>
        [(f.targetId, .flushAll true false),
          (f.targetId, .writeOverflow l f)])).owner.refused = true ∨
      s.Progress (s.performAll env (fs.flatMap fun f =>
          [(f.targetId, .flushAll true false),
            (f.targetId, .writeOverflow l f)]))
        ((fs.filter s.reaches).map (delivery l.seq))
        s.owner.internalCmdQueue.items := by
  induction fs generalizing s with
  | nil => exact Or.inr (Progress.refl hfiled)
  | cons f rest ih =>
      have hflush := s.perform_flushAll hfiled env f.targetId true false
      rcases perform_writeOverflow hflush.filed env l f with
        hrefused | hwrite
      · exact Or.inl (refused_performAll hrefused env _)
      · rcases ih hwrite.filed with hrefused | hrest
        · exact Or.inl hrefused
        · right
          have hall := (hflush.trans hwrite).trans hrest
          rw [hwrite.reaches, hflush.reaches, hwrite.queue, hflush.queue,
            List.nil_append, ← List.map_append, ← List.filter_append] at hall
          exact hall

/-! ## Running the commands -/

theorem handle_cons
    {c : InternalCmdReq} {rest : List InternalCmdReq}
    (hitems : s.owner.internalCmdQueue.items = c :: rest) (hfiled : s.Filed)
    (env : Formatting) :
    ∃ s₀ : Logger, s.Progress s₀ [] rest ∧
      s.handleInternalCmd env =
        (s₀.performAll env (s.cmdActs c)).finishCmd c := by
  rcases s.handleInternalCmd_cases env with ⟨hempty, -⟩ |
    ⟨c', queue, hsplit, -, heq⟩
  · rw [hitems] at hempty
    simp at hempty
  · rw [hitems] at hsplit
    rcases List.cons.inj hsplit with ⟨rfl, rfl⟩
    exact ⟨{ s.withQueue queue with
        strayed := (s.withQueue queue).strayed ||
          (s.withQueue queue).cmdStrays c },
      ⟨hfiled, rfl, rfl, rfl, rfl, by simp [withQueue], rfl⟩, heq⟩

theorem progress_finishCmd (hfiled : s.Filed) (c : InternalCmdReq) :
    s.Progress (s.finishCmd c) [] s.owner.internalCmdQueue.items := by
  unfold finishCmd putBack
  split
  · split <;> exact ⟨hfiled, rfl, rfl, rfl, rfl, by simp, rfl⟩
  · exact Progress.refl hfiled

theorem refused_finishCmd
    (hrefused : s.owner.refused = true) (c : InternalCmdReq) :
    (s.finishCmd c).owner.refused = true := by
  unfold finishCmd putBack
  split
  · split <;> exact hrefused
  · exact hrefused

theorem handle_progress
    {c : InternalCmdReq} {rest : List InternalCmdReq}
    (hitems : s.owner.internalCmdQueue.items = c :: rest) (hfiled : s.Filed)
    (env : Formatting)
    (hacts : ∀ s₀, s.Progress s₀ [] rest →
      (s₀.performAll env (s.cmdActs c)).owner.refused = true ∨
        s.Progress (s₀.performAll env (s.cmdActs c)) ds left) :
    (s.handleInternalCmd env).owner.refused = true ∨
      s.Progress (s.handleInternalCmd env) ds left := by
  rcases handle_cons hitems hfiled env with ⟨s₀, hs₀, heq⟩
  rw [heq]
  rcases hacts s₀ hs₀ with hrefused | hprogress
  · exact Or.inl (refused_finishCmd hrefused c)
  · right
    have hall := hprogress.trans (progress_finishCmd hprogress.filed c)
    rwa [List.append_nil, hprogress.queue] at hall

theorem handle_overflow
    {d : TargetId} {l : SingleLog} {rest : List InternalCmdReq}
    (hitems : s.owner.internalCmdQueue.items =
      .writeTargetOverflow d l :: rest)
    (hfiled : s.Filed) (haccept : s.accepts l = true) (env : Formatting) :
    (s.handleInternalCmd env).owner.refused = true ∨
      s.Progress (s.handleInternalCmd env)
        ((s.selected (s.sifted l).logMeta).map (delivery l.seq)) rest := by
  apply handle_progress hitems hfiled env
  intro s₀ hs₀
  have hcmd : s.cmdActs (.writeTargetOverflow d l) =
      (s.dispatch l).flatMap fun f =>
        [(f.targetId, .flushAll true false),
          (f.targetId, .writeOverflow (s.sifted l) f)] := by
    simp only [cmdActs, haccept, if_true]
    rfl
  rw [hcmd]
  rcases performAll_overflows env (s.sifted l) (s.dispatch l) hs₀.filed with
    hrefused | hprogress
  · exact Or.inl hrefused
  · right
    have hall := hs₀.trans hprogress
    rwa [List.nil_append, hs₀.reaches, hs₀.queue] at hall

theorem handle_rotate
    {d : TargetId} {rest : List InternalCmdReq}
    (hitems : s.owner.internalCmdQueue.items = .targetRotateBuffer d :: rest)
    (hfiled : s.Filed) (env : Formatting) :
    (s.handleInternalCmd env).owner.refused = true ∨
      s.Progress (s.handleInternalCmd env) [] rest := by
  apply handle_progress hitems hfiled env
  intro s₀ hs₀
  right
  have hall := hs₀.trans (s₀.perform_flushAll hs₀.filed env d false false)
  rwa [hs₀.queue] at hall

/-- A message is delivered to the targets with room for it, and a copy is
queued for each of the others. -/
theorem handle_newLog
    {l : SingleLog}
    (hitems : s.owner.internalCmdQueue.items = [.newLog l])
    (hfiled : s.Filed) (haccept : s.accepts l = true) (env : Formatting) :
    (s.handleInternalCmd env).owner.refused = true ∨
      ∃ cmds, s.Progress (s.handleInternalCmd env)
          (((s.dispatch l).filter fun f =>
            s.reaches f && !s.tooLarge l.buf.text f).map (delivery l.seq))
          cmds ∧
        FollowUps l.seq (s.sifted l).logMeta.m
          ((s.dispatch l).filter (s.tooLarge l.buf.text)).length cmds ∧
        cmds.length ≤ (s.dispatch l).length := by
  have hcmd : s.cmdActs (.newLog l) = (s.dispatch l).map fun f =>
      (f.targetId,
        .write l.seq l.buf.text (s.sifted l).logMeta.m f) := by
    simp only [cmdActs, haccept, if_true]
    rfl
  rcases handle_cons hitems hfiled env with ⟨s₀, hs₀, heq⟩
  rw [heq, hcmd]
  rcases performAll_writes env l.seq l.buf.text (s.sifted l).logMeta.m
    (s.dispatch l) hs₀.filed with hrefused | ⟨cmds, hprogress, hups, hlen⟩
  · exact Or.inl (refused_finishCmd hrefused _)
  · right
    have hall := (hs₀.trans hprogress).trans
      (progress_finishCmd hprogress.filed (.newLog l))
    rw [hs₀.tooLarge] at hups
    rw [List.nil_append, List.append_nil, hs₀.reaches, hs₀.tooLarge,
      hprogress.queue, hs₀.queue, List.nil_append] at hall
    exact ⟨cmds, hall, hups, hlen⟩

theorem handle_empty
    (hitems : s.owner.internalCmdQueue.items = []) (env : Formatting) :
    s.handleInternalCmd env = s := by
  rcases s.handleInternalCmd_cases env with ⟨-, heq⟩ | ⟨c, queue, hsplit, -⟩
  · exact heq
  · rw [hitems] at hsplit
    simp at hsplit

/-- Running the commands a message left behind: every copy is delivered to
everybody again. -/
theorem drain_progress
    {seq : ℕ} {m : LogMeta} (envs : List Formatting) (hfiled : s.Filed)
    (hitems : s.owner.internalCmdQueue.items = cmds)
    (hshape : ∀ c ∈ cmds, FollowsUp seq m c)
    (hm : s.filters.sift s.opts m = (true, m))
    (henvs : cmds.length ≤ envs.length) :
    (Run.final handleInternalCmd s envs).owner.refused = true ∨
      s.Progress (Run.final handleInternalCmd s envs)
        ((cmds.filter isOverflow).flatMap fun _ =>
          (s.selected ⟨m, noIgnoreList⟩).map (delivery seq)) [] := by
  induction envs generalizing s cmds with
  | nil =>
      have hnil : cmds = [] := List.length_eq_zero_iff.mp (Nat.le_zero.mp henvs)
      subst hnil
      right
      have hrefl := Progress.refl hfiled
      rwa [hitems] at hrefl
  | cons env envs ih =>
      rw [Run.final_cons]
      cases cmds with
      | nil =>
          rw [handle_empty hitems env]
          exact ih hfiled hitems hshape hm (Nat.zero_le _)
      | cons c rest =>
          rw [List.length_cons, List.length_cons] at henvs
          have hnext : ∀ ds, s.Progress (s.handleInternalCmd env) ds rest →
              (Run.final handleInternalCmd (s.handleInternalCmd env)
                  envs).owner.refused = true ∨
                s.Progress (Run.final handleInternalCmd
                    (s.handleInternalCmd env) envs)
                  (ds ++ (rest.filter isOverflow).flatMap fun _ =>
                    (s.selected ⟨m, noIgnoreList⟩).map (delivery seq)) [] := by
            intro ds hstep
            have hsift : (s.handleInternalCmd env).filters.sift
                (s.handleInternalCmd env).opts m = (true, m) := by
              rw [hstep.filters, hstep.opts]
              exact hm
            have hrest := ih hstep.filed hstep.queue
              (fun c hc => hshape c (List.mem_cons_of_mem _ hc)) hsift
              (by omega)
            rw [hstep.selected] at hrest
            rcases hrest with hrefused | hrest
            · exact Or.inl hrefused
            · exact Or.inr (hstep.trans hrest)
          rcases hshape c (by simp) with ⟨d, rfl⟩ | ⟨d, e, rfl, he, hseq⟩
          · rcases handle_rotate hitems hfiled env with hstuck | hstep
            · exact Or.inl (refused_final hstuck envs)
            · exact hnext [] hstep
          · have haccept : s.accepts e = true := by
              simp [accepts, he, hm]
            have hsifted : (s.sifted e).logMeta = ⟨m, noIgnoreList⟩ := by
              simp [sifted, he, hm]
            rcases handle_overflow hitems hfiled haccept env with
              hstuck | hstep
            · exact Or.inl (refused_final hstuck envs)
            · rw [hsifted, hseq] at hstep
              exact hnext _ hstep

/-! ## Reading the filter lists -/

theorem strayed_perform
    (s : Logger) (env : Formatting) (id : TargetId) (a : TargetAct) :
    (s.perform env id a).strayed = s.strayed := by
  unfold perform
  split
  · rfl
  · unfold setTarget
    split <;> rfl

theorem strayed_performAll
    (s : Logger) (env : Formatting) (acts : List (TargetId × TargetAct)) :
    (s.performAll env acts).strayed = s.strayed :=
  performAll_invariant (P := fun s' => s'.strayed = s.strayed)
    (fun s' hs' a _ => (s'.strayed_perform env a.1 a.2).trans hs') rfl

theorem strayed_finishCmd (s : Logger) (c : InternalCmdReq) :
    (s.finishCmd c).strayed = s.strayed := by
  unfold finishCmd putBack
  split
  · split <;> rfl
  · rfl

theorem items_finishCmd (s : Logger) (c : InternalCmdReq) :
    (s.finishCmd c).owner.internalCmdQueue.items =
      s.owner.internalCmdQueue.items := by
  unfold finishCmd putBack
  split
  · split <;> rfl
  · rfl

theorem strayed_handle
    {c : InternalCmdReq} {rest : List InternalCmdReq}
    (hitems : s.owner.internalCmdQueue.items = c :: rest) (env : Formatting) :
    (s.handleInternalCmd env).strayed = (s.strayed || s.cmdStrays c) := by
  rcases s.handleInternalCmd_cases env with ⟨hempty, -⟩ |
    ⟨c', queue, hsplit, -, heq⟩
  · rw [hitems] at hempty
    simp at hempty
  · rw [hitems] at hsplit
    rcases List.cons.inj hsplit with ⟨rfl, -⟩
    rw [heq, strayed_finishCmd, execCmd, strayed_performAll]
    rfl

theorem strayed_final
    (hstrayed : s.strayed = true) (envs : List Formatting) :
    (Run.final handleInternalCmd s envs).strayed = true := by
  apply Run.final_preserves (I := fun s : Logger => s.strayed = true) _ envs
    hstrayed
  intro s env hs
  cases hitems : s.owner.internalCmdQueue.items with
  | nil => rw [handle_empty hitems env, hs]
  | cons c rest => rw [strayed_handle hitems env, hs, Bool.true_or]

theorem cmdStrays_congr
    (h : s'.routing = s.routing) (c : InternalCmdReq) :
    s'.cmdStrays c = s.cmdStrays c := by
  have hfilters : s'.filters = s.filters := congrArg Prod.fst h
  have hopts : s'.opts = s.opts := congrArg Prod.snd h
  unfold cmdStrays accepts sifted
  rw [hfilters, hopts]

theorem strays_of_accepts
    {l : SingleLog} (haccept : s.accepts l = true)
    (hnewLog : s.cmdStrays (.newLog l) = false) :
    s.filters.strays (s.sifted l).logMeta.m = false := by
  simpa [cmdStrays, haccept] using hnewLog

theorem cmdStrays_of_message
    {c : InternalCmdReq} {l : SingleLog} (hmessage : c.message? = some l)
    {m : LogMeta} (hm : l.logMeta.m = m)
    (hsift : s.filters.sift s.opts m = (true, m)) :
    s.cmdStrays c = s.filters.strays m := by
  cases c with
  | newLog l' =>
      rcases hmessage with ⟨⟩
      simp [cmdStrays, accepts, sifted, hm, hsift]
  | writeTargetOverflow d l' =>
      rcases hmessage with ⟨⟩
      simp [cmdStrays, accepts, sifted, hm, hsift]
  | targetRotateBuffer d => simp [InternalCmdReq.message?] at hmessage
  | internalShutdown => simp [InternalCmdReq.message?] at hmessage

/-- A copy consults the lists that its message has consulted. -/
theorem cmdStrays_of_asks
    {c c' : InternalCmdReq} (hinside : s.cmdStrays c = false)
    {a : TargetId × TargetAct} (ha : a ∈ s.cmdActs c) {t : LogTarget}
    {env : Formatting} (hasks : t.Asks env a.2 c') :
    s.cmdStrays c' = false := by
  rcases hasks with rfl | ⟨seq, text, m, filter, hact, -, -, rfl⟩
  · rfl
  rcases mem_cmdActs ha with ⟨l, f, rfl, haccept, -, rfl⟩ | ⟨d, -, rfl⟩ |
    ⟨d, l, f, -, -, -, rfl | rfl⟩ | rfl
  · rcases hact with ⟨⟩
    have hentry := overflowEntry_logMeta t env l.seq l.buf.text
      (s.sifted l).logMeta.m
    have hsift : s.filters.sift s.opts (s.sifted l).logMeta.m =
        (true, (s.sifted l).logMeta.m) := s.filters.sift_sift haccept
    rw [cmdStrays_of_message rfl (congrArg ExtraLogMeta.m hentry.1) hsift]
    exact strays_of_accepts haccept hinside
  · simp at hact
  · simp at hact
  · simp at hact
  · rcases List.mem_cons.mp ha with rfl | hrest
    · simp at hact
    · rcases List.mem_map.mp hrest with ⟨id, -, rfl⟩
      simp at hact

/-- No read has left a filter list, and no command on the queue will. -/
structure Inside (s : Logger) : Prop where
  strayed : s.strayed = false
  queued : ∀ c ∈ s.owner.internalCmdQueue.items, s.cmdStrays c = false

theorem Inside.handle (h : s.Inside) (env : Formatting) :
    (s.handleInternalCmd env).Inside := by
  rcases s.handleInternalCmd_cases env with ⟨-, heq⟩ |
    ⟨c, queue, hitems, -, heq⟩
  · rw [heq]
    exact h
  have hc : s.cmdStrays c = false := h.queued c (by simp [hitems])
  refine ⟨by rw [strayed_handle hitems env, h.strayed, hc, Bool.or_false], ?_⟩
  intro c' hc'
  rw [cmdStrays_congr (s.routing_handleInternalCmd env)]
  rw [heq, items_finishCmd] at hc'
  revert c' hc'
  apply performAll_invariant (P := fun s' : Logger =>
    ∀ c' ∈ s'.owner.internalCmdQueue.items, s.cmdStrays c' = false)
  · intro s' hs' a ha c' hc'
    rcases s'.perform_cases env a.1 a.2 with ⟨-, heq'⟩ | ⟨t, hacts⟩
    · rw [heq'] at hc'
      exact hs' c' hc'
    · rcases hacts.mem_queue hc' with hold | hasks
      · exact hs' c' hold
      · exact cmdStrays_of_asks hc ha hasks
  · intro c' hc'
    exact h.queued c' (by rw [hitems]; exact List.mem_cons_of_mem c hc')

/-- Running one message until the queue is empty reads outside a filter list
exactly if the lists it consults make its first dispatch do so. -/
theorem strayed_final_message
    {c : InternalCmdReq} (hitems : s.owner.internalCmdQueue.items = [c])
    {l : SingleLog} (hmessage : c.message? = some l) {m : LogMeta}
    (hm : l.logMeta.m = m) (hsift : s.filters.sift s.opts m = (true, m))
    (hstrayed : s.strayed = false) {envs : List Formatting}
    (henvs : 0 < envs.length) :
    (Run.final handleInternalCmd s envs).strayed = s.filters.strays m := by
  rw [← cmdStrays_of_message hmessage hm hsift]
  cases hc : s.cmdStrays c with
  | false =>
      have hinside : s.Inside := ⟨hstrayed, by simp [hitems, hc]⟩
      exact (Run.final_preserves (fun _ env h => h.handle env) envs
        hinside).strayed
  | true =>
      cases envs with
      | nil => simp at henvs
      | cons env envs =>
          rw [Run.final_cons]
          apply strayed_final
          rw [strayed_handle hitems env, hc, Bool.or_true]

/-! ## Copies -/

theorem selects_of_noIgnoreList
    {f : Filter} {registered : TargetId → Bool} {e : ExtraLogMeta}
    (hselects : f.selects registered e = true) :
    f.selects registered ⟨e.m, noIgnoreList⟩ = true := by
  have hnone : ExtraLogMeta.ignores ⟨e.m, noIgnoreList⟩ f.targetId =
      false := by
    have hnil : ExtraLogMeta.ignoredTargets ⟨e.m, noIgnoreList⟩ = [] := rfl
    simp [ExtraLogMeta.ignores, hnil]
  simp only [Filter.selects, Bool.and_eq_true, Bool.or_eq_true,
    Bool.not_eq_true'] at hselects ⊢
  rcases hselects with ⟨happlies, hdefault | ⟨-, hregistered⟩⟩
  · exact ⟨happlies, Or.inl hdefault⟩
  · exact ⟨happlies, Or.inr ⟨hnone, hregistered⟩⟩

/-- Without its ignore list a message reaches at least the filters it reached
with it. -/
theorem routes_sublist
    (table : FilterTable) (registered : TargetId → Bool) (e : ExtraLogMeta) :
    (table.routes registered e).Sublist
      (table.routes registered ⟨e.m, noIgnoreList⟩) := by
  have hlist : ∀ list : FilterList, (list.routes registered e).Sublist
      (list.routes registered ⟨e.m, noIgnoreList⟩) := by
    intro list
    unfold FilterList.routes
    dsimp only
    split
    · exact List.monotone_filter_right list.live
        fun f => selects_of_noIgnoreList
    · exact List.Sublist.refl _
  unfold FilterTable.routes
  dsimp only
  induction e.m.consulted with
  | nil => exact List.Sublist.refl _
  | cons p rest ih =>
      rw [List.flatMap_cons, List.flatMap_cons]
      apply List.Sublist.append _ ih
      cases table.deref p with
      | none => exact List.Sublist.refl _
      | some list => exact hlist list

/-- Either the filters with the ignore list are among those without it, or the
ignore list has left only the default. -/
theorem selected_cases (s : Logger) (e : ExtraLogMeta) :
    (s.selected e).Sublist (s.selected ⟨e.m, noIgnoreList⟩) ∨
      s.filters.dispatch s.registered e = [Filter.empty] := by
  unfold selected FilterTable.dispatch
  have hsub := routes_sublist s.filters s.registered e
  split
  · exact Or.inr rfl
  · rename_i hroutes
    left
    have hall : s.filters.routes s.registered ⟨e.m, noIgnoreList⟩ ≠ [] := by
      intro hnil
      rw [hnil] at hsub
      exact hroutes (List.sublist_nil.mp hsub)
    rw [if_neg hall]
    exact hsub.filter _

theorem delivery_injective (seq : ℕ) :
    Function.Injective (delivery seq) := by
  intro f g heq
  exact congrArg Delivery.filter heq

/-- Repeating a list once for each element of another gives that other list
only if there is nothing to repeat. -/
theorem perm_repeat
    {α β : Type*} {copies : List α} {xs ys : List β}
    (hlen : copies.length = ys.length) (hpos : ys ≠ [])
    (hperm : (copies.flatMap fun _ => xs).Perm ys) :
    ∃ x, xs = [x] ∧ ∀ y ∈ ys, y = x := by
  have hcount := hperm.length_eq
  rw [List.length_flatMap, List.map_const', List.sum_replicate, smul_eq_mul,
    hlen] at hcount
  have hys := List.length_pos_iff.mpr hpos
  have hone : xs.length = 1 := by
    apply Nat.eq_of_mul_eq_mul_left hys
    omega
  rcases List.length_eq_one_iff.mp hone with ⟨x, rfl⟩
  refine ⟨x, rfl, ?_⟩
  intro y hy
  rcases List.mem_flatMap.mp (hperm.symm.subset hy) with ⟨c, -, hx⟩
  exact List.mem_singleton.mp hx

theorem reaches_of_tooLarge
    {text : List UInt8} {f : Filter} (htoo : s.tooLarge text f = true) :
    s.reaches f = true := by
  unfold tooLarge at htoo
  unfold reaches
  cases hsize : s.bankSize? f.targetId with
  | none => simp [hsize] at htoo
  | some size => rfl

theorem filter_reaches_perm
    (s : Logger) (text : List UInt8) (fs : List Filter) :
    ((fs.filter fun f => s.reaches f && !s.tooLarge text f) ++
      fs.filter (s.tooLarge text)).Perm (fs.filter s.reaches) := by
  have hsplit := List.filter_append_perm (fun f => !s.tooLarge text f)
    (fs.filter s.reaches)
  rw [List.filter_filter, List.filter_filter] at hsplit
  have hfits : (fun f => !s.tooLarge text f && s.reaches f) =
      fun f => s.reaches f && !s.tooLarge text f := by
    funext f
    exact Bool.and_comm _ _
  have hlarge : (fun f => !!s.tooLarge text f && s.reaches f) =
      s.tooLarge text := by
    funext f
    cases htoo : s.tooLarge text f with
    | false => simp
    | true => simp [reaches_of_tooLarge htoo]
  simp only [hfits, hlarge] at hsplit
  exact hsplit

/-- Delivering to the targets with room, and every copy to everybody, is
delivering once exactly if there are no copies or only one filter. -/
theorem once_iff
    (s : Logger) (e : ExtraLogMeta) (text : List UInt8) (seq : ℕ)
    {α : Type*} {copies : List α}
    (hcopies : copies.length =
      ((s.filters.dispatch s.registered e).filter (s.tooLarge text)).length) :
    ((((s.filters.dispatch s.registered e).filter fun f =>
          s.reaches f && !s.tooLarge text f).map (delivery seq)) ++
        copies.flatMap fun _ =>
          (s.selected ⟨e.m, noIgnoreList⟩).map (delivery seq)).Perm
        ((s.selected e).map (delivery seq)) ↔
      (∀ f ∈ s.filters.dispatch s.registered e, s.tooLarge text f = false) ∨
        ∃ d, s.selected e = [d] ∧ s.selected ⟨e.m, noIgnoreList⟩ = [d] := by
  set fs := s.filters.dispatch s.registered e with hfs
  set large := fs.filter (s.tooLarge text) with hlarge
  have hsplit := (s.filter_reaches_perm text fs).map (delivery seq)
  have hselected : fs.filter s.reaches = s.selected e := rfl
  rw [List.map_append, ← hlarge, hselected] at hsplit
  have hsub : large.Subset (s.selected e) := by
    intro f hf
    have hmem := List.mem_filter.mp hf
    exact List.mem_filter.mpr ⟨hmem.1, reaches_of_tooLarge hmem.2⟩
  have hnone : large = [] ↔ ∀ f ∈ fs, s.tooLarge text f = false := by
    rw [hlarge, List.filter_eq_nil_iff]
    simp
  have hcancel : ∀ {xs ys zs ws : List Delivery}, (xs ++ ys).Perm ws →
      ((xs ++ zs).Perm ws ↔ zs.Perm ys) := by
    intro xs ys zs ws h
    exact ⟨fun hp => (List.perm_append_left_iff xs).mp (hp.trans h.symm),
      fun hp => ((List.perm_append_left_iff xs).mpr hp).trans h⟩
  rw [hcancel hsplit, ← hnone]
  constructor
  · intro hperm
    by_cases hempty : large = []
    · exact Or.inl hempty
    · right
      have hlen : copies.length = (large.map (delivery seq)).length := by
        rw [List.length_map, hcopies]
      rcases perm_repeat hlen (by simpa using hempty) hperm with
        ⟨x, hx, hall⟩
      rcases List.map_eq_singleton_iff.mp hx with ⟨d, hd, rfl⟩
      have hd' : ∀ f ∈ large, f = d := fun f hf =>
        delivery_injective seq (hall _ (List.mem_map_of_mem hf))
      rcases List.exists_mem_of_ne_nil _ hempty with ⟨f, hf⟩
      have hsel := hsub hf
      rw [hd' f hf] at hsel
      refine ⟨d, ?_, hd⟩
      rcases s.selected_cases e with hsublist | hdefault
      · rw [hd] at hsublist
        rcases List.sublist_singleton.mp hsublist with hnil | hone
        · rw [hnil] at hsel
          simp at hsel
        · exact hone
      · unfold selected at hsel ⊢
        rw [hdefault] at hsel ⊢
        have hmem := List.mem_filter.mp hsel
        have heq : d = Filter.empty := List.mem_singleton.mp hmem.1
        subst heq
        rw [List.filter_cons, if_pos hmem.2, List.filter_nil]
  · intro hcond
    by_cases hempty : large = []
    · rw [hempty] at hcopies
      have hnil : copies = [] := List.length_eq_zero_iff.mp hcopies
      simp [hempty, hnil]
    · rcases hcond with hnil | ⟨d, hone, hall⟩
      · exact absurd hnil hempty
      · have hlen := hsplit.length_eq
        have hpos := List.length_pos_iff.mpr hempty
        rw [hone, List.length_append, List.length_map, List.length_map,
          List.length_map, List.length_singleton] at hlen
        rcases List.length_eq_one_iff.mp (show large.length = 1 by omega) with
          ⟨f, hf⟩
        have hfd : f = d := by
          have hmem := hsub (by rw [hf]; simp : f ∈ large)
          rw [hone] at hmem
          exact List.mem_singleton.mp hmem
        rw [hf, List.length_singleton] at hcopies
        rcases List.length_eq_one_iff.mp hcopies with ⟨c, rfl⟩
        rw [hf, hfd, hall, List.flatMap_singleton]

theorem dispatch_congr
    (table : FilterTable) (registered : TargetId → Bool)
    {e e' : ExtraLogMeta} (hm : e.m = e'.m) (hignores : e.ignores = e'.ignores) :
    table.dispatch registered e = table.dispatch registered e' := by
  have hselects : ∀ f : Filter,
      f.selects registered e = f.selects registered e' := by
    intro f
    unfold Filter.selects
    rw [hm, hignores]
  have hroutes : table.routes registered e = table.routes registered e' := by
    unfold FilterTable.routes FilterList.routes
    simp only [hm, hselects]
  unfold FilterTable.dispatch
  rw [hroutes]

/-! ## Messages -/

/-- Every filter the dispatch selects gets the message once. -/
def DeliversOnce (s s' : Logger) (e : ExtraLogMeta) : Prop :=
  s'.owner.delivered.Perm (s.owner.delivered ++
    (s.selected e).map (delivery s.nextSeq))

theorem newLog_deliversOnce_iff
    {l : SingleLog} {e : ExtraLogMeta} (hfiled : s.Filed)
    (hitems : s.owner.internalCmdQueue.items = [.newLog l])
    (hsift : s.filters.sift s.opts e.m = (true, e.m))
    (hm : l.logMeta.m = e.m) (hignores : l.logMeta.ignores = e.ignores)
    {envs : List Formatting}
    (henvs : (s.filters.dispatch s.registered e).length < envs.length)
    (hroom : (Run.final handleInternalCmd s envs).owner.refused = false) :
    (Run.final handleInternalCmd s envs).owner.internalCmdQueue.items = [] ∧
      ((Run.final handleInternalCmd s envs).owner.delivered.Perm
          (s.owner.delivered ++ (s.selected e).map (delivery l.seq)) ↔
        (∀ f ∈ s.filters.dispatch s.registered e,
            s.tooLarge l.buf.text f = false) ∨
          ∃ d, s.selected e = [d] ∧
            s.selected ⟨e.m, noIgnoreList⟩ = [d]) := by
  have haccept : s.accepts l = true := by simp [accepts, hm, hsift]
  have hsifted : s.sifted l = l := by
    unfold sifted
    rw [hm, hsift, ← hm]
  have hdispatch : s.dispatch l = s.filters.dispatch s.registered e := by
    unfold dispatch
    rw [hsifted]
    exact dispatch_congr s.filters s.registered hm hignores
  cases envs with
  | nil => simp at henvs
  | cons env envs =>
      rw [Run.final_cons] at hroom ⊢
      rcases handle_newLog hitems hfiled haccept env with hrefused |
        ⟨cmds, hfirst, hups, hlen⟩
      · rw [refused_final hrefused envs] at hroom
        simp at hroom
      · rw [hdispatch] at hfirst hups hlen
        rw [hsifted, hm] at hups
        rw [List.length_cons] at henvs
        have hagain : (s.handleInternalCmd env).filters.sift
            (s.handleInternalCmd env).opts e.m = (true, e.m) := by
          rw [hfirst.filters, hfirst.opts]
          exact hsift
        rcases drain_progress envs hfirst.filed hfirst.queue hups.shape hagain
          (by omega) with hrefused | hrest
        · rw [hroom] at hrefused
          simp at hrefused
        · have hall := hfirst.trans hrest
          rw [hfirst.selected] at hall
          refine ⟨hall.queue, ?_⟩
          rw [hall.delivered, List.perm_append_left_iff]
          exact s.once_iff e l.buf.text l.seq hups.count

theorem overflow_deliversOnce
    {d : TargetId} {l : SingleLog} {e : ExtraLogMeta} (hfiled : s.Filed)
    (hitems : s.owner.internalCmdQueue.items = [.writeTargetOverflow d l])
    (hsift : s.filters.sift s.opts e.m = (true, e.m))
    (hm : l.logMeta.m = e.m) (hignores : l.logMeta.ignores = e.ignores)
    {envs : List Formatting} (henvs : 0 < envs.length)
    (hroom : (Run.final handleInternalCmd s envs).owner.refused = false) :
    (Run.final handleInternalCmd s envs).owner.internalCmdQueue.items = [] ∧
      (Run.final handleInternalCmd s envs).owner.delivered =
        s.owner.delivered ++ (s.selected e).map (delivery l.seq) := by
  have haccept : s.accepts l = true := by simp [accepts, hm, hsift]
  have hsifted : s.sifted l = l := by
    unfold sifted
    rw [hm, hsift, ← hm]
  have hselected : s.selected l.logMeta = s.selected e := by
    unfold selected
    rw [dispatch_congr s.filters s.registered hm hignores]
  cases envs with
  | nil => simp at henvs
  | cons env envs =>
      rw [Run.final_cons] at hroom ⊢
      rcases handle_overflow hitems hfiled haccept env with hrefused | hfirst
      · rw [refused_final hrefused envs] at hroom
        simp at hroom
      · have hidle : Run.final handleInternalCmd (s.handleInternalCmd env)
            envs = s.handleInternalCmd env := by
          apply Run.final_preserves
            (I := fun s' : Logger => s' = s.handleInternalCmd env)
          · rintro _ env' rfl
            exact handle_empty hfirst.queue env'
          · rfl
        rw [hidle]
        rw [hsifted, hselected] at hfirst
        exact ⟨hfirst.queue, hfirst.delivered⟩

structure Idle (s : Logger) : Prop where
  filed : s.Filed
  inside : s.strayed = false
  queueEmpty : s.owner.internalCmdQueue.items = []
  queueRoom : s.owner.internalCmdQueue.hasRoom
  bufferSize : 0 < s.bufferSize
  buffers : ∀ l ∈ s.masterBufferAvail.items, l.buf.len = s.bufferSize
  pool : s.masterBufferAvail.items ≠ []

/-- An accepted message, processed until the queue is empty and with nothing
refused on the way, is delivered once for each filter the dispatch selects and
to nothing else exactly if the dispatch does not read on behind a full list, and
the message is too large for the pool, no selected target finds it too large for
its banks, or there is only one filter to deliver it for, with and without the
ignore list. -/
theorem delivered_once_iff
    {s : Logger} (hidle : s.Idle) {m : LogMeta}
    (haccept : (s.filters.sift s.opts m).1 = true) (following : IgnoreList)
    {text : List UInt8} (hmax : text.length ≤ greaseMaxMessageSize)
    {envs : List Formatting}
    (henvs : (s.filters.dispatch s.registered
      ⟨(s.filters.sift s.opts m).2, following⟩).length < envs.length)
    (hroom : (Run.final handleInternalCmd (s.log m following text)
      envs).owner.refused = false) :
    (Run.final handleInternalCmd (s.log m following text)
        envs).owner.internalCmdQueue.items = [] ∧
      ((Run.final handleInternalCmd (s.log m following text)
            envs).strayed = false ∧
          s.DeliversOnce
            (Run.final handleInternalCmd (s.log m following text) envs)
            ⟨(s.filters.sift s.opts m).2, following⟩ ↔
        s.filters.strays (s.filters.sift s.opts m).2 = false ∧
          (s.bufferSize < text.length ∨
            (∀ f ∈ s.filters.dispatch s.registered
                ⟨(s.filters.sift s.opts m).2, following⟩,
              s.tooLarge text f = false) ∨
            ∃ d, s.selected ⟨(s.filters.sift s.opts m).2, following⟩ = [d] ∧
              s.selected ⟨(s.filters.sift s.opts m).2, noIgnoreList⟩ =
                [d])) := by
  have hsift := s.filters.sift_sift haccept
  by_cases hlarge : s.bufferSize < text.length
  · rcases log_large following haccept hmax hlarge hidle.queueRoom with
      ⟨queue, hitems, -, hlog⟩
    rw [hidle.queueEmpty, List.nil_append] at hitems
    rw [hlog] at hroom ⊢
    have hdelivered := overflow_deliversOnce
      (e := ⟨(s.filters.sift s.opts m).2, following⟩)
      (s := { s with
        owner := { s.owner with internalCmdQueue := queue }
        nextSeq := s.nextSeq + 1 })
      hidle.filed hitems hsift (SingleLog.setMeta_m _ _ _)
      (SingleLog.setMeta_ignores _ _ _) (by omega) hroom
    have hstrayed := strayed_final_message
      (s := { s with
        owner := { s.owner with internalCmdQueue := queue }
        nextSeq := s.nextSeq + 1 })
      hitems rfl (SingleLog.setMeta_m _ _ _) hsift hidle.inside
      (by omega : 0 < envs.length)
    have honce : s.DeliversOnce (Run.final handleInternalCmd { s with
        owner := { s.owner with internalCmdQueue := queue }
        nextSeq := s.nextSeq + 1 } envs)
        ⟨(s.filters.sift s.opts m).2, following⟩ := by
      unfold DeliversOnce
      rw [hdelivered.2]
      exact List.Perm.refl _
    refine ⟨hdelivered.1, ?_⟩
    rw [hstrayed, and_iff_left honce, and_iff_left (Or.inl hlarge)]
  · rcases exists_log_fits following haccept hmax hidle.bufferSize
      (not_lt.mp hlarge) hidle.buffers hidle.pool hidle.queueRoom with
      ⟨l, avail, queue, htext, hitems, hlog⟩
    rw [hidle.queueEmpty, List.nil_append] at hitems
    rw [hlog] at hroom ⊢
    have hdelivered := newLog_deliversOnce_iff
      (e := ⟨(s.filters.sift s.opts m).2, following⟩)
      (s := { s with
        masterBufferAvail := avail
        owner := { s.owner with internalCmdQueue := queue }
        nextSeq := s.nextSeq + 1 })
      hidle.filed hitems hsift (SingleLog.setMeta_m _ _ _)
      (SingleLog.setMeta_ignores _ _ _) henvs hroom
    have hstrayed := strayed_final_message
      (s := { s with
        masterBufferAvail := avail
        owner := { s.owner with internalCmdQueue := queue }
        nextSeq := s.nextSeq + 1 })
      hitems rfl (SingleLog.setMeta_m _ _ _) hsift hidle.inside
      (by omega : 0 < envs.length)
    refine ⟨hdelivered.1, ?_⟩
    rw [hstrayed, or_iff_right hlarge]
    simp only [htext] at hdelivered
    exact and_congr_right' hdelivered.2

def twoTargets : Logger :=
  { (((Logger.new 2000).setTarget 0 (LogTarget.new .tty 2000 0 none 4)).setTarget
        1 (LogTarget.new .file 2000 1 none 4)).setTarget
          2 (LogTarget.new .file 2000 2 none 4) with
    filters := FilterTable.build
      [.add { target := 1, origin := 0, tag := 0, mask := 1 },
        .add { target := 2, origin := 0, tag := 0, mask := 1 }] }

theorem twoTargets_idle : twoTargets.Idle := by
  refine ⟨?_, rfl, rfl, by decide, by decide, ?_, by decide⟩
  · have hdefault := (filed_new 2000).setTarget 0
      (LogTarget.new .tty 2000 0 none 4) rfl
    have hfirst := hdefault.setTarget 1 (LogTarget.new .file 2000 1 none 4) rfl
    exact hfirst.setTarget 2 (LogTarget.new .file 2000 2 none 4) rfl
  · intro l hl
    rcases List.mem_map.mp hl with ⟨n, -, rfl⟩
    rfl

/-- A message of 1900 bytes fits the pool but no bank: each of the two targets
gets it twice. -/
theorem large_message_delivered_twice :
    twoTargets.Idle ∧
      (twoTargets.filters.sift twoTargets.opts (LogMeta.declare 0 1 0)).1 =
        true ∧
      (List.replicate 1900 (97 : UInt8)).length ≤ greaseMaxMessageSize ∧
      (Run.final handleInternalCmd (twoTargets.log (LogMeta.declare 0 1 0)
          noIgnoreList (List.replicate 1900 97))
        (List.replicate 3 noFormatting)).owner.refused = false ∧
      (Run.final handleInternalCmd (twoTargets.log (LogMeta.declare 0 1 0)
          noIgnoreList (List.replicate 1900 97))
        (List.replicate 3 noFormatting)).owner.internalCmdQueue.items = [] ∧
      (Run.final handleInternalCmd (twoTargets.log (LogMeta.declare 0 1 0)
          noIgnoreList (List.replicate 1900 97))
        (List.replicate 3 noFormatting)).strayed = false ∧
      ¬twoTargets.DeliversOnce
        (Run.final handleInternalCmd (twoTargets.log (LogMeta.declare 0 1 0)
            noIgnoreList (List.replicate 1900 97))
          (List.replicate 3 noFormatting))
        ⟨(twoTargets.filters.sift twoTargets.opts
          (LogMeta.declare 0 1 0)).2, noIgnoreList⟩ := by
  refine ⟨twoTargets_idle, by decide +kernel, by decide +kernel,
    by decide +kernel, by decide +kernel, by decide +kernel, ?_⟩
  intro honce
  have hlength := honce.length_eq
  have hfour : (Run.final handleInternalCmd (twoTargets.log
      (LogMeta.declare 0 1 0) noIgnoreList (List.replicate 1900 97))
    (List.replicate 3 noFormatting)).owner.delivered.length = 4 := by
    decide +kernel
  have htwo : (twoTargets.owner.delivered ++ (twoTargets.selected
      ⟨(twoTargets.filters.sift twoTargets.opts (LogMeta.declare 0 1 0)).2,
        noIgnoreList⟩).map (delivery twoTargets.nextSeq)).length = 2 := by
    decide +kernel
  omega

theorem short_message_delivered_once :
    (Run.final handleInternalCmd (twoTargets.log (LogMeta.declare 0 1 0)
        noIgnoreList [104, 105])
      (List.replicate 3 noFormatting)).strayed = false ∧
      twoTargets.DeliversOnce
        (Run.final handleInternalCmd (twoTargets.log (LogMeta.declare 0 1 0)
          noIgnoreList [104, 105]) (List.replicate 3 noFormatting))
        ⟨(twoTargets.filters.sift twoTargets.opts
          (LogMeta.declare 0 1 0)).2, noIgnoreList⟩ :=
  (delivered_once_iff twoTargets_idle (by decide +kernel) noIgnoreList
    (by decide) (by decide +kernel) (by decide +kernel)).2.mpr
      ⟨by decide +kernel, Or.inr (Or.inl (by decide +kernel))⟩

end Logger

end GreaseLog
