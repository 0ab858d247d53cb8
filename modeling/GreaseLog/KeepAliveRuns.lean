import GreaseLog.KeepAlive
import GreaseLog.LoggerSteps
import GreaseLog.Run

/-!
# The count over whole runs

The operations of all targets are interleaved in any order.  Between two of
them the rest of the logger may do what it likes, except touch the targets and
the count: callers fill the command queue, commands are taken from it, and
buffers are passed to the user.  Every step of the logger is a sequence of
such moves.

In a run that never takes a reference at the largest value of the count, the
count is at least what the targets hold, so that giving a reference back never
finds it at zero.  In a run whose operations all give their references back,
it is exactly what the targets hold, up to a multiple of `2 ^ 32`.
-/

namespace GreaseLog

namespace Logger

/-! ## Moves -/

inductive Move where
  | op (id : TargetId) (a : TargetOp)
  | elsewhere (other : Logger)

/-- The logger with this target and owner after an operation. -/
def install (s : Logger) (id : TargetId) (next : LogTarget × Owner) : Logger :=
  { s.setTarget id next.1 with owner := next.2 }

def operate (s : Logger) (id : TargetId) (a : TargetOp) : Logger :=
  match s.target? id with
  | none => s
  | some t => s.install id (t.op s.owner a)

/-- Everything but the targets and the count is as in the other logger. -/
def withRest (s other : Logger) : Logger :=
  { other with
    defaultTarget := s.defaultTarget
    targets := s.targets
    owner := { other.owner with
      needGreaseThread := s.owner.needGreaseThread
      unrefFailed := s.owner.unrefFailed
      deadlocked := s.owner.deadlocked } }

def move (s : Logger) : Move → Logger
  | .op id a => s.operate id a
  | .elsewhere other => s.withRest other

/-! ## Steps of the logger are moves -/

theorem target?_install
    (s : Logger) (id : TargetId) (next : LogTarget × Owner) :
    (s.install id next).target? id = some next.1 :=
  s.target?_setTarget_self id next.1

theorem install_install
    (s : Logger) (id : TargetId) (next last : LogTarget × Owner) :
    (s.install id next).install id last = s.install id last := by
  unfold install setTarget
  split
  · rfl
  · simp [AList.insert_insert]

theorem move_op_of_target
    {s : Logger} {id : TargetId} {t : LogTarget}
    (htarget : s.target? id = some t) (a : TargetOp) :
    s.move (.op id a) = s.install id (t.op s.owner a) := by
  unfold move operate
  dsimp only
  rw [htarget]

/-- Several operations of one target. -/
theorem final_ops
    {s : Logger} {id : TargetId} {t : LogTarget}
    (htarget : s.target? id = some t) (a : TargetOp) (ops : List TargetOp) :
    Run.final move s ((a :: ops).map (.op id)) =
      s.install id ((a :: ops).foldl (fun x b => x.1.op x.2 b) (t, s.owner)) := by
  induction ops using List.reverseRecOn with
  | nil => exact move_op_of_target htarget a
  | append_singleton ops b ih =>
      rw [← List.cons_append, List.map_append, Run.final_append,
        List.foldl_append, ih]
      have hnext := move_op_of_target (s.target?_install id
        ((a :: ops).foldl (fun x b => x.1.op x.2 b) (t, s.owner))) b
      rw [install_install] at hnext
      exact hnext

def Reaches (s s' : Logger) : Prop := ∃ moves, Run.final move s moves = s'

theorem Reaches.refl (s : Logger) : s.Reaches s := ⟨[], rfl⟩

theorem Reaches.trans {s s' s'' : Logger}
    (h : s.Reaches s') (h' : s'.Reaches s'') : s.Reaches s'' := by
  rcases h with ⟨moves, rfl⟩
  rcases h' with ⟨more, rfl⟩
  exact ⟨moves ++ more, Run.final_append s moves more⟩

theorem reaches_elsewhere {s s' : Logger} (happart : s.withRest s' = s') :
    s.Reaches s' :=
  ⟨[.elsewhere s'], happart⟩

end Logger

namespace LogTarget

theorem flushLoop_eq_iterate
    (out : LogTarget → Owner → LogBuf → LogTarget × Owner) (rounds : ℕ)
    (t : LogTarget) (o : Owner) :
    flushLoop out rounds t o =
      (fun x : LogTarget × Owner => x.1.flushRound out x.2)^[rounds] (t, o) := by
  induction rounds generalizing t o with
  | zero => rfl
  | succ rounds ih =>
      rw [Function.iterate_succ_apply, flushLoop]
      unfold flushRound
      cases hremove : t.writeOutBuffers.remove with
      | some taken => exact ih _ _
      | none =>
          -- Nothing waits, and nothing will in the rounds that are left.
          refine (Function.iterate_fixed ?_ rounds).symm
          dsimp only
          rw [hremove]

theorem foldl_replicate_op
    (t : LogTarget) (o : Owner) (a : TargetOp) (n : ℕ) :
    (List.replicate n a).foldl (fun x b => x.1.op x.2 b) (t, o) =
      (fun x : LogTarget × Owner => x.1.op x.2 a)^[n] (t, o) := by
  induction n generalizing t o with
  | zero => rfl
  | succ n ih =>
      rw [List.replicate_succ, List.foldl_cons, Function.iterate_succ_apply]
      exact ih _ _

/-- An act of a target is a sequence of its operations. -/
theorem act_eq_ops (t : LogTarget) (o : Owner) (env : Formatting)
    (a : TargetAct) :
    ∃ b ops, t.act o env a =
      (b :: ops).foldl (fun x b => x.1.op x.2 b) (t, o) := by
  -- `flushAll` without rotation starts with an operation that does nothing.
  have hstart : ∀ rotate : Bool, ∃ b : TargetOp, t.op o b =
      (if rotate then t.rotate.1 else t, o) := by
    intro rotate
    cases rotate with
    | true => exact ⟨.rotate, rfl⟩
    | false => exact ⟨.disableWrites t.disabled, rfl⟩
  cases a with
  | write seq text m filter => exact ⟨.write env seq text m filter, [], rfl⟩
  | writeOverflow l filter => exact ⟨.writeOverflow env l filter, [], rfl⟩
  | flushAll rotate nocallbacks =>
      rcases hstart rotate with ⟨b, hb⟩
      refine ⟨b, List.replicate (t.flushStart
        rotate).writeOutBuffers.items.length (.flush nocallbacks), ?_⟩
      rw [List.foldl_cons, hb, foldl_replicate_op]
      exact flushLoop_eq_iterate _ _ _ _
  | flushAllSync rotate nocallbacks =>
      rcases hstart rotate with ⟨b, hb⟩
      refine ⟨b, List.replicate (t.flushStart
        rotate).writeOutBuffers.items.length (.flushSync nocallbacks), ?_⟩
      rw [List.foldl_cons, hb, foldl_replicate_op]
      exact flushLoop_eq_iterate _ _ _ _
  | completeWrite i => exact ⟨.completeWrite i, [], rfl⟩
  | completeOverflow i => exact ⟨.completeOverflow i, [], rfl⟩
  | finalizeV8Callback b => exact ⟨.finalizeV8Callback b, [], rfl⟩
  | disableWrites v => exact ⟨.disableWrites v, [], rfl⟩
  | setCallback => exact ⟨.setCallback, [], rfl⟩

end LogTarget

namespace Logger

theorem reaches_perform
    (s : Logger) (env : Formatting) (id : TargetId) (a : TargetAct) :
    s.Reaches (s.perform env id a) := by
  unfold perform
  cases htarget : s.target? id with
  | none => exact Reaches.refl s
  | some t =>
      rcases t.act_eq_ops s.owner env a with ⟨b, ops, hact⟩
      refine ⟨(b :: ops).map (.op id), ?_⟩
      rw [final_ops htarget, ← hact]
      rfl

theorem reaches_performAll
    (s : Logger) (env : Formatting) (acts : List (TargetId × TargetAct)) :
    s.Reaches (s.performAll env acts) :=
  performAll_invariant
    (fun s' hs' a _ => hs'.trans (s'.reaches_perform env a.1 a.2))
    (Reaches.refl s)

theorem reaches_putBack (s : Logger) (l : SingleLog) :
    s.Reaches (s.putBack l) := by
  apply reaches_elsewhere
  unfold putBack
  split <;> rfl

theorem reaches_enqueue_getD
    {s fallback : Logger} (cmd : SingleLog → InternalCmdReq) (l : SingleLog)
    (hfallback : s.Reaches fallback) :
    s.Reaches ((s.enqueue cmd l).getD fallback) := by
  unfold enqueue
  split
  · exact reaches_elsewhere rfl
  · exact hfallback

theorem reaches_submitBuffer (s : Logger) (l : SingleLog) :
    s.Reaches (s.submitBuffer l) := by
  unfold submitBuffer
  split
  · exact s.reaches_putBack l
  · exact reaches_enqueue_getD _ l (s.reaches_putBack l)

theorem reaches_grab
    {s s' : Logger} {l : SingleLog} (hgrab : s.grabInLogBuffer = some (l, s')) :
    s.Reaches s' := by
  unfold grabInLogBuffer at hgrab
  split at hgrab
  · rcases hgrab with ⟨⟩
    exact reaches_elsewhere rfl
  · simp at hgrab

theorem reaches_log
    (s : Logger) (m : LogMeta) (following : IgnoreList) (text : List UInt8) :
    s.Reaches (s.log m following text) := by
  unfold log logEntry
  split
  · exact Reaches.refl s
  · dsimp only
    split
    · split
      · exact reaches_enqueue_getD _ _ (Reaches.refl s)
      · split
        · exact Reaches.refl s
        · rename_i l s' hgrab
          exact (reaches_grab hgrab).trans
            (reaches_enqueue_getD _ _ (s'.reaches_putBack _))
    · exact Reaches.refl s

theorem reaches_redirect
    (s : Logger) (r : FdRedirectorTicket) (d : RedirectDefaults)
    (data : List UInt8) : s.Reaches (s.redirect r d data) := by
  unfold redirect
  split
  · exact Reaches.refl s
  · rename_i l s' hgrab
    apply (reaches_grab hgrab).trans
    split
    · exact s'.reaches_putBack l
    · exact s'.reaches_submitBuffer _

theorem reaches_klog (s : Logger) (mem : List UInt8) (start remain : ℕ) :
    s.Reaches (s.klog mem start remain) := by
  unfold klog
  split
  · exact Reaches.refl s
  · rename_i l s' hgrab
    apply (reaches_grab hgrab).trans
    dsimp only
    split
    · exact s'.reaches_submitBuffer _
    · exact s'.reaches_putBack _

theorem reaches_handleInternalCmd (s : Logger) (env : Formatting) :
    s.Reaches (s.handleInternalCmd env) := by
  unfold handleInternalCmd removeCmd
  split
  · exact Reaches.refl s
  · rename_i c s' hremove
    have hremoved : s.Reaches s' := by
      split at hremove
      · rcases hremove with ⟨⟩
        exact reaches_elsewhere rfl
      · simp at hremove
    have hexec : s'.Reaches (s'.execCmd env c) := by
      unfold execCmd
      have hstrays : s'.Reaches
          { s' with strayed := s'.strayed || s'.cmdStrays c } :=
        reaches_elsewhere rfl
      exact hstrays.trans (reaches_performAll _ env _)
    apply (hremoved.trans hexec).trans
    unfold finishCmd
    split
    · exact reaches_putBack _ _
    · exact Reaches.refl _

theorem reaches_cleanup (s : Logger) (env : Formatting) (j : ℕ) :
    s.Reaches (s.cleanupGreaseLibBuf env j) := by
  unfold cleanupGreaseLibBuf
  split
  · exact Reaches.refl s
  · dsimp only
    have herased : s.Reaches { s with owner := { s.owner with
        userBufs := s.owner.userBufs.eraseIdx j } } := reaches_elsewhere rfl
    split
    · split
      · unfold returnBufferToTarget
        split
        · exact herased.trans (reaches_perform _ env _ _)
        · exact herased
      · exact herased
    · exact herased

/-- Every step of the logger is a sequence of moves. -/
theorem reaches_step (s : Logger) (a : Act) : s.Reaches (s.step a) := by
  cases a with
  | log m following text => exact s.reaches_log m following text
  | redirect r d data => exact s.reaches_redirect r d data
  | klog mem start remain => exact s.reaches_klog mem start remain
  | handle env => exact s.reaches_handleInternalCmd env
  | flushTimer id nocallbacks => exact s.reaches_perform _ id _
  | completeWrite id i => exact s.reaches_perform _ id _
  | completeOverflow id i => exact s.reaches_perform _ id _
  | callV8LogCallbacks =>
      apply reaches_elsewhere
      unfold step callV8LogCallbacks
      dsimp only
      split
      · rfl
      · unfold doLibCallback
        split <;> rfl
  | cleanup j => exact s.reaches_cleanup _ j
  | filter c => exact reaches_elsewhere rfl
  | disableTarget id v => exact s.reaches_perform _ id _
  | setCallback id => exact s.reaches_perform _ id _

theorem reaches_final (s : Logger) (acts : List Act) :
    s.Reaches (Run.final step s acts) :=
  Run.final_preserves (I := s.Reaches)
    (fun s' a hs' => hs'.trans (s'.reaches_step a)) acts (Reaches.refl s)

end Logger

namespace Logger

/-! ## What all targets hold -/

def allTargets (s : Logger) : List LogTarget :=
  s.defaultTarget.toList ++ s.targets.entries.map Sigma.snd

def held (s : Logger) : ℕ := (s.allTargets.map LogTarget.held).sum

end Logger

/-- No bank of the target has data in it and nothing is being written. -/
structure LogTarget.Quiet (t : LogTarget) : Prop where
  current : t.currentBuffer.isEmpty = true
  writeOut : ∀ b ∈ t.writeOutBuffers.items, b.isEmpty = true
  inFlight : ∀ x ∈ t.inFlight, x.1.isEmpty = true
  overflow : t.overflowInFlight = []

theorem LogTarget.held_eq_zero_iff (t : LogTarget) : t.held = 0 ↔ t.Quiet := by
  have hweight : ∀ b : LogBuf, b.weight = 0 ↔ b.isEmpty = true := by
    intro b
    unfold LogBuf.weight
    split <;> simp_all
  constructor
  · intro hzero
    unfold held at hzero
    simp only [Nat.add_eq_zero_iff, List.sum_eq_zero_iff, List.mem_map,
      forall_exists_index, and_imp, forall_apply_eq_imp_iff₂, hweight,
      List.length_eq_zero_iff] at hzero
    exact ⟨hzero.1.1.1, hzero.1.1.2, hzero.1.2, hzero.2⟩
  · intro hquiet
    unfold held
    simp only [Nat.add_eq_zero_iff, List.sum_eq_zero_iff, List.mem_map,
      forall_exists_index, and_imp, forall_apply_eq_imp_iff₂, hweight,
      List.length_eq_zero_iff]
    exact ⟨⟨⟨hquiet.current, hquiet.writeOut⟩, hquiet.inFlight⟩,
      hquiet.overflow⟩

namespace Logger

theorem held_eq_zero_iff (s : Logger) :
    s.held = 0 ↔ ∀ t ∈ s.allTargets, t.Quiet := by
  unfold held
  simp only [List.sum_eq_zero_iff, List.mem_map, forall_exists_index, and_imp,
    forall_apply_eq_imp_iff₂, LogTarget.held_eq_zero_iff]

theorem perm_kerase
    {entries : List (Sigma fun _ : TargetId => LogTarget)} {id : TargetId}
    {t : LogTarget} (hlookup : entries.dlookup id = some t) :
    entries.Perm (⟨id, t⟩ :: entries.kerase id) := by
  induction entries with
  | nil => simp at hlookup
  | cons e rest ih =>
      rcases e with ⟨id', t'⟩
      by_cases hid : id = id'
      · subst hid
        rw [List.dlookup_cons_eq] at hlookup
        have hkerase : List.kerase id (⟨id, t'⟩ :: rest) = rest :=
          List.kerase_cons_eq rfl
        rw [hkerase, Option.some.inj hlookup]
      · rw [List.dlookup_cons_ne _ _ hid] at hlookup
        rw [List.kerase_cons_ne hid]
        exact ((ih hlookup).cons _).trans (List.Perm.swap _ _ _)

/-- Setting a target that is there replaces it among all targets. -/
theorem allTargets_setTarget
    {s : Logger} {id : TargetId} {t : LogTarget}
    (htarget : s.target? id = some t) (t' : LogTarget) :
    ∃ rest, s.allTargets.Perm (t :: rest) ∧
      (s.setTarget id t').allTargets.Perm (t' :: rest) := by
  unfold target? at htarget
  unfold allTargets setTarget
  by_cases hid : id = 0
  · rw [if_pos hid] at htarget
    rw [if_pos hid, htarget]
    exact ⟨_, List.Perm.refl _, List.Perm.refl _⟩
  · rw [if_neg hid] at htarget
    rw [if_neg hid]
    dsimp only
    have hperm := (perm_kerase htarget).map Sigma.snd
    rw [List.map_cons] at hperm
    refine ⟨s.defaultTarget.toList ++
      (s.targets.entries.kerase id).map Sigma.snd, ?_, ?_⟩
    · exact (hperm.append_left _).trans List.perm_middle
    · rw [AList.entries_insert, List.map_cons]
      exact List.perm_middle

theorem operate_cases (s : Logger) (id : TargetId) (a : TargetOp) :
    (s.target? id = none ∧ s.operate id a = s) ∨
      ∃ t rest, s.target? id = some t ∧ s.allTargets.Perm (t :: rest) ∧
        (s.operate id a).allTargets.Perm ((t.op s.owner a).1 :: rest) ∧
        (s.operate id a).owner = (t.op s.owner a).2 := by
  unfold operate
  cases htarget : s.target? id with
  | none => exact Or.inl ⟨rfl, rfl⟩
  | some t =>
      right
      rcases allTargets_setTarget htarget (t.op s.owner a).1 with
        ⟨rest, hbefore, hafter⟩
      exact ⟨t, rest, rfl, hbefore, hafter, rfl⟩

end Logger

/-! ## Counting -/

namespace Owner

theorem refs_exact
    {o : Owner} {refs : ℕ} (hfits : o.needGreaseThread + refs < 2 ^ 32) :
    (refGreaseInGrease^[refs] o).needGreaseThread =
        o.needGreaseThread + refs ∧
      (refGreaseInGrease^[refs] o).unrefFailed = o.unrefFailed := by
  induction refs generalizing o with
  | zero => exact ⟨rfl, rfl⟩
  | succ refs ih =>
      have hone : o.refGreaseInGrease.needGreaseThread =
          o.needGreaseThread + 1 := Nat.mod_eq_of_lt (by omega)
      rcases ih (o := o.refGreaseInGrease) (by omega) with ⟨hneed, hfailed⟩
      rw [Function.iterate_succ_apply]
      exact ⟨by omega, hfailed⟩

theorem unrefs_exact
    {o : Owner} {unrefs : ℕ} (hback : unrefs ≤ o.needGreaseThread) :
    (unrefGreaseInGrease^[unrefs] o).needGreaseThread + unrefs =
        o.needGreaseThread ∧
      (unrefGreaseInGrease^[unrefs] o).unrefFailed = o.unrefFailed := by
  induction unrefs generalizing o with
  | zero => exact ⟨rfl, rfl⟩
  | succ unrefs ih =>
      have hone : o.unrefGreaseInGrease =
          { o with needGreaseThread := o.needGreaseThread - 1 } := by
        unfold unrefGreaseInGrease
        rw [if_neg (by omega)]
      rcases ih (o := o.unrefGreaseInGrease) (by rw [hone]; dsimp only; omega)
        with ⟨hneed, hfailed⟩
      rw [Function.iterate_succ_apply]
      rw [hone] at hneed hfailed ⊢
      dsimp only at hneed
      exact ⟨by omega, hfailed⟩

/-- The count modulo `2 ^ 32`, as long as no reference is given back at
zero. -/
theorem refs_modEq
    {o : Owner} (refs : ℕ) (hrange : o.needGreaseThread < 2 ^ 32) :
    (refGreaseInGrease^[refs] o).needGreaseThread < 2 ^ 32 ∧
      (refGreaseInGrease^[refs] o).needGreaseThread ≡
        o.needGreaseThread + refs [MOD 2 ^ 32] ∧
      (refGreaseInGrease^[refs] o).unrefFailed = o.unrefFailed := by
  induction refs generalizing o with
  | zero => exact ⟨hrange, Nat.ModEq.refl _, rfl⟩
  | succ refs ih =>
      have hone : o.refGreaseInGrease.needGreaseThread =
          (o.needGreaseThread + 1) % 2 ^ 32 := rfl
      rcases ih (o := o.refGreaseInGrease)
        (by rw [hone]; exact Nat.mod_lt _ (by norm_num)) with
        ⟨hlt, hmod, hfailed⟩
      rw [Function.iterate_succ_apply]
      refine ⟨hlt, hmod.trans ?_, hfailed⟩
      rw [hone, show o.needGreaseThread + (refs + 1) =
        o.needGreaseThread + 1 + refs by omega]
      exact (Nat.mod_modEq _ _).add_right refs

theorem unrefs_le (o : Owner) (unrefs : ℕ) :
    (unrefGreaseInGrease^[unrefs] o).needGreaseThread ≤
      o.needGreaseThread := by
  induction unrefs generalizing o with
  | zero => exact le_rfl
  | succ unrefs ih =>
      rw [Function.iterate_succ_apply]
      refine (ih o.unrefGreaseInGrease).trans ?_
      unfold unrefGreaseInGrease
      split
      · exact le_rfl
      · exact Nat.sub_le _ _

theorem unrefs_of_not_failed
    {o : Owner} {unrefs : ℕ}
    (hsound : (unrefGreaseInGrease^[unrefs] o).unrefFailed = false) :
    o.unrefFailed = false ∧ unrefs ≤ o.needGreaseThread := by
  induction unrefs generalizing o with
  | zero => exact ⟨hsound, Nat.zero_le _⟩
  | succ unrefs ih =>
      rw [Function.iterate_succ_apply] at hsound
      rcases ih hsound with ⟨hfailed, hle⟩
      unfold unrefGreaseInGrease at hfailed hle
      split at hfailed
      · simp at hfailed
      · rename_i hpos
        rw [if_neg hpos] at hle
        dsimp only at hle
        exact ⟨hfailed, by omega⟩

end Owner

namespace Logger

/-! ## Steps -/

/-- The references a move takes. -/
def refs (s : Logger) : Move → ℕ
  | .op id a => (s.target? id).elim 0 fun t => t.refs s.owner a
  | .elsewhere _ => 0

/-- The move gives back every reference it should. -/
def Settles (s : Logger) : Move → Prop
  | .op id a => ∀ t ∈ s.target? id, t.Settles s.owner a
  | .elsewhere _ => True

instance (s : Logger) (m : Move) : Decidable (s.Settles m) := by
  unfold Settles
  cases m <;> infer_instance

def BanksReady (s : Logger) : Prop := ∀ t ∈ s.allTargets, t.AvailEmpty

/-- The accounts of one move. -/
structure Accounts (s s' : Logger) (refs unrefs leak : ℕ) : Prop where
  ready : s'.BanksReady
  held : s.held + refs = s'.held + unrefs + leak
  count : (s.owner.recount refs unrefs).SameCount s'.owner

theorem move_accounts {s : Logger} (hready : s.BanksReady) (m : Move) :
    ∃ unrefs leak, s.Accounts (s.move m) (s.refs m) unrefs leak ∧
      ((s.move m).owner.deadlocked = false → s.owner.deadlocked = false ∧
        (s.Settles m → leak = 0)) := by
  cases m with
  | elsewhere other =>
      exact ⟨0, 0, ⟨hready, rfl, rfl, rfl⟩,
        fun hfalse => ⟨hfalse, fun _ => rfl⟩⟩
  | op id a =>
      rcases s.operate_cases id a with ⟨hnone, heq⟩ |
        ⟨t, rest, htarget, hbefore, hafter, howner⟩
      · have hrefs : s.refs (.op id a) = 0 := by simp [refs, hnone]
        have hsame : s.move (.op id a) = s := heq
        rw [hrefs, hsame]
        exact ⟨0, 0, ⟨hready, rfl, rfl, rfl⟩,
          fun hfalse => ⟨hfalse, fun _ => rfl⟩⟩
      · have hrefs : s.refs (.op id a) = t.refs s.owner a := by
          simp [refs, htarget]
        have hmove : s.move (.op id a) = s.operate id a := rfl
        have havail : t.AvailEmpty :=
          hready t (hbefore.mem_iff.mpr List.mem_cons_self)
        rcases LogTarget.op_accounts havail s.owner a with
          ⟨unrefs, leak, haccounts, hdeadlocked⟩
        rw [hrefs, hmove]
        refine ⟨unrefs, leak, ⟨?_, ?_, ?_⟩, ?_⟩
        · intro t' ht'
          rcases List.mem_cons.mp (hafter.mem_iff.mp ht') with rfl | hrest
          · exact havail.op s.owner a
          · exact hready t' (hbefore.mem_iff.mpr (List.mem_cons_of_mem _ hrest))
        · have hheld := haccounts.held
          have hsum := (hbefore.map LogTarget.held).sum_eq
          have hsum' := (hafter.map LogTarget.held).sum_eq
          rw [List.map_cons, List.sum_cons] at hsum hsum'
          unfold Logger.held
          omega
        · rw [howner]
          exact haccounts.count
        · rw [howner]
          intro hfalse
          rcases hdeadlocked hfalse with ⟨hbefore, hsettles⟩
          exact ⟨hbefore, fun hmoves => hsettles (hmoves t htarget)⟩

/-- The count covers what the targets hold. -/
structure Covered (s : Logger) : Prop where
  ready : s.BanksReady
  held : s.held ≤ s.owner.needGreaseThread
  sound : s.owner.unrefFailed = false

theorem Covered.move
    {s : Logger} (h : s.Covered) {m : Move}
    (hfits : s.owner.needGreaseThread + s.refs m < 2 ^ 32) :
    (s.move m).Covered := by
  rcases move_accounts h.ready m with ⟨unrefs, leak, haccounts, -⟩
  have hheld := haccounts.held
  have hcovers := h.held
  rcases Owner.refs_exact hfits with ⟨hneed, hfailed⟩
  have hle : unrefs ≤
      (Owner.refGreaseInGrease^[s.refs m] s.owner).needGreaseThread := by
    omega
  rcases Owner.unrefs_exact hle with ⟨hback, hsound⟩
  have hcount := haccounts.count.needGreaseThread
  unfold Owner.recount at hcount
  refine ⟨haccounts.ready, by omega, ?_⟩
  exact haccounts.count.unrefFailed.trans
    (hsound.trans (hfailed.trans h.sound))

/-- While the process is alive, the count is what the targets hold. -/
structure Settled (s : Logger) : Prop where
  ready : s.BanksReady
  range : s.owner.needGreaseThread < 2 ^ 32
  held : s.owner.deadlocked = false → s.owner.unrefFailed = false →
    s.owner.needGreaseThread ≡ s.held [MOD 2 ^ 32]

theorem Settled.move
    {s : Logger} (h : s.Settled) {m : Move} (hsettles : s.Settles m) :
    (s.move m).Settled := by
  rcases move_accounts h.ready m with
    ⟨unrefs, leak, haccounts, hdeadlocked⟩
  rcases Owner.refs_modEq (s.refs m) h.range with ⟨hlt, hmod, hfailed⟩
  set o := Owner.refGreaseInGrease^[s.refs m] s.owner with ho
  have hcount := haccounts.count.needGreaseThread
  have hsame := haccounts.count.unrefFailed
  unfold Owner.recount at hcount hsame
  rw [← ho] at hcount hsame
  refine ⟨haccounts.ready, ?_, ?_⟩
  · have hle : (Owner.unrefGreaseInGrease^[unrefs] o).needGreaseThread ≤
        o.needGreaseThread := Owner.unrefs_le o unrefs
    omega
  · intro halive hsound
    rw [hsame] at hsound
    rcases Owner.unrefs_of_not_failed hsound with ⟨hbefore, hle⟩
    rcases hdeadlocked halive with ⟨hwas, hleak⟩
    have hheld := h.held hwas (hfailed ▸ hbefore)
    have hback := (Owner.unrefs_exact hle).1
    have hnone := hleak hsettles
    have haccount := haccounts.held
    apply Nat.ModEq.add_right_cancel' unrefs
    rw [hcount, hback]
    refine hmod.trans ?_
    rw [show (s.move m).held + unrefs = s.held + s.refs m by omega]
    exact hheld.add_right _

/-! ## Runs -/

/-- A logger whose targets have not been used. -/
structure Unused (s : Logger) : Prop where
  ready : s.BanksReady
  quiet : ∀ t ∈ s.allTargets, t.Quiet
  need : s.owner.needGreaseThread = 0
  sound : s.owner.unrefFailed = false

/-- The count has room for the references of a move. -/
def CountFits (s : Logger) (m : Move) : Prop :=
  s.owner.needGreaseThread + s.refs m < 2 ^ 32

instance (s : Logger) (m : Move) : Decidable (s.CountFits m) :=
  inferInstanceAs (Decidable (_ < _))

theorem keepAlive_covers
    {s : Logger} (hunused : s.Unused) {moves : List Move}
    (hmeets : Run.Meets move CountFits s moves) :
    (Run.final move s moves).held ≤
        (Run.final move s moves).owner.needGreaseThread ∧
      (Run.final move s moves).owner.unrefFailed = false := by
  have hstart : s.Covered :=
    ⟨hunused.ready, by rw [s.held_eq_zero_iff.mpr hunused.quiet]; omega,
      hunused.sound⟩
  have hend := Run.final_invariant (I := Covered)
    (fun _ _ hcovered hfits => hcovered.move hfits) hstart hmeets
  exact ⟨hend.held, hend.sound⟩

/-- A logger with one target under this id. -/
def withTarget (id : TargetId) (t : LogTarget) : Logger :=
  (Logger.new 2000).setTarget id t

theorem unused_withTarget
    (kind : TargetKind) (bankSize : ℕ) (id : TargetId)
    (delim : Option (List UInt8)) (numBanks : ℕ) :
    (withTarget id (LogTarget.new kind bankSize id delim numBanks)).Unused := by
  set t := LogTarget.new kind bankSize id delim numBanks with ht
  have hall : ∀ t' ∈ (withTarget id t).allTargets, t' = t := by
    intro t' ht'
    unfold withTarget setTarget at ht'
    by_cases hid : id = 0
    · rw [if_pos hid] at ht'
      simpa [allTargets, Logger.new] using ht'
    · rw [if_neg hid] at ht'
      simpa [allTargets, Logger.new] using ht'
  have howner : (withTarget id t).owner = (Logger.new 2000).owner := by
    unfold withTarget setTarget
    split <;> rfl
  refine ⟨?_, ?_, by rw [howner]; rfl, by rw [howner]; rfl⟩
  · intro t' ht' b hb
    rw [hall t' ht', ht] at hb
    rcases List.mem_map.mp hb with ⟨n, -, rfl⟩
    rfl
  · intro t' ht'
    rw [hall t' ht']
    exact ⟨rfl, by simp [ht, LogTarget.new], by simp [ht, LogTarget.new], rfl⟩

def writeText (text : List UInt8) : TargetOp :=
  .write noFormatting 0 text (LogMeta.declare 0 1 0) Filter.empty

def ttyLogger : Logger := withTarget 0 (LogTarget.new .tty 2000 0 none 4)

theorem keepAlive_covers_flushed :
    let moves : List Move := [.op 0 (writeText [104]), .op 0 .rotate,
      .op 0 (.flush false), .op 0 (.completeWrite 0)]
    (Run.final move ttyLogger moves).held ≤
        (Run.final move ttyLogger moves).owner.needGreaseThread ∧
      (Run.final move ttyLogger moves).owner.unrefFailed = false := by
  intro moves
  refine keepAlive_covers (unused_withTarget .tty 2000 0 none 4)
    ⟨?_, ?_, ?_, ?_, trivial⟩ <;> decide +kernel

/-- The default target alone, unused, with the count at `n`. -/
structure AtCount (s : Logger) (n : ℕ) : Prop where
  defaultTarget : s.defaultTarget = some (LogTarget.new .tty 2000 0 none 4)
  targets : s.targets = ∅
  need : s.owner.needGreaseThread = n

theorem move_default
    {s : Logger} {t : LogTarget} (htarget : s.defaultTarget = some t)
    (a : TargetOp) :
    s.move (.op 0 a) = { s with
      defaultTarget := some (t.op s.owner a).1
      owner := (t.op s.owner a).2 } := by
  unfold move operate target? install setTarget
  dsimp only
  rw [if_pos rfl, htarget]
  rfl

theorem AtCount.writeNothing {s : Logger} {n : ℕ} (h : s.AtCount n) :
    (s.move (.op 0 (writeText []))).AtCount ((n + 1) % 2 ^ 32) := by
  rw [move_default h.defaultTarget (writeText []), ← h.need]
  exact ⟨rfl, h.targets, rfl⟩

theorem atCount_writeNothings (n : ℕ) :
    (Run.final move ttyLogger
      (List.replicate n (.op 0 (writeText [])))).AtCount (n % 2 ^ 32) := by
  induction n with
  | zero => exact ⟨rfl, rfl, rfl⟩
  | succ n ih =>
      rw [List.replicate_succ', Run.final_append]
      have hnext := ih.writeNothing
      rw [Nat.mod_add_mod] at hnext
      exact hnext

theorem AtCount.wraps {s : Logger} (h : s.AtCount (2 ^ 32 - 1)) :
    (Run.final move s [.op 0 (writeText [104])]).owner.needGreaseThread <
        (Run.final move s [.op 0 (writeText [104])]).held ∧
      (Run.final move s [.op 0 (writeText [104]), .op 0 .rotate,
        .op 0 (.flush false), .op 0 (.completeWrite 0)]).owner.unrefFailed =
        true := by
  simp only [Run.final_cons, Run.final_nil]
  have hwritten := move_default h.defaultTarget (writeText [104])
  set s₁ := s.move (.op 0 (writeText [104]))
  have hneed : s₁.owner.needGreaseThread = 0 := by
    rw [hwritten]
    have hone : (s.owner.needGreaseThread + 1) % 2 ^ 32 = 0 := by
      rw [h.need]
      norm_num
    exact hone
  have hheld : s₁.held = 1 := by
    rw [hwritten]
    unfold held allTargets
    rw [h.targets]
    rfl
  have hrotated := move_default (s := s₁) (by rw [hwritten]) .rotate
  set s₂ := s₁.move (.op 0 .rotate)
  have hflushed := move_default (s := s₂) (by rw [hrotated]) (.flush false)
  set s₃ := s₂.move (.op 0 (.flush false))
  have hdone := move_default (s := s₃) (by rw [hflushed]) (.completeWrite 0)
  have howner : s₃.owner = s₁.owner := by
    rw [hflushed, hrotated]
    rfl
  refine ⟨by omega, ?_⟩
  rw [hdone]
  have hunref : s₃.owner.unrefGreaseInGrease.unrefFailed = true := by
    unfold Owner.unrefGreaseInGrease
    rw [howner, if_pos hneed]
  exact hunref

theorem count_wraps_around :
    (Run.final move ttyLogger
        (List.replicate (2 ^ 32 - 1) (.op 0 (writeText [])) ++
          [.op 0 (writeText [104])])).owner.needGreaseThread <
      (Run.final move ttyLogger
        (List.replicate (2 ^ 32 - 1) (.op 0 (writeText [])) ++
          [.op 0 (writeText [104])])).held ∧
    (Run.final move ttyLogger
        (List.replicate (2 ^ 32 - 1) (.op 0 (writeText [])) ++
          [.op 0 (writeText [104]), .op 0 .rotate, .op 0 (.flush false),
            .op 0 (.completeWrite 0)])).owner.unrefFailed = true := by
  rw [Run.final_append, Run.final_append]
  exact (atCount_writeNothings (2 ^ 32 - 1)).wraps

/-- All banks of all targets are empty or returned and no overflow write is in
flight.  A bank whose `flushSync` hangs has not been returned, and a failed
assertion has ended the process. -/
structure AtRest (s : Logger) : Prop where
  quiet : ∀ t ∈ s.allTargets, t.Quiet
  returned : s.owner.deadlocked = false
  alive : s.owner.unrefFailed = false

theorem atRest_iff (s : Logger) :
    s.AtRest ↔ s.held = 0 ∧ s.owner.deadlocked = false ∧
      s.owner.unrefFailed = false := by
  rw [s.held_eq_zero_iff]
  exact ⟨fun h => ⟨h.quiet, h.returned, h.alive⟩,
    fun h => ⟨h.1, h.2.1, h.2.2⟩⟩

theorem keepAlive_released
    {s : Logger} (hunused : s.Unused) {moves : List Move}
    (hmeets : Run.Meets move Settles s moves)
    (hrest : (Run.final move s moves).AtRest) :
    (Run.final move s moves).owner.needGreaseThread = 0 := by
  have hzero := s.held_eq_zero_iff.mpr hunused.quiet
  have hstart : s.Settled := by
    refine ⟨hunused.ready, by rw [hunused.need]; norm_num, fun _ _ => ?_⟩
    rw [hunused.need, hzero]
  have hend := Run.final_invariant (I := Settled)
    (fun _ _ hsettled hsettles => hsettled.move hsettles) hstart hmeets
  have hmod := hend.held hrest.returned hrest.alive
  rw [(held_eq_zero_iff _).mpr hrest.quiet] at hmod
  exact Nat.eq_zero_of_dvd_of_lt (Nat.modEq_zero_iff_dvd.mp hmod) hend.range

theorem keepAlive_released_flushed :
    let moves : List Move := [.op 0 (writeText [104]), .op 0 .rotate,
      .op 0 (.flush false), .op 0 (.completeWrite 0)]
    (Run.final move ttyLogger moves).AtRest ∧
      (Run.final move ttyLogger moves).owner.needGreaseThread = 0 := by
  intro moves
  have hrest : (Run.final move ttyLogger moves).AtRest := by
    rw [atRest_iff]
    decide +kernel
  refine ⟨hrest, keepAlive_released (unused_withTarget .tty 2000 0 none 4)
    ⟨?_, ?_, ?_, ?_, trivial⟩ hrest⟩ <;> decide +kernel

/-- A message of length zero to the default target. -/
def emptyMessage : Logger := Run.final move ttyLogger [.op 0 (writeText [])]

/-- A file target with two banks: one is being written when the other is
rotated, cleared and lost. -/
def failedRotation : Logger :=
  Run.final move (withTarget 0 (LogTarget.new .file 2000 0 none 2))
    [.op 0 (writeText [104]), .op 0 .rotate, .op 0 (.flush false),
      .op 0 (writeText [105]), .op 0 .rotate, .op 0 (.completeWrite 0)]

/-- A message of 100 bytes does not go into the banks of 200 bytes. -/
def overflowMessage : Logger :=
  Run.final move (withTarget 1 (LogTarget.new .callback 200 1 none 4))
    [.op 1 (.writeOverflow noFormatting (SingleLog.ofText
      (List.replicate 100 97) (LogMeta.declare 0 1 0) 0) Filter.empty)]

/-- Each of the three ways to lose a reference leaves a count of one. -/
theorem references_lost :
    (emptyMessage.AtRest ∧ emptyMessage.owner.needGreaseThread = 1) ∧
      (failedRotation.AtRest ∧ failedRotation.owner.needGreaseThread = 1) ∧
      (overflowMessage.AtRest ∧
        overflowMessage.owner.needGreaseThread = 1) := by
  simp only [atRest_iff]
  decide +kernel

end Logger

end GreaseLog
