import GreaseLog.ExactlyOnce
import GreaseLog.MessageOrder

/-!
# Ignore lists

A message with extras brings an ignore list along, which lies behind its
metadata in memory.  `logP` leaves the metadata where it is, so that the entry
gets the list.  `log` copies the metadata alone, and the words that are found
behind the copy are whatever the stack holds; `grease_logLocal` is the same
call.  A message which a target finds too large goes back to the queue in an
entry without a list.

The runs below keep a record of the messages that were queued, with the ignore
lists their callers gave them.
-/

namespace GreaseLog

inductive EntryPoint where
  | log (stack : IgnoreList)
  | logP
  | greaseLogLocal (stack : IgnoreList)

/-- What the logger finds behind the metadata it sifts. -/
def EntryPoint.following (e : ExtraLogMeta) : EntryPoint → IgnoreList
  | .log stack => stack
  | .logP => e.ignoreList
  | .greaseLogLocal stack => stack

inductive SenderAct where
  | send (via : EntryPoint) (e : ExtraLogMeta) (text : List UInt8)
  | other (a : Logger.Act)

structure Recorded where
  logger : Logger
  sent : List (ℕ × ExtraLogMeta)

namespace Recorded

def step (r : Recorded) : SenderAct → Recorded
  | .send via e text =>
      let next := r.logger.log e.m (via.following e) text
      { logger := next
        sent :=
          if r.logger.nextSeq < next.nextSeq then
            r.sent ++ [(r.logger.nextSeq, e)]
          else r.sent }
  | .other a => { r with logger := r.logger.step a }

/-- No target has been given a message that was to be kept from it. -/
def IgnoresHonoured (r : Recorded) : Prop :=
  ∀ d ∈ r.logger.owner.delivered, ∀ x ∈ r.sent, x.1 = d.seq →
    x.2.ignores d.target = false

/-- Messages come in with their ignore list, and a message with an ignore list
is not too large for the banks of the targets it goes to. -/
def ListKept (r : Recorded) : SenderAct → Prop
  | .send via e _ => ∀ id, e.ignores id = true →
      ExtraLogMeta.ignores ⟨e.m, via.following e⟩ id = true
  | .other (.handle _) => ∀ l rest,
      r.logger.owner.internalCmdQueue.items = .newLog l :: rest →
        ∀ x ∈ r.sent, x.1 = l.seq → (∃ id, x.2.ignores id = true) →
          ¬r.logger.Overflows l
  | .other _ => True

end Recorded

namespace ExtraLogMeta

@[simp] theorem ignores_zero (e : ExtraLogMeta) : e.ignores 0 = false := by
  have hzero : (0 : TargetId) ∉ e.ignoredTargets := by
    intro hmem
    have hall : e.ignoredTargets.all (· != 0) = true := List.all_takeWhile
    simpa using List.all_eq_true.mp hall 0 hmem
  simp [ignores, hzero]

end ExtraLogMeta

namespace Logger

theorem enqueue_getD_queues
    {s fallback : Logger} (cmd : SingleLog → InternalCmdReq)
    (hcmd : ∀ l, (cmd l).message? = some l) (l : SingleLog)
    (hitems : fallback.owner.internalCmdQueue.items =
      s.owner.internalCmdQueue.items)
    (hnextSeq : fallback.nextSeq = s.nextSeq) :
    (((s.enqueue cmd l).getD fallback).owner.internalCmdQueue.items =
        s.owner.internalCmdQueue.items ∧
      ((s.enqueue cmd l).getD fallback).nextSeq = s.nextSeq) ∨
    ∃ c, ((s.enqueue cmd l).getD fallback).owner.internalCmdQueue.items =
        s.owner.internalCmdQueue.items ++ [c] ∧
      c.message? = some { l with seq := s.nextSeq } ∧
      ((s.enqueue cmd l).getD fallback).nextSeq = s.nextSeq + 1 := by
  cases henqueue : s.enqueue cmd l with
  | none => exact Or.inl ⟨hitems, hnextSeq⟩
  | some s' =>
      right
      unfold enqueue at henqueue
      split at henqueue
      · rename_i queue hadd
        have hadded := (BoundedFifo.addIfRoom_eq_some hadd).2.1
        rw [← Option.some.inj henqueue]
        exact ⟨_, hadded, hcmd _, rfl⟩
      · simp at henqueue

/-- A message that is queued ignores what the metadata it was logged with
ignores, together with the words behind it. -/
theorem log_queues
    (s : Logger) (m : LogMeta) (following : IgnoreList) (text : List UInt8) :
    ((s.log m following text).owner.internalCmdQueue.items =
        s.owner.internalCmdQueue.items ∧
      (s.log m following text).nextSeq = s.nextSeq) ∨
    ∃ c l, (s.log m following text).owner.internalCmdQueue.items =
        s.owner.internalCmdQueue.items ++ [c] ∧
      c.message? = some l ∧ l.seq = s.nextSeq ∧
      l.logMeta.ignores = ExtraLogMeta.ignores ⟨m, following⟩ ∧
      (s.log m following text).nextSeq = s.nextSeq + 1 := by
  have hignores : ExtraLogMeta.ignores
      ⟨(s.filters.sift s.opts m).2, following⟩ =
        ExtraLogMeta.ignores ⟨m, following⟩ := by
    have hextras := (s.filters.sift_frame s.opts m).2.2.2.2
    funext id
    simp [ExtraLogMeta.ignores, ExtraLogMeta.ignoredTargets,
      LogMeta.hasIgnores, hextras]
  unfold log
  split
  · exact Or.inl ⟨rfl, rfl⟩
  dsimp only
  split
  · unfold logEntry
    split
    · set l' := largeMessage (s.filters.sift s.opts m).2 following text
      rcases enqueue_getD_queues (s := s) (.writeTargetOverflow 0)
        (fun _ => rfl) l' rfl rfl with hsame | ⟨c, hitems, hmessage, hnextSeq⟩
      · exact Or.inl hsame
      · right
        refine ⟨c, _, hitems, hmessage, rfl, ?_, hnextSeq⟩
        rw [← hignores]
        exact SingleLog.setMeta_ignores _ _ _
    · unfold grabInLogBuffer
      cases hremove : s.masterBufferAvail.remove with
      | none => exact Or.inl ⟨rfl, rfl⟩
      | some taken =>
          rcases taken with ⟨l, avail⟩
          dsimp only
          set s' : Logger := { s with masterBufferAvail := avail }
          set l' := fillMessage (s.filters.sift s.opts m).2 following text l
          have hback : (s'.putBack l').owner = s'.owner ∧
              (s'.putBack l').nextSeq = s'.nextSeq := by
            unfold putBack
            split <;> exact ⟨rfl, rfl⟩
          rcases enqueue_getD_queues (s := s') .newLog (fun _ => rfl) l'
            (by rw [hback.1]) hback.2 with
            hsame | ⟨c, hitems, hmessage, hnextSeq⟩
          · exact Or.inl hsame
          · right
            refine ⟨c, _, hitems, hmessage, rfl, ?_, hnextSeq⟩
            rw [← hignores]
            exact SingleLog.setMeta_ignores _ _ _
  · exact Or.inl ⟨rfl, rfl⟩

theorem ignores_sifted (s : Logger) (l : SingleLog) :
    (s.sifted l).logMeta.ignores = l.logMeta.ignores := by
  funext id
  have hextras := (s.filters.sift_frame s.opts l.logMeta.m).2.2.2.2
  unfold sifted ExtraLogMeta.ignores LogMeta.hasIgnores
  rw [hextras]
  rfl

/-- The dispatch does not choose a target the message ignores. -/
theorem ignores_of_mem_dispatch
    {s : Logger} {l : SingleLog} {f : Filter} (hf : f ∈ s.dispatch l) :
    l.logMeta.ignores f.targetId = false := by
  rw [← s.ignores_sifted l]
  unfold dispatch FilterTable.dispatch at hf
  split at hf
  · rw [List.mem_singleton.mp hf]
    exact ExtraLogMeta.ignores_zero _
  · rcases List.mem_flatMap.mp hf with ⟨p, -, hp⟩
    split at hp
    · unfold FilterList.routes at hp
      split at hp
      · have hselects := (List.mem_filter.mp hp).2
        simp only [Filter.selects, Bool.and_eq_true, Bool.or_eq_true,
          beq_iff_eq, Bool.not_eq_true'] at hselects
        rcases hselects.2 with hzero | hkept
        · rw [hzero]
          exact ExtraLogMeta.ignores_zero _
        · exact hkept.1
      · simp at hp
    · simp at hp

end Logger

namespace Recorded

variable {s s' : Logger} {sent : List (ℕ × ExtraLogMeta)}

/-- Every message on the queue still ignores what its caller wanted it to
ignore.  Numbers on record, on the queue and among the deliveries have been
given out already. -/
structure Keeps (r : Recorded) : Prop where
  filed : r.logger.Filed
  honoured : r.IgnoresHonoured
  queued : ∀ c ∈ r.logger.owner.internalCmdQueue.items, ∀ l,
    c.message? = some l → ∀ x ∈ r.sent, x.1 = l.seq →
      ∀ id, x.2.ignores id = true → l.logMeta.ignores id = true
  queuedBefore : ∀ c ∈ r.logger.owner.internalCmdQueue.items, ∀ l,
    c.message? = some l → l.seq < r.logger.nextSeq
  sentBefore : ∀ x ∈ r.sent, x.1 < r.logger.nextSeq
  deliveredBefore : ∀ d ∈ r.logger.owner.delivered, d.seq < r.logger.nextSeq

theorem Keeps.of_subset
    (h : Keeps ⟨s, sent⟩) (hfiled : s'.Filed)
    (hitems : s'.owner.internalCmdQueue.items ⊆
      s.owner.internalCmdQueue.items)
    (hdelivered : s'.owner.delivered = s.owner.delivered)
    (hnextSeq : s'.nextSeq = s.nextSeq) :
    Keeps ⟨s', sent⟩ := by
  refine ⟨hfiled, ?_, ?_, ?_, ?_, ?_⟩ <;>
    simp only [IgnoresHonoured, hdelivered, hnextSeq]
  · exact h.honoured
  · exact fun c hc => h.queued c (hitems hc)
  · exact fun c hc => h.queuedBefore c (hitems hc)
  · exact h.sentBefore
  · exact h.deliveredBefore

/-- One more message on the queue, under a new number.  If it is put on record
it has to ignore what is recorded. -/
theorem Keeps.of_queued
    (h : Keeps ⟨s, sent⟩) (hfiled : s'.Filed)
    {c : InternalCmdReq} {l : SingleLog}
    (hitems : s'.owner.internalCmdQueue.items =
      s.owner.internalCmdQueue.items ++ [c])
    (hmessage : c.message? = some l) (hseq : l.seq = s.nextSeq)
    (hdelivered : s'.owner.delivered = s.owner.delivered)
    (hnextSeq : s'.nextSeq = s.nextSeq + 1)
    (added : List (ℕ × ExtraLogMeta))
    (hadded : ∀ x ∈ added, x.1 = s.nextSeq ∧
      ∀ id, x.2.ignores id = true → l.logMeta.ignores id = true) :
    Keeps ⟨s', sent ++ added⟩ := by
  have hbefore : ∀ x ∈ sent, x.1 < s.nextSeq := h.sentBefore
  refine ⟨hfiled, ?_, ?_, ?_, ?_, ?_⟩ <;>
    simp only [IgnoresHonoured, hitems, hdelivered, hnextSeq]
  · intro d hd x hx hxseq
    have hdseq : d.seq < s.nextSeq := h.deliveredBefore d hd
    rcases List.mem_append.mp hx with hold | hnew
    · exact h.honoured d hd x hold hxseq
    · have hnumber := (hadded x hnew).1
      omega
  · intro c' hc' l' hmessage' x hx hxseq
    rcases List.mem_append.mp hc' with hqueued | hlast
    · rcases List.mem_append.mp hx with hold | hnew
      · exact h.queued c' hqueued l' hmessage' x hold hxseq
      · have hnumber := (hadded x hnew).1
        have hl' : l'.seq < s.nextSeq := h.queuedBefore c' hqueued l' hmessage'
        omega
    · rw [List.mem_singleton.mp hlast, hmessage] at hmessage'
      rw [← Option.some.inj hmessage'] at hxseq ⊢
      rcases List.mem_append.mp hx with hold | hnew
      · have hnumber := hbefore x hold
        omega
      · exact (hadded x hnew).2
  · intro c' hc' l' hmessage'
    rcases List.mem_append.mp hc' with hqueued | hlast
    · exact Nat.lt_succ_of_lt (h.queuedBefore c' hqueued l' hmessage')
    · rw [List.mem_singleton.mp hlast, hmessage] at hmessage'
      rw [← Option.some.inj hmessage']
      omega
  · intro x hx
    rcases List.mem_append.mp hx with hold | hnew
    · exact Nat.lt_succ_of_lt (hbefore x hold)
    · have hnumber := (hadded x hnew).1
      omega
  · exact fun d hd => Nat.lt_succ_of_lt (h.deliveredBefore d hd)

theorem filed_of_takes (hfiled : s.Filed) (htakes : s.Takes s') : s'.Filed := by
  intro id t htarget
  rw [htakes.targets id] at htarget
  exact hfiled id t htarget

theorem delivered_of_takes (htakes : s.Takes s') :
    s'.owner.delivered = s.owner.delivered := by
  rcases htakes.owner with ⟨queue, howner, -⟩
  rw [howner]

/-- A message that is not on record may come in with any ignore list. -/
theorem Keeps.of_takes (h : Keeps ⟨s, sent⟩) (htakes : s.Takes s') :
    Keeps ⟨s', sent⟩ := by
  have hfiled := filed_of_takes h.filed htakes
  have hdelivered := delivered_of_takes htakes
  rcases htakes.owner with ⟨queue, howner, ⟨hitems, hnextSeq⟩ |
    ⟨c, l, hitems, hmessage, hseq, hnextSeq⟩⟩
  · apply h.of_subset hfiled _ hdelivered hnextSeq
    rw [howner]
    intro c hc
    rw [← hitems]
    exact hc
  · have hkeeps := h.of_queued hfiled (by rw [howner]; exact hitems) hmessage
      hseq hdelivered hnextSeq [] (by simp)
    rw [List.append_nil] at hkeeps
    exact hkeeps

theorem Keeps.send
    {r : Recorded} (h : r.Keeps) {via : EntryPoint} {e : ExtraLogMeta}
    {text : List UInt8} (hlist : r.ListKept (.send via e text)) :
    (r.step (.send via e text)).Keeps := by
  rcases r with ⟨s, sent⟩
  have htakes := s.takes_log e.m (via.following e) text
  have hfiled := filed_of_takes h.filed htakes
  have hdelivered := delivered_of_takes htakes
  unfold step
  dsimp only
  rcases s.log_queues e.m (via.following e) text with ⟨hitems, hnextSeq⟩ |
    ⟨c, l, hitems, hmessage, hseq, hignores, hnextSeq⟩
  · rw [if_neg (by omega)]
    apply h.of_subset hfiled _ hdelivered hnextSeq
    rw [hitems]
    exact List.Subset.refl _
  · rw [if_pos (by omega)]
    apply h.of_queued hfiled hitems hmessage hseq hdelivered hnextSeq
    intro x hx
    rw [List.mem_singleton.mp hx]
    refine ⟨rfl, ?_⟩
    intro id hid
    rw [hignores]
    exact hlist id hid

/-! ## Commands -/

/-- The act does not give a recorded message to a target it ignores, nor does
it send a message with an ignore list round. -/
def Spares (sent : List (ℕ × ExtraLogMeta)) (s : Logger) (id : TargetId) :
    TargetAct → Prop
  | .write seq text m filter =>
      seq < s.nextSeq ∧ ∀ x ∈ sent, x.1 = seq → x.2.ignores id = false ∧
        (s.SendsRound id (.write seq text m filter) →
          ∀ id', x.2.ignores id' = false)
  | .writeOverflow l _ =>
      l.seq < s.nextSeq ∧ ∀ x ∈ sent, x.1 = l.seq → x.2.ignores id = false
  | _ => True

theorem Spares.delivery
    {id : TargetId} {a : TargetAct} (hspares : Spares sent s id a)
    {t : LogTarget} (hmyId : t.myId = id) {d : Delivery}
    (hd : t.delivery? a = some d) :
    d.seq < s.nextSeq ∧
      ∀ x ∈ sent, x.1 = d.seq → x.2.ignores d.target = false := by
  cases a with
  | write seq text m filter =>
      rw [← Option.some.inj hd]
      dsimp only
      rw [hmyId]
      exact ⟨hspares.1, fun x hx hseq => (hspares.2 x hx hseq).1⟩
  | writeOverflow l filter =>
      rw [← Option.some.inj hd]
      dsimp only
      rw [hmyId]
      exact ⟨hspares.1, hspares.2⟩
  | _ => simp [LogTarget.delivery?] at hd

theorem Spares.message
    {id : TargetId} {a : TargetAct} (hspares : Spares sent s id a)
    {env : Formatting} {t : LogTarget} (hacts : s.Acts s' env id a t)
    {c : InternalCmdReq} (hasks : t.Asks env a c) {l : SingleLog}
    (hmessage : c.message? = some l) :
    l.seq < s.nextSeq ∧
      ∀ x ∈ sent, x.1 = l.seq → ∀ id', x.2.ignores id' = false := by
  rcases hacts.sendsRound hasks hmessage with ⟨text, m, filter, rfl, hround⟩
  exact ⟨hspares.1, fun x hx hseq => (hspares.2 x hx hseq).2 hround⟩

theorem Keeps.perform
    (h : Keeps ⟨s, sent⟩) (env : Formatting) (id : TargetId) {a : TargetAct}
    (hspares : Spares sent s id a) :
    Keeps ⟨s.perform env id a, sent⟩ := by
  rcases s.perform_cases env id a with ⟨-, heq⟩ | ⟨t, hacts⟩
  · rw [heq]
    exact h
  have hmyId : t.myId = id := h.filed id t hacts.before
  have hnextSeq : (s.perform env id a).nextSeq = s.nextSeq :=
    hacts.intake.nextSeq
  refine ⟨h.filed.perform env id a, ?_, ?_, ?_, ?_, ?_⟩ <;>
    simp only [IgnoresHonoured, hnextSeq]
  · intro d hd x hx hxseq
    rcases hacts.mem_delivered hd with hold | hnew
    · exact h.honoured d hold x hx hxseq
    · exact (hspares.delivery hmyId hnew).2 x hx hxseq
  · intro c hc l hmessage x hx hxseq id' hid'
    rcases hacts.mem_queue hc with hold | hasks
    · exact h.queued c hold l hmessage x hx hxseq id' hid'
    · rw [(hspares.message hacts hasks hmessage).2 x hx hxseq id'] at hid'
      simp at hid'
  · intro c hc l hmessage
    rcases hacts.mem_queue hc with hold | hasks
    · exact h.queuedBefore c hold l hmessage
    · exact (hspares.message hacts hasks hmessage).1
  · exact h.sentBefore
  · intro d hd
    rcases hacts.mem_delivered hd with hold | hnew
    · exact h.deliveredBefore d hold
    · exact (hspares.delivery hmyId hnew).1

/-- The dispatch gives a queued message only to targets that it may go to. -/
theorem Keeps.spares_dispatch
    (h : Keeps ⟨s, sent⟩) {c : InternalCmdReq} {l : SingleLog}
    (hc : c ∈ s.owner.internalCmdQueue.items) (hmessage : c.message? = some l)
    {f : Filter} (hf : f ∈ s.dispatch l) :
    ∀ x ∈ sent, x.1 = l.seq → x.2.ignores f.targetId = false := by
  intro x hx hxseq
  cases hignored : x.2.ignores f.targetId with
  | false => rfl
  | true =>
      have hlist := h.queued c hc l hmessage x hx hxseq _ hignored
      rw [Logger.ignores_of_mem_dispatch hf] at hlist
      exact hlist.symm

theorem Keeps.newLog
    (h : Keeps ⟨s, sent⟩) (env : Formatting) {l : SingleLog}
    (hseq : l.seq < s.nextSeq)
    (hspared : ∀ f ∈ s.dispatch l, ∀ x ∈ sent, x.1 = l.seq →
      x.2.ignores f.targetId = false)
    (hround : ∀ x ∈ sent, x.1 = l.seq → (∃ id, x.2.ignores id = true) →
      ¬s.Overflows l) :
    Keeps ⟨s.performAll env (s.cmdActs (.newLog l)), sent⟩ := by
  set P : Logger → Prop := fun s' => Keeps ⟨s', sent⟩ ∧
    s'.nextSeq = s.nextSeq ∧ s.SameSwitches s'
  have hstart : P s := ⟨h, rfl, fun id t htarget => ⟨t, htarget, rfl, rfl⟩⟩
  have hact : ∀ s', P s' → ∀ a ∈ s.cmdActs (.newLog l),
      P (s'.perform env a.1 a.2) := by
    rintro s' ⟨hkeeps, hnextSeq, hswitches⟩ a ha
    rcases Logger.mem_cmdActs ha with ⟨l', f, hl', haccept, hf, rfl⟩ |
      ⟨d, heq, -⟩ | ⟨d, l', f, heq, -⟩ | heq
    · rcases hl' with ⟨⟩
      have hspares : Spares sent s' f.targetId
          (.write l.seq l.buf.text (s.sifted l).logMeta.m f) := by
        refine ⟨by omega, ?_⟩
        intro x hx hxseq
        refine ⟨hspared f hf x hx hxseq, ?_⟩
        rintro ⟨t, seq, text, m, filter, htarget, hact, hon, hover⟩ id'
        rcases hact with ⟨⟩
        -- the target was enabled and too small before the writes began
        rcases hswitches _ t htarget with ⟨t₀, hbefore, hdisabled, hsize⟩
        have hoverflows : s.Overflows l := by
          refine ⟨haccept, f, hf, t₀, hbefore, hdisabled.trans hon, ?_⟩
          unfold LogTarget.oversize at hover ⊢
          rw [hsize]
          exact hover
        cases hignored : x.2.ignores id' with
        | false => rfl
        | true => exact absurd hoverflows (hround x hx hxseq ⟨id', hignored⟩)
      refine ⟨hkeeps.perform env f.targetId hspares, ?_,
        hswitches.perform_write env _ _ _ _ _⟩
      rw [(s'.sameIntake_perform env f.targetId _).nextSeq]
      exact hnextSeq
    · simp at heq
    · simp at heq
    · simp at heq
  exact (Logger.performAll_invariant hact hstart).1

theorem Keeps.writeTargetOverflow
    (h : Keeps ⟨s, sent⟩) (env : Formatting) (d : TargetId) {l : SingleLog}
    (hseq : l.seq < s.nextSeq)
    (hspared : ∀ f ∈ s.dispatch l, ∀ x ∈ sent, x.1 = l.seq →
      x.2.ignores f.targetId = false) :
    Keeps ⟨s.performAll env (s.cmdActs (.writeTargetOverflow d l)), sent⟩ := by
  set P : Logger → Prop := fun s' => Keeps ⟨s', sent⟩ ∧
    s'.nextSeq = s.nextSeq
  have hact : ∀ s', P s' → ∀ a ∈ s.cmdActs (.writeTargetOverflow d l),
      P (s'.perform env a.1 a.2) := by
    rintro s' ⟨hkeeps, hnextSeq⟩ a ha
    have hspares : Spares sent s' a.1 a.2 := by
      rcases Logger.mem_cmdActs ha with ⟨l', f, heq, -⟩ | ⟨d, heq, -⟩ |
        ⟨d, l', f, hl', haccept, hf, rfl | rfl⟩ | heq
      · simp at heq
      · simp at heq
      · trivial
      · rcases hl' with ⟨⟩
        have hnumber : l.seq < s'.nextSeq := by omega
        exact ⟨hnumber, hspared f hf⟩
      · simp at heq
    refine ⟨hkeeps.perform env a.1 hspares, ?_⟩
    rw [(s'.sameIntake_perform env a.1 _).nextSeq]
    exact hnextSeq
  exact (Logger.performAll_invariant hact (P := P) ⟨h, rfl⟩).1

theorem Keeps.silent
    (h : Keeps ⟨s, sent⟩) (env : Formatting)
    {acts : List (TargetId × TargetAct)}
    (hsilent : ∀ a ∈ acts, ∀ s id, Spares sent s id a.2) :
    Keeps ⟨s.performAll env acts, sent⟩ :=
  Logger.performAll_invariant (P := fun s' => Keeps ⟨s', sent⟩)
    (fun s' hs' a ha => hs'.perform env a.1 (hsilent a ha s' a.1)) h

theorem Keeps.handle
    (h : Keeps ⟨s, sent⟩) {env : Formatting}
    (hlist : ListKept ⟨s, sent⟩ (.other (.handle env))) :
    Keeps ⟨s.handleInternalCmd env, sent⟩ := by
  rcases s.handleInternalCmd_cases env with ⟨-, heq⟩ | ⟨c, queue, hitems, -, heq⟩
  · rw [heq]
    exact h
  rw [heq]
  have hc : c ∈ s.owner.internalCmdQueue.items := by simp [hitems]
  have htail : queue.items ⊆ s.owner.internalCmdQueue.items := by
    rw [hitems]
    exact List.subset_cons_self c queue.items
  set s₀ : Logger := { s.withQueue queue with
    strayed := s.strayed || (s.withQueue queue).cmdStrays c }
  have h₀ : Keeps ⟨s₀, sent⟩ := h.of_subset h.filed htail rfl rfl
  refine Keeps.of_takes ?_ (Logger.takes_finishCmd _ c)
  cases c with
  | newLog l =>
      have hseq : l.seq < s.nextSeq := h.queuedBefore _ hc l rfl
      have hspared : ∀ f ∈ s₀.dispatch l, ∀ x ∈ sent, x.1 = l.seq →
          x.2.ignores f.targetId = false :=
        fun f hf => h.spares_dispatch hc rfl hf
      exact h₀.newLog env hseq hspared (hlist l queue.items hitems)
  | targetRotateBuffer d =>
      apply h₀.silent env
      intro a ha _ _
      rw [List.mem_singleton.mp ha]
      trivial
  | writeTargetOverflow d l =>
      have hseq : l.seq < s.nextSeq := h.queuedBefore _ hc l rfl
      have hspared : ∀ f ∈ s₀.dispatch l, ∀ x ∈ sent, x.1 = l.seq →
          x.2.ignores f.targetId = false :=
        fun f hf => h.spares_dispatch hc rfl hf
      exact h₀.writeTargetOverflow env d hseq hspared
  | internalShutdown =>
      apply h₀.silent env
      intro a ha _ _
      rcases List.mem_cons.mp ha with rfl | hrest
      · trivial
      · rcases List.mem_map.mp hrest with ⟨id, -, rfl⟩
        trivial

theorem Keeps.step
    {r : Recorded} (h : r.Keeps) {a : SenderAct} (hlist : r.ListKept a) :
    (r.step a).Keeps := by
  rcases r with ⟨s, sent⟩
  cases a with
  | send via e text => exact h.send hlist
  | other a =>
      cases a with
      | log m following text => exact h.of_takes (s.takes_log m following text)
      | redirect r d data => exact h.of_takes (s.takes_redirect r d data)
      | klog mem start remain => exact h.of_takes (s.takes_klog mem start remain)
      | handle env => exact h.handle hlist
      | flushTimer id nocallbacks => exact h.perform _ id trivial
      | completeWrite id i => exact h.perform _ id trivial
      | completeOverflow id i => exact h.perform _ id trivial
      | callV8LogCallbacks =>
          unfold Recorded.step Logger.step Logger.callV8LogCallbacks
          dsimp only
          split
          · exact h
          · rename_i data callbacks _
            cases data with
            | bank id b =>
                exact h.of_subset h.filed (List.Subset.refl _) rfl rfl
            | overflow id bufs =>
                exact h.of_subset h.filed (List.Subset.refl _) rfl rfl
      | cleanup j =>
          unfold Recorded.step Logger.step Logger.cleanupGreaseLibBuf
          dsimp only
          split
          · exact h
          · have herased : Keeps ⟨{ s with owner := { s.owner with
                userBufs := s.owner.userBufs.eraseIdx j } }, sent⟩ :=
              h.of_subset h.filed (List.Subset.refl _) rfl rfl
            split
            · split
              · unfold Logger.returnBufferToTarget
                split
                · exact herased.perform _ _ trivial
                · exact herased
              · exact herased
            · exact herased
      | filter c => exact h.of_subset h.filed (List.Subset.refl _) rfl rfl
      | disableTarget id v => exact h.perform _ id trivial
      | setCallback id => exact h.perform _ id trivial

/-- A logger which has not been given anything to deliver. -/
structure Starting (s : Logger) : Prop where
  filed : s.Filed
  queue : s.owner.internalCmdQueue.items = []
  delivered : s.owner.delivered = []

/-- In a run in which messages come in with their ignore lists, and messages
with an ignore list are not too large for the banks of their targets, no
target gets a message that was to be kept from it. -/
theorem ignores_honoured
    {s : Logger} (hstart : Starting s) {acts : List SenderAct}
    (hkept : Run.Meets step ListKept ⟨s, []⟩ acts) :
    (Run.final step ⟨s, []⟩ acts).IgnoresHonoured := by
  have hinit : Keeps ⟨s, []⟩ := by
    refine ⟨hstart.filed, ?_, ?_, ?_, ?_, ?_⟩
    · simp [IgnoresHonoured, hstart.delivered]
    · simp [hstart.queue]
    · simp [hstart.queue]
    · simp
    · simp [hstart.delivered]
  have hstep : ∀ r a, Keeps r → r.ListKept a → Keeps (r.step a) :=
    fun _ _ hkeeps hlist => hkeeps.step hlist
  exact (Run.final_invariant hstep hinit hkept).honoured

instance (r : Recorded) : Decidable r.IgnoresHonoured :=
  inferInstanceAs (Decidable (∀ d ∈ _, ∀ x ∈ _, _ → _))

def keptFromFirst : ExtraLogMeta where
  m := { LogMeta.declare 0 1 0 with extras := 1 }
  ignoreList := #v[1, 0, 0, 0, 0, 0, 0, 0, 0, 0, 0]

theorem twoTargets_starting : Starting Logger.twoTargets :=
  ⟨Logger.twoTargets_idle.filed, rfl, rfl⟩

/-- Target 1 gets a message that is to be kept from it: a short one through
`log`, and one through `logP` which is too large for the banks. -/
theorem ignored_target_served :
    Starting Logger.twoTargets ∧
      ¬(Run.final step ⟨Logger.twoTargets, []⟩
        [.send (.log noIgnoreList) keptFromFirst [104],
          .other (.handle Logger.noFormatting)]).IgnoresHonoured ∧
      ¬(Run.final step ⟨Logger.twoTargets, []⟩
        [.send .logP keptFromFirst (List.replicate 1900 97),
          .other (.handle Logger.noFormatting),
          .other (.handle Logger.noFormatting)]).IgnoresHonoured := by
  refine ⟨twoTargets_starting, ?_, ?_⟩
  · decide +kernel
  · decide +kernel

theorem not_overflows
    {s : Logger} {l : SingleLog}
    (hsmall : ((s.dispatch l).all
      fun f => !s.tooLarge l.buf.text f) = true) :
    ¬s.Overflows l := by
  rintro ⟨-, f, hf, t, htarget, -, hover⟩
  have hfits := List.all_eq_true.mp hsmall f hf
  unfold Logger.tooLarge Logger.bankSize? at hfits
  unfold LogTarget.oversize at hover
  simp [htarget] at hfits
  omega

theorem ignores_honoured_short :
    Starting Logger.twoTargets ∧
      (Run.final step ⟨Logger.twoTargets, []⟩
        [.send .logP keptFromFirst [104],
          .other (.handle Logger.noFormatting)]).IgnoresHonoured := by
  refine ⟨twoTargets_starting, ignores_honoured twoTargets_starting
    ⟨fun id hid => hid, ?_, trivial⟩⟩
  intro l rest hitems x _ _ _
  apply not_overflows
  have hall : ((Run.final step ⟨Logger.twoTargets, []⟩
      [.send .logP keptFromFirst
        [104]]).logger.owner.internalCmdQueue.items.head?.bind
        InternalCmdReq.newLog?).all (fun l =>
      ((Run.final step ⟨Logger.twoTargets, []⟩
        [.send .logP keptFromFirst [104]]).logger.dispatch l).all fun f =>
          !(Run.final step ⟨Logger.twoTargets, []⟩ [.send .logP keptFromFirst
            [104]]).logger.tooLarge l.buf.text f) = true := by
    decide +kernel
  change (Run.final step ⟨Logger.twoTargets, []⟩ [.send .logP keptFromFirst
    [104]]).logger.owner.internalCmdQueue.items = _ at hitems
  rw [hitems] at hall
  exact hall

end Recorded

end GreaseLog
