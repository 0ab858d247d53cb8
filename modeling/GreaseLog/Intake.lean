import GreaseLog.Logger

/-!
# Messages on their way to the queue

What `log` leaves on the command queue when the message is accepted and there
is room, and what the entry it queues says about the message.
-/

namespace GreaseLog

namespace SingleLog

@[simp] theorem setMeta_m
    (l : SingleLog) (m : LogMeta) (following : IgnoreList) :
    (l.setMeta m following).logMeta.m = m := by
  unfold setMeta
  split <;> rfl

@[simp] theorem setMeta_buf
    (l : SingleLog) (m : LogMeta) (following : IgnoreList) :
    (l.setMeta m following).buf = l.buf := by
  unfold setMeta
  split <;> rfl

@[simp] theorem setMeta_slot
    (l : SingleLog) (m : LogMeta) (following : IgnoreList) :
    (l.setMeta m following).slot = l.slot := by
  unfold setMeta
  split <;> rfl

/-- The entry ignores what the message ignores, whatever was in its ignore
list before. -/
theorem setMeta_ignores
    (l : SingleLog) (m : LogMeta) (following : IgnoreList) :
    (l.setMeta m following).logMeta.ignores =
      ExtraLogMeta.ignores ⟨m, following⟩ := by
  funext id
  unfold setMeta
  split
  · rfl
  · rename_i hignores
    have hnone : m.hasIgnores = false := by simpa using hignores
    simp [ExtraLogMeta.ignores, hnone]

end SingleLog

namespace HeapBuf

theorem text_memcpy
    {b : HeapBuf} {s : List UInt8} (hpos : 0 < b.len)
    (hfits : s.length ≤ b.len) :
    (b.memcpy s).text = s := by
  have hlen : b.len ≠ 0 := by omega
  unfold memcpy text poke
  rw [if_neg hlen]
  simp [Nat.min_eq_left hfits, List.take_of_length_le hfits]

end HeapBuf

namespace Logger

theorem enqueue_of_hasRoom
    {s : Logger} (hroom : s.owner.internalCmdQueue.hasRoom)
    (cmd : SingleLog → InternalCmdReq) (l : SingleLog) :
    ∃ queue, queue.items = s.owner.internalCmdQueue.items ++
        [cmd { l with seq := s.nextSeq }] ∧
      queue.capacity = s.owner.internalCmdQueue.capacity ∧
      s.enqueue cmd l = some { s with
        owner := { s.owner with internalCmdQueue := queue }
        nextSeq := s.nextSeq + 1 } := by
  rcases BoundedFifo.addIfRoom_of_hasRoom hroom
    (cmd { l with seq := s.nextSeq }) with ⟨queue, hadd, hitems, hcapacity⟩
  refine ⟨queue, hitems, hcapacity, ?_⟩
  unfold enqueue
  rw [hadd]

theorem log_fits
    {s : Logger} {m : LogMeta} (following : IgnoreList) {text : List UInt8}
    (haccept : (s.filters.sift s.opts m).1 = true)
    (hmax : text.length ≤ greaseMaxMessageSize)
    (hfits : text.length ≤ s.bufferSize)
    {l : SingleLog} {avail : BoundedFifo SingleLog}
    (hpool : s.masterBufferAvail.remove = some (l, avail))
    (hroom : s.owner.internalCmdQueue.hasRoom) :
    ∃ queue, queue.items = s.owner.internalCmdQueue.items ++
        [.newLog { fillMessage (s.filters.sift s.opts m).2 following text l
          with seq := s.nextSeq }] ∧
      queue.capacity = s.owner.internalCmdQueue.capacity ∧
      s.log m following text = { s with
        masterBufferAvail := avail
        owner := { s.owner with internalCmdQueue := queue }
        nextSeq := s.nextSeq + 1 } := by
  rcases enqueue_of_hasRoom (s := { s with masterBufferAvail := avail }) hroom
      .newLog (fillMessage (s.filters.sift s.opts m).2 following text l) with
    ⟨queue, hitems, hcapacity, henqueue⟩
  refine ⟨queue, hitems, hcapacity, ?_⟩
  have hgrab : s.grabInLogBuffer =
      some (l, { s with masterBufferAvail := avail }) := by
    unfold grabInLogBuffer
    rw [hpool]
  unfold log
  rw [if_neg (by omega)]
  simp only [haccept, if_true]
  unfold logEntry
  rw [if_neg (by omega), hgrab]
  simp only [henqueue, Option.getD_some]

/-- With entries of the right size in the pool, the one that is taken holds the
whole text. -/
theorem exists_log_fits
    {s : Logger} {m : LogMeta} (following : IgnoreList) {text : List UInt8}
    (haccept : (s.filters.sift s.opts m).1 = true)
    (hmax : text.length ≤ greaseMaxMessageSize)
    (hpos : 0 < s.bufferSize) (hfits : text.length ≤ s.bufferSize)
    (hbuffers : ∀ l ∈ s.masterBufferAvail.items, l.buf.len = s.bufferSize)
    (hpool : s.masterBufferAvail.items ≠ [])
    (hroom : s.owner.internalCmdQueue.hasRoom) :
    ∃ l avail queue,
      (fillMessage (s.filters.sift s.opts m).2 following text l).buf.text =
        text ∧
      queue.items = s.owner.internalCmdQueue.items ++
        [.newLog { fillMessage (s.filters.sift s.opts m).2 following text l
          with seq := s.nextSeq }] ∧
      s.log m following text = { s with
        masterBufferAvail := avail
        owner := { s.owner with internalCmdQueue := queue }
        nextSeq := s.nextSeq + 1 } := by
  cases hremove : s.masterBufferAvail.remove with
  | none => exact absurd (BoundedFifo.remove_eq_none_iff.mp hremove) hpool
  | some taken =>
      rcases taken with ⟨l, avail⟩
      have hlen : l.buf.len = s.bufferSize := by
        apply hbuffers l
        rw [(BoundedFifo.remove_eq_some hremove).1]
        simp
      have htext : (fillMessage (s.filters.sift s.opts m).2 following text
          l).buf.text = text := by
        simp only [fillMessage, SingleLog.setMeta_buf]
        exact HeapBuf.text_memcpy (by omega) (by omega)
      rcases log_fits following haccept hmax hfits hremove hroom with
        ⟨queue, hitems, -, hlog⟩
      exact ⟨l, avail, queue, htext, hitems, hlog⟩

theorem log_large
    {s : Logger} {m : LogMeta} (following : IgnoreList) {text : List UInt8}
    (haccept : (s.filters.sift s.opts m).1 = true)
    (hmax : text.length ≤ greaseMaxMessageSize)
    (hlarge : s.bufferSize < text.length)
    (hroom : s.owner.internalCmdQueue.hasRoom) :
    ∃ queue, queue.items = s.owner.internalCmdQueue.items ++
        [.writeTargetOverflow 0
          { largeMessage (s.filters.sift s.opts m).2 following text
            with seq := s.nextSeq }] ∧
      queue.capacity = s.owner.internalCmdQueue.capacity ∧
      s.log m following text = { s with
        owner := { s.owner with internalCmdQueue := queue }
        nextSeq := s.nextSeq + 1 } := by
  rcases enqueue_of_hasRoom hroom (.writeTargetOverflow 0)
      (largeMessage (s.filters.sift s.opts m).2 following text) with
    ⟨queue, hitems, hcapacity, henqueue⟩
  refine ⟨queue, hitems, hcapacity, ?_⟩
  unfold log
  rw [if_neg (by omega)]
  simp only [haccept, if_true]
  unfold logEntry
  rw [if_pos hlarge, henqueue, Option.getD_some]

theorem sifted_again
    {s : Logger} {m : LogMeta} {l : SingleLog}
    (haccept : (s.filters.sift s.opts m).1 = true)
    (hmeta : l.logMeta.m = (s.filters.sift s.opts m).2) :
    s.accepts l = true ∧ s.sifted l = l := by
  have hagain := s.filters.sift_sift haccept
  rw [← hmeta] at hagain
  unfold accepts sifted
  rw [hagain]
  exact ⟨rfl, rfl⟩

end Logger

end GreaseLog
