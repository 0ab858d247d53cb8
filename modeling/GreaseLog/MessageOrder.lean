import GreaseLog.LoggerSteps
import GreaseLog.Run

/-!
# Messages reach a target in order

Messages are numbered in the order in which they are put on the command queue.
What a target holds is read as a stream of these numbers: first what it handed
to its output, then the banks that wait, then the current one.  A target only
ever cuts its stream or continues it with the message being processed, so the
numbers stay sorted as long as commands come off the queue in order.

The one command that does not is the overflow of a message that is too large
for the banks of a target: `write` puts it at the end of the queue, behind
messages that came later.  Runs in which such a message is processed while no
other message waits keep every target in order.
-/

namespace GreaseLog

/-! ## Streams of message numbers -/

/-- `ys` is part of `xs`, continued with copies of `k`. -/
def Continues (k : ℕ) (xs ys : List ℕ) : Prop :=
  ∃ kept added, ys = kept ++ added ∧ kept.Sublist xs ∧ ∀ x ∈ added, x = k

namespace Continues

variable {k : ℕ} {xs ys zs : List ℕ}

theorem of_sublist (h : ys.Sublist xs) : Continues k xs ys :=
  ⟨ys, [], by simp, h, by simp⟩

theorem refl (k : ℕ) (xs : List ℕ) : Continues k xs xs :=
  of_sublist (List.Sublist.refl xs)

theorem trans (h : Continues k xs ys) (h' : Continues k ys zs) :
    Continues k xs zs := by
  rcases h with ⟨kept, added, rfl, hkept, hadded⟩
  rcases h' with ⟨kept', added', rfl, hkept', hadded'⟩
  rcases List.sublist_append_iff.mp hkept' with ⟨old, new, rfl, hold, hnew⟩
  refine ⟨old, new ++ added', by simp, hold.trans hkept, ?_⟩
  intro x hx
  rcases List.mem_append.mp hx with hx | hx
  · exact hadded x (hnew.subset hx)
  · exact hadded' x hx

theorem append_left (h : Continues k xs ys) (zs : List ℕ) :
    Continues k (zs ++ xs) (zs ++ ys) := by
  rcases h with ⟨kept, added, rfl, hkept, hadded⟩
  exact ⟨zs ++ kept, added, by simp, hkept.append_left zs, hadded⟩

theorem le (h : Continues k xs ys) (hxs : ∀ x ∈ xs, x ≤ k) :
    ∀ y ∈ ys, y ≤ k := by
  rcases h with ⟨kept, added, rfl, hkept, hadded⟩
  intro y hy
  rcases List.mem_append.mp hy with hy | hy
  · exact hxs y (hkept.subset hy)
  · exact (hadded y hy).le

theorem sorted (h : Continues k xs ys) (hsorted : xs.Pairwise (· ≤ ·))
    (hxs : ∀ x ∈ xs, x ≤ k) : ys.Pairwise (· ≤ ·) := by
  rcases h with ⟨kept, added, rfl, hkept, hadded⟩
  refine List.pairwise_append.mpr ⟨hsorted.sublist hkept, ?_, ?_⟩
  · exact List.pairwise_of_forall_mem_list fun x hx y hy => by
      rw [hadded x hx, hadded y hy]
  · intro x hx y hy
    rw [hadded y hy]
    exact hxs x (hkept.subset hx)

end Continues

def seqsOf (pieces : List Piece) : List ℕ :=
  (pieces.filter fun p => p.bytes ≠ []).map Piece.seq

def Handed.seqs : Handed → List ℕ
  | .bank data => seqsOf data
  | .overflow bufs => bufs.map SingleLog.seq

@[simp] theorem seqsOf_nil : seqsOf [] = [] := rfl

theorem seqsOf_append (xs ys : List Piece) :
    seqsOf (xs ++ ys) = seqsOf xs ++ seqsOf ys := by
  simp [seqsOf]

theorem seqsOf_cons (p : Piece) (pieces : List Piece) :
    seqsOf (p :: pieces) =
      (if p.bytes = [] then [] else [p.seq]) ++ seqsOf pieces := by
  by_cases hempty : p.bytes = [] <;> simp [seqsOf, hempty]

theorem seqsOf_eq_nil {pieces : List Piece} (hempty : bytesOf pieces = []) :
    seqsOf pieces = [] := by
  unfold bytesOf at hempty
  rw [List.flatMap_eq_nil_iff] at hempty
  simpa [seqsOf, List.filter_eq_nil_iff] using hempty

theorem seqsOf_takeBytes (n : ℕ) (pieces : List Piece) :
    (seqsOf (takeBytes n pieces)).Sublist (seqsOf pieces) := by
  induction pieces generalizing n with
  | nil => simp [takeBytes]
  | cons p rest ih =>
      unfold takeBytes
      split
      · exact List.nil_sublist _
      · rw [seqsOf_cons, seqsOf_cons]
        apply List.Sublist.append _ (ih _)
        by_cases hempty : p.bytes = []
        · simp [hempty]
        · rw [if_neg hempty]
          split
          · exact List.nil_sublist _
          · exact List.Sublist.refl _

theorem continues_append {seq : ℕ} {data added : List Piece}
    (hadded : ∀ p ∈ added, p.seq = seq) :
    Continues seq (seqsOf data) (seqsOf (data ++ added)) := by
  refine ⟨seqsOf data, seqsOf added, seqsOf_append data added,
    List.Sublist.refl _, ?_⟩
  intro x hx
  rcases List.mem_map.mp hx with ⟨p, hp, rfl⟩
  exact hadded p (List.mem_of_mem_filter hp)

namespace LogBuf

theorem seq_of_mem_delimPiece
    {b : LogBuf} {seq : ℕ} {useDelim : Bool} {p : Piece}
    (hp : p ∈ b.delimPiece seq useDelim) : p.seq = seq := by
  unfold delimPiece at hp
  split at hp
  · split at hp
    · rw [List.mem_singleton.mp hp]
    · simp at hp
  · simp at hp

theorem continues_copyIn
    (b : LogBuf) (seq : ℕ) (s : List UInt8) (useDelim : Bool) :
    Continues seq (seqsOf b.data) (seqsOf (b.copyIn seq s useDelim).data) := by
  unfold copyIn
  split
  · exact Continues.refl seq _
  · split
    · exact Continues.of_sublist (seqsOf_takeBytes _ _)
    · apply continues_append
      intro p hp
      rcases List.mem_cons.mp hp with rfl | hp
      · rfl
      · exact seq_of_mem_delimPiece hp

theorem continues_copyInJsonEscape
    (b : LogBuf) (jsonEscape : ℕ → List UInt8 → List UInt8) (seq : ℕ)
    (s : List UInt8) (useDelim : Bool) :
    Continues seq (seqsOf b.data)
      (seqsOf (b.copyInJsonEscape jsonEscape seq s useDelim).data) := by
  unfold copyInJsonEscape
  split
  · exact Continues.refl seq _
  · apply continues_append
    intro p hp
    rcases List.mem_cons.mp hp with rfl | hp
    · rfl
    · exact seq_of_mem_delimPiece hp

end LogBuf

namespace LogTarget

/-- The messages whose bytes were handed to the output, in order. -/
def handedSeqs (t : LogTarget) : List ℕ := t.handed.flatMap Handed.seqs

/-- The same, followed by what the target still holds. -/
def stream (t : LogTarget) : List ℕ :=
  t.past.flatMap Handed.seqs ++ seqsOf t.currentBuffer.data

variable {t : LogTarget}

theorem SameStream.stream {t' : LogTarget} (h : t.SameStream t') :
    t'.stream = t.stream := by
  unfold LogTarget.stream
  rw [h.past, h.currentBuffer]

theorem continues_copyMessage
    (t : LogTarget) (env : Formatting) (seq : ℕ)
    (header text footer : List UInt8) :
    Continues seq t.stream
      (t.copyMessage env seq header text footer).stream := by
  apply Continues.append_left
  have hheader := t.currentBuffer.continues_copyIn seq header false
  have htext : Continues seq (seqsOf t.currentBuffer.data)
      (seqsOf (if t.escapes then
        (t.currentBuffer.copyIn seq header false).copyInJsonEscape
          env.jsonEscape seq text footer.isEmpty
      else
        (t.currentBuffer.copyIn seq header false).copyIn seq text
          footer.isEmpty).data) := by
    split
    · exact hheader.trans (LogBuf.continues_copyInJsonEscape _ _ seq text _)
    · exact hheader.trans (LogBuf.continues_copyIn _ seq text _)
  unfold copyMessage
  dsimp only
  split
  · exact htext
  · exact htext.trans (LogBuf.continues_copyIn _ seq footer true)

theorem continues_rotate (hempty : t.AvailEmpty) (k : ℕ) :
    Continues k t.stream t.rotate.1.stream := by
  apply Continues.of_sublist
  rcases t.rotate_cases with ⟨-, heq⟩ |
    ⟨next, avail, writeOut, -, hremove, hadd, heq⟩ | ⟨-, -, heq⟩ |
    ⟨next, avail, -, -, -, heq⟩
  · rw [heq]
  · have hnext : next.data = [] := hempty next (by
      rw [(BoundedFifo.remove_eq_some hremove).1]
      simp)
    have hitems := (BoundedFifo.addIfRoom_eq_some hadd).2.1
    rw [heq]
    simp only [stream, past, hitems, hnext, List.map_append,
      List.map_singleton, List.flatMap_append, List.flatMap_singleton,
      seqsOf_nil, List.append_nil, List.append_assoc]
    exact List.Sublist.refl _
  · rw [heq]
    simp only [stream, LogBuf.clear, seqsOf_nil, List.append_nil]
    exact List.sublist_append_left _ _
  · rw [heq]
    simp only [stream, LogBuf.clear, seqsOf_nil, List.append_nil]
    exact List.sublist_append_left _ _

theorem continues_flushAll
    (hempty : t.AvailEmpty) (o : Owner) (rotate nocallbacks : Bool) (k : ℕ) :
    Continues k t.stream (t.flushAll o rotate nocallbacks).1.stream := by
  rw [(t.flushAll_frame o rotate nocallbacks).1.stream]
  unfold flushStart
  split
  · exact continues_rotate hempty k
  · exact Continues.refl k _

theorem continues_write
    (hempty : t.AvailEmpty) (o : Owner) (env : Formatting) (seq : ℕ)
    (text : List UInt8) (m : LogMeta) (filter : Filter) :
    Continues seq t.stream (t.write o env seq text m filter).1.stream := by
  rcases t.write_cases o env seq text m filter with ⟨-, heq⟩ |
    ⟨-, -, queue, -, heq⟩ | ⟨-, -, -, o', -, heq⟩ |
    ⟨-, -, -, -, queue, o', -, -, heq⟩ | ⟨-, -, -, -, heq⟩ <;> rw [heq]
  · exact Continues.refl seq _
  · exact Continues.refl seq _
  · exact t.continues_copyMessage env seq _ text _
  · exact (continues_rotate hempty seq).trans
      (t.rotate.1.continues_copyMessage env seq _ text _)
  · exact continues_rotate hempty seq

/-- Nothing is left to write before a large message. -/
def Flushed (t : LogTarget) : Prop :=
  t.writeOutBuffers.items = [] ∧ seqsOf t.currentBuffer.data = []

theorem flushed_flushAll
    (hempty : t.AvailEmpty) (o : Owner) (nocallbacks : Bool) :
    (t.flushAll o true nocallbacks).1.Flushed := by
  have hframe := t.flushAll_frame o true nocallbacks
  refine ⟨hframe.2.2, ?_⟩
  rw [hframe.1.currentBuffer]
  change seqsOf t.rotate.1.currentBuffer.data = []
  rcases t.rotate_cases with ⟨hlen, heq⟩ |
    ⟨next, avail, writeOut, -, hremove, -, heq⟩ | ⟨-, -, heq⟩ |
    ⟨next, avail, -, -, -, heq⟩ <;> rw [heq]
  · exact seqsOf_eq_nil (List.length_eq_zero_iff.mp hlen)
  · have hnext : next.data = [] := hempty next (by
      rw [(BoundedFifo.remove_eq_some hremove).1]
      simp)
    simp [hnext]
  · rfl
  · rfl

theorem seq_of_mem_overflowBufs
    {env : Formatting} {l l' : SingleLog} {filter : Filter}
    (hl' : l' ∈ t.overflowBufs env l filter) : l'.seq = l.seq := by
  have hpart : ∀ s : List UInt8, l' ∈ (if s = [] then [] else
      [SingleLog.ofText s noMetaData l.seq]) → l'.seq = l.seq := by
    intro s hs
    split at hs
    · simp at hs
    · rw [List.mem_singleton.mp hs]
      rfl
  simp only [overflowBufs, List.mem_append, List.mem_singleton] at hl'
  rcases hl' with ((hl' | hl') | hl') | hl'
  · exact hpart _ hl'
  · rw [hl']
  · exact hpart _ hl'
  · exact hpart _ hl'

theorem continues_writeOverflow
    (hflushed : t.Flushed) (o : Owner) (env : Formatting) (l : SingleLog)
    (filter : Filter) :
    Continues l.seq t.stream (t.writeOverflow o env l filter).1.stream := by
  rcases t.writeOverflow_cases o env l filter with ⟨-, heq⟩ | ⟨-, hsame, -⟩
  · rw [heq]
    exact Continues.refl l.seq _
  · rw [hsame.sameStream.stream]
    refine ⟨t.stream, (t.overflowBufs env l filter).map SingleLog.seq, ?_,
      List.Sublist.refl _, ?_⟩
    · simp [stream, past, hflushed.1, hflushed.2, Handed.seqs]
    · intro x hx
      rcases List.mem_map.mp hx with ⟨l', hl', rfl⟩
      exact seq_of_mem_overflowBufs hl'

/-- The stream is sorted and has not passed message `k`. -/
structure InOrder (k : ℕ) (t : LogTarget) : Prop where
  sorted : t.stream.Pairwise (· ≤ ·)
  bounded : ∀ x ∈ t.stream, x ≤ k
  availEmpty : t.AvailEmpty

variable {k : ℕ}

theorem InOrder.mono {k' : ℕ} (h : InOrder k t) (hle : k ≤ k') :
    InOrder k' t :=
  ⟨h.sorted, fun x hx => (h.bounded x hx).trans hle, h.availEmpty⟩

theorem InOrder.of_continues
    (h : InOrder k t) {t' : LogTarget}
    (hcontinues : Continues k t.stream t'.stream) (hempty : t'.AvailEmpty) :
    InOrder k t' :=
  ⟨hcontinues.sorted h.sorted h.bounded, hcontinues.le h.bounded, hempty⟩

theorem InOrder.of_sameStream
    (h : InOrder k t) {t' : LogTarget} (hsame : t.SameStream t')
    (hempty : t'.AvailEmpty) : InOrder k t' :=
  h.of_continues (by rw [hsame.stream]; exact Continues.refl k _) hempty

/-- The acts that keep a target in order by themselves, while message `k` is
being processed. -/
def Regular (k : ℕ) : TargetAct → Prop
  | .write seq _ _ _ => seq = k
  | .writeOverflow _ _ => False
  | .flushAllSync _ _ => False
  | _ => True

theorem InOrder.act
    (h : InOrder k t) (o : Owner) (env : Formatting) {a : TargetAct}
    (hregular : Regular k a) : InOrder k (t.act o env a).1 := by
  have hempty := h.availEmpty
  cases a with
  | write seq text m filter =>
      have hseq : seq = k := hregular
      subst hseq
      exact h.of_continues (continues_write hempty o env seq text m filter)
        (hempty.write o env seq text m filter)
  | writeOverflow l filter => exact hregular.elim
  | flushAll rotate nocallbacks =>
      exact h.of_continues (continues_flushAll hempty o rotate nocallbacks k)
        (hempty.flushAll o rotate nocallbacks)
  | flushAllSync rotate nocallbacks => exact hregular.elim
  | completeWrite i =>
      exact h.of_sameStream (t.completeWrite_frame o i).1.sameStream
        (hempty.completeWrite o i)
  | completeOverflow i =>
      exact h.of_sameStream (t.completeOverflow_frame o i).1.sameStream
        (hempty.completeOverflow o i)
  | finalizeV8Callback b =>
      exact h.of_sameStream (t.sameOutput_finalizeV8Callback b).sameStream
        (hempty.finalizeV8Callback b)
  | disableWrites v => exact ⟨h.sorted, h.bounded, hempty⟩
  | setCallback => exact ⟨h.sorted, h.bounded, hempty⟩

end LogTarget

/-! ## The logger -/

namespace Logger

def waiting (s : Logger) : List ℕ :=
  (s.owner.internalCmdQueue.items.filterMap InternalCmdReq.message?).map
    SingleLog.seq

/-- All targets are in order up to message `k`, and the messages that wait are
sorted and not before `k`. -/
structure Ordered (k : ℕ) (s : Logger) : Prop where
  targets : ∀ id t, s.target? id = some t → t.InOrder k
  noShutdown : s.NoShutdown
  sorted : s.waiting.Pairwise (· ≤ ·)
  bounds : ∀ w ∈ s.waiting, k ≤ w ∧ w < s.nextSeq
  number : k ≤ s.nextSeq

variable {k : ℕ} {s s' : Logger}

theorem Ordered.of_same
    (h : s.Ordered k) (htargets : ∀ id, s'.target? id = s.target? id)
    (hqueue : s'.owner.internalCmdQueue = s.owner.internalCmdQueue)
    (hnextSeq : s'.nextSeq = s.nextSeq) : s'.Ordered k := by
  have hwaiting : s'.waiting = s.waiting := by
    unfold waiting
    rw [hqueue]
  refine ⟨fun id t htarget => h.targets id t (htargets id ▸ htarget), ?_, ?_,
    ?_, by rw [hnextSeq]; exact h.number⟩
  · unfold NoShutdown
    rw [hqueue]
    exact h.noShutdown
  · rw [hwaiting]
    exact h.sorted
  · rw [hwaiting, hnextSeq]
    exact h.bounds

theorem Ordered.of_takes (h : s.Ordered k) (htakes : s.Takes s') :
    s'.Ordered k := by
  have hnoShutdown := h.noShutdown.of_takes htakes
  have htargets : ∀ id t, s'.target? id = some t → t.InOrder k :=
    fun id t htarget => h.targets id t (htakes.targets id ▸ htarget)
  rcases htakes.owner with ⟨queue, howner, ⟨hitems, hnextSeq⟩ |
    ⟨c, l, hitems, hmessage, hseq, hnextSeq⟩⟩
  · have hwaiting : s'.waiting = s.waiting := by
      unfold waiting
      rw [howner, hitems]
    refine ⟨htargets, hnoShutdown, ?_, ?_, by rw [hnextSeq]; exact h.number⟩
    · rw [hwaiting]
      exact h.sorted
    · rw [hwaiting, hnextSeq]
      exact h.bounds
  · have hwaiting : s'.waiting = s.waiting ++ [s.nextSeq] := by
      unfold waiting
      rw [howner, hitems, List.filterMap_append, List.map_append]
      simp [hmessage, hseq]
    have hnumber := h.number
    refine ⟨htargets, hnoShutdown, ?_, ?_, by omega⟩
    · rw [hwaiting, List.pairwise_append]
      refine ⟨h.sorted, List.pairwise_singleton _ _, ?_⟩
      intro w hw x hx
      rw [List.mem_singleton.mp hx]
      exact (h.bounds w hw).2.le
    · rw [hwaiting, hnextSeq]
      intro w hw
      rcases List.mem_append.mp hw with hold | hnew
      · have hbounds := h.bounds w hold
        omega
      · have hw' := List.mem_singleton.mp hnew
        omega

/-- The target an act is for would send the message around as an overflow. -/
def SendsRound (s : Logger) (id : TargetId) (a : TargetAct) : Prop :=
  ∃ t seq text m filter, s.target? id = some t ∧
    a = .write seq text m filter ∧ t.disabled = false ∧ t.oversize text

/-- A message that an act asks for is the one it writes. -/
theorem Acts.sendsRound
    {s s' : Logger} {env : Formatting} {id : TargetId} {a : TargetAct}
    {t : LogTarget} (hacts : s.Acts s' env id a t) {c : InternalCmdReq}
    (hasks : t.Asks env a c) {l : SingleLog} (hmessage : c.message? = some l) :
    ∃ text m filter, a = .write l.seq text m filter ∧ s.SendsRound id a := by
  rcases hasks with rfl | ⟨seq, text, m, filter, rfl, hon, hover, rfl⟩
  · simp [InternalCmdReq.message?] at hmessage
  · have hseq : l.seq = seq := by
      rw [← Option.some.inj hmessage]
      unfold LogTarget.overflowEntry
      split <;> rfl
    rw [hseq]
    exact ⟨text, m, filter, rfl, t, seq, text, m, filter, hacts.before, rfl,
      hon, hover⟩

/-- An act adds only its own message to the queue, and only by sending it
round. -/
theorem waiting_perform
    (s : Logger) (env : Formatting) (id : TargetId) {a : TargetAct}
    (hregular : LogTarget.Regular k a ∨
      ∃ l filter, a = .writeOverflow l filter) :
    ∃ added, (s.perform env id a).waiting = s.waiting ++ added ∧
      (∀ x ∈ added, x = k) ∧ (added ≠ [] → s.SendsRound id a) := by
  rcases s.perform_cases env id a with ⟨-, heq⟩ | ⟨t, hacts⟩
  · rw [heq]
    exact ⟨[], by simp, by simp, by simp⟩
  · rcases t.act_queue s.owner env a with ⟨added, hitems, hasks⟩
    have hadded : ∀ c ∈ added, ∀ l, c.message? = some l →
        l.seq = k ∧ s.SendsRound id a := by
      intro c hc l hmessage
      rcases hacts.sendsRound (hasks c hc) hmessage with
        ⟨text, m, filter, rfl, hround⟩
      rcases hregular with hseq | ⟨l', filter', heq⟩
      · exact ⟨hseq, hround⟩
      · simp at heq
    refine ⟨(added.filterMap InternalCmdReq.message?).map SingleLog.seq, ?_,
      ?_, ?_⟩
    · unfold waiting
      rw [hacts.owner, hitems, List.filterMap_append, List.map_append]
    · intro x hx
      rcases List.mem_map.mp hx with ⟨l, hl, rfl⟩
      rcases List.mem_filterMap.mp hl with ⟨c, hc, hmessage⟩
      exact (hadded c hc l hmessage).1
    · intro hne
      rcases List.exists_mem_of_ne_nil _ hne with ⟨x, hx⟩
      rcases List.mem_map.mp hx with ⟨l, hl, rfl⟩
      rcases List.mem_filterMap.mp hl with ⟨c, hc, hmessage⟩
      exact (hadded c hc l hmessage).2

theorem Ordered.perform_of_target
    (h : s.Ordered k) (env : Formatting) (id : TargetId) {a : TargetAct}
    (hregular : LogTarget.Regular k a ∨
      ∃ l filter, a = .writeOverflow l filter)
    (htarget : ∀ t, s.target? id = some t →
      (t.act s.owner env a).1.InOrder k)
    (hround : s.SendsRound id a →
      (∀ w ∈ s.waiting, w = k) ∧ k < s.nextSeq) :
    (s.perform env id a).Ordered k := by
  have hsame := s.sameIntake_perform env id a
  rcases s.waiting_perform env id hregular with
    ⟨added, hwaiting, hadded, hsends⟩
  have hkept : added ≠ [] → (∀ w ∈ s.waiting, w = k) ∧ k < s.nextSeq :=
    fun hne => hround (hsends hne)
  refine ⟨?_, h.noShutdown.perform env id a, ?_, ?_,
    by rw [hsame.nextSeq]; exact h.number⟩
  · intro id' t' htarget'
    rcases s.perform_cases env id a with ⟨-, heq⟩ | ⟨t, hacts⟩
    · rw [heq] at htarget'
      exact h.targets id' t' htarget'
    · by_cases hid : id' = id
      · rw [hid, hacts.after] at htarget'
        rw [← Option.some.inj htarget']
        exact htarget t hacts.before
      · rw [hacts.others id' hid] at htarget'
        exact h.targets id' t' htarget'
  · rw [hwaiting, List.pairwise_append]
    refine ⟨h.sorted, ?_, ?_⟩
    · exact List.pairwise_of_forall_mem_list fun x hx y hy => by
        rw [hadded x hx, hadded y hy]
    · intro w hw x hx
      have hall := (hkept (List.ne_nil_of_mem hx)).1 w hw
      rw [hadded x hx, hall]
  · rw [hwaiting, hsame.nextSeq]
    intro w hw
    rcases List.mem_append.mp hw with hold | hnew
    · exact h.bounds w hold
    · rw [hadded w hnew]
      exact ⟨le_rfl, (hkept (List.ne_nil_of_mem hnew)).2⟩

theorem Ordered.perform
    (h : s.Ordered k) (env : Formatting) (id : TargetId) {a : TargetAct}
    (hregular : LogTarget.Regular k a)
    (hround : s.SendsRound id a →
      (∀ w ∈ s.waiting, w = k) ∧ k < s.nextSeq) :
    (s.perform env id a).Ordered k :=
  h.perform_of_target env id (Or.inl hregular)
    (fun t htarget => (h.targets id t htarget).act s.owner env hregular) hround

theorem Ordered.overflow
    (h : s.Ordered k) (env : Formatting) (id : TargetId) {l : SingleLog}
    (hseq : l.seq = k) (filter : Filter) :
    ((s.perform env id (.flushAll true false)).perform env id
      (.writeOverflow l filter)).Ordered k := by
  have hflush : (s.perform env id (.flushAll true false)).Ordered k := by
    apply h.perform env id (a := .flushAll true false) trivial
    rintro ⟨t, seq, text, m, filter', -, heq, -⟩
    simp at heq
  apply hflush.perform_of_target env id (Or.inr ⟨l, filter, rfl⟩)
  · intro t' htarget'
    have horder := hflush.targets id t' htarget'
    have hflushed : t'.Flushed := by
      rcases s.perform_cases env id (.flushAll true false) with
        ⟨hnone, heq⟩ | ⟨t, hacts⟩
      · rw [heq, hnone] at htarget'
        simp at htarget'
      · rw [hacts.after] at htarget'
        rw [← Option.some.inj htarget']
        exact LogTarget.flushed_flushAll
          (h.targets id t hacts.before).availEmpty s.owner false
    have hcontinues := LogTarget.continues_writeOverflow hflushed
      (s.perform env id (.flushAll true false)).owner env l filter
    rw [hseq] at hcontinues
    exact horder.of_continues hcontinues
      (horder.availEmpty.writeOverflow _ env l filter)
  · rintro ⟨t, seq, text, m, filter', -, heq, -⟩
    simp at heq

/-! ## Commands -/

/-- Processing this message sends it round for some target. -/
def Overflows (s : Logger) (l : SingleLog) : Prop :=
  s.accepts l = true ∧ ∃ f ∈ s.dispatch l, ∃ t,
    s.target? f.targetId = some t ∧ t.disabled = false ∧
      t.oversize l.buf.text

def SameSwitches (s₀ s : Logger) : Prop :=
  ∀ id t, s.target? id = some t → ∃ t₀, s₀.target? id = some t₀ ∧
    t₀.disabled = t.disabled ∧ t₀.bankSize = t.bankSize

theorem write_disabled
    (t : LogTarget) (o : Owner) (env : Formatting) (seq : ℕ)
    (text : List UInt8) (m : LogMeta) (filter : Filter) :
    (t.write o env seq text m filter).1.disabled = t.disabled := by
  have hrotate : t.rotate.1.disabled = t.disabled := by
    rcases t.rotate_cases with ⟨-, heq⟩ | ⟨next, avail, writeOut, -, -, -, heq⟩ |
      ⟨-, -, heq⟩ | ⟨next, avail, -, -, -, heq⟩ <;> rw [heq]
  rcases t.write_cases o env seq text m filter with ⟨-, heq⟩ |
    ⟨-, -, queue, -, heq⟩ | ⟨-, -, -, o', -, heq⟩ |
    ⟨-, -, -, -, queue, o', -, -, heq⟩ | ⟨-, -, -, -, heq⟩ <;> rw [heq]
  · rfl
  · exact hrotate
  · exact hrotate

theorem SameSwitches.perform_write
    {s₀ : Logger} (h : SameSwitches s₀ s) (env : Formatting) (id : TargetId)
    (seq : ℕ) (text : List UInt8) (m : LogMeta) (filter : Filter) :
    SameSwitches s₀ (s.perform env id (.write seq text m filter)) := by
  rcases s.perform_cases env id (.write seq text m filter) with
    ⟨-, heq⟩ | ⟨t, hacts⟩
  · rw [heq]
    exact h
  · intro id' t' htarget'
    by_cases hid : id' = id
    · rw [hid, hacts.after] at htarget'
      rcases h id t hacts.before with ⟨t₀, hbefore, hdisabled, hsize⟩
      rw [← Option.some.inj htarget', hid]
      exact ⟨t₀, hbefore,
        hdisabled.trans (write_disabled t s.owner env seq text m filter).symm,
        hsize.trans (t.act_sameConfig s.owner env _).bankSize.symm⟩
    · rw [hacts.others id' hid] at htarget'
      exact h id' t' htarget'

/-- Writing a message to its targets, from a state in which nothing but this
message waits if some target sends it round. -/
theorem Ordered.newLog
    (h : s.Ordered k) (env : Formatting) {l : SingleLog} (hseq : l.seq = k)
    (hnumber : k < s.nextSeq)
    (halone : s.Overflows l → ∀ w ∈ s.waiting, w = k) :
    (s.performAll env (s.cmdActs (.newLog l))).Ordered k := by
  -- While the targets write, everything that is queued belongs to message `k`
  -- if some target sends it round.
  set P : Logger → Prop := fun s' => s'.Ordered k ∧ s'.nextSeq = s.nextSeq ∧
    SameSwitches s s' ∧ (s.Overflows l → ∀ w ∈ s'.waiting, w = k)
  have hstart : P s :=
    ⟨h, rfl, fun id t htarget => ⟨t, htarget, rfl, rfl⟩, halone⟩
  have hact : ∀ s', P s' → ∀ a ∈ s.cmdActs (.newLog l),
      P (s'.perform env a.1 a.2) := by
    rintro s' ⟨hordered, hnext, hswitches, hwaiting⟩ a ha
    rcases mem_cmdActs ha with ⟨l', f, hl', haccept, hf, rfl⟩ |
      ⟨d, heq, -⟩ | ⟨d, l', f, heq, -⟩ | heq
    · rcases hl' with ⟨⟩
      have hround : s'.SendsRound f.targetId
          (.write l.seq l.buf.text (s.sifted l).logMeta.m f) →
            s.Overflows l := by
        rintro ⟨t, seq, text, m, filter, htarget, hact, hon, hover⟩
        rcases hact with ⟨⟩
        rcases hswitches _ t htarget with ⟨t₀, hbefore, hdisabled, hsize⟩
        refine ⟨haccept, f, hf, t₀, hbefore, hdisabled.trans hon, ?_⟩
        unfold LogTarget.oversize at hover ⊢
        rw [hsize]
        exact hover
      have hregular : LogTarget.Regular k
          (.write l.seq l.buf.text (s.sifted l).logMeta.m f) := hseq
      rcases s'.waiting_perform env f.targetId (Or.inl hregular) with
        ⟨added, heq, hadded, -⟩
      refine ⟨?_, ?_, hswitches.perform_write env _ _ _ _ _, ?_⟩
      · apply hordered.perform env f.targetId hregular
        intro hsends
        exact ⟨hwaiting (hround hsends), by rw [hnext]; exact hnumber⟩
      · rw [(s'.sameIntake_perform env f.targetId _).nextSeq]
        exact hnext
      · intro hoverflows w hw
        rw [heq] at hw
        rcases List.mem_append.mp hw with hold | hnew
        · exact hwaiting hoverflows w hold
        · exact hadded w hnew
    · simp at heq
    · simp at heq
    · simp at heq
  exact (performAll_invariant hact hstart).1

theorem Ordered.writeTargetOverflow
    (h : s.Ordered k) (env : Formatting) (d : TargetId) {l : SingleLog}
    (hseq : l.seq = k) :
    (s.performAll env (s.cmdActs (.writeTargetOverflow d l))).Ordered k := by
  have hpairs : ∀ (filters : List Filter) (s' : Logger), s'.Ordered k →
      (s'.performAll env (filters.flatMap fun f =>
        [(f.targetId, .flushAll true false),
          (f.targetId, .writeOverflow (s.sifted l) f)])).Ordered k := by
    intro filters
    induction filters with
    | nil => exact fun s' hs' => hs'
    | cons f rest ih =>
        intro s' hs'
        exact ih _ (hs'.overflow env f.targetId (l := s.sifted l) hseq f)
  simp only [cmdActs]
  split
  · exact hpairs _ s h
  · exact h

/-- A message which some target sends round is processed while no other
message waits. -/
def OverflowsAlone (s : Logger) : Act → Prop
  | .handle _ => ∀ l rest,
      s.owner.internalCmdQueue.items = .newLog l :: rest → s.Overflows l →
        ∀ c ∈ rest, c.message? = none
  | _ => True

theorem Ordered.of_cons
    (h : s.Ordered k) {c : InternalCmdReq}
    {queue : BoundedFifo InternalCmdReq}
    (hitems : s.owner.internalCmdQueue.items = c :: queue.items) :
    (c.message? = none → (s.withQueue queue).Ordered k) ∧
      ∀ l, c.message? = some l →
        (s.withQueue queue).Ordered l.seq ∧ l.seq < s.nextSeq := by
  have hnoShutdown := (h.noShutdown.of_cons hitems).2
  constructor
  · intro hmessage
    have hwaiting : (s.withQueue queue).waiting = s.waiting := by
      unfold waiting
      rw [hitems]
      simp [hmessage, withQueue]
    exact ⟨h.targets, hnoShutdown, by rw [hwaiting]; exact h.sorted,
      by rw [hwaiting]; exact h.bounds, h.number⟩
  · intro l hmessage
    have hwaiting : s.waiting = l.seq :: (s.withQueue queue).waiting := by
      unfold waiting
      rw [hitems]
      simp [hmessage, withQueue]
    have hsorted := h.sorted
    have hbounds := h.bounds
    rw [hwaiting, List.pairwise_cons] at hsorted
    rw [hwaiting] at hbounds
    have hl := hbounds l.seq (by simp)
    refine ⟨⟨?_, hnoShutdown, hsorted.2, ?_, hl.2.le⟩, hl.2⟩
    · exact fun id t htarget => (h.targets id t htarget).mono hl.1
    · intro w hw
      exact ⟨hsorted.1 w hw, (hbounds w (by simp [hw])).2⟩

theorem Ordered.handleInternalCmd
    (h : s.Ordered k) (env : Formatting)
    (halone : s.OverflowsAlone (.handle env)) :
    ∃ k', (s.handleInternalCmd env).Ordered k' := by
  rcases s.handleInternalCmd_cases env with ⟨-, heq⟩ |
    ⟨c, queue, hitems, -, heq⟩
  · rw [heq]
    exact ⟨k, h⟩
  · rw [heq]
    rcases h.of_cons hitems with ⟨hsilent, hmessage⟩
    have hstray : ∀ {k' : ℕ}, (s.withQueue queue).Ordered k' →
        { s.withQueue queue with
          strayed := (s.withQueue queue).strayed ||
            (s.withQueue queue).cmdStrays c }.Ordered k' :=
      fun hordered => hordered.of_same (fun _ => rfl) rfl rfl
    cases c with
    | newLog l =>
        rcases hmessage l rfl with ⟨hordered, hnumber⟩
        refine ⟨l.seq, Ordered.of_takes ?_ (takes_finishCmd _ _)⟩
        apply (hstray hordered).newLog env rfl hnumber
        intro hoverflows w hw
        have hnone := halone l queue.items hitems hoverflows
        rcases List.mem_map.mp hw with ⟨l', hl', -⟩
        rcases List.mem_filterMap.mp hl' with ⟨c, hc, hsome⟩
        rw [hnone c hc] at hsome
        simp at hsome
    | targetRotateBuffer d =>
        refine ⟨k, Ordered.of_takes ?_ (takes_finishCmd _ _)⟩
        apply (hstray (hsilent rfl)).perform env d
          (a := .flushAll false false) trivial
        rintro ⟨t, seq, text, m, filter, -, hact, -⟩
        simp at hact
    | writeTargetOverflow d l =>
        rcases hmessage l rfl with ⟨hordered, -⟩
        refine ⟨l.seq, Ordered.of_takes ?_ (takes_finishCmd _ _)⟩
        exact (hstray hordered).writeTargetOverflow env d rfl
    | internalShutdown =>
        exact absurd rfl (h.noShutdown.of_cons hitems).1

theorem Ordered.callV8LogCallbacks (h : s.Ordered k) :
    s.callV8LogCallbacks.Ordered k := by
  unfold Logger.callV8LogCallbacks
  split
  · exact h
  · rename_i data callbacks _
    cases data with
    | bank id b => exact h.of_same (fun _ => rfl) rfl rfl
    | overflow id bufs => exact h.of_same (fun _ => rfl) rfl rfl

theorem Ordered.cleanupGreaseLibBuf
    (h : s.Ordered k) (env : Formatting) (j : ℕ) :
    (s.cleanupGreaseLibBuf env j).Ordered k := by
  unfold Logger.cleanupGreaseLibBuf
  split
  · exact h
  · rename_i buf _
    have hrest : { s with owner := { s.owner with
        userBufs := s.owner.userBufs.eraseIdx j } }.Ordered k :=
      h.of_same (fun _ => rfl) rfl rfl
    cases buf with
    | overflow bufs => exact hrest
    | bank id shadow =>
        dsimp only
        split
        · unfold returnBufferToTarget
          split
          · apply hrest.perform env _ (a := .finalizeV8Callback shadow) trivial
            rintro ⟨t, seq, text, m, filter, -, hact, -⟩
            simp at hact
          · exact hrest
        · exact hrest

theorem Ordered.perform_silent
    (h : s.Ordered k) (env : Formatting) (id : TargetId) {a : TargetAct}
    (hregular : LogTarget.Regular k a)
    (hsilent : ∀ seq text m filter, a ≠ .write seq text m filter) :
    (s.perform env id a).Ordered k := by
  apply h.perform env id hregular
  rintro ⟨t, seq, text, m, filter, -, hact, -⟩
  exact absurd hact (hsilent seq text m filter)

theorem Ordered.step
    (h : s.Ordered k) {a : Act} (halone : s.OverflowsAlone a) :
    ∃ k', (s.step a).Ordered k' := by
  cases a with
  | log m following text => exact ⟨k, h.of_takes (s.takes_log _ _ _)⟩
  | redirect r d data => exact ⟨k, h.of_takes (s.takes_redirect _ _ _)⟩
  | klog mem start remain => exact ⟨k, h.of_takes (s.takes_klog _ _ _)⟩
  | handle env => exact h.handleInternalCmd env halone
  | flushTimer id nocallbacks =>
      exact ⟨k, h.perform_silent noFormatting id trivial (by simp)⟩
  | completeWrite id i =>
      exact ⟨k, h.perform_silent noFormatting id trivial (by simp)⟩
  | completeOverflow id i =>
      exact ⟨k, h.perform_silent noFormatting id trivial (by simp)⟩
  | callV8LogCallbacks => exact ⟨k, h.callV8LogCallbacks⟩
  | cleanup j => exact ⟨k, h.cleanupGreaseLibBuf noFormatting j⟩
  | filter c => exact ⟨k, h.of_same (fun _ => rfl) rfl rfl⟩
  | disableTarget id v =>
      exact ⟨k, h.perform_silent noFormatting id trivial (by simp)⟩
  | setCallback id =>
      exact ⟨k, h.perform_silent noFormatting id trivial (by simp)⟩

structure SetUp (s : Logger) : Prop where
  targets : ∀ id t, s.target? id = some t →
    ∃ kind bankSize delim n flags,
      t = (LogTarget.new kind bankSize id delim n).setFlag flags
  queue : s.owner.internalCmdQueue.items = []

theorem SetUp.ordered (h : s.SetUp) : s.Ordered 0 := by
  have hwaiting : s.waiting = [] := by
    unfold waiting
    rw [h.queue]
    rfl
  refine ⟨?_, ?_, ?_, ?_, Nat.zero_le _⟩
  · intro id t htarget
    rcases h.targets id t htarget with ⟨kind, bankSize, delim, n, flags, rfl⟩
    refine ⟨List.Pairwise.nil, by simp [LogTarget.stream, LogTarget.past,
      LogTarget.setFlag, LogTarget.new, LogBuf.new], ?_⟩
    intro b hb
    rcases List.mem_map.mp hb with ⟨i, -, rfl⟩
    rfl
  · simp [NoShutdown, h.queue]
  · simp [hwaiting]
  · simp [hwaiting]

def HandedInOrder (s : Logger) : Prop :=
  ∀ id t, s.target? id = some t → t.handedSeqs.Pairwise (· ≤ ·)

/-- In every run in which messages that are sent round are processed alone,
every target hands messages to its output in the order in which they were
queued. -/
theorem handed_in_order
    {s : Logger} (hstart : s.SetUp) {acts : List Act}
    (halone : Run.Meets step OverflowsAlone s acts) :
    (Run.final step s acts).HandedInOrder := by
  have hstep : ∀ s a, (∃ k, Ordered k s) → s.OverflowsAlone a →
      ∃ k, Ordered k (s.step a) :=
    fun _ _ ⟨_, hordered⟩ hguard => hordered.step hguard
  rcases Run.final_invariant hstep ⟨0, hstart.ordered⟩ halone with
    ⟨k, hordered⟩
  intro id t htarget
  have hsorted := (hordered.targets id t htarget).sorted
  unfold LogTarget.stream LogTarget.past at hsorted
  rw [List.flatMap_append, List.append_assoc, List.pairwise_append] at hsorted
  exact hsorted.1

def smallLogger (bufferSize bankSize : ℕ) : Logger :=
  (Logger.new bufferSize).setTarget 0
    (LogTarget.new .file bankSize 0 none 3)

theorem smallLogger_setUp (bufferSize bankSize : ℕ) :
    (smallLogger bufferSize bankSize).SetUp := by
  refine ⟨?_, rfl⟩
  intro id t htarget
  by_cases hid : id = 0
  · rw [hid, smallLogger, target?_setTarget_self] at htarget
    rw [← Option.some.inj htarget, hid]
    exact ⟨.file, bankSize, none, 3, 0, by
      simp [LogTarget.setFlag, LogTarget.new]⟩
  · rw [smallLogger, target?_setTarget_of_ne _ _ hid] at htarget
    unfold target? at htarget
    rw [if_neg hid] at htarget
    simp [Logger.new] at htarget

/-- A message that is too large for the banks, then a short one. -/
def largeThenShort : List Act :=
  [.log (LogMeta.declare 0 1 0) noIgnoreList (List.replicate 1900 97),
    .log (LogMeta.declare 0 1 0) noIgnoreList [98],
    .handle noFormatting, .handle noFormatting, .handle noFormatting]

theorem short_overtakes_large :
    (smallLogger 2000 2000).SetUp ∧
      ¬(Run.final step (smallLogger 2000 2000)
        largeThenShort).HandedInOrder := by
  refine ⟨smallLogger_setUp 2000 2000, ?_⟩
  intro hordered
  have hhanded : ((Run.final step (smallLogger 2000 2000)
      largeThenShort).target? 0).map LogTarget.handedSeqs = some [1, 0] := by
    decide +kernel
  rcases Option.map_eq_some_iff.mp hhanded with ⟨t, htarget, hseqs⟩
  have hsorted := hordered 0 t htarget
  rw [hseqs] at hsorted
  simp at hsorted

/-- The first message is processed before the second one is logged. -/
def largePauseShort : List Act :=
  [.log (LogMeta.declare 0 1 0) noIgnoreList (List.replicate 30 97),
    .handle noFormatting,
    .log (LogMeta.declare 0 1 0) noIgnoreList [98],
    .handle noFormatting, .handle noFormatting, .flushTimer 0 false]

theorem overflowsAlone_of_short
    {s : Logger} (env : Formatting)
    (hshort : s.owner.internalCmdQueue.items.length ≤ 1) :
    s.OverflowsAlone (.handle env) := by
  intro l rest hitems _ c hc
  rw [hitems, List.length_cons] at hshort
  have hrest : rest = [] := List.length_eq_zero_iff.mp (by omega)
  simp [hrest] at hc

theorem handed_in_order_pause :
    (Run.final step (smallLogger 150 150) largePauseShort).HandedInOrder := by
  apply handed_in_order (smallLogger_setUp 150 150)
  refine ⟨trivial, overflowsAlone_of_short _ (by decide +kernel), trivial, ?_,
    overflowsAlone_of_short _ (by decide +kernel), trivial, trivial⟩
  intro l rest hitems
  have hhead : (Run.final step (smallLogger 150 150)
      (largePauseShort.take 3)).owner.internalCmdQueue.items.head?.bind
        InternalCmdReq.newLog? = none := by decide +kernel
  change (Run.final step (smallLogger 150 150)
    (largePauseShort.take 3)).owner.internalCmdQueue.items = _ at hitems
  rw [hitems] at hhead
  simp [InternalCmdReq.newLog?] at hhead

end Logger

end GreaseLog
