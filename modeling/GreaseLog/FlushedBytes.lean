import GreaseLog.BankConservation

/-!
# Bytes a flush discards

A flush rotates the current bank away and passes every waiting bank to the
output.  The rotation was made for writes: when there is no bank to continue
with it clears the current one.  A flush therefore keeps all bytes if the
current bank is empty or can be rotated, and otherwise loses what the bank
holds.

A synchronous flush of a tty does not come back from the first bank, which it
does not hand on either, so that it keeps all bytes only if there are none.
-/

namespace GreaseLog

def Handed.bytes : Handed → List UInt8
  | .bank data => bytesOf data
  | .overflow bufs => bufs.flatMap fun l => l.buf.text

namespace LogTarget

/-- What the target has given to its output between two states. -/
def handedSince (t t' : LogTarget) : List Handed :=
  t'.handed.drop t.handed.length

def bankBytes (banks : List LogBuf) : List UInt8 :=
  banks.flatMap fun b => bytesOf b.data

/-- The bytes that waited or were in the current bank before the flush. -/
def flushable (t : LogTarget) : List UInt8 :=
  bankBytes t.writeOutBuffers.items ++ bytesOf t.currentBuffer.data

/-- Every byte was given to the output or is in the current bank still. -/
def LosesNothing (t t' : LogTarget) : Prop :=
  t.flushable.Sublist ((t.handedSince t').flatMap Handed.bytes ++
    bytesOf t'.currentBuffer.data)

/-- The flush has come back, and has lost nothing. -/
structure FlushKeeps (t t' : LogTarget) (o' : Owner) : Prop where
  unlocked : o'.deadlocked = false
  notStuck : t'.stuck = false
  losesNothing : t.LosesNothing t'

/-- The current bank is empty, or there are a bank to continue with and a place
for the current one. -/
def CanRotate (t : LogTarget) : Prop :=
  t.currentBuffer.isEmpty = true ∨
    t.availBuffers.items ≠ [] ∧ t.writeOutBuffers.hasRoom

def NothingToFlush (t : LogTarget) : Prop :=
  t.writeOutBuffers.items = [] ∧ t.currentBuffer.isEmpty = true

instance (t : LogTarget) : Decidable t.CanRotate :=
  inferInstanceAs (Decidable (_ ∨ _))

/-- No call has blocked so far, and `availBuffers` has a place for each bank
that waits for the output, and for the current one. -/
structure Unblocked (t : LogTarget) (o : Owner) : Prop where
  unlocked : o.deadlocked = false
  notStuck : t.stuck = false
  places : t.availBuffers.items.length + t.writeOutBuffers.items.length <
    t.availBuffers.capacity

/-- The banks of a target leave these places free in every run, so the
condition holds until a call blocks. -/
theorem Conserves.unblocked
    {n : ℕ} {hand : Multiset ℕ} {t : LogTarget} {o : Owner}
    (h : Conserves n hand t o) (hunlocked : o.deadlocked = false) :
    t.Unblocked o := by
  refine ⟨hunlocked, h.notStuck, ?_⟩
  have hcount := h.count
  have hcapacity := h.availCapacity
  omega

/-! ## Passing a bank on -/

/-- The target after these banks were given to the output. -/
structure PassedOn (t : LogTarget) (banks : List LogBuf) (t' : LogTarget)
    (o' : Owner) : Prop where
  kind : t'.kind = t.kind
  currentBuffer : t'.currentBuffer = t.currentBuffer
  handed : t'.handed = t.handed ++ banks.map fun b => Handed.bank b.data
  capacity : t'.availBuffers.capacity = t.availBuffers.capacity
  avail : t'.availBuffers.items.length ≤
    t.availBuffers.items.length + banks.length
  unlocked : o'.deadlocked = false
  notStuck : t'.stuck = false

theorem deadlocked_returnBuffer
    (t : LogTarget) (o : Owner) (b : LogBuf) (sync nocallback : Bool) :
    (t.returnBuffer o b sync nocallback).2.deadlocked = o.deadlocked := by
  have hunref : (if b.isEmpty then o
      else o.unrefGreaseInGrease).deadlocked = o.deadlocked := by
    unfold Owner.unrefGreaseInGrease
    split
    · rfl
    · split <;> rfl
  unfold returnBuffer
  dsimp only
  split
  · split
    · exact hunref
    · split <;> exact hunref
  · exact hunref

theorem passedOn_returnBuffer
    {t : LogTarget} {o : Owner} (hunlocked : o.deadlocked = false)
    (hnotStuck : t.stuck = false) (hroom : t.availBuffers.hasRoom)
    (b : LogBuf) (sync nocallback : Bool) :
    t.PassedOn [b]
      ({ t with handed := t.handed ++ [Handed.bank b.data] }.returnBuffer o b
        sync nocallback).1
      ({ t with handed := t.handed ++ [Handed.bank b.data] }.returnBuffer o b
        sync nocallback).2 := by
  set t₁ : LogTarget := { t with handed := t.handed ++ [Handed.bank b.data] }
  have hframe := (t₁.returnBuffer_frame o b sync nocallback).1
  have hdead := t₁.deadlocked_returnBuffer o b sync nocallback
  have havail : (t₁.returnBuffer o b sync nocallback).1.availBuffers.capacity =
        t.availBuffers.capacity ∧
      (t₁.returnBuffer o b sync nocallback).1.availBuffers.items.length ≤
        t.availBuffers.items.length + 1 ∧
      (t₁.returnBuffer o b sync nocallback).1.stuck = false := by
    rcases t₁.returnBuffer_cases o b sync nocallback with
      ⟨o', -, heq | ⟨callbacks, -, heq⟩ | ⟨-, heq⟩⟩ <;> rw [heq]
    · rcases t₁.addAvail_cases b with ⟨avail, hadd, heq'⟩ | ⟨hfull, -⟩
      · have hadded := BoundedFifo.addIfRoom_eq_some hadd
        rw [heq']
        refine ⟨hadded.2.2, ?_, hnotStuck⟩
        dsimp only
        rw [hadded.2.1, List.length_append, List.length_singleton]
      · exact absurd hroom hfull
    · exact ⟨rfl, Nat.le_succ _, hnotStuck⟩
    · exact ⟨rfl, Nat.le_succ _, hnotStuck⟩
  exact ⟨hframe.kind, hframe.currentBuffer, hframe.handed, havail.1,
    havail.2.1, hdead.trans hunlocked, havail.2.2⟩

theorem passedOn_flush
    {t : LogTarget} {o : Owner} (hunlocked : o.deadlocked = false)
    (hnotStuck : t.stuck = false) (hroom : t.availBuffers.hasRoom)
    (b : LogBuf) (nocallbacks : Bool) :
    t.PassedOn [b] (t.flush o b nocallbacks).1 (t.flush o b nocallbacks).2 := by
  rcases t.flush_cases o b nocallbacks with heq | heq <;> rw [heq]
  · exact ⟨rfl, rfl, rfl, rfl, Nat.le_succ _, hunlocked, hnotStuck⟩
  · exact passedOn_returnBuffer hunlocked hnotStuck hroom b false nocallbacks

theorem passedOn_flushSync
    {t : LogTarget} {o : Owner} (hkind : t.kind ≠ .tty)
    (hunlocked : o.deadlocked = false) (hnotStuck : t.stuck = false)
    (hroom : t.availBuffers.hasRoom) (b : LogBuf) (nocallbacks : Bool) :
    t.PassedOn [b] (t.flushSync o b nocallbacks).1
      (t.flushSync o b nocallbacks).2 := by
  unfold flushSync
  split
  · rename_i htty
    exact absurd htty hkind
  · exact passedOn_returnBuffer hunlocked hnotStuck hroom b true nocallbacks

theorem flushSync_writeOut
    (t : LogTarget) (o : Owner) (b : LogBuf) (nocallbacks : Bool) :
    (t.flushSync o b nocallbacks).1.writeOutBuffers = t.writeOutBuffers := by
  unfold flushSync
  split
  · rfl
  · exact (returnBuffer_frame
      { t with handed := t.handed ++ [Handed.bank b.data] } o b true
      nocallbacks).1.writeOutBuffers

/-! ## The loop -/

/-- The loop gives every waiting bank to the output, in order. -/
theorem flushLoop_passesOn
    {out : LogTarget → Owner → LogBuf → LogTarget × Owner} {k : TargetKind}
    (hkeep : ∀ t o b, (out t o b).1.writeOutBuffers = t.writeOutBuffers)
    (hout : ∀ (t : LogTarget) (o : Owner) (b : LogBuf), t.kind = k →
      o.deadlocked = false → t.stuck = false → t.availBuffers.hasRoom →
      t.PassedOn [b] (out t o b).1 (out t o b).2)
    {t : LogTarget} {o : Owner} (hkind : t.kind = k) (h : t.Unblocked o) :
    t.PassedOn t.writeOutBuffers.items
      (flushLoop out t.writeOutBuffers.items.length t o).1
      (flushLoop out t.writeOutBuffers.items.length t o).2 := by
  generalize hrounds : t.writeOutBuffers.items.length = rounds
  induction rounds generalizing t o with
  | zero =>
      rw [List.length_eq_zero_iff.mp hrounds]
      exact ⟨rfl, rfl, (List.append_nil _).symm, rfl, le_rfl, h.unlocked,
        h.notStuck⟩
  | succ rounds ih =>
      rw [flushLoop]
      cases hremove : t.writeOutBuffers.remove with
      | none =>
          rw [BoundedFifo.remove_eq_none_iff.mp hremove] at hrounds
          simp at hrounds
      | some taken =>
          rcases taken with ⟨b, writeOut⟩
          have hitems := (BoundedFifo.remove_eq_some hremove).1
          have hplaces := h.places
          rw [hitems, List.length_cons] at hrounds hplaces
          set t₁ : LogTarget := { t with writeOutBuffers := writeOut }
          have hroom : t₁.availBuffers.hasRoom :=
            (by omega : t.availBuffers.items.length < t.availBuffers.capacity)
          have hfirst : t₁.PassedOn [b] (out t₁ o b).1 (out t₁ o b).2 :=
            hout t₁ o b hkind h.unlocked h.notStuck hroom
          have hwriteOut : (out t₁ o b).1.writeOutBuffers = writeOut :=
            hkeep t₁ o b
          have hunblocked : (out t₁ o b).1.Unblocked (out t₁ o b).2 := by
            refine ⟨hfirst.unlocked, hfirst.notStuck, ?_⟩
            have havail := hfirst.avail
            rw [hfirst.capacity, hwriteOut]
            simp only [List.length_singleton, t₁] at havail ⊢
            omega
          have hrest := ih (hfirst.kind.trans hkind) hunblocked
            (by rw [hwriteOut]; omega)
          rw [hwriteOut] at hrest
          rw [hitems]
          dsimp only
          refine ⟨hrest.kind.trans hfirst.kind,
            hrest.currentBuffer.trans hfirst.currentBuffer, ?_,
            hrest.capacity.trans hfirst.capacity, ?_, hrest.unlocked,
            hrest.notStuck⟩
          · rw [hrest.handed, hfirst.handed, List.append_assoc]
            rfl
          · have hone : (out t₁ o b).1.availBuffers.items.length ≤
                t.availBuffers.items.length + 1 := hfirst.avail
            refine hrest.avail.trans ?_
            rw [List.length_cons]
            omega

/-- A bank that waits when a tty is flushed synchronously is the end of it. -/
theorem flushLoop_tty
    {t : LogTarget} (htty : t.kind = .tty)
    (hwaiting : t.writeOutBuffers.items ≠ []) (o : Owner) (nocallbacks : Bool) :
    (flushLoop (fun t o b => t.flushSync o b nocallbacks)
      t.writeOutBuffers.items.length t o).2.deadlocked = true := by
  obtain ⟨rounds, hrounds⟩ : ∃ rounds,
      t.writeOutBuffers.items.length = rounds + 1 :=
    Nat.exists_eq_succ_of_ne_zero (by simpa using hwaiting)
  rw [hrounds, flushLoop]
  cases hremove : t.writeOutBuffers.remove with
  | none => exact absurd (BoundedFifo.remove_eq_none_iff.mp hremove) hwaiting
  | some taken =>
      rcases taken with ⟨b, writeOut⟩
      apply flushLoop_invariant (P := fun _ o' => o'.deadlocked = true)
      · intro t' o' b' writeOut' _ hdead
        unfold flushSync
        split
        · rfl
        · rw [deadlocked_returnBuffer]
          exact hdead
      · simp [flushSync, htty]

/-! ## The rotation -/

theorem Unblocked.rotate
    {t : LogTarget} {o : Owner} (h : t.Unblocked o) :
    t.rotate.1.Unblocked o ∧ t.rotate.1.kind = t.kind ∧
      t.rotate.1.handed = t.handed := by
  have hplaces := h.places
  rcases t.rotate_cases with ⟨-, heq⟩ |
    ⟨next, avail, writeOut, -, hremove, hadd, heq⟩ | ⟨-, -, heq⟩ |
    ⟨next, avail, -, hremove, -, heq⟩ <;> rw [heq]
  · exact ⟨h, rfl, rfl⟩
  · have hremoved := BoundedFifo.remove_eq_some hremove
    refine ⟨⟨h.unlocked, h.notStuck, ?_⟩, rfl, rfl⟩
    dsimp only
    rw [hremoved.1, List.length_cons] at hplaces
    rw [hremoved.2, (BoundedFifo.addIfRoom_eq_some hadd).2.1,
      List.length_append, List.length_singleton]
    omega
  · exact ⟨⟨h.unlocked, h.notStuck, hplaces⟩, rfl, rfl⟩
  · have hremoved := BoundedFifo.remove_eq_some hremove
    rcases BoundedFifo.addIfRoom_of_hasRoom
      (BoundedFifo.hasRoom_of_remove hremove) next with
      ⟨back, hadd, hitems, hcapacity⟩
    refine ⟨⟨h.unlocked, h.notStuck, ?_⟩, rfl, rfl⟩
    dsimp only
    rw [hremoved.1, List.length_cons] at hplaces
    rw [hadd, Option.getD_some, hitems, hcapacity, hremoved.2,
      List.length_append, List.length_singleton]
    exact hplaces

theorem bytes_of_banks (banks : List LogBuf) :
    (banks.map fun b => Handed.bank b.data).flatMap Handed.bytes =
      bankBytes banks := by
  rw [List.flatMap_map]
  rfl

/-- What is passed on and what stays is decided by the rotation alone. -/
theorem losesNothing_iff_rotate
    {t t' : LogTarget}
    (hhanded : t'.handed = t.handed ++
      t.rotate.1.writeOutBuffers.items.map fun b => Handed.bank b.data)
    (hcurrent : t'.currentBuffer = t.rotate.1.currentBuffer) :
    t.LosesNothing t' ↔ t.CanRotate := by
  have hempty : t.currentBuffer.isEmpty = true ↔
      t.currentBuffer.handleLen = 0 := by
    simp [LogBuf.isEmpty]
  unfold LosesNothing CanRotate flushable handedSince
  rw [hhanded, List.drop_left, bytes_of_banks, hcurrent, hempty]
  have hlost : t.rotate.1.writeOutBuffers = t.writeOutBuffers →
      t.rotate.1.currentBuffer = t.currentBuffer.clear →
      0 < t.currentBuffer.handleLen →
      ¬(bankBytes t.writeOutBuffers.items ++ bytesOf t.currentBuffer.data).Sublist
        (bankBytes t.rotate.1.writeOutBuffers.items ++
          bytesOf t.rotate.1.currentBuffer.data) := by
    intro hwriteOut hcleared hlen hsub
    have hle := hsub.length_le
    rw [hwriteOut, hcleared] at hle
    unfold LogBuf.handleLen at hlen
    simp only [List.length_append, LogBuf.clear, bytesOf, List.flatMap_nil,
      List.length_nil] at hle hlen
    omega
  rcases t.rotate_cases with ⟨hlen, heq⟩ |
    ⟨next, avail, writeOut, hlen, hremove, hadd, heq⟩ | ⟨hlen, hnone, heq⟩ |
    ⟨next, avail, hlen, hremove, hfull, heq⟩
  · rw [heq]
    exact ⟨fun _ => Or.inl hlen, fun _ => List.Sublist.refl _⟩
  · have hadded := BoundedFifo.addIfRoom_eq_some hadd
    have havail := (BoundedFifo.remove_eq_some hremove).1
    constructor
    · intro _
      right
      refine ⟨?_, hadded.1⟩
      rw [havail]
      exact List.cons_ne_nil _ _
    · intro _
      rw [heq]
      dsimp only
      rw [hadded.2.1]
      unfold bankBytes
      rw [List.flatMap_append, List.flatMap_singleton]
      exact List.sublist_append_left _ _
  · constructor
    · intro hsub
      exact absurd hsub (hlost (by rw [heq]) (by rw [heq]) hlen)
    · rintro (hzero | ⟨hsome, -⟩)
      · omega
      · exact absurd hnone hsome
  · constructor
    · intro hsub
      exact absurd hsub (hlost (by rw [heq]) (by rw [heq]) hlen)
    · rintro (hzero | ⟨-, hroom⟩)
      · omega
      · exact absurd hroom hfull

theorem flushKeeps_iff_of_passedOn
    {t t' : LogTarget} {o o' : Owner} (h : t.Unblocked o)
    (hpassed : t.rotate.1.PassedOn t.rotate.1.writeOutBuffers.items t' o') :
    t.FlushKeeps t' o' ↔ t.CanRotate := by
  have hhanded := hpassed.handed
  rw [h.rotate.2.2] at hhanded
  rw [← losesNothing_iff_rotate hhanded hpassed.currentBuffer]
  exact ⟨FlushKeeps.losesNothing,
    fun hkept => ⟨hpassed.unlocked, hpassed.notStuck, hkept⟩⟩

theorem flushAll_keeps_iff
    {t : LogTarget} {o : Owner} (h : t.Unblocked o) (nocallbacks : Bool) :
    t.FlushKeeps (t.flushAll o true nocallbacks).1
      (t.flushAll o true nocallbacks).2 ↔ t.CanRotate := by
  apply flushKeeps_iff_of_passedOn h
  apply flushLoop_passesOn (k := t.rotate.1.kind) _ _ rfl h.rotate.1
  · exact fun t o b => (t.flush_frame o b nocallbacks).1.writeOutBuffers
  · exact fun t o b _ hunlocked hnotStuck hroom =>
      passedOn_flush hunlocked hnotStuck hroom b nocallbacks

theorem flushAllSync_keeps_iff_of_ne_tty
    {t : LogTarget} {o : Owner} (h : t.Unblocked o) (hkind : t.kind ≠ .tty)
    (nocallbacks : Bool) :
    t.FlushKeeps (t.flushAllSync o true nocallbacks).1
      (t.flushAllSync o true nocallbacks).2 ↔ t.CanRotate := by
  apply flushKeeps_iff_of_passedOn h
  apply flushLoop_passesOn (k := t.kind) _ _ h.rotate.2.1 h.rotate.1
  · exact fun t o b => t.flushSync_writeOut o b nocallbacks
  · exact fun t' o b hsame hunlocked hnotStuck hroom =>
      passedOn_flushSync (hsame ▸ hkind) hunlocked hnotStuck hroom b nocallbacks

theorem rotate_leaves_none
    {t : LogTarget} (hcan : t.CanRotate) :
    t.rotate.1.writeOutBuffers.items = [] ↔ t.NothingToFlush := by
  have hempty : t.currentBuffer.isEmpty = true ↔
      t.currentBuffer.handleLen = 0 := by
    simp [LogBuf.isEmpty]
  unfold NothingToFlush
  rw [hempty]
  rcases t.rotate_cases with ⟨hlen, heq⟩ |
    ⟨next, avail, writeOut, hlen, -, hadd, heq⟩ | ⟨hlen, hnone, -⟩ |
    ⟨next, avail, hlen, -, hfull, -⟩
  · rw [heq, and_iff_left hlen]
  · rw [heq]
    dsimp only
    rw [(BoundedFifo.addIfRoom_eq_some hadd).2.1]
    exact iff_of_false (by simp) fun hnothing => by omega
  · rcases hcan with hzero | ⟨hsome, -⟩
    · have := hempty.mp hzero
      omega
    · exact absurd hnone hsome
  · rcases hcan with hzero | ⟨-, hroom⟩
    · have := hempty.mp hzero
      omega
    · exact absurd hroom hfull

theorem flushAllSync_keeps_iff_of_tty
    {t : LogTarget} {o : Owner} (h : t.Unblocked o) (htty : t.kind = .tty)
    (nocallbacks : Bool) :
    t.FlushKeeps (t.flushAllSync o true nocallbacks).1
        (t.flushAllSync o true nocallbacks).2 ↔
      t.CanRotate ∧ t.NothingToFlush := by
  by_cases hwaiting : t.rotate.1.writeOutBuffers.items = []
  · have hsame : t.flushAllSync o true nocallbacks = (t.rotate.1, o) := by
      unfold flushAllSync
      simp [hwaiting, flushLoop]
    have hpassed : t.rotate.1.PassedOn t.rotate.1.writeOutBuffers.items
        (t.flushAllSync o true nocallbacks).1
        (t.flushAllSync o true nocallbacks).2 := by
      rw [hsame, hwaiting]
      exact ⟨rfl, rfl, (List.append_nil _).symm, rfl, le_rfl, h.unlocked,
        h.rotate.1.notStuck⟩
    rw [flushKeeps_iff_of_passedOn h hpassed]
    exact ⟨fun hcan => ⟨hcan, (rotate_leaves_none hcan).mp hwaiting⟩, And.left⟩
  · apply iff_of_false
    · intro hkept
      have hdead := flushLoop_tty (h.rotate.2.1.trans htty) hwaiting o
        nocallbacks
      have hunlocked := hkept.unlocked
      unfold flushAllSync at hunlocked
      simp [hdead] at hunlocked
    · rintro ⟨hcan, hnothing⟩
      exact hwaiting ((rotate_leaves_none hcan).mpr hnothing)

/-- A flush with rotation comes back and keeps every byte exactly if the current
bank is empty or can be rotated, and, if it is the synchronous flush of a tty,
there is nothing to flush. -/
theorem flush_losesNothing_iff
    {t : LogTarget} {o : Owner} (h : t.Unblocked o) (nocallbacks : Bool) :
    (t.FlushKeeps (t.flushAll o true nocallbacks).1
        (t.flushAll o true nocallbacks).2 ↔ t.CanRotate) ∧
      (t.FlushKeeps (t.flushAllSync o true nocallbacks).1
          (t.flushAllSync o true nocallbacks).2 ↔
        t.CanRotate ∧ (t.kind = .tty → t.NothingToFlush)) := by
  refine ⟨flushAll_keeps_iff h nocallbacks, ?_⟩
  by_cases htty : t.kind = .tty
  · rw [flushAllSync_keeps_iff_of_tty h htty]
    exact and_congr_right' ⟨fun hnothing _ => hnothing, fun hall => hall htty⟩
  · rw [flushAllSync_keeps_iff_of_ne_tty h htty]
    exact (and_iff_left fun hkind => absurd hkind htty).symm

end LogTarget

/-- A file target with two banks, one of which holds a message. -/
def filledTarget : LogTarget × Owner :=
  (LogTarget.new .file 2000 1 (some [10]) 2).write (Logger.new 2000).owner
    Logger.noFormatting 0 [104] (LogMeta.declare 0 1 0) Filter.empty

/-- The first bank is being written, and the other one holds a message. -/
def busyTarget : LogTarget :=
  let flushed := filledTarget.1.flushAll filledTarget.2 true false
  (flushed.1.write flushed.2 Logger.noFormatting 1 [105]
    (LogMeta.declare 0 1 0) Filter.empty).1

theorem flush_keeps_first_message :
    filledTarget.1.FlushKeeps
        (filledTarget.1.flushAll filledTarget.2 true false).1
        (filledTarget.1.flushAll filledTarget.2 true false).2 ∧
      filledTarget.1.FlushKeeps
        (filledTarget.1.flushAllSync filledTarget.2 true false).1
        (filledTarget.1.flushAllSync filledTarget.2 true false).2 := by
  have hunblocked : filledTarget.1.Unblocked filledTarget.2 :=
    ⟨by decide +kernel, by decide +kernel, by decide +kernel⟩
  have hflush := LogTarget.flush_losesNothing_iff hunblocked false
  exact ⟨hflush.1.mpr (by decide +kernel),
    hflush.2.mpr ⟨by decide +kernel, fun htty =>
      absurd htty (by decide +kernel)⟩⟩

theorem busyTarget_unblocked : busyTarget.Unblocked (Logger.new 2000).owner :=
  ⟨rfl, by decide +kernel, by decide +kernel⟩

/-- The second message of the busy target is gone after a flush. -/
theorem flush_discards_message :
    busyTarget.Unblocked (Logger.new 2000).owner ∧
      bytesOf busyTarget.currentBuffer.data = [105, 10] ∧
      ¬busyTarget.LosesNothing
        (busyTarget.flushAll (Logger.new 2000).owner true false).1 := by
  refine ⟨busyTarget_unblocked, by decide +kernel, ?_⟩
  intro hsub
  have hle := hsub.length_le
  revert hle
  decide +kernel

end GreaseLog
