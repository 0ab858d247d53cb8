import GreaseLog.FlushedBytes
import GreaseLog.LoggerSteps
import GreaseLog.Run

/-!
# The count that keeps the thread alive

`needGreaseThread` counts the reasons for the thread of the logger to go on.  A
write takes a reference when it comes to an empty bank, an overflow write
takes one of its own, and `returnBuffer` gives a reference back.  The count is
compared here with what the targets still hold: the banks with data in them
that are current, wait for the output or are being written, and the overflow
writes on their way.

References are lost in three ways: a message may leave an empty bank empty, a
rotation may clear a bank instead of passing it on, and the overflow write of
a callback target never ends.  A lost reference keeps the count too high; it
is too low only after so many references that the 32 bits wrap around.
-/

namespace GreaseLog

/-! ## Single operations -/

/-- What a target can do without interruption.  A `flushAll` is a rotation
followed by one `flush` for each waiting bank. -/
inductive TargetOp where
  | write (env : Formatting) (seq : ℕ) (text : List UInt8) (m : LogMeta)
      (filter : Filter)
  | rotate
  | flush (nocallbacks : Bool)
  | flushSync (nocallbacks : Bool)
  | writeOverflow (env : Formatting) (l : SingleLog) (filter : Filter)
  | completeWrite (i : ℕ)
  | completeOverflow (i : ℕ)
  | finalizeV8Callback (b : LogBuf)
  | disableWrites (v : Bool)
  | setCallback

namespace LogTarget

/-- One round of the loop of a flush. -/
def flushRound
    (out : LogTarget → Owner → LogBuf → LogTarget × Owner) (t : LogTarget)
    (o : Owner) : LogTarget × Owner :=
  match t.writeOutBuffers.remove with
  | none => (t, o)
  | some (b, writeOut) => out { t with writeOutBuffers := writeOut } o b

def op (t : LogTarget) (o : Owner) : TargetOp → LogTarget × Owner
  | .write env seq text m filter => t.write o env seq text m filter
  | .rotate => (t.rotate.1, o)
  | .flush nocallbacks => t.flushRound (fun t o b => t.flush o b nocallbacks) o
  | .flushSync nocallbacks =>
      t.flushRound (fun t o b => t.flushSync o b nocallbacks) o
  | .writeOverflow env l filter => t.writeOverflow o env l filter
  | .completeWrite i => t.completeWrite o i
  | .completeOverflow i => t.completeOverflow o i
  | .finalizeV8Callback b => (t.finalizeV8Callback b, o)
  | .disableWrites v => (t.disableWrites v, o)
  | .setCallback => (t.setCallback, o)

/-! ## What a target holds -/

end LogTarget

def LogBuf.weight (b : LogBuf) : ℕ := if b.isEmpty then 0 else 1

namespace LogTarget

/-- The banks with data that are current, wait for the output or are being
written, and the overflow writes on their way. -/
def held (t : LogTarget) : ℕ :=
  t.currentBuffer.weight + (t.writeOutBuffers.items.map LogBuf.weight).sum +
    (t.inFlight.map fun x => x.1.weight).sum + t.overflowInFlight.length

/-- The references an operation takes. -/
def refs (t : LogTarget) (o : Owner) : TargetOp → ℕ
  | .write env _ text m filter =>
      if t.disabled ∨ t.oversize text then 0
      else if t.fits env text m filter then
        if t.currentBuffer.isEmpty then 1 else 0
      else if t.rotate.2 ∧ o.internalCmdQueue.hasRoom then 1 else 0
  | .writeOverflow _ _ _ => if t.disabled then 0 else 1
  | _ => 0

end LogTarget

namespace Owner

structure SameCount (o o' : Owner) : Prop where
  needGreaseThread : o'.needGreaseThread = o.needGreaseThread
  unrefFailed : o'.unrefFailed = o.unrefFailed

/-- The owner after so many references were taken and then so many given
back. -/
def recount (o : Owner) (refs unrefs : ℕ) : Owner :=
  unrefGreaseInGrease^[unrefs] (refGreaseInGrease^[refs] o)

end Owner

namespace LogTarget

/-- The accounts of an operation: what was held and referenced before is held
still, was given back, or is lost. -/
structure Accounts (t : LogTarget) (o : Owner) (t' : LogTarget) (o' : Owner)
    (refs unrefs leak : ℕ) : Prop where
  held : t.held + refs = t'.held + unrefs + leak
  count : (o.recount refs unrefs).SameCount o'

/-! ## Banks coming back -/

theorem held_addAvail (t : LogTarget) (b : LogBuf) :
    (t.addAvail b).held = t.held := by
  rcases t.addAvail_cases b with ⟨avail, -, heq⟩ | ⟨-, heq⟩ <;> rw [heq] <;> rfl

theorem held_finalizeV8Callback (t : LogTarget) (b : LogBuf) :
    (t.finalizeV8Callback b).held = t.held := by
  rcases t.finalizeV8Callback_cases b with ⟨avail, -, heq⟩ | ⟨-, heq⟩ <;>
    rw [heq]
  rfl

theorem held_returnBuffer
    (t : LogTarget) (o : Owner) (b : LogBuf) (sync nocallback : Bool) :
    (t.returnBuffer o b sync nocallback).1.held = t.held := by
  rcases t.returnBuffer_cases o b sync nocallback with
    ⟨o', -, heq | ⟨callbacks, -, heq⟩ | ⟨-, heq⟩⟩ <;> rw [heq]
  exact t.held_addAvail b

end LogTarget

namespace Owner

theorem SameCount.trans {o o' o'' : Owner}
    (h : o.SameCount o') (h' : o'.SameCount o'') : o.SameCount o'' :=
  ⟨h'.needGreaseThread.trans h.needGreaseThread,
    h'.unrefFailed.trans h.unrefFailed⟩

theorem SameCount.unref {o o' : Owner} (h : o.SameCount o') :
    o.unrefGreaseInGrease.SameCount o'.unrefGreaseInGrease := by
  unfold unrefGreaseInGrease
  rw [h.needGreaseThread]
  split
  · exact ⟨rfl, rfl⟩
  · exact ⟨rfl, h.unrefFailed⟩

theorem deadlocked_unref (o : Owner) :
    o.unrefGreaseInGrease.deadlocked = o.deadlocked := by
  unfold unrefGreaseInGrease
  split <;> rfl

end Owner

namespace LogTarget

/-- A bank that comes back gives a reference back if there is data in it. -/
theorem returnBuffer_count
    (t : LogTarget) (o : Owner) (b : LogBuf) (sync nocallback : Bool) :
    (o.recount 0 b.weight).SameCount
        (t.returnBuffer o b sync nocallback).2 ∧
      (t.returnBuffer o b sync nocallback).2.deadlocked = o.deadlocked := by
  have hrecount : o.recount 0 b.weight =
      if b.isEmpty then o else o.unrefGreaseInGrease := by
    unfold LogBuf.weight
    split <;> rfl
  have hdeadlocked : (if b.isEmpty then o else
      o.unrefGreaseInGrease).deadlocked = o.deadlocked := by
    split
    · rfl
    · exact o.deadlocked_unref
  rw [hrecount]
  unfold returnBuffer
  dsimp only
  generalize (if b.isEmpty then o else o.unrefGreaseInGrease) = counted
    at hdeadlocked ⊢
  split
  · split
    · exact ⟨⟨rfl, rfl⟩, hdeadlocked⟩
    · split
      · exact ⟨⟨rfl, rfl⟩, hdeadlocked⟩
      · exact ⟨⟨rfl, rfl⟩, hdeadlocked⟩
  · exact ⟨⟨rfl, rfl⟩, hdeadlocked⟩

theorem returnOverflow_count
    (t : LogTarget) (o : Owner) (bufs : List SingleLog) (nocallback : Bool) :
    (o.recount 0 1).SameCount (t.returnOverflow o bufs nocallback) ∧
      (t.returnOverflow o bufs nocallback).deadlocked = o.deadlocked := by
  have hdeadlocked := o.deadlocked_unref
  unfold returnOverflow
  dsimp only
  split
  · split
    · exact ⟨⟨rfl, rfl⟩, hdeadlocked⟩
    · exact ⟨⟨rfl, rfl⟩, hdeadlocked⟩
  · exact ⟨⟨rfl, rfl⟩, hdeadlocked⟩

/-! ## Output -/

theorem held_of_remove
    {t : LogTarget} {b : LogBuf} {writeOut : BoundedFifo LogBuf}
    (hremove : t.writeOutBuffers.remove = some (b, writeOut)) :
    t.held = b.weight + { t with writeOutBuffers := writeOut }.held := by
  have hitems := (BoundedFifo.remove_eq_some hremove).1
  unfold held
  rw [hitems, List.map_cons, List.sum_cons]
  dsimp only
  omega

theorem flush_accounts
    (t : LogTarget) (o : Owner) (b : LogBuf) (nocallbacks : Bool) :
    ∃ unrefs, b.weight + t.held =
        (t.flush o b nocallbacks).1.held + unrefs ∧
      (o.recount 0 unrefs).SameCount (t.flush o b nocallbacks).2 ∧
      (t.flush o b nocallbacks).2.deadlocked = o.deadlocked := by
  rcases t.flush_cases o b nocallbacks with heq | heq <;> rw [heq]
  · refine ⟨0, ?_, ⟨rfl, rfl⟩, rfl⟩
    unfold held
    dsimp only
    rw [List.map_append, List.sum_append, List.map_singleton,
      List.sum_singleton]
    dsimp only
    omega
  · have hcount := returnBuffer_count
      { t with handed := t.handed ++ [Handed.bank b.data] } o b false
      nocallbacks
    refine ⟨b.weight, ?_, hcount⟩
    rw [held_returnBuffer]
    unfold held
    dsimp only
    omega

/-- A synchronous flush of a tty does not come back. -/
theorem flushSync_accounts
    (t : LogTarget) (o : Owner) (b : LogBuf) (nocallbacks : Bool) :
    ∃ unrefs leak, b.weight + t.held =
        (t.flushSync o b nocallbacks).1.held + unrefs + leak ∧
      (o.recount 0 unrefs).SameCount (t.flushSync o b nocallbacks).2 ∧
      ((t.flushSync o b nocallbacks).2.deadlocked = false →
        o.deadlocked = false ∧ leak = 0) := by
  unfold flushSync
  split
  · exact ⟨0, b.weight, Nat.add_comm b.weight t.held, ⟨rfl, rfl⟩, by simp⟩
  · have hcount := returnBuffer_count
      { t with handed := t.handed ++ [Handed.bank b.data] } o b true
      nocallbacks
    refine ⟨b.weight, 0, ?_, hcount.1, ?_⟩
    · rw [held_returnBuffer]
      unfold held
      dsimp only
      omega
    · intro hfalse
      rw [hcount.2] at hfalse
      exact ⟨hfalse, rfl⟩

/-! ## Rotation -/

theorem rotate_accounts {t : LogTarget} (havail : t.AvailEmpty) :
    ∃ leak, t.held = t.rotate.1.held + leak ∧ (t.CanRotate → leak = 0) := by
  have hcleared : ∀ avail lost, t.held = { t with
      availBuffers := avail
      currentBuffer := t.currentBuffer.clear
      lost := lost }.held + t.currentBuffer.weight := by
    intro avail lost
    have hzero : t.currentBuffer.clear.weight = 0 := rfl
    unfold held
    dsimp only
    omega
  have hdata : 0 < t.currentBuffer.handleLen →
      ¬t.currentBuffer.isEmpty = true := by
    intro hlen hempty
    simp [LogBuf.isEmpty] at hempty
    omega
  rcases t.rotate_cases with ⟨-, heq⟩ |
    ⟨next, avail, writeOut, -, hremove, hadd, heq⟩ | ⟨hlen, hnone, heq⟩ |
    ⟨next, avail, hlen, -, hfull, heq⟩ <;> rw [heq]
  · exact ⟨0, rfl, fun _ => rfl⟩
  · refine ⟨0, ?_, fun _ => rfl⟩
    have hnext : next.weight = 0 := by
      have hin : next ∈ t.availBuffers.items := by
        simp [(BoundedFifo.remove_eq_some hremove).1]
      simp [LogBuf.weight, LogBuf.isEmpty, LogBuf.handleLen, bytesOf,
        havail next hin]
    unfold held
    dsimp only
    rw [(BoundedFifo.addIfRoom_eq_some hadd).2.1, List.map_append,
      List.sum_append, List.map_singleton, List.sum_singleton]
    omega
  · refine ⟨t.currentBuffer.weight, hcleared _ _, ?_⟩
    rintro (hempty | ⟨hsome, -⟩)
    · exact absurd hempty (hdata hlen)
    · exact absurd hnone hsome
  · refine ⟨t.currentBuffer.weight, hcleared _ _, ?_⟩
    rintro (hempty | ⟨-, hroom⟩)
    · exact absurd hempty (hdata hlen)
    · exact absurd hroom hfull

/-- After a rotation that succeeds the current bank is empty. -/
theorem rotate_current_empty
    {t : LogTarget} (havail : t.AvailEmpty) (hrotated : t.rotate.2 = true) :
    t.rotate.1.currentBuffer.isEmpty = true := by
  rcases t.rotate_cases with ⟨-, heq⟩ |
    ⟨next, avail, writeOut, -, hremove, -, heq⟩ | ⟨-, -, heq⟩ |
    ⟨next, avail, -, -, -, heq⟩
  · simp [heq] at hrotated
  · have hin : next ∈ t.availBuffers.items := by
      simp [(BoundedFifo.remove_eq_some hremove).1]
    rw [heq]
    simp [LogBuf.isEmpty, LogBuf.handleLen, bytesOf, havail next hin]
  · simp [heq] at hrotated
  · simp [heq] at hrotated

end LogTarget

/-! ## Writing -/

theorem LogBuf.isEmpty_iff (b : LogBuf) :
    b.isEmpty = true ↔ bytesOf b.data = [] := by
  simp [isEmpty, handleLen]

theorem bytesOf_takeBytes (n : ℕ) (pieces : List Piece) :
    bytesOf (takeBytes n pieces) = (bytesOf pieces).take n := by
  induction pieces generalizing n with
  | nil => simp [takeBytes, bytesOf]
  | cons piece rest ih =>
      unfold takeBytes
      split
      · rename_i hn
        simp [bytesOf, hn]
      · have hrest := ih (n - piece.bytes.length)
        unfold bytesOf at hrest ⊢
        rw [List.flatMap_cons, List.flatMap_cons, List.take_append, hrest]

theorem LogBuf.isEmpty_copyIn
    (b : LogBuf) (seq : ℕ) (s : List UInt8) (useDelim : Bool)
    (hspace : 0 < b.space) :
    (b.copyIn seq s useDelim).isEmpty = true ↔ b.isEmpty = true ∧ s = [] := by
  rw [isEmpty_iff, isEmpty_iff]
  by_cases hfits : b.handleLen ≤ b.space
  · rw [b.bytesOf_copyIn seq s useDelim hfits]
    by_cases hs : s = [] <;> simp [hs]
  · have hdata : bytesOf b.data ≠ [] := by
      intro hnil
      simp [handleLen, hnil] at hfits
    unfold copyIn
    by_cases hs : s = []
    · simp [hs]
    · rw [if_neg hs, if_pos (by omega)]
      dsimp only
      rw [bytesOf_takeBytes, List.take_eq_nil_iff]
      simp [hs, hdata, hspace.ne']

namespace LogTarget

/-- The bank has a byte in it after the message was copied. -/
def LeavesByte (t : LogTarget) (env : Formatting)
    (header text footer : List UInt8) : Prop :=
  0 < t.currentBuffer.space ∧
    (t.currentBuffer.isEmpty = false ∨
      header ++ t.copiedText env text ++ footer ++
        t.copiedDelim text footer ≠ [])

instance (t : LogTarget) (env : Formatting) (header text footer : List UInt8) :
    Decidable (t.LeavesByte env header text footer) :=
  inferInstanceAs (Decidable (_ ∧ _))

theorem LeavesByte.copyMessage
    {t : LogTarget} {env : Formatting} {header text footer : List UInt8}
    (h : t.LeavesByte env header text footer) (seq : ℕ) :
    (t.copyMessage env seq header text footer).currentBuffer.isEmpty =
      false := by
  rcases h with ⟨hspace, hbytes⟩
  set b := t.currentBuffer with hb
  set b₁ := b.copyIn seq header false with hb₁
  have hempty₁ := b.isEmpty_copyIn seq header false hspace
  rcases b.copyIn_frame seq header false with ⟨-, hspace₁, hdelim₁⟩
  rw [← hb₁] at hempty₁ hspace₁ hdelim₁
  set b₂ := if t.escapes then
      b₁.copyInJsonEscape env.jsonEscape seq text footer.isEmpty
    else b₁.copyIn seq text footer.isEmpty with hb₂
  have hspace₂ : b₂.space = b.space := by
    rw [hb₂]
    split
    · unfold LogBuf.copyInJsonEscape
      split <;> exact hspace₁
    · exact (b₁.copyIn_frame seq text footer.isEmpty).2.1.trans hspace₁
  have hresult : (t.copyMessage env seq header text footer).currentBuffer =
      if footer.isEmpty then b₂ else b₂.copyIn seq footer true := rfl
  rw [hresult, ← Bool.not_eq_true]
  cases footer with
  | cons c rest =>
      have hfooter := b₂.isEmpty_copyIn seq (c :: rest) true (by omega)
      simp [hfooter]
  | nil =>
      rw [List.isEmpty_nil, if_pos rfl]
      intro hempty
      -- Every part of the message is missing.
      have hparts : b₁.isEmpty = true ∧ t.copiedText env text = [] ∧
          t.copiedDelim text [] = [] := by
        unfold copiedText copiedDelim
        rw [← hb]
        by_cases hescapes : t.escapes = true
        · rw [hb₂, if_pos hescapes, LogBuf.isEmpty_iff,
            b₁.bytesOf_copyInJsonEscape, hspace₁, hdelim₁] at hempty
          rw [LogBuf.isEmpty_iff]
          by_cases hnil : text = []
          · simpa [hnil] using hempty
          · simpa [hnil, hescapes, and_assoc] using hempty
        · rw [hb₂, if_neg hescapes,
            b₁.isEmpty_copyIn seq text _ (by omega)] at hempty
          exact ⟨hempty.1, by simp [hempty.2], by simp [hempty.2]⟩
      rcases hempty₁.mp hparts.1 with ⟨hcurrent, hheader⟩
      rcases hbytes with hdata | hsome
      · rw [hdata] at hcurrent
        simp at hcurrent
      · exact hsome (by rw [hheader, hparts.2.1, hparts.2.2]; rfl)

theorem held_copyMessage
    (t : LogTarget) (env : Formatting) (seq : ℕ)
    (header text footer : List UInt8) :
    (t.copyMessage env seq header text footer).held + t.currentBuffer.weight =
      t.held + (t.copyMessage env seq header text footer).currentBuffer.weight := by
  unfold held copyMessage
  dsimp only
  omega

/-- The operations that give back every reference they should: the bank a
message comes to is not left empty, a bank with data is not cleared by a
rotation, and no overflow write goes to a callback target. -/
def Settles (t : LogTarget) (o : Owner) : TargetOp → Prop
  | .write env _ text m filter =>
      t.disabled = false → ¬t.oversize text →
        (t.fits env text m filter →
          t.LeavesByte env (env.header t.myId m filter) text
            (env.footer t.myId m filter)) ∧
        (¬t.fits env text m filter → t.CanRotate ∧
          (t.rotate.2 = true → o.internalCmdQueue.hasRoom →
            t.rotate.1.LeavesByte env (env.header t.myId m filter) text
              (env.footer t.myId m filter)))
  | .rotate => t.CanRotate
  | .writeOverflow _ _ _ => t.disabled = true ∨ t.kind ≠ .callback
  | _ => True

instance (t : LogTarget) (o : Owner) (a : TargetOp) :
    Decidable (t.Settles o a) := by
  unfold Settles
  cases a <;> infer_instance

theorem weight_le_one (b : LogBuf) : b.weight ≤ 1 := by
  unfold LogBuf.weight
  split <;> omega

theorem write_count
    (t : LogTarget) (o : Owner) (env : Formatting) (seq : ℕ)
    (text : List UInt8) (m : LogMeta) (filter : Filter) :
    (o.recount (t.refs o (.write env seq text m filter)) 0).SameCount
        (t.write o env seq text m filter).2 ∧
      (t.write o env seq text m filter).2.deadlocked = o.deadlocked := by
  unfold write refs
  cases hdisabled : t.disabled with
  | true => exact ⟨⟨rfl, rfl⟩, rfl⟩
  | false =>
      simp only [Bool.false_eq_true, if_false, false_or]
      by_cases hover : t.oversize text
      · have hlarge : t.bankSize < text.length + greaseMaxPrefixHeader := hover
        simp only [if_pos hover, if_pos hlarge]
        split <;> exact ⟨⟨rfl, rfl⟩, rfl⟩
      · have hlarge : ¬t.bankSize < text.length + greaseMaxPrefixHeader := hover
        simp only [if_neg hover, if_neg hlarge]
        by_cases hfits : t.fits env text m filter
        · have hremain : text.length + (env.header t.myId m filter).length +
              (env.footer t.myId m filter).length ≤ t.currentBuffer.remain :=
            hfits
          simp only [if_pos hfits, if_pos hremain]
          split <;> exact ⟨⟨rfl, rfl⟩, rfl⟩
        · have hremain : ¬text.length + (env.header t.myId m filter).length +
              (env.footer t.myId m filter).length ≤ t.currentBuffer.remain :=
            hfits
          simp only [if_neg hfits, if_neg hremain]
          cases hadd : o.internalCmdQueue.addIfRoom
              (.targetRotateBuffer t.myId) with
          | none =>
              have hfull := BoundedFifo.addIfRoom_eq_none_iff.mp hadd
              rw [if_neg fun h => hfull h.2]
              split <;> exact ⟨⟨rfl, rfl⟩, rfl⟩
          | some queue =>
              have hroom := (BoundedFifo.addIfRoom_eq_some hadd).1
              cases t.rotate.2 <;> simp only [hroom, and_true, if_true,
                Bool.false_eq_true, if_false] <;> exact ⟨⟨rfl, rfl⟩, rfl⟩

theorem write_accounts
    {t : LogTarget} (havail : t.AvailEmpty) (o : Owner) (env : Formatting)
    (seq : ℕ) (text : List UInt8) (m : LogMeta) (filter : Filter) :
    ∃ leak, t.held + t.refs o (.write env seq text m filter) =
        (t.write o env seq text m filter).1.held + leak ∧
      (t.Settles o (.write env seq text m filter) → leak = 0) := by
  rcases t.rotate_accounts havail with ⟨dropped, hrotate, hkeeps⟩
  have hcopied : ∀ (t : LogTarget) (header footer : List UInt8),
      t.LeavesByte env header text footer →
      (t.copyMessage env seq header text footer).currentBuffer.weight = 1 := by
    intro t header footer hleaves
    simp [LogBuf.weight, hleaves.copyMessage seq]
  rcases t.write_cases o env seq text m filter with ⟨hrefused, heq⟩ |
    ⟨-, hover, queue, -, heq⟩ | ⟨hon, hsmall, hfits, o', -, heq⟩ |
    ⟨hon, hsmall, hfits, hrotated, queue, o', hadd, -, heq⟩ |
    ⟨hon, hsmall, hfits, hfull, heq⟩ <;> rw [heq]
  · refine ⟨0, ?_, fun _ => rfl⟩
    have hskip : t.disabled = true ∨ t.oversize text :=
      hrefused.imp_right And.left
    simp [refs, hskip]
  · exact ⟨0, by simp [refs, hover], fun _ => rfl⟩
  · set t' := t.copyMessage env seq (env.header t.myId m filter) text
      (env.footer t.myId m filter) with ht'
    have hheld := t.held_copyMessage env seq (env.header t.myId m filter) text
      (env.footer t.myId m filter)
    rw [← ht'] at hheld
    have hrefs : t.refs o (.write env seq text m filter) +
        t.currentBuffer.weight = 1 := by
      simp only [refs, hon, hsmall, hfits, LogBuf.weight, Bool.false_eq_true,
        or_self, if_true, if_false]
      split <;> rfl
    have hle := weight_le_one t'.currentBuffer
    refine ⟨1 - t'.currentBuffer.weight, by dsimp only; omega, ?_⟩
    intro hsettles
    have hone := hcopied t _ _ ((hsettles hon hsmall).1 hfits)
    rw [← ht'] at hone
    omega
  · set t' := t.rotate.1.copyMessage env seq (env.header t.myId m filter) text
      (env.footer t.myId m filter) with ht'
    have hheld := t.rotate.1.held_copyMessage env seq
      (env.header t.myId m filter) text (env.footer t.myId m filter)
    rw [← ht'] at hheld
    have hzero : t.rotate.1.currentBuffer.weight = 0 := by
      simp [LogBuf.weight, rotate_current_empty havail hrotated]
    have hroom := (BoundedFifo.addIfRoom_eq_some hadd).1
    have hrefs : t.refs o (.write env seq text m filter) = 1 := by
      simp [refs, hon, hsmall, hfits, hrotated, hroom]
    have hle := weight_le_one t'.currentBuffer
    refine ⟨dropped + (1 - t'.currentBuffer.weight), by dsimp only; omega, ?_⟩
    intro hsettles
    rcases (hsettles hon hsmall).2 hfits with ⟨hcan, hleaves⟩
    have hone := hcopied t.rotate.1 _ _ (hleaves hrotated hroom)
    rw [← ht'] at hone
    have hnone := hkeeps hcan
    omega
  · have hrefs : t.refs o (.write env seq text m filter) = 0 := by
      simp only [refs, hon, hsmall, hfits, Bool.false_eq_true, or_self,
        if_false]
      rw [if_neg fun h => hfull h.1 h.2]
    refine ⟨dropped, by dsimp only; omega, ?_⟩
    intro hsettles
    exact hkeeps ((hsettles hon hsmall).2 hfits).1

/-! ## Large messages and completions -/

theorem writeOverflow_accounts
    (t : LogTarget) (o : Owner) (env : Formatting) (l : SingleLog)
    (filter : Filter) :
    ∃ unrefs leak, t.Accounts o (t.writeOverflow o env l filter).1
        (t.writeOverflow o env l filter).2
        (t.refs o (.writeOverflow env l filter)) unrefs leak ∧
      (t.writeOverflow o env l filter).2.deadlocked = o.deadlocked ∧
      (t.Settles o (.writeOverflow env l filter) → leak = 0) := by
  unfold writeOverflow refs Settles
  dsimp only
  by_cases hdisabled : t.disabled = true
  · simp only [if_pos hdisabled]
    exact ⟨0, 0, ⟨rfl, rfl, rfl⟩, rfl, fun _ => rfl⟩
  · simp only [if_neg hdisabled]
    unfold writeAsyncOverflow
    dsimp only
    split
    · refine ⟨0, 0, ⟨?_, rfl, rfl⟩, rfl, fun _ => rfl⟩
      simp [held]
      omega
    · have hcount := returnOverflow_count { t with handed := t.handed ++
          [Handed.overflow (t.overflowBufs env l filter)] }
        (o.refGreaseInGrease.deliver ⟨filter, t.myId, l.seq⟩)
        (t.overflowBufs env l filter) false
      have hdelivered : o.refGreaseInGrease.SameCount
          (o.refGreaseInGrease.deliver ⟨filter, t.myId, l.seq⟩) := ⟨rfl, rfl⟩
      exact ⟨1, 0, ⟨rfl, hdelivered.unref.trans hcount.1⟩, hcount.2,
        fun _ => rfl⟩
    · rename_i hkind
      have hnever : t.disabled = true ∨ t.kind ≠ .callback → (1 : ℕ) = 0 := by
        rintro (hon | hother)
        · exact absurd hon hdisabled
        · exact absurd hkind hother
      split
      · split
        · exact ⟨0, 1, ⟨rfl, rfl, rfl⟩, rfl, hnever⟩
        · exact ⟨0, 1, ⟨rfl, rfl, rfl⟩, rfl, hnever⟩
      · exact ⟨0, 1, ⟨rfl, rfl, rfl⟩, rfl, hnever⟩

theorem completeWrite_accounts (t : LogTarget) (o : Owner) (i : ℕ) :
    ∃ unrefs, t.Accounts o (t.completeWrite o i).1 (t.completeWrite o i).2 0
        unrefs 0 ∧
      (t.completeWrite o i).2.deadlocked = o.deadlocked := by
  unfold completeWrite
  split
  · exact ⟨0, ⟨rfl, rfl, rfl⟩, rfl⟩
  · rename_i b nocallback hget
    rcases List.getElem?_eq_some_iff.mp hget with ⟨hi, hitem⟩
    have hperm := List.getElem_cons_eraseIdx_perm hi
    have hsum := (hperm.map fun x => x.1.weight).sum_eq
    rw [List.map_cons, List.sum_cons, hitem] at hsum
    have hcount := returnBuffer_count
      { t with inFlight := t.inFlight.eraseIdx i } o b false nocallback
    refine ⟨b.weight, ⟨?_, hcount.1⟩, hcount.2⟩
    rw [held_returnBuffer]
    unfold held
    dsimp only at hsum ⊢
    omega

theorem completeOverflow_accounts (t : LogTarget) (o : Owner) (i : ℕ) :
    ∃ unrefs, t.Accounts o (t.completeOverflow o i).1
        (t.completeOverflow o i).2 0 unrefs 0 ∧
      (t.completeOverflow o i).2.deadlocked = o.deadlocked := by
  unfold completeOverflow
  split
  · exact ⟨0, ⟨rfl, rfl, rfl⟩, rfl⟩
  · rename_i bufs nocallback hget
    rcases List.getElem?_eq_some_iff.mp hget with ⟨hi, -⟩
    have hlength := List.length_eraseIdx_of_lt hi
    have hcount := returnOverflow_count
      { t with overflowInFlight := t.overflowInFlight.eraseIdx i } o bufs
      nocallback
    refine ⟨1, ⟨?_, hcount.1⟩, hcount.2⟩
    unfold held
    dsimp only
    omega

/-! ## Every operation -/

theorem op_accounts
    {t : LogTarget} (havail : t.AvailEmpty) (o : Owner) (a : TargetOp) :
    ∃ unrefs leak,
      t.Accounts o (t.op o a).1 (t.op o a).2 (t.refs o a) unrefs leak ∧
      ((t.op o a).2.deadlocked = false → o.deadlocked = false ∧
        (t.Settles o a → leak = 0)) := by
  cases a with
  | write env seq text m filter =>
      rcases write_accounts havail o env seq text m filter with
        ⟨leak, hheld, hsettles⟩
      have hcount := t.write_count o env seq text m filter
      exact ⟨0, leak, ⟨hheld, hcount.1⟩,
        fun hfalse => ⟨hcount.2 ▸ hfalse, hsettles⟩⟩
  | rotate =>
      rcases t.rotate_accounts havail with ⟨leak, hheld, hsettles⟩
      exact ⟨0, leak, ⟨hheld, rfl, rfl⟩, fun hfalse => ⟨hfalse, hsettles⟩⟩
  | flush nocallbacks =>
      unfold op flushRound
      dsimp only
      split
      · exact ⟨0, 0, ⟨rfl, rfl, rfl⟩, fun hfalse => ⟨hfalse, fun _ => rfl⟩⟩
      · rename_i b writeOut hremove
        rcases flush_accounts { t with writeOutBuffers := writeOut } o b
          nocallbacks with ⟨unrefs, hheld, hcount, hdeadlocked⟩
        refine ⟨unrefs, 0, ⟨?_, hcount⟩,
          fun hfalse => ⟨hdeadlocked ▸ hfalse, fun _ => rfl⟩⟩
        exact (held_of_remove hremove).trans hheld
  | flushSync nocallbacks =>
      unfold op flushRound
      dsimp only
      split
      · exact ⟨0, 0, ⟨rfl, rfl, rfl⟩, fun hfalse => ⟨hfalse, fun _ => rfl⟩⟩
      · rename_i b writeOut hremove
        rcases flushSync_accounts { t with writeOutBuffers := writeOut } o b
          nocallbacks with ⟨unrefs, leak, hheld, hcount, hdeadlocked⟩
        refine ⟨unrefs, leak, ⟨?_, hcount⟩, fun hfalse =>
          ⟨(hdeadlocked hfalse).1, fun _ => (hdeadlocked hfalse).2⟩⟩
        exact (held_of_remove hremove).trans hheld
  | writeOverflow env l filter =>
      rcases t.writeOverflow_accounts o env l filter with
        ⟨unrefs, leak, haccounts, hdeadlocked, hsettles⟩
      exact ⟨unrefs, leak, haccounts,
        fun hfalse => ⟨hdeadlocked ▸ hfalse, hsettles⟩⟩
  | completeWrite i =>
      rcases t.completeWrite_accounts o i with
        ⟨unrefs, haccounts, hdeadlocked⟩
      exact ⟨unrefs, 0, haccounts,
        fun hfalse => ⟨hdeadlocked ▸ hfalse, fun _ => rfl⟩⟩
  | completeOverflow i =>
      rcases t.completeOverflow_accounts o i with
        ⟨unrefs, haccounts, hdeadlocked⟩
      exact ⟨unrefs, 0, haccounts,
        fun hfalse => ⟨hdeadlocked ▸ hfalse, fun _ => rfl⟩⟩
  | finalizeV8Callback b =>
      exact ⟨0, 0, ⟨(t.held_finalizeV8Callback b).symm, rfl, rfl⟩,
        fun hfalse => ⟨hfalse, fun _ => rfl⟩⟩
  | disableWrites v =>
      exact ⟨0, 0, ⟨rfl, rfl, rfl⟩, fun hfalse => ⟨hfalse, fun _ => rfl⟩⟩
  | setCallback =>
      exact ⟨0, 0, ⟨rfl, rfl, rfl⟩, fun hfalse => ⟨hfalse, fun _ => rfl⟩⟩

theorem AvailEmpty.flush
    {t : LogTarget} (h : t.AvailEmpty) (o : Owner) (b : LogBuf)
    (nocallbacks : Bool) : (t.flush o b nocallbacks).1.AvailEmpty := by
  rcases t.flush_cases o b nocallbacks with heq | heq <;> rw [heq]
  · exact h
  · have hhanded : { t with
        handed := t.handed ++ [Handed.bank b.data] }.AvailEmpty := h
    exact hhanded.returnBuffer o b false nocallbacks

theorem AvailEmpty.flushSync
    {t : LogTarget} (h : t.AvailEmpty) (o : Owner) (b : LogBuf)
    (nocallbacks : Bool) : (t.flushSync o b nocallbacks).1.AvailEmpty := by
  unfold LogTarget.flushSync
  split
  · exact h
  · have hhanded : { t with
        handed := t.handed ++ [Handed.bank b.data] }.AvailEmpty := h
    exact hhanded.returnBuffer o b true nocallbacks

theorem AvailEmpty.flushRound
    {t : LogTarget} {out : LogTarget → Owner → LogBuf → LogTarget × Owner}
    (h : t.AvailEmpty) (o : Owner)
    (hout : ∀ t : LogTarget, t.AvailEmpty → ∀ o b, (out t o b).1.AvailEmpty) :
    (t.flushRound out o).1.AvailEmpty := by
  unfold LogTarget.flushRound
  split
  · exact h
  · rename_i b writeOut _
    exact hout { t with writeOutBuffers := writeOut } h o b

theorem AvailEmpty.op
    {t : LogTarget} (h : t.AvailEmpty) (o : Owner) (a : TargetOp) :
    (t.op o a).1.AvailEmpty := by
  cases a with
  | write env seq text m filter => exact h.write o env seq text m filter
  | rotate => exact h.rotate
  | flush nocallbacks =>
      exact h.flushRound o fun t ht o b => ht.flush o b nocallbacks
  | flushSync nocallbacks =>
      exact h.flushRound o fun t ht o b => ht.flushSync o b nocallbacks
  | writeOverflow env l filter => exact h.writeOverflow o env l filter
  | completeWrite i => exact h.completeWrite o i
  | completeOverflow i => exact h.completeOverflow o i
  | finalizeV8Callback b => exact h.finalizeV8Callback b
  | disableWrites v => exact h
  | setCallback => exact h

end LogTarget

end GreaseLog
