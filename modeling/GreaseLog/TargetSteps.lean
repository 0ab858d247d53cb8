import GreaseLog.Logger

/-!
# What an act can do to a target

One inversion lemma for each operation of a target.  Later files never unfold
the operations: they take the cases from here and follow the quantity they are
interested in.
-/

namespace GreaseLog

/-! ## The owner -/

structure Owner.OnlyRefs (o o' : Owner) : Prop where
  internalCmdQueue : o'.internalCmdQueue = o.internalCmdQueue
  callerLogCallbacks : o'.callerLogCallbacks = o.callerLogCallbacks
  userBufs : o'.userBufs = o.userBufs
  delivered : o'.delivered = o.delivered
  refused : o'.refused = o.refused

structure Owner.SameQueue (o o' : Owner) : Prop where
  internalCmdQueue : o'.internalCmdQueue = o.internalCmdQueue
  delivered : o'.delivered = o.delivered
  refused : o'.refused = o.refused

namespace Owner

theorem OnlyRefs.refl (o : Owner) : o.OnlyRefs o := ⟨rfl, rfl, rfl, rfl, rfl⟩

theorem onlyRefs_refGreaseInGrease (o : Owner) :
    o.OnlyRefs o.refGreaseInGrease := ⟨rfl, rfl, rfl, rfl, rfl⟩

theorem onlyRefs_unrefGreaseInGrease (o : Owner) :
    o.OnlyRefs o.unrefGreaseInGrease := by
  unfold unrefGreaseInGrease
  split <;> exact ⟨rfl, rfl, rfl, rfl, rfl⟩

theorem OnlyRefs.sameQueue {o o' : Owner} (h : o.OnlyRefs o') :
    o.SameQueue o' :=
  ⟨h.internalCmdQueue, h.delivered, h.refused⟩

theorem SameQueue.refl (o : Owner) : o.SameQueue o := ⟨rfl, rfl, rfl⟩

theorem SameQueue.trans {o o' o'' : Owner}
    (h : o.SameQueue o') (h' : o'.SameQueue o'') : o.SameQueue o'' :=
  ⟨h'.internalCmdQueue.trans h.internalCmdQueue,
    h'.delivered.trans h.delivered, h'.refused.trans h.refused⟩

end Owner

namespace LogTarget

/-! ## Banks coming back -/

theorem addAvail_cases (t : LogTarget) (b : LogBuf) :
    (∃ avail, t.availBuffers.addIfRoom b.clear = some avail ∧
        t.addAvail b = { t with availBuffers := avail }) ∨
      (¬t.availBuffers.hasRoom ∧ t.addAvail b = { t with stuck := true }) := by
  unfold addAvail
  cases hadd : t.availBuffers.addIfRoom b.clear with
  | some avail => exact Or.inl ⟨avail, rfl, rfl⟩
  | none =>
      exact Or.inr ⟨BoundedFifo.addIfRoom_eq_none_iff.mp hadd, rfl⟩

theorem finalizeV8Callback_cases (t : LogTarget) (b : LogBuf) :
    (∃ avail, t.availBuffers.addIfRoom b.clear = some avail ∧
        t.finalizeV8Callback b = { t with availBuffers := avail }) ∨
      (¬t.availBuffers.hasRoom ∧ t.finalizeV8Callback b = t) := by
  unfold finalizeV8Callback
  cases hadd : t.availBuffers.addIfRoom b.clear with
  | some avail => exact Or.inl ⟨avail, rfl, rfl⟩
  | none =>
      exact Or.inr ⟨BoundedFifo.addIfRoom_eq_none_iff.mp hadd, rfl⟩

/-- A bank goes back to the target, to the queue of callbacks or, in a
synchronous flush, straight to the user. -/
theorem returnBuffer_cases
    (t : LogTarget) (o : Owner) (b : LogBuf) (sync nocallback : Bool) :
    ∃ o', o.OnlyRefs o' ∧
      (t.returnBuffer o b sync nocallback = (t.addAvail b, o') ∨
        (∃ callbacks,
          o.callerLogCallbacks.addIfRoom (.bank t.myId b) = some callbacks ∧
          t.returnBuffer o b sync nocallback =
            (t, { o' with callerLogCallbacks := callbacks })) ∨
        (sync = true ∧ t.returnBuffer o b sync nocallback =
          (t, { o' with userBufs :=
            o.userBufs ++ [.bank t.myId.toInt32 b] }))) := by
  have hrefs : o.OnlyRefs (if b.isEmpty then o else o.unrefGreaseInGrease) := by
    split
    · exact Owner.OnlyRefs.refl o
    · exact o.onlyRefs_unrefGreaseInGrease
  refine ⟨_, hrefs, ?_⟩
  unfold returnBuffer
  simp only [hrefs.callerLogCallbacks, hrefs.userBufs]
  split
  · split
    · rename_i hsync
      exact Or.inr (Or.inr ⟨hsync, rfl⟩)
    · cases hadd : o.callerLogCallbacks.addIfRoom (.bank t.myId b) with
      | some callbacks => exact Or.inr (Or.inl ⟨callbacks, rfl, rfl⟩)
      | none => exact Or.inl rfl
  · exact Or.inl rfl

structure SameOutput (t t' : LogTarget) : Prop where
  kind : t'.kind = t.kind
  myId : t'.myId = t.myId
  bankSize : t'.bankSize = t.bankSize
  flags : t'.flags = t.flags
  delim : t'.delim = t.delim
  disabled : t'.disabled = t.disabled
  writeOutBuffers : t'.writeOutBuffers = t.writeOutBuffers
  currentBuffer : t'.currentBuffer = t.currentBuffer
  handed : t'.handed = t.handed

theorem SameOutput.refl (t : LogTarget) : t.SameOutput t :=
  ⟨rfl, rfl, rfl, rfl, rfl, rfl, rfl, rfl, rfl⟩

theorem sameOutput_addAvail (t : LogTarget) (b : LogBuf) :
    t.SameOutput (t.addAvail b) := by
  rcases t.addAvail_cases b with ⟨avail, -, heq⟩ | ⟨-, heq⟩ <;> rw [heq] <;>
    exact ⟨rfl, rfl, rfl, rfl, rfl, rfl, rfl, rfl, rfl⟩

theorem sameOutput_finalizeV8Callback (t : LogTarget) (b : LogBuf) :
    t.SameOutput (t.finalizeV8Callback b) := by
  rcases t.finalizeV8Callback_cases b with ⟨avail, -, heq⟩ | ⟨-, heq⟩ <;>
    rw [heq] <;>
    exact ⟨rfl, rfl, rfl, rfl, rfl, rfl, rfl, rfl, rfl⟩

theorem returnBuffer_frame
    (t : LogTarget) (o : Owner) (b : LogBuf) (sync nocallback : Bool) :
    t.SameOutput (t.returnBuffer o b sync nocallback).1 ∧
      o.SameQueue (t.returnBuffer o b sync nocallback).2 := by
  rcases t.returnBuffer_cases o b sync nocallback with
    ⟨o', hrefs, heq | ⟨callbacks, -, heq⟩ | ⟨-, heq⟩⟩
  · rw [heq]
    exact ⟨t.sameOutput_addAvail b, hrefs.sameQueue⟩
  · rw [heq]
    exact ⟨SameOutput.refl t,
      hrefs.internalCmdQueue, hrefs.delivered, hrefs.refused⟩
  · rw [heq]
    exact ⟨SameOutput.refl t,
      hrefs.internalCmdQueue, hrefs.delivered, hrefs.refused⟩

theorem returnOverflow_sameQueue
    (t : LogTarget) (o : Owner) (bufs : List SingleLog) (nocallback : Bool) :
    o.SameQueue (t.returnOverflow o bufs nocallback) := by
  have hrefs := o.onlyRefs_unrefGreaseInGrease
  unfold returnOverflow
  dsimp only
  split
  · split
    · exact ⟨hrefs.internalCmdQueue, hrefs.delivered, hrefs.refused⟩
    · exact hrefs.sameQueue
  · exact hrefs.sameQueue

theorem completeWrite_frame (t : LogTarget) (o : Owner) (i : ℕ) :
    t.SameOutput (t.completeWrite o i).1 ∧
      o.SameQueue (t.completeWrite o i).2 := by
  unfold completeWrite
  split
  · exact ⟨SameOutput.refl t, Owner.SameQueue.refl o⟩
  · rename_i b nocallback _
    have hframe := returnBuffer_frame
      { t with inFlight := t.inFlight.eraseIdx i } o b false nocallback
    exact ⟨⟨hframe.1.kind, hframe.1.myId, hframe.1.bankSize, hframe.1.flags,
      hframe.1.delim, hframe.1.disabled, hframe.1.writeOutBuffers,
      hframe.1.currentBuffer, hframe.1.handed⟩, hframe.2⟩

theorem completeOverflow_frame (t : LogTarget) (o : Owner) (i : ℕ) :
    t.SameOutput (t.completeOverflow o i).1 ∧
      o.SameQueue (t.completeOverflow o i).2 := by
  unfold completeOverflow
  split
  · exact ⟨SameOutput.refl t, Owner.SameQueue.refl o⟩
  · exact ⟨⟨rfl, rfl, rfl, rfl, rfl, rfl, rfl, rfl, rfl⟩,
      returnOverflow_sameQueue _ o _ _⟩

/-! ## Rotation -/

/-- A rotation finds nothing to do, moves the current bank to the write-out
queue, or clears it because there is no bank to continue with or no room to
put it. -/
theorem rotate_cases (t : LogTarget) :
    (t.currentBuffer.handleLen = 0 ∧ t.rotate = (t, false)) ∨
      (∃ next avail writeOut, 0 < t.currentBuffer.handleLen ∧
        t.availBuffers.remove = some (next, avail) ∧
        t.writeOutBuffers.addIfRoom t.currentBuffer = some writeOut ∧
        t.rotate = ({ t with
          availBuffers := avail
          writeOutBuffers := writeOut
          currentBuffer := next }, true)) ∨
      (0 < t.currentBuffer.handleLen ∧ t.availBuffers.items = [] ∧
        t.rotate = ({ t with
          currentBuffer := t.currentBuffer.clear
          lost := t.lost ++ t.currentBuffer.data }, false)) ∨
      (∃ next avail, 0 < t.currentBuffer.handleLen ∧
        t.availBuffers.remove = some (next, avail) ∧
        ¬t.writeOutBuffers.hasRoom ∧
        t.rotate = ({ t with
          availBuffers := (avail.addIfRoom next).getD avail
          currentBuffer := t.currentBuffer.clear
          lost := t.lost ++ t.currentBuffer.data }, false)) := by
  unfold rotate
  split
  · rename_i hlen
    right
    cases hremove : t.availBuffers.remove with
    | none =>
        have hempty := BoundedFifo.remove_eq_none_iff.mp hremove
        exact Or.inr (Or.inl ⟨hlen, hempty, rfl⟩)
    | some taken =>
        rcases taken with ⟨next, avail⟩
        cases hadd : t.writeOutBuffers.addIfRoom t.currentBuffer with
        | some writeOut =>
            exact Or.inl ⟨next, avail, writeOut, hlen, rfl, rfl, rfl⟩
        | none =>
            have hfull := BoundedFifo.addIfRoom_eq_none_iff.mp hadd
            exact Or.inr (Or.inr ⟨next, avail, hlen, rfl, hfull, rfl⟩)
  · rename_i hlen
    exact Or.inl ⟨by omega, rfl⟩

/-! ## Writing -/

end LogTarget

theorem LogBuf.copyIn_frame
    (b : LogBuf) (seq : ℕ) (s : List UInt8) (useDelim : Bool) :
    (b.copyIn seq s useDelim).id = b.id ∧
      (b.copyIn seq s useDelim).space = b.space ∧
      (b.copyIn seq s useDelim).delim = b.delim := by
  unfold copyIn
  split
  · exact ⟨rfl, rfl, rfl⟩
  · split <;> exact ⟨rfl, rfl, rfl⟩

namespace LogTarget

theorem copyMessage_frame
    (t : LogTarget) (env : Formatting) (seq : ℕ)
    (header text footer : List UInt8) :
    (t.copyMessage env seq header text footer).currentBuffer.id =
        t.currentBuffer.id ∧
      (t.copyMessage env seq header text footer).currentBuffer.space =
        t.currentBuffer.space ∧
      (t.copyMessage env seq header text footer).currentBuffer.delim =
        t.currentBuffer.delim := by
  have hescape : ∀ (b : LogBuf) (useDelim : Bool),
      (b.copyInJsonEscape env.jsonEscape seq text useDelim).id = b.id ∧
        (b.copyInJsonEscape env.jsonEscape seq text useDelim).space =
          b.space ∧
        (b.copyInJsonEscape env.jsonEscape seq text useDelim).delim =
          b.delim := by
    intro b useDelim
    unfold LogBuf.copyInJsonEscape
    split <;> exact ⟨rfl, rfl, rfl⟩
  unfold copyMessage
  dsimp only
  split <;> split <;>
    simp only [LogBuf.copyIn_frame, hescape, and_self]

end LogTarget

namespace LogBuf

theorem bytesOf_delimPiece (b : LogBuf) (seq : ℕ) (useDelim : Bool) :
    bytesOf (b.delimPiece seq useDelim) =
      if useDelim then b.delim.getD [] else [] := by
  unfold delimPiece
  cases b.delim with
  | none => simp [bytesOf]
  | some d => cases useDelim <;> simp [bytesOf]

theorem bytesOf_copyIn
    (b : LogBuf) (seq : ℕ) (s : List UInt8) (useDelim : Bool)
    (hfits : b.handleLen ≤ b.space) :
    bytesOf (b.copyIn seq s useDelim).data =
      bytesOf b.data ++ s ++
        (if s ≠ [] ∧ useDelim then b.delim.getD [] else []) := by
  unfold copyIn
  by_cases hnil : s = []
  · simp [hnil]
  · have hdelim := b.bytesOf_delimPiece seq useDelim
    rw [if_neg hnil, if_neg (by omega)]
    unfold bytesOf at hdelim ⊢
    simp [hnil, hdelim]

theorem bytesOf_copyInJsonEscape
    (b : LogBuf) (jsonEscape : ℕ → List UInt8 → List UInt8) (seq : ℕ)
    (s : List UInt8) (useDelim : Bool) :
    bytesOf (b.copyInJsonEscape jsonEscape seq s useDelim).data =
      bytesOf b.data ++ (if s = [] then [] else jsonEscape b.space s) ++
        (if s ≠ [] ∧ useDelim then b.delim.getD [] else []) := by
  unfold copyInJsonEscape
  by_cases hnil : s = []
  · simp [hnil]
  · have hdelim := b.bytesOf_delimPiece seq useDelim
    rw [if_neg hnil, if_neg hnil]
    unfold bytesOf at hdelim ⊢
    simp [hnil, hdelim]

end LogBuf

namespace LogTarget

/-- The text as it goes into the current bank. -/
def copiedText (t : LogTarget) (env : Formatting) (text : List UInt8) :
    List UInt8 :=
  if t.escapes ∧ text ≠ [] then env.jsonEscape t.currentBuffer.space text
  else text

/-- A message without text and footer is not followed by a delimiter. -/
def copiedDelim (t : LogTarget) (text footer : List UInt8) : List UInt8 :=
  if text = [] ∧ footer = [] then [] else t.currentBuffer.delim.getD []

theorem bytesOf_copyMessage
    (t : LogTarget) (env : Formatting) (seq : ℕ)
    (header text footer : List UInt8)
    (hfits : t.currentBuffer.handleLen + header.length +
      (t.copiedText env text).length ≤ t.currentBuffer.space) :
    bytesOf (t.copyMessage env seq header text footer).currentBuffer.data =
      bytesOf t.currentBuffer.data ++
        (header ++ t.copiedText env text ++ footer ++
          t.copiedDelim text footer) := by
  set b := t.currentBuffer with hb
  set b₁ := b.copyIn seq header false with hb₁
  have hbytes₁ : bytesOf b₁.data = bytesOf b.data ++ header := by
    rw [hb₁, b.bytesOf_copyIn seq header false (by omega)]
    simp
  rcases b.copyIn_frame seq header false with ⟨-, hspace₁, hdelim₁⟩
  rw [← hb₁] at hspace₁ hdelim₁
  have hlen₁ : b₁.handleLen = b.handleLen + header.length := by
    unfold LogBuf.handleLen
    rw [hbytes₁, List.length_append]
  set b₂ := if t.escapes then
      b₁.copyInJsonEscape env.jsonEscape seq text footer.isEmpty
    else b₁.copyIn seq text footer.isEmpty with hb₂
  have hframe₂ : b₂.space = b.space ∧ b₂.delim = b.delim := by
    rw [hb₂]
    split
    · unfold LogBuf.copyInJsonEscape
      split <;> exact ⟨hspace₁, hdelim₁⟩
    · have hframe := b₁.copyIn_frame seq text footer.isEmpty
      exact ⟨hframe.2.1.trans hspace₁, hframe.2.2.trans hdelim₁⟩
  have hbytes₂ : bytesOf b₂.data = bytesOf b₁.data ++ t.copiedText env text ++
      (if text ≠ [] ∧ footer.isEmpty then b.delim.getD [] else []) := by
    rw [hb₂, copiedText, ← hb]
    by_cases hescapes : t.escapes
    · rw [if_pos hescapes, b₁.bytesOf_copyInJsonEscape, hspace₁, hdelim₁]
      by_cases hnil : text = []
      · simp [hnil]
      · simp [hnil, hescapes]
    · rw [if_neg hescapes, b₁.bytesOf_copyIn _ _ _ (by omega), hdelim₁]
      simp [hescapes]
  have hresult : (t.copyMessage env seq header text footer).currentBuffer =
      if footer.isEmpty then b₂ else b₂.copyIn seq footer true := rfl
  rw [hresult, copiedDelim, ← hb]
  cases footer with
  | nil =>
      simp only [List.isEmpty_nil, if_true, and_true] at hbytes₂ ⊢
      rw [hbytes₂, hbytes₁]
      by_cases hnil : text = [] <;> simp [hnil]
  | cons c rest =>
      simp only [List.isEmpty_cons, Bool.false_eq_true, and_false, if_false,
        List.append_nil] at hbytes₂ ⊢
      have hlen₂ : b₂.handleLen ≤ b₂.space := by
        rw [hframe₂.1]
        unfold LogBuf.handleLen at hfits ⊢
        rw [hbytes₂, hbytes₁]
        simp only [List.length_append]
        exact hfits
      rw [b₂.bytesOf_copyIn seq _ _ hlen₂, hbytes₂, hbytes₁, hframe₂.2]
      simp

def fits (t : LogTarget) (env : Formatting) (text : List UInt8)
    (m : LogMeta) (filter : Filter) : Prop :=
  text.length + (env.header t.myId m filter).length +
    (env.footer t.myId m filter).length ≤ t.currentBuffer.remain

instance (t : LogTarget) (env : Formatting) (text : List UInt8)
    (m : LogMeta) (filter : Filter) :
    Decidable (t.fits env text m filter) :=
  inferInstanceAs (Decidable (_ ≤ _))

def oversize (t : LogTarget) (text : List UInt8) : Prop :=
  t.bankSize < text.length + greaseMaxPrefixHeader

instance (t : LogTarget) (text : List UInt8) : Decidable (t.oversize text) :=
  inferInstanceAs (Decidable (_ < _))

theorem write_cases
    (t : LogTarget) (o : Owner) (env : Formatting) (seq : ℕ)
    (text : List UInt8) (m : LogMeta) (filter : Filter) :
    ((t.disabled = true ∨ t.oversize text ∧ ¬o.internalCmdQueue.hasRoom) ∧
        t.write o env seq text m filter = (t, o.refuse)) ∨
      (t.disabled = false ∧ t.oversize text ∧ ∃ queue,
        o.internalCmdQueue.addIfRoom (.writeTargetOverflow t.myId
          (t.overflowEntry env seq text m)) = some queue ∧
        t.write o env seq text m filter =
          (t, { o with internalCmdQueue := queue })) ∨
      (t.disabled = false ∧ ¬t.oversize text ∧ t.fits env text m filter ∧
        ∃ o', o.OnlyRefs o' ∧ t.write o env seq text m filter =
          (t.copyMessage env seq (env.header t.myId m filter) text
            (env.footer t.myId m filter),
            o'.deliver ⟨filter, t.myId, seq⟩)) ∨
      (t.disabled = false ∧ ¬t.oversize text ∧ ¬t.fits env text m filter ∧
        t.rotate.2 = true ∧ ∃ queue o',
          o.internalCmdQueue.addIfRoom (.targetRotateBuffer t.myId) =
            some queue ∧
          Owner.OnlyRefs { o with internalCmdQueue := queue } o' ∧
          t.write o env seq text m filter =
            (t.rotate.1.copyMessage env seq (env.header t.myId m filter) text
              (env.footer t.myId m filter),
              o'.deliver ⟨filter, t.myId, seq⟩)) ∨
      (t.disabled = false ∧ ¬t.oversize text ∧ ¬t.fits env text m filter ∧
        (t.rotate.2 = true → ¬o.internalCmdQueue.hasRoom) ∧
        t.write o env seq text m filter = (t.rotate.1, o.refuse)) := by
  unfold write
  cases hdisabled : t.disabled with
  | true => exact Or.inl ⟨Or.inl rfl, rfl⟩
  | false =>
      simp only [Bool.false_eq_true, if_false]
      by_cases hover : t.oversize text
      · have hlarge : t.bankSize < text.length + greaseMaxPrefixHeader := hover
        simp only [if_pos hlarge]
        cases hadd : o.internalCmdQueue.addIfRoom (.writeTargetOverflow t.myId
            (t.overflowEntry env seq text m)) with
        | some queue =>
            exact Or.inr (Or.inl ⟨trivial, hover, queue, rfl, rfl⟩)
        | none =>
            have hfull := BoundedFifo.addIfRoom_eq_none_iff.mp hadd
            exact Or.inl ⟨Or.inr ⟨hover, hfull⟩, rfl⟩
      · have hsmall : ¬t.bankSize < text.length + greaseMaxPrefixHeader := hover
        simp only [if_neg hsmall]
        right
        right
        by_cases hfits : t.fits env text m filter
        · have hremain : text.length + (env.header t.myId m filter).length +
              (env.footer t.myId m filter).length ≤ t.currentBuffer.remain :=
            hfits
          simp only [if_pos hremain]
          have hrefs : o.OnlyRefs (if t.currentBuffer.isEmpty then
              o.refGreaseInGrease else o) := by
            split
            · exact o.onlyRefs_refGreaseInGrease
            · exact Owner.OnlyRefs.refl o
          exact Or.inl ⟨trivial, hover, hfits, _, hrefs, rfl⟩
        · have hremain : ¬text.length + (env.header t.myId m filter).length +
              (env.footer t.myId m filter).length ≤ t.currentBuffer.remain :=
            hfits
          simp only [if_neg hremain]
          right
          cases hrotated : t.rotate.2 with
          | true =>
              simp only [if_true]
              cases hadd : o.internalCmdQueue.addIfRoom
                  (.targetRotateBuffer t.myId) with
              | some queue =>
                  exact Or.inl ⟨trivial, hover, hfits, trivial, queue, _, rfl,
                    Owner.onlyRefs_refGreaseInGrease _, rfl⟩
              | none =>
                  have hfull := BoundedFifo.addIfRoom_eq_none_iff.mp hadd
                  exact Or.inr ⟨trivial, hover, hfits, fun _ => hfull, rfl⟩
          | false =>
              exact Or.inr ⟨trivial, hover, hfits, by simp, rfl⟩

/-! ## Output -/

/-- Everything the target has let go of, whether it was handed to the output or
waits for it. -/
def past (t : LogTarget) : List Handed :=
  t.handed ++ t.writeOutBuffers.items.map fun b => .bank b.data

structure SameStream (t t' : LogTarget) : Prop where
  kind : t'.kind = t.kind
  myId : t'.myId = t.myId
  bankSize : t'.bankSize = t.bankSize
  flags : t'.flags = t.flags
  delim : t'.delim = t.delim
  disabled : t'.disabled = t.disabled
  currentBuffer : t'.currentBuffer = t.currentBuffer
  past : t'.past = t.past

theorem SameStream.refl (t : LogTarget) : t.SameStream t :=
  ⟨rfl, rfl, rfl, rfl, rfl, rfl, rfl, rfl⟩

theorem SameStream.trans {t t' t'' : LogTarget}
    (h : t.SameStream t') (h' : t'.SameStream t'') : t.SameStream t'' :=
  ⟨h'.kind.trans h.kind, h'.myId.trans h.myId, h'.bankSize.trans h.bankSize,
    h'.flags.trans h.flags, h'.delim.trans h.delim,
    h'.disabled.trans h.disabled, h'.currentBuffer.trans h.currentBuffer,
    h'.past.trans h.past⟩

theorem SameOutput.sameStream {t t' : LogTarget} (h : t.SameOutput t') :
    t.SameStream t' :=
  ⟨h.kind, h.myId, h.bankSize, h.flags, h.delim, h.disabled, h.currentBuffer,
    by rw [LogTarget.past, LogTarget.past, h.handed, h.writeOutBuffers]⟩

theorem flush_cases
    (t : LogTarget) (o : Owner) (b : LogBuf) (nocallbacks : Bool) :
    t.flush o b nocallbacks =
        ({ t with
          handed := t.handed ++ [Handed.bank b.data]
          inFlight := t.inFlight ++ [(b, nocallbacks)] }, o) ∨
      t.flush o b nocallbacks =
        { t with handed := t.handed ++ [Handed.bank b.data] }.returnBuffer o b
          false nocallbacks := by
  unfold flush
  dsimp only
  split
  · exact Or.inr rfl
  · exact Or.inl rfl

theorem flush_frame
    (t : LogTarget) (o : Owner) (b : LogBuf) (nocallbacks : Bool) :
    { t with handed := t.handed ++ [Handed.bank b.data] }.SameOutput
        (t.flush o b nocallbacks).1 ∧
      o.SameQueue (t.flush o b nocallbacks).2 := by
  rcases t.flush_cases o b nocallbacks with heq | heq
  · rw [heq]
    exact ⟨⟨rfl, rfl, rfl, rfl, rfl, rfl, rfl, rfl, rfl⟩,
      Owner.SameQueue.refl o⟩
  · rw [heq]
    exact returnBuffer_frame _ o b false nocallbacks

theorem flushLoop_invariant
    {f : LogTarget → Owner → LogBuf → LogTarget × Owner}
    {P : LogTarget → Owner → Prop}
    (hround : ∀ t o b writeOut, t.writeOutBuffers.remove = some (b, writeOut) →
      P t o →
      P (f { t with writeOutBuffers := writeOut } o b).1
        (f { t with writeOutBuffers := writeOut } o b).2)
    (rounds : ℕ) (t : LogTarget) (o : Owner) (hstart : P t o) :
    P (flushLoop f rounds t o).1 (flushLoop f rounds t o).2 := by
  induction rounds generalizing t o with
  | zero => exact hstart
  | succ rounds ih =>
      rw [flushLoop]
      cases hremove : t.writeOutBuffers.remove with
      | none => exact hstart
      | some taken =>
          rcases taken with ⟨b, writeOut⟩
          exact ih _ _ (hround t o b writeOut hremove hstart)

theorem flushLoop_writeOut
    {f : LogTarget → Owner → LogBuf → LogTarget × Owner}
    (hkeep : ∀ t o b, (f t o b).1.writeOutBuffers = t.writeOutBuffers)
    (rounds : ℕ) (t : LogTarget) (o : Owner)
    (hrounds : t.writeOutBuffers.items.length ≤ rounds) :
    (flushLoop f rounds t o).1.writeOutBuffers.items = [] := by
  induction rounds generalizing t o with
  | zero =>
      have hlen := Nat.le_zero.mp hrounds
      exact List.length_eq_zero_iff.mp hlen
  | succ rounds ih =>
      rw [flushLoop]
      cases hremove : t.writeOutBuffers.remove with
      | none => exact BoundedFifo.remove_eq_none_iff.mp hremove
      | some taken =>
          rcases taken with ⟨b, writeOut⟩
          have hitems := (BoundedFifo.remove_eq_some hremove).1
          apply ih
          rw [hkeep]
          have hlen := congrArg List.length hitems
          simp only [List.length_cons] at hlen
          dsimp only
          omega

/-- The target whose write-out queue `flushAll` empties. -/
def flushStart (t : LogTarget) (rotate : Bool) : LogTarget :=
  if rotate then t.rotate.1 else t

/-- After the rotation, a flush changes nothing in the stream of data and
leaves no bank waiting. -/
theorem flushAll_frame
    (t : LogTarget) (o : Owner) (rotate nocallbacks : Bool) :
    (t.flushStart rotate).SameStream (t.flushAll o rotate nocallbacks).1 ∧
      o.SameQueue (t.flushAll o rotate nocallbacks).2 ∧
      (t.flushAll o rotate nocallbacks).1.writeOutBuffers.items = [] := by
  have hstream := flushLoop_invariant
    (f := fun t o b => t.flush o b nocallbacks)
    (P := fun t' o' =>
      (t.flushStart rotate).SameStream t' ∧ o.SameQueue o')
    (by
      intro t' o' b writeOut hremove hsame
      have hitems := (BoundedFifo.remove_eq_some hremove).1
      have hframe := flush_frame
        { t' with writeOutBuffers := writeOut } o' b nocallbacks
      have hround := hframe.1.sameStream
      have hpast : { t' with
          writeOutBuffers := writeOut
          handed := t'.handed ++ [Handed.bank b.data] }.past = t'.past := by
        simp [past, hitems]
      exact ⟨hsame.1.trans ⟨hround.kind, hround.myId, hround.bankSize,
        hround.flags, hround.delim, hround.disabled, hround.currentBuffer,
        hround.past.trans hpast⟩, hsame.2.trans hframe.2⟩)
    (t.flushStart rotate).writeOutBuffers.items.length (t.flushStart rotate) o
    ⟨SameStream.refl _, Owner.SameQueue.refl o⟩
  have hempty := flushLoop_writeOut
    (f := fun t o b => t.flush o b nocallbacks)
    (fun t o b => (t.flush_frame o b nocallbacks).1.writeOutBuffers)
    (t.flushStart rotate).writeOutBuffers.items.length (t.flushStart rotate) o
    le_rfl
  exact ⟨hstream.1, hstream.2, hempty⟩

theorem flushSync_sameQueue
    (t : LogTarget) (o : Owner) (b : LogBuf) (nocallbacks : Bool) :
    o.SameQueue (t.flushSync o b nocallbacks).2 := by
  unfold flushSync
  split
  · exact ⟨rfl, rfl, rfl⟩
  · exact (returnBuffer_frame _ o b true nocallbacks).2

theorem flushAllSync_sameQueue
    (t : LogTarget) (o : Owner) (rotate nocallbacks : Bool) :
    o.SameQueue (t.flushAllSync o rotate nocallbacks).2 :=
  flushLoop_invariant (f := fun t o b => t.flushSync o b nocallbacks)
    (P := fun _ o' => o.SameQueue o')
    (fun _ o' b _ _ hsame =>
      hsame.trans (flushSync_sameQueue _ o' b nocallbacks))
    _ _ o (Owner.SameQueue.refl o)

/-! ## Large messages -/

theorem writeAsyncOverflow_frame
    (t : LogTarget) (o : Owner) (bufs : List SingleLog) (nocallbacks : Bool) :
    { t with handed := t.handed ++ [Handed.overflow bufs] }.SameOutput
        (t.writeAsyncOverflow o bufs nocallbacks).1 ∧
      o.SameQueue (t.writeAsyncOverflow o bufs nocallbacks).2 := by
  have hsame : ∀ t' : LogTarget, t'.SameOutput t' := SameOutput.refl
  unfold writeAsyncOverflow
  dsimp only
  split
  · exact ⟨⟨rfl, rfl, rfl, rfl, rfl, rfl, rfl, rfl, rfl⟩,
      Owner.SameQueue.refl o⟩
  · exact ⟨hsame _, returnOverflow_sameQueue _ o bufs nocallbacks⟩
  · split
    · split
      · exact ⟨hsame _, rfl, rfl, rfl⟩
      · exact ⟨hsame _, Owner.SameQueue.refl o⟩
    · exact ⟨hsame _, Owner.SameQueue.refl o⟩

/-- A large message is refused by a disabled target; any other hands it to its
output at once. -/
theorem writeOverflow_cases
    (t : LogTarget) (o : Owner) (env : Formatting) (l : SingleLog)
    (filter : Filter) :
    (t.disabled = true ∧ t.writeOverflow o env l filter = (t, o.refuse)) ∨
      (t.disabled = false ∧
        { t with handed := t.handed ++
          [Handed.overflow (t.overflowBufs env l filter)] }.SameOutput
            (t.writeOverflow o env l filter).1 ∧
        (o.deliver ⟨filter, t.myId, l.seq⟩).SameQueue
          (t.writeOverflow o env l filter).2) := by
  by_cases hdisabled : t.disabled = true
  · exact Or.inl ⟨hdisabled, by rw [writeOverflow, if_pos hdisabled]⟩
  · have henabled : t.disabled = false := by simpa using hdisabled
    have hwrite : t.writeOverflow o env l filter = t.writeAsyncOverflow
        (o.refGreaseInGrease.deliver ⟨filter, t.myId, l.seq⟩)
        (t.overflowBufs env l filter) false := by
      rw [writeOverflow, if_neg hdisabled]
    have hframe := t.writeAsyncOverflow_frame
      (o.refGreaseInGrease.deliver ⟨filter, t.myId, l.seq⟩)
      (t.overflowBufs env l filter) false
    rw [hwrite]
    exact Or.inr ⟨henabled, hframe.1, hframe.2.internalCmdQueue,
      hframe.2.delivered, hframe.2.refused⟩

/-! ## Commands a target asks for -/

/-- The commands an act may put on the queue: the flush of a rotated bank, or
the overflow of a message that is too large for the banks. -/
def Asks (t : LogTarget) (env : Formatting) (a : TargetAct)
    (c : InternalCmdReq) : Prop :=
  c = .targetRotateBuffer t.myId ∨
    ∃ seq text m filter, a = .write seq text m filter ∧ t.disabled = false ∧
      t.oversize text ∧
      c = .writeTargetOverflow t.myId (t.overflowEntry env seq text m)

theorem write_queue
    (t : LogTarget) (o : Owner) (env : Formatting) (seq : ℕ)
    (text : List UInt8) (m : LogMeta) (filter : Filter) :
    ∃ added, (t.write o env seq text m filter).2.internalCmdQueue.items =
        o.internalCmdQueue.items ++ added ∧
      ∀ c ∈ added, t.Asks env (.write seq text m filter) c := by
  rcases t.write_cases o env seq text m filter with ⟨-, heq⟩ |
    ⟨henabled, hover, queue, hadd, heq⟩ | ⟨-, -, -, o', hrefs, heq⟩ |
    ⟨-, -, -, -, queue, o', hadd, hrefs, heq⟩ | ⟨-, -, -, -, heq⟩
  · exact ⟨[], by simp [heq, Owner.refuse], by simp⟩
  · have hadded := BoundedFifo.addIfRoom_eq_some hadd
    refine ⟨_, by rw [heq]; exact hadded.2.1, ?_⟩
    intro c hc
    rw [List.mem_singleton.mp hc]
    exact Or.inr ⟨seq, text, m, filter, rfl, henabled, hover, rfl⟩
  · refine ⟨[], ?_, by simp⟩
    rw [heq, List.append_nil]
    exact congrArg BoundedFifo.items hrefs.internalCmdQueue
  · have hadded := BoundedFifo.addIfRoom_eq_some hadd
    have hqueue : o'.internalCmdQueue = queue := hrefs.internalCmdQueue
    refine ⟨[.targetRotateBuffer t.myId], ?_, by simp [Asks]⟩
    rw [heq, ← hadded.2.1, ← hqueue]
    rfl
  · exact ⟨[], by simp [heq, Owner.refuse], by simp⟩

theorem act_queue
    (t : LogTarget) (o : Owner) (env : Formatting) (a : TargetAct) :
    ∃ added, (t.act o env a).2.internalCmdQueue.items =
        o.internalCmdQueue.items ++ added ∧
      ∀ c ∈ added, t.Asks env a c := by
  have hsame : ∀ {o' : Owner}, o.SameQueue o' → ∃ added,
      o'.internalCmdQueue.items = o.internalCmdQueue.items ++ added ∧
        ∀ c ∈ added, t.Asks env a c := by
    intro o' hqueue
    exact ⟨[], by simp [hqueue.internalCmdQueue], by simp⟩
  cases a with
  | write seq text m filter => exact t.write_queue o env seq text m filter
  | writeOverflow l filter =>
      rcases t.writeOverflow_cases o env l filter with ⟨-, heq⟩ | ⟨-, -, hqueue⟩
      · exact ⟨[], by simp [act, heq, Owner.refuse], by simp⟩
      · exact ⟨[], by simp [act, hqueue.internalCmdQueue, Owner.deliver],
          by simp⟩
  | flushAll rotate nocallbacks =>
      exact hsame (t.flushAll_frame o rotate nocallbacks).2.1
  | flushAllSync rotate nocallbacks =>
      exact hsame (t.flushAllSync_sameQueue o rotate nocallbacks)
  | completeWrite i => exact hsame (t.completeWrite_frame o i).2
  | completeOverflow i => exact hsame (t.completeOverflow_frame o i).2
  | finalizeV8Callback b => exact hsame (Owner.SameQueue.refl o)
  | disableWrites v => exact hsame (Owner.SameQueue.refl o)
  | setCallback => exact hsame (Owner.SameQueue.refl o)

/-! ## Deliveries -/

/-- What an act delivers when it is not refused. -/
def delivery? (t : LogTarget) : TargetAct → Option Delivery
  | .write seq _ _ filter => some ⟨filter, t.myId, seq⟩
  | .writeOverflow l filter => some ⟨filter, t.myId, l.seq⟩
  | _ => none

theorem act_delivered
    (t : LogTarget) (o : Owner) (env : Formatting) (a : TargetAct) :
    (t.act o env a).2.delivered = o.delivered ∨
      ∃ d, t.delivery? a = some d ∧
        (t.act o env a).2.delivered = o.delivered ++ [d] := by
  cases a with
  | write seq text m filter =>
      rcases t.write_cases o env seq text m filter with ⟨-, heq⟩ |
        ⟨-, -, queue, -, heq⟩ | ⟨-, -, -, o', hrefs, heq⟩ |
        ⟨-, -, -, -, queue, o', -, hrefs, heq⟩ | ⟨-, -, -, -, heq⟩ <;>
        rw [act, heq]
      · exact Or.inl rfl
      · exact Or.inl rfl
      · right
        refine ⟨_, rfl, ?_⟩
        simp [Owner.deliver, hrefs.delivered]
      · right
        refine ⟨_, rfl, ?_⟩
        simp [Owner.deliver, hrefs.delivered]
      · exact Or.inl rfl
  | writeOverflow l filter =>
      rcases t.writeOverflow_cases o env l filter with ⟨-, heq⟩ | ⟨-, -, hqueue⟩
      · rw [act, heq]
        exact Or.inl rfl
      · right
        refine ⟨_, rfl, ?_⟩
        simp [act, hqueue.delivered, Owner.deliver]
  | flushAll rotate nocallbacks =>
      exact Or.inl (t.flushAll_frame o rotate nocallbacks).2.1.delivered
  | flushAllSync rotate nocallbacks =>
      exact Or.inl (t.flushAllSync_sameQueue o rotate nocallbacks).delivered
  | completeWrite i => exact Or.inl (t.completeWrite_frame o i).2.delivered
  | completeOverflow i =>
      exact Or.inl (t.completeOverflow_frame o i).2.delivered
  | finalizeV8Callback b => exact Or.inl rfl
  | disableWrites v => exact Or.inl rfl
  | setCallback => exact Or.inl rfl

/-! ## What no act changes -/

structure SameConfig (t t' : LogTarget) : Prop where
  kind : t'.kind = t.kind
  myId : t'.myId = t.myId
  bankSize : t'.bankSize = t.bankSize
  flags : t'.flags = t.flags
  delim : t'.delim = t.delim

theorem SameConfig.refl (t : LogTarget) : t.SameConfig t :=
  ⟨rfl, rfl, rfl, rfl, rfl⟩

theorem SameConfig.trans {t t' t'' : LogTarget}
    (h : t.SameConfig t') (h' : t'.SameConfig t'') : t.SameConfig t'' :=
  ⟨h'.kind.trans h.kind, h'.myId.trans h.myId, h'.bankSize.trans h.bankSize,
    h'.flags.trans h.flags, h'.delim.trans h.delim⟩

theorem SameStream.sameConfig {t t' : LogTarget} (h : t.SameStream t') :
    t.SameConfig t' :=
  ⟨h.kind, h.myId, h.bankSize, h.flags, h.delim⟩

theorem SameOutput.sameConfig {t t' : LogTarget} (h : t.SameOutput t') :
    t.SameConfig t' :=
  h.sameStream.sameConfig

theorem rotate_sameConfig (t : LogTarget) : t.SameConfig t.rotate.1 := by
  rcases t.rotate_cases with ⟨-, heq⟩ | ⟨next, avail, writeOut, -, -, -, heq⟩ |
    ⟨-, -, heq⟩ | ⟨next, avail, -, -, -, heq⟩ <;>
    rw [heq] <;> exact ⟨rfl, rfl, rfl, rfl, rfl⟩

theorem flushStart_sameConfig (t : LogTarget) (rotate : Bool) :
    t.SameConfig (t.flushStart rotate) := by
  unfold flushStart
  split
  · exact t.rotate_sameConfig
  · exact SameConfig.refl t

theorem flushAllSync_sameConfig
    (t : LogTarget) (o : Owner) (rotate nocallbacks : Bool) :
    t.SameConfig (t.flushAllSync o rotate nocallbacks).1 := by
  refine flushLoop_invariant (f := fun t o b => t.flushSync o b nocallbacks)
    (P := fun t' _ => t.SameConfig t') ?_ _ (t.flushStart rotate) o
    (t.flushStart_sameConfig rotate)
  intro t' o' b writeOut _ hsame
  unfold flushSync
  dsimp only
  split
  · exact ⟨hsame.kind, hsame.myId, hsame.bankSize, hsame.flags, hsame.delim⟩
  · have hreturned := (returnBuffer_frame { t' with
        writeOutBuffers := writeOut
        handed := t'.handed ++ [Handed.bank b.data] } o' b true
      nocallbacks).1.sameConfig
    exact hsame.trans ⟨hreturned.kind, hreturned.myId, hreturned.bankSize,
      hreturned.flags, hreturned.delim⟩

theorem act_sameConfig
    (t : LogTarget) (o : Owner) (env : Formatting) (a : TargetAct) :
    t.SameConfig (t.act o env a).1 := by
  cases a with
  | write seq text m filter =>
      rcases t.write_cases o env seq text m filter with ⟨-, heq⟩ |
        ⟨-, -, queue, -, heq⟩ | ⟨-, -, -, o', -, heq⟩ |
        ⟨-, -, -, -, queue, o', -, -, heq⟩ | ⟨-, -, -, -, heq⟩ <;>
        rw [act, heq]
      · exact SameConfig.refl t
      · exact SameConfig.refl t
      · exact ⟨rfl, rfl, rfl, rfl, rfl⟩
      · exact t.rotate_sameConfig.trans ⟨rfl, rfl, rfl, rfl, rfl⟩
      · exact t.rotate_sameConfig
  | writeOverflow l filter =>
      rcases t.writeOverflow_cases o env l filter with ⟨-, heq⟩ | ⟨-, hsame, -⟩
      · rw [act, heq]
        exact SameConfig.refl t
      · have hconfig := hsame.sameConfig
        exact ⟨hconfig.kind, hconfig.myId, hconfig.bankSize, hconfig.flags,
          hconfig.delim⟩
  | flushAll rotate nocallbacks =>
      exact (t.flushStart_sameConfig rotate).trans
        (t.flushAll_frame o rotate nocallbacks).1.sameConfig
  | flushAllSync rotate nocallbacks =>
      exact t.flushAllSync_sameConfig o rotate nocallbacks
  | completeWrite i => exact (t.completeWrite_frame o i).1.sameConfig
  | completeOverflow i => exact (t.completeOverflow_frame o i).1.sameConfig
  | finalizeV8Callback b => exact (t.sameOutput_finalizeV8Callback b).sameConfig
  | disableWrites v => exact ⟨rfl, rfl, rfl, rfl, rfl⟩
  | setCallback => exact ⟨rfl, rfl, rfl, rfl, rfl⟩

/-! ## Banks to continue with -/

def AvailEmpty (t : LogTarget) : Prop :=
  ∀ b ∈ t.availBuffers.items, b.data = []

variable {t : LogTarget}

theorem AvailEmpty.of_add
    (h : t.AvailEmpty) {b : LogBuf} {avail : BoundedFifo LogBuf}
    (hadd : t.availBuffers.addIfRoom b = some avail) (hb : b.data = []) :
    ∀ b' ∈ avail.items, b'.data = [] := by
  rw [(BoundedFifo.addIfRoom_eq_some hadd).2.1]
  intro b' hb'
  rcases List.mem_append.mp hb' with hold | hnew
  · exact h b' hold
  · rw [List.mem_singleton.mp hnew]
    exact hb

theorem AvailEmpty.addAvail (h : t.AvailEmpty) (b : LogBuf) :
    (t.addAvail b).AvailEmpty := by
  rcases t.addAvail_cases b with ⟨avail, hadd, heq⟩ | ⟨-, heq⟩
  · rw [heq]
    exact h.of_add hadd rfl
  · rw [heq]
    exact h

theorem AvailEmpty.finalizeV8Callback (h : t.AvailEmpty) (b : LogBuf) :
    (t.finalizeV8Callback b).AvailEmpty := by
  rcases t.finalizeV8Callback_cases b with ⟨avail, hadd, heq⟩ | ⟨-, heq⟩
  · rw [heq]
    exact h.of_add hadd rfl
  · rw [heq]
    exact h

theorem AvailEmpty.returnBuffer
    (h : t.AvailEmpty) (o : Owner) (b : LogBuf) (sync nocallback : Bool) :
    (t.returnBuffer o b sync nocallback).1.AvailEmpty := by
  rcases t.returnBuffer_cases o b sync nocallback with
    ⟨o', -, heq | ⟨callbacks, -, heq⟩ | ⟨-, heq⟩⟩ <;> rw [heq]
  · exact h.addAvail b
  · exact h
  · exact h

theorem AvailEmpty.rotate (h : t.AvailEmpty) : t.rotate.1.AvailEmpty := by
  rcases t.rotate_cases with ⟨-, heq⟩ |
    ⟨next, avail, writeOut, -, hremove, -, heq⟩ | ⟨-, -, heq⟩ |
    ⟨next, avail, -, hremove, -, heq⟩ <;> rw [heq]
  · exact h
  · intro b hb
    exact h b (by
      rw [(BoundedFifo.remove_eq_some hremove).1]
      exact List.mem_cons_of_mem _ hb)
  · exact h
  · have hitems := (BoundedFifo.remove_eq_some hremove).1
    rcases BoundedFifo.addIfRoom_of_hasRoom
      (BoundedFifo.hasRoom_of_remove hremove) next with ⟨back, hadd, hback, -⟩
    intro b hb
    rw [hadd, Option.getD_some, hback] at hb
    exact h b (by rw [hitems]; simpa [or_comm] using hb)

theorem AvailEmpty.flushAll
    (h : t.AvailEmpty) (o : Owner) (rotate nocallbacks : Bool) :
    (t.flushAll o rotate nocallbacks).1.AvailEmpty := by
  have hstart : (t.flushStart rotate).AvailEmpty := by
    unfold flushStart
    split
    · exact h.rotate
    · exact h
  refine flushLoop_invariant (f := fun t o b => t.flush o b nocallbacks)
    (P := fun t _ => t.AvailEmpty) ?_ _ (t.flushStart rotate) o hstart
  intro t' o' b writeOut _ hround
  rcases flush_cases { t' with writeOutBuffers := writeOut } o' b
    nocallbacks with heq | heq
  · rw [heq]
    exact hround
  · rw [heq]
    have hhanded : { t' with
        writeOutBuffers := writeOut
        handed := t'.handed ++ [Handed.bank b.data] }.AvailEmpty := hround
    exact hhanded.returnBuffer o' b false nocallbacks

theorem AvailEmpty.write
    (h : t.AvailEmpty) (o : Owner) (env : Formatting) (seq : ℕ)
    (text : List UInt8) (m : LogMeta) (filter : Filter) :
    (t.write o env seq text m filter).1.AvailEmpty := by
  rcases t.write_cases o env seq text m filter with ⟨-, heq⟩ |
    ⟨-, -, queue, -, heq⟩ | ⟨-, -, -, o', -, heq⟩ |
    ⟨-, -, -, -, queue, o', -, -, heq⟩ | ⟨-, -, -, -, heq⟩ <;> rw [heq]
  · exact h
  · exact h
  · exact h
  · exact h.rotate
  · exact h.rotate

theorem AvailEmpty.writeOverflow
    (h : t.AvailEmpty) (o : Owner) (env : Formatting) (l : SingleLog)
    (filter : Filter) :
    (t.writeOverflow o env l filter).1.AvailEmpty := by
  unfold LogTarget.writeOverflow writeAsyncOverflow
  dsimp only
  split
  · exact h
  · split
    · exact h
    · exact h
    · split
      · split <;> exact h
      · exact h

theorem AvailEmpty.completeWrite (h : t.AvailEmpty) (o : Owner) (i : ℕ) :
    (t.completeWrite o i).1.AvailEmpty := by
  unfold LogTarget.completeWrite
  split
  · exact h
  · have hrest : { t with
        inFlight := t.inFlight.eraseIdx i }.AvailEmpty := h
    exact hrest.returnBuffer o _ false _

theorem AvailEmpty.completeOverflow (h : t.AvailEmpty) (o : Owner) (i : ℕ) :
    (t.completeOverflow o i).1.AvailEmpty := by
  unfold LogTarget.completeOverflow
  split <;> exact h

end LogTarget

end GreaseLog
