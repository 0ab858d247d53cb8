import GreaseLog.TargetSteps
import GreaseLog.Run

/-!
# Banks hold the writes in order

A plain target is given a list of calls: writes that fit a bank, flushes by the
timer or by a rotate command, and the banks that come back.  The logger around
it may be in any state at each call.  As long as a rotation finds a bank to
continue with, the banks of the target, from the first one flushed to the
current one, hold exactly the messages written, in order and each whole.
-/

namespace GreaseLog

/-! ## Calls -/

structure TargetCall where
  owner : Owner
  env : Formatting
  act : TargetAct

namespace TargetCall

def isWrite (c : TargetCall) : Bool :=
  match c.act with
  | .write _ _ _ _ => true
  | _ => false

/-- What a write should add to the output of a target. -/
def message (id : TargetId) (delim : Option (List UInt8)) (c : TargetCall) :
    List UInt8 :=
  match c.act with
  | .write _ text m filter =>
      c.env.header id m filter ++ text ++ c.env.footer id m filter ++
        delim.getD []
  | _ => []

theorem flatMap_isWrite (calls : List TargetCall) :
    calls.flatMap (fun c => if c.isWrite then [c] else []) =
      calls.filter isWrite := by
  induction calls with
  | nil => rfl
  | cons c rest ih => cases hwrite : c.isWrite <;> simp [hwrite, ih]

end TargetCall

namespace LogTarget

def respond (t : LogTarget) (c : TargetCall) : LogTarget :=
  (t.act c.owner c.env c.act).1

/-- The banks that were handed to `flush`, then those that wait for it. -/
def pastBanks (t : LogTarget) : List (List Piece) :=
  t.past.filterMap fun h =>
    match h with
    | .bank data => some data
    | .overflow _ => none

/-- The contents of the banks, from the first one flushed to the current
one. -/
def buffers (t : LogTarget) : List (List Piece) :=
  t.pastBanks ++ [t.currentBuffer.data]

def bankCount (t : LogTarget) : ℕ :=
  t.availBuffers.items.length + t.writeOutBuffers.items.length +
    t.inFlight.length + 1

def Owns (t : LogTarget) (b : LogBuf) : Prop :=
  b.space = t.bankSize ∧ b.delim = t.delim

/-- The calls considered here.  A write is not empty and fits a bank with its
header, footer and delimiter; a rotation that is needed finds a bank; a bank
that is given back was away. -/
def Admits (t : LogTarget) (c : TargetCall) : Prop :=
  match c.act with
  | .write _ text m filter =>
      1 ≤ text.length ∧ text.length + greaseMaxPrefixHeader ≤ t.bankSize ∧
        (c.env.header t.myId m filter).length +
          (c.env.footer t.myId m filter).length + (t.delim.getD []).length ≤
            greaseMaxPrefixHeader ∧
        (¬t.fits c.env text m filter → t.availBuffers.items ≠ [] ∧
          c.owner.internalCmdQueue.hasRoom)
  | .flushAll rotate _ =>
      rotate = true → 0 < t.currentBuffer.handleLen →
        t.availBuffers.items ≠ []
  | .finalizeV8Callback b =>
      t.Owns b ∧ t.bankCount < t.availBuffers.capacity
  | .completeWrite _ | .completeOverflow _ | .setCallback => True
  | .writeOverflow _ _ | .flushAllSync _ _ | .disableWrites _ => False

/-! ## The state of the banks -/

structure Sound (t : LogTarget) : Prop where
  plain : t.escapes = false
  enabled : t.disabled = false
  current : t.Owns t.currentBuffer
  currentFits : t.currentBuffer.handleLen ≤ t.bankSize
  avail : ∀ b ∈ t.availBuffers.items, t.Owns b ∧ b.data = []
  writeOut : ∀ b ∈ t.writeOutBuffers.items, t.Owns b
  inFlight : ∀ x ∈ t.inFlight, t.Owns x.1
  capacity : t.writeOutBuffers.capacity = t.availBuffers.capacity - 1
  count : t.bankCount ≤ max 1 t.availBuffers.capacity

theorem Sound.writeOut_hasRoom
    {t : LogTarget} (hsound : t.Sound)
    (havail : t.availBuffers.items ≠ []) :
    t.writeOutBuffers.hasRoom := by
  have hpos := List.length_pos_iff.mpr havail
  have hcount := hsound.count
  have hcapacity := hsound.capacity
  unfold BoundedFifo.hasRoom
  unfold bankCount at hcount
  omega

theorem Sound.addAvail
    {t : LogTarget} (hsound : t.Sound) {b : LogBuf} (howns : t.Owns b)
    (haway : t.bankCount < max 1 t.availBuffers.capacity) :
    (t.addAvail b).Sound := by
  rcases t.addAvail_cases b with ⟨avail, hadd, heq⟩ | ⟨-, heq⟩
  · rw [heq]
    have hadded := BoundedFifo.addIfRoom_eq_some hadd
    refine ⟨hsound.plain, hsound.enabled, hsound.current, hsound.currentFits,
      ?_, hsound.writeOut, hsound.inFlight, ?_, ?_⟩
    · intro b' hb'
      dsimp only at hb'
      rw [hadded.2.1] at hb'
      rcases List.mem_append.mp hb' with hold | hnew
      · exact hsound.avail b' hold
      · rw [List.mem_singleton.mp hnew]
        exact ⟨howns, rfl⟩
    · dsimp only
      rw [hadded.2.2]
      exact hsound.capacity
    · unfold bankCount at haway ⊢
      dsimp only
      rw [hadded.2.1, hadded.2.2, List.length_append, List.length_singleton]
      omega
  · rw [heq]
    exact ⟨hsound.plain, hsound.enabled, hsound.current, hsound.currentFits,
      hsound.avail, hsound.writeOut, hsound.inFlight, hsound.capacity,
      hsound.count⟩

theorem Sound.finalizeV8Callback
    {t : LogTarget} (hsound : t.Sound) {b : LogBuf} (howns : t.Owns b)
    (haway : t.bankCount < t.availBuffers.capacity) :
    (t.finalizeV8Callback b).Sound := by
  rcases t.finalizeV8Callback_cases b with ⟨avail, hadd, heq⟩ | ⟨-, heq⟩
  · have hreturned := hsound.addAvail howns (lt_max_of_lt_right haway)
    have hsame : t.addAvail b = t.finalizeV8Callback b := by
      rw [heq, LogTarget.addAvail, hadd]
    rwa [← hsame]
  · rw [heq]
    exact hsound

theorem Sound.returnBuffer
    {t : LogTarget} (hsound : t.Sound) {b : LogBuf} (howns : t.Owns b)
    (haway : t.bankCount < max 1 t.availBuffers.capacity)
    (o : Owner) (sync nocallback : Bool) :
    (t.returnBuffer o b sync nocallback).1.Sound := by
  rcases t.returnBuffer_cases o b sync nocallback with
    ⟨o', -, heq | ⟨callbacks, -, heq⟩ | ⟨-, heq⟩⟩
  · rw [heq]
    exact hsound.addAvail howns haway
  · rw [heq]
    exact hsound
  · rw [heq]
    exact hsound

theorem Sound.completeWrite
    {t : LogTarget} (hsound : t.Sound) (o : Owner) (i : ℕ) :
    (t.completeWrite o i).1.Sound := by
  unfold LogTarget.completeWrite
  split
  · exact hsound
  · rename_i b nocallback hget
    have hi : i < t.inFlight.length := (List.getElem?_eq_some_iff.mp hget).1
    have hmem := List.mem_of_getElem? hget
    have hlen := List.length_eraseIdx_of_lt hi
    have hcount := hsound.count
    have hrest : { t with inFlight := t.inFlight.eraseIdx i }.Sound := by
      refine ⟨hsound.plain, hsound.enabled, hsound.current,
        hsound.currentFits, hsound.avail, hsound.writeOut, ?_,
        hsound.capacity, ?_⟩
      · intro x hx
        exact hsound.inFlight x (List.mem_of_mem_eraseIdx hx)
      · unfold bankCount at hcount ⊢
        dsimp only
        omega
    apply hrest.returnBuffer (hsound.inFlight _ hmem)
    unfold bankCount at hcount ⊢
    dsimp only
    omega

theorem Sound.completeOverflow
    {t : LogTarget} (hsound : t.Sound) (o : Owner) (i : ℕ) :
    (t.completeOverflow o i).1.Sound := by
  unfold LogTarget.completeOverflow
  split
  · exact hsound
  · exact ⟨hsound.plain, hsound.enabled, hsound.current, hsound.currentFits,
      hsound.avail, hsound.writeOut, hsound.inFlight, hsound.capacity,
      hsound.count⟩

theorem Sound.setCallback {t : LogTarget} (hsound : t.Sound) :
    t.setCallback.Sound :=
  ⟨hsound.plain, hsound.enabled, hsound.current, hsound.currentFits,
    hsound.avail, hsound.writeOut, hsound.inFlight, hsound.capacity,
    hsound.count⟩

theorem Sound.flush
    {t : LogTarget} (hsound : t.Sound) {b : LogBuf}
    {writeOut : BoundedFifo LogBuf}
    (hremove : t.writeOutBuffers.remove = some (b, writeOut))
    (o : Owner) (nocallbacks : Bool) :
    ({ t with writeOutBuffers := writeOut }.flush o b nocallbacks).1.Sound := by
  have hremoved := BoundedFifo.remove_eq_some hremove
  have howns := hsound.writeOut b (by rw [hremoved.1]; simp)
  have hwriteOut : ∀ b' ∈ writeOut.items, t.Owns b' := by
    intro b' hb'
    exact hsound.writeOut b' (by rw [hremoved.1]; simp [hb'])
  have hcapacity : writeOut.capacity = t.availBuffers.capacity - 1 :=
    hremoved.2.trans hsound.capacity
  have hlen := congrArg List.length hremoved.1
  have hcount := hsound.count
  unfold bankCount at hcount
  rw [List.length_cons] at hlen
  rcases flush_cases { t with writeOutBuffers := writeOut } o b nocallbacks with
    heq | heq
  · rw [heq]
    refine ⟨hsound.plain, hsound.enabled, hsound.current, hsound.currentFits,
      hsound.avail, hwriteOut, ?_, hcapacity, ?_⟩
    · intro x hx
      rcases List.mem_append.mp hx with hold | hnew
      · exact hsound.inFlight x hold
      · rw [List.mem_singleton.mp hnew]
        exact howns
    · unfold bankCount
      dsimp only
      rw [List.length_append, List.length_singleton]
      omega
  · rw [heq]
    have hhanded : { t with
        writeOutBuffers := writeOut
        handed := t.handed ++ [Handed.bank b.data] }.Sound := by
      refine ⟨hsound.plain, hsound.enabled, hsound.current, hsound.currentFits,
        hsound.avail, hwriteOut, hsound.inFlight, hcapacity, ?_⟩
      unfold bankCount
      dsimp only
      omega
    apply hhanded.returnBuffer howns
    unfold bankCount
    dsimp only
    omega

/-- A rotation that finds a bank closes the current one and continues with an
empty one. -/
theorem Sound.rotate
    {t : LogTarget} (hsound : t.Sound)
    (hlen : 0 < t.currentBuffer.handleLen)
    (havail : t.availBuffers.items ≠ []) :
    t.rotate.2 = true ∧ t.rotate.1.Sound ∧ t.rotate.1.myId = t.myId ∧
      t.rotate.1.delim = t.delim ∧ t.rotate.1.bankSize = t.bankSize ∧
      t.rotate.1.currentBuffer.data = [] ∧
      t.rotate.1.pastBanks = t.pastBanks ++ [t.currentBuffer.data] := by
  rcases t.rotate_cases with ⟨hzero, -⟩ |
    ⟨next, avail, writeOut, -, hremove, hadd, heq⟩ | ⟨-, hempty, -⟩ |
    ⟨next, avail, -, -, hfull, -⟩
  · omega
  · have hremoved := BoundedFifo.remove_eq_some hremove
    have hadded := BoundedFifo.addIfRoom_eq_some hadd
    have hnext := hsound.avail next (by rw [hremoved.1]; simp)
    have hcount := hsound.count
    rw [heq]
    refine ⟨rfl, ⟨hsound.plain, hsound.enabled, hnext.1, ?_, ?_, ?_,
      hsound.inFlight, ?_, ?_⟩, rfl, rfl, rfl, hnext.2, ?_⟩
    · dsimp only
      rw [LogBuf.handleLen, hnext.2]
      exact Nat.zero_le _
    · intro b hb
      exact hsound.avail b (by rw [hremoved.1]; exact List.mem_cons_of_mem _ hb)
    · intro b hb
      dsimp only at hb
      rw [hadded.2.1] at hb
      rcases List.mem_append.mp hb with hold | hnew
      · exact hsound.writeOut b hold
      · rw [List.mem_singleton.mp hnew]
        exact hsound.current
    · dsimp only
      rw [hadded.2.2, hremoved.2]
      exact hsound.capacity
    · have havailLen := congrArg List.length hremoved.1
      rw [List.length_cons] at havailLen
      unfold bankCount at hcount ⊢
      dsimp only
      rw [hadded.2.1, hremoved.2, List.length_append, List.length_singleton]
      omega
    · unfold pastBanks past
      rw [hadded.2.1]
      simp
  · exact absurd hempty havail
  · exact absurd (hsound.writeOut_hasRoom havail) hfull

theorem Sound.flushAll
    {t : LogTarget} {rotate : Bool} (hstart : (t.flushStart rotate).Sound)
    (o : Owner) (nocallbacks : Bool) :
    (t.flushAll o rotate nocallbacks).1.Sound :=
  flushLoop_invariant (f := fun t o b => t.flush o b nocallbacks)
    (P := fun t _ => t.Sound)
    (fun _ o _ _ hremove hsound => hsound.flush hremove o nocallbacks)
    _ (t.flushStart rotate) o hstart

/-! ## Copying a message in -/

theorem Sound.bytesOf_copyMessage
    {t : LogTarget} (hsound : t.Sound) (env : Formatting) (seq : ℕ)
    {header text footer : List UInt8} (htext : text ≠ [])
    (hfits : t.currentBuffer.handleLen + header.length + text.length +
      footer.length + (t.delim.getD []).length ≤ t.bankSize) :
    bytesOf (t.copyMessage env seq header text footer).currentBuffer.data =
      bytesOf t.currentBuffer.data ++
        (header ++ text ++ footer ++ t.delim.getD []) := by
  rcases hsound.current with ⟨hspace, hdelim⟩
  have hcopied : t.copiedText env text = text := by
    simp [copiedText, hsound.plain]
  have hbytes := t.bytesOf_copyMessage env seq header text footer (by
    rw [hcopied, hspace]
    omega)
  rw [hbytes, hcopied]
  simp [copiedDelim, htext, hdelim]

theorem Sound.copyMessage
    {t : LogTarget} (hsound : t.Sound) (env : Formatting) (seq : ℕ)
    {header text footer : List UInt8} (htext : text ≠ [])
    (hfits : t.currentBuffer.handleLen + header.length + text.length +
      footer.length + (t.delim.getD []).length ≤ t.bankSize) :
    (t.copyMessage env seq header text footer).Sound := by
  have hframe := t.copyMessage_frame env seq header text footer
  have hbytes := hsound.bytesOf_copyMessage env seq htext hfits
  refine ⟨hsound.plain, hsound.enabled, ⟨?_, ?_⟩, ?_, hsound.avail,
    hsound.writeOut, hsound.inFlight, hsound.capacity, hsound.count⟩
  · exact hframe.2.1.trans hsound.current.1
  · exact hframe.2.2.trans hsound.current.2
  · have hlen := congrArg List.length hbytes
    simp only [List.length_append] at hlen
    unfold LogBuf.handleLen at hfits ⊢
    have hsize : (t.copyMessage env seq header text footer).bankSize =
        t.bankSize := rfl
    omega

/-! ## The stream -/

/-- The closed banks and the current one hold these writes, whole and in
order. -/
def Streams (id : TargetId) (delim : Option (List UInt8)) (t : LogTarget)
    (writes : List TargetCall) : Prop :=
  ∃ (closed : List (List TargetCall)) (opened : List TargetCall),
    closed.flatten ++ opened = writes ∧
    t.pastBanks.map bytesOf =
      closed.map (fun group => group.flatMap (TargetCall.message id delim)) ∧
    bytesOf t.currentBuffer.data =
      opened.flatMap (TargetCall.message id delim)

structure Holds (id : TargetId) (delim : Option (List UInt8)) (t : LogTarget)
    (writes : List TargetCall) : Prop where
  sound : t.Sound
  ownId : t.myId = id
  ownDelim : t.delim = delim
  streams : Streams id delim t writes

variable {id : TargetId} {delim : Option (List UInt8)} {t : LogTarget}
  {writes : List TargetCall}

theorem Streams.of_sameStream
    {t' : LogTarget} (hstreams : Streams id delim t writes)
    (hsame : t.SameStream t') : Streams id delim t' writes := by
  unfold Streams pastBanks at hstreams ⊢
  rw [hsame.past, hsame.currentBuffer]
  exact hstreams

theorem Holds.of_sameStream
    {t' : LogTarget} (hholds : Holds id delim t writes)
    (hsame : t.SameStream t') (hsound : t'.Sound) :
    Holds id delim t' writes :=
  ⟨hsound, hsame.myId.trans hholds.ownId, hsame.delim.trans hholds.ownDelim,
    hholds.streams.of_sameStream hsame⟩

theorem Holds.rotate
    (hholds : Holds id delim t writes)
    (hlen : 0 < t.currentBuffer.handleLen)
    (havail : t.availBuffers.items ≠ []) :
    Holds id delim t.rotate.1 writes := by
  rcases hholds.sound.rotate hlen havail with
    ⟨-, hsound, hmyId, hdelim, -, hempty, hpast⟩
  rcases hholds.streams with ⟨closed, opened, hwrites, hclosed, hopened⟩
  refine ⟨hsound, hmyId.trans hholds.ownId, hdelim.trans hholds.ownDelim,
    closed ++ [opened], [], by simpa using hwrites, ?_, ?_⟩
  · rw [hpast, List.map_append, List.map_append, hclosed, List.map_singleton,
      List.map_singleton, hopened]
  · rw [hempty]
    rfl

theorem Holds.copyMessage
    (hholds : Holds id delim t writes) {c : TargetCall} {seq : ℕ}
    {text : List UInt8} {m : LogMeta} {filter : Filter}
    (hwrite : c.act = .write seq text m filter) (htext : text ≠ [])
    (hfits : t.currentBuffer.handleLen +
      (c.env.header t.myId m filter).length + text.length +
      (c.env.footer t.myId m filter).length + (t.delim.getD []).length ≤
        t.bankSize) :
    Holds id delim (t.copyMessage c.env seq (c.env.header t.myId m filter) text
      (c.env.footer t.myId m filter)) (writes ++ [c]) := by
  have hbytes := hholds.sound.bytesOf_copyMessage c.env seq htext hfits
  have hmessage : c.message id delim = c.env.header t.myId m filter ++ text ++
      c.env.footer t.myId m filter ++ t.delim.getD [] := by
    unfold TargetCall.message
    rw [hwrite, hholds.ownId, hholds.ownDelim]
  rcases hholds.streams with ⟨closed, opened, hwrites, hclosed, hopened⟩
  refine ⟨hholds.sound.copyMessage c.env seq htext hfits, hholds.ownId,
    hholds.ownDelim, closed, opened ++ [c], ?_, hclosed, ?_⟩
  · rw [← hwrites, List.append_assoc]
  · rw [hbytes, hopened, List.flatMap_append, List.flatMap_singleton, hmessage]

theorem Holds.write
    (hholds : Holds id delim t writes) {c : TargetCall} {seq : ℕ}
    {text : List UInt8} {m : LogMeta} {filter : Filter}
    (hwrite : c.act = .write seq text m filter) (hadmits : t.Admits c) :
    Holds id delim (t.write c.owner c.env seq text m filter).1
      (writes ++ [c]) := by
  simp only [Admits, hwrite] at hadmits
  rcases hadmits with ⟨hpos, hsize, hextra, hrotation⟩
  have htext : text ≠ [] := List.length_pos_iff.mp hpos
  have hspace := hholds.sound.current.1
  have hdelim := hholds.sound.current.2
  have hnonempty : ¬t.fits c.env text m filter →
      0 < t.currentBuffer.handleLen := by
    unfold fits LogBuf.remain
    rw [hspace, hdelim]
    omega
  rcases t.write_cases c.owner c.env seq text m filter with
    ⟨hdisabled | hover, -⟩ | ⟨-, hover, -⟩ | ⟨-, -, hfits, o', -, heq⟩ |
    ⟨-, -, hnofit, -, queue, o', -, -, heq⟩ | ⟨-, -, hnofit, hfull, -⟩
  · simp [hholds.sound.enabled] at hdisabled
  · have hlarge : t.bankSize < text.length + greaseMaxPrefixHeader := hover.1
    omega
  · have hlarge : t.bankSize < text.length + greaseMaxPrefixHeader := hover
    omega
  · rw [heq]
    apply hholds.copyMessage hwrite htext
    unfold fits LogBuf.remain at hfits
    rw [hspace, hdelim] at hfits
    omega
  · rw [heq]
    have havail := (hrotation hnofit).1
    have hrotated := hholds.sound.rotate (hnonempty hnofit) havail
    rcases hrotated with ⟨-, -, hmyId, hsameDelim, hsameSize, hempty, -⟩
    have hnext := hholds.rotate (hnonempty hnofit) havail
    have hzero : t.rotate.1.currentBuffer.handleLen = 0 := by
      rw [LogBuf.handleLen, hempty]
      rfl
    rw [← hmyId]
    apply hnext.copyMessage hwrite htext
    rw [hzero, hmyId, hsameDelim, hsameSize]
    omega
  · have hroom := hrotation hnofit
    have hrotated := hholds.sound.rotate (hnonempty hnofit) hroom.1
    exact absurd hroom.2 (hfull hrotated.1)

theorem Holds.flushAll
    (hholds : Holds id delim t writes) (o : Owner) {rotate : Bool}
    (nocallbacks : Bool)
    (hrotation : rotate = true → 0 < t.currentBuffer.handleLen →
      t.availBuffers.items ≠ []) :
    Holds id delim (t.flushAll o rotate nocallbacks).1 writes := by
  have hstart : Holds id delim (t.flushStart rotate) writes := by
    unfold flushStart
    cases rotate with
    | false => exact hholds
    | true =>
        rw [if_pos rfl]
        by_cases hlen : 0 < t.currentBuffer.handleLen
        · exact hholds.rotate hlen (hrotation rfl hlen)
        · have hidle : t.rotate = (t, false) := by
            rw [LogTarget.rotate, if_neg hlen]
          rw [hidle]
          exact hholds
  exact hstart.of_sameStream (t.flushAll_frame o rotate nocallbacks).1
    (hstart.sound.flushAll o nocallbacks)

theorem Holds.respond
    (hholds : Holds id delim t writes) {c : TargetCall}
    (hadmits : t.Admits c) :
    Holds id delim (t.respond c)
      (writes ++ if c.isWrite then [c] else []) := by
  have hact : ∀ a, c.act = a → t.respond c = (t.act c.owner c.env a).1 := by
    intro a ha
    rw [LogTarget.respond, ha]
  unfold TargetCall.isWrite
  cases hcall : c.act with
  | write seq text m filter =>
      rw [hact _ hcall]
      exact hholds.write hcall hadmits
  | flushAll rotate nocallbacks =>
      simp only [Admits, hcall] at hadmits
      rw [hact _ hcall]
      simpa [LogTarget.act] using hholds.flushAll c.owner nocallbacks hadmits
  | completeWrite i =>
      rw [hact _ hcall]
      have hsame := (t.completeWrite_frame c.owner i).1.sameStream
      simpa [LogTarget.act] using hholds.of_sameStream hsame
        (hholds.sound.completeWrite c.owner i)
  | completeOverflow i =>
      rw [hact _ hcall]
      have hsame := (t.completeOverflow_frame c.owner i).1.sameStream
      simpa [LogTarget.act] using hholds.of_sameStream hsame
        (hholds.sound.completeOverflow c.owner i)
  | finalizeV8Callback b =>
      simp only [Admits, hcall] at hadmits
      rw [hact _ hcall]
      have hsame := (t.sameOutput_finalizeV8Callback b).sameStream
      simpa [LogTarget.act] using hholds.of_sameStream hsame
        (hholds.sound.finalizeV8Callback hadmits.1 hadmits.2)
  | setCallback =>
      rw [hact _ hcall]
      have hsame : t.SameStream t.setCallback :=
        ⟨rfl, rfl, rfl, rfl, rfl, rfl, rfl, rfl⟩
      simpa [LogTarget.act] using hholds.of_sameStream hsame
        hholds.sound.setCallback
  | writeOverflow l filter => simp [Admits, hcall] at hadmits
  | flushAllSync rotate nocallbacks => simp [Admits, hcall] at hadmits
  | disableWrites v => simp [Admits, hcall] at hadmits

theorem sound_new
    (kind : TargetKind) (bankSize : ℕ) (id : TargetId)
    (delim : Option (List UInt8)) (numBanks : ℕ) {flags : UInt32}
    (hplain : ((LogTarget.new kind bankSize id delim numBanks).setFlag
      flags).escapes = false) :
    ((LogTarget.new kind bankSize id delim numBanks).setFlag flags).Sound := by
  refine ⟨hplain, rfl, ⟨rfl, rfl⟩, Nat.zero_le _, ?_, by simp [setFlag, new],
    by simp [setFlag, new], rfl, ?_⟩
  · intro b hb
    rcases List.mem_map.mp hb with ⟨n, -, rfl⟩
    exact ⟨⟨rfl, rfl⟩, rfl⟩
  · simp only [bankCount, setFlag, new, List.length_map, List.length_range',
      BoundedFifo.items_empty, List.length_nil]
    omega

/-- Every run of admitted calls leaves the messages written, each once, whole
and followed by its delimiter, in the banks of the target. -/
theorem banks_hold_writes
    (kind : TargetKind) (bankSize : ℕ) (id : TargetId)
    (delim : Option (List UInt8)) (numBanks : ℕ) (flags : UInt32)
    (hplain : ((LogTarget.new kind bankSize id delim numBanks).setFlag
      flags).escapes = false)
    {calls : List TargetCall}
    (hadmits : Run.Meets respond Admits
      ((LogTarget.new kind bankSize id delim numBanks).setFlag flags) calls) :
    (Run.final respond
        ((LogTarget.new kind bankSize id delim numBanks).setFlag flags)
        calls).buffers.flatMap bytesOf =
      (calls.filter TargetCall.isWrite).flatMap
        (TargetCall.message id delim) ∧
    ∃ groups : List (List TargetCall),
      groups.flatten = calls.filter TargetCall.isWrite ∧
      (Run.final respond
          ((LogTarget.new kind bankSize id delim numBanks).setFlag flags)
          calls).buffers.map bytesOf =
        groups.map (fun group =>
          group.flatMap (TargetCall.message id delim)) := by
  have hstart : Holds id delim
      ((LogTarget.new kind bankSize id delim numBanks).setFlag flags) [] :=
    ⟨sound_new kind bankSize id delim numBanks hplain, rfl, rfl, [], [], rfl,
      rfl, rfl⟩
  have hstep : ∀ t c writes, Holds id delim t writes → t.Admits c →
      Holds id delim (t.respond c)
        (writes ++ if c.isWrite then [c] else []) :=
    fun _ _ _ hholds hadmit => hholds.respond hadmit
  have hend := Run.final_relates hstep hstart hadmits
  have hemitted : calls.flatMap (fun c => if c.isWrite then [c] else []) =
      calls.filter TargetCall.isWrite :=
    TargetCall.flatMap_isWrite calls
  rw [List.nil_append, hemitted] at hend
  rcases hend.streams with ⟨closed, opened, hwrites, hclosed, hopened⟩
  have hgroups : (Run.final respond
      ((LogTarget.new kind bankSize id delim numBanks).setFlag flags)
      calls).buffers.map bytesOf = (closed ++ [opened]).map (fun group =>
        group.flatMap (TargetCall.message id delim)) := by
    rw [buffers, List.map_append, List.map_append, hclosed,
      List.map_singleton, List.map_singleton, hopened]
  have hflat : (closed ++ [opened]).flatten =
      calls.filter TargetCall.isWrite := by
    simpa using hwrites
  constructor
  · rw [List.flatMap_def, hgroups, ← List.flatMap_def, ← hflat,
      List.flatten_eq_flatMap, List.flatMap_assoc]
    rfl
  · exact ⟨closed ++ [opened], hflat, hgroups⟩

/-- A target of three small banks, two messages of which the second needs a
rotation, and the flush the rotation asks for. -/
theorem banks_hold_two_writes :
    let env : Formatting := {
      header := fun _ _ _ => List.replicate 100 91
      footer := fun _ _ _ => [93]
      jsonEscape := fun _ s => s }
    let owner := (Logger.new 2000).owner
    let t := (LogTarget.new .file 150 1 (some [10]) 3).setFlag 0
    let write (seq : ℕ) (text : List UInt8) : TargetCall :=
      ⟨owner, env, .write seq text noMetaData
        ((FilterArgs.mk 1 0 0 1 none none none).filter 1)⟩
    let calls := [write 0 [104, 105], write 1 [111, 107],
      ⟨owner, env, .flushAll false false⟩]
    Run.Meets respond Admits t calls ∧
      (Run.final respond t calls).handed.length = 1 ∧
      (Run.final respond t calls).buffers.flatMap bytesOf =
        (calls.filter TargetCall.isWrite).flatMap
          (TargetCall.message 1 (some [10])) := by
  intro env owner t write calls
  have hadmits : Run.Meets respond Admits t calls :=
    ⟨⟨by decide, by decide, by decide, by decide⟩,
      ⟨by decide, by decide, by decide, by decide⟩,
      fun hrotate => Bool.noConfusion hrotate, trivial⟩
  have hhanded : (Run.final respond t calls).handed.length = 1 := by decide
  exact ⟨hadmits, hhanded,
    (banks_hold_writes .file 150 1 (some [10]) 3 0 (by decide) hadmits).1⟩

end LogTarget

end GreaseLog
