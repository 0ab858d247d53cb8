import GreaseLog.BufferedOutput
import GreaseLog.JsonEscape

/-!
# The capacity of a bank

A bank has `space` bytes, and `write` checks the length of a message twice:
against the size of an empty bank, with `GREASE_MAX_PREFIX_HEADER` bytes set
aside for header and footer, and against what remains in the current bank,
with the delimiter set aside.  The copies that follow check neither.  They go
past the end of the bank when a message comes to a fresh bank together with
the largest decorations and a delimiter, and when a text gets longer by being
escaped.

For a write it is enough to look at the end of its stores; the rest of the
file shows that banks keep their size and their delimiter wherever they go.
-/

namespace GreaseLog

/-- A bank of this size and with this delimiter, with no more in it than it
holds. -/
structure LogBuf.Fits (size : ℕ) (d : Option (List UInt8)) (b : LogBuf) :
    Prop where
  space : b.space = size
  delim : b.delim = d
  filled : b.handleLen ≤ b.space

theorem LogBuf.Fits.clear
    {size : ℕ} {d : Option (List UInt8)} {b : LogBuf} (h : b.Fits size d) :
    b.clear.Fits size d :=
  ⟨h.space, h.delim, by simp [LogBuf.handleLen, LogBuf.clear, bytesOf]⟩

namespace LogTarget

/-! ## Where a write stores -/

/-- The end of the text in the current bank. -/
def textEnd (t : LogTarget) (env : Formatting) (header text : List UInt8) :
    ℕ :=
  t.currentBuffer.handleLen + header.length + (t.copiedText env text).length

/-- The zero `memcpy_and_json_escape` puts behind an escaped text. -/
def storedTerminator (t : LogTarget) (env : Formatting) (text : List UInt8) :
    List UInt8 :=
  if t.escapes ∧ text ≠ [] then
    escapeTerminator t.currentBuffer.space (t.copiedText env text)
  else []

/-- No store of the message goes past the end of the current bank. -/
def StoresInside (t : LogTarget) (env : Formatting)
    (header text footer : List UInt8) : Prop :=
  t.textEnd env header text + (t.storedTerminator env text).length ≤
      t.currentBuffer.space ∧
    t.textEnd env header text + footer.length +
      (t.copiedDelim text footer).length ≤ t.currentBuffer.space

/-- No store of the call goes past the end of a bank. -/
def CopiesInside (t : LogTarget) (c : TargetCall) : Prop :=
  match c.act with
  | .write _ text m filter =>
      t.disabled = false → ¬t.oversize text →
        (t.fits c.env text m filter →
          t.StoresInside c.env (c.env.header t.myId m filter) text
            (c.env.footer t.myId m filter)) ∧
        (¬t.fits c.env text m filter → t.rotate.2 = true →
          c.owner.internalCmdQueue.hasRoom →
          t.rotate.1.StoresInside c.env (c.env.header t.myId m filter) text
            (c.env.footer t.myId m filter))
  | _ => True

/-- All banks in the hands of the target and of the operating system. -/
def banks (t : LogTarget) : List LogBuf :=
  t.currentBuffer :: t.availBuffers.items ++ t.writeOutBuffers.items ++
    t.inFlight.map Prod.fst

def WithinBanks (t : LogTarget) : Prop :=
  ∀ b ∈ t.banks, b.handleLen ≤ b.space

instance (t : LogTarget) : Decidable t.WithinBanks :=
  inferInstanceAs (Decidable (∀ b ∈ t.banks, _))

/-! ## Banks keep their size -/

structure BanksFit (size : ℕ) (d : Option (List UInt8)) (t : LogTarget) :
    Prop where
  bankSize : t.bankSize = size
  current : t.currentBuffer.Fits size d
  avail : ∀ b ∈ t.availBuffers.items, b.Fits size d ∧ b.data = []
  writeOut : ∀ b ∈ t.writeOutBuffers.items, b.Fits size d
  inFlight : ∀ x ∈ t.inFlight, x.1.Fits size d

variable {size : ℕ} {d : Option (List UInt8)} {t : LogTarget}

theorem BanksFit.withinBanks (h : t.BanksFit size d) : t.WithinBanks := by
  intro b hb
  simp only [banks, List.cons_append, List.mem_cons, List.mem_append,
    List.mem_map] at hb
  rcases hb with rfl | (havail | hwriteOut) | ⟨x, hx, rfl⟩
  · exact h.current.filled
  · exact (h.avail b havail).1.filled
  · exact (h.writeOut b hwriteOut).filled
  · exact (h.inFlight x hx).filled

theorem banksFit_new
    (kind : TargetKind) (bankSize : ℕ) (id : TargetId)
    (delim : Option (List UInt8)) (numBanks : ℕ) (flags : UInt32) :
    ((new kind bankSize id delim numBanks).setFlag flags).BanksFit bankSize
      delim := by
  have hempty : ∀ n, (LogBuf.new bankSize n delim).Fits bankSize delim :=
    fun n => ⟨rfl, rfl, by simp [LogBuf.handleLen, LogBuf.new, bytesOf]⟩
  refine ⟨rfl, hempty 0, ?_, ?_, ?_⟩
  · intro b hb
    rcases List.mem_map.mp hb with ⟨n, -, rfl⟩
    exact ⟨hempty n, rfl⟩
  · simp [setFlag, new]
  · simp [setFlag, new]

theorem BanksFit.of_addIfRoom
    (h : t.BanksFit size d) {b : LogBuf} (hb : b.Fits size d)
    {avail : BoundedFifo LogBuf}
    (hadd : t.availBuffers.addIfRoom b.clear = some avail) :
    { t with availBuffers := avail }.BanksFit size d := by
  refine ⟨h.bankSize, h.current, ?_, h.writeOut, h.inFlight⟩
  intro b' hb'
  rw [(BoundedFifo.addIfRoom_eq_some hadd).2.1] at hb'
  rcases List.mem_append.mp hb' with hold | hnew
  · exact h.avail b' hold
  · rw [List.mem_singleton.mp hnew]
    exact ⟨hb.clear, rfl⟩

theorem BanksFit.addAvail
    (h : t.BanksFit size d) {b : LogBuf} (hb : b.Fits size d) :
    (t.addAvail b).BanksFit size d := by
  rcases t.addAvail_cases b with ⟨avail, hadd, heq⟩ | ⟨-, heq⟩
  · rw [heq]
    exact h.of_addIfRoom hb hadd
  · rw [heq]
    exact ⟨h.bankSize, h.current, h.avail, h.writeOut, h.inFlight⟩

theorem BanksFit.finalizeV8Callback
    (h : t.BanksFit size d) {b : LogBuf} (hb : b.Fits size d) :
    (t.finalizeV8Callback b).BanksFit size d := by
  rcases t.finalizeV8Callback_cases b with ⟨avail, hadd, heq⟩ | ⟨-, heq⟩
  · rw [heq]
    exact h.of_addIfRoom hb hadd
  · rw [heq]
    exact h

theorem BanksFit.returnBuffer
    (h : t.BanksFit size d) {b : LogBuf} (hb : b.Fits size d) (o : Owner)
    (sync nocallback : Bool) :
    (t.returnBuffer o b sync nocallback).1.BanksFit size d := by
  rcases t.returnBuffer_cases o b sync nocallback with
    ⟨o', -, heq | ⟨callbacks, -, heq⟩ | ⟨-, heq⟩⟩ <;> rw [heq]
  · exact h.addAvail hb
  · exact h
  · exact h

theorem BanksFit.rotate (h : t.BanksFit size d) :
    t.rotate.1.BanksFit size d := by
  rcases t.rotate_cases with ⟨-, heq⟩ |
    ⟨next, avail, writeOut, -, hremove, hadd, heq⟩ | ⟨-, -, heq⟩ |
    ⟨next, avail, -, hremove, -, heq⟩ <;> rw [heq]
  · exact h
  · have hitems := (BoundedFifo.remove_eq_some hremove).1
    refine ⟨h.bankSize, (h.avail next (by simp [hitems])).1, ?_, ?_,
      h.inFlight⟩
    · exact fun b hb => h.avail b (by simp [hitems, hb])
    · intro b hb
      rw [(BoundedFifo.addIfRoom_eq_some hadd).2.1] at hb
      rcases List.mem_append.mp hb with hold | hnew
      · exact h.writeOut b hold
      · rw [List.mem_singleton.mp hnew]
        exact h.current
  · exact ⟨h.bankSize, h.current.clear, h.avail, h.writeOut, h.inFlight⟩
  · have hitems := (BoundedFifo.remove_eq_some hremove).1
    rcases BoundedFifo.addIfRoom_of_hasRoom
      (BoundedFifo.hasRoom_of_remove hremove) next with ⟨back, hadd, hback, -⟩
    refine ⟨h.bankSize, h.current.clear, ?_, h.writeOut, h.inFlight⟩
    intro b hb
    rw [hadd, Option.getD_some, hback] at hb
    exact h.avail b (by rw [hitems]; simpa [or_comm] using hb)

/-- A rotation succeeds with something to write out and a bank to continue
with, which is empty. -/
theorem BanksFit.rotate_empty
    (h : t.BanksFit size d) (hrotated : t.rotate.2 = true) :
    0 < t.currentBuffer.handleLen ∧ t.availBuffers.items ≠ [] ∧
      t.rotate.1.currentBuffer.handleLen = 0 := by
  rcases t.rotate_cases with ⟨-, heq⟩ |
    ⟨next, avail, writeOut, hlen, hremove, -, heq⟩ | ⟨-, -, heq⟩ |
    ⟨next, avail, -, -, -, heq⟩
  · simp [heq] at hrotated
  · have hitems := (BoundedFifo.remove_eq_some hremove).1
    have hdata := (h.avail next (by simp [hitems])).2
    refine ⟨hlen, by simp [hitems], ?_⟩
    rw [heq]
    simp [LogBuf.handleLen, hdata, bytesOf]
  · simp [heq] at hrotated
  · simp [heq] at hrotated

theorem BanksFit.of_remove
    (h : t.BanksFit size d) {b : LogBuf} {writeOut : BoundedFifo LogBuf}
    (hremove : t.writeOutBuffers.remove = some (b, writeOut)) :
    b.Fits size d ∧
      { t with writeOutBuffers := writeOut }.BanksFit size d := by
  have hitems := (BoundedFifo.remove_eq_some hremove).1
  refine ⟨h.writeOut b (by simp [hitems]), h.bankSize, h.current, h.avail, ?_,
    h.inFlight⟩
  exact fun b' hb' => h.writeOut b' (by simp [hitems, hb'])

theorem BanksFit.flushStart (h : t.BanksFit size d) (rotate : Bool) :
    (t.flushStart rotate).BanksFit size d := by
  unfold LogTarget.flushStart
  split
  · exact h.rotate
  · exact h

theorem BanksFit.handed (h : t.BanksFit size d) (handed : List Handed) :
    { t with handed := handed }.BanksFit size d :=
  ⟨h.bankSize, h.current, h.avail, h.writeOut, h.inFlight⟩

theorem BanksFit.flushAll
    (h : t.BanksFit size d) (o : Owner) (rotate nocallbacks : Bool) :
    (t.flushAll o rotate nocallbacks).1.BanksFit size d := by
  refine flushLoop_invariant (f := fun t o b => t.flush o b nocallbacks)
    (P := fun t _ => t.BanksFit size d) ?_ _ (t.flushStart rotate) o
    (h.flushStart rotate)
  intro t' o' b writeOut hremove hround
  rcases hround.of_remove hremove with ⟨hb, hrest⟩
  rcases flush_cases { t' with writeOutBuffers := writeOut } o' b
    nocallbacks with heq | heq
  · rw [heq]
    refine ⟨hrest.bankSize, hrest.current, hrest.avail, hrest.writeOut, ?_⟩
    intro x hx
    rcases List.mem_append.mp hx with hold | hnew
    · exact hrest.inFlight x hold
    · rw [List.mem_singleton.mp hnew]
      exact hb
  · rw [heq]
    exact (hrest.handed _).returnBuffer hb o' false nocallbacks

theorem BanksFit.flushAllSync
    (h : t.BanksFit size d) (o : Owner) (rotate nocallbacks : Bool) :
    (t.flushAllSync o rotate nocallbacks).1.BanksFit size d := by
  refine flushLoop_invariant (f := fun t o b => t.flushSync o b nocallbacks)
    (P := fun t _ => t.BanksFit size d) ?_ _ (t.flushStart rotate) o
    (h.flushStart rotate)
  intro t' o' b writeOut hremove hround
  rcases hround.of_remove hremove with ⟨hb, hrest⟩
  unfold flushSync
  dsimp only
  split
  · exact hrest
  · exact (hrest.handed _).returnBuffer hb o' true nocallbacks

theorem BanksFit.completeWrite (h : t.BanksFit size d) (o : Owner) (i : ℕ) :
    (t.completeWrite o i).1.BanksFit size d := by
  unfold LogTarget.completeWrite
  cases hgot : t.inFlight[i]? with
  | none => exact h
  | some x =>
      rcases x with ⟨b, nocallback⟩
      have hb := h.inFlight (b, nocallback) (List.mem_of_getElem? hgot)
      have hrest : { t with
          inFlight := t.inFlight.eraseIdx i }.BanksFit size d :=
        ⟨h.bankSize, h.current, h.avail, h.writeOut,
          fun x hx => h.inFlight x (List.mem_of_mem_eraseIdx hx)⟩
      exact hrest.returnBuffer hb o false nocallback

theorem BanksFit.completeOverflow
    (h : t.BanksFit size d) (o : Owner) (i : ℕ) :
    (t.completeOverflow o i).1.BanksFit size d := by
  unfold LogTarget.completeOverflow
  split
  · exact h
  · exact ⟨h.bankSize, h.current, h.avail, h.writeOut, h.inFlight⟩

theorem BanksFit.writeOverflow
    (h : t.BanksFit size d) (o : Owner) (env : Formatting) (l : SingleLog)
    (filter : Filter) :
    (t.writeOverflow o env l filter).1.BanksFit size d := by
  unfold LogTarget.writeOverflow writeAsyncOverflow
  dsimp only
  split
  · exact h
  · split
    · exact ⟨h.bankSize, h.current, h.avail, h.writeOut, h.inFlight⟩
    · exact h.handed _
    · split
      · split <;> exact h.handed _
      · exact h.handed _

/-! ## Writes -/

theorem BanksFit.copyMessage
    (h : t.BanksFit size d) (env : Formatting) (seq : ℕ)
    {header text footer : List UInt8}
    (hinside : t.StoresInside env header text footer) :
    (t.copyMessage env seq header text footer).BanksFit size d := by
  rcases t.copyMessage_frame env seq header text footer with
    ⟨-, hspace, hdelim⟩
  rcases hinside with ⟨-, hend⟩
  unfold textEnd at hend
  have hbytes := t.bytesOf_copyMessage env seq header text footer (by omega)
  refine ⟨h.bankSize, ⟨?_, ?_, ?_⟩, h.avail, h.writeOut, h.inFlight⟩
  · exact hspace.trans h.current.space
  · exact hdelim.trans h.current.delim
  · unfold LogBuf.handleLen at hend ⊢
    rw [hspace, hbytes]
    simp only [List.length_append]
    omega

theorem BanksFit.write
    (h : t.BanksFit size d) {c : TargetCall} {seq : ℕ} {text : List UInt8}
    {m : LogMeta} {filter : Filter} (hact : c.act = .write seq text m filter)
    (hinside : t.CopiesInside c) :
    (t.write c.owner c.env seq text m filter).1.BanksFit size d := by
  unfold CopiesInside at hinside
  rw [hact] at hinside
  rcases t.write_cases c.owner c.env seq text m filter with ⟨-, heq⟩ |
    ⟨-, -, queue, -, heq⟩ | ⟨hon, hsmall, hfits, o', -, heq⟩ |
    ⟨hon, hsmall, hfits, hrotated, queue, o', hadd, -, heq⟩ |
    ⟨-, -, -, -, heq⟩ <;> rw [heq]
  · exact h
  · exact h
  · exact h.copyMessage c.env seq ((hinside hon hsmall).1 hfits)
  · have hroom := (BoundedFifo.addIfRoom_eq_some hadd).1
    exact h.rotate.copyMessage c.env seq
      ((hinside hon hsmall).2 hfits hrotated hroom)
  · exact h.rotate

/-- Banks that are given back belong to the target. -/
def ReturnsOwn (t : LogTarget) (c : TargetCall) : Prop :=
  match c.act with
  | .finalizeV8Callback b =>
      b.space = t.bankSize ∧ b.delim = t.currentBuffer.delim ∧
        b.handleLen ≤ b.space
  | _ => True

theorem BanksFit.respond
    (h : t.BanksFit size d) {c : TargetCall} (hown : t.ReturnsOwn c)
    (hinside : t.CopiesInside c) :
    (t.respond c).BanksFit size d := by
  unfold ReturnsOwn at hown
  unfold LogTarget.respond
  cases hact : c.act with
  | write seq text m filter => exact h.write hact hinside
  | writeOverflow l filter => exact h.writeOverflow c.owner c.env l filter
  | flushAll rotate nocallbacks => exact h.flushAll c.owner rotate nocallbacks
  | flushAllSync rotate nocallbacks =>
      exact h.flushAllSync c.owner rotate nocallbacks
  | completeWrite i => exact h.completeWrite c.owner i
  | completeOverflow i => exact h.completeOverflow c.owner i
  | finalizeV8Callback b =>
      rw [hact] at hown
      rcases hown with ⟨hspace, hdelim, hfilled⟩
      have hb : b.Fits size d :=
        ⟨hspace.trans h.bankSize, hdelim.trans h.current.delim, hfilled⟩
      exact h.finalizeV8Callback hb
  | disableWrites v =>
      exact ⟨h.bankSize, h.current, h.avail, h.writeOut, h.inFlight⟩
  | setCallback =>
      exact ⟨h.bankSize, h.current, h.avail, h.writeOut, h.inFlight⟩

/-- The call stores inside the banks and leaves no bank with more in it than
it holds. -/
def KeepsInside (t : LogTarget) (c : TargetCall) : Prop :=
  t.CopiesInside c ∧ (t.respond c).WithinBanks

theorem escapes_respond (t : LogTarget) (c : TargetCall) :
    (t.respond c).escapes = t.escapes := by
  unfold escapes LogTarget.respond
  rw [(t.act_sameConfig c.owner c.env c.act).flags]

theorem escapes_rotate (t : LogTarget) : t.rotate.1.escapes = t.escapes := by
  unfold escapes
  rw [t.rotate_sameConfig.flags]

/-- If every call that the condition admits copies inside the banks, every
run of such calls stays inside. -/
theorem meets_keepsInside
    {json : Bool} {room : LogTarget → TargetCall → Prop}
    (hroom : ∀ (t : LogTarget) c, t.BanksFit size d → t.escapes = json →
      room t c → t.CopiesInside c)
    {calls : List TargetCall} (hstart : t.BanksFit size d)
    (hflags : t.escapes = json)
    (hmeets : Run.Meets respond (fun t c => t.ReturnsOwn c ∧ room t c) t
      calls) :
    Run.Meets respond KeepsInside t calls := by
  refine Run.meets_of_invariant
    (I := fun t => t.BanksFit size d ∧ t.escapes = json) ?_
    ⟨hstart, hflags⟩ hmeets
  rintro t c ⟨hfit, hescapes⟩ ⟨hown, hc⟩
  have hinside := hroom t c hfit hescapes hc
  have hnext := hfit.respond hown hinside
  exact ⟨⟨hnext, (t.escapes_respond c).trans hescapes⟩, hinside,
    hnext.withinBanks⟩

/-- The message goes to the banks: to the current one if it has room for the
text as it is, or else to a fresh one. -/
structure TakesIn (t : LogTarget) (env : Formatting) (text : List UInt8)
    (m : LogMeta) (filter : Filter) : Prop where
  enabled : t.disabled = false
  small : ¬t.oversize text
  fresh : ¬t.fits env text m filter →
    0 < t.currentBuffer.handleLen ∧ t.availBuffers.items ≠ []

/-! ## Targets which do not escape -/

/-- A message that goes to a fresh bank fits there together with its
delimiter. -/
def DelimRoom (t : LogTarget) (c : TargetCall) : Prop :=
  match c.act with
  | .write _ text m filter =>
      t.TakesIn c.env text m filter → ¬t.fits c.env text m filter →
        text.length + (c.env.header t.myId m filter).length +
          (c.env.footer t.myId m filter).length +
          (t.copiedDelim text (c.env.footer t.myId m filter)).length ≤
            t.bankSize
  | _ => True

theorem length_copiedDelim_le
    (t : LogTarget) (text footer : List UInt8) :
    (t.copiedDelim text footer).length ≤
      (t.currentBuffer.delim.getD []).length := by
  unfold copiedDelim
  split <;> simp

theorem storesInside_plain_iff
    (hplain : t.escapes = false) (env : Formatting)
    (header text footer : List UInt8) :
    t.StoresInside env header text footer ↔
      t.currentBuffer.handleLen + header.length + text.length +
        footer.length + (t.copiedDelim text footer).length ≤
          t.currentBuffer.space := by
  have hcopied : t.copiedText env text = text := by simp [copiedText, hplain]
  have hterminator : t.storedTerminator env text = [] := by
    simp [storedTerminator, hplain]
  unfold StoresInside textEnd
  rw [hcopied, hterminator, List.length_nil]
  omega

theorem DelimRoom.copiesInside
    (hfit : t.BanksFit size d) (hplain : t.escapes = false) {c : TargetCall}
    (hroom : t.DelimRoom c) : t.CopiesInside c := by
  unfold DelimRoom at hroom
  unfold CopiesInside
  cases hact : c.act with
  | write seq text m filter =>
      rw [hact] at hroom
      dsimp only at hroom ⊢
      intro hon hsmall
      set header := c.env.header t.myId m filter
      set footer := c.env.footer t.myId m filter
      constructor
      · intro hfits
        rw [storesInside_plain_iff hplain]
        have hremain : text.length + header.length + footer.length ≤
            t.currentBuffer.remain := hfits
        have hfilled := hfit.current.filled
        have hdelim := t.length_copiedDelim_le text footer
        unfold LogBuf.remain at hremain
        by_cases hnone : text = [] ∧ footer = []
        · have hnoDelim : t.copiedDelim text footer = [] := by
            simp [copiedDelim, hnone]
          rw [hnoDelim, List.length_nil]
          have htext := congrArg List.length hnone.1
          have hfoot := congrArg List.length hnone.2
          rw [List.length_nil] at htext hfoot
          omega
        · have hpos : 0 < text.length + footer.length := by
            by_contra hzero
            exact hnone ⟨List.length_eq_zero_iff.mp (by omega),
              List.length_eq_zero_iff.mp (by omega)⟩
          omega
      · intro hfits hrotated _
        rcases hfit.rotate_empty hrotated with ⟨hlen, havail, hempty⟩
        have hnext := hfit.rotate.current
        rw [storesInside_plain_iff (t.escapes_rotate.trans hplain), hempty,
          hnext.space, ← hfit.bankSize]
        have hdelim : t.rotate.1.copiedDelim text footer =
            t.copiedDelim text footer := by
          unfold copiedDelim
          rw [hnext.delim, hfit.current.delim]
        rw [hdelim]
        have htotal := hroom ⟨hon, hsmall, fun _ => ⟨hlen, havail⟩⟩ hfits
        omega
  | _ => trivial

/-- A target as `addTarget` leaves it. -/
def started (kind : TargetKind) (bankSize : ℕ) (id : TargetId)
    (delim : Option (List UInt8)) (numBanks : ℕ) (flags : UInt32) :
    LogTarget :=
  (new kind bankSize id delim numBanks).setFlag flags

/-- A target which does not escape stays inside its banks in every run in
which the messages that need a fresh bank fit it with their delimiter. -/
theorem plain_keeps_inside
    (kind : TargetKind) (bankSize : ℕ) (id : TargetId)
    (delim : Option (List UInt8)) (numBanks : ℕ) (flags : UInt32)
    (hplain : (started kind bankSize id delim numBanks flags).escapes = false)
    {calls : List TargetCall}
    (hmeets : Run.Meets respond (fun t c => t.ReturnsOwn c ∧ t.DelimRoom c)
      (started kind bankSize id delim numBanks flags) calls) :
    Run.Meets respond KeepsInside
      (started kind bankSize id delim numBanks flags) calls :=
  meets_keepsInside
    (fun _ _ hfit hescapes hroom => hroom.copiesInside hfit hescapes)
    (banksFit_new kind bankSize id delim numBanks flags) hplain hmeets

def writeWith (env : Formatting) (text : List UInt8) : TargetCall where
  owner := (Logger.new 0).owner
  env := env
  act := .write 0 text noMetaData Filter.empty

/-- Given results of the format strings, with `after` behind the texts that are
escaped. -/
def decorated (after header footer : List UInt8) : Formatting where
  header := fun _ _ _ => header
  footer := fun _ _ _ => footer
  jsonEscape := memcpyAndJsonEscape after

theorem plain_keeps_inside_short :
    Run.Meets respond KeepsInside (started .file 200 1 (some [10]) 2 0)
      [writeWith (decorated [] [91] []) [104, 105]] :=
  plain_keeps_inside .file 200 1 (some [10]) 2 0 (by decide)
    ⟨⟨trivial, by intro _ _; decide +kernel⟩, trivial⟩

/-- The second message has a header of 128 bytes and comes to a fresh bank of
200 bytes with 72 bytes of text.  Its delimiter is the byte too many. -/
theorem delimiter_past_bank :
    (started .file 200 1 (some [10]) 2 0).escapes = false ∧
      (List.replicate 128 (45 : UInt8)).length ≤ greaseMaxPrefixHeader ∧
      ¬Run.Meets respond KeepsInside (started .file 200 1 (some [10]) 2 0)
        [writeWith (decorated [] [] []) [104],
          writeWith (decorated [] (List.replicate 128 45) [])
            (List.replicate 72 97)] := by
  refine ⟨by decide, by simp [greaseMaxPrefixHeader], ?_⟩
  rintro ⟨-, ⟨-, hwithin⟩, -⟩
  revert hwithin
  decide +kernel

/-! ## Targets which escape -/

/-- The escaped text fits what is left of the bank with its terminating zero,
and with its footer and delimiter.  The other possibility is a text that is cut
because it takes the whole of an empty bank. -/
def EscapeRoom (size fill : ℕ) (header text footer delim escaped :
    List UInt8) : Prop :=
  (fill + header.length + escaped.length + (if text = [] then 0 else 1) ≤
        size ∧
      fill + header.length + escaped.length + footer.length + delim.length ≤
        size) ∨
    (text ≠ [] ∧ fill = 0 ∧ header = [] ∧ size ≤ escaped.length ∧
      footer = [] ∧ delim = [])

/-- A message that goes to the banks fits the one it is written to after it has
been escaped. -/
def EscapedRoom (t : LogTarget) (c : TargetCall) : Prop :=
  match c.act with
  | .write _ text m filter =>
      ∃ after, c.env.jsonEscape = memcpyAndJsonEscape after ∧
        (t.TakesIn c.env text m filter → EscapeRoom t.bankSize
          (if t.fits c.env text m filter then t.currentBuffer.handleLen else 0)
          (c.env.header t.myId m filter) text (c.env.footer t.myId m filter)
          (t.copiedDelim text (c.env.footer t.myId m filter))
          (jsonEscaped after text))
  | _ => True

/-- For a target which escapes, the stores stay inside exactly if there is room
for the escaped text. -/
theorem storesInside_json_iff
    (hjson : t.escapes = true) {env : Formatting} {after : List UInt8}
    (henv : env.jsonEscape = memcpyAndJsonEscape after)
    (header text footer : List UInt8) :
    t.StoresInside env header text footer ↔
      EscapeRoom t.currentBuffer.space t.currentBuffer.handleLen header text
        footer (t.copiedDelim text footer) (jsonEscaped after text) := by
  unfold StoresInside textEnd storedTerminator EscapeRoom
  by_cases hnil : text = []
  · have hcopied : t.copiedText env text = [] := by simp [copiedText, hnil]
    have hescaped : jsonEscaped after text = [] := by
      rw [hnil]
      exact jsonEscaped_nil after
    rw [hcopied, hescaped]
    simp [hnil]
  · have hcopied : t.copiedText env text =
        (jsonEscaped after text).take t.currentBuffer.space := by
      simp only [copiedText, hjson, hnil, ne_eq, not_false_eq_true, and_self,
        if_true]
      rw [henv]
      exact memcpyAndJsonEscape_eq_take _ _ _
    rw [hcopied]
    simp only [hjson, hnil, ne_eq, not_false_eq_true, and_self, if_true,
      escapeTerminator, List.length_take, if_false, true_and]
    by_cases hcut : t.currentBuffer.space ≤ (jsonEscaped after text).length
    · rw [Nat.min_eq_left hcut, if_neg (lt_irrefl _), List.length_nil]
      simp only [← List.length_eq_zero_iff]
      omega
    · rw [Nat.min_eq_right (by omega), if_pos (by omega),
        List.length_singleton]
      simp only [← List.length_eq_zero_iff]
      omega

theorem EscapedRoom.copiesInside
    (hfit : t.BanksFit size d) (hjson : t.escapes = true) {c : TargetCall}
    (hroom : t.EscapedRoom c) : t.CopiesInside c := by
  unfold EscapedRoom at hroom
  unfold CopiesInside
  cases hact : c.act with
  | write seq text m filter =>
      rw [hact] at hroom
      dsimp only at hroom ⊢
      rcases hroom with ⟨after, henv, hroom⟩
      intro hon hsmall
      constructor
      · intro hfits
        have hroom := hroom ⟨hon, hsmall, fun hfull => absurd hfits hfull⟩
        rw [if_pos hfits] at hroom
        rw [storesInside_json_iff hjson henv, hfit.current.space,
          ← hfit.bankSize]
        exact hroom
      · intro hfits hrotated _
        rcases hfit.rotate_empty hrotated with ⟨hlen, havail, hempty⟩
        have hroom := hroom ⟨hon, hsmall, fun _ => ⟨hlen, havail⟩⟩
        rw [if_neg hfits] at hroom
        have hnext := hfit.rotate.current
        have hdelim : ∀ footer, t.rotate.1.copiedDelim text footer =
            t.copiedDelim text footer := by
          intro footer
          unfold copiedDelim
          rw [hnext.delim, hfit.current.delim]
        rw [storesInside_json_iff (t.escapes_rotate.trans hjson) henv, hempty,
          hnext.space, hdelim, ← hfit.bankSize]
        exact hroom
  | _ => trivial

/-- A target which escapes stays inside its banks in every run in which the
messages fit after they have been escaped. -/
theorem json_keeps_inside
    (kind : TargetKind) (bankSize : ℕ) (id : TargetId)
    (delim : Option (List UInt8)) (numBanks : ℕ) (flags : UInt32)
    (hjson : (started kind bankSize id delim numBanks flags).escapes = true)
    {calls : List TargetCall}
    (hmeets : Run.Meets respond (fun t c => t.ReturnsOwn c ∧ t.EscapedRoom c)
      (started kind bankSize id delim numBanks flags) calls) :
    Run.Meets respond KeepsInside
      (started kind bankSize id delim numBanks flags) calls :=
  meets_keepsInside
    (fun _ _ hfit hescapes hroom => hroom.copiesInside hfit hescapes)
    (banksFit_new kind bankSize id delim numBanks flags) hjson hmeets

theorem json_keeps_inside_short :
    Run.Meets respond KeepsInside
      (started .file 200 1 (some [10]) 2 jsonEscapeStrings)
      [writeWith (decorated [] [91] []) [34, 34]] :=
  json_keeps_inside .file 200 1 (some [10]) 2 jsonEscapeStrings (by decide)
    ⟨⟨trivial, [], rfl, fun _ => Or.inl (by decide +kernel)⟩, trivial⟩

/-- Fifty quotes take half of a bank of 200 bytes, and seventy-two more are
thought to fit into the other half. -/
theorem escaped_text_past_bank :
    (started .file 200 1 (some [10]) 2 jsonEscapeStrings).escapes = true ∧
      ¬Run.Meets respond KeepsInside
        (started .file 200 1 (some [10]) 2 jsonEscapeStrings)
        [writeWith (decorated [] [] []) (List.replicate 50 34),
          writeWith (decorated [] [] []) (List.replicate 72 34)] := by
  refine ⟨by decide, ?_⟩
  rintro ⟨-, ⟨-, hwithin⟩, -⟩
  revert hwithin
  decide +kernel

end LogTarget

end GreaseLog
