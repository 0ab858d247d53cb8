import GreaseLog.SingleLog

/-!
# Log targets

A target collects messages in a bank and hands full banks to its output.  It
owns a fixed set of banks (`logBuf`), which move between the current buffer,
`availBuffers`, `writeOutBuffers`, the operating system, the queue of caller
callbacks and the user of the library.

The operations below are those of `logTarget` and its three subclasses.  They
run on the target and on the part of the logger that targets reach through
`owner`.  What a format string yields is left open: `Formatting` stands for
the results of `putsHeader`, `putsFooter` and `memcpy_and_json_escape` at the
moment of a call.

Fields which are not in the source record what happened: `handed` lists what
was given to the output, `lost` what a failed rotation discarded, `stuck` says
that a blocking `add` found its queue full, and the owner keeps the deliveries
and whether a message was refused.
-/

namespace GreaseLog

/-! ## Banks -/

/-- Bytes copied in by one call, with the message they belong to. -/
structure Piece where
  seq : ℕ
  bytes : List UInt8
  deriving DecidableEq, Repr

def bytesOf (pieces : List Piece) : List UInt8 :=
  pieces.flatMap Piece.bytes

def takeBytes : ℕ → List Piece → List Piece
  | _, [] => []
  | n, piece :: rest =>
      if n = 0 then []
      else { piece with bytes := piece.bytes.take n } ::
        takeBytes (n - piece.bytes.length) rest

/-- `logBuf`; `data` is what lies between `handle.base` and `handle.len`. -/
structure LogBuf where
  id : ℕ
  space : ℕ
  delim : Option (List UInt8)
  data : List Piece
  deriving DecidableEq, Repr

namespace LogBuf

def new (space id : ℕ) (delim : Option (List UInt8)) : LogBuf where
  id := id
  space := space
  delim := delim
  data := []

def handleLen (b : LogBuf) : ℕ := (bytesOf b.data).length

def clear (b : LogBuf) : LogBuf := { b with data := [] }

def isEmpty (b : LogBuf) : Bool := b.handleLen == 0

def remain (b : LogBuf) : ℕ :=
  b.space - b.handleLen - (b.delim.getD []).length

def delimPiece (b : LogBuf) (seq : ℕ) (useDelim : Bool) : List Piece :=
  match b.delim with
  | some d => if useDelim then [⟨seq, d⟩] else []
  | none => []

def copyIn (b : LogBuf) (seq : ℕ) (s : List UInt8) (useDelim : Bool) :
    LogBuf :=
  if s = [] then b
  else if b.space < b.handleLen then
    { b with data := takeBytes b.space b.data }
  else
    { b with data := b.data ++ ⟨seq, s⟩ :: b.delimPiece seq useDelim }

/-- `copyInJsonEscape` lets the escaped text take the whole of `space`, however
full the bank is. -/
def copyInJsonEscape (b : LogBuf) (jsonEscape : ℕ → List UInt8 → List UInt8)
    (seq : ℕ) (s : List UInt8) (useDelim : Bool) : LogBuf :=
  if s = [] then b
  else
    { b with data := b.data ++
      ⟨seq, jsonEscape b.space s⟩ :: b.delimPiece seq useDelim }

end LogBuf

/-! ## Targets and their owner -/

inductive TargetKind where
  | tty
  | file
  | callback
  deriving DecidableEq, Repr

/-- What a target gave to its output: the contents of a bank through `flush`
or `flushSync`, or the buffers of one message through `writeAsyncOverflow`. -/
inductive Handed where
  | bank (data : List Piece)
  | overflow (bufs : List SingleLog)
  deriving DecidableEq, Repr

inductive WriteCBData where
  | bank (t : TargetId) (b : LogBuf)
  | overflow (t : TargetId) (bufs : List SingleLog)
  deriving DecidableEq, Repr

/-- A `GreaseLibBuf` in the hands of the user.  A bank is found again through
`_id`, which is an `int`; overflow copies carry `-1`. -/
inductive LibBuf where
  | bank (id : Int32) (shadow : LogBuf)
  | overflow (bufs : List SingleLog)
  deriving DecidableEq

structure Delivery where
  filter : Filter
  target : TargetId
  seq : ℕ
  deriving DecidableEq, Repr

structure Owner where
  internalCmdQueue : BoundedFifo InternalCmdReq
  callerLogCallbacks : BoundedFifo WriteCBData
  needGreaseThread : ℕ
  userBufs : List LibBuf
  unrefFailed : Bool
  deadlocked : Bool
  delivered : List Delivery
  refused : Bool
  deriving DecidableEq

namespace Owner

/-- The count is a `uint32_t`. -/
def refGreaseInGrease (o : Owner) : Owner :=
  { o with needGreaseThread := (o.needGreaseThread + 1) % 2 ^ 32 }

/-- The assertion in front of the decrement fails at zero. -/
def unrefGreaseInGrease (o : Owner) : Owner :=
  if o.needGreaseThread = 0 then { o with unrefFailed := true }
  else { o with needGreaseThread := o.needGreaseThread - 1 }

def refuse (o : Owner) : Owner := { o with refused := true }

def deliver (o : Owner) (d : Delivery) : Owner :=
  { o with delivered := o.delivered ++ [d] }

end Owner

structure LogTarget where
  kind : TargetKind
  myId : TargetId
  bankSize : ℕ
  flags : UInt32
  disabled : Bool
  logCallbackSet : Bool
  delim : Option (List UInt8)
  availBuffers : BoundedFifo LogBuf
  writeOutBuffers : BoundedFifo LogBuf
  currentBuffer : LogBuf
  inFlight : List (LogBuf × Bool)
  overflowInFlight : List (List SingleLog × Bool)
  handed : List Handed
  lost : List Piece
  stuck : Bool
  deriving DecidableEq

structure Formatting where
  header : TargetId → LogMeta → Filter → List UInt8
  footer : TargetId → LogMeta → Filter → List UInt8
  jsonEscape : ℕ → List UInt8 → List UInt8

namespace LogTarget

def jsonEscapeStrings : UInt32 := 1

def escapes (t : LogTarget) : Bool := (t.flags &&& jsonEscapeStrings) != 0

/-- The constructor: all banks but the first go to `availBuffers`. -/
def new (kind : TargetKind) (bankSize : ℕ) (id : TargetId)
    (delim : Option (List UInt8)) (numBanks : ℕ) : LogTarget where
  kind := kind
  myId := id
  bankSize := bankSize
  flags := 0
  disabled := false
  logCallbackSet := false
  delim := delim
  availBuffers := {
    capacity := numBanks
    items := (List.range' 1 (numBanks - 1)).map
      fun n => LogBuf.new bankSize n delim
    fits := by simp }
  writeOutBuffers := BoundedFifo.empty (numBanks - 1)
  currentBuffer := LogBuf.new bankSize 0 delim
  inFlight := []
  overflowInFlight := []
  handed := []
  lost := []
  stuck := false

def disableWrites (t : LogTarget) (v : Bool) : LogTarget :=
  { t with disabled := v }

def setFlag (t : LogTarget) (flag : UInt32) : LogTarget :=
  { t with flags := t.flags ||| flag }

def setCallback (t : LogTarget) : LogTarget :=
  { t with logCallbackSet := true }

/-- The blocking `availBuffers.add` of a cleared bank. -/
def addAvail (t : LogTarget) (b : LogBuf) : LogTarget :=
  match t.availBuffers.addIfRoom b.clear with
  | some avail => { t with availBuffers := avail }
  | none => { t with stuck := true }

/-- `finalizeV8Callback`, which does not block. -/
def finalizeV8Callback (t : LogTarget) (b : LogBuf) : LogTarget :=
  match t.availBuffers.addIfRoom b.clear with
  | some avail => { t with availBuffers := avail }
  | none => t

/-- `returnBuffer(logBuf *, sync, nocallback)`. -/
def returnBuffer (t : LogTarget) (o : Owner) (b : LogBuf)
    (sync nocallback : Bool) : LogTarget × Owner :=
  let o := if b.isEmpty then o else o.unrefGreaseInGrease
  if !nocallback && t.logCallbackSet && !b.isEmpty then
    if sync then
      (t, { o with userBufs :=
        o.userBufs ++ [.bank t.myId.toInt32 b] })
    else
      match o.callerLogCallbacks.addIfRoom (.bank t.myId b) with
      | some callbacks => (t, { o with callerLogCallbacks := callbacks })
      | none => (t.addAvail b, o)
  else
    (t.addAvail b, o)

/-- `returnBuffer(overflowWriteOut *, false, nocallback)`. -/
def returnOverflow (t : LogTarget) (o : Owner) (bufs : List SingleLog)
    (nocallback : Bool) : Owner :=
  let o := o.unrefGreaseInGrease
  if !nocallback && t.logCallbackSet then
    match o.callerLogCallbacks.addIfRoom (.overflow t.myId bufs) with
    | some callbacks => { o with callerLogCallbacks := callbacks }
    | none => o
  else
    o

def rotate (t : LogTarget) : LogTarget × Bool :=
  if 0 < t.currentBuffer.handleLen then
    match t.availBuffers.remove with
    | some (next, avail) =>
        match t.writeOutBuffers.addIfRoom t.currentBuffer with
        | some writeOut =>
            ({ t with
              availBuffers := avail
              writeOutBuffers := writeOut
              currentBuffer := next }, true)
        | none =>
            ({ t with
              availBuffers := (avail.addIfRoom next).getD avail
              currentBuffer := t.currentBuffer.clear
              lost := t.lost ++ t.currentBuffer.data }, false)
    | none =>
        ({ t with
          currentBuffer := t.currentBuffer.clear
          lost := t.lost ++ t.currentBuffer.data }, false)
  else
    (t, false)

/-- Header, text and footer go into the current bank; the delimiter follows
the footer, or the text if there is no footer. -/
def copyMessage (t : LogTarget) (env : Formatting) (seq : ℕ)
    (header text footer : List UInt8) : LogTarget :=
  let b := t.currentBuffer.copyIn seq header false
  let b :=
    if t.escapes then
      b.copyInJsonEscape env.jsonEscape seq text footer.isEmpty
    else
      b.copyIn seq text footer.isEmpty
  let b := if footer.isEmpty then b else b.copyIn seq footer true
  { t with currentBuffer := b }

/-- The entry `write` queues for a message which does not fit a bank. -/
def overflowEntry (t : LogTarget) (env : Formatting) (seq : ℕ)
    (text : List UInt8) (m : LogMeta) : SingleLog :=
  if t.escapes then
    SingleLog.ofEscaped text (env.jsonEscape (2 * text.length) text) m seq
  else
    SingleLog.ofText text m seq

def write (t : LogTarget) (o : Owner) (env : Formatting) (seq : ℕ)
    (text : List UInt8) (m : LogMeta) (filter : Filter) :
    LogTarget × Owner :=
  if t.disabled then
    (t, o.refuse)
  else if t.bankSize < text.length + greaseMaxPrefixHeader then
    match o.internalCmdQueue.addIfRoom
        (.writeTargetOverflow t.myId (t.overflowEntry env seq text m)) with
    | some queue => (t, { o with internalCmdQueue := queue })
    | none => (t, o.refuse)
  else
    let header := env.header t.myId m filter
    let footer := env.footer t.myId m filter
    let delivery : Delivery := ⟨filter, t.myId, seq⟩
    if text.length + header.length + footer.length ≤
        t.currentBuffer.remain then
      let o := if t.currentBuffer.isEmpty then o.refGreaseInGrease else o
      (t.copyMessage env seq header text footer, o.deliver delivery)
    else
      let rotated := t.rotate
      if rotated.2 then
        match o.internalCmdQueue.addIfRoom (.targetRotateBuffer t.myId) with
        | some queue =>
            (rotated.1.copyMessage env seq header text footer,
              ({ o with internalCmdQueue := queue }).refGreaseInGrease.deliver
                delivery)
        | none => (rotated.1, o.refuse)
      else
        (rotated.1, o.refuse)

/-! ## Output -/

/-- `flush`: a tty or a file submits a write which completes later, a callback
target returns the bank at once. -/
def flush (t : LogTarget) (o : Owner) (b : LogBuf) (nocallbacks : Bool) :
    LogTarget × Owner :=
  let t := { t with handed := t.handed ++ [Handed.bank b.data] }
  match t.kind with
  | .callback => t.returnBuffer o b false nocallbacks
  | _ => ({ t with inFlight := t.inFlight ++ [(b, nocallbacks)] }, o)

/-- `flushSync`.  The tty version calls `returnBuffer` with the mutex of the
bank locked, and `returnBuffer` locks it again. -/
def flushSync (t : LogTarget) (o : Owner) (b : LogBuf) (nocallbacks : Bool) :
    LogTarget × Owner :=
  match t.kind with
  | .tty => (t, { o with deadlocked := true })
  | _ =>
      { t with handed := t.handed ++ [Handed.bank b.data] }.returnBuffer o b true
        nocallbacks

/-- The loop `while(writeOutBuffers.remove(b))` of `flushAll`, which ends after
as many rounds as there are banks to write. -/
def flushLoop
    (out : LogTarget → Owner → LogBuf → LogTarget × Owner) :
    ℕ → LogTarget → Owner → LogTarget × Owner
  | 0, t, o => (t, o)
  | rounds + 1, t, o =>
      match t.writeOutBuffers.remove with
      | none => (t, o)
      | some (b, writeOut) =>
          let next := out { t with writeOutBuffers := writeOut } o b
          flushLoop out rounds next.1 next.2

def flushAll (t : LogTarget) (o : Owner) (rotate nocallbacks : Bool) :
    LogTarget × Owner :=
  let t := if rotate then t.rotate.1 else t
  flushLoop (fun t o b => t.flush o b nocallbacks)
    t.writeOutBuffers.items.length t o

def flushAllSync (t : LogTarget) (o : Owner) (rotate nocallbacks : Bool) :
    LogTarget × Owner :=
  let t := if rotate then t.rotate.1 else t
  flushLoop (fun t o b => t.flushSync o b nocallbacks)
    t.writeOutBuffers.items.length t o

def writeAsyncOverflow (t : LogTarget) (o : Owner) (bufs : List SingleLog)
    (nocallbacks : Bool) : LogTarget × Owner :=
  let t := { t with handed := t.handed ++ [Handed.overflow bufs] }
  match t.kind with
  | .tty =>
      ({ t with
        overflowInFlight := t.overflowInFlight ++ [(bufs, false)] }, o)
  | .file => (t, t.returnOverflow o bufs nocallbacks)
  | .callback =>
      if !nocallbacks && t.logCallbackSet then
        match o.callerLogCallbacks.addIfRoom (.overflow t.myId bufs) with
        | some callbacks => (t, { o with callerLogCallbacks := callbacks })
        | none => (t, o)
      else
        (t, o)

def overflowBufs (t : LogTarget) (env : Formatting) (l : SingleLog)
    (filter : Filter) : List SingleLog :=
  let m := l.logMeta.m
  let header := env.header t.myId m filter
  let footer := env.footer t.myId m filter
  let delim := t.delim.getD []
  let part (s : List UInt8) : List SingleLog :=
    if s = [] then [] else [SingleLog.ofText s noMetaData l.seq]
  part header ++ [l] ++ part footer ++ part delim

def writeOverflow (t : LogTarget) (o : Owner) (env : Formatting)
    (l : SingleLog) (filter : Filter) : LogTarget × Owner :=
  if t.disabled then
    (t, o.refuse)
  else
    t.writeAsyncOverflow
      (o.refGreaseInGrease.deliver ⟨filter, t.myId, l.seq⟩)
      (t.overflowBufs env l filter) false

/-! ## Completions -/

/-- `write_cb`: the submitted write with this position in `inFlight` is
done. -/
def completeWrite (t : LogTarget) (o : Owner) (i : ℕ) : LogTarget × Owner :=
  match t.inFlight[i]? with
  | none => (t, o)
  | some (b, nocallback) =>
      { t with inFlight := t.inFlight.eraseIdx i }.returnBuffer o b false
        nocallback

def completeOverflow (t : LogTarget) (o : Owner) (i : ℕ) :
    LogTarget × Owner :=
  match t.overflowInFlight[i]? with
  | none => (t, o)
  | some (bufs, nocallback) =>
      let t := { t with overflowInFlight := t.overflowInFlight.eraseIdx i }
      (t, t.returnOverflow o bufs nocallback)

end LogTarget

end GreaseLog
