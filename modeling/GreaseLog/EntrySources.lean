import GreaseLog.SingleLog

/-!
# Where pool entries get their contents

Besides `_log`, two kinds of callers take an entry out of the pool and fill it
in place: the callbacks which read from a redirected file descriptor
(`grease_lib.cc`), and the listener for the kernel ring buffer, which parses
one record at a time into the entry.
-/

namespace GreaseLog

def greaseLevelLog : LevelMask := 0x01
def greaseLevelError : LevelMask := 0x02
def greaseLevelWarn : LevelMask := 0x04
def greaseLevelDebug : LevelMask := 0x08
def greaseLevelInfo : LevelMask := 0x0100

def greaseTagStdout : TagId := 0x01
def greaseTagStderr : TagId := 0x02
def greaseTagKernel : TagId := 0x05

/-! ## Redirected descriptors -/

structure FdRedirectorTicket where
  origin : OriginId
  tag : TagId
  level : LevelMask
  deriving DecidableEq, Repr

/-- The two redirect callbacks differ in their defaults. -/
structure RedirectDefaults where
  tag : TagId
  level : LevelMask
  deriving DecidableEq, Repr

def stdoutDefaults : RedirectDefaults := ⟨greaseTagStdout, greaseLevelLog⟩
def stderrDefaults : RedirectDefaults := ⟨greaseTagStderr, greaseLevelError⟩

/-- `read` put at most `handle.len` bytes into the buffer, and there was at
least one. -/
def FdRedirectorTicket.fill (r : FdRedirectorTicket) (d : RedirectDefaults)
    (data : List UInt8) (entry : SingleLog) : SingleLog :=
  let read := data.take entry.buf.len
  { entry with
    buf := { entry.buf.poke read with used := read.length }
    logMeta := { entry.logMeta with m := { entry.logMeta.m with
      origin := r.origin
      tag := if 0 < r.tag then r.tag else d.tag
      level := if 0 < r.level then r.level else d.level } } }

/-! ## Kernel records -/

inductive KlogParseState where
  | levelBegin
  | inLevel
  | timeStampBegin
  | inTimeStamp
  | bodyBegin
  | inBody
  | bodyEnd
  | contBodyBegin
  | inContBody
  | contBodyEnd
  | invalid
  | endLog
  deriving DecidableEq, Repr

def klogLevelToLevelMap : List LevelMask :=
  [greaseLevelError, greaseLevelError, greaseLevelError, greaseLevelError,
    greaseLevelWarn, greaseLevelWarn, greaseLevelInfo, greaseLevelDebug,
    greaseLevelDebug, greaseLevelDebug, greaseLevelDebug, greaseLevelDebug,
    greaseLevelInfo, greaseLevelDebug, greaseLevelDebug, greaseLevelDebug,
    greaseLevelDebug, greaseLevelDebug, greaseLevelDebug, greaseLevelDebug]

def greaseKlogDefaultLevel : LevelMask := greaseLevelInfo

/-- The local variables of `parse_single_klog_to_singleLog`, with the text
buffer it writes a terminator into.  Positions are offsets in that buffer, and
`cap` is none while it is `NULL`. -/
structure KlogCursor where
  mem : List UInt8
  state : KlogParseState
  look : ℕ
  cap : Option ℕ
  entry : SingleLog

namespace KlogCursor

def byteAt (c : KlogCursor) (i : ℕ) : UInt8 := c.mem.getD i 0

def setLevel (c : KlogCursor) (level : LevelMask) : KlogCursor :=
  { c with entry := { c.entry with
    logMeta := { c.entry.logMeta with
      m := { c.entry.logMeta.m with level := level } } } }

def levelEnd (c : KlogCursor) : KlogCursor :=
  let c := { c with mem := c.mem.set c.look 0 }
  match c.cap with
  | none => { c with state := .invalid }
  | some cap =>
      if c.look = cap + 1 then
        let digit := c.byteAt cap
        if digit = 99 then { c with state := .contBodyBegin }
        else if digit = 100 then
          { c.setLevel greaseKlogDefaultLevel with state := .timeStampBegin }
        else if 48 ≤ digit ∧ digit < 56 then
          { c.setLevel (klogLevelToLevelMap.getD (digit.toNat - 48) 0) with
            state := .timeStampBegin }
        else { c with state := .invalid }
      else { c with state := .invalid }

/-- The `switch` on the state, for the byte under `look`. -/
def switch (c : KlogCursor) : KlogCursor :=
  let byte := c.byteAt c.look
  match c.state with
  | .levelBegin =>
      if byte = 60 then
        { c with state := .inLevel, cap := some (c.look + 1) }
      else { c with state := .invalid }
  | .inLevel => if byte = 62 then c.levelEnd else c
  | .timeStampBegin =>
      { c with state := if byte = 91 then .inTimeStamp else .invalid }
  | .inTimeStamp =>
      if byte = 93 then { c with state := .bodyBegin }
      else if ¬(48 ≤ byte ∧ byte ≤ 57) ∧ byte ≠ 46 ∧ byte ≠ 32 then
        { c with state := .invalid }
      else c
  | .bodyBegin =>
      { c with
        cap := some (c.look + 1)
        state := if byte ≠ 10 then .inBody else .endLog }
  | .inBody => if byte = 10 then { c with state := .endLog } else c
  | _ => c

/-- The `while` loop; the number of bytes left decreases in every round. -/
def scan : ℕ → KlogCursor → KlogCursor × ℕ
  | 0, c => (c, 0)
  | remain + 1, c =>
      if c.state = .invalid ∨ c.state = .endLog then (c, remain + 1)
      else scan remain { c.switch with look := c.look + 1 }

end KlogCursor

structure KlogResult where
  loggable : Bool
  beginState : KlogParseState
  entry : SingleLog
  mem : List UInt8
  remain : ℕ
  moved : ℕ

/-- The bytes from `cap` on go into the entry, cut at the size of its
buffer. -/
def KlogCursor.capture (c : KlogCursor) (cap : ℕ) : SingleLog :=
  let body := (c.mem.drop cap).take (c.look - cap - 1)
  let copied := body.take c.entry.buf.len
  { c.entry with
    buf := { c.entry.buf.poke copied with
      used := min (c.look - cap - 1) c.entry.buf.len } }

/-- `parse_single_klog_to_singleLog`.  A record which ends without a captured
body is one the code would copy from the null pointer; it does not come up
when the parser starts in `LEVEL_BEGIN`. -/
def parseSingleKlogToSingleLog (mem : List UInt8) (start remain : ℕ)
    (beginState : KlogParseState) (entry : SingleLog) : KlogResult :=
  let (c, rest) := KlogCursor.scan remain ⟨mem, beginState, start, none, entry⟩
  if c.state = .endLog then
    let c := { c with entry := { c.entry with
      logMeta := { c.entry.logMeta with
        m := { c.entry.logMeta.m with tag := greaseTagKernel, origin := 0 } } } }
    match c.cap with
    | some cap =>
        if cap < c.look then
          ⟨true, .levelBegin, c.capture cap, c.mem, rest, c.look⟩
        else
          ⟨false, .levelBegin, c.entry, c.mem, rest, c.look⟩
    | none => ⟨false, .levelBegin, c.entry, c.mem, rest, c.look⟩
  else
    ⟨false, c.state, c.entry, c.mem, rest, c.look⟩

end GreaseLog
