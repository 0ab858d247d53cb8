import GreaseLog.Wire

/-!
# The listener of the datagram sink

One pass of `UnixDgramSink::listener_work` over the bytes of a received
datagram.  The kernel has spread them over `nbuffers` buffers of
`rcv_buf_size` bytes each; the loop walks over these buffers with several
cursors and hands every entry it recognises to `logFromRaw`.

The cursors are C integers: `toInt` is the conversion to `int`.
-/

namespace GreaseLog

def toInt (x : ℤ) : ℤ := Int.bmod x (2 ^ 32)

theorem toInt_of_range {x : ℤ} (hlow : -2 ^ 31 ≤ x) (hhigh : x < 2 ^ 31) :
    toInt x = x := by
  unfold toInt Int.bmod
  simp only [Nat.cast_pow, Nat.cast_ofNat]
  split <;> omega

def nbuffers : ℕ := 10

structure Received where
  rcvBufSize : ℕ
  bytes : List UInt8

namespace Received

def recvCnt (d : Received) : ℤ := d.bytes.length

/-- Buffer number `n`, which was zeroed before the call of `recvmsg`. -/
def buffer (d : Received) (n : ℕ) : List UInt8 :=
  let part := (d.bytes.drop (n * d.rcvBufSize)).take d.rcvBufSize
  part ++ List.replicate (d.rcvBufSize - part.length) 0

end Received

inductive SinkState where
  | needPreamble
  | inPreamble
  | inLog
  deriving DecidableEq, Repr

/-- The arguments of a call of `logFromRaw`: the memory from `base` to the end
of its buffer, and the length. -/
structure RawEntry where
  base : List UInt8
  len : UInt32
  deriving DecidableEq, Repr

/-- The variables of the loop.  `outside` notes that the loop touched memory
outside of its buffers, `overflowed` that it gave up. -/
structure SinkCursor where
  state : SinkState
  walk : ℤ
  walkBuf : ℤ
  remain : ℤ
  remainInBuf : ℤ
  iovN : ℕ
  headerTemp : List UInt8
  tempBufferEntry : List UInt8
  tempBufferWalk : ℤ
  entrySize : UInt32
  pings : ℕ
  entries : List RawEntry
  outside : Bool
  overflowed : Bool
  deriving DecidableEq, Repr

namespace SinkCursor

/-- `SD_WALK` with an argument that does not change meanwhile. -/
def sdWalk (c : SinkCursor) (n : ℤ) : SinkCursor :=
  { c with
    walk := toInt (c.walk + n)
    walkBuf := toInt (c.walkBuf + n)
    remain := toInt (c.remain - n)
    remainInBuf := toInt (c.remainInBuf - n) }

/-- `SD_WALK(remain)`: `remain` is zero when it is taken off
`remain_in_buf`. -/
def sdWalkRemain (c : SinkCursor) : SinkCursor :=
  { c with
    walk := toInt (c.walk + c.remain)
    walkBuf := toInt (c.walkBuf + c.remain)
    remain := 0 }

def memory (c : SinkCursor) (d : Received) : List UInt8 :=
  (d.buffer c.iovN).drop c.walkBuf.toNat

/-- Note an access to `n` bytes behind `SD_WAL_BUF_P`. -/
def touch (c : SinkCursor) (d : Received) (n : ℤ) : SinkCursor :=
  { c with outside := c.outside ||
    !decide (0 ≤ c.walkBuf ∧ 0 ≤ n ∧
      c.walkBuf + n ≤ (d.buffer c.iovN).length) }

def isWord (c : SinkCursor) (d : Received) (word : UInt32) : Bool :=
  (c.memory d).take 4 == LittleEndian.store 4 word.toNat

def getSizeFromPreamble (bytes : List UInt8) : UInt32 :=
  UInt32.ofNat (LittleEndian.load ((bytes.drop 4).take 4))

def needPreamble (c : SinkCursor) (d : Received) : SinkCursor :=
  -- `int` against `size_t` is an unsigned comparison
  if c.remain < 0 ∨ greaseClientPingSize ≤ c.remain then
    let c := c.touch d 4
    if c.isWord d sinkLogPing then
      { c.sdWalk greaseClientHeaderSize with pings := c.pings + 1 }
    else if c.isWord d sinkLogPreamble then
      let c := c.touch d 8
      { c with
        state := .inLog
        entrySize := getSizeFromPreamble (c.memory d) }.sdWalk
          greaseClientHeaderSize
    else
      { c with state := .needPreamble }.sdWalk greaseClientHeaderSize
  else
    let c := c.touch d c.remain
    { c with
      headerTemp := (c.memory d).take c.remain.toNat ++
        c.headerTemp.drop c.remain.toNat
      state := .inPreamble }.sdWalkRemain

/-- `header_temp_walk` is never increased, so that the test behind the copy
fails. -/
def inPreamble (c : SinkCursor) (d : Received) : SinkCursor :=
  let c := c.touch d greaseClientHeaderSize
  { c with
    headerTemp := (c.memory d).take greaseClientHeaderSize }.sdWalk
      greaseClientHeaderSize

/-- Copy into the buffer for entries that lie in more than one buffer. -/
def stage (c : SinkCursor) (d : Received) (n : ℤ) : SinkCursor :=
  let offset := c.tempBufferWalk.toNat
  let c := c.touch d n
  { c with
    tempBufferEntry := c.tempBufferEntry.take offset ++
      (c.memory d).take n.toNat ++ c.tempBufferEntry.drop (offset + n.toNat)
    outside := c.outside ||
      !decide (0 ≤ c.tempBufferWalk ∧ 0 ≤ n ∧
        c.tempBufferWalk + n ≤ greaseMaxMessageSize) }

def inLog (c : SinkCursor) (d : Received) : SinkCursor :=
  if c.tempBufferWalk = 0 then
    -- `int` against `uint32_t` is an unsigned comparison
    if (c.entrySize.toNat : ℤ) ≤ c.remainInBuf % 2 ^ 32 then
      { c.touch d c.entrySize.toNat with
        entries := c.entries ++ [RawEntry.mk (c.memory d) c.entrySize]
        state := .needPreamble }.sdWalk c.entrySize.toNat
    else
      { c.stage d c.remainInBuf with
        tempBufferWalk := c.remainInBuf }.sdWalk c.remainInBuf
  else
    let need := toInt (c.entrySize.toNat - c.tempBufferWalk)
    let staged := c.stage d need
    if need ≤ c.remainInBuf then
      { staged with
        entries := c.entries ++ [RawEntry.mk staged.tempBufferEntry c.entrySize]
        state := .needPreamble
        tempBufferWalk := 0 }.sdWalk need
    else
      { staged with
        tempBufferWalk := toInt (c.tempBufferWalk + need) }.sdWalk need

/-- Move on to the next buffer when the walk has reached `recv_cnt`. -/
def nextBuffer (c : SinkCursor) (d : Received) : SinkCursor :=
  if d.recvCnt ≤ c.walkBuf then
    let c := { c with walkBuf := 0, iovN := c.iovN + 1 }
    if nbuffers ≤ c.iovN then { c with overflowed := true }
    else { c with remainInBuf :=
      if d.rcvBufSize < c.remain then d.rcvBufSize else c.remain }
  else c

def round (c : SinkCursor) (d : Received) : SinkCursor :=
  let c := c.nextBuffer d
  if c.overflowed then c
  else
    match c.state with
    | .needPreamble => c.needPreamble d
    | .inPreamble => c.inPreamble d
    | .inLog => c.inLog d

/-- `while(walk < recv_cnt)`, for at most this many rounds. -/
def loop (d : Received) : ℕ → SinkCursor → SinkCursor
  | 0, c => c
  | rounds + 1, c =>
      if c.walk < d.recvCnt ∧ c.overflowed = false then
        loop d rounds (c.round d)
      else c

end SinkCursor

/-- The variables when the loop starts.  The buffers for headers and split
entries hold what earlier datagrams left in them. -/
def Received.start (d : Received) (headerTemp tempBufferEntry : List UInt8)
    (entrySize : UInt32) : SinkCursor where
  state := .needPreamble
  walk := 0
  walkBuf := 0
  remain := d.recvCnt
  remainInBuf :=
    if d.rcvBufSize < d.recvCnt then d.rcvBufSize else d.recvCnt
  iovN := 0
  headerTemp := headerTemp
  tempBufferEntry := tempBufferEntry
  tempBufferWalk := 0
  entrySize := entrySize
  pings := 0
  entries := []
  outside := false
  overflowed := false

/-- The call of `logP` that `logFromRaw` makes, if it makes one. -/
def RawEntry.logFromRaw (r : RawEntry) : Option (LogMeta × List UInt8) :=
  let len := toInt r.len.toNat
  -- a negative `int` is large as a `size_t`
  if len < 0 ∨ (greaseRawbufMinSize : ℤ) ≤ len then
    let l := toInt (len - sizeofLogMeta)
    if 0 < l then
      some (LogMeta.ofBytes (r.base.take sizeofLogMeta),
        (r.base.drop sizeofLogMeta).take l.toNat)
    else none
  else none

end GreaseLog
