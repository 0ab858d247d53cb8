import GreaseLog.BoundedFifo
import GreaseLog.FilterTable
import GreaseLog.JsonEscape

/-!
# Log entries in memory

A `singleLog` is a metadata record with a heap buffer.  Entries for the
command queue come from a pool of buffers of fixed size, numbered by `slot`;
entries which are too large for the pool are allocated for the occasion.

`seq` is not in the source.  It is the number of messages put on the command
queue before this one, and it travels with every copy of the text so that
outputs can be traced back to the call they come from.
-/

namespace GreaseLog

/-- `heapBuf`: `len` is `handle.len`, `mem` the bytes written so far from
`handle.base` on. -/
structure HeapBuf where
  len : ℕ
  mem : List UInt8
  used : ℕ
  deriving DecidableEq, Repr

namespace HeapBuf

def malloc (n : ℕ) : HeapBuf where
  len := n
  mem := []
  used := 0

/-- `heapBuf(const char *, int)`, which leaves `used` at zero. -/
def ofBytes (d : List UInt8) : HeapBuf where
  len := d.length
  mem := d
  used := 0

def poke (b : HeapBuf) (s : List UInt8) : HeapBuf :=
  { b with mem := s ++ b.mem.drop s.length }

/-- `memcpy` without an ending: longer texts are cut at `handle.len`. -/
def memcpy (b : HeapBuf) (s : List UInt8) : HeapBuf :=
  if b.len = 0 then b
  else { b.poke (s.take b.len) with used := min s.length b.len }

/-- `memcpy` with an ending for texts which are cut. -/
def memcpyEnding (b : HeapBuf) (s ending : List UInt8) : HeapBuf :=
  if b.len = 0 then b
  else if b.len < s.length then
    { b.poke (s.take (b.len - ending.length) ++ ending) with
      used := b.len - ending.length + ending.length }
  else { b.poke s with used := s.length }

def text (b : HeapBuf) : List UInt8 := b.mem.take b.used

end HeapBuf

/-- The text `"[!! OVERFLOW ENDING]"`. -/
def overflowEnding : List UInt8 :=
  [91, 33, 33, 32, 79, 86, 69, 82, 70, 76, 79, 87, 32, 69, 78, 68, 73, 78, 71,
    93]

structure SingleLog where
  slot : Option ℕ
  logMeta : ExtraLogMeta
  buf : HeapBuf
  seq : ℕ
  deriving DecidableEq, Repr

namespace SingleLog

/-- `singleLog(int)`, for the pool and for `_log`'s overflow entries. -/
def new (slot : Option ℕ) (len : ℕ) : SingleLog where
  slot := slot
  logMeta := ⟨noMetaData, noIgnoreList⟩
  buf := HeapBuf.malloc len
  seq := 0

/-- `singleLog(const char *, int, const logMeta &)`: the ignore list of the
new entry is all zero. -/
def ofText (s : List UInt8) (m : LogMeta) (seq : ℕ) : SingleLog where
  slot := none
  logMeta := ⟨m, noIgnoreList⟩
  buf := HeapBuf.ofBytes s
  seq := seq

/-- `newSingleLogAsJsonEscape`: the escaped text in a buffer of twice the
length, with a zero behind it if there is space. -/
def ofEscaped (s escaped : List UInt8) (m : LogMeta) (seq : ℕ) :
    SingleLog where
  slot := none
  logMeta := ⟨m, noIgnoreList⟩
  buf := {
    len := 2 * s.length
    mem := escaped ++ escapeTerminator (2 * s.length) escaped
    used := escaped.length }
  seq := seq

/-- `clear` keeps the bytes and the ignore list. -/
def clear (l : SingleLog) : SingleLog :=
  { l with
    logMeta := { l.logMeta with m := noMetaData }
    buf := { l.buf with used := 0 } }

/-- Copy the metadata of a message into the entry.  With the extras flag set
the whole `extra_logMeta` around the metadata is copied, so that `following`,
the words behind the metadata in memory, becomes the ignore list. -/
def setMeta (l : SingleLog) (m : LogMeta) (following : IgnoreList) :
    SingleLog :=
  if m.hasIgnores then
    { l with logMeta := ⟨m, following⟩ }
  else
    { l with logMeta := { l.logMeta with m := m } }

end SingleLog

inductive InternalCmdReq where
  | newLog (l : SingleLog)
  | targetRotateBuffer (d : TargetId)
  | writeTargetOverflow (d : TargetId) (l : SingleLog)
  | internalShutdown
  deriving DecidableEq, Repr

def internalQueueSize : ℕ := 200
def v8LogCallbackQueueSize : ℕ := 10
def primaryBufferEntries : ℕ := 100

end GreaseLog
