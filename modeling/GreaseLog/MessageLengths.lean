import GreaseLog.EntrySizes
import GreaseLog.Intake

/-!
# The length of a message

The caller of `grease_logLocal` gives the length as an unsigned `RawLogLen`.
`log` and `_log` take it as an `int`, and `heapBuf::memcpy` as a `size_t`.
`Logger.log` has the text alone; here its length goes through these
conversions, as in the source.
-/

namespace GreaseLog

abbrev RawLogLen := UInt32

def greaseOk : ℤ := 0
def greaseOverflow : ℤ := 4

/-- The conversion of an `int` to `size_t`. -/
def toSize (len : Int32) : ℕ := (len.toInt % 2 ^ 64).toNat

namespace HeapBuf

/-- `memcpy` of `l` bytes of the text. -/
def memcpySize (b : HeapBuf) (s : List UInt8) (l : ℕ) : HeapBuf :=
  if b.len = 0 then b
  else { b.poke (s.take (min l b.len)) with used := min l b.len }

def memcpyEndingSize (b : HeapBuf) (s ending : List UInt8) (l : ℕ) :
    HeapBuf :=
  if b.len = 0 then b
  else if b.len < l then
    { b.poke (s.take (b.len - ending.length) ++ ending) with
      used := b.len - ending.length + ending.length }
  else { b.poke (s.take l) with used := l }

theorem memcpySize_length (b : HeapBuf) (s : List UInt8) :
    b.memcpySize s s.length = b.memcpy s := by
  have htake : s.take (min s.length b.len) = s.take b.len := by
    rw [Nat.min_comm, ← List.take_eq_take_min]
  unfold memcpySize memcpy
  rw [htake]

theorem memcpyEndingSize_length (b : HeapBuf) (s ending : List UInt8) :
    b.memcpyEndingSize s ending s.length = b.memcpyEnding s ending := by
  unfold memcpyEndingSize memcpyEnding
  rw [List.take_length]

end HeapBuf

namespace Logger

/-- `_log` for a length that has become an `int`. -/
def logEntryInt (s : Logger) (m : LogMeta) (following : IgnoreList)
    (text : List UInt8) (len : Int32) : Logger :=
  if (s.bufferSize : ℤ) < len.toInt then
    let l := SingleLog.new none (min (toSize len) maxLogMessageSize)
    let l := { l with
      buf := l.buf.memcpyEndingSize text overflowEnding (toSize len) }
    (s.enqueue (.writeTargetOverflow 0) (l.setMeta m following)).getD s
  else
    match s.grabInLogBuffer with
    | none => s
    | some (l, s) =>
        let l := { l with
          buf := l.buf.memcpySize text (toSize len) }.setMeta m following
        (s.enqueue .newLog l).getD (s.putBack l)

/-- `log`, with the value it returns. -/
def logInt (s : Logger) (m : LogMeta) (following : IgnoreList)
    (text : List UInt8) (len : Int32) : Logger × ℤ :=
  if (greaseMaxMessageSize : ℤ) < len.toInt then (s, greaseOverflow)
  else
    let sifted := s.filters.sift s.opts m
    if sifted.1 then (s.logEntryInt sifted.2 following text len, greaseOk)
    else (s, greaseOk)

/-- `grease_logLocal`.  The length becomes an `int` in the call of `log`. -/
def greaseLogLocal (s : Logger) (m : LogMeta) (following : IgnoreList)
    (text : List UInt8) (len : RawLogLen) : Logger × ℤ :=
  s.logInt m following text len.toInt32

theorem logInt_refuses_iff
    (s : Logger) (m : LogMeta) (following : IgnoreList) (text : List UInt8)
    (len : Int32) :
    (s.logInt m following text len).2 = greaseOverflow ↔
      (greaseMaxMessageSize : ℤ) < len.toInt := by
  unfold logInt
  split
  · rename_i hlong
    simp [hlong]
  · rename_i hshort
    dsimp only
    split <;> simp [hshort, greaseOk, greaseOverflow]

/-! ## Lengths that survive -/

theorem toInt_toInt32 {len : RawLogLen} (hlow : len.toNat < 2 ^ 31) :
    len.toInt32.toInt = len.toNat :=
  BitVec.toInt_eq_toNat_of_lt (by
    have hbits : len.toInt32.toBitVec.toNat = len.toNat := rfl
    omega)

theorem toInt_toInt32_neg {len : RawLogLen} (hhigh : 2 ^ 31 ≤ len.toNat) :
    len.toInt32.toInt < 0 := by
  have hbits : len.toInt32.toBitVec.toNat = len.toNat := rfl
  have hlt := len.toNat_lt
  have hint : len.toInt32.toInt = len.toInt32.toBitVec.toInt := rfl
  rw [hint, BitVec.toInt_eq_toNat_cond, if_neg (by omega), hbits]
  omega

theorem toSize_toInt32 {len : RawLogLen} (hlow : len.toNat < 2 ^ 31) :
    toSize len.toInt32 = len.toNat := by
  unfold toSize
  rw [toInt_toInt32 hlow]
  omega

/-- Below `2 ^ 31` the conversions change nothing. -/
theorem greaseLogLocal_eq_log
    (s : Logger) (m : LogMeta) (following : IgnoreList) {text : List UInt8}
    {len : RawLogLen} (hlen : text.length = len.toNat)
    (hlow : len.toNat < 2 ^ 31) :
    s.greaseLogLocal m following text len =
      (s.log m following text,
        if greaseMaxMessageSize < text.length then greaseOverflow
        else greaseOk) := by
  have hint := toInt_toInt32 hlow
  have hsize : toSize len.toInt32 = text.length := by
    rw [toSize_toInt32 hlow, hlen]
  have hentry : s.logEntryInt (s.filters.sift s.opts m).2 following text
      len.toInt32 =
        s.logEntry (s.filters.sift s.opts m).2 following text := by
    unfold logEntryInt logEntry
    rw [hint, ← hlen, hsize]
    by_cases hlarge : s.bufferSize < text.length
    · rw [if_pos (by exact_mod_cast hlarge), if_pos hlarge]
      dsimp only
      rw [HeapBuf.memcpyEndingSize_length]
      exact rfl
    · rw [if_neg (by exact_mod_cast hlarge), if_neg hlarge]
      simp only [HeapBuf.memcpySize_length]
      exact rfl
  unfold greaseLogLocal logInt log
  rw [hint, ← hlen]
  simp only [Nat.cast_lt, hentry]
  split
  · rfl
  · split <;> rfl

/-! ## What the caller may expect -/

/-- There is a place for a message of this length: an entry of the pool, if it
is to go there, and room on the command queue.  The entries are as the
constructor of the logger has made them. -/
structure HasBuffers (s : Logger) (len : ℕ) : Prop where
  positive : 0 < s.bufferSize
  sizes : ∀ l ∈ s.masterBufferAvail.items, l.buf.len = s.bufferSize
  pool : len ≤ s.bufferSize → s.masterBufferAvail.items ≠ []
  queue : s.owner.internalCmdQueue.hasRoom

/-- The sizes are right wherever a run of the logger can be. -/
theorem hasBuffers_of_run
    {bufferSize : ℕ} (hpos : 0 < bufferSize) {acts : List Act} {s : Logger}
    (hs : Run.final step (Logger.new bufferSize) acts = s) {len : ℕ}
    (hpool : len ≤ bufferSize → s.masterBufferAvail.items ≠ [])
    (hqueue : s.owner.internalCmdQueue.hasRoom) : s.HasBuffers len := by
  have hsized := sized_run bufferSize acts
  rw [hs] at hsized
  have hsize := hsized.bufferSize
  refine ⟨by rw [hsize]; exact hpos, ?_, ?_, hqueue⟩
  · rw [hsize]
    exact hsized.avail
  · rw [hsize]
    exact hpool

theorem hasBuffers_new {bufferSize : ℕ} (hpos : 0 < bufferSize) (len : ℕ) :
    (Logger.new bufferSize).HasBuffers len := by
  apply hasBuffers_of_run hpos (Run.final_nil _)
  · intro _ hempty
    simp [Logger.new, primaryBufferEntries] at hempty
  · simp [Logger.new, BoundedFifo.hasRoom, BoundedFifo.empty,
      internalQueueSize]

/-- A message is refused exactly when it is too long.  Otherwise, if it passes
the filters and there are buffers, it goes on the queue as it is. -/
def KeepsLength (s : Logger) (m : LogMeta) (following : IgnoreList)
    (text : List UInt8) (len : RawLogLen) : Prop :=
  ((s.greaseLogLocal m following text len).2 = greaseOverflow ↔
      greaseMaxMessageSize < len.toNat) ∧
    (len.toNat ≤ greaseMaxMessageSize →
      (s.filters.sift s.opts m).1 = true → s.HasBuffers len.toNat →
        ∃ c l,
          (s.greaseLogLocal m following text
              len).1.owner.internalCmdQueue.items =
            s.owner.internalCmdQueue.items ++ [c] ∧
          c.message? = some l ∧ l.buf.used = len.toNat ∧ l.buf.text = text)

theorem greaseLogLocal_refuses_iff
    (s : Logger) (m : LogMeta) (following : IgnoreList) (text : List UInt8)
    {len : RawLogLen} (hlow : len.toNat < 2 ^ 31) :
    (s.greaseLogLocal m following text len).2 = greaseOverflow ↔
      greaseMaxMessageSize < len.toNat := by
  unfold greaseLogLocal
  rw [logInt_refuses_iff, toInt_toInt32 hlow, Nat.cast_lt]

theorem text_largeMessage
    (m : LogMeta) (following : IgnoreList) {text : List UInt8}
    (hmax : text.length ≤ greaseMaxMessageSize) (hpos : 0 < text.length) :
    (largeMessage m following text).buf.used = text.length ∧
      (largeMessage m following text).buf.text = text := by
  have hmin : min text.length maxLogMessageSize = text.length := by
    unfold greaseMaxMessageSize at hmax
    unfold maxLogMessageSize
    omega
  have hne : text.length ≠ 0 := by omega
  unfold largeMessage
  simp only [SingleLog.setMeta_buf, hmin]
  unfold HeapBuf.memcpyEnding HeapBuf.text
  simp [SingleLog.new, HeapBuf.malloc, HeapBuf.poke, hne]

theorem queued_of_low
    {s : Logger} {m : LogMeta} (following : IgnoreList) {text : List UInt8}
    (hmax : text.length ≤ greaseMaxMessageSize)
    (haccept : (s.filters.sift s.opts m).1 = true)
    (hbuffers : s.HasBuffers text.length) :
    ∃ c l, (s.log m following text).owner.internalCmdQueue.items =
        s.owner.internalCmdQueue.items ++ [c] ∧
      c.message? = some l ∧ l.buf.used = text.length ∧ l.buf.text = text := by
  have hpos := hbuffers.positive
  rcases Nat.lt_or_ge s.bufferSize text.length with hlarge | hfits
  · obtain ⟨queue, hitems, -, hlog⟩ :=
      log_large following haccept hmax hlarge hbuffers.queue
    obtain ⟨hused, htext⟩ := text_largeMessage
      (s.filters.sift s.opts m).2 following hmax (by omega)
    rw [hlog]
    exact ⟨_, _, hitems, rfl, hused, htext⟩
  · cases hremove : s.masterBufferAvail.remove with
    | none =>
        exact absurd (BoundedFifo.remove_eq_none_iff.mp hremove)
          (hbuffers.pool hfits)
    | some taken =>
        obtain ⟨l, avail⟩ := taken
        have hlen : l.buf.len = s.bufferSize := by
          apply hbuffers.sizes l
          rw [(BoundedFifo.remove_eq_some hremove).1]
          simp
        obtain ⟨queue, hitems, -, hlog⟩ :=
          log_fits following haccept hmax hfits hremove hbuffers.queue
        rw [hlog]
        refine ⟨_, _, hitems, rfl, ?_, ?_⟩
        · have hne : l.buf.len ≠ 0 := by omega
          simp only [fillMessage, SingleLog.setMeta_buf]
          rw [HeapBuf.memcpy, if_neg hne]
          exact Nat.min_eq_left (by omega)
        · simp only [fillMessage, SingleLog.setMeta_buf]
          exact HeapBuf.text_memcpy (by omega) (by omega)

/-- From `2 ^ 31` on the length is negative as an `int`, and the message is not
refused. -/
theorem not_keepsLength
    (s : Logger) (m : LogMeta) (following : IgnoreList) (text : List UInt8)
    {len : RawLogLen} (hhigh : 2 ^ 31 ≤ len.toNat) :
    ¬s.KeepsLength m following text len := by
  intro hkeeps
  have hlong : greaseMaxMessageSize < len.toNat := by
    unfold greaseMaxMessageSize
    omega
  have hrefused := hkeeps.1.mpr hlong
  have hneg := toInt_toInt32_neg hhigh
  unfold greaseLogLocal at hrefused
  rw [logInt_refuses_iff] at hrefused
  omega

/-- The length of a message is kept exactly when it is a positive `int`. -/
theorem keepsLength_iff
    (s : Logger) (m : LogMeta) (following : IgnoreList) {text : List UInt8}
    {len : RawLogLen} (hlen : text.length = len.toNat) :
    s.KeepsLength m following text len ↔ len.toNat < 2 ^ 31 := by
  constructor
  · intro hkeeps
    by_contra hhigh
    exact not_keepsLength s m following text (not_lt.mp hhigh) hkeeps
  · intro hlow
    refine ⟨greaseLogLocal_refuses_iff s m following text hlow, ?_⟩
    intro hmax haccept hbuffers
    rw [greaseLogLocal_eq_log s m following hlen hlow, ← hlen]
    rw [← hlen] at hmax hbuffers
    exact queued_of_low following hmax haccept hbuffers

theorem keepsLength_two :
    (Logger.new 2000).HasBuffers 2 ∧
      (Logger.new 2000).KeepsLength (LogMeta.declare 1 1 1) noIgnoreList
        [104, 105] 2 :=
  ⟨hasBuffers_new (by decide) 2,
    (keepsLength_iff (Logger.new 2000) (LogMeta.declare 1 1 1) noIgnoreList
      rfl).mpr (by decide)⟩

/-- A message of `2 ^ 31` bytes is not refused. -/
theorem long_message_not_refused :
    (List.replicate (2 ^ 31) (65 : UInt8)).length =
        (0x80000000 : RawLogLen).toNat ∧
      ¬(Logger.new 2000).KeepsLength (LogMeta.declare 1 1 1) noIgnoreList
        (List.replicate (2 ^ 31) 65) 0x80000000 := by
  constructor
  · rw [List.length_replicate]
    rfl
  · exact not_keepsLength _ _ _ _ (by decide)

end Logger

end GreaseLog
