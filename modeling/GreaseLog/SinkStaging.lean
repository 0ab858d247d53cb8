import GreaseLog.SinkDecoding

/-!
# The staging buffers of the datagram sink

The listener copies out of the receive buffers in three places: the size out
of a header, a piece of a header into `header_temp`, and a piece of an entry
into `temp_buffer_entry`.  This module says for which datagrams these copies
stay inside the datagram and inside their targets, and what becomes of an entry
that lies in two receive buffers.

The loop moves on to the next receive buffer when `walk_buf` has reached
`recv_cnt`.  But `walk_buf` is equal to `walk` until then, and `walk` ends the
loop at `recv_cnt`: it never moves on.
-/

namespace GreaseLog

/-! ## Copies -/

inductive CopyTarget where
  | entrySize
  | headerTemp (offset : ℤ)
  | tempBufferEntry (offset : ℤ)
  deriving DecidableEq, Repr

/-- A `memcpy` of `count` bytes from `start` on in buffer number `iovN`. -/
structure SinkCopy where
  iovN : ℕ
  start : ℤ
  count : ℤ
  target : CopyTarget
  deriving DecidableEq, Repr

/-- How many bytes of the datagram buffer number `n` holds. -/
def Received.filled (d : Received) (n : ℕ) : ℕ :=
  ((d.bytes.drop (n * d.rcvBufSize)).take d.rcvBufSize).length

namespace SinkCopy

/-- Only bytes of the datagram are read. -/
def ReadsInside (x : SinkCopy) (d : Received) : Prop :=
  0 ≤ x.start ∧ 0 ≤ x.count ∧ x.start + x.count ≤ d.filled x.iovN

/-- Only bytes of the target are written. -/
def WritesInside (x : SinkCopy) : Prop :=
  match x.target with
  | .entrySize => x.count ≤ 4
  | .headerTemp offset => offset + x.count ≤ greaseClientHeaderSize
  | .tempBufferEntry offset => offset + x.count ≤ greaseMaxMessageSize

end SinkCopy

namespace SinkCursor

/-- The word under the cursor may be a preamble.  Where the buffer ends within
the word, that depends on the bytes that are left of it: behind the buffer
there is other memory. -/
def mayBePreamble (c : SinkCursor) (d : Received) : Bool :=
  ((c.memory d).take 4).isPrefixOf (LittleEndian.store 4 sinkLogPreamble.toNat)

/-- The copies of a round. -/
def copies (c : SinkCursor) (d : Received) : List SinkCopy :=
  let c := c.nextBuffer d
  if c.overflowed then []
  else
    match c.state with
    | .needPreamble =>
        if c.remain < 0 ∨ greaseClientPingSize ≤ c.remain then
          if c.mayBePreamble d then
            [⟨c.iovN, c.walkBuf + 4, 4, .entrySize⟩]
          else []
        else [⟨c.iovN, c.walkBuf, c.remain, .headerTemp 0⟩]
    | .inPreamble =>
        [⟨c.iovN, c.walkBuf, greaseClientHeaderSize, .headerTemp 0⟩]
    | .inLog =>
        if c.tempBufferWalk = 0 then
          if (c.entrySize.toNat : ℤ) ≤ c.remainInBuf % 2 ^ 32 then []
          else [⟨c.iovN, c.walkBuf, c.remainInBuf, .tempBufferEntry 0⟩]
        else
          [⟨c.iovN, c.walkBuf, toInt (c.entrySize.toNat - c.tempBufferWalk),
            .tempBufferEntry c.tempBufferWalk⟩]

/-- The copies of at most this many rounds of the loop. -/
def loopCopies (d : Received) : ℕ → SinkCursor → List SinkCopy
  | 0, _ => []
  | rounds + 1, c =>
      if c.walk < d.recvCnt ∧ c.overflowed = false then
        c.copies d ++ loopCopies d rounds (c.round d)
      else []

/-- However long the loop goes on, its copies stay inside. -/
def CopiesInside (c : SinkCursor) (d : Received) : Prop :=
  ∀ rounds, ∀ x ∈ loopCopies d rounds c, x.ReadsInside d ∧ x.WritesInside

end SinkCursor

/-! ## The framing of a datagram -/

namespace Received

def isPreamble (d : Received) (pos : ℕ) : Prop :=
  (d.bytes.drop pos).take 4 = LittleEndian.store 4 sinkLogPreamble.toNat

def sizeAt (d : Received) (pos : ℕ) : UInt32 :=
  SinkCursor.getSizeFromPreamble (d.bytes.drop pos)

/-- Taking the first `bound` bytes frame by frame, a header is due at `pos`
behind `n` entries. -/
inductive HeaderAt (d : Received) (bound : ℕ) : ℕ → ℕ → Prop where
  | start : HeaderAt d bound 0 0
  | other {n pos : ℕ} (h : HeaderAt d bound n pos) (hinside : pos + 8 ≤ bound)
      (hother : ¬d.isPreamble pos) : HeaderAt d bound n (pos + 8)
  | entry {n pos : ℕ} (h : HeaderAt d bound n pos)
      (hinside : pos + 8 + (d.sizeAt pos).toNat ≤ bound)
      (hpreamble : d.isPreamble pos) :
      HeaderAt d bound (n + 1) (pos + 8 + (d.sizeAt pos).toNat)

/-- Entry number `n`, behind a header at `pos`, lies in two buffers at
least. -/
structure Spans (d : Received) (n pos : ℕ) : Prop where
  header : d.HeaderAt d.bytes.length n pos
  preamble : d.isPreamble pos
  complete : pos + 8 + (d.sizeAt pos).toNat ≤ d.bytes.length
  across : ∃ k, pos < k * d.rcvBufSize ∧
    k * d.rcvBufSize < pos + 8 + (d.sizeAt pos).toNat

/-- The entry is handed over with its size and its bytes. -/
def Reassembles (d : Received) (c : SinkCursor) (n pos : ℕ) : Prop :=
  ∃ rounds, ∀ more, rounds ≤ more →
    ∃ r, (SinkCursor.loop d more c).entries[n]? = some r ∧
      r.len = d.sizeAt pos ∧
      r.base.take r.len.toNat = (d.bytes.drop (pos + 8)).take r.len.toNat

/-- The staging buffers are not overrun, and an entry that lies in two receive
buffers is put together. -/
def StagedSafely (d : Received) (c : SinkCursor) : Prop :=
  c.CopiesInside d ∧ ∀ n pos, d.Spans n pos → d.Reassembles c n pos

/-- The bytes of the word at `pos` that the first buffer holds. -/
def wordAt (d : Received) (pos : ℕ) : List UInt8 :=
  ((d.bytes.take d.rcvBufSize).drop pos).take 4

/-- What makes the copies stay inside where a header is due at `pos`.  Less
than four bytes are copied as they are.  A preamble must have its size in the
first buffer, and the entry behind it must end there, too, or else be cut off
by the end of the datagram and fit the staging buffer; if the first buffer ends
with the header of a cut entry, nothing is copied.  Anything else must end in
the first buffer or end the datagram. -/
def Stageable (d : Received) (pos : ℕ) : Prop :=
  if d.bytes.length < pos + 4 then d.bytes.length ≤ d.rcvBufSize
  else if d.wordAt pos <+: LittleEndian.store 4 sinkLogPreamble.toNat then
    pos + 8 ≤ d.filled 0 ∧
      (pos + 8 + (d.sizeAt pos).toNat ≤ d.filled 0 ∨
        d.bytes.length ≤ d.rcvBufSize ∧
          d.bytes.length ≤ pos + 8 + greaseMaxMessageSize ∨
        pos + 8 = d.filled 0 ∧
          d.bytes.length < pos + 8 + (d.sizeAt pos).toNat)
  else pos + 8 ≤ d.filled 0 ∨ d.bytes.length ≤ pos + 8

theorem filled_zero (d : Received) :
    d.filled 0 = min d.rcvBufSize d.bytes.length := by
  simp [filled]

theorem HeaderAt.le
    {d : Received} {bound n pos : ℕ} (h : d.HeaderAt bound n pos) :
    pos ≤ bound := by
  cases h with
  | start => exact Nat.zero_le _
  | other _ hinside _ => exact hinside
  | entry _ hinside _ => exact hinside

theorem HeaderAt.mono
    {d : Received} {bound bound' n pos : ℕ} (hle : bound ≤ bound')
    (h : d.HeaderAt bound n pos) : d.HeaderAt bound' n pos := by
  induction h with
  | start => exact .start
  | other _ hinside hother ih => exact ih.other (hinside.trans hle) hother
  | entry _ hinside hpreamble ih =>
      exact ih.entry (hinside.trans hle) hpreamble

/-- A word that lies in the first buffer is a preamble or it is not. -/
theorem wordAt_prefix_iff
    {d : Received} {pos : ℕ} (hinside : pos + 4 ≤ d.filled 0) :
    d.wordAt pos <+: LittleEndian.store 4 sinkLogPreamble.toNat ↔
      d.isPreamble pos := by
  rw [filled_zero] at hinside
  have hword : d.wordAt pos = (d.bytes.drop pos).take 4 := by
    unfold wordAt
    rw [List.drop_take, List.take_take, Nat.min_eq_left (by omega)]
  have hlength : (d.wordAt pos).length = 4 := by
    rw [hword, List.length_take, List.length_drop]
    omega
  unfold isPreamble
  rw [← hword]
  constructor
  · intro hprefix
    exact hprefix.eq_of_length (by rw [hlength, LittleEndian.length_store])
  · intro heq
    rw [heq]

end Received

/-! ## The cursors -/

namespace SinkCursor

/-- The cursors stand at `pos`, seen from the first buffer, and nothing is
staged. -/
structure Placed (c : SinkCursor) (d : Received) (pos : ℕ) : Prop where
  walk : c.walk = pos
  walkBuf : c.walkBuf = pos
  remain : c.remain = d.recvCnt - pos
  remainInBuf : c.remainInBuf = d.filled 0 - pos
  iovN : c.iovN = 0
  tempBufferWalk : c.tempBufferWalk = 0
  overflowed : c.overflowed = false

/-- A header is due at `pos`, behind `n` entries. -/
structure Due (c : SinkCursor) (d : Received) (n pos : ℕ) : Prop where
  placed : c.Placed d pos
  state : c.state = .needPreamble
  entries : c.entries.length = n

/-- The header at `pos` has been read, and its entry is next. -/
structure Faces (c : SinkCursor) (d : Received) (n pos : ℕ) : Prop where
  placed : c.Placed d (pos + 8)
  state : c.state = .inLog
  entrySize : c.entrySize = d.sizeAt pos
  entries : c.entries.length = n

variable {c : SinkCursor} {d : Received} {n pos : ℕ}

theorem Placed.sdWalk
    (h : c.Placed d pos) {m : ℕ} (hint : pos + m < 2 ^ 31)
    (hcnt : d.bytes.length < 2 ^ 31) :
    (c.sdWalk m).Placed d (pos + m) := by
  have hrecv : d.recvCnt = d.bytes.length := rfl
  have hfilled : d.filled 0 ≤ d.bytes.length := by
    rw [Received.filled_zero]
    exact Nat.min_le_right _ _
  constructor
  · change toInt (c.walk + m) = _
    rw [h.walk, toInt_walk (by omega)]
  · change toInt (c.walkBuf + m) = _
    rw [h.walkBuf, toInt_walk (by omega)]
  · change toInt (c.remain - m) = _
    rw [h.remain, toInt_of_range (by omega) (by omega)]
    push_cast
    ring
  · change toInt (c.remainInBuf - m) = _
    rw [h.remainInBuf, toInt_of_range (by omega) (by omega)]
    push_cast
    ring
  · exact h.iovN
  · exact h.tempBufferWalk
  · exact h.overflowed

theorem Placed.goesOn
    (h : c.Placed d pos) (hpos : pos < d.bytes.length) :
    c.walk < d.recvCnt ∧ c.walkBuf < d.recvCnt := by
  have hrecv : d.recvCnt = d.bytes.length := rfl
  rw [h.walk, h.walkBuf]
  omega

theorem Placed.nextBuffer
    (h : c.Placed d pos) (hpos : pos < d.bytes.length) :
    c.nextBuffer d = c := by
  unfold SinkCursor.nextBuffer
  rw [if_neg (not_le.mpr (h.goesOn hpos).2)]

/-! ## Runs of the loop -/

theorem copiesInside_of_end (hend : d.recvCnt ≤ c.walk) : c.CopiesInside d := by
  intro rounds x hx
  cases rounds with
  | zero => simp [loopCopies] at hx
  | succ rounds =>
      rw [loopCopies, if_neg (by omega)] at hx
      simp at hx

theorem copiesInside_iff
    (hlt : c.walk < d.recvCnt) (hoverflowed : c.overflowed = false) :
    c.CopiesInside d ↔
      (∀ x ∈ c.copies d, x.ReadsInside d ∧ x.WritesInside) ∧
        (c.round d).CopiesInside d := by
  constructor
  · intro h
    constructor
    · intro x hx
      refine h 1 x ?_
      rw [loopCopies, if_pos ⟨hlt, hoverflowed⟩]
      exact List.mem_append_left _ hx
    · intro rounds x hx
      refine h (rounds + 1) x ?_
      rw [loopCopies, if_pos ⟨hlt, hoverflowed⟩]
      exact List.mem_append_right _ hx
  · rintro ⟨hcopies, hrest⟩ rounds x hx
    cases rounds with
    | zero => simp [loopCopies] at hx
    | succ rounds =>
        rw [loopCopies, if_pos ⟨hlt, hoverflowed⟩] at hx
        rcases List.mem_append.mp hx with hnow | hlater
        · exact hcopies x hnow
        · exact hrest rounds x hlater

/-! ## Where a header is due -/

theorem Placed.take_memory
    (h : c.Placed d pos) (hword : pos + 4 ≤ d.bytes.length) :
    (c.memory d).take 4 = d.wordAt pos := by
  unfold memory Received.buffer Received.wordAt
  simp only [h.iovN, h.walkBuf, Int.toNat_natCast, Nat.zero_mul,
    List.drop_zero]
  rcases Nat.lt_or_ge d.rcvBufSize d.bytes.length with hlong | hfits
  · rw [List.length_take, Nat.min_eq_left hlong.le, Nat.sub_self,
      List.replicate_zero, List.append_nil]
  · rw [List.take_of_length_le hfits,
      List.drop_append_of_le_length (by omega),
      List.take_append_of_le_length (by rw [List.length_drop]; omega)]

theorem Placed.take_memory_inside
    (h : c.Placed d pos) {m : ℕ} (hinside : pos + m ≤ d.filled 0) :
    (c.memory d).take m = (d.bytes.drop pos).take m := by
  have hfilled : (d.bytes.take d.rcvBufSize).length = d.filled 0 := by
    simp [Received.filled]
  have hbound := d.filled_zero
  unfold memory Received.buffer
  simp only [h.iovN, h.walkBuf, Int.toNat_natCast, Nat.zero_mul,
    List.drop_zero]
  rw [List.drop_append_of_le_length (by omega),
    List.take_append_of_le_length (by rw [List.length_drop]; omega),
    List.drop_take, List.take_take, Nat.min_eq_left (by omega)]

theorem Due.copies_short
    (h : c.Due d n pos) (hpos : pos < d.bytes.length)
    (hshort : d.bytes.length < pos + 4) :
    c.copies d = [⟨0, pos, d.bytes.length - pos, .headerTemp 0⟩] := by
  have hremain : c.remain = d.bytes.length - pos := h.placed.remain
  have hping : (greaseClientPingSize : ℤ) = 4 := rfl
  unfold copies
  simp only [h.placed.nextBuffer hpos, h.placed.overflowed, h.state,
    Bool.false_eq_true, if_false]
  rw [if_neg (by omega), h.placed.iovN, h.placed.walkBuf, hremain]

theorem Due.copies_word
    (h : c.Due d n pos) (hword : pos + 4 ≤ d.bytes.length) :
    c.copies d =
      if d.wordAt pos <+: LittleEndian.store 4 sinkLogPreamble.toNat then
        [⟨0, pos + 4, 4, .entrySize⟩]
      else [] := by
  have hremain : c.remain = d.bytes.length - pos := h.placed.remain
  have hping : (greaseClientPingSize : ℤ) = 4 := rfl
  unfold copies mayBePreamble
  simp only [h.placed.nextBuffer (by omega), h.placed.overflowed, h.state,
    Bool.false_eq_true, if_false]
  rw [if_pos (by omega), h.placed.take_memory hword, h.placed.iovN,
    h.placed.walkBuf]
  simp only [List.isPrefixOf_iff_prefix]

theorem Due.round_eq
    (h : c.Due d n pos) (hpos : pos < d.bytes.length) :
    c.round d = c.needPreamble d := by
  rw [round_of_lt (h.placed.goesOn hpos).2 h.placed.overflowed, h.state]

theorem Due.round_short
    (h : c.Due d n pos) (hpos : pos < d.bytes.length)
    (hshort : d.bytes.length < pos + 4) (hint : d.bytes.length < 2 ^ 31) :
    d.recvCnt ≤ (c.round d).walk := by
  have hremain : c.remain = d.bytes.length - pos := h.placed.remain
  have hrecv : d.recvCnt = d.bytes.length := rfl
  have hping : (greaseClientPingSize : ℤ) = 4 := rfl
  rw [h.round_eq hpos]
  unfold needPreamble
  rw [if_neg (by omega)]
  change d.recvCnt ≤ toInt (c.walk + c.remain)
  rw [h.placed.walk, hremain, toInt_of_range (by omega) (by omega)]
  omega

/-- What is no preamble takes eight bytes. -/
theorem Due.round_other
    (h : c.Due d n pos) (hword : pos + 4 ≤ d.bytes.length)
    (hother : d.wordAt pos ≠ LittleEndian.store 4 sinkLogPreamble.toNat)
    (hint : d.bytes.length + 8 ≤ 2 ^ 31) :
    (c.round d).Due d n (pos + 8) := by
  have hremain : c.remain = d.bytes.length - pos := h.placed.remain
  have hping : (greaseClientPingSize : ℤ) = 4 := rfl
  have htake := h.placed.take_memory hword
  have hisWord : (c.touch d 4).isWord d sinkLogPreamble = false := by
    change ((c.memory d).take 4 == _) = false
    rw [htake]
    simpa using hother
  have hwalked : (c.sdWalk greaseClientHeaderSize).Placed d (pos + 8) :=
    h.placed.sdWalk (m := 8) (by omega) (by omega)
  rw [h.round_eq (by omega)]
  unfold needPreamble
  rw [if_pos (by omega)]
  dsimp only
  rw [hisWord]
  split
  · exact ⟨{ hwalked with }, h.state, h.entries⟩
  · rw [if_neg (by simp)]
    exact ⟨{ hwalked with }, rfl, h.entries⟩

theorem Due.round_preamble
    (h : c.Due d n pos) (hinside : pos + 8 ≤ d.filled 0)
    (hpreamble : d.isPreamble pos) (hint : d.bytes.length + 8 ≤ 2 ^ 31) :
    (c.round d).Faces d n pos := by
  have hremain : c.remain = d.bytes.length - pos := h.placed.remain
  have hping : (greaseClientPingSize : ℤ) = 4 := rfl
  have hfilled := d.filled_zero
  have hword : (c.memory d).take 4 =
      LittleEndian.store 4 sinkLogPreamble.toNat := by
    rw [h.placed.take_memory_inside (by omega)]
    exact hpreamble
  have hsize : getSizeFromPreamble (c.memory d) = d.sizeAt pos := by
    rw [← getSizeFromPreamble_take, h.placed.take_memory_inside hinside,
      getSizeFromPreamble_take]
    rfl
  have hnoPing : (c.touch d 4).isWord d sinkLogPing = false := by
    change ((c.memory d).take 4 == _) = false
    rw [hword]
    simpa using ping_ne_preamble
  have hisPreamble : (c.touch d 4).isWord d sinkLogPreamble = true := by
    change ((c.memory d).take 4 == _) = true
    rw [hword]
    exact beq_self_eq_true _
  have hwalked : (c.sdWalk greaseClientHeaderSize).Placed d (pos + 8) :=
    h.placed.sdWalk (m := 8) (by omega) (by omega)
  rw [h.round_eq (by omega)]
  unfold needPreamble
  rw [if_pos (by omega)]
  dsimp only
  rw [hnoPing, hisPreamble, if_neg (by simp), if_pos rfl]
  exact ⟨{ hwalked with }, rfl, hsize, h.entries⟩

/-! ## In front of an entry -/

theorem Faces.round_eq
    (h : c.Faces d n pos) (hpos : pos + 8 < d.bytes.length) :
    c.round d = c.inLog d := by
  rw [round_of_lt (h.placed.goesOn hpos).2 h.placed.overflowed, h.state]

theorem Faces.size_le_iff
    (h : c.Faces d n pos) (hinside : pos + 8 ≤ d.filled 0)
    (hint : d.bytes.length < 2 ^ 31) :
    (c.entrySize.toNat : ℤ) ≤ c.remainInBuf % 2 ^ 32 ↔
      pos + 8 + (d.sizeAt pos).toNat ≤ d.filled 0 := by
  have hfilled := d.filled_zero
  rw [h.placed.remainInBuf, h.entrySize,
    Int.emod_eq_of_lt (by omega) (by omega)]
  push_cast
  omega

theorem Faces.copies_eq
    (h : c.Faces d n pos) (hinside : pos + 8 ≤ d.filled 0)
    (hpos : pos + 8 < d.bytes.length) (hint : d.bytes.length < 2 ^ 31) :
    c.copies d =
      if pos + 8 + (d.sizeAt pos).toNat ≤ d.filled 0 then []
      else [⟨0, (pos + 8 : ℕ), d.filled 0 - (pos + 8 : ℕ),
        .tempBufferEntry 0⟩] := by
  unfold copies
  simp only [h.placed.nextBuffer hpos, h.placed.overflowed, h.state,
    h.placed.tempBufferWalk, Bool.false_eq_true, if_false, if_true,
    h.size_le_iff hinside hint, h.placed.iovN, h.placed.walkBuf]
  rw [h.placed.remainInBuf]

theorem Faces.round_entry
    (h : c.Faces d n pos) (hpos : pos + 8 < d.bytes.length)
    (hentry : pos + 8 + (d.sizeAt pos).toNat ≤ d.filled 0)
    (hint : d.bytes.length < 2 ^ 31) :
    (c.round d).Due d (n + 1) (pos + 8 + (d.sizeAt pos).toNat) := by
  have hfilled := d.filled_zero
  have hwalked : (c.sdWalk c.entrySize.toNat).Placed d
      (pos + 8 + (d.sizeAt pos).toNat) := by
    rw [h.entrySize]
    exact h.placed.sdWalk (by omega) hint
  rw [h.round_eq hpos]
  unfold inLog
  rw [if_pos h.placed.tempBufferWalk,
    if_pos ((h.size_le_iff (by omega) hint).mpr hentry)]
  refine ⟨{ hwalked with }, rfl, ?_⟩
  change (c.entries ++ [_]).length = n + 1
  rw [List.length_append, h.entries]
  rfl

/-- The part of an entry that the first buffer holds has been staged. -/
structure Cut (c : SinkCursor) (d : Received) (n pos : ℕ) : Prop where
  walk : c.walk = d.filled 0
  walkBuf : c.walkBuf = d.filled 0
  remain : c.remain = d.recvCnt - d.filled 0
  remainInBuf : c.remainInBuf = 0
  iovN : c.iovN = 0
  tempBufferWalk : c.tempBufferWalk = d.filled 0 - (pos + 8 : ℕ)
  overflowed : c.overflowed = false
  state : c.state = .inLog
  entrySize : c.entrySize = d.sizeAt pos
  entries : c.entries.length = n

theorem Faces.round_cut
    (h : c.Faces d n pos) (hinside : pos + 8 ≤ d.filled 0)
    (hpos : pos + 8 < d.bytes.length)
    (hcut : d.filled 0 < pos + 8 + (d.sizeAt pos).toNat)
    (hint : d.bytes.length < 2 ^ 31) :
    (c.round d).Cut d n pos := by
  have hfilled := d.filled_zero
  have hrecv : d.recvCnt = d.bytes.length := rfl
  have hbuf := h.placed.remainInBuf
  rw [h.round_eq hpos]
  unfold inLog
  rw [if_pos h.placed.tempBufferWalk,
    if_neg (by rw [h.size_le_iff hinside hint]; omega)]
  constructor
  · change toInt (c.walk + c.remainInBuf) = _
    rw [h.placed.walk, hbuf, toInt_of_range (by omega) (by omega)]
    omega
  · change toInt (c.walkBuf + c.remainInBuf) = _
    rw [h.placed.walkBuf, hbuf, toInt_of_range (by omega) (by omega)]
    omega
  · change toInt (c.remain - c.remainInBuf) = _
    rw [h.placed.remain, hbuf, toInt_of_range (by omega) (by omega)]
    omega
  · change toInt (c.remainInBuf - c.remainInBuf) = 0
    rw [sub_self]
    rfl
  · exact h.placed.iovN
  · exact hbuf
  · exact h.placed.overflowed
  · exact h.state
  · exact h.entrySize
  · exact h.entries

/-- Where the first buffer ends with the header, a round changes nothing. -/
theorem Cut.faces
    (h : c.Cut d n pos) (hend : pos + 8 = d.filled 0) : c.Faces d n pos := by
  have htemp := h.tempBufferWalk
  refine ⟨⟨?_, ?_, ?_, ?_, h.iovN, ?_, h.overflowed⟩, h.state, h.entrySize,
    h.entries⟩
  · rw [h.walk, hend]
  · rw [h.walkBuf, hend]
  · rw [h.remain, hend]
  · rw [h.remainInBuf, hend, sub_self]
  · rw [htemp, hend, sub_self]

/-- The rest of the entry is copied from behind the first buffer. -/
theorem Cut.copies_outside
    (h : c.Cut d n pos) (hpart : pos + 8 < d.filled 0)
    (hmore : d.filled 0 < d.bytes.length)
    (hcut : d.filled 0 < pos + 8 + (d.sizeAt pos).toNat) :
    ∃ x ∈ c.copies d, ¬x.ReadsInside d := by
  have hrecv : d.recvCnt = d.bytes.length := rfl
  have htemp := h.tempBufferWalk
  have hsize := (d.sizeAt pos).toNat_lt
  have hneed : toInt ((d.sizeAt pos).toNat - c.tempBufferWalk) ≠ 0 := by
    unfold toInt
    intro hzero
    have hdvd := Int.dvd_of_bmod_eq_zero hzero
    rw [htemp] at hdvd
    omega
  have hnext : c.nextBuffer d = c := by
    unfold SinkCursor.nextBuffer
    rw [if_neg (by rw [h.walkBuf]; omega)]
  refine ⟨⟨0, d.filled 0, toInt ((d.sizeAt pos).toNat - c.tempBufferWalk),
    .tempBufferEntry c.tempBufferWalk⟩, ?_, ?_⟩
  · unfold copies
    simp only [hnext, h.overflowed, h.state, Bool.false_eq_true, if_false]
    rw [if_neg (by omega), h.iovN, h.walkBuf, h.entrySize]
    exact List.mem_singleton_self _
  · rintro ⟨-, hcount, hinside⟩
    dsimp only at hcount hinside
    omega

/-! ## A header at the end of the first buffer -/

/-- The buffer ends with a header, but neither the datagram nor the entry
does. -/
structure EndsBuffer (d : Received) (pos : ℕ) : Prop where
  atEnd : pos + 8 = d.filled 0
  more : d.filled 0 < d.bytes.length
  promised : 0 < (d.sizeAt pos).toNat

/-- The loop stays in front of such an entry for ever. -/
theorem Faces.round_stuck
    (h : c.Faces d n pos) (hends : EndsBuffer d pos)
    (hint : d.bytes.length < 2 ^ 31) :
    (c.round d).Faces d n pos := by
  obtain ⟨hend, hmore, hpromised⟩ := hends
  exact (h.round_cut hend.le (by omega) (by omega) hint).faces hend

theorem Faces.loop_stuck
    (h : c.Faces d n pos) (hends : EndsBuffer d pos)
    (hint : d.bytes.length < 2 ^ 31) (rounds : ℕ) :
    (loop d rounds c).Faces d n pos := by
  have hend := hends.atEnd
  have hmore := hends.more
  induction rounds generalizing c with
  | zero => exact h
  | succ rounds ih =>
      rw [loop_of_lt rounds (h.placed.goesOn (by omega)).1
        h.placed.overflowed]
      exact ih (h.round_stuck hends hint)

theorem Faces.copiesInside_stuck
    (h : c.Faces d n pos) (hends : EndsBuffer d pos)
    (hint : d.bytes.length < 2 ^ 31) : c.CopiesInside d := by
  have hend := hends.atEnd
  have hmore := hends.more
  have hpromised := hends.promised
  intro rounds
  induction rounds generalizing c with
  | zero => simp [loopCopies]
  | succ rounds ih =>
      rw [loopCopies, if_pos ⟨(h.placed.goesOn (by omega)).1,
        h.placed.overflowed⟩, h.copies_eq hend.le (by omega) hint,
        if_neg (by omega)]
      intro x hx
      rcases List.mem_append.mp hx with hnow | hlater
      · -- nothing is left of the buffer, and so nothing is copied
        obtain rfl := List.mem_singleton.mp hnow
        simp only [SinkCopy.ReadsInside, SinkCopy.WritesInside,
          greaseMaxMessageSize]
        omega
      · exact ih (h.round_stuck hends hint) x hlater

/-! ## Datagrams that are staged safely -/

theorem Faces.copiesInside
    (h : c.Faces d n pos) (hinside : pos + 8 ≤ d.filled 0)
    (hint : d.bytes.length < 2 ^ 31)
    (hstage : pos + 8 + (d.sizeAt pos).toNat ≤ d.filled 0 ∨
      d.bytes.length ≤ d.rcvBufSize ∧
        d.bytes.length ≤ pos + 8 + greaseMaxMessageSize ∨
      pos + 8 = d.filled 0 ∧
        d.bytes.length < pos + 8 + (d.sizeAt pos).toNat)
    (hnext : ∀ c : SinkCursor,
      pos + 8 + (d.sizeAt pos).toNat ≤ d.filled 0 →
        c.Due d (n + 1) (pos + 8 + (d.sizeAt pos).toNat) →
          c.CopiesInside d) :
    c.CopiesInside d := by
  have hfilled := d.filled_zero
  have hrecv : d.recvCnt = d.bytes.length := rfl
  rcases Nat.lt_or_ge (pos + 8) d.bytes.length with hpos | hpos
  · rw [copiesInside_iff (h.placed.goesOn hpos).1 h.placed.overflowed,
      h.copies_eq hinside hpos hint]
    by_cases hentry : pos + 8 + (d.sizeAt pos).toNat ≤ d.filled 0
    · rw [if_pos hentry]
      exact ⟨by simp, hnext _ hentry (h.round_entry hpos hentry hint)⟩
    · rw [if_neg hentry]
      rcases hstage with hfits | ⟨hone, hsmall⟩ | ⟨hend, hpromised⟩
      · exact absurd hfits hentry
      · constructor
        · intro x hx
          obtain rfl := List.mem_singleton.mp hx
          simp only [SinkCopy.ReadsInside, SinkCopy.WritesInside]
          omega
        · have hcut := h.round_cut hinside hpos (by omega) hint
          refine copiesInside_of_end ?_
          rw [hcut.walk]
          omega
      · have hstuck := h.copiesInside_stuck ⟨hend, by omega, by omega⟩ hint
        rw [copiesInside_iff (h.placed.goesOn hpos).1 h.placed.overflowed,
          h.copies_eq hinside hpos hint, if_neg hentry] at hstuck
        exact hstuck
  · refine copiesInside_of_end ?_
    rw [h.placed.walk]
    omega

theorem Due.copiesInside
    (hint : d.bytes.length + 8 ≤ 2 ^ 31)
    (hall : ∀ n pos, d.HeaderAt (d.filled 0) n pos → pos < d.bytes.length →
      d.Stageable pos)
    (h : c.Due d n pos) (hheader : d.HeaderAt (d.filled 0) n pos) :
    c.CopiesInside d := by
  have hfilled := d.filled_zero
  have hrecv : d.recvCnt = d.bytes.length := rfl
  induction hleft : d.bytes.length - pos using Nat.strong_induction_on
    generalizing c n pos with
  | _ left ih =>
      rcases Nat.lt_or_ge pos d.bytes.length with hpos | hpos
      · have hstage := hall n pos hheader hpos
        unfold Received.Stageable at hstage
        rw [copiesInside_iff (h.placed.goesOn hpos).1 h.placed.overflowed]
        split at hstage
        · rename_i hshort
          rw [h.copies_short hpos hshort]
          constructor
          · intro x hx
            obtain rfl := List.mem_singleton.mp hx
            simp only [SinkCopy.ReadsInside, SinkCopy.WritesInside,
              greaseClientHeaderSize]
            omega
          · exact copiesInside_of_end (h.round_short hpos hshort (by omega))
        · rename_i hword
          rw [h.copies_word (by omega)]
          split at hstage
          · rename_i hprefix
            obtain ⟨hinside, hentry⟩ := hstage
            have hpreamble :=
              (Received.wordAt_prefix_iff (by omega)).mp hprefix
            rw [if_pos hprefix]
            constructor
            · intro x hx
              obtain rfl := List.mem_singleton.mp hx
              simp only [SinkCopy.ReadsInside, SinkCopy.WritesInside]
              omega
            · refine (h.round_preamble hinside hpreamble hint).copiesInside
                hinside (by omega) hentry ?_
              intro c' hfits hdue
              exact ih _ (by omega) hdue (hheader.entry hfits hpreamble) rfl
          · rename_i hother
            rw [if_neg hother]
            refine ⟨by simp, ?_⟩
            have hdue := h.round_other (by omega)
              (fun heq => hother (heq ▸ List.prefix_rfl)) hint
            rcases hstage with hinside | hend
            · refine ih _ (by omega) hdue (hheader.other hinside ?_) rfl
              rwa [← Received.wordAt_prefix_iff (by omega)]
            · refine copiesInside_of_end ?_
              rw [hdue.placed.walk]
              omega
      · refine copiesInside_of_end ?_
        rw [h.placed.walk]
        omega

/-! ## Datagrams that are not -/

/-- The loop comes from `c` to `c'`. -/
def Leads (c c' : SinkCursor) (d : Received) : Prop :=
  (c.CopiesInside d → c'.CopiesInside d) ∧
    ∃ rounds, ∀ more, loop d (rounds + more) c = loop d more c'

theorem Leads.refl (c : SinkCursor) (d : Received) : c.Leads c d :=
  ⟨id, 0, fun more => by rw [Nat.zero_add]⟩

theorem Leads.round
    {c c' : SinkCursor} (h : c.Leads c' d) (hlt : c'.walk < d.recvCnt)
    (hoverflowed : c'.overflowed = false) : c.Leads (c'.round d) d := by
  obtain ⟨hcopies, rounds, hloop⟩ := h
  refine ⟨?_, rounds + 1, ?_⟩
  · intro hinside
    exact ((copiesInside_iff hlt hoverflowed).mp (hcopies hinside)).2
  · intro more
    rw [Nat.add_assoc, Nat.add_comm 1 more, hloop (more + 1),
      loop_of_lt more hlt hoverflowed]

theorem Leads.placed
    {c c' : SinkCursor} (h : c.Leads c' d) (hplaced : c'.Placed d pos)
    (hpos : pos < d.bytes.length) : c.Leads (c'.round d) d :=
  h.round (hplaced.goesOn hpos).1 hplaced.overflowed

/-- The loop comes to every header of the first buffer. -/
theorem exists_leads_due
    {start : SinkCursor} (hint : d.bytes.length + 8 ≤ 2 ^ 31)
    (hstart : start.Due d 0 0) (hheader : d.HeaderAt (d.filled 0) n pos)
    (hpos : pos < d.bytes.length) :
    ∃ c : SinkCursor, c.Due d n pos ∧ start.Leads c d := by
  have hfilled := d.filled_zero
  induction hheader with
  | start => exact ⟨start, hstart, .refl start d⟩
  | @other n before hearlier hinside hother ih =>
      obtain ⟨c, hdue, hleads⟩ := ih (by omega)
      have hword : ¬d.wordAt before <+:
          LittleEndian.store 4 sinkLogPreamble.toNat := by
        rwa [Received.wordAt_prefix_iff (by omega)]
      exact ⟨c.round d, hdue.round_other (by omega)
        (fun heq => hword (heq ▸ List.prefix_rfl)) hint,
        hleads.placed hdue.placed (by omega)⟩
  | entry hearlier hinside hpreamble ih =>
      obtain ⟨c, hdue, hleads⟩ := ih (by omega)
      have hfaces := hdue.round_preamble (by omega) hpreamble hint
      have hleads' := hleads.placed hdue.placed (by omega)
      exact ⟨(c.round d).round d,
        hfaces.round_entry (by omega) hinside (by omega),
        hleads'.placed hfaces.placed (by omega)⟩

/-- Behind the end of the first buffer every copy is outside. -/
theorem Due.not_copiesInside_behind
    (h : c.Due d n pos) (hpos : pos < d.bytes.length)
    (hbehind : d.filled 0 ≤ pos) : ¬c.CopiesInside d := by
  have hfilled := d.filled_zero
  intro hinside
  have hcopies :=
    ((copiesInside_iff (h.placed.goesOn hpos).1 h.placed.overflowed).mp
      hinside).1
  rcases Nat.lt_or_ge d.bytes.length (pos + 4) with hshort | hword
  · rw [h.copies_short hpos hshort] at hcopies
    have hreads := (hcopies _ (List.mem_singleton_self _)).1
    simp only [SinkCopy.ReadsInside] at hreads
    omega
  · have hnone : d.wordAt pos = [] := by
      unfold Received.wordAt
      rw [List.drop_eq_nil_of_le (by rw [List.length_take]; omega),
        List.take_nil]
    rw [h.copies_word hword, hnone, if_pos (List.nil_prefix)] at hcopies
    have hreads := (hcopies _ (List.mem_singleton_self _)).1
    simp only [SinkCopy.ReadsInside] at hreads
    omega

/-- An entry whose copies stay inside ends in the first buffer, is cut off and
short, or keeps the loop where it is. -/
theorem Faces.stageable
    (h : c.Faces d n pos) (hinside : pos + 8 ≤ d.filled 0)
    (hint : d.bytes.length < 2 ^ 31) (hcopies : c.CopiesInside d) :
    pos + 8 + (d.sizeAt pos).toNat ≤ d.filled 0 ∨
      d.bytes.length ≤ d.rcvBufSize ∧
        d.bytes.length ≤ pos + 8 + greaseMaxMessageSize ∨
      EndsBuffer d pos := by
  have hfilled := d.filled_zero
  by_cases hentry : pos + 8 + (d.sizeAt pos).toNat ≤ d.filled 0
  · exact Or.inl hentry
  · right
    rcases Nat.lt_or_ge (pos + 8) d.bytes.length with hpos | hpos
    · obtain ⟨hnow, hlater⟩ :=
        (copiesInside_iff (h.placed.goesOn hpos).1 h.placed.overflowed).mp
          hcopies
      rw [h.copies_eq hinside hpos hint, if_neg hentry] at hnow
      have hwrites := (hnow _ (List.mem_singleton_self _)).2
      simp only [SinkCopy.WritesInside] at hwrites
      rcases Nat.lt_or_ge d.rcvBufSize d.bytes.length with hlong | hfits
      · right
        rcases Nat.lt_or_ge (pos + 8) (d.filled 0) with hpart | hend
        · exfalso
          have hcut := h.round_cut hinside hpos (by omega) hint
          have hrecv : d.recvCnt = d.bytes.length := rfl
          have hrest := (copiesInside_iff (by rw [hcut.walk]; omega)
            hcut.overflowed).mp hlater
          obtain ⟨x, hx, houtside⟩ :=
            hcut.copies_outside hpart (by omega) (by omega)
          exact houtside (hrest.1 x hx).1
        · exact ⟨by omega, by omega, by omega⟩
      · left
        exact ⟨hfits, by omega⟩
    · left
      unfold greaseMaxMessageSize
      omega

theorem Due.stageable
    (h : c.Due d n pos) (hpos : pos < d.bytes.length)
    (hint : d.bytes.length + 8 ≤ 2 ^ 31) (hcopies : c.CopiesInside d) :
    d.Stageable pos ∨ d.isPreamble pos ∧ EndsBuffer d pos ∧
      pos + 8 + (d.sizeAt pos).toNat ≤ d.bytes.length := by
  have hfilled := d.filled_zero
  obtain ⟨hnow, hlater⟩ :=
    (copiesInside_iff (h.placed.goesOn hpos).1 h.placed.overflowed).mp hcopies
  unfold Received.Stageable
  rcases Nat.lt_or_ge d.bytes.length (pos + 4) with hshort | hword
  · left
    rw [h.copies_short hpos hshort] at hnow
    have hreads := (hnow _ (List.mem_singleton_self _)).1
    simp only [SinkCopy.ReadsInside] at hreads
    rw [if_pos hshort]
    omega
  · rw [if_neg (by omega)]
    rw [h.copies_word hword] at hnow
    split
    · rename_i hprefix
      rw [if_pos hprefix] at hnow
      have hreads := (hnow _ (List.mem_singleton_self _)).1
      simp only [SinkCopy.ReadsInside] at hreads
      have hinside : pos + 8 ≤ d.filled 0 := by omega
      have hpreamble := (Received.wordAt_prefix_iff (by omega)).mp hprefix
      have hfaces := h.round_preamble hinside hpreamble hint
      rcases hfaces.stageable hinside (by omega) hlater with
        hentry | hcut | hends
      · exact Or.inl ⟨hinside, Or.inl hentry⟩
      · exact Or.inl ⟨hinside, Or.inr (Or.inl hcut)⟩
      · rcases Nat.lt_or_ge d.bytes.length
          (pos + 8 + (d.sizeAt pos).toNat) with hmissing | hcomplete
        · exact Or.inl
            ⟨hinside, Or.inr (Or.inr ⟨hends.atEnd, hmissing⟩)⟩
        · exact Or.inr ⟨hpreamble, hends, hcomplete⟩
    · rename_i hother
      left
      by_contra hbeyond
      push Not at hbeyond
      have hdue := h.round_other hword
        (fun heq => hother (heq ▸ List.prefix_rfl)) hint
      exact hdue.not_copiesInside_behind hbeyond.2 hbeyond.1.le hlater

end SinkCursor

namespace Received

/-- The copies stay inside wherever a header is due in the first buffer. -/
def Stages (d : Received) : Prop :=
  ∀ n pos, d.HeaderAt (d.filled 0) n pos → pos < d.bytes.length →
    d.Stageable pos

theorem start_due (d : Received) (headerTemp tempBufferEntry : List UInt8)
    (entrySize : UInt32) :
    (d.start headerTemp tempBufferEntry entrySize).Due d 0 0 := by
  have hfilled := d.filled_zero
  have hrecv : d.recvCnt = d.bytes.length := rfl
  refine ⟨⟨rfl, rfl, ?_, ?_, rfl, rfl, rfl⟩, rfl, rfl⟩
  · change d.recvCnt = d.recvCnt - ((0 : ℕ) : ℤ)
    rw [Nat.cast_zero, sub_zero]
  · change (if (d.rcvBufSize : ℤ) < d.recvCnt then (d.rcvBufSize : ℤ)
      else d.recvCnt) = d.filled 0 - ((0 : ℕ) : ℤ)
    rw [hrecv, hfilled]
    split <;> omega

/-- A complete entry then ends in the first buffer. -/
theorem Stageable.entry_inside
    {d : Received} {pos : ℕ} (h : d.Stageable pos)
    (hpreamble : d.isPreamble pos)
    (hcomplete : pos + 8 + (d.sizeAt pos).toNat ≤ d.bytes.length) :
    pos + 8 + (d.sizeAt pos).toNat ≤ d.filled 0 := by
  have hfilled := d.filled_zero
  have hprefix : d.wordAt pos <+:
      LittleEndian.store 4 sinkLogPreamble.toNat := by
    rw [← show (d.bytes.drop pos).take 4 = _ from hpreamble]
    unfold wordAt
    rw [List.drop_take, List.take_take]
    exact List.take_prefix_take_left (Nat.min_le_left _ _)
  unfold Stageable at h
  rw [if_neg (by omega), if_pos hprefix] at h
  omega

/-- Where the copies stay inside, the headers of the whole datagram are those
of the first buffer. -/
theorem Stages.headerAt
    {d : Received} (hstages : d.Stages) {n pos : ℕ}
    (hheader : d.HeaderAt d.bytes.length n pos)
    (hpos : pos < d.bytes.length) : d.HeaderAt (d.filled 0) n pos := by
  have hfilled := d.filled_zero
  induction hheader with
  | start => exact .start
  | @other n before hearlier hinside hother ih =>
      have hfirst := ih (by omega)
      have hstage := hstages _ _ hfirst (by omega)
      unfold Stageable at hstage
      rw [if_neg (by omega)] at hstage
      refine hfirst.other ?_ hother
      split at hstage
      · exact hstage.1
      · omega
  | @entry n before hearlier hinside hpreamble ih =>
      have hfirst := ih (by omega)
      have hstage := hstages _ _ hfirst (by omega)
      exact hfirst.entry (hstage.entry_inside hpreamble hinside) hpreamble

/-- No entry lies in two buffers then. -/
theorem Stages.not_spans
    {d : Received} (hstages : d.Stages) {n pos : ℕ} : ¬d.Spans n pos := by
  rintro ⟨hheader, hpreamble, hcomplete, k, hbefore, hbehind⟩
  have hfilled := d.filled_zero
  have hpos : pos < d.bytes.length := by omega
  have hinside := (hstages n pos (hstages.headerAt hheader hpos)
    hpos).entry_inside hpreamble hcomplete
  have hone : 1 ≤ k := by
    by_contra hzero
    obtain rfl : k = 0 := by omega
    simp at hbefore
  have hbuffer : d.rcvBufSize ≤ k * d.rcvBufSize :=
    Nat.le_mul_of_pos_left _ hone
  omega

/-- An entry that begins where the first buffer ends is never handed over. -/
theorem not_reassembles_stuck
    {d : Received} (hint : d.bytes.length < 2 ^ 31)
    {start c : SinkCursor} {n pos : ℕ} (hleads : start.Leads c d)
    (hfaces : c.Faces d n pos) (hends : SinkCursor.EndsBuffer d pos) :
    ¬d.Reassembles start n pos := by
  rintro ⟨rounds, hall⟩
  obtain ⟨-, first, hloop⟩ := hleads
  obtain ⟨r, hentry, -⟩ := hall (first + rounds) (by omega)
  rw [hloop rounds] at hentry
  have hcount := (hfaces.loop_stuck hends hint rounds).entries
  rw [List.getElem?_eq_none hcount.le] at hentry
  simp at hentry

/-- The staging buffers are not overrun, and entries that lie in two receive
buffers are put together, exactly for the datagrams of which `Stages` holds. -/
theorem staged_safely_iff
    {d : Received} (hint : d.bytes.length + 8 ≤ 2 ^ 31)
    (headerTemp tempBufferEntry : List UInt8) (entrySize : UInt32) :
    d.StagedSafely (d.start headerTemp tempBufferEntry entrySize) ↔
      d.Stages := by
  have hstart := d.start_due headerTemp tempBufferEntry entrySize
  constructor
  · rintro ⟨hcopies, hspans⟩ n pos hheader hpos
    obtain ⟨c, hdue, hleads⟩ :=
      SinkCursor.exists_leads_due hint hstart hheader hpos
    rcases hdue.stageable hpos hint (hleads.1 hcopies) with
      hstage | ⟨hpreamble, hends, hcomplete⟩
    · exact hstage
    · exfalso
      have hend := hends.atEnd
      have hmore := hends.more
      have hpromised := hends.promised
      have hfilled := d.filled_zero
      have hacross : ∃ k, pos < k * d.rcvBufSize ∧
          k * d.rcvBufSize < pos + 8 + (d.sizeAt pos).toNat :=
        ⟨1, by omega, by omega⟩
      exact not_reassembles_stuck (by omega)
        (hleads.placed hdue.placed hpos)
        (hdue.round_preamble hend.le hpreamble hint) hends
        (hspans n pos ⟨hheader.mono (by omega), hpreamble, hcomplete,
          hacross⟩)
  · intro hstages
    refine ⟨hstart.copiesInside hint hstages .start, ?_⟩
    intro n pos hspans
    exact absurd hspans hstages.not_spans

/-- The header of an entry at the start of a datagram. -/
theorem header_at_start
    {d : Received} {size : UInt32} {rest : List UInt8}
    (hbytes : d.bytes = clientHeader size ++ rest) :
    d.isPreamble 0 ∧ d.sizeAt 0 = size := by
  constructor
  · unfold isPreamble
    rw [hbytes, List.drop_zero, take_clientHeader]
  · unfold sizeAt
    rw [hbytes, List.drop_zero, getSize_clientHeader]

theorem staged_safely_one_entry :
    let d : Received := ⟨131072, clientHeader 2 ++ [7, 9]⟩
    d.StagedSafely (d.start [] [] 0) := by
  intro d
  have hlength : d.bytes.length = 10 := rfl
  have hfilled : d.filled 0 = 10 := by
    rw [filled_zero, hlength]
    rfl
  have hbytes : d.bytes = clientHeader 2 ++ [7, 9] := rfl
  obtain ⟨hpreamble, hsize⟩ := header_at_start hbytes
  have htwo : (d.sizeAt 0).toNat = 2 := by
    rw [hsize]
    rfl
  refine (staged_safely_iff (d := d) (by omega) [] [] 0).mpr ?_
  intro n pos hheader hpos
  have hzero : pos = 0 := by
    induction hheader with
    | start => rfl
    | @other n before hearlier hinside hother ih =>
        obtain rfl := ih (by omega)
        exact absurd hpreamble hother
    | @entry n before hearlier hinside hpreamble ih =>
        obtain rfl := ih (by omega)
        omega
  subst hzero
  unfold Stageable
  rw [if_neg (by omega), if_pos ((wordAt_prefix_iff (by omega)).mpr hpreamble)]
  exact ⟨by omega, Or.inl (by omega)⟩

/-- An entry at the start of a datagram that does not end in the first buffer
overruns it, or the staging buffer. -/
theorem not_stagedSafely_of_cut
    {d : Received} (hint : d.bytes.length + 8 ≤ 2 ^ 31) {size : UInt32}
    {rest : List UInt8} (hbytes : d.bytes = clientHeader size ++ rest)
    (hpart : 8 < d.filled 0) (hcut : d.filled 0 < 8 + size.toNat)
    (hlong : d.rcvBufSize < d.bytes.length ∨
      8 + greaseMaxMessageSize < d.bytes.length)
    (headerTemp tempBufferEntry : List UInt8) (entrySize : UInt32) :
    ¬d.StagedSafely (d.start headerTemp tempBufferEntry entrySize) := by
  rintro ⟨hcopies, -⟩
  have hfilled := d.filled_zero
  obtain ⟨hpreamble, hsize⟩ := header_at_start hbytes
  rw [← hsize] at hcut
  rcases (d.start_due headerTemp tempBufferEntry entrySize).stageable
    (by omega) hint hcopies with hstage | ⟨-, hends, -⟩
  · unfold Stageable at hstage
    rw [if_neg (by omega),
      if_pos ((wordAt_prefix_iff (by omega)).mpr hpreamble)] at hstage
    omega
  · have hend := hends.atEnd
    omega

/-- A header that promises more than the 65536 bytes behind it. -/
def cutEntry : Received where
  rcvBufSize := 131072
  bytes := clientHeader 100000 ++ List.replicate 65536 7

/-- An entry that lies in two receive buffers. -/
def splitEntry : Received where
  rcvBufSize := 131072
  bytes := clientHeader 140000 ++ List.replicate 140000 7

/-- The same with receive buffers of half the size. -/
def splitShortEntry : Received where
  rcvBufSize := 65536
  bytes := clientHeader 70000 ++ List.replicate 70000 7

/-- With receive buffers of the usual size, the first of these datagrams
overruns the staging buffer, and the second one is not put together; nor is the
third one, with the size the program asks for. -/
theorem staging_overrun :
    ¬cutEntry.StagedSafely (cutEntry.start [] [] 0) ∧
      ¬splitEntry.StagedSafely (splitEntry.start [] [] 0) ∧
      ¬splitShortEntry.StagedSafely (splitShortEntry.start [] [] 0) := by
  have hlength : ∀ (size : UInt32) (n : ℕ),
      (clientHeader size ++ List.replicate n (7 : UInt8)).length = 8 + n := by
    intro size n
    rw [List.length_append, length_clientHeader, List.length_replicate]
    rfl
  have hcut : cutEntry.bytes.length = 65544 := hlength 100000 65536
  have hsplit : splitEntry.bytes.length = 140008 := hlength 140000 140000
  have hshort : splitShortEntry.bytes.length = 70008 := hlength 70000 70000
  refine ⟨?_, ?_, ?_⟩
  · refine not_stagedSafely_of_cut (by omega) rfl ?_ ?_ ?_ [] [] 0
    · rw [filled_zero, hcut]
      decide
    · rw [filled_zero, hcut]
      decide
    · rw [hcut]
      decide
  · refine not_stagedSafely_of_cut (by omega) rfl ?_ ?_ ?_ [] [] 0
    · rw [filled_zero, hsplit]
      decide
    · rw [filled_zero, hsplit]
      decide
    · rw [hsplit]
      decide
  · refine not_stagedSafely_of_cut (by omega) rfl ?_ ?_ ?_ [] [] 0
    · rw [filled_zero, hshort]
      decide
    · rw [filled_zero, hshort]
      decide
    · rw [hshort]
      decide

end Received

end GreaseLog
