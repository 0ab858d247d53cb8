import GreaseLog.SinkRoundTrip

/-!
# Decoding of arbitrary datagrams

Whatever a datagram that fits one receive buffer holds, the loop of the sink
comes to an end, and what it passes to `logFromRaw` are parts of the datagram.
While the loop goes on the cursors agree.  A header, a ping or a bad word takes
eight bytes, and an entry takes a round without bytes at most, so that two
rounds always make progress.
-/

namespace GreaseLog

/-! ## Headers -/

theorem eq_clientHeader
    {bytes : List UInt8} (hlength : bytes.length = 8)
    (hpreamble : bytes.take 4 = LittleEndian.store 4 sinkLogPreamble.toNat) :
    bytes = clientHeader (SinkCursor.getSizeFromPreamble bytes) := by
  have hsize : (bytes.drop 4).take 4 = bytes.drop 4 := by
    apply List.take_of_length_le
    rw [List.length_drop, hlength]
  have hfour : (bytes.drop 4).length = 4 := by
    rw [List.length_drop, hlength]
  have hstore := LittleEndian.store_load (bytes.drop 4)
  rw [hfour] at hstore
  have hbound : LittleEndian.load (bytes.drop 4) < 2 ^ 32 := by
    have hmod := LittleEndian.load_store 4 (LittleEndian.load (bytes.drop 4))
    rw [hstore] at hmod
    rw [hmod]
    exact Nat.mod_lt _ (by norm_num)
  have hword : (SinkCursor.getSizeFromPreamble bytes).toNat =
      LittleEndian.load (bytes.drop 4) := by
    unfold SinkCursor.getSizeFromPreamble
    rw [hsize, UInt32.toNat_ofNat']
    exact Nat.mod_eq_of_lt hbound
  have hheader : clientHeader (SinkCursor.getSizeFromPreamble bytes) =
      LittleEndian.store 4 sinkLogPreamble.toNat ++
        LittleEndian.store 4 (LittleEndian.load (bytes.drop 4)) := by
    simp [clientHeader, LittleEndian.storeRecord, hword]
  rw [hheader, hstore, ← hpreamble, List.take_append_drop]

/-! ## Slices -/

/-- Where the memory of an entry begins in the receive buffer. -/
def RawEntry.offset (r : RawEntry) (d : Received) : ℕ :=
  (d.buffer 0).length - r.base.length

/-- The entry is a slice of the received bytes behind a header that names its
size. -/
structure RawEntry.Slice (r : RawEntry) (d : Received) : Prop where
  base : r.base = (d.buffer 0).drop (r.offset d)
  behind : greaseClientHeaderSize ≤ r.offset d
  inside : r.offset d + r.len.toNat ≤ d.bytes.length
  header : (d.bytes.drop (r.offset d - greaseClientHeaderSize)).take
    greaseClientHeaderSize = clientHeader r.len

/-- Slices one behind the other, each with its header in between. -/
structure Received.Slices (d : Received) (entries : List RawEntry)
    (bound : ℕ) : Prop where
  slice : ∀ r ∈ entries, r.Slice d
  below : ∀ r ∈ entries, r.offset d + r.len.toNat ≤ bound
  disjoint : entries.Pairwise fun r r' =>
    r.offset d + r.len.toNat + greaseClientHeaderSize ≤ r'.offset d

namespace Received

variable {d : Received} {entries : List RawEntry} {bound bound' : ℕ}

theorem Slices.mono (h : d.Slices entries bound) (hle : bound ≤ bound') :
    d.Slices entries bound' :=
  ⟨h.slice, fun r hr => (h.below r hr).trans hle, h.disjoint⟩

theorem Slices.concat
    (h : d.Slices entries bound) {r : RawEntry} (hr : r.Slice d)
    (hbehind : bound + greaseClientHeaderSize ≤ r.offset d) :
    d.Slices (entries ++ [r]) (r.offset d + r.len.toNat) := by
  constructor
  · intro r' hr'
    rcases List.mem_append.mp hr' with hold | hnew
    · exact h.slice r' hold
    · rw [List.mem_singleton.mp hnew]
      exact hr
  · intro r' hr'
    rcases List.mem_append.mp hr' with hold | hnew
    · have hbelow := h.below r' hold
      omega
    · rw [List.mem_singleton.mp hnew]
  · rw [List.pairwise_append]
    refine ⟨h.disjoint, List.pairwise_singleton _ _, ?_⟩
    intro r' hr' r'' hr''
    rw [List.mem_singleton.mp hr'']
    have hbelow := h.below r' hr'
    omega

end Received

namespace SinkCursor

/-! ## While the loop goes on -/

/-- The cursors stand at `pos`, in the only buffer, and nothing is staged. -/
structure Walks (c : SinkCursor) (d : Received) (pos : ℕ) : Prop where
  walk : c.walk = pos
  walkBuf : c.walkBuf = pos
  remain : c.remain = d.recvCnt - pos
  remainInBuf : c.remainInBuf = d.recvCnt - pos
  iovN : c.iovN = 0
  tempBufferWalk : c.tempBufferWalk = 0
  overflowed : c.overflowed = false

/-- Between two entries the slices end at the cursor; in front of an entry
there is its header behind them. -/
inductive Between (c : SinkCursor) (d : Received) (pos : ℕ) : Prop where
  | needPreamble (hstate : c.state = .needPreamble)
      (hslices : d.Slices c.entries pos)
  | inLog (hstate : c.state = .inLog) (hbehind : greaseClientHeaderSize ≤ pos)
      (hheader : (d.bytes.drop (pos - greaseClientHeaderSize)).take
        greaseClientHeaderSize = clientHeader c.entrySize)
      (hslices : d.Slices c.entries (pos - greaseClientHeaderSize))

/-- The bytes that are left, and one more round in front of an entry. -/
def measure (c : SinkCursor) (d : Received) : ℕ :=
  2 * (d.recvCnt - c.walk).toNat + if c.state = .inLog then 1 else 0

/-- What a round leaves behind: the end of the loop, or less work. -/
inductive Goes (c c' : SinkCursor) (d : Received) : Prop where
  | ends (hwalk : d.recvCnt ≤ c'.walk)
      (hslices : d.Slices c'.entries d.bytes.length)
  | continues (pos : ℕ) (hpos : pos < d.bytes.length) (hwalks : c'.Walks d pos)
      (hbetween : c'.Between d pos) (hless : c'.measure d < c.measure d)

variable {c : SinkCursor} {d : Received} {pos : ℕ}

theorem sdWalk_walk
    (hwalks : c.Walks d pos) (n : ℕ) (hint : pos + n < 2 ^ 31) :
    (c.sdWalk n).walk = (pos + n : ℕ) := by
  change toInt (c.walk + n) = _
  rw [hwalks.walk]
  exact toInt_walk (by omega)

theorem Walks.sdWalk
    (hwalks : c.Walks d pos) (n : ℕ) (hinside : pos + n ≤ d.bytes.length)
    (hint : d.recvCnt < 2 ^ 31) :
    (c.sdWalk n).Walks d (pos + n) := by
  have hcnt : d.recvCnt = d.bytes.length := rfl
  have hadd : toInt ((pos : ℤ) + n) = ((pos + n : ℕ) : ℤ) :=
    toInt_walk (by omega)
  have hsub : toInt (d.recvCnt - pos - n) = d.recvCnt - ((pos + n : ℕ) : ℤ) :=
    toInt_remain hint (by omega)
  constructor
  · change toInt (c.walk + n) = _
    rw [hwalks.walk, hadd]
  · change toInt (c.walkBuf + n) = _
    rw [hwalks.walkBuf, hadd]
  · change toInt (c.remain - n) = _
    rw [hwalks.remain, hsub]
  · change toInt (c.remainInBuf - n) = _
    rw [hwalks.remainInBuf, hsub]
  · exact hwalks.iovN
  · exact hwalks.tempBufferWalk
  · exact hwalks.overflowed

theorem Walks.memory_eq
    (hwalks : c.Walks d pos) (hpos : pos ≤ d.bytes.length)
    (hfits : d.bytes.length ≤ d.rcvBufSize) :
    ∃ zeros, c.memory d = d.bytes.drop pos ++ zeros := by
  rcases Received.buffer_zero hfits with ⟨zeros, hbuffer⟩
  refine ⟨zeros, ?_⟩
  unfold memory
  rw [hwalks.iovN, hwalks.walkBuf, hbuffer, Int.toNat_natCast,
    List.drop_append_of_le_length hpos]

theorem Walks.measure_eq (hwalks : c.Walks d pos) :
    c.measure d = 2 * (d.bytes.length - pos) +
      if c.state = .inLog then 1 else 0 := by
  have hcnt : d.recvCnt = d.bytes.length := rfl
  unfold measure
  rw [hwalks.walk, hcnt]
  congr 2
  omega

/-- Eight bytes are taken between two entries, for a header or for something
that is none. -/
theorem goes_header
    {c₁ : SinkCursor} (hwalks : c.Walks d pos) (hwalks₁ : c₁.Walks d pos)
    (hpos : pos < d.bytes.length) (hint : d.bytes.length + 8 ≤ 2 ^ 31)
    (hslices : d.Slices c₁.entries pos)
    (hstate : c₁.state = .needPreamble ∨ c₁.state = .inLog ∧
      (pos + 8 < d.bytes.length →
        (d.bytes.drop pos).take 8 = clientHeader c₁.entrySize)) :
    c.Goes (c₁.sdWalk greaseClientHeaderSize) d := by
  have height : greaseClientHeaderSize = 8 := rfl
  have hcnt : d.recvCnt = d.bytes.length := rfl
  have hwalk := sdWalk_walk hwalks₁ greaseClientHeaderSize (by omega)
  by_cases hmore : pos + 8 < d.bytes.length
  · have hnext := hwalks₁.sdWalk greaseClientHeaderSize (by omega) (by omega)
    refine .continues (pos + greaseClientHeaderSize) hmore hnext ?_ ?_
    · rcases hstate with hneed | ⟨hlog, hheader⟩
      · exact .needPreamble hneed (hslices.mono (by omega))
      · refine .inLog hlog (by omega) ?_ ?_
        · rw [Nat.add_sub_cancel]
          exact hheader hmore
        · rw [Nat.add_sub_cancel]
          exact hslices
    · rw [hnext.measure_eq, hwalks.measure_eq]
      split <;> omega
  · refine .ends ?_ (hslices.mono hpos.le)
    rw [hwalk]
    omega

theorem Walks.touch (hwalks : c.Walks d pos) (n : ℤ) :
    (c.touch d n).Walks d pos :=
  ⟨hwalks.walk, hwalks.walkBuf, hwalks.remain, hwalks.remainInBuf, hwalks.iovN,
    hwalks.tempBufferWalk, hwalks.overflowed⟩

theorem Walks.take_memory
    (hwalks : c.Walks d pos) (hfits : d.bytes.length ≤ d.rcvBufSize) {n : ℕ}
    (hinside : pos + n ≤ d.bytes.length) :
    (c.memory d).take n = (d.bytes.drop pos).take n := by
  rcases hwalks.memory_eq (by omega) hfits with ⟨zeros, hmemory⟩
  rw [hmemory, List.take_append_of_le_length]
  rw [List.length_drop]
  omega

/-- The size is read from the eight bytes of the header. -/
theorem getSizeFromPreamble_take (bytes : List UInt8) :
    getSizeFromPreamble (bytes.take 8) = getSizeFromPreamble bytes := by
  unfold getSizeFromPreamble
  rw [List.drop_take, List.take_take, Nat.min_self]

theorem goes_needPreamble
    (hwalks : c.Walks d pos) (hpos : pos < d.bytes.length)
    (hfits : d.bytes.length ≤ d.rcvBufSize)
    (hint : d.bytes.length + 8 ≤ 2 ^ 31) (hstate : c.state = .needPreamble)
    (hslices : d.Slices c.entries pos) :
    c.Goes (c.needPreamble d) d := by
  have hcnt : d.recvCnt = d.bytes.length := rfl
  unfold needPreamble
  split
  · have hwalks₁ := hwalks.touch 4
    dsimp only
    split
    · rcases goes_header (c := c) hwalks hwalks₁ hpos hint hslices
        (Or.inl hstate) with ⟨hwalk, hend⟩ | ⟨pos', hpos', hnext, hmid, hless⟩
      · exact .ends hwalk hend
      · refine .continues pos' hpos' ⟨hnext.walk, hnext.walkBuf, hnext.remain,
          hnext.remainInBuf, hnext.iovN, hnext.tempBufferWalk,
          hnext.overflowed⟩ ?_ hless
        rcases hmid with ⟨hneed, hsl⟩ | ⟨hlog, hbehind, hheader, hsl⟩
        · exact .needPreamble hneed hsl
        · exact .inLog hlog hbehind hheader hsl
    · split
      · rename_i hword
        have hwalks₂ := hwalks₁.touch 8
        refine goes_header hwalks ⟨hwalks₂.walk, hwalks₂.walkBuf,
          hwalks₂.remain, hwalks₂.remainInBuf, hwalks₂.iovN,
          hwalks₂.tempBufferWalk, hwalks₂.overflowed⟩ hpos hint hslices
          (Or.inr ⟨rfl, ?_⟩)
        intro hmore
        have hmemory := hwalks.take_memory hfits hmore.le
        have hfour : ((d.bytes.drop pos).take 8).take 4 =
            LittleEndian.store 4 sinkLogPreamble.toNat := by
          rw [← hmemory, List.take_take]
          exact eq_of_beq hword
        have height : ((d.bytes.drop pos).take 8).length = 8 := by
          rw [List.length_take, List.length_drop]
          omega
        rw [eq_clientHeader height hfour, ← hmemory, getSizeFromPreamble_take]
        rfl
      · exact goes_header hwalks ⟨hwalks₁.walk, hwalks₁.walkBuf,
          hwalks₁.remain, hwalks₁.remainInBuf, hwalks₁.iovN,
          hwalks₁.tempBufferWalk, hwalks₁.overflowed⟩ hpos hint hslices
          (Or.inl rfl)
  · refine .ends ?_ (hslices.mono hpos.le)
    change d.recvCnt ≤ toInt (c.walk + c.remain)
    rw [hwalks.walk, hwalks.remain, toInt_of_range (by omega) (by omega)]
    omega

theorem goes_inLog
    (hwalks : c.Walks d pos) (hpos : pos < d.bytes.length)
    (hfits : d.bytes.length ≤ d.rcvBufSize)
    (hint : d.bytes.length + 8 ≤ 2 ^ 31) (hstate : c.state = .inLog)
    (hbehind : greaseClientHeaderSize ≤ pos)
    (hheader : (d.bytes.drop (pos - greaseClientHeaderSize)).take
      greaseClientHeaderSize = clientHeader c.entrySize)
    (hslices : d.Slices c.entries (pos - greaseClientHeaderSize)) :
    c.Goes (c.inLog d) d := by
  have hcnt : d.recvCnt = d.bytes.length := rfl
  unfold inLog
  rw [if_pos hwalks.tempBufferWalk]
  split
  · rename_i hsize
    have hinside : pos + c.entrySize.toNat ≤ d.bytes.length := by
      rw [hwalks.remainInBuf] at hsize
      omega
    have hoffset : (RawEntry.mk (c.memory d) c.entrySize).offset d = pos := by
      rcases Received.buffer_zero hfits with ⟨zeros, hbuffer⟩
      have hlength : d.bytes.length ≤ (d.buffer 0).length := by
        rw [hbuffer, List.length_append]
        omega
      unfold RawEntry.offset memory
      rw [hwalks.iovN, hwalks.walkBuf, Int.toNat_natCast, List.length_drop]
      omega
    have hslice : (RawEntry.mk (c.memory d) c.entrySize).Slice d := by
      refine ⟨?_, ?_, ?_, ?_⟩
      · rw [hoffset]
        unfold memory
        rw [hwalks.iovN, hwalks.walkBuf, Int.toNat_natCast]
      · rw [hoffset]
        exact hbehind
      · rw [hoffset]
        exact hinside
      · rw [hoffset]
        exact hheader
    have hall := hslices.concat hslice (by rw [hoffset]; omega)
    rw [hoffset] at hall
    have hwalks₁ : Walks { c.touch d c.entrySize.toNat with
        entries := c.entries ++ [RawEntry.mk (c.memory d) c.entrySize]
        state := .needPreamble } d pos :=
      ⟨hwalks.walk, hwalks.walkBuf, hwalks.remain, hwalks.remainInBuf,
        hwalks.iovN, hwalks.tempBufferWalk, hwalks.overflowed⟩
    have hnext := hwalks₁.sdWalk c.entrySize.toNat hinside (by omega)
    by_cases hmore : pos + c.entrySize.toNat < d.bytes.length
    · refine .continues _ hmore hnext (.needPreamble rfl hall) ?_
      rw [hnext.measure_eq, hwalks.measure_eq,
        if_neg (fun hlog => SinkState.noConfusion hlog), if_pos hstate]
      omega
    · refine .ends ?_ (hall.mono hinside)
      rw [hnext.walk]
      omega
  · refine .ends ?_ (hslices.mono (by omega))
    change d.recvCnt ≤ toInt (c.walk + c.remainInBuf)
    rw [hwalks.walk, hwalks.remainInBuf, toInt_of_range (by omega) (by omega)]
    omega

theorem goes_round
    (hwalks : c.Walks d pos) (hpos : pos < d.bytes.length)
    (hfits : d.bytes.length ≤ d.rcvBufSize)
    (hint : d.bytes.length + 8 ≤ 2 ^ 31) (hbetween : c.Between d pos) :
    c.Goes (c.round d) d := by
  have hcnt : d.recvCnt = d.bytes.length := rfl
  have hlt : c.walkBuf < d.recvCnt := by
    rw [hwalks.walkBuf]
    omega
  rw [round_of_lt hlt hwalks.overflowed]
  rcases hbetween with ⟨hstate, hslices⟩ | ⟨hstate, hbehind, hheader, hslices⟩
  · rw [hstate]
    exact goes_needPreamble hwalks hpos hfits hint hstate hslices
  · rw [hstate]
    exact goes_inLog hwalks hpos hfits hint hstate hbehind hheader hslices

/-! ## Whole runs of the loop -/

theorem loop_ends
    (hfits : d.bytes.length ≤ d.rcvBufSize)
    (hint : d.bytes.length + 8 ≤ 2 ^ 31) (hwalks : c.Walks d pos)
    (hpos : pos < d.bytes.length) (hbetween : c.Between d pos) {rounds : ℕ}
    (hrounds : c.measure d ≤ rounds) :
    d.recvCnt ≤ (loop d rounds c).walk ∧
      d.Slices (loop d rounds c).entries d.bytes.length := by
  induction rounds generalizing c pos with
  | zero =>
      rw [hwalks.measure_eq] at hrounds
      omega
  | succ rounds ih =>
      have hcnt : d.recvCnt = d.bytes.length := rfl
      have hlt : c.walk < d.recvCnt := by
        rw [hwalks.walk]
        omega
      rw [loop_of_lt rounds hlt hwalks.overflowed]
      rcases goes_round hwalks hpos hfits hint hbetween with
        ⟨hwalk, hslices⟩ | ⟨pos', hpos', hnext, hmid, hless⟩
      · rw [loop_of_ge rounds hwalk]
        exact ⟨hwalk, hslices⟩
      · exact ih hnext hpos' hmid (by omega)

end SinkCursor

/-- The loop ends on every datagram that fits one buffer, and every entry it
passes on is a slice of the datagram behind a header with its size; the slices
follow one another. -/
theorem sink_stays_inside
    {rcvBufSize : ℕ} (hint : rcvBufSize + 8 ≤ 2 ^ 31) (bytes : List UInt8)
    (hfits : bytes.length ≤ rcvBufSize)
    (headerTemp tempBufferEntry : List UInt8) (entrySize : UInt32) :
    ∃ rounds, ∀ more, rounds ≤ more →
      let d : Received := ⟨rcvBufSize, bytes⟩
      let c := SinkCursor.loop d more
        (d.start headerTemp tempBufferEntry entrySize)
      d.recvCnt ≤ c.walk ∧ (∀ r ∈ c.entries, r.Slice d) ∧
        c.entries.Pairwise fun r r' =>
          r.offset d + r.len.toNat ≤ r'.offset d := by
  refine ⟨2 * bytes.length, ?_⟩
  intro more hmore d c
  have hone : ¬(d.rcvBufSize : ℤ) < d.recvCnt := by
    change ¬(rcvBufSize : ℤ) < bytes.length
    omega
  have hstart : (d.start headerTemp tempBufferEntry entrySize).Walks d 0 := by
    constructor <;> simp [Received.start, hone]
  have hnone : d.Slices [] 0 :=
    ⟨by simp, by simp, List.Pairwise.nil⟩
  by_cases hempty : bytes.length = 0
  · have hend : d.recvCnt ≤
        (d.start headerTemp tempBufferEntry entrySize).walk := by
      change ((bytes.length : ℕ) : ℤ) ≤ 0
      omega
    have hloop : c = d.start headerTemp tempBufferEntry entrySize :=
      SinkCursor.loop_of_ge more hend
    rw [hloop]
    exact ⟨hend, hnone.slice, List.Pairwise.nil⟩
  · have hrounds : (d.start headerTemp tempBufferEntry entrySize).measure d ≤
        more := by
      rw [hstart.measure_eq, if_neg (by simp [Received.start])]
      exact hmore
    have hloop := SinkCursor.loop_ends (d := d) hfits
      (hint.trans' (by change bytes.length + 8 ≤ _; omega)) hstart
      (Nat.pos_of_ne_zero hempty) (.needPreamble rfl hnone) hrounds
    refine ⟨hloop.1, hloop.2.slice, hloop.2.disjoint.imp ?_⟩
    intro r r' hle
    omega

/-- A header that promises more than there is, a ping that is cut off, a header
with no bytes behind it, and one entry. -/
theorem sink_stays_inside_malformed :
    ∃ rounds, ∀ more, rounds ≤ more →
      let d : Received := ⟨131072, clientHeader 0 ++ clientHeader 2 ++
        [7, 9] ++ clientHeader 0xFFFFFFFF ++ [13, 240, 13]⟩
      let c := SinkCursor.loop d more (d.start [] [] 0)
      d.recvCnt ≤ c.walk ∧ (∀ r ∈ c.entries, r.Slice d) ∧
        c.entries.Pairwise fun r r' =>
          r.offset d + r.len.toNat ≤ r'.offset d :=
  sink_stays_inside (by norm_num) _
    (by simp [length_clientHeader, greaseClientHeaderSize]) [] [] 0

end GreaseLog
