import GreaseLog.UnixDgramSink

/-!
# Messages survive the trip through the sink

A datagram that consists of messages as `grease_logToSink` sends them, and
that fits one receive buffer, is taken apart into exactly these messages.  The
loop needs two rounds for each message: between messages the four cursors
agree, and nothing of the texts is ever looked at.
-/

namespace GreaseLog

/-- A message of a client, with the padding its structure happens to have. -/
structure ClientMessage where
  m : LogMeta
  padding : UInt32
  text : List UInt8
  deriving DecidableEq, Repr

namespace ClientMessage

def encode (msg : ClientMessage) : List UInt8 :=
  logToSink msg.m msg.padding msg.text

def Sendable (msg : ClientMessage) : Prop :=
  1 ≤ msg.text.length ∧ msg.text.length ≤ greaseMaxMessageSize

def size (msg : ClientMessage) : UInt32 :=
  UInt32.ofNat (msg.text.length + sizeofLogMeta)

theorem Sendable.size_toNat
    {msg : ClientMessage} (hsendable : msg.Sendable) :
    msg.size.toNat = msg.text.length + sizeofLogMeta := by
  have hmax := hsendable.2
  unfold greaseMaxMessageSize at hmax
  unfold size
  rw [UInt32.toNat_ofNat']
  exact Nat.mod_eq_of_lt (by unfold sizeofLogMeta; omega)

theorem length_encode (msg : ClientMessage) :
    msg.encode.length = 88 + msg.text.length := by
  unfold encode
  rw [length_logToSink]
  rfl

theorem encode_eq (msg : ClientMessage) :
    msg.encode = clientHeader msg.size ++
      (msg.m.bytes msg.padding ++ msg.text) := by
  simp [encode, logToSink, size]

end ClientMessage

def encodeAll (msgs : List ClientMessage) : List UInt8 :=
  msgs.flatMap ClientMessage.encode

theorem encodeAll_cons (msg : ClientMessage) (rest : List ClientMessage) :
    encodeAll (msg :: rest) = msg.encode ++ encodeAll rest := rfl

/-! ## Reading the header -/

theorem take_clientHeader (size : UInt32) (rest : List UInt8) :
    (clientHeader size ++ rest).take 4 =
      LittleEndian.store 4 sinkLogPreamble.toNat := by
  have hsplit : clientHeader size ++ rest =
      LittleEndian.store 4 sinkLogPreamble.toNat ++
        (LittleEndian.store 4 size.toNat ++ rest) := by
    simp [clientHeader, LittleEndian.storeRecord]
  rw [hsplit]
  exact List.take_left' (LittleEndian.length_store _ _)

theorem getSize_clientHeader (size : UInt32) (rest : List UInt8) :
    SinkCursor.getSizeFromPreamble (clientHeader size ++ rest) = size := by
  have hsplit : clientHeader size ++ rest =
      LittleEndian.store 4 sinkLogPreamble.toNat ++
        (LittleEndian.store 4 size.toNat ++ rest) := by
    simp [clientHeader, LittleEndian.storeRecord]
  unfold SinkCursor.getSizeFromPreamble
  rw [hsplit, List.drop_left' (LittleEndian.length_store _ _),
    List.take_left' (LittleEndian.length_store _ _),
    LittleEndian.load_store]
  have hmod : size.toNat % 256 ^ 4 = size.toNat :=
    Nat.mod_eq_of_lt size.toNat_lt
  rw [hmod, UInt32.ofNat_toNat]

theorem ping_ne_preamble :
    LittleEndian.store 4 sinkLogPreamble.toNat ≠
      LittleEndian.store 4 sinkLogPing.toNat := by
  decide

/-! ## Between two messages -/

/-- The entry the loop hands over for a message with `after` behind it in the
buffer. -/
def ClientMessage.entry (msg : ClientMessage) (after : List UInt8) :
    RawEntry where
  base := msg.m.bytes msg.padding ++ msg.text ++ after
  len := msg.size

theorem ClientMessage.logFromRaw_entry
    (msg : ClientMessage) (hlen : msg.text.length + 80 < 2 ^ 31)
    (after : List UInt8) :
    (msg.entry after).logFromRaw =
      if msg.text = [] then none else some (msg.m, msg.text) := by
  have hsize : msg.size.toNat = msg.text.length + 80 := by
    unfold size
    rw [UInt32.toNat_ofNat']
    exact Nat.mod_eq_of_lt (by unfold sizeofLogMeta; omega)
  have hlenInt : toInt msg.size.toNat = (msg.text.length + 80 : ℤ) := by
    rw [hsize, toInt_of_range] <;> push_cast <;> omega
  have hrest : toInt ((msg.text.length + 80 : ℤ) - (sizeofLogMeta : ℕ)) =
      msg.text.length := by
    unfold sizeofLogMeta
    rw [toInt_of_range] <;> push_cast <;> omega
  have hmeta : (msg.m.bytes msg.padding).length = sizeofLogMeta :=
    msg.m.length_bytes msg.padding
  have hdecode : LogMeta.ofBytes ((msg.entry after).base.take sizeofLogMeta) =
      msg.m := by
    unfold ClientMessage.entry
    rw [List.append_assoc, List.take_left' hmeta]
    have hround := msg.m.ofBytes_bytes msg.padding []
    rwa [List.append_nil] at hround
  have htext : ((msg.entry after).base.drop sizeofLogMeta).take
      msg.text.length = msg.text := by
    unfold ClientMessage.entry
    rw [List.append_assoc, List.drop_left' hmeta]
    exact List.take_left
  have hentry : (msg.entry after).len = msg.size := rfl
  unfold RawEntry.logFromRaw
  rw [hentry, hlenInt, if_pos (Or.inr (by
    unfold greaseRawbufMinSize sizeofLogMeta; push_cast; omega))]
  simp only [hrest]
  by_cases hnil : msg.text = []
  · rw [if_pos hnil, if_neg (by simp [hnil])]
  · have hpos : 0 < msg.text.length := List.length_pos_iff.mpr hnil
    rw [if_neg hnil, if_pos (by omega), hdecode, Int.toNat_natCast, htext]

/-- All cursors stand at `pos` in the only buffer, and nothing is staged. -/
structure SinkCursor.At (c : SinkCursor) (d : Received) (pos : ℕ)
    (state : SinkState) : Prop where
  state : c.state = state
  walk : c.walk = pos
  walkBuf : c.walkBuf = pos
  remain : c.remain = d.recvCnt - pos
  remainInBuf : c.remainInBuf = d.recvCnt - pos
  iovN : c.iovN = 0
  tempBufferWalk : c.tempBufferWalk = 0
  pings : c.pings = 0
  outside : c.outside = false
  overflowed : c.overflowed = false

theorem Received.buffer_zero
    {d : Received} (hfits : d.bytes.length ≤ d.rcvBufSize) :
    ∃ zeros, d.buffer 0 = d.bytes ++ zeros := by
  refine ⟨List.replicate (d.rcvBufSize - d.bytes.length) 0, ?_⟩
  unfold Received.buffer
  simp [List.take_of_length_le hfits]

theorem SinkCursor.touch_inside
    {c : SinkCursor} {d : Received} {n : ℤ}
    (hlow : 0 ≤ c.walkBuf) (hn : 0 ≤ n)
    (hhigh : c.walkBuf + n ≤ (d.buffer c.iovN).length) :
    c.touch d n = c := by
  unfold touch
  have hinside : decide (0 ≤ c.walkBuf ∧ 0 ≤ n ∧
      c.walkBuf + n ≤ (d.buffer c.iovN).length) = true :=
    decide_eq_true ⟨hlow, hn, hhigh⟩
  rw [hinside]
  simp

theorem SinkCursor.round_of_lt
    {c : SinkCursor} {d : Received} (hlt : c.walkBuf < d.recvCnt)
    (hoverflowed : c.overflowed = false) :
    c.round d = match c.state with
      | .needPreamble => c.needPreamble d
      | .inPreamble => c.inPreamble d
      | .inLog => c.inLog d := by
  have hnext : c.nextBuffer d = c := by
    unfold nextBuffer
    rw [if_neg (by omega)]
  unfold round
  simp only [hnext]
  cases c.state <;> exact if_neg (by simp [hoverflowed])

theorem SinkCursor.At.memory_eq
    {c : SinkCursor} {d : Received} {before after : List UInt8}
    {state : SinkState} (hbytes : d.bytes = before ++ after)
    (hfits : d.bytes.length ≤ d.rcvBufSize)
    (hat : c.At d before.length state) :
    ∃ zeros, c.memory d = after ++ zeros ∧
      (d.buffer c.iovN).length = before.length + (after ++ zeros).length := by
  rcases Received.buffer_zero hfits with ⟨zeros, hbuffer⟩
  refine ⟨zeros, ?_, ?_⟩
  · unfold memory
    rw [hat.iovN, hat.walkBuf, hbuffer, hbytes, Int.toNat_natCast,
      List.append_assoc]
    exact List.drop_left
  · rw [hat.iovN, hbuffer, hbytes]
    simp only [List.length_append]
    omega

/-- The walk over a datagram does not overflow. -/
theorem toInt_walk {pos n : ℕ} (hint : (pos + n : ℤ) < 2 ^ 31) :
    toInt ((pos : ℤ) + n) = ((pos + n : ℕ) : ℤ) := by
  rw [toInt_of_range (by omega) (by omega)]
  push_cast
  rfl

theorem toInt_remain
    {cnt : ℤ} {pos n : ℕ} (hint : cnt < 2 ^ 31) (hn : (pos + n : ℤ) ≤ cnt) :
    toInt (cnt - pos - n) = cnt - ((pos + n : ℕ) : ℤ) := by
  rw [toInt_of_range (by omega) (by omega)]
  push_cast
  ring

theorem SinkCursor.At.sdWalk
    {c : SinkCursor} {d : Received} {pos n : ℕ} {state : SinkState}
    (hat : c.At d pos state) (hint : d.recvCnt < 2 ^ 31)
    (hn : (pos + n : ℤ) ≤ d.recvCnt) :
    (c.sdWalk n).At d (pos + n) state := by
  have hadd := toInt_walk (hn.trans_lt hint)
  have hsub := toInt_remain hint hn
  constructor
  · exact hat.state
  · change toInt (c.walk + n) = _
    rw [hat.walk, hadd]
  · change toInt (c.walkBuf + n) = _
    rw [hat.walkBuf, hadd]
  · change toInt (c.remain - n) = _
    rw [hat.remain, hsub]
  · change toInt (c.remainInBuf - n) = _
    rw [hat.remainInBuf, hsub]
  · exact hat.iovN
  · exact hat.tempBufferWalk
  · exact hat.pings
  · exact hat.outside
  · exact hat.overflowed

theorem recvCnt_eq
    {d : Received} {before after : List UInt8} {msg : ClientMessage}
    (hbytes : d.bytes = before ++ (msg.encode ++ after)) :
    d.recvCnt = before.length + (88 + msg.text.length) + after.length := by
  unfold Received.recvCnt
  rw [hbytes]
  simp only [List.length_append, msg.length_encode]
  push_cast
  ring

theorem SinkCursor.At.round_header
    {c : SinkCursor} {d : Received} {before after : List UInt8}
    {msg : ClientMessage}
    (hbytes : d.bytes = before ++ (msg.encode ++ after))
    (hfits : d.bytes.length ≤ d.rcvBufSize) (hint : d.recvCnt < 2 ^ 31)
    (hat : c.At d before.length .needPreamble) :
    (c.round d).At d (before.length + 8) .inLog ∧
      (c.round d).entrySize = msg.size ∧
      (c.round d).entries = c.entries := by
  rcases hat.memory_eq hbytes hfits with ⟨zeros, hmemory, hbuffer⟩
  have hcnt := recvCnt_eq hbytes
  have hhead : c.memory d = clientHeader msg.size ++
      (msg.m.bytes msg.padding ++ msg.text ++ after ++ zeros) := by
    rw [hmemory, msg.encode_eq]
    simp
  have hword : (c.memory d).take 4 =
      LittleEndian.store 4 sinkLogPreamble.toNat := by
    rw [hhead]
    exact take_clientHeader _ _
  have hping : c.isWord d sinkLogPing = false := by
    unfold isWord
    rw [hword]
    simpa using ping_ne_preamble
  have hpreamble : c.isWord d sinkLogPreamble = true := by
    unfold isWord
    rw [hword]
    simp
  have hsize : getSizeFromPreamble (c.memory d) = msg.size := by
    rw [hhead]
    exact getSize_clientHeader _ _
  have htouch : ∀ n : ℤ, 0 ≤ n → n ≤ 8 → c.touch d n = c := by
    intro n hlow hhigh
    apply touch_inside
    · rw [hat.walkBuf]
      omega
    · exact hlow
    · rw [hbuffer, hat.walkBuf]
      simp only [List.length_append, msg.length_encode]
      push_cast
      omega
  have hlt : c.walkBuf < d.recvCnt := by
    rw [hat.walkBuf]
    omega
  have henough : c.remain < 0 ∨ (greaseClientPingSize : ℤ) ≤ c.remain := by
    have hping4 : (greaseClientPingSize : ℤ) = 4 := rfl
    rw [hat.remain]
    omega
  have hround : c.round d = { c with
      state := .inLog
      entrySize := msg.size }.sdWalk greaseClientHeaderSize := by
    rw [round_of_lt hlt hat.overflowed, hat.state]
    simp only
    unfold needPreamble
    rw [if_pos henough]
    simp only [htouch 4 (by omega) (by omega), hping, hpreamble, if_true,
      Bool.false_eq_true, if_false, htouch 8 (by omega) (by omega), hsize]
  have hmoved : SinkCursor.At { c with state := .inLog, entrySize := msg.size }
      d before.length .inLog :=
    ⟨rfl, hat.walk, hat.walkBuf, hat.remain, hat.remainInBuf, hat.iovN,
      hat.tempBufferWalk, hat.pings, hat.outside, hat.overflowed⟩
  have hheader : greaseClientHeaderSize = 8 := rfl
  rw [hround]
  refine ⟨?_, rfl, rfl⟩
  exact hmoved.sdWalk hint (by rw [hheader]; push_cast; omega)

theorem SinkCursor.At.round_entry
    {c : SinkCursor} {d : Received} {before after : List UInt8}
    {msg : ClientMessage} (hsendable : msg.Sendable)
    (hbytes : d.bytes = before ++ (msg.encode ++ after))
    (hfits : d.bytes.length ≤ d.rcvBufSize) (hint : d.recvCnt < 2 ^ 31)
    (hat : c.At d (before.length + 8) .inLog)
    (hsize : c.entrySize = msg.size) :
    (c.round d).At d (before.length + msg.encode.length) .needPreamble ∧
      ∃ rest, (c.round d).entries = c.entries ++ [msg.entry rest] := by
  have hcnt := recvCnt_eq hbytes
  have hentrySize := hsendable.size_toNat
  unfold sizeofLogMeta at hentrySize
  have hsplit : d.bytes = (before ++ clientHeader msg.size) ++
      (msg.m.bytes msg.padding ++ msg.text ++ after) := by
    rw [hbytes, msg.encode_eq]
    simp
  have hpos : (before ++ clientHeader msg.size).length =
      before.length + 8 := by
    rw [List.length_append, length_clientHeader]
    rfl
  rw [← hpos] at hat
  rcases hat.memory_eq hsplit hfits with ⟨zeros, hmemory, hbuffer⟩
  rw [hpos] at hat hbuffer
  have htouch : c.touch d msg.size.toNat = c := by
    apply touch_inside
    · rw [hat.walkBuf]
      omega
    · omega
    · rw [hbuffer, hat.walkBuf, hentrySize]
      simp only [List.length_append, LogMeta.length_bytes, sizeofLogMeta]
      push_cast
      omega
  have hlt : c.walkBuf < d.recvCnt := by
    rw [hat.walkBuf]
    push_cast
    omega
  have henough : (c.entrySize.toNat : ℤ) ≤ c.remainInBuf % 2 ^ 32 := by
    rw [hsize, hentrySize, hat.remainInBuf]
    push_cast
    omega
  have hentry : RawEntry.mk (c.memory d) msg.size =
      msg.entry (after ++ zeros) := by
    rw [hmemory]
    simp [ClientMessage.entry]
  have hround : c.round d = { c with
      entries := c.entries ++ [msg.entry (after ++ zeros)]
      entrySize := msg.size
      state := .needPreamble }.sdWalk msg.size.toNat := by
    rw [round_of_lt hlt hat.overflowed, hat.state]
    simp only
    unfold inLog
    rw [if_pos hat.tempBufferWalk, if_pos henough]
    simp only [hsize, htouch, hentry]
  have hmoved : SinkCursor.At { c with
      entries := c.entries ++ [msg.entry (after ++ zeros)]
      entrySize := msg.size
      state := .needPreamble } d (before.length + 8) .needPreamble :=
    ⟨rfl, hat.walk, hat.walkBuf, hat.remain, hat.remainInBuf, hat.iovN,
      hat.tempBufferWalk, hat.pings, hat.outside, hat.overflowed⟩
  have htotal : before.length + msg.encode.length =
      before.length + 8 + msg.size.toNat := by
    rw [msg.length_encode, hentrySize]
    omega
  rw [hround, htotal]
  refine ⟨hmoved.sdWalk hint ?_, after ++ zeros, rfl⟩
  rw [hentrySize]
  push_cast
  omega

/-! ## Whole datagrams -/

theorem SinkCursor.loop_of_lt
    {c : SinkCursor} {d : Received} (rounds : ℕ)
    (hlt : c.walk < d.recvCnt) (hoverflowed : c.overflowed = false) :
    loop d (rounds + 1) c = loop d rounds (c.round d) := by
  rw [loop, if_pos ⟨hlt, hoverflowed⟩]

theorem SinkCursor.loop_of_ge
    {c : SinkCursor} {d : Received} (rounds : ℕ)
    (hge : d.recvCnt ≤ c.walk) :
    loop d rounds c = c := by
  cases rounds with
  | zero => rfl
  | succ rounds => rw [loop, if_neg (by omega)]

theorem SinkCursor.At.loop_messages
    {d : Received} (hfits : d.bytes.length ≤ d.rcvBufSize)
    (hint : d.recvCnt < 2 ^ 31)
    {msgs : List ClientMessage} (hsendable : ∀ msg ∈ msgs, msg.Sendable)
    {c : SinkCursor} {before : List UInt8}
    (hbytes : d.bytes = before ++ encodeAll msgs)
    (hat : c.At d before.length .needPreamble) (extra : ℕ) :
    (loop d (2 * msgs.length + extra) c).At d d.bytes.length .needPreamble ∧
      ∃ entries, (loop d (2 * msgs.length + extra) c).entries =
          c.entries ++ entries ∧
        entries.filterMap RawEntry.logFromRaw =
          msgs.map fun msg => (msg.m, msg.text) := by
  induction msgs generalizing c before with
  | nil =>
      have hend : d.bytes = before := by simpa [encodeAll] using hbytes
      rw [← hend] at hat
      have hstop : loop d (2 * ([] : List ClientMessage).length + extra) c =
          c := by
        apply loop_of_ge
        rw [hat.walk]
        exact le_refl _
      rw [hstop]
      exact ⟨hat, [], by simp, rfl⟩
  | cons msg rest ih =>
      rw [encodeAll_cons] at hbytes
      have hmsg : msg.Sendable := hsendable msg (by simp)
      have hcnt := recvCnt_eq hbytes
      have hheader := hat.round_header hbytes hfits hint
      have hentry := hheader.1.round_entry hmsg hbytes hfits hint hheader.2.1
      rcases hentry with ⟨hnext, after, hafter⟩
      have hrounds : 2 * (msg :: rest).length + extra =
          2 * rest.length + extra + 1 + 1 := by
        simp only [List.length_cons]
        ring
      have hfirst : c.walk < d.recvCnt := by
        rw [hat.walk]
        omega
      have hsecond : (c.round d).walk < d.recvCnt := by
        rw [hheader.1.walk]
        push_cast
        omega
      have hloop : loop d (2 * (msg :: rest).length + extra) c =
          loop d (2 * rest.length + extra) ((c.round d).round d) := by
        rw [hrounds, loop_of_lt _ hfirst hat.overflowed,
          loop_of_lt _ hsecond hheader.1.overflowed]
      have hsplit : d.bytes = (before ++ msg.encode) ++ encodeAll rest := by
        rw [hbytes, List.append_assoc]
      rw [← List.length_append] at hnext
      have hrest := ih (fun other hother => hsendable other (by simp [hother]))
        hsplit hnext
      rcases hrest with ⟨hfinal, entries, hentries, hdecoded⟩
      rw [hloop]
      refine ⟨hfinal, msg.entry after :: entries, ?_, ?_⟩
      · rw [hentries, hafter, hheader.2.2]
        simp
      · have hmax := hmsg.2
        unfold greaseMaxMessageSize at hmax
        have hraw := msg.logFromRaw_entry (by omega) after
        rw [if_neg (List.ne_nil_of_length_pos hmsg.1)] at hraw
        rw [List.filterMap_cons, hraw, hdecoded]
        rfl

/-- A datagram of client messages that fits the receive buffer makes the sink
call `logP` once for each message, in order, with its metadata and text, and
leaves the loop between two messages with all bytes consumed. -/
theorem sink_decodes_client_messages
    {rcvBufSize : ℕ} (hint : rcvBufSize < 2 ^ 31)
    {msgs : List ClientMessage} (hsendable : ∀ msg ∈ msgs, msg.Sendable)
    (hfits : (encodeAll msgs).length ≤ rcvBufSize)
    (headerTemp tempBufferEntry : List UInt8) (entrySize : UInt32) :
    ∃ rounds, ∀ more, rounds ≤ more →
      let d : Received := ⟨rcvBufSize, encodeAll msgs⟩
      let c := SinkCursor.loop d more
        (d.start headerTemp tempBufferEntry entrySize)
      c.entries.filterMap RawEntry.logFromRaw =
          msgs.map (fun msg => (msg.m, msg.text)) ∧
        c.state = .needPreamble ∧ c.walk = d.recvCnt ∧ c.remain = 0 ∧
        c.pings = 0 ∧ c.outside = false ∧ c.overflowed = false := by
  refine ⟨2 * msgs.length, ?_⟩
  intro more hmore d c
  have hcnt : d.recvCnt < 2 ^ 31 := by
    change ((encodeAll msgs).length : ℤ) < 2 ^ 31
    omega
  have hstart : (d.start headerTemp tempBufferEntry entrySize).At d
      ([] : List UInt8).length .needPreamble := by
    have hone : ¬(d.rcvBufSize : ℤ) < d.recvCnt := by
      change ¬(rcvBufSize : ℤ) < (encodeAll msgs).length
      omega
    constructor <;> simp [Received.start, hone]
  rcases Nat.exists_eq_add_of_le hmore with ⟨extra, rfl⟩
  have hloop := hstart.loop_messages hfits hcnt hsendable
    (List.nil_append _).symm extra
  rcases hloop with ⟨hat, entries, hentries, hdecoded⟩
  have hinitial : (d.start headerTemp tempBufferEntry entrySize).entries =
      [] := rfl
  rw [hinitial, List.nil_append] at hentries
  refine ⟨?_, hat.state, ?_, ?_, hat.pings, hat.outside, hat.overflowed⟩
  · change (SinkCursor.loop d (2 * msgs.length + extra) _).entries.filterMap
      _ = _
    rw [hentries, hdecoded]
  · exact hat.walk
  · rw [hat.remain]
    change ((encodeAll msgs).length : ℤ) - (encodeAll msgs).length = 0
    ring

/-- Two messages; the first text is the preamble, the second the ping. -/
theorem sink_decodes_preamble_text :
    ∃ rounds, ∀ more, rounds ≤ more →
      let msgs : List ClientMessage :=
        [⟨LogMeta.declare 7 1 3, 0, [0xED, 0xFE, 0x0D, 0xF0]⟩,
          ⟨noMetaData, 5, [0x0D, 0xF0, 0x0D, 0xF0]⟩]
      let d : Received := ⟨212992, encodeAll msgs⟩
      let c := SinkCursor.loop d more (d.start [] [] 0)
      c.entries.filterMap RawEntry.logFromRaw =
          msgs.map (fun msg => (msg.m, msg.text)) ∧
        c.state = .needPreamble ∧ c.walk = d.recvCnt ∧ c.remain = 0 ∧
        c.pings = 0 ∧ c.outside = false ∧ c.overflowed = false := by
  apply sink_decodes_client_messages (by norm_num)
  · intro msg hmsg
    simp only [List.mem_cons, List.not_mem_nil, or_false] at hmsg
    rcases hmsg with rfl | rfl <;>
      exact ⟨by decide, by decide⟩
  · simp [encodeAll, ClientMessage.length_encode]

end GreaseLog
