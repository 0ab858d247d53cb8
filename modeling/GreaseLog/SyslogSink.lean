import GreaseLog.MessageLengths

/-!
# The syslog sink

The listener of `SyslogDgramSink` receives a datagram into ten buffers of the
size the socket reports, takes each buffer that holds a part of it for a
message of its own, and calls `logP` for it: with the parts the regular
expression has captured, or with the whole buffer if it does not match.  The
regular expression is a parameter, and so is the memory behind the buffers and
behind the table of tags.
-/

namespace GreaseLog

def greaseTagSyslog : TagId := 0x03
def greaseReservedTagsStart : TagId := 0xF000

def greaseSyslogpriToLevelMap : List LevelMask :=
  [greaseLevelError, greaseLevelError, greaseLevelError, greaseLevelError,
    greaseLevelWarn, greaseLevelWarn, greaseLevelInfo, greaseLevelDebug]

/-- The tags from `GREASE_RESERVED_TAGS_SYS_AUTH` to
`GREASE_RESERVED_TAGS_SYS_LOCAL7`, which are numbered in this order. -/
def greaseSyslogfacToTagMap : List TagId :=
  (List.range 22).map fun n => greaseReservedTagsStart + UInt32.ofNat (n + 1)

/-- `sizeof(GREASE_SYSLOGFAC_TO_TAG_MAP)`, which counts bytes. -/
def sizeofSyslogfacToTagMap : ℕ := 4 * greaseSyslogfacToTagMap.length

/-- `LOG_PRI` of `syslog.h`. -/
def logPri (facPri : Int32) : ℤ := (facPri &&& 0x07).toInt

/-- `LOG_FAC` of `syslog.h`. -/
def logFac (facPri : Int32) : ℤ := ((facPri &&& 0x03f8) >>> 3).toInt

/-- What the regular expression captures. -/
structure SyslogMatch where
  facPri : Int32
  date : List UInt8
  msg : List UInt8
  deriving DecidableEq

/-! ## Calls of `logP` -/

/-- The arguments of a call; `base` is the memory its text points to. -/
structure LogPCall where
  m : LogMeta
  base : List UInt8
  len : Int32

/-- The text the call hands over, if its length makes sense. -/
def LogPCall.text? (c : LogPCall) : Option (List UInt8) :=
  if 0 ≤ c.len.toInt then some (c.base.take c.len.toInt.toNat) else none

/-- `logP` for metadata without extras, behind which nothing is read. -/
def LogPCall.perform (c : LogPCall) (s : Logger) : Logger × ℤ :=
  s.logInt c.m noIgnoreList c.base c.len

/-! ## The listener -/

def syslogBuffers : ℕ := 10

structure SyslogDgramSink where
  rcvBufSize : ℕ
  positive : 0 < rcvBufSize
  isInt : rcvBufSize < 2 ^ 31
  fullMatch : List UInt8 → Option SyslogMatch
  behind : ℕ → List UInt8
  beyondTags : ℕ → TagId

/-- The string a `char *` stands for. -/
def cString (memory : List UInt8) : List UInt8 :=
  memory.takeWhile (· != 0)

namespace SyslogDgramSink

/-- The entry of the table of tags that is read for a facility. -/
def tagIndex (facPri : Int32) : Option ℕ :=
  if logFac facPri < sizeofSyslogfacToTagMap then
    some (logFac facPri).toNat
  else none

def levelOf (facPri : Int32) : LevelMask :=
  if logPri facPri < 8 then
    greaseSyslogpriToLevelMap.getD (logPri facPri).toNat 0
  else greaseLevelLog

def tagOf (sink : SyslogDgramSink) (facPri : Int32) : TagId :=
  match tagIndex facPri with
  | some i => greaseSyslogfacToTagMap.getD i (sink.beyondTags i)
  | none => greaseTagSyslog

/-- The call for buffer number `n`. -/
def callFor (sink : SyslogDgramSink) (n : ℕ) (buffer : List UInt8)
    (m : LogMeta) : LogPCall :=
  match sink.fullMatch (cString (buffer ++ sink.behind n)) with
  | some found => {
      m := { m with
        level := levelOf found.facPri
        tag := sink.tagOf found.facPri }
      base := found.msg
      len := Int32.ofNat found.msg.length }
  | none => {
      m := m
      base := buffer ++ sink.behind n
      len := Int32.ofNat sink.rcvBufSize }

/-- The loop over the buffers, from number `n` on.  `logP` changes nothing but
the cache of the metadata, which is reset after it. -/
def loop (sink : SyslogDgramSink) :
    ℕ → List (List UInt8) → ℤ → LogMeta → List LogPCall
  | _, [], _, _ => []
  | n, buffer :: buffers, remain, m =>
      if 0 < remain then
        let call := sink.callFor n buffer m
        call :: sink.loop (n + 1) buffers (remain - sink.rcvBufSize)
          call.m.resetCache
      else []

/-- `memset`, and what `recvmsg` puts into the buffers. -/
def scatter (sink : SyslogDgramSink)
    (raw : Vector (List UInt8) syslogBuffers) (payload : List UInt8) :
    Vector (List UInt8) syslogBuffers :=
  let cleared := raw.map fun _ => List.replicate sink.rcvBufSize 0
  cleared.mapIdx fun n buffer =>
    let piece := (payload.drop (n * sink.rcvBufSize)).take sink.rcvBufSize
    piece ++ buffer.drop piece.length

/-- One datagram: the buffers it leaves behind, and the calls of `logP` made
for it. -/
def receive (sink : SyslogDgramSink)
    (raw : Vector (List UInt8) syslogBuffers) (payload : List UInt8) :
    Vector (List UInt8) syslogBuffers × List LogPCall :=
  let raw := sink.scatter raw payload
  (raw, sink.loop 0 raw.toList
    (min payload.length (syslogBuffers * sink.rcvBufSize) : ℕ)
    (LogMeta.declare greaseTagSyslog greaseLevelLog 0))

/-- The calls made for each of the datagrams that come in. -/
def listenerWork (sink : SyslogDgramSink) :
    Vector (List UInt8) syslogBuffers → List (List UInt8) →
      List (List LogPCall)
  | _, [] => []
  | raw, payload :: payloads =>
      (sink.receive raw payload).2 ::
        sink.listenerWork (sink.receive raw payload).1 payloads

/-- What `LOG_META_RESET_CACHE` leaves does not depend on the call before. -/
theorem resetCache_sift
    (table : FilterTable) (opts : SiftOpts) (m : LogMeta) :
    (table.sift opts m).2.resetCache = m.resetCache := by
  obtain ⟨htag, hlevel, horigin, htarget, hextras⟩ :=
    table.sift_frame opts m
  simp [LogMeta.resetCache, htag, hlevel, horigin, htarget, hextras]

/-! ## Priorities and facilities -/

theorem logPri_bounds (facPri : Int32) :
    0 ≤ logPri facPri ∧ logPri facPri < 8 := by
  have hnat : (facPri &&& 0x07).toBitVec.toNat ≤ 7 := by
    rw [Int32.toBitVec_and, BitVec.toNat_and]
    exact Nat.and_le_right
  have hint : logPri facPri = ((facPri &&& 0x07).toBitVec.toNat : ℤ) :=
    BitVec.toInt_eq_toNat_of_lt (by omega)
  omega

theorem logFac_nonneg (facPri : Int32) : 0 ≤ logFac facPri := by
  have hnat : (facPri &&& 0x03f8).toBitVec.toNat ≤ 0x03f8 := by
    rw [Int32.toBitVec_and, BitVec.toNat_and]
    exact Nat.and_le_right
  have hint : (facPri &&& 0x03f8).toBitVec.toInt =
      ((facPri &&& 0x03f8).toBitVec.toNat : ℤ) :=
    BitVec.toInt_eq_toNat_of_lt (by omega)
  have hshift : logFac facPri =
      (facPri &&& 0x03f8).toBitVec.toInt >>> (3 : ℕ) :=
    BitVec.toInt_sshiftRight'
  rw [hshift, Int.shiftRight_eq_div_pow, hint]
  positivity

theorem levelOf_eq (facPri : Int32) :
    levelOf facPri =
      greaseSyslogpriToLevelMap.getD (logPri facPri).toNat 0 :=
  if_pos (logPri_bounds facPri).2

/-- The table is left for the facilities between its length and its size. -/
theorem tagIndex_inside_iff (facPri : Int32) :
    (∀ i, tagIndex facPri = some i → i < greaseSyslogfacToTagMap.length) ↔
      logFac facPri < 22 ∨ 88 ≤ logFac facPri := by
  have hlength : greaseSyslogfacToTagMap.length = 22 := by
    simp [greaseSyslogfacToTagMap]
  have hsize : sizeofSyslogfacToTagMap = 88 := by
    rw [sizeofSyslogfacToTagMap, hlength]
  have hnonneg := logFac_nonneg facPri
  unfold tagIndex
  rw [hlength, hsize]
  split
  · simp only [Option.some.injEq, forall_eq']
    omega
  · simp only [reduceCtorEq, false_implies, implies_true, true_iff]
    omega

/-! ## The first buffer -/

/-- The first buffer after a datagram has been received. -/
def firstBuffer (sink : SyslogDgramSink) (payload : List UInt8) :
    List UInt8 :=
  payload.take sink.rcvBufSize ++
    List.replicate (sink.rcvBufSize - payload.length) 0

/-- What the regular expression makes of a datagram. -/
def matchOf (sink : SyslogDgramSink) (payload : List UInt8) :
    Option SyslogMatch :=
  sink.fullMatch (cString (sink.firstBuffer payload ++ sink.behind 0))

theorem scatter_toList (sink : SyslogDgramSink)
    (raw : Vector (List UInt8) syslogBuffers) (payload : List UInt8) :
    ∃ second rest, (sink.scatter raw payload).toList =
      sink.firstBuffer payload :: second :: rest := by
  have hfirst : (sink.scatter raw payload)[0] = sink.firstBuffer payload := by
    simp only [scatter, Vector.getElem_mapIdx, Vector.getElem_map,
      Nat.zero_mul, List.drop_zero, List.drop_replicate, List.length_take,
      firstBuffer]
    congr 2
    omega
  have hlength : (sink.scatter raw payload).toList.length = 10 :=
    Vector.length_toList
  have hhead : (sink.scatter raw payload).toList[0]? =
      some (sink.firstBuffer payload) := by
    rw [List.getElem?_eq_getElem (by omega), Vector.getElem_toList, hfirst]
  revert hlength hhead
  generalize (sink.scatter raw payload).toList = buffers
  intro hlength hhead
  match buffers, hlength, hhead with
  | first :: second :: rest, _, hhead =>
      obtain rfl := Option.some.inj hhead
      exact ⟨second, rest, rfl⟩

/-! ## The calls for a datagram -/

/-- A datagram that fits a buffer makes one call. -/
theorem calls_of_fits (sink : SyslogDgramSink)
    (raw : Vector (List UInt8) syslogBuffers) {payload : List UInt8}
    (hne : payload ≠ []) (hfits : payload.length ≤ sink.rcvBufSize) :
    (sink.receive raw payload).2 =
      [sink.callFor 0 (sink.firstBuffer payload)
        (LogMeta.declare greaseTagSyslog greaseLevelLog 0)] := by
  have hpos := List.length_pos_iff.mpr hne
  have hcount : min payload.length (syslogBuffers * sink.rcvBufSize) =
      payload.length := by
    unfold syslogBuffers
    omega
  obtain ⟨second, rest, hbuffers⟩ := sink.scatter_toList raw payload
  unfold receive
  simp only [hbuffers, hcount, loop]
  rw [if_pos (by omega), if_neg (by omega)]

/-- A longer one makes at least two. -/
theorem calls_of_exceeds (sink : SyslogDgramSink)
    (raw : Vector (List UInt8) syslogBuffers) {payload : List UInt8}
    (hlong : sink.rcvBufSize < payload.length) :
    2 ≤ (sink.receive raw payload).2.length := by
  have hpos := sink.positive
  have hcount : sink.rcvBufSize <
      min payload.length (syslogBuffers * sink.rcvBufSize) := by
    unfold syslogBuffers
    omega
  obtain ⟨second, rest, hbuffers⟩ := sink.scatter_toList raw payload
  unfold receive
  simp only [hbuffers, loop]
  rw [if_pos (by omega), if_pos (by omega)]
  simp

/-- One call of `logP` is made for the datagram and not refused.  Its text is
the captured message, or the datagram itself if there is no match; its level
and its tag come from this datagram. -/
def LogsItself (sink : SyslogDgramSink) (payload : List UInt8)
    (calls : List LogPCall) : Prop :=
  ∃ call, calls = [call] ∧
    (∀ s : Logger, (call.perform s).2 ≠ greaseOverflow) ∧
    match sink.matchOf payload with
    | some found =>
        call.text? = some found.msg ∧
          call.m.level =
            greaseSyslogpriToLevelMap.getD (logPri found.facPri).toNat 0 ∧
          call.m.tag = sink.tagOf found.facPri ∧
          ∀ i, tagIndex found.facPri = some i →
            i < greaseSyslogfacToTagMap.length
    | none =>
        call.text? = some payload ∧ call.m.level = greaseLevelLog ∧
          call.m.tag = greaseTagSyslog

/-- The datagrams the sink handles. -/
def Handles (sink : SyslogDgramSink) (payload : List UInt8) : Prop :=
  match sink.matchOf payload with
  | some found =>
      payload.length ≤ sink.rcvBufSize ∧
        found.msg.length ≤ greaseMaxMessageSize ∧
        (logFac found.facPri < 22 ∨ 88 ≤ logFac found.facPri)
  | none => payload.length = sink.rcvBufSize

end SyslogDgramSink

/-! ## Texts and lengths -/

theorem LogPCall.accepted_iff (c : LogPCall) :
    (∀ s : Logger, (c.perform s).2 ≠ greaseOverflow) ↔
      c.len.toInt ≤ greaseMaxMessageSize := by
  unfold perform
  simp only [ne_eq, Logger.logInt_refuses_iff, not_lt]
  exact ⟨fun h => h (Logger.new 0), fun h _ => h⟩

/-- A text of its own length is handed over and accepted as long as it is
short enough. -/
theorem LogPCall.text_accepted_iff
    (m : LogMeta) (text : List UInt8) :
    (LogPCall.text? ⟨m, text, Int32.ofNat text.length⟩ = some text ∧
        (Int32.ofNat text.length).toInt ≤ greaseMaxMessageSize) ↔
      text.length ≤ greaseMaxMessageSize := by
  unfold text?
  constructor
  · rintro ⟨htext, hmax⟩
    split at htext
    · have hlength := congrArg List.length (Option.some.inj htext)
      simp only [List.length_take] at hlength
      omega
    · simp at htext
  · intro hmax
    have hint : (Int32.ofNat text.length).toInt = text.length :=
      Int32.toInt_ofNat_of_lt (by unfold greaseMaxMessageSize at hmax; omega)
    simp [hint, hmax]

namespace SyslogDgramSink

/-- Without a match the call hands over the whole buffer. -/
theorem text_buffer_iff (sink : SyslogDgramSink) (m : LogMeta)
    {payload : List UInt8} (hfits : payload.length ≤ sink.rcvBufSize) :
    LogPCall.text? ⟨m, sink.firstBuffer payload ++ sink.behind 0,
        Int32.ofNat sink.rcvBufSize⟩ = some payload ↔
      payload.length = sink.rcvBufSize := by
  have hint : (Int32.ofNat sink.rcvBufSize).toInt = sink.rcvBufSize :=
    Int32.toInt_ofNat_of_lt sink.isInt
  have hbuffer : (sink.firstBuffer payload).length = sink.rcvBufSize := by
    simp [firstBuffer]
    omega
  unfold LogPCall.text?
  rw [hint, if_pos (by omega), Int.toNat_natCast, List.take_left' hbuffer,
    Option.some.injEq]
  constructor
  · intro heq
    rw [← hbuffer, heq]
  · intro hsame
    simp [firstBuffer, hsame]

theorem callFor_of_match
    {sink : SyslogDgramSink} {payload : List UInt8} {found : SyslogMatch}
    (hmatch : sink.matchOf payload = some found) (m : LogMeta) :
    sink.callFor 0 (sink.firstBuffer payload) m = {
      m := { m with
        level := levelOf found.facPri
        tag := sink.tagOf found.facPri }
      base := found.msg
      len := Int32.ofNat found.msg.length } := by
  unfold matchOf at hmatch
  unfold callFor
  rw [hmatch]

theorem callFor_of_no_match
    {sink : SyslogDgramSink} {payload : List UInt8}
    (hmatch : sink.matchOf payload = none) (m : LogMeta) :
    sink.callFor 0 (sink.firstBuffer payload) m = {
      m := m
      base := sink.firstBuffer payload ++ sink.behind 0
      len := Int32.ofNat sink.rcvBufSize } := by
  unfold matchOf at hmatch
  unfold callFor
  rw [hmatch]

/-- Whatever the buffers held before, a datagram is logged as it should be
exactly if the sink handles it. -/
theorem logsItself_receive_iff (sink : SyslogDgramSink)
    (raw : Vector (List UInt8) syslogBuffers) {payload : List UInt8}
    (hne : payload ≠ []) (hmax : payload.length ≤ greaseMaxMessageSize) :
    sink.LogsItself payload (sink.receive raw payload).2 ↔
      sink.Handles payload := by
  rcases Nat.lt_or_ge sink.rcvBufSize payload.length with hlong | hfits
  · have hcalls := sink.calls_of_exceeds raw hlong
    constructor
    · rintro ⟨call, hone, -⟩
      rw [hone] at hcalls
      simp at hcalls
    · intro hhandles
      unfold Handles at hhandles
      split at hhandles <;> omega
  · unfold LogsItself Handles
    rw [sink.calls_of_fits raw hne hfits]
    simp only [List.cons.injEq, and_true, exists_eq_left',
      LogPCall.accepted_iff]
    cases hmatch : sink.matchOf payload with
    | some found =>
        have htext := LogPCall.text_accepted_iff
          { LogMeta.declare greaseTagSyslog greaseLevelLog 0 with
            level := levelOf found.facPri
            tag := sink.tagOf found.facPri } found.msg
        simp only [callFor_of_match hmatch, levelOf_eq,
          tagIndex_inside_iff, hfits, true_and] at htext ⊢
        tauto
    | none =>
        have hint : (Int32.ofNat sink.rcvBufSize).toInt = sink.rcvBufSize :=
          Int32.toInt_ofNat_of_lt sink.isInt
        simp only [callFor_of_no_match hmatch,
          sink.text_buffer_iff _ hfits, hint, Nat.cast_le]
        constructor
        · rintro ⟨-, hsame, -⟩
          exact hsame
        · intro hsame
          exact ⟨hsame ▸ hmax, hsame, rfl, rfl⟩

/-- The datagrams that come in are all logged as they should be exactly if the
sink handles each of them. -/
theorem datagrams_logged_once_iff (sink : SyslogDgramSink)
    (raw : Vector (List UInt8) syslogBuffers) {payloads : List (List UInt8)}
    (hpayloads : ∀ payload ∈ payloads,
      payload ≠ [] ∧ payload.length ≤ greaseMaxMessageSize) :
    List.Forall₂ sink.LogsItself payloads (sink.listenerWork raw payloads) ↔
      ∀ payload ∈ payloads, sink.Handles payload := by
  induction payloads generalizing raw with
  | nil => simp [listenerWork]
  | cons payload payloads ih =>
      obtain ⟨hne, hmax⟩ := hpayloads payload (by simp)
      have hrest := ih (sink.receive raw payload).1 fun other hother =>
        hpayloads other (by simp [hother])
      have hfirst := sink.logsItself_receive_iff raw hne hmax
      rw [listenerWork, List.forall₂_cons, hfirst, hrest]
      simp

/-- The regular expression sees a datagram without zeros that does not fill
the buffer. -/
theorem matchOf_of_nonzero
    {sink : SyslogDgramSink} {payload : List UInt8}
    (hnonzero : ∀ b ∈ payload, b ≠ 0)
    (hshort : payload.length < sink.rcvBufSize) :
    sink.matchOf payload = sink.fullMatch payload := by
  obtain ⟨padding, hpadding⟩ :
      ∃ n, sink.rcvBufSize - payload.length = n + 1 :=
    ⟨sink.rcvBufSize - payload.length - 1, by omega⟩
  unfold matchOf cString firstBuffer
  rw [List.take_of_length_le hshort.le, hpadding, List.replicate_succ,
    List.append_assoc, List.takeWhile_append_of_pos (by simpa using hnonzero),
    List.cons_append, List.takeWhile_cons_of_neg (by simp), List.append_nil]

/-- The text `Jan  1 00:00:00`. -/
def syslogDate : List UInt8 :=
  [74, 97, 110, 32, 32, 49, 32, 48, 48, 58, 48, 48, 58, 48, 48]

/-- The line `<P>Jan  1 00:00:00 hi`. -/
def syslogLine (priority : List UInt8) : List UInt8 :=
  60 :: priority ++ 62 :: syslogDate ++ [32, 104, 105]

/-- A socket of the usual size, with what the regular expression captures from
`syslogLine` for the priorities 13 and 176. -/
def usual : SyslogDgramSink where
  rcvBufSize := 131072
  positive := by decide
  isInt := by decide
  fullMatch := fun s =>
    if s = syslogLine [49, 51] then some ⟨13, syslogDate, [104, 105]⟩
    else if s = syslogLine [49, 55, 54] then
      some ⟨176, syslogDate, [104, 105]⟩
    else none
  behind := fun _ => []
  beyondTags := fun _ => 0

theorem user_notice_logged_once :
    List.Forall₂ usual.LogsItself [syslogLine [49, 51]]
      (usual.listenerWork (Vector.replicate _ []) [syslogLine [49, 51]]) := by
  refine (usual.datagrams_logged_once_iff _ ?_).mpr ?_
  · intro payload hpayload
    obtain rfl := List.mem_singleton.mp hpayload
    decide
  · intro payload hpayload
    obtain rfl := List.mem_singleton.mp hpayload
    have hmatch : usual.matchOf (syslogLine [49, 51]) =
        some ⟨13, syslogDate, [104, 105]⟩ :=
      (matchOf_of_nonzero (by simp [syslogLine, syslogDate])
        (by decide)).trans rfl
    unfold Handles
    rw [hmatch]
    exact ⟨by decide, by decide, Or.inl (by decide)⟩

/-- A text that is no syslog line is not logged as it came, and for facility
22 the tag is read behind the table. -/
theorem padding_logged_and_table_left :
    ¬List.Forall₂ usual.LogsItself [[104, 105]]
        (usual.listenerWork (Vector.replicate _ []) [[104, 105]]) ∧
      ¬List.Forall₂ usual.LogsItself [syslogLine [49, 55, 54]]
        (usual.listenerWork (Vector.replicate _ [])
          [syslogLine [49, 55, 54]]) := by
  simp only [listenerWork, List.forall₂_cons, List.forall₂_nil_left_iff,
    and_true]
  constructor
  · rw [usual.logsItself_receive_iff _ (by decide) (by decide)]
    have hmatch : usual.matchOf [104, 105] = none :=
      (matchOf_of_nonzero (by simp) (by decide)).trans rfl
    unfold Handles
    rw [hmatch]
    decide
  · rw [usual.logsItself_receive_iff _ (by decide) (by decide)]
    have hmatch : usual.matchOf (syslogLine [49, 55, 54]) =
        some ⟨176, syslogDate, [104, 105]⟩ :=
      (matchOf_of_nonzero (by simp [syslogLine, syslogDate])
        (by decide)).trans rfl
    unfold Handles
    rw [hmatch]
    rintro ⟨-, -, hinside | houtside⟩
    · revert hinside
      decide
    · revert houtside
      decide

end SyslogDgramSink

end GreaseLog
