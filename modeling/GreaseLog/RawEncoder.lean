import GreaseLog.SinkRoundTrip

/-!
# The encoder for raw buffers

`_grease_logToRaw` is meant to put into a buffer of the caller what
`grease_logToSink` sends.  It is described by the stores it makes: each is an
offset into `tobuf` with the bytes that go there, and they are made in order.
-/

namespace GreaseLog

inductive RawReturn where
  | ok
  | noBuffer
  deriving DecidableEq, Repr

structure RawResult where
  code : RawReturn
  stores : List (ℕ × List UInt8)
  buflen : UInt32
  deriving DecidableEq, Repr

/-- The arguments of a call.  `tobuf` says whether that pointer is not `NULL`,
`f` is none for `NULL`, and `buflen` is the length that is passed in. -/
structure RawCall where
  f : Option LogMeta
  padding : UInt32
  text : List UInt8
  tobuf : Bool
  buflen : UInt32
  deriving DecidableEq, Repr

namespace RawCall

def logMeta (call : RawCall) : LogMeta := call.f.getD noMetaData

/-- `_grease_logToRaw`.  `(logMeta *) tobuf + w` counts in structures, which
puts the origin far behind the copied one. -/
def logToRaw (call : RawCall) (defaultOrigin : OriginId) : RawResult :=
  let len := call.text.length
  if call.tobuf = false ∨ call.buflen.toNat < greaseRawbufMinSize + len then
    ⟨.noBuffer, [], call.buflen⟩
  else
    let w := greaseClientHeaderSize
    { code := .ok
      stores :=
        [(0, LittleEndian.store 4 sinkLogPreamble.toNat),
          (4, LittleEndian.store 4 (len + 4 + 4)),
          (w, call.logMeta.bytes call.padding),
          (w * sizeofLogMeta + 8, LittleEndian.store 4 defaultOrigin.toNat)] ++
        if 0 < len then [(w + sizeofLogMeta, call.text)] else []
      buflen := UInt32.ofNat len }

def store (memory : ℕ → UInt8) (at' : ℕ × List UInt8) : ℕ → UInt8 :=
  fun i => if at'.1 ≤ i then at'.2.getD (i - at'.1) (memory i) else memory i

/-- The bytes the caller sends: as many from the start of the buffer as the
call says. -/
def sent (memory : ℕ → UInt8) (r : RawResult) : List UInt8 :=
  (List.range r.buflen.toNat).map (r.stores.foldl store memory)

/-- What callers expect of the call: a successful one stays inside the buffer
and leaves there the datagram of the other encoder, for the caller's origin or
the default one, which the sink then takes apart; if header, metadata and text
do not fit, nothing is stored. -/
structure MeetsExpectations (call : RawCall) (defaultOrigin : OriginId)
    (memory : ℕ → UInt8) : Prop where
  inside : (call.logToRaw defaultOrigin).code = .ok →
    ∀ s ∈ (call.logToRaw defaultOrigin).stores,
      s.1 + s.2.length ≤ call.buflen.toNat
  datagram : (call.logToRaw defaultOrigin).code = .ok →
    ∃ origin, (origin = call.logMeta.origin ∨ origin = defaultOrigin) ∧
      sent memory (call.logToRaw defaultOrigin) =
        logToSink { call.logMeta with origin := origin } call.padding call.text ∧
      ∀ rcvBufSize, rcvBufSize < 2 ^ 31 →
        (sent memory (call.logToRaw defaultOrigin)).length ≤ rcvBufSize →
        ∃ rounds, ∀ more, rounds ≤ more →
          let d : Received :=
            ⟨rcvBufSize, sent memory (call.logToRaw defaultOrigin)⟩
          ((SinkCursor.loop d more (d.start [] [] 0)).entries.filterMap
              RawEntry.logFromRaw) =
            [({ call.logMeta with origin := origin }, call.text)]
  refused : call.buflen.toNat <
      greaseClientHeaderSize + sizeofLogMeta + call.text.length →
    (call.logToRaw defaultOrigin).code = .noBuffer ∧
      (call.logToRaw defaultOrigin).stores = []

theorem logToRaw_code_ok
    {call : RawCall} (defaultOrigin : OriginId)
    (haccepted : ¬(call.tobuf = false ∨
      call.buflen.toNat < greaseRawbufMinSize + call.text.length)) :
    (call.logToRaw defaultOrigin).code = .ok ∧
      (call.logToRaw defaultOrigin).buflen =
        UInt32.ofNat call.text.length := by
  unfold logToRaw
  rw [if_neg haccepted]
  exact ⟨rfl, rfl⟩

theorem logToRaw_refused
    {call : RawCall} (defaultOrigin : OriginId)
    (hrefused : call.tobuf = false ∨
      call.buflen.toNat < greaseRawbufMinSize + call.text.length) :
    call.logToRaw defaultOrigin = ⟨.noBuffer, [], call.buflen⟩ := by
  unfold logToRaw
  rw [if_pos hrefused]

/-- The call does what is expected exactly when it refuses: whenever it
succeeds, the length it returns is that of the text alone. -/
theorem meetsExpectations_iff_refused
    (call : RawCall) (hlen : call.text.length < 2 ^ 32)
    (defaultOrigin : OriginId) (memory : ℕ → UInt8) :
    call.MeetsExpectations defaultOrigin memory ↔
      call.tobuf = false ∨
        call.buflen.toNat < greaseRawbufMinSize + call.text.length := by
  constructor
  · intro hmeets
    by_contra haccepted
    have hok := logToRaw_code_ok defaultOrigin haccepted
    rcases hmeets.datagram hok.1 with ⟨origin, -, hsent, -⟩
    have hlengths := congrArg List.length hsent
    rw [length_logToSink] at hlengths
    unfold sent at hlengths
    rw [List.length_map, List.length_range, hok.2, UInt32.toNat_ofNat',
      Nat.mod_eq_of_lt hlen] at hlengths
    have hheader : greaseClientHeaderSize = 8 := rfl
    omega
  · intro hrefused
    have hresult := logToRaw_refused defaultOrigin hrefused
    constructor
    · intro hok
      rw [hresult] at hok
      simp at hok
    · intro hok
      rw [hresult] at hok
      simp at hok
    · intro _
      rw [hresult]
      exact ⟨rfl, rfl⟩

theorem meetsExpectations_small_buffer :
    RawCall.MeetsExpectations ⟨some noMetaData, 0, [104, 105], true, 40⟩
      7 (fun _ => 0) :=
  (meetsExpectations_iff_refused _ (by decide) 7 _).mpr (Or.inr (by decide))

/-- With plenty of room the call succeeds and asks for two bytes to be sent,
the length of the text. -/
theorem not_meetsExpectations_large_buffer :
    ¬RawCall.MeetsExpectations ⟨some noMetaData, 0, [104, 105], true, 1000⟩
      7 (fun _ => 0) := by
  intro hmeets
  rcases hmeets.datagram (by decide) with ⟨origin, -, hsent, -⟩
  have hlengths := congrArg List.length hsent
  rw [length_logToSink] at hlengths
  unfold sent at hlengths
  rw [List.length_map, List.length_range] at hlengths
  exact absurd hlengths (by decide)

end RawCall

end GreaseLog
