import GreaseLog.KernelRecords
import GreaseLog.Logger
import Mathlib.Data.List.TakeWhile

/-!
# The listener for the ring buffer

`KernelProcKmsgSink::listener_work` reads many records at a time into its
buffer and then takes an entry from the pool for each of them, until the
parser gives up.  The listener deals with the pool in three ways only: it
takes an entry, submits it or gives it back.

The parser is first shown to accept nothing but records: what it has seen
since `LEVEL_BEGIN` always has the shape that belongs to its state.
-/

namespace GreaseLog

/-! ## What a listener does with an entry -/

inductive PoolCall where
  | submit (l : SingleLog)
  | giveBack (l : SingleLog)
  deriving DecidableEq, Repr

/-- `_submitBuffer` and `_returnBuffer`. -/
def Logger.poolCall (s : Logger) : PoolCall → Logger
  | .submit l => s.submitBuffer l
  | .giveBack l => s.putBack l

/-- The entries that `_submitBuffer` offers to the queue; it turns empty ones
back. -/
def queued (calls : List PoolCall) : List SingleLog :=
  calls.filterMap fun
    | .submit l => if l.buf.used < 1 then none else some l
    | .giveBack _ => none

/-- The loop over the bytes of one read. -/
structure KlogReader where
  mem : List UInt8
  bufCurpos : ℕ
  bufRemain : ℕ
  parseState : KlogParseState
  calls : List PoolCall
  running : Bool
  starved : Bool

namespace KlogReader

/-- After `klogctl` has read `data`; `junk` is what earlier reads left in the
buffer.  `buf_remain` is the size of the buffer less one, not the number of
bytes read. -/
def read (data junk : List UInt8) : KlogReader where
  mem := data ++ 0 :: junk
  bufCurpos := 0
  bufRemain := (data ++ 0 :: junk).length - 1
  parseState := .levelBegin
  calls := []
  running := true
  starved := false

def parsed (k : KlogReader) (entry : SingleLog) : KlogResult :=
  parseSingleKlogToSingleLog k.mem k.bufCurpos k.bufRemain k.parseState entry

def outcome (k : KlogReader) (entry : SingleLog) : PoolCall :=
  if (k.parsed entry).loggable then .submit (k.parsed entry).entry
  else .giveBack (k.parsed entry).entry

/-- One round, with the entry that `_grabInLogBuffer` gave. -/
def round (k : KlogReader) (entry : SingleLog) : KlogReader :=
  { k with
    mem := (k.parsed entry).mem
    bufCurpos := (k.parsed entry).moved
    bufRemain := (k.parsed entry).remain
    parseState := (k.parsed entry).beginState
    calls := k.calls ++ [k.outcome entry]
    running := (k.parsed entry).loggable }

/-- The inner `while(1)`, for the entries `_grabInLogBuffer` gives one after
another.  It breaks as well when the pool has no more. -/
def drain : List SingleLog → KlogReader → KlogReader
  | [], k => if k.running then { k with running := false, starved := true } else k
  | entry :: pool, k => if k.running then drain pool (k.round entry) else k

end KlogReader

/-- A round is the move of the kernel listener in the model of the logger. -/
theorem Logger.klog_eq_poolCall (k : KlogReader) {s s' : Logger}
    {entry : SingleLog} (hstate : k.parseState = .levelBegin)
    (hgrab : s.grabInLogBuffer = some (entry, s')) :
    s.klog k.mem k.bufCurpos k.bufRemain = s'.poolCall (k.outcome entry) := by
  unfold Logger.klog KlogReader.outcome KlogReader.parsed
  rw [hgrab, hstate]
  simp only
  split <;> rfl

theorem Logger.putBack_commands (s : Logger) (l : SingleLog) :
    (s.putBack l).owner = s.owner ∧ (s.putBack l).nextSeq = s.nextSeq := by
  unfold Logger.putBack
  split <;> exact ⟨rfl, rfl⟩

theorem queued_append (calls more : List PoolCall) :
    queued (calls ++ more) = queued calls ++ queued more :=
  List.filterMap_append

theorem queued_giveBack (l : SingleLog) : queued [.giveBack l] = [] := rfl

theorem queued_submit (l : SingleLog) :
    queued [.submit l] = if l.buf.used < 1 then [] else [l] := by
  unfold queued
  rw [List.filterMap_cons]
  dsimp only
  split_ifs <;> rfl

/-- What one call does to the command queue. -/
theorem Logger.poolCall_commands (s : Logger) (c : PoolCall)
    (hroom : s.owner.internalCmdQueue.items.length + (queued [c]).length ≤
      s.owner.internalCmdQueue.capacity) :
    (s.poolCall c).owner.internalCmdQueue.items =
        s.owner.internalCmdQueue.items ++ (queued [c]).map
          (fun l => InternalCmdReq.newLog { l with seq := s.nextSeq }) ∧
      (s.poolCall c).owner.internalCmdQueue.capacity =
        s.owner.internalCmdQueue.capacity ∧
      (s.poolCall c).nextSeq = s.nextSeq + (queued [c]).length := by
  cases c with
  | giveBack l =>
      have hback := s.putBack_commands l
      simp [Logger.poolCall, queued_giveBack, hback.1, hback.2]
  | submit l =>
      unfold Logger.poolCall Logger.submitBuffer
      dsimp only
      rw [queued_submit] at hroom ⊢
      by_cases hused : l.buf.used < 1
      · have hback := s.putBack_commands l
        rw [if_pos hused, if_pos hused, hback.1, hback.2]
        simp
      · rw [if_neg hused, List.length_singleton] at hroom
        rcases BoundedFifo.addIfRoom_of_hasRoom
          (show s.owner.internalCmdQueue.hasRoom from hroom)
          (.newLog { l with seq := s.nextSeq }) with ⟨next, hadd, hitems, hcapacity⟩
        rw [if_neg hused, if_neg hused]
        simp only [Logger.enqueue, hadd, Option.getD_some]
        exact ⟨hitems, hcapacity, rfl⟩

/-- A command queue with room gets exactly these entries, in this order. -/
theorem Logger.poolCalls_commands (calls : List PoolCall) (s : Logger)
    (hroom : s.owner.internalCmdQueue.items.length + (queued calls).length ≤
      s.owner.internalCmdQueue.capacity) :
    (calls.foldl Logger.poolCall s).owner.internalCmdQueue.items =
      s.owner.internalCmdQueue.items ++ ((queued calls).zipIdx s.nextSeq).map
        fun p => InternalCmdReq.newLog { p.1 with seq := p.2 } := by
  induction calls generalizing s with
  | nil => simp [queued]
  | cons c calls ih =>
      have hsplit : queued (c :: calls) = queued [c] ++ queued calls :=
        queued_append [c] calls
      rw [hsplit, List.length_append] at hroom
      rcases s.poolCall_commands c (by omega) with ⟨hitems, hcapacity, hnext⟩
      -- One call queues at most one entry, which gets the first number.
      have hfirst : (queued [c]).map
          (fun l => InternalCmdReq.newLog { l with seq := s.nextSeq }) =
            ((queued [c]).zipIdx s.nextSeq).map
              fun p => InternalCmdReq.newLog { p.1 with seq := p.2 } := by
        cases c with
        | giveBack l => rfl
        | submit l =>
            rw [queued_submit]
            split_ifs <;> rfl
      rw [List.foldl_cons, ih, hitems, hnext, hsplit, List.zipIdx_append,
        List.map_append, List.append_assoc, hfirst]
      rw [hitems, hcapacity, List.length_append, List.length_map]
      omega

/-! ## What the parser has seen -/

namespace KernelCursor

variable {c c' : KernelCursor} {b : UInt8} {seen input orig : List UInt8}
  {buf : HeapBuf}

def LevelByte (b : UInt8) : Prop := b = 100 ∨ (48 ≤ b ∧ b < 56)

/-- The bytes since `LEVEL_BEGIN`, by state. -/
def Shape (c : KernelCursor) (seen : List UInt8) : Prop :=
  match c.state with
  | .levelBegin => seen = []
  | .inLevel => ∃ level cap, seen = 60 :: level ∧ c.cap = some cap ∧
      cap + level.length = c.look ∧ ∃ after, c.mem.drop cap = level ++ after
  | .timeStampBegin => ∃ level, LevelByte level ∧ seen = [60, level, 62]
  | .inTimeStamp => ∃ level time, LevelByte level ∧
      (∀ b ∈ time, isTimeByte b = true) ∧ seen = [60, level, 62, 91] ++ time
  | .bodyBegin => ∃ level time, LevelByte level ∧
      (∀ b ∈ time, isTimeByte b = true) ∧
      seen = [60, level, 62, 91] ++ time ++ [93]
  | .inBody => ∃ r : KlogRecord, seen = r.line
  | .endLog => (∃ r : KlogRecord, seen = r.bytes) ∨ c.cap = some c.look
  | _ => True

/-- Between the angle brackets there is one byte. -/
theorem Shape.levelEnd {level : List UInt8} {cap : ℕ}
    (hreads : c.Reads (62 :: input)) (hcap : c.cap = some cap)
    (hlook : cap + level.length = c.look) (hlo : c.lo ≤ cap)
    (hahead : ∃ after, c.mem.drop cap = level ++ after)
    (hend : c.klogLevelEnd = some c') :
    c'.next.Shape (60 :: level ++ [62]) := by
  obtain ⟨after, hafter⟩ := hahead
  have hcap' : c.terminated.cap = some cap := hcap
  unfold klogLevelEnd at hend
  simp only [store_eq_some hreads.low hreads.look_lt hreads.inside, hcap',
    Option.bind_eq_bind, Option.bind_some] at hend
  split at hend
  · rename_i hdistance
    change c.look = cap + 1 at hdistance
    obtain ⟨digit, rfl⟩ : ∃ digit, level = [digit] := by
      apply List.length_eq_one_iff.mp
      omega
    have hdigit : c.mem.getD cap 0 = digit := by
      rw [List.getD_eq_getElem?_getD, ← List.head?_drop, hafter]
      rfl
    rw [load_terminated hlo (by omega) hreads.look_lt hreads.inside, hdigit,
      Option.bind_some] at hend
    split at hend
    · cases hend
      exact trivial
    · split at hend
      · rename_i hdefault
        cases hend
        exact ⟨digit, Or.inl hdefault, rfl⟩
      · split at hend
        · rename_i hrange
          obtain ⟨mapped, -, hend⟩ := Option.bind_eq_some_iff.mp hend
          cases hend
          exact ⟨digit, Or.inr ((digitValue_lt_eight digit).mp hrange), rfl⟩
        · cases hend
          exact trivial
  · cases hend
    exact trivial

theorem Shape.switch_inLevel {n : ℕ} (hstate : c.state = .inLevel)
    (hshape : c.Shape seen) (htracks : c.Tracks orig 8 buf)
    (hreads : c.Reads (b :: input)) (hswitch : c.klogSwitch n = some c') :
    c'.next.Shape (seen ++ [b]) := by
  unfold klogSwitch at hswitch
  rw [hreads.load] at hswitch
  simp only [hstate, Option.bind_eq_bind, Option.bind_some] at hswitch
  unfold Shape at hshape
  simp only [hstate] at hshape
  obtain ⟨level, cap, rfl, hcap, hlook, after, hafter⟩ := hshape
  split at hswitch
  · rename_i hclose
    subst hclose
    obtain ⟨cap', hcap', hlo, -⟩ := htracks.level hstate
    obtain rfl : cap = cap' := Option.some.inj (hcap.symm.trans hcap')
    exact Shape.levelEnd hreads hcap hlook hlo ⟨after, hafter⟩ hswitch
  · cases hswitch
    obtain ⟨ahead, hahead⟩ := hreads.ahead
    have hnext : after = b :: input ++ ahead := by
      rw [← hahead, ← hlook, ← List.drop_drop, hafter, List.drop_left]
    unfold Shape
    simp only [next, hstate]
    refine ⟨level ++ [b], cap, rfl, hcap, ?_, input ++ ahead, ?_⟩
    · rw [List.length_append, ← hlook]
      rfl
    · rw [hafter, hnext]
      simp

theorem Shape.switch_inTimeStamp {n : ℕ} (hstate : c.state = .inTimeStamp)
    (hshape : c.Shape seen) (hreads : c.Reads (b :: input))
    (hswitch : c.klogSwitch n = some c') : c'.next.Shape (seen ++ [b]) := by
  unfold klogSwitch at hswitch
  rw [hreads.load] at hswitch
  simp only [hstate, Option.bind_eq_bind, Option.bind_some] at hswitch
  unfold Shape at hshape
  simp only [hstate] at hshape
  obtain ⟨level, time, hlevel, htime, rfl⟩ := hshape
  split at hswitch
  · rename_i hclose
    cases hswitch
    exact ⟨level, time, hlevel, htime, by simp [hclose]⟩
  · split at hswitch
    · cases hswitch
      exact trivial
    · rename_i hother
      cases hswitch
      unfold Shape
      simp only [next, hstate]
      refine ⟨level, time ++ [b], hlevel, ?_, by simp⟩
      have hbyte : isTimeByte b = true := by
        simp only [isTimeByte, Bool.or_eq_true, Bool.and_eq_true,
          decide_eq_true_eq]
        tauto
      intro x hx
      rcases List.mem_append.mp hx with hx | hx
      · exact htime x hx
      · rw [List.mem_singleton.mp hx]
        exact hbyte

theorem Shape.switch_inBody {n : ℕ} (hstate : c.state = .inBody)
    (hshape : c.Shape seen) (hreads : c.Reads (b :: input))
    (hswitch : c.klogSwitch n = some c') : c'.next.Shape (seen ++ [b]) := by
  unfold klogSwitch at hswitch
  rw [hreads.load] at hswitch
  simp only [hstate, Option.bind_eq_bind, Option.bind_some] at hswitch
  unfold Shape at hshape
  simp only [hstate] at hshape
  obtain ⟨r, rfl⟩ := hshape
  split at hswitch
  · rename_i hnewline
    cases hswitch
    exact Or.inl ⟨r, by rw [hnewline]; rfl⟩
  · rename_i hnewline
    cases hswitch
    unfold Shape
    simp only [next, hstate]
    refine ⟨{ r with
      body := r.body ++ [b]
      body_ok := by
        simp only [List.mem_append, List.mem_singleton, not_or]
        exact ⟨r.body_ok, fun heq => hnewline heq.symm⟩ }, ?_⟩
    simp [KlogRecord.line]

theorem Shape.switch {n : ℕ} (hshape : c.Shape seen) (hrun : ¬c.Stopped)
    (htracks : c.Tracks orig 8 buf) (hreads : c.Reads (b :: input))
    (hswitch : c.klogSwitch n = some c') : c'.next.Shape (seen ++ [b]) := by
  have hbyte := hswitch
  unfold klogSwitch at hbyte
  rw [hreads.load] at hbyte
  cases hstate : c.state with
  | levelBegin =>
      simp only [Shape, hstate, Option.bind_eq_bind, Option.bind_some]
        at hbyte hshape
      split at hbyte
      · rename_i hopen
        cases hbyte
        rw [hshape, hopen]
        exact ⟨[], c.look + 1, rfl, rfl, rfl, _, rfl⟩
      · cases hbyte
        exact trivial
  | inLevel => exact hshape.switch_inLevel hstate htracks hreads hswitch
  | timeStampBegin =>
      simp only [Shape, hstate, Option.bind_eq_bind, Option.bind_some]
        at hbyte hshape
      cases hbyte
      obtain ⟨level, hlevel, rfl⟩ := hshape
      unfold Shape
      by_cases hopen : b = 91
      · simp only [next, enter, if_pos hopen]
        exact ⟨level, [], hlevel, by simp, by simp [hopen]⟩
      · simp only [next, enter, if_neg hopen]
  | inTimeStamp => exact hshape.switch_inTimeStamp hstate hreads hswitch
  | bodyBegin =>
      simp only [Shape, hstate, Option.bind_eq_bind, Option.bind_some]
        at hbyte hshape
      cases hbyte
      obtain ⟨level, time, hlevel, htime, rfl⟩ := hshape
      unfold Shape
      by_cases hnewline : b = 10
      · simp only [next, enter, capture, hnewline, ne_eq, not_true_eq_false,
          if_false]
        exact Or.inr trivial
      · simp only [next, enter, ne_eq, if_pos hnewline]
        exact ⟨⟨level, time, b, [], hlevel, htime, hnewline, by simp⟩,
          by simp [KlogRecord.line]⟩
  | inBody => exact hshape.switch_inBody hstate hreads hswitch
  | endLog => exact absurd (Or.inr hstate) hrun
  | _ =>
      simp only [hstate, Option.bind_eq_bind, Option.bind_some] at hbyte
      cases hbyte
      unfold Shape
      simp only [next, hstate]

theorem Shape.scan {n : ℕ} (hshape : c.Shape seen)
    (htracks : c.Tracks orig 8 buf) (hreads : c.Reads input)
    (hscan : scan klogSwitch input.length c = some (c', n)) :
    ∃ eaten rest, input = eaten ++ rest ∧ c'.Shape (seen ++ eaten) := by
  induction input generalizing c seen with
  | nil =>
      cases hscan
      exact ⟨[], [], rfl, by rwa [List.append_nil]⟩
  | cons b input ih =>
      by_cases hstopped : c.Stopped
      · rw [scan_stopped hstopped] at hscan
        cases hscan
        exact ⟨[], b :: input, rfl, by rwa [List.append_nil]⟩
      · obtain ⟨c₁, hswitch, hmoves⟩ :=
          htracks.klogSwitch hreads.look_lt hstopped (b :: input).length
        rw [scan_cons hstopped hswitch] at hscan
        obtain ⟨eaten, rest, rfl, hfinal⟩ := ih
          (hshape.switch hstopped htracks hreads hswitch)
          (htracks.next_of_moves hreads.look_lt hmoves)
          (hreads.next hmoves.lo hmoves.hi hmoves.look hmoves.mem) hscan
        refine ⟨b :: eaten, rest, rfl, ?_⟩
        rwa [List.append_assoc] at hfinal

theorem finish_loggable {n : ℕ} {res : KernelResult}
    (h : c.finish n = some res) (hloggable : res.loggable = true) :
    c.state = .endLog ∧ ∃ cap, c.cap = some cap ∧ cap < c.look := by
  unfold finish at h
  split at h
  · rename_i hend
    refine ⟨hend, ?_⟩
    cases hcap : c.cap with
    | none => simp [hcap] at h
    | some cap =>
        simp only [hcap] at h
        split at h
        · rename_i hlook
          exact ⟨cap, rfl, hlook⟩
        · cases h
          cases hloggable
  · cases h
    cases hloggable

end KernelCursor

/-- Whatever is parsed begins with a record. -/
theorem klog_parsed_record {before bytes after : List UInt8} {entry : SingleLog}
    {res : KernelResult}
    (h : checkedKlogToSingleLog (before ++ bytes ++ after) before.length
      bytes.length .levelBegin entry = some res)
    (hloggable : res.loggable = true) :
    ∃ (r : KlogRecord) (rest : List UInt8), bytes = r.bytes ++ rest := by
  obtain ⟨⟨c, n⟩, hscan, hfinish⟩ := Option.bind_eq_some_iff.mp h
  have hstart : (kernelStart (before ++ bytes ++ after) before.length
      bytes.length .levelBegin entry).Shape [] := rfl
  obtain ⟨eaten, rest, hbytes, hshape⟩ := hstart.scan
    (KernelCursor.tracks_start before bytes after 8 entry)
    (KernelCursor.reads_start before bytes after .levelBegin entry) hscan
  obtain ⟨hend, cap, hcap, hlook⟩ :=
    KernelCursor.finish_loggable hfinish hloggable
  simp only [KernelCursor.Shape, hend, List.nil_append] at hshape
  obtain ⟨r, hseen⟩ | hempty := hshape
  · exact ⟨r, rest, hseen ▸ hbytes⟩
  · rw [hcap] at hempty
    cases hempty
    exact absurd hlook (lt_irrefl _)

/-! ## Rounds of the loop -/

namespace KlogReader

variable {k : KlogReader} {input rest after : List UInt8} {entry : SingleLog}

/-- The bytes still to be parsed, at the beginning of a record. -/
structure Ahead (k : KlogReader) (input after : List UInt8) : Prop where
  split : ∃ behind, k.mem = behind ++ input ++ after ∧
    k.bufCurpos = behind.length
  remain : k.bufRemain = input.length
  state : k.parseState = .levelBegin
  running : k.running = true

theorem Ahead.parsed (h : k.Ahead input after) (entry : SingleLog) :
    ∃ behind res, checkedKlogToSingleLog (behind ++ input ++ after)
        behind.length input.length .levelBegin entry = some res ∧
      k.mem = behind ++ input ++ after ∧ k.bufCurpos = behind.length ∧
      k.parsed entry = res.toKlogResult := by
  obtain ⟨behind, hmem, hpos⟩ := h.split
  obtain ⟨res, hres, -⟩ := KernelCursor.sound_parse
    KernelCursor.safe_klogSwitch behind input after entry
  refine ⟨behind, res, hres, hmem, hpos, ?_⟩
  unfold KlogReader.parsed
  rw [hmem, hpos, h.remain, h.state]
  exact parseSingleKlog_eq hres

theorem Ahead.round_record {r : KlogRecord}
    (h : k.Ahead (r.bytes ++ rest) after) (entry : SingleLog) :
    (k.round entry).Ahead rest after ∧
      (k.round entry).calls =
        k.calls ++ [.submit (entry.filled r.body r.logLevel)] := by
  obtain ⟨behind, res, hres, hmem, hpos, hparsed⟩ := h.parsed entry
  obtain ⟨res', hres', hlogged⟩ := KernelCursor.klog_from_levelBegin r
    (KernelCursor.reads_start behind (r.bytes ++ rest) after .levelBegin entry)
    rfl
  obtain rfl := Option.some.inj (hres.symm.trans hres')
  have hrewritten : res.mem = (behind ++ r.bytes.set 2 0) ++ rest ++ after := by
    refine hlogged.mem.trans ?_
    simp only [kernelStart]
    have hlength := r.length_bytes
    rw [List.append_assoc behind, List.set_append_right _ _ (by omega),
      Nat.add_sub_cancel_left, List.append_assoc r.bytes,
      List.set_append_left _ _ (by omega)]
    simp
  have hmoved : res.moved = (behind ++ r.bytes.set 2 0).length := by
    rw [List.length_append, List.length_set]
    exact hlogged.moved
  constructor
  · refine ⟨⟨behind ++ r.bytes.set 2 0, ?_, ?_⟩, ?_, ?_, ?_⟩
    · simp only [round, hparsed]
      exact hrewritten
    · simp only [round, hparsed]
      exact hmoved
    · simp only [round, hparsed]
      exact hlogged.remain
    · simp only [round, hparsed]
      exact hlogged.beginState
    · simp only [round, hparsed]
      exact hlogged.loggable
  · simp only [round, outcome, hparsed, hlogged.loggable, if_true]
    rw [hlogged.entry]
    rfl

theorem Ahead.round_other (h : k.Ahead input after)
    (hother : ∀ (r : KlogRecord) (rest : List UInt8), input ≠ r.bytes ++ rest)
    (entry : SingleLog) :
    (k.round entry).running = false ∧
      ∃ l, (k.round entry).calls = k.calls ++ [.giveBack l] := by
  obtain ⟨behind, res, hres, hmem, hpos, hparsed⟩ := h.parsed entry
  have hsilent : res.loggable = false := by
    rw [← Bool.not_eq_true]
    intro hloggable
    obtain ⟨r, rest, hinput⟩ := klog_parsed_record hres hloggable
    exact hother r rest hinput
  refine ⟨?_, res.entry, ?_⟩
  · simpa only [round, hparsed] using hsilent
  · simp only [round, outcome, hparsed, hsilent, Bool.false_eq_true, if_false]

theorem drain_of_stopped (hstopped : k.running = false)
    (pool : List SingleLog) : drain pool k = k := by
  cases pool <;> simp [drain, hstopped]

/-- The loop submits the records at the beginning of the input and gives the
next entry back. -/
theorem Ahead.drain_records {records : List KlogRecord} {pool : List SingleLog}
    {stop : List UInt8}
    (h : k.Ahead (records.flatMap (·.bytes) ++ stop) after)
    (hstop : ∀ (r : KlogRecord) (rest : List UInt8), stop ≠ r.bytes ++ rest)
    (hpool : records.length < pool.length) :
    (drain pool k).running = false ∧ (drain pool k).starved = k.starved ∧
      ∃ l, (drain pool k).calls = k.calls ++
        (records.zip pool).map (fun p =>
          .submit (p.2.filled p.1.body p.1.logLevel)) ++ [.giveBack l] := by
  induction records generalizing k pool with
  | nil =>
      obtain ⟨entry, pool, rfl⟩ : ∃ entry tail, pool = entry :: tail :=
        List.exists_cons_of_length_pos hpool
      obtain ⟨hstopped, l, hcalls⟩ := h.round_other hstop entry
      have hdrain : drain (entry :: pool) k = k.round entry := by
        rw [drain, if_pos h.running, drain_of_stopped hstopped]
      rw [hdrain]
      exact ⟨hstopped, rfl, l, by simpa using hcalls⟩
  | cons r records ih =>
      obtain ⟨entry, pool, rfl⟩ : ∃ entry tail, pool = entry :: tail :=
        List.exists_cons_of_length_pos (Nat.zero_lt_of_lt hpool)
      rw [List.flatMap_cons, List.append_assoc] at h
      obtain ⟨hahead, hcalls⟩ := h.round_record entry
      have hpool' : records.length < pool.length := by
        simpa using hpool
      obtain ⟨hstopped, hstarved, l, hcalls'⟩ := ih hahead hpool'
      rw [drain, if_pos h.running]
      refine ⟨hstopped, hstarved, l, ?_⟩
      rw [hcalls', hcalls]
      simp

end KlogReader

/-! ## Reads that consist of records -/

structure KernelMessage where
  text : List UInt8
  level : LevelMask
  tag : TagId
  origin : OriginId
  deriving DecidableEq, Repr

def SingleLog.kernelMessage (l : SingleLog) : KernelMessage :=
  ⟨l.buf.text, l.logMeta.m.level, l.logMeta.m.tag, l.logMeta.m.origin⟩

/-- What should be logged for the record, in an entry of this size. -/
def KlogRecord.message (r : KlogRecord) (size : ℕ) : KernelMessage :=
  ⟨r.body.take size, r.logLevel, greaseTagKernel, 0⟩

theorem SingleLog.kernelMessage_filled (l : SingleLog) (r : KlogRecord) :
    (l.filled r.body r.logLevel).kernelMessage = r.message l.buf.len := by
  unfold SingleLog.kernelMessage KlogRecord.message
  rw [l.text_filled]
  rfl

/-- Entries without text do not reach the queue. -/
theorem queued_records (filled : List (KlogRecord × SingleLog))
    (hsize : ∀ p ∈ filled, 0 < p.2.buf.len) :
    (queued (filled.map fun p =>
        .submit (p.2.filled p.1.body p.1.logLevel))).map (·.kernelMessage) =
      (filled.filter fun p => p.1.body ≠ []).map
        fun p => p.1.message p.2.buf.len := by
  induction filled with
  | nil => rfl
  | cons p filled ih =>
      have hp := hsize p List.mem_cons_self
      have ih' := ih fun q hq => hsize q (List.mem_cons_of_mem _ hq)
      have hused : (p.2.filled p.1.body p.1.logLevel).buf.used < 1 ↔
          p.1.body = [] := by
        rw [← List.length_eq_zero_iff]
        simp only [SingleLog.filled]
        omega
      unfold queued at ih' ⊢
      rw [List.map_cons, List.filterMap_cons]
      by_cases hbody : p.1.body = []
      · simp only [if_pos (hused.mpr hbody)]
        rw [List.filter_cons_of_neg (by simpa using hbody)]
        exact ih'
      · simp only [if_neg (hused.not.mpr hbody)]
        rw [List.filter_cons_of_pos (by simpa using hbody), List.map_cons,
          List.map_cons, ih', SingleLog.kernelMessage_filled]

theorem KlogReader.ahead_read (data junk : List UInt8) :
    (KlogReader.read data junk).Ahead (data ++ (0 :: junk).dropLast)
      [(0 :: junk).getLast (by simp)] where
  split := by
    refine ⟨[], ?_, rfl⟩
    have hsplit := List.dropLast_append_getLast (List.cons_ne_nil 0 junk)
    rw [List.nil_append, List.append_assoc, hsplit]
    rfl
  remain := by
    simp [KlogReader.read]
  state := rfl
  running := rfl

theorem not_record_after_read (junk : List UInt8) (r : KlogRecord)
    (rest : List UInt8) : (0 :: junk).dropLast ≠ r.bytes ++ rest := by
  intro h
  have hhead := congrArg List.head? h
  cases junk with
  | nil => simp [KlogRecord.bytes, KlogRecord.line] at hhead
  | cons b junk => simp [KlogRecord.bytes, KlogRecord.line] at hhead

theorem KlogReader.drain_read (records : List KlogRecord) (junk : List UInt8)
    {pool : List SingleLog} (hpool : records.length < pool.length)
    (hsize : ∀ l ∈ pool, 0 < l.buf.len) :
    let k := KlogReader.drain pool
      (KlogReader.read (records.flatMap (·.bytes)) junk)
    k.running = false ∧ k.starved = false ∧
      (queued k.calls).map (·.kernelMessage) =
        ((records.zip pool).filter fun p => p.1.body ≠ []).map
          fun p => p.1.message p.2.buf.len := by
  obtain ⟨hstopped, hstarved, l, hcalls⟩ :=
    (KlogReader.ahead_read (records.flatMap (·.bytes)) junk).drain_records
      (not_record_after_read junk) hpool
  refine ⟨hstopped, hstarved, ?_⟩
  rw [hcalls, queued_append, queued_append, queued_giveBack, List.append_nil]
  exact queued_records (records.zip pool) fun p hp =>
    hsize p.2 (List.of_mem_zip hp).2

/-- A read of records only: those with a body are submitted, in order, and
nothing else. -/
theorem klog_batch_submitted (records : List KlogRecord) (junk : List UInt8)
    (pool : List SingleLog) (hpool : records.length < pool.length)
    (hsize : ∀ l ∈ pool, 0 < l.buf.len) :
    let k := KlogReader.drain pool
      (KlogReader.read (records.flatMap (·.bytes)) junk)
    k.running = false ∧ k.starved = false ∧
      (queued k.calls).map (·.kernelMessage) =
        ((records.zip pool).filter fun p => p.1.body ≠ []).map
          fun p => p.1.message p.2.buf.len :=
  KlogReader.drain_read records junk hpool hsize

def quietRecord : KlogRecord where
  level := 100
  time := [49]
  separator := 32
  body := []
  level_ok := by decide
  time_ok := List.all_eq_true.mp rfl
  separator_ok := by decide
  body_ok := by decide

def loudRecord : KlogRecord where
  level := 51
  time := [32, 49, 46, 53]
  separator := 32
  body := [104, 105]
  level_ok := by decide
  time_ok := List.all_eq_true.mp rfl
  separator_ok := by decide
  body_ok := by decide

/-- `<d>[1] ` and `<3>[ 1.5] hi`, in entries of one byte. -/
theorem klog_batch_submitted_two :
    let k := KlogReader.drain
      (List.replicate 3 (SingleLog.new (some 0) 1))
      (KlogReader.read ([quietRecord, loudRecord].flatMap (·.bytes)) [7, 7])
    k.running = false ∧ k.starved = false ∧
      (queued k.calls).map (·.kernelMessage) =
        [⟨[104], greaseLevelError, greaseTagKernel, 0⟩] :=
  klog_batch_submitted [quietRecord, loudRecord] [7, 7]
    (List.replicate 3 (SingleLog.new (some 0) 1)) (by decide) (by decide)

/-- On a command queue with room the records of such a read are behind whatever
was there. -/
theorem klog_batch_on_queue (records : List KlogRecord) (junk : List UInt8)
    {pool : List SingleLog} (hpool : records.length < pool.length)
    (hsize : ∀ l ∈ pool, 0 < l.buf.len) (s : Logger)
    (hroom : s.owner.internalCmdQueue.items.length + records.length ≤
      s.owner.internalCmdQueue.capacity) :
    let k := KlogReader.drain pool
      (KlogReader.read (records.flatMap (·.bytes)) junk)
    ∃ entries : List SingleLog,
      (k.calls.foldl Logger.poolCall s).owner.internalCmdQueue.items =
        s.owner.internalCmdQueue.items ++ entries.map InternalCmdReq.newLog ∧
      entries.map (·.kernelMessage) =
        ((records.zip pool).filter fun p => p.1.body ≠ []).map
          fun p => p.1.message p.2.buf.len := by
  intro k
  have hqueued := (KlogReader.drain_read records junk hpool hsize).2.2
  have hlength : (queued k.calls).length ≤ records.length := by
    have hmessages := congrArg List.length hqueued
    rw [List.length_map, List.length_map] at hmessages
    rw [hmessages]
    refine (List.length_filter_le _ _).trans ?_
    rw [List.length_zip]
    exact min_le_left _ _
  refine ⟨((queued k.calls).zipIdx s.nextSeq).map fun p => { p.1 with seq := p.2 },
    ?_, ?_⟩
  · rw [Logger.poolCalls_commands k.calls s (by omega), List.map_map]
    rfl
  · -- The number of an entry is not part of its message.
    rw [← hqueued, List.map_map]
    change ((queued k.calls).zipIdx s.nextSeq).map
      ((fun l : SingleLog => l.kernelMessage) ∘ Prod.fst) = _
    rw [← List.map_map, List.zipIdx_map_fst]

/-! ## Reads that consist of lines -/

/-- The record on a line, if there is one. -/
def KlogRecord.ofLine? : List UInt8 → Option KlogRecord
  | 60 :: level :: 62 :: 91 :: rest =>
      match rest.dropWhile isTimeByte with
      | 93 :: separator :: body =>
          if h : (level = 100 ∨ (48 ≤ level ∧ level < 56)) ∧
              separator ≠ 10 ∧ 10 ∉ body then
            some {
              level := level
              time := rest.takeWhile isTimeByte
              separator := separator
              body := body
              level_ok := h.1
              time_ok := fun _ hb => List.mem_takeWhile_imp hb
              separator_ok := h.2.1
              body_ok := h.2.2 }
          else none
      | _ => none
  | _ => none

theorem KlogRecord.ofLine?_eq_some_iff {line : List UInt8} {r : KlogRecord} :
    KlogRecord.ofLine? line = some r ↔ r.line = line := by
  constructor
  · intro h
    unfold KlogRecord.ofLine? at h
    split at h
    · rename_i level rest
      split at h
      · rename_i separator body hrest
        split at h
        · cases h
          have hsplit := List.takeWhile_append_dropWhile (p := isTimeByte)
            (l := rest)
          rw [hrest] at hsplit
          simp only [KlogRecord.line]
          nth_rewrite 2 [← hsplit]
          simp
        · cases h
      · cases h
    · cases h
  · rintro rfl
    have hdrop : (r.time ++ 93 :: r.separator :: r.body).dropWhile isTimeByte =
        93 :: r.separator :: r.body := by
      rw [List.dropWhile_append_of_pos r.time_ok]
      rfl
    have htake : (r.time ++ 93 :: r.separator :: r.body).takeWhile isTimeByte =
        r.time := by
      rw [List.takeWhile_append_of_pos r.time_ok]
      simp [isTimeByte]
    have hline : r.line =
        60 :: r.level :: 62 :: 91 :: (r.time ++ 93 :: r.separator :: r.body) := by
      simp [KlogRecord.line]
    have hok : (r.level = 100 ∨ (48 ≤ r.level ∧ r.level < 56)) ∧
        r.separator ≠ 10 ∧ 10 ∉ r.body :=
      ⟨r.level_ok, r.separator_ok, r.body_ok⟩
    rw [hline]
    simp only [KlogRecord.ofLine?, hdrop, htake, dif_pos hok]

def isRecordLine (line : List UInt8) : Bool := (KlogRecord.ofLine? line).isSome

/-- The records with a body among the lines. -/
def loggableRecords (lines : List (List UInt8)) : List KlogRecord :=
  (lines.filterMap KlogRecord.ofLine?).filter fun r => r.body ≠ []

def joinLines (lines : List (List UInt8)) : List UInt8 :=
  lines.flatMap (· ++ [10])

/-- Each record with a body is submitted once. -/
def LinesSubmitted (lines : List (List UInt8)) (junk : List UInt8)
    (pool : List SingleLog) (size : ℕ) : Prop :=
  ((queued (KlogReader.drain pool
      (KlogReader.read (joinLines lines) junk)).calls).map
        (·.kernelMessage)).Perm
    ((loggableRecords lines).map (·.message size))

theorem KlogRecord.newline_notMem_line (r : KlogRecord) : 10 ∉ r.line := by
  intro h
  have hlevel : r.level ≠ 10 := by
    intro heq
    have hok := r.level_ok
    rw [heq] at hok
    exact absurd hok (by decide)
  simp only [KlogRecord.line, List.mem_append, List.mem_cons, List.not_mem_nil,
    or_false] at h
  obtain (((h | h | h | h) | h) | h | h) | h := h
  · exact absurd h (by decide)
  · exact hlevel h.symm
  · exact absurd h (by decide)
  · exact absurd h (by decide)
  · exact absurd (r.time_ok 10 h) (by decide)
  · exact absurd h (by decide)
  · exact r.separator_ok h.symm
  · exact r.body_ok h

theorem eq_of_append_newline {a b x y : List UInt8} (ha : 10 ∉ a) (hb : 10 ∉ b)
    (h : a ++ 10 :: x = b ++ 10 :: y) : a = b := by
  have hcut : ∀ {l : List UInt8} (tail : List UInt8), 10 ∉ l →
      (l ++ 10 :: tail).takeWhile (· != 10) = l := by
    intro l tail hl
    rw [List.takeWhile_append_of_pos]
    · simp
    · intro c hc
      simp only [bne_iff_ne]
      rintro rfl
      exact hl hc
  rw [← hcut x ha, h, hcut y hb]

/-- What is left after the leading records does not begin with one. -/
theorem not_record_after_lines {lines : List (List UInt8)}
    (hlines : ∀ line ∈ lines, 10 ∉ line) (junk : List UInt8) (r : KlogRecord)
    (rest : List UInt8) :
    joinLines (lines.dropWhile isRecordLine) ++ (0 :: junk).dropLast ≠
      r.bytes ++ rest := by
  intro h
  cases hdrop : lines.dropWhile isRecordLine with
  | nil =>
      rw [hdrop] at h
      exact not_record_after_read junk r rest h
  | cons line more =>
      have hbad : isRecordLine line = false := by
        have hhead := List.head?_dropWhile_not isRecordLine lines
        rw [hdrop] at hhead
        simpa using hhead
      have hline : 10 ∉ line := by
        apply hlines
        apply List.dropWhile_subset
        rw [hdrop]
        exact List.mem_cons_self
      rw [hdrop] at h
      simp only [joinLines, List.flatMap_cons, KlogRecord.bytes,
        List.append_assoc, List.singleton_append] at h
      have hsame := eq_of_append_newline hline r.newline_notMem_line h
      rw [isRecordLine, KlogRecord.ofLine?_eq_some_iff.mpr hsame.symm] at hbad
      cases hbad

theorem joinLines_records {lines : List (List UInt8)}
    (hrecords : ∀ line ∈ lines, isRecordLine line = true) :
    joinLines lines =
      (lines.filterMap KlogRecord.ofLine?).flatMap (·.bytes) := by
  induction lines with
  | nil => rfl
  | cons line lines ih =>
      obtain ⟨r, hr⟩ := Option.isSome_iff_exists.mp
        (hrecords line List.mem_cons_self)
      have hline := KlogRecord.ofLine?_eq_some_iff.mp hr
      have ih' := ih fun other hother =>
        hrecords other (List.mem_cons_of_mem _ hother)
      unfold joinLines at ih' ⊢
      rw [List.flatMap_cons, List.filterMap_cons_some hr, List.flatMap_cons, ih',
        KlogRecord.bytes, hline]

theorem messages_of_uniform_pool {records : List KlogRecord}
    {pool : List SingleLog} {size : ℕ} (hpool : records.length ≤ pool.length)
    (hsize : ∀ l ∈ pool, l.buf.len = size) :
    ((records.zip pool).filter fun p => p.1.body ≠ []).map
        (fun p => p.1.message p.2.buf.len) =
      (records.filter fun r => r.body ≠ []).map (·.message size) := by
  have hsame : ∀ p ∈ (records.zip pool).filter fun p => p.1.body ≠ [],
      p.1.message p.2.buf.len = p.1.message size := by
    intro p hp
    rw [hsize p.2 (List.of_mem_zip (List.mem_of_mem_filter hp)).2]
  rw [List.map_congr_left hsame]
  nth_rewrite 2 [← List.map_fst_zip hpool]
  rw [List.filter_map, List.map_map]
  rfl

/-- What the loop submits of a read that consists of lines: the records in
front of the first line which is none. -/
theorem submitted_of_lines {lines : List (List UInt8)}
    (hlines : ∀ line ∈ lines, 10 ∉ line) (junk : List UInt8)
    {pool : List SingleLog} (hpool : lines.length < pool.length) {size : ℕ}
    (hsize : ∀ l ∈ pool, l.buf.len = size) (hpos : 0 < size) :
    (queued (KlogReader.drain pool
        (KlogReader.read (joinLines lines) junk)).calls).map
          (·.kernelMessage) =
      (loggableRecords (lines.takeWhile isRecordLine)).map (·.message size) := by
  have hjoin : joinLines lines =
      ((lines.takeWhile isRecordLine).filterMap
        KlogRecord.ofLine?).flatMap (·.bytes) ++
          joinLines (lines.dropWhile isRecordLine) := by
    rw [← joinLines_records fun line hline => List.mem_takeWhile_imp hline]
    unfold joinLines
    rw [← List.flatMap_append, List.takeWhile_append_dropWhile]
  have hahead := KlogReader.ahead_read (joinLines lines) junk
  have hlength : ((lines.takeWhile isRecordLine).filterMap
      KlogRecord.ofLine?).length < pool.length := by
    have hfilter := List.length_filterMap_le KlogRecord.ofLine?
      (lines.takeWhile isRecordLine)
    have htake := (List.takeWhile_sublist isRecordLine (l := lines)).length_le
    omega
  generalize hread : KlogReader.read (joinLines lines) junk = k at hahead ⊢
  rw [hjoin, List.append_assoc] at hahead
  obtain ⟨-, -, l, hcalls⟩ := hahead.drain_records
    (not_record_after_lines hlines junk) hlength
  have hempty : k.calls = [] := by rw [← hread]; rfl
  rw [hcalls, queued_append, queued_append, queued_giveBack, List.append_nil,
    hempty]
  have hpool' : ∀ p ∈ ((lines.takeWhile isRecordLine).filterMap
      KlogRecord.ofLine?).zip pool, 0 < p.2.buf.len := by
    intro p hp
    rw [hsize p.2 (List.of_mem_zip hp).2]
    exact hpos
  exact (queued_records _ hpool').trans
    (messages_of_uniform_pool hlength.le hsize)

theorem loggableRecords_append (a b : List (List UInt8)) :
    loggableRecords (a ++ b) = loggableRecords a ++ loggableRecords b := by
  simp [loggableRecords, List.filterMap_append]

/-- The line is a record with a body. -/
def IsLoggableLine (line : List UInt8) : Prop :=
  ∃ r, KlogRecord.ofLine? line = some r ∧ r.body ≠ []

theorem loggableRecords_eq_nil_iff {lines : List (List UInt8)} :
    loggableRecords lines = [] ↔ ∀ line ∈ lines, ¬IsLoggableLine line := by
  simp only [loggableRecords, List.filter_eq_nil_iff, List.mem_filterMap,
    IsLoggableLine, decide_eq_true_eq]
  constructor
  · rintro h line hline ⟨r, hr, hbody⟩
    exact h r ⟨line, hline, hr⟩ hbody
  · rintro h r ⟨line, hline, hr⟩ hbody
    exact h line hline ⟨r, hr, hbody⟩

/-- No record with a body stands behind a line that is no record. -/
theorem pairwise_record_iff {lines : List (List UInt8)} :
    lines.Pairwise (fun earlier later =>
        IsLoggableLine later → isRecordLine earlier = true) ↔
      loggableRecords (lines.dropWhile isRecordLine) = [] := by
  induction lines with
  | nil => simp [loggableRecords]
  | cons line lines ih =>
      rw [List.pairwise_cons]
      cases hrecord : isRecordLine line with
      | true =>
          rw [List.dropWhile_cons_of_pos hrecord, ← ih]
          simp
      | false =>
          rw [List.dropWhile_cons_of_neg (by simp [hrecord]),
            loggableRecords_eq_nil_iff]
          simp only [Bool.false_eq_true, imp_false, List.forall_mem_cons]
          constructor
          · rintro ⟨hlater, -⟩
            refine ⟨?_, hlater⟩
            rintro ⟨r, hr, -⟩
            rw [isRecordLine, hr] at hrecord
            cases hrecord
          · rintro ⟨-, hlater⟩
            refine ⟨hlater, ?_⟩
            apply List.pairwise_of_forall_mem_list
            intro earlier _ later hmem hloggable
            exact absurd hloggable (hlater later hmem)

/-- The records of a read that consists of lines are submitted once each exactly
if no record with a body stands behind a line that is no record. -/
theorem lines_submitted_iff (lines : List (List UInt8))
    (hlines : ∀ line ∈ lines, 10 ∉ line) (junk : List UInt8)
    (pool : List SingleLog) (hpool : lines.length < pool.length) (size : ℕ)
    (hsize : ∀ l ∈ pool, l.buf.len = size) (hpos : 0 < size) :
    LinesSubmitted lines junk pool size ↔
      lines.Pairwise fun earlier later =>
        IsLoggableLine later → isRecordLine earlier = true := by
  unfold LinesSubmitted
  rw [submitted_of_lines hlines junk hpool hsize hpos, pairwise_record_iff]
  have hsplit : loggableRecords lines =
      loggableRecords (lines.takeWhile isRecordLine) ++
        loggableRecords (lines.dropWhile isRecordLine) := by
    rw [← loggableRecords_append, List.takeWhile_append_dropWhile]
  rw [hsplit, List.map_append]
  constructor
  · intro hperm
    have hlength := hperm.length_eq
    simp only [List.length_append, List.length_map] at hlength
    exact List.length_eq_zero_iff.mp (by omega)
  · intro hnil
    rw [hnil, List.map_nil, List.append_nil]

theorem lines_submitted_two :
    LinesSubmitted [quietRecord.line, loudRecord.line] [7]
      (List.replicate 3 (SingleLog.new (some 0) 100)) 100 :=
  (lines_submitted_iff [quietRecord.line, loudRecord.line] (by decide) [7]
    (List.replicate 3 (SingleLog.new (some 0) 100)) (by decide) 100 (by decide)
    (by decide)).mpr
      (List.Pairwise.cons (fun _ _ _ => rfl) (List.pairwise_singleton _ _))

/-- The record behind `<c>x` is lost. -/
theorem record_lost_behind_continuation :
    ¬LinesSubmitted [[60, 99, 62, 120], loudRecord.line] []
      (List.replicate 3 (SingleLog.new (some 0) 100)) 100 := by
  intro h
  have hlength := h.length_eq
  revert hlength
  decide +kernel

end GreaseLog
