import GreaseLog.KernelSplits
import GreaseLog.KlogBatches
import GreaseLog.Run

/-!
# The listener for `/dev/kmsg`

`KernelProcKmsg2Sink::listener_work` waits for `/dev/kmsg` to become readable,
takes an entry from the pool, reads and parses one record into it, and submits
the entry or gives it back.  A record that was not complete is to be continued
with the next read, in the same entry.

What the kernel and the other threads do in a round is its input; the
listener ends with `stop_thread`, or with one of the `break`s inside.
-/

namespace GreaseLog

open Run

/-! ## The loop -/

/-- The world of one round.  `data` is what `read` delivers, with nothing for
an empty or failed read; `grabbed` is what the pool would give. -/
structure KmsgWake where
  selected : Bool
  readable : Bool
  grabbed : Option SingleLog
  data : List UInt8
  stopThread : Bool

/-- The variables of the loop.  `taken` and `calls` note what was done with the
pool, `stopped` that the loop was left because of `stop_thread`. -/
structure KmsgListener where
  tempBufferEntry : List UInt8
  readInto : ℕ
  bufCurpos : ℕ
  parseState : KlogParseState
  entry : Option SingleLog
  taken : List SingleLog
  calls : List PoolCall
  running : Bool
  stopped : Bool
  crashed : Bool

namespace KmsgListener

def start (tempBufferEntry : List UInt8) : KmsgListener where
  tempBufferEntry := tempBufferEntry
  readInto := 0
  bufCurpos := 0
  parseState := .levelBegin
  entry := none
  taken := []
  calls := []
  running := true
  stopped := false
  crashed := false

def crash (k : KmsgListener) : KmsgListener :=
  { k with running := false, crashed := true }

def leave (k : KmsgListener) : KmsgListener :=
  { k with running := false }

/-- The bytes in the buffer after `read` and the terminator behind them. -/
def filledBuffer (k : KmsgListener) (data : List UInt8) : List UInt8 :=
  k.tempBufferEntry.take k.readInto ++ data ++
    0 :: k.tempBufferEntry.drop (k.readInto + data.length + 1)

/-- What follows the call of the parser. -/
def afterParse (k : KmsgListener) (r : KernelResult) : KmsgListener :=
  let k := { k with
    tempBufferEntry := r.mem
    bufCurpos := r.moved
    parseState := r.beginState }
  if r.loggable then
    { k with
      calls := k.calls ++ [.submit r.entry]
      readInto := 0
      entry := none }
  else if r.beginState = .invalid then
    leave { k with
      calls := k.calls ++ [.giveBack r.entry]
      readInto := 0
      parseState := .levelBegin
      entry := none }
  else
    leave { k with
      readInto := r.moved
      entry := some r.entry }

/-- The `read` and what is done with its result.  Without an entry the code
would follow the null pointer. -/
def readRecord (k : KmsgListener) (data : List UInt8) : KmsgListener :=
  match k.entry with
  | none => k.crash
  | some l =>
      if data = [] then
        { k with calls := k.calls ++ [.giveBack l], entry := none }
      else
        match parseSingleDevklogToSingleLog (k.filledBuffer data) k.readInto
            data.length k.parseState l with
        | none => k.crash
        | some r => k.afterParse r

/-- `/dev/kmsg` is readable.  An entry is taken only if there is no fragment. -/
def kmsgReadable (k : KmsgListener) (w : KmsgWake) : KmsgListener :=
  if k.parseState ≠ .levelBegin then k.readRecord w.data
  else
    match w.grabbed with
    | none => k.leave
    | some l =>
        { k with entry := some l, taken := k.taken ++ [l] }.readRecord w.data

/-- The test of `stop_thread` at the end of a round. -/
def checkStop (k : KmsgListener) (stopThread : Bool) : KmsgListener :=
  if stopThread then
    { k with
      calls := k.calls ++ (k.entry.map PoolCall.giveBack).toList
      running := false
      stopped := true }
  else k

def round (k : KmsgListener) (w : KmsgWake) : KmsgListener :=
  if k.running then
    let k := if w.selected && w.readable then k.kmsgReadable w else k
    if k.running then k.checkStop w.stopThread else k
  else k

end KmsgListener

/-! ## What the parser takes for a record -/

/-- A semicolon, and something behind it. -/
def hasBody (bytes : List UInt8) : Bool :=
  match bytes.dropWhile (· != 59) with
  | _ :: _ :: _ => true
  | _ => false

/-- One or two bytes and a comma, then a semicolon and something behind it.  The
first byte is not a `c`. -/
def isCompleteRecord : List UInt8 → Bool
  | first :: second :: rest =>
      if second = 44 then first != 99 && hasBody rest
      else
        match rest with
        | third :: rest => third == 44 && first != 99 && hasBody rest
        | [] => false
  | _ => false

namespace KernelCursor

variable {c c' : KernelCursor} {b : UInt8} {input rest : List UInt8}

/-- Everything behind a continuation mark is skipped. -/
theorem devKlog_continuation (hstate : c.state = .contBodyBegin)
    (h : c.Reads input) :
    ∃ c', scan devKlogSwitch input.length c = some (c', 0) ∧
      c'.state ≠ .endLog := by
  have hstay : ∀ (n : ℕ) (b : UInt8) (tail : List UInt8), b ∈ input →
      (c.skip n).Reads (b :: tail) →
        devKlogSwitch (b :: tail).length (c.skip n) = some (c.skip n) := by
    intro n b tail _ _
    have hskip : (c.skip n).state = .contBodyBegin := hstate
    unfold devKlogSwitch
    rw [hskip]
    rfl
  rw [← List.append_nil input] at h
  obtain ⟨hscan, -⟩ := scan_skip input hstay (by simp [hstate]) h
  rw [List.append_nil] at hscan
  exact ⟨_, hscan, by simp [skip, hstate]⟩

/-- The result is a record in the entry that was given, or none. -/
structure Takes (c : KernelCursor) (input : List UInt8) (complete : Bool) :
    Prop where
  parsed : ∃ res, c.parse devKlogSwitch input.length = some res ∧
    res.loggable = complete ∧
    (complete = true →
      res.beginState = .levelBegin ∧ res.entry.slot = c.entry.slot)

theorem takes_nothing (hscan : ∃ c', scan devKlogSwitch input.length c =
      some (c', 0) ∧ c'.state ≠ .endLog) :
    c.Takes input false := by
  obtain ⟨c', hscan, hstate⟩ := hscan
  exact ⟨_, parse_of_scan hscan (finish_running hstate 0), rfl, by simp⟩

theorem Takes.of_scan {complete : Bool} (h : c'.Takes rest complete)
    (hscan : scan devKlogSwitch input.length c =
      scan devKlogSwitch rest.length c')
    (hslot : c'.entry.slot = c.entry.slot) : c.Takes input complete := by
  obtain ⟨res, hparse, hloggable, hcomplete⟩ := h.parsed
  refine ⟨res, ?_, hloggable, fun h => ⟨(hcomplete h).1, ?_⟩⟩
  · unfold parse at hparse ⊢
    rw [hscan, hparse]
  · rw [(hcomplete h).2, hslot]

/-- Behind the comma the parser needs a semicolon and a body. -/
theorem takes_hasBody (h : c.Reads input) (hstate : c.state = .timeStampBegin) :
    c.Takes input (hasBody input) := by
  have hsplit := List.takeWhile_append_dropWhile (p := (· != 59)) (l := input)
  have hhead := List.head?_dropWhile_not (· != 59) input
  have hfields : 59 ∉ input.takeWhile (· != 59) := by
    intro hmem
    have hne := List.mem_takeWhile_imp hmem
    simp at hne
  unfold hasBody
  generalize input.takeWhile (· != 59) = fields at hsplit hfields
  generalize input.dropWhile (· != 59) = tail at hsplit hhead
  subst hsplit
  match tail with
  | [] =>
      rw [List.append_nil] at h ⊢
      exact takes_nothing
        ⟨_, devKlog_fields_part hfields h hstate, by simp⟩
  | [x] =>
      obtain rfl : x = 59 := by simpa using hhead
      exact takes_nothing
        ⟨_, devKlog_bodyBegin_part hfields h hstate, by simp⟩
  | x :: y :: more =>
      obtain rfl : x = 59 := by simpa using hhead
      obtain ⟨body, last, hbody⟩ : ∃ body last, y :: more = body ++ [last] :=
        ⟨_, _, (List.dropLast_append_getLast (List.cons_ne_nil y more)).symm⟩
      change c.Takes (fields ++ 59 :: y :: more) true
      rw [hbody] at h ⊢
      have hentry : c.entry = c.entry.withLevel c.entry.logMeta.m.level := rfl
      obtain ⟨res, hparse, hlogged⟩ :=
        devKlog_from_timeStampBegin hfields h hstate hentry
      refine ⟨res, hparse, hlogged.loggable, fun _ =>
        ⟨hlogged.beginState, ?_⟩⟩
      rw [hlogged.entry]
      rfl

/-- The comma ends the level, whatever the byte in front of it is. -/
theorem devKlogLevelEnd_near {cap : ℕ} {first : UInt8}
    (h : c.Reads (b :: input)) (hcap : c.cap = some cap) (hlo : c.lo ≤ cap)
    (hlook : c.look = cap + 1 ∨ c.look = cap + 2)
    (hfirst : c.mem.getD cap 0 = first) (hcont : first ≠ 99) :
    ∃ c' level, c.devKlogLevelEnd = some c' ∧ c.Levelled c' level := by
  have hload : c.terminated.load cap = some first := by
    rw [load_terminated hlo (by omega) h.look_lt h.inside, hfirst]
  have hfilter := terminated_filter hcap hlook
  obtain ⟨k, hnumber⟩ :=
    devKlogLevel_eq_some first hlo h.look_lt h.inside hlook
  by_cases hdefault : first = 100
  · refine ⟨_, greaseKlogDefaultLevel, ?_,
      levelled_setLevel c greaseKlogDefaultLevel⟩
    unfold devKlogLevelEnd
    simp only [store_eq_some h.low h.look_lt h.inside, hfilter, hload,
      Option.bind_eq_bind, Option.bind_some, if_neg hcont, if_pos hdefault]
    rfl
  · obtain ⟨c', hc', hlevelled⟩ := levelled_number c k
    refine ⟨c', _, ?_, hlevelled⟩
    unfold devKlogLevelEnd
    simp only [store_eq_some h.low h.look_lt h.inside, hfilter, hload, hnumber,
      Option.bind_eq_bind, Option.bind_some, if_neg hcont, if_neg hdefault]
    exact hc'

theorem devKlogLevelEnd_continuation {cap : ℕ}
    (h : c.Reads (b :: input)) (hcap : c.cap = some cap) (hlo : c.lo ≤ cap)
    (hlook : c.look = cap + 1 ∨ c.look = cap + 2)
    (hfirst : c.mem.getD cap 0 = 99) :
    c.devKlogLevelEnd = some (c.terminated.enter .contBodyBegin) := by
  have hload : c.terminated.load cap = some 99 := by
    rw [load_terminated hlo (by omega) h.look_lt h.inside, hfirst]
  have hfilter := terminated_filter hcap hlook
  unfold devKlogLevelEnd
  simp only [store_eq_some h.low h.look_lt h.inside, hfilter, hload,
    Option.bind_eq_bind, Option.bind_some]
  rfl

/-- From the comma on. -/
theorem takes_comma {cap : ℕ} {first : UInt8}
    (h : c.Reads (44 :: input)) (hstate : c.state = .inLevel)
    (hcap : c.cap = some cap) (hlo : c.lo ≤ cap)
    (hlook : c.look = cap + 1 ∨ c.look = cap + 2)
    (hfirst : c.mem.getD cap 0 = first) :
    c.Takes (44 :: input) (first != 99 && hasBody input) := by
  have hrun : ¬c.Stopped := by simp [Stopped, hstate]
  by_cases hcont : first = 99
  · subst hcont
    have hend := devKlogLevelEnd_continuation h hcap hlo hlook hfirst
    have hswitch : devKlogSwitch (44 :: input).length c =
        some (c.terminated.enter .contBodyBegin) := by
      unfold devKlogSwitch
      simp [hstate, h.load, hend]
    have hreads : (c.terminated.enter .contBodyBegin).next.Reads input :=
      h.next rfl rfl rfl (Or.inr rfl)
    have htakes : (c.terminated.enter .contBodyBegin).next.Takes input false :=
      takes_nothing (devKlog_continuation rfl hreads)
    exact htakes.of_scan (scan_cons hrun hswitch) rfl
  · obtain ⟨c', level, hend, hlevelled⟩ :=
      devKlogLevelEnd_near h hcap hlo hlook hfirst hcont
    have hswitch : devKlogSwitch (44 :: input).length c = some c' := by
      unfold devKlogSwitch
      simp [hstate, h.load, hend]
    have htakes : c'.next.Takes input (hasBody input) :=
      takes_hasBody (hlevelled.reads h) hlevelled.state
    have hslot : c'.next.entry.slot = c.entry.slot := by
      simp only [next, hlevelled.entry]
      rfl
    have hfinal := htakes.of_scan (scan_cons hrun hswitch) hslot
    have hbool : (first != 99) = true := by simpa using hcont
    rw [hbool, Bool.true_and]
    exact hfinal

theorem takes_complete (h : c.Reads input) (hstate : c.state = .levelBegin) :
    c.Takes input (isCompleteRecord input) := by
  cases input with
  | nil => exact takes_nothing ⟨c, rfl, by simp [hstate]⟩
  | cons first input =>
      obtain ⟨hscan, hreads⟩ := devKlog_levelBegin h hstate
      cases input with
      | nil => exact takes_nothing ⟨_, hscan, by simp [next, enter]⟩
      | cons second rest =>
          have hlow := h.low
          generalize hc₁ : ((c.capture c.look).enter .inLevel).next = c₁
            at hscan hreads
          have hstate₁ : c₁.state = .inLevel := by rw [← hc₁]; rfl
          have hcap₁ : c₁.cap = some c.look := by rw [← hc₁]; rfl
          have hlook₁ : c₁.look = c.look + 1 := by rw [← hc₁]; rfl
          have hlo₁ : c₁.lo ≤ c.look := by rw [← hc₁]; exact hlow
          have hfirst₁ : c₁.mem.getD c.look 0 = first := by
            rw [← hc₁]
            exact h.getD
          have hslot₁ : c₁.entry.slot = c.entry.slot := by rw [← hc₁]; rfl
          simp only [isCompleteRecord]
          by_cases hcomma : second = 44
          · rw [if_pos hcomma]
            subst hcomma
            exact (takes_comma hreads hstate₁ hcap₁ hlo₁ (Or.inl hlook₁)
              hfirst₁).of_scan hscan hslot₁
          · rw [if_neg hcomma]
            have hswitch : devKlogSwitch (second :: rest).length c₁ =
                some c₁ := by
              unfold devKlogSwitch
              simp [hstate₁, hreads.load, hcomma]
            have hreads₂ : c₁.next.Reads rest :=
              hreads.next rfl rfl rfl (Or.inl rfl)
            have hscan₂ := hscan.trans
              (scan_cons (by simp [Stopped, hstate₁]) hswitch)
            cases rest with
            | nil => exact takes_nothing ⟨_, hscan₂, by simp [next, hstate₁]⟩
            | cons third rest =>
                by_cases hcomma₂ : third = 44
                · subst hcomma₂
                  have htakes := takes_comma hreads₂ hstate₁ hcap₁ hlo₁
                    (Or.inr (congrArg (· + 1) hlook₁)) hfirst₁
                  simpa using htakes.of_scan hscan₂ hslot₁
                · have hbool : (third == 44) = false := by simpa using hcomma₂
                  simp only [hbool, Bool.false_and]
                  have hswitch₂ : devKlogSwitch (third :: rest).length
                      c₁.next = some c₁.next := by
                    have hstate₂ : c₁.next.state = .inLevel := hstate₁
                    unfold devKlogSwitch
                    simp [hstate₂, hreads₂.load, hcomma₂]
                  have hstuck : c₁.next.next.Stuck := by
                    refine ⟨hstate₁, fun cap hcap => ?_⟩
                    obtain rfl : c.look = cap :=
                      Option.some.inj (hcap₁.symm.trans hcap)
                    simp only [next, hlook₁]
                    omega
                  obtain ⟨c', hscan₃, hstate₃, -⟩ := hstuck.scan
                    (hreads₂.next rfl rfl rfl (Or.inl rfl))
                  have hscan₄ := hscan₂.trans ((scan_cons
                    (by simp [Stopped, next, hstate₁]) hswitch₂).trans hscan₃)
                  exact takes_nothing ⟨c', hscan₄, by simp [hstate₃]⟩

end KernelCursor

/-! ## Rounds -/

def PoolCall.entry : PoolCall → SingleLog
  | .submit l => l
  | .giveBack l => l

namespace KmsgListener

variable {k : KmsgListener} {w : KmsgWake} {l : SingleLog}

/-- Every entry that was taken has been submitted or given back once. -/
def Settled (k : KmsgListener) : Prop :=
  k.calls.map (·.entry.slot) = k.taken.map (·.slot)

/-- The listener is in its loop, or it was told to stop and holds no entry. -/
def Survives (k : KmsgListener) : Prop :=
  (k.running = true ∨ k.stopped = true) ∧
    (k.running = false → k.Settled) ∧ k.crashed = false

/-- A read that delivers bytes delivers a complete record. -/
def ReadsComplete (k : KmsgListener) (w : KmsgWake) : Prop :=
  k.running = true → w.selected = true → w.readable = true → w.data ≠ [] →
    isCompleteRecord w.data = true

structure Waiting (k : KmsgListener) : Prop where
  running : k.running = true
  state : k.parseState = .levelBegin
  entry : k.entry = none
  readInto : k.readInto = 0
  settled : k.Settled
  stopped : k.stopped = false
  crashed : k.crashed = false

structure Ended (k : KmsgListener) : Prop where
  running : k.running = false
  settled : k.Settled
  stopped : k.stopped = true
  crashed : k.crashed = false

theorem Waiting.survives (h : k.Waiting) : k.Survives := by
  refine ⟨Or.inl h.running, fun hstopped => ?_, h.crashed⟩
  rw [h.running] at hstopped
  cases hstopped

theorem Ended.survives (h : k.Ended) : k.Survives :=
  ⟨Or.inr h.stopped, fun _ => h.settled, h.crashed⟩

theorem Ended.round (h : k.Ended) (w : KmsgWake) : k.round w = k := by
  unfold KmsgListener.round
  rw [h.running]
  rfl

theorem Waiting.checkStop (h : k.Waiting) (stopThread : Bool) :
    (k.checkStop stopThread).Waiting ∨ (k.checkStop stopThread).Ended := by
  unfold KmsgListener.checkStop
  cases stopThread with
  | false => exact Or.inl h
  | true =>
      refine Or.inr ⟨rfl, ?_, rfl, h.crashed⟩
      have hsettled := h.settled
      simpa [Settled, h.entry] using hsettled

/-- The entry is taken and settled in the same round. -/
theorem Settled.append {call : PoolCall} (h : k.Settled)
    (hslot : call.entry.slot = l.slot) :
    (k.calls ++ [call]).map (·.entry.slot) = (k.taken ++ [l]).map (·.slot) := by
  unfold Settled at h
  rw [List.map_append, List.map_append, h]
  simp [hslot]

theorem Waiting.kmsgReadable_empty (h : k.Waiting) (hgrab : w.grabbed = some l)
    (hdata : w.data = []) : (k.kmsgReadable w).Waiting := by
  have hstate : ¬k.parseState ≠ .levelBegin := by simp [h.state]
  unfold kmsgReadable readRecord
  simp only [if_neg hstate, hgrab, if_pos hdata]
  exact ⟨h.running, h.state, rfl, h.readInto, h.settled.append rfl, h.stopped,
    h.crashed⟩

/-- What the parser makes of the bytes of a read. -/
theorem Waiting.parsed (h : k.Waiting) (l : SingleLog) (data : List UInt8) :
    ∃ res, parseSingleDevklogToSingleLog (k.filledBuffer data) k.readInto
        data.length k.parseState l = some res ∧
      res.loggable = isCompleteRecord data ∧
      (isCompleteRecord data = true →
        res.beginState = .levelBegin ∧ res.entry.slot = l.slot) := by
  have hbuffer : k.filledBuffer data =
      [] ++ data ++ 0 :: k.tempBufferEntry.drop (data.length + 1) := by
    simp [filledBuffer, h.readInto]
  rw [hbuffer, h.readInto, h.state]
  exact (KernelCursor.takes_complete
    (KernelCursor.reads_start [] data _ .levelBegin l) rfl).parsed

theorem Waiting.kmsgReadable_eq (h : k.Waiting) (hgrab : w.grabbed = some l)
    (hdata : w.data ≠ []) {res : KernelResult}
    (hparsed : parseSingleDevklogToSingleLog (k.filledBuffer w.data) k.readInto
      w.data.length k.parseState l = some res) :
    k.kmsgReadable w =
      ({ k with entry := some l, taken := k.taken ++ [l] } :
        KmsgListener).afterParse res := by
  have hstate : ¬k.parseState ≠ .levelBegin := by simp [h.state]
  unfold kmsgReadable readRecord
  simp only [if_neg hstate, hgrab, if_neg hdata]
  have hparsed' : parseSingleDevklogToSingleLog
      (({ k with entry := some l, taken := k.taken ++ [l] } :
        KmsgListener).filledBuffer w.data) k.readInto w.data.length k.parseState l =
          some res := hparsed
  rw [hparsed']

theorem Waiting.kmsgReadable_complete (h : k.Waiting)
    (hgrab : w.grabbed = some l) (hdata : w.data ≠ [])
    (hcomplete : isCompleteRecord w.data = true) :
    (k.kmsgReadable w).Waiting := by
  obtain ⟨res, hparsed, hloggable, hresult⟩ := h.parsed l w.data
  obtain ⟨hbegin, hslot⟩ := hresult hcomplete
  rw [h.kmsgReadable_eq hgrab hdata hparsed]
  unfold afterParse
  rw [hcomplete] at hloggable
  simp only [hloggable, if_true]
  exact ⟨h.running, hbegin, rfl, rfl, h.settled.append hslot, h.stopped,
    h.crashed⟩

theorem Waiting.kmsgReadable_incomplete (h : k.Waiting)
    (hgrab : w.grabbed = some l) (hdata : w.data ≠ [])
    (hcomplete : isCompleteRecord w.data = false) :
    (k.kmsgReadable w).running = false ∧
      (k.kmsgReadable w).stopped = false := by
  obtain ⟨res, hparsed, hloggable, -⟩ := h.parsed l w.data
  rw [h.kmsgReadable_eq hgrab hdata hparsed]
  unfold afterParse leave
  rw [hcomplete] at hloggable
  simp only [hloggable, Bool.false_eq_true, if_false]
  split <;> exact ⟨rfl, h.stopped⟩

theorem Waiting.round (h : k.Waiting) (hgrab : w.grabbed = some l)
    (hreads : k.ReadsComplete w) :
    (k.round w).Waiting ∨ (k.round w).Ended := by
  unfold KmsgListener.round
  rw [if_pos h.running]
  by_cases hreadable : (w.selected && w.readable) = true
  · simp only [if_pos hreadable]
    have hwaiting : (k.kmsgReadable w).Waiting := by
      rw [Bool.and_eq_true] at hreadable
      by_cases hdata : w.data = []
      · exact h.kmsgReadable_empty hgrab hdata
      · exact h.kmsgReadable_complete hgrab hdata
          (hreads h.running hreadable.1 hreadable.2 hdata)
    rw [if_pos hwaiting.running]
    exact hwaiting.checkStop w.stopThread
  · simp only [if_neg hreadable, if_pos h.running]
    exact h.checkStop w.stopThread

theorem Waiting.readsComplete_of_survives (h : k.Waiting)
    (hgrab : w.grabbed = some l) (hsurvives : (k.round w).Survives) :
    k.ReadsComplete w := by
  intro _ hselected hreadable hdata
  by_contra hincomplete
  rw [Bool.not_eq_true] at hincomplete
  obtain ⟨hrunning, hstopped⟩ :=
    h.kmsgReadable_incomplete hgrab hdata hincomplete
  have hround : k.round w = k.kmsgReadable w := by
    unfold KmsgListener.round
    simp [h.running, hselected, hreadable, hrunning]
  rw [hround] at hsurvives
  rcases hsurvives.1 with hrun | hstop
  · rw [hrunning] at hrun
    cases hrun
  · rw [hstopped] at hstop
    cases hstop

theorem waiting_or_ended_round (h : k.Waiting ∨ k.Ended)
    (hgrab : w.grabbed = some l) (hreads : k.ReadsComplete w) :
    (k.round w).Waiting ∨ (k.round w).Ended := by
  rcases h with hwaiting | hended
  · exact hwaiting.round hgrab hreads
  · rw [hended.round w]
    exact Or.inr hended

theorem survives_iff_from (h : k.Waiting ∨ k.Ended) (ws : List KmsgWake)
    (hpool : ∀ w ∈ ws, w.grabbed.isSome = true) :
    (∀ n, (final KmsgListener.round k (ws.take n)).Survives) ↔
      Meets KmsgListener.round ReadsComplete k ws := by
  induction ws generalizing k with
  | nil =>
      simp only [List.take_nil, final_nil, Meets, iff_true, forall_const]
      exact h.elim Waiting.survives Ended.survives
  | cons w ws ih =>
      obtain ⟨l, hgrab⟩ := Option.isSome_iff_exists.mp
        (hpool w List.mem_cons_self)
      have hpool' := fun v hv => hpool v (List.mem_cons_of_mem w hv)
      constructor
      · intro hsurvives
        have hreads : k.ReadsComplete w := by
          rcases h with hwaiting | hended
          · exact hwaiting.readsComplete_of_survives hgrab (hsurvives 1)
          · intro hrunning
            rw [hended.running] at hrunning
            cases hrunning
        have hnext := waiting_or_ended_round h hgrab hreads
        exact ⟨hreads, (ih hnext hpool').mp fun n => hsurvives (n + 1)⟩
      · rintro ⟨hreads, hmeets⟩ n
        have hnext := waiting_or_ended_round h hgrab hreads
        cases n with
        | zero => exact h.elim Waiting.survives Ended.survives
        | succ n => exact (ih hnext hpool').mpr hmeets n

theorem waiting_start (tempBufferEntry : List UInt8) :
    (start tempBufferEntry).Waiting :=
  ⟨rfl, rfl, rfl, rfl, rfl, rfl, rfl⟩

/-- With entries in the pool, the listener stays in its loop until it is told
to stop, and settles every entry, exactly in the runs in which every read
delivers nothing or a complete record. -/
theorem kmsg_listener_survives_iff (tempBufferEntry : List UInt8)
    (ws : List KmsgWake) (hpool : ∀ w ∈ ws, w.grabbed.isSome = true) :
    (∀ n, (final KmsgListener.round (start tempBufferEntry)
        (ws.take n)).Survives) ↔
      Meets KmsgListener.round ReadsComplete (start tempBufferEntry) ws :=
  survives_iff_from (Or.inl (waiting_start tempBufferEntry)) ws hpool

/-- `6,1;h`, an empty read, and the end. -/
theorem kmsg_listener_survives_short :
    (final KmsgListener.round (start (List.replicate 8 0))
      [⟨true, true, some (SingleLog.new (some 0) 4), [54, 44, 49, 59, 104, 10],
          false⟩,
        ⟨true, true, some (SingleLog.new (some 1) 4), [], false⟩,
        ⟨true, false, some (SingleLog.new (some 2) 4), [], true⟩]).Survives :=
  (kmsg_listener_survives_iff (List.replicate 8 0)
    [⟨true, true, some (SingleLog.new (some 0) 4), [54, 44, 49, 59, 104, 10],
        false⟩,
      ⟨true, true, some (SingleLog.new (some 1) 4), [], false⟩,
      ⟨true, false, some (SingleLog.new (some 2) 4), [], true⟩]
    (by decide)).mpr
    ⟨fun _ _ _ _ => rfl, fun _ _ _ hdata => absurd rfl hdata,
      fun _ _ _ hdata => absurd rfl hdata, trivial⟩ 3

/-- After a record with the priority 118 the listener is gone. -/
theorem kmsg_listener_leaves :
    ¬∀ n, (final KmsgListener.round (start (List.replicate 32 0))
      ([⟨true, true, some (SingleLog.new (some 0) 4),
        [49, 49, 56, 44, 49, 59, 104, 10], false⟩].take n)).Survives := by
  intro h
  have hin := (h 1).1
  revert hin
  decide +kernel

end KmsgListener

end GreaseLog
