import GreaseLog.KernelParsers

/-!
# Kernel records and how they are read

A record of the ring buffer is `<L>[T]cB` with a newline, one of `/dev/kmsg`
is `P,R;B` with a newline.  The parsers are run over such records piece by
piece; in each lemma the rest of the input is arbitrary.
-/

namespace GreaseLog

def isTimeByte (b : UInt8) : Bool :=
  (48 ≤ b && b ≤ 57) || b = 46 || b = 32

structure KlogRecord where
  level : UInt8
  time : List UInt8
  separator : UInt8
  body : List UInt8
  level_ok : level = 100 ∨ (48 ≤ level ∧ level < 56)
  time_ok : ∀ b ∈ time, isTimeByte b = true
  separator_ok : separator ≠ 10
  body_ok : 10 ∉ body

namespace KlogRecord

def line (r : KlogRecord) : List UInt8 :=
  [60, r.level, 62, 91] ++ r.time ++ [93, r.separator] ++ r.body

def bytes (r : KlogRecord) : List UInt8 := r.line ++ [10]

def logLevel (r : KlogRecord) : LevelMask :=
  if r.level = 100 then greaseKlogDefaultLevel
  else klogLevelToLevelMap.getD (r.level.toNat - 48) 0

end KlogRecord

/-- The level of an entry, with everything else as it was. -/
def SingleLog.withLevel (l : SingleLog) (level : LevelMask) : SingleLog :=
  { l with logMeta := { l.logMeta with m := { l.logMeta.m with level := level } } }

def isDigit (b : UInt8) : Bool := 48 ≤ b && b ≤ 57

structure DevKlogRecord where
  priority : List UInt8
  fields : List UInt8
  body : List UInt8
  priority_ok : ∀ b ∈ priority, isDigit b = true
  one_digit : 1 ≤ priority.length
  four_digits : priority.length ≤ 4
  fields_ok : 59 ∉ fields

namespace DevKlogRecord

def bytes (r : DevKlogRecord) : List UInt8 :=
  r.priority ++ [44] ++ r.fields ++ [59] ++ r.body ++ [10]

end DevKlogRecord

/-- The number that decimal digits stand for. -/
def priorityValue (digits : List UInt8) : ℕ :=
  digits.foldl (fun n d => 10 * n + (d.toNat - 48)) 0

/-- The level for a priority. -/
def levelOfPriority (n : ℕ) : LevelMask :=
  if n < 20 then klogLevelToLevelMap.getD n 0 else greaseKlogDefaultLevel

def DevKlogRecord.logLevel (r : DevKlogRecord) : LevelMask :=
  levelOfPriority (priorityValue r.priority)

theorem KlogRecord.length_bytes (r : KlogRecord) :
    r.bytes.length = r.time.length + r.body.length + 7 := by
  simp only [bytes, line, List.length_append, List.length_cons, List.length_nil]
  omega

/-- The entry with the text of a kernel record, cut at the size of its
buffer. -/
def SingleLog.filled (l : SingleLog) (body : List UInt8) (level : LevelMask) :
    SingleLog :=
  { l with
    buf := { l.buf.poke (body.take l.buf.len) with
      used := min body.length l.buf.len }
    logMeta := { l.logMeta with m := { l.logMeta.m with
      level := level
      tag := greaseTagKernel
      origin := 0 } } }

theorem SingleLog.text_filled (l : SingleLog) (body : List UInt8)
    (level : LevelMask) :
    (l.filled body level).buf.text = body.take l.buf.len := by
  have hlength : (body.take l.buf.len).length = min body.length l.buf.len := by
    simp [Nat.min_comm]
  unfold SingleLog.filled HeapBuf.text HeapBuf.poke
  simp only
  rw [List.take_append_of_le_length hlength.ge,
    List.take_of_length_le hlength.le]

/-! ## Reading ahead -/

namespace KernelCursor

variable {c c' : KernelCursor} {b : UInt8} {input rest : List UInt8}
  {bound : ℤ} {switch : ℕ → KernelCursor → Option KernelCursor}

/-- The bytes from `look` up to `hi` are `input`. -/
structure Reads (c : KernelCursor) (input : List UInt8) : Prop where
  low : c.lo ≤ c.look
  high : c.look + input.length = c.hi
  inside : c.hi ≤ c.mem.length
  ahead : ∃ after, c.mem.drop c.look = input ++ after

theorem Reads.load (h : c.Reads (b :: input)) : c.load c.look = some b := by
  obtain ⟨after, hafter⟩ := h.ahead
  have hhigh := h.high
  have hbyte : c.mem[c.look]? = some b := by
    have hhead := congrArg List.head? hafter
    simpa [List.head?_drop] using hhead
  rw [List.length_cons] at hhigh
  simp [KernelCursor.load, h.low, hbyte]
  omega

theorem Reads.next (h : c.Reads (b :: input)) (hlo : c'.lo = c.lo)
    (hhi : c'.hi = c.hi) (hlook : c'.look = c.look)
    (hmem : c'.mem = c.mem ∨ c'.mem = c.mem.set c.look 0) :
    c'.next.Reads input where
  low := by
    have hlow := h.low
    simp only [KernelCursor.next, hlo, hlook]
    omega
  high := by
    have hhigh := h.high
    rw [List.length_cons] at hhigh
    simp only [KernelCursor.next, hhi, hlook]
    omega
  inside := by
    have hinside := h.inside
    simp only [KernelCursor.next, hhi]
    rcases hmem with hmem | hmem <;> simpa [hmem] using hinside
  ahead := by
    obtain ⟨after, hafter⟩ := h.ahead
    have hdrop : c.mem.drop (c.look + 1) = input ++ after := by
      rw [← List.drop_drop, hafter]
      rfl
    refine ⟨after, ?_⟩
    simp only [KernelCursor.next, hlook]
    rcases hmem with hmem | hmem
    · rw [hmem, hdrop]
    · rw [hmem, List.drop_set_of_lt (Nat.lt_succ_self _), hdrop]

theorem reads_start (before input after : List UInt8) (state : KlogParseState)
    (entry : SingleLog) :
    (kernelStart (before ++ input ++ after) before.length input.length state
      entry).Reads input where
  low := le_rfl
  high := rfl
  inside := by simp [kernelStart]
  ahead := ⟨after, by simp [kernelStart]⟩

/-- The copy at the end of a parser, with a body captured. -/
theorem finish_filled {cap n : ℕ} {body : List UInt8} {base : SingleLog}
    {level : LevelMask}
    (hstate : c.state = .endLog) (hcap : c.cap = some cap) (hlo : c.lo ≤ cap)
    (hlook : c.look = cap + body.length + 1) (hhi : c.look ≤ c.hi)
    (hbody : ∃ after, c.mem.drop cap = body ++ after)
    (hentry : c.entry = base.withLevel level) :
    c.finish n =
      some (c.result true .levelBegin (base.filled body level) n) := by
  obtain ⟨after, hafter⟩ := hbody
  have hcopied : c.look - cap - 1 = body.length := by omega
  unfold finish
  simp only [if_pos hstate, hcap, hcopied]
  have hfits : c.lo ≤ cap ∧
      cap + min body.length (fromKernel c.entry).buf.len ≤ c.hi := by
    constructor <;> omega
  rw [if_pos (by omega), if_pos hfits]
  simp only [result, KlogCursor.capture, hcopied, hafter, List.take_left]
  rw [hentry]
  rfl

theorem scan_cons (hrun : ¬c.Stopped)
    (hswitch : switch (b :: input).length c = some c') :
    scan switch (b :: input).length c = scan switch input.length c'.next := by
  rw [List.length_cons] at hswitch ⊢
  rw [scan, if_neg hrun, hswitch, Option.bind_some]

theorem scan_stopped (hstop : c.Stopped) (remain : ℕ) :
    scan switch remain c = some (c, remain) := by
  cases remain with
  | zero => rfl
  | succ remain => rw [scan, if_pos hstop]

/-- The variables after `n` bytes that changed nothing else. -/
def skip (c : KernelCursor) (n : ℕ) : KernelCursor :=
  { c with look := c.look + n }

/-- Bytes which leave the state alone are skipped. -/
theorem scan_skip (skipped : List UInt8)
    (hstay : ∀ (n : ℕ) (b : UInt8) (tail : List UInt8), b ∈ skipped →
      (c.skip n).Reads (b :: tail) →
        switch (b :: tail).length (c.skip n) = some (c.skip n))
    (hrun : c.state ≠ .invalid ∧ c.state ≠ .endLog)
    (h : c.Reads (skipped ++ rest)) :
    scan switch (skipped ++ rest).length c =
        scan switch rest.length (c.skip skipped.length) ∧
      (c.skip skipped.length).Reads rest := by
  suffices hfrom : ∀ n, (c.skip n).Reads (skipped ++ rest) →
      scan switch (skipped ++ rest).length (c.skip n) =
          scan switch rest.length (c.skip (n + skipped.length)) ∧
        (c.skip (n + skipped.length)).Reads rest by
    have hzero := hfrom 0 h
    rw [Nat.zero_add] at hzero
    exact hzero
  clear h
  induction skipped with
  | nil =>
      intro n h
      exact ⟨rfl, h⟩
  | cons b tail ih =>
      intro n h
      have hrun' : ¬(c.skip n).Stopped := by
        rintro (hinvalid | hend)
        · exact hrun.1 hinvalid
        · exact hrun.2 hend
      have hswitch := hstay n b (tail ++ rest) List.mem_cons_self h
      have hnext : (c.skip n).next = c.skip (n + 1) := by
        simp [skip, next, Nat.add_assoc]
      have hreads : (c.skip n).next.Reads (tail ++ rest) :=
        h.next rfl rfl rfl (Or.inl rfl)
      rw [hnext] at hreads
      obtain ⟨hscan, hrest⟩ := ih
        (fun n b tail hb => hstay n b tail (List.mem_cons_of_mem _ hb))
        (n + 1) hreads
      have hlength : n + (b :: tail).length = n + 1 + tail.length := by
        simp only [List.length_cons]
        omega
      rw [hlength]
      refine ⟨?_, hrest⟩
      rw [List.cons_append, scan_cons hrun' hswitch, hnext, hscan]

theorem Reads.getD (h : c.Reads (b :: input)) : c.mem.getD c.look 0 = b := by
  have hload := byteAt_of_load h.load
  exact hload

theorem Reads.look_lt (h : c.Reads (b :: input)) : c.look < c.hi := by
  have hhigh := h.high
  rw [List.length_cons] at hhigh
  omega

/-! ## Records of the ring buffer -/

/-- The level has been read and its end overwritten. -/
structure Levelled (c c' : KernelCursor) (level : LevelMask) : Prop where
  lo : c'.lo = c.lo
  hi : c'.hi = c.hi
  look : c'.look = c.look
  mem : c'.mem = c.mem.set c.look 0
  state : c'.state = .timeStampBegin
  entry : c'.entry = c.entry.withLevel level

theorem levelled_setLevel (c : KernelCursor) (level : LevelMask) :
    c.Levelled ((c.terminated.setLevel level).enter .timeStampBegin) level :=
  ⟨rfl, rfl, rfl, rfl, rfl, rfl⟩

theorem levelled_mapLevel (c : KernelCursor) {k : ℤ} (hlow : 0 ≤ k)
    (hhigh : k < 20) :
    ∃ mapped, c.terminated.mapLevel k = some mapped ∧
      c.Levelled (mapped.enter .timeStampBegin)
        (klogLevelToLevelMap.getD k.toNat 0) :=
  ⟨_, mapLevel_eq_some _ hlow hhigh, rfl, rfl, rfl, rfl, rfl, rfl⟩

theorem Levelled.reads {level : LevelMask} (hlevelled : c.Levelled c' level)
    (h : c.Reads (b :: input)) : c'.next.Reads input :=
  h.next hlevelled.lo hlevelled.hi hlevelled.look (Or.inr hlevelled.mem)

theorem klogLevelEnd_of_level (r : KlogRecord) (cap : ℕ)
    (h : c.Reads (b :: input)) (hcap : c.cap = some cap)
    (hlo : c.lo ≤ cap) (hlook : c.look = cap + 1)
    (hlevel : c.mem.getD cap 0 = r.level) :
    ∃ c', c.klogLevelEnd = some c' ∧ c.Levelled c' r.logLevel := by
  have hcap' : c.terminated.cap = some cap := hcap
  have hlook' : c.terminated.look = cap + 1 := hlook
  have hload : c.terminated.load cap = some r.level := by
    rw [load_terminated hlo (by omega) h.look_lt h.inside, hlevel]
  have hcont : r.level ≠ 99 := by
    intro hc
    have hok := r.level_ok
    rw [hc] at hok
    exact absurd hok (by decide)
  unfold klogLevelEnd
  simp only [store_eq_some h.low h.look_lt h.inside, hcap', if_pos hlook', hload,
    Option.bind_eq_bind, Option.bind_some, if_neg hcont, KlogRecord.logLevel]
  by_cases hdefault : r.level = 100
  · simp only [if_pos hdefault]
    exact ⟨_, rfl, levelled_setLevel c _⟩
  · have hdigit := r.level_ok.resolve_left hdefault
    have hrange := (digitValue_lt_eight r.level).mpr hdigit
    obtain ⟨mapped, hmapped, hlevelled⟩ :=
      levelled_mapLevel c hrange.2 (by omega)
    rw [digitValue_toNat hdigit] at hlevelled
    simp only [if_neg hdefault, if_pos hrange, hmapped, Option.bind_some]
    exact ⟨_, rfl, hlevelled⟩

theorem klog_level (r : KlogRecord)
    (h : c.Reads ([60, r.level, 62] ++ rest)) (hstate : c.state = .levelBegin) :
    ∃ c', scan klogSwitch ([60, r.level, 62] ++ rest).length c =
        scan klogSwitch rest.length c' ∧
      c'.Reads rest ∧ c'.state = .timeStampBegin ∧ c'.look = c.look + 3 ∧
      c'.mem = c.mem.set (c.look + 2) 0 ∧
      c'.entry = c.entry.withLevel r.logLevel := by
  have hopen : klogSwitch (60 :: r.level :: 62 :: rest).length c =
      some ((c.capture (c.look + 1)).enter .inLevel) := by
    unfold klogSwitch
    rw [h.load]
    simp [hstate]
  have hreads : ((c.capture (c.look + 1)).enter .inLevel).next.Reads
      (r.level :: 62 :: rest) := h.next rfl rfl rfl (Or.inl rfl)
  have hclose : r.level ≠ 62 := by
    intro hlevel
    have hok := r.level_ok
    rw [hlevel] at hok
    exact absurd hok (by decide)
  have hstay : klogSwitch (r.level :: 62 :: rest).length
      ((c.capture (c.look + 1)).enter .inLevel).next =
        some ((c.capture (c.look + 1)).enter .inLevel).next := by
    unfold klogSwitch
    rw [hreads.load]
    simp [next, enter, hclose]
  have hreads' : ((c.capture (c.look + 1)).enter .inLevel).next.next.Reads
      (62 :: rest) := hreads.next rfl rfl rfl (Or.inl rfl)
  have hlow := h.low
  obtain ⟨c', hend, hlevelled⟩ := klogLevelEnd_of_level r
    (c.look + 1) hreads' rfl (by simp only [next, enter, capture]; omega) rfl
    hreads.getD
  have hswitch : klogSwitch (62 :: rest).length
      ((c.capture (c.look + 1)).enter .inLevel).next.next = some c' := by
    unfold klogSwitch
    rw [hreads'.load]
    simpa [next, enter] using hend
  refine ⟨c'.next, ?_, hlevelled.reads hreads', hlevelled.state, ?_,
    hlevelled.mem, hlevelled.entry⟩
  · calc
      scan klogSwitch (60 :: r.level :: 62 :: rest).length c =
          scan klogSwitch (r.level :: 62 :: rest).length
            ((c.capture (c.look + 1)).enter .inLevel).next :=
        scan_cons (by simp [Stopped, hstate]) hopen
      _ = scan klogSwitch (62 :: rest).length
            ((c.capture (c.look + 1)).enter .inLevel).next.next :=
        scan_cons (by simp [Stopped, next, enter]) hstay
      _ = scan klogSwitch rest.length c'.next :=
        scan_cons (by simp [Stopped, next, enter]) hswitch
  · exact congrArg (· + 1) hlevelled.look

theorem klog_timeStampBegin (h : c.Reads (91 :: rest))
    (hstate : c.state = .timeStampBegin) :
    scan klogSwitch (91 :: rest).length c =
        scan klogSwitch rest.length (c.enter .inTimeStamp).next ∧
      (c.enter .inTimeStamp).next.Reads rest := by
  have hswitch : klogSwitch (91 :: rest).length c =
      some (c.enter .inTimeStamp) := by
    unfold klogSwitch
    rw [h.load]
    simp [hstate]
  exact ⟨scan_cons (by simp [Stopped, hstate]) hswitch,
    h.next rfl rfl rfl (Or.inl rfl)⟩

theorem klog_time {time : List UInt8}
    (htime : ∀ b ∈ time, isTimeByte b = true)
    (h : c.Reads (time ++ rest)) (hstate : c.state = .inTimeStamp) :
    scan klogSwitch (time ++ rest).length c =
        scan klogSwitch rest.length (c.skip time.length) ∧
      (c.skip time.length).Reads rest := by
  apply scan_skip time _ (by simp [hstate]) h
  intro n b tail hb hreads
  have hbyte := htime b hb
  simp only [isTimeByte, Bool.or_eq_true, Bool.and_eq_true,
    decide_eq_true_eq] at hbyte
  have hother : ¬(¬(48 ≤ b ∧ b ≤ 57) ∧ b ≠ 46 ∧ b ≠ 32) := by tauto
  have hclose : b ≠ 93 := by
    rintro rfl
    exact absurd hbyte (by decide)
  have hskip : (c.skip n).state = .inTimeStamp := hstate
  unfold klogSwitch
  rw [hreads.load]
  simp only [hskip, Option.bind_eq_bind, Option.bind_some, if_neg hclose,
    if_neg hother]
  rfl

theorem klog_timeStampEnd (h : c.Reads (93 :: rest))
    (hstate : c.state = .inTimeStamp) :
    scan klogSwitch (93 :: rest).length c =
        scan klogSwitch rest.length (c.enter .bodyBegin).next ∧
      (c.enter .bodyBegin).next.Reads rest := by
  have hswitch : klogSwitch (93 :: rest).length c =
      some (c.enter .bodyBegin) := by
    unfold klogSwitch
    rw [h.load]
    simp [hstate]
  exact ⟨scan_cons (by simp [Stopped, hstate]) hswitch,
    h.next rfl rfl rfl (Or.inl rfl)⟩

theorem klog_bodyBegin {separator : UInt8} (hseparator : separator ≠ 10)
    (h : c.Reads (separator :: rest)) (hstate : c.state = .bodyBegin) :
    scan klogSwitch (separator :: rest).length c =
        scan klogSwitch rest.length
          ((c.capture (c.look + 1)).enter .inBody).next ∧
      ((c.capture (c.look + 1)).enter .inBody).next.Reads rest := by
  have hswitch : klogSwitch (separator :: rest).length c =
      some ((c.capture (c.look + 1)).enter .inBody) := by
    unfold klogSwitch
    rw [h.load]
    simp [hstate, hseparator]
  exact ⟨scan_cons (by simp [Stopped, hstate]) hswitch,
    h.next rfl rfl rfl (Or.inl rfl)⟩

theorem klog_body {body : List UInt8} (hbody : 10 ∉ body)
    (h : c.Reads (body ++ rest)) (hstate : c.state = .inBody) :
    scan klogSwitch (body ++ rest).length c =
        scan klogSwitch rest.length (c.skip body.length) ∧
      (c.skip body.length).Reads rest := by
  apply scan_skip body _ (by simp [hstate]) h
  intro n b tail hb hreads
  have hbyte : b ≠ 10 := fun hnewline => hbody (hnewline ▸ hb)
  have hskip : (c.skip n).state = .inBody := hstate
  unfold klogSwitch
  rw [hreads.load]
  simp [hskip, hbyte]

theorem klog_bodyEnd (h : c.Reads (10 :: rest)) (hstate : c.state = .inBody) :
    scan klogSwitch (10 :: rest).length c =
      some ((c.enter .endLog).next, rest.length) := by
  have hswitch : klogSwitch (10 :: rest).length c =
      some (c.enter .endLog) := by
    unfold klogSwitch
    rw [h.load]
    simp [hstate]
  rw [scan_cons (by simp [Stopped, hstate]) hswitch]
  exact scan_stopped (Or.inr rfl) _

/-- The part of a record behind its time stamp. -/
theorem klog_tail {separator : UInt8} {body : List UInt8}
    (hseparator : separator ≠ 10) (hbody : 10 ∉ body)
    (h : c.Reads (separator :: (body ++ 10 :: rest)))
    (hstate : c.state = .bodyBegin) :
    scan klogSwitch (separator :: (body ++ 10 :: rest)).length c =
      some ({ c with
        state := .endLog
        cap := some (c.look + 1)
        look := c.look + body.length + 2 }, rest.length) := by
  obtain ⟨hscan₁, hreads₁⟩ := klog_bodyBegin hseparator h hstate
  obtain ⟨hscan₂, hreads₂⟩ := klog_body hbody hreads₁ rfl
  rw [hscan₁, hscan₂, klog_bodyEnd hreads₂ rfl]
  have hlook : c.look + 1 + body.length + 1 = c.look + body.length + 2 := by
    omega
  simp [enter, next, skip, capture, hlook]

end KernelCursor

/-- The parser has finished a record. -/
structure KernelResult.Logged (res : KernelResult) (entry : SingleLog)
    (remain moved : ℕ) (mem : List UInt8) : Prop where
  loggable : res.loggable = true
  beginState : res.beginState = .levelBegin
  entry : res.entry = entry
  remain : res.remain = remain
  moved : res.moved = moved
  mem : res.mem = mem

namespace KernelCursor

variable {c : KernelCursor} {rest time body : List UInt8} {separator : UInt8}
  {base : SingleLog} {level : LevelMask}

theorem klog_from_bodyBegin (hseparator : separator ≠ 10) (hbody : 10 ∉ body)
    (h : c.Reads (separator :: (body ++ 10 :: rest)))
    (hstate : c.state = .bodyBegin) (hentry : c.entry = base.withLevel level) :
    ∃ res, c.parse klogSwitch (separator :: (body ++ 10 :: rest)).length =
        some res ∧
      res.Logged (base.filled body level) rest.length
        (c.look + body.length + 2) c.mem := by
  have hlow := h.low
  have hhigh := h.high
  simp only [List.length_cons, List.length_append] at hhigh
  have hcaptured : ∃ after, c.mem.drop (c.look + 1) = body ++ after := by
    obtain ⟨after, hafter⟩ := h.ahead
    refine ⟨10 :: rest ++ after, ?_⟩
    rw [← List.drop_drop, hafter]
    simp
  have hscan := klog_tail hseparator hbody h hstate
  generalize hend : ({ c with
    state := .endLog
    cap := some (c.look + 1)
    look := c.look + body.length + 2 } : KernelCursor) = c' at hscan
  have hfinish : c'.finish rest.length =
      some (c'.result true .levelBegin (base.filled body level) rest.length) := by
    subst hend
    exact finish_filled rfl rfl (by simp only; omega) (by simp only; omega)
      (by simp only; omega) hcaptured hentry
  refine ⟨_, parse_of_scan hscan hfinish, ?_⟩
  subst hend
  exact ⟨rfl, rfl, rfl, rfl, rfl, rfl⟩

theorem klog_from_inTimeStamp (htime : ∀ b ∈ time, isTimeByte b = true)
    (hseparator : separator ≠ 10) (hbody : 10 ∉ body)
    (h : c.Reads (time ++ 93 :: (separator :: (body ++ 10 :: rest))))
    (hstate : c.state = .inTimeStamp) (hentry : c.entry = base.withLevel level) :
    ∃ res, c.parse klogSwitch
        (time ++ 93 :: (separator :: (body ++ 10 :: rest))).length = some res ∧
      res.Logged (base.filled body level) rest.length
        (c.look + time.length + body.length + 3) c.mem := by
  obtain ⟨hscan₁, hreads₁⟩ := klog_time htime h hstate
  obtain ⟨hscan₂, hreads₂⟩ := klog_timeStampEnd hreads₁ hstate
  obtain ⟨res, hparse, hlogged⟩ :=
    klog_from_bodyBegin hseparator hbody hreads₂ rfl hentry
  have hmoved : c.look + time.length + 1 + body.length + 2 =
      c.look + time.length + body.length + 3 := by omega
  refine ⟨res, ?_, hmoved ▸ hlogged⟩
  unfold parse at hparse ⊢
  rw [hscan₁, hscan₂, hparse]

theorem klog_from_timeStampBegin (htime : ∀ b ∈ time, isTimeByte b = true)
    (hseparator : separator ≠ 10) (hbody : 10 ∉ body)
    (h : c.Reads (91 :: (time ++ 93 :: (separator :: (body ++ 10 :: rest)))))
    (hstate : c.state = .timeStampBegin)
    (hentry : c.entry = base.withLevel level) :
    ∃ res, c.parse klogSwitch
        (91 :: (time ++ 93 :: (separator :: (body ++ 10 :: rest)))).length =
          some res ∧
      res.Logged (base.filled body level) rest.length
        (c.look + time.length + body.length + 4) c.mem := by
  obtain ⟨hscan, hreads⟩ := klog_timeStampBegin h hstate
  obtain ⟨res, hparse, hlogged⟩ :=
    klog_from_inTimeStamp htime hseparator hbody hreads rfl hentry
  have hmoved : c.look + 1 + time.length + body.length + 3 =
      c.look + time.length + body.length + 4 := by omega
  refine ⟨res, ?_, hmoved ▸ hlogged⟩
  unfold parse at hparse ⊢
  rw [hscan, hparse]

theorem klog_from_levelBegin (r : KlogRecord) (h : c.Reads (r.bytes ++ rest))
    (hstate : c.state = .levelBegin) :
    ∃ res, c.parse klogSwitch (r.bytes ++ rest).length = some res ∧
      res.Logged (c.entry.filled r.body r.logLevel) rest.length
        (c.look + r.bytes.length) (c.mem.set (c.look + 2) 0) := by
  have hsplit : r.bytes ++ rest = [60, r.level, 62] ++
      (91 :: (r.time ++ 93 :: (r.separator :: (r.body ++ 10 :: rest)))) := by
    simp [KlogRecord.bytes, KlogRecord.line]
  rw [hsplit] at h ⊢
  obtain ⟨c', hscan, hreads, hstate', hlook, hmem, hentry⟩ :=
    klog_level r h hstate
  obtain ⟨res, hparse, hlogged⟩ := klog_from_timeStampBegin r.time_ok
    r.separator_ok r.body_ok hreads hstate' hentry
  have hmoved : c'.look + r.time.length + r.body.length + 4 =
      c.look + r.bytes.length := by
    rw [r.length_bytes]
    omega
  rw [hmoved, hmem] at hlogged
  refine ⟨res, ?_, hlogged⟩
  unfold parse at hparse ⊢
  rw [hscan, hparse]

/-! ## Records of `/dev/kmsg` -/

theorem digitValue_of_isDigit {d : UInt8} (h : isDigit d = true) :
    digitValue d = (d.toNat - 48 : ℕ) ∧ d.toNat - 48 < 10 := by
  simp only [isDigit, Bool.and_eq_true, decide_eq_true_eq,
    UInt8.le_iff_toNat_le, UInt8.reduceToNat] at h
  rw [digitValue_eq, if_pos (by omega)]
  omega

/-- The level that one or two digits before the comma stand for. -/
def devLevelOf : List UInt8 → LevelMask
  | [d] => klogLevelToLevelMap.getD (d.toNat - 48) 0
  | [d, e] =>
      if d = 49 then klogLevelToLevelMap.getD (e.toNat - 48 + 10) 0
      else greaseKlogDefaultLevel
  | _ => greaseKlogDefaultLevel

variable {b : UInt8} {input : List UInt8}

theorem terminated_filter {cap : ℕ} (hcap : c.cap = some cap)
    (hlook : c.look = cap + 1 ∨ c.look = cap + 2) :
    (c.terminated.cap.filter fun cap =>
      c.terminated.look = cap + 1 ∨ c.terminated.look = cap + 2) = some cap := by
  have hcap' : c.terminated.cap = some cap := hcap
  rw [hcap']
  exact if_pos (decide_eq_true hlook)

/-- The `if` over the number found before the comma. -/
theorem levelled_number (c : KernelCursor) (k : ℤ) :
    ∃ c', (if k < 20 ∧ 0 ≤ k then
        (c.terminated.mapLevel k).bind fun c =>
          some (c.enter .timeStampBegin)
      else some ((c.terminated.setLevel greaseKlogDefaultLevel).enter
        .timeStampBegin)) = some c' ∧
      c.Levelled c' (if k < 20 ∧ 0 ≤ k then
        klogLevelToLevelMap.getD k.toNat 0 else greaseKlogDefaultLevel) := by
  by_cases hrange : k < 20 ∧ 0 ≤ k
  · obtain ⟨mapped, hmapped, hlevelled⟩ := levelled_mapLevel c hrange.2 hrange.1
    simp only [if_pos hrange, hmapped, Option.bind_some]
    exact ⟨_, rfl, hlevelled⟩
  · simp only [if_neg hrange]
    exact ⟨_, rfl, levelled_setLevel c _⟩

theorem devKlogLevelEnd_of_number {cap : ℕ} {d : UInt8} {k : ℤ}
    (h : c.Reads (b :: input)) (hcap : c.cap = some cap) (hlo : c.lo ≤ cap)
    (hlook : c.look = cap + 1 ∨ c.look = cap + 2)
    (hfirst : c.mem.getD cap 0 = d) (hdigit : isDigit d = true)
    (hnumber : c.terminated.devKlogLevel cap d = some k) :
    ∃ c', c.devKlogLevelEnd = some c' ∧
      c.Levelled c' (if k < 20 ∧ 0 ≤ k then
        klogLevelToLevelMap.getD k.toNat 0 else greaseKlogDefaultLevel) := by
  have hload : c.terminated.load cap = some d := by
    rw [load_terminated hlo (by omega) h.look_lt h.inside, hfirst]
  have hcont : d ≠ 99 := by
    rintro rfl
    exact absurd hdigit (by decide)
  have hdefault : d ≠ 100 := by
    rintro rfl
    exact absurd hdigit (by decide)
  have hfilter := terminated_filter hcap hlook
  obtain ⟨c', hc', hlevelled⟩ := levelled_number c k
  refine ⟨c', ?_, hlevelled⟩
  unfold devKlogLevelEnd
  simp only [store_eq_some h.low h.look_lt h.inside, hfilter, hload, hnumber,
    Option.bind_eq_bind, Option.bind_some, if_neg hcont, if_neg hdefault]
  exact hc'

theorem devKlogLevelEnd_of_priority {cap : ℕ} {priority : List UInt8}
    (h : c.Reads (b :: input)) (hcap : c.cap = some cap) (hlo : c.lo ≤ cap)
    (hdigits : ∀ d ∈ priority, isDigit d = true) (hone : 1 ≤ priority.length)
    (htwo : priority.length ≤ 2) (hlook : c.look = cap + priority.length)
    (hahead : ∃ after, c.mem.drop cap = priority ++ after) :
    ∃ c', c.devKlogLevelEnd = some c' ∧
      c.Levelled c' (devLevelOf priority) := by
  obtain ⟨after, hafter⟩ := hahead
  match priority, hdigits, hone, htwo with
  | [d], hdigits, _, _ =>
      have hdigit := hdigits d (by simp)
      have hfirst : c.mem.getD cap 0 = d := by
        rw [List.getD_eq_getElem?_getD, ← List.head?_drop, hafter]
        rfl
      have hnumber : c.terminated.devKlogLevel cap d = some (digitValue d) :=
        if_pos hlook
      obtain ⟨c', hend, hlevelled⟩ := devKlogLevelEnd_of_number h hcap hlo
        (Or.inl hlook) hfirst hdigit hnumber
      obtain ⟨hvalue, hlt⟩ := digitValue_of_isDigit hdigit
      rw [if_pos (by omega), hvalue] at hlevelled
      exact ⟨c', hend, hlevelled⟩
  | [d, e], hdigits, _, _ =>
      have hdigit := hdigits d (by simp)
      have hfirst : c.mem.getD cap 0 = d := by
        rw [List.getD_eq_getElem?_getD, ← List.head?_drop, hafter]
        rfl
      have hsecond : c.mem.getD (cap + 1) 0 = e := by
        rw [List.getD_eq_getElem?_getD, ← List.head?_drop, ← List.drop_drop,
          hafter]
        rfl
      have hnear : ¬c.terminated.look = cap + 1 := by
        change ¬c.look = cap + 1
        rw [hlook]
        simp
      have hlt : cap + 1 < c.look := by
        rw [hlook]
        simp
      have hload : c.terminated.load (cap + 1) = some e := by
        rw [load_terminated (by omega) hlt h.look_lt h.inside, hsecond]
      obtain ⟨hvalue, hsmall⟩ :=
        digitValue_of_isDigit (hdigits e (by simp))
      by_cases hteen : d = 49
      · have hnumber : c.terminated.devKlogLevel cap d =
            some (digitValue e + 10) := by
          unfold devKlogLevel
          rw [if_neg hnear, if_pos hteen, hload]
          rfl
        obtain ⟨c', hend, hlevelled⟩ := devKlogLevelEnd_of_number h hcap hlo
          (Or.inr hlook) hfirst hdigit hnumber
        have hindex : (digitValue e + 10).toNat = e.toNat - 48 + 10 := by omega
        rw [if_pos (by omega), hindex] at hlevelled
        refine ⟨c', hend, ?_⟩
        simpa only [devLevelOf, if_pos hteen] using hlevelled
      · have hnumber : c.terminated.devKlogLevel cap d = some 20 := by
          unfold devKlogLevel
          rw [if_neg hnear, if_neg hteen]
        obtain ⟨c', hend, hlevelled⟩ := devKlogLevelEnd_of_number h hcap hlo
          (Or.inr hlook) hfirst hdigit hnumber
        rw [if_neg (by norm_num)] at hlevelled
        refine ⟨c', hend, ?_⟩
        simpa only [devLevelOf, if_neg hteen] using hlevelled

theorem devKlog_levelBegin (h : c.Reads (b :: rest))
    (hstate : c.state = .levelBegin) :
    scan devKlogSwitch (b :: rest).length c =
        scan devKlogSwitch rest.length
          ((c.capture c.look).enter .inLevel).next ∧
      ((c.capture c.look).enter .inLevel).next.Reads rest := by
  have hswitch : devKlogSwitch (b :: rest).length c =
      some ((c.capture c.look).enter .inLevel) := by
    unfold devKlogSwitch
    rw [hstate]
    rfl
  exact ⟨scan_cons (by simp [Stopped, hstate]) hswitch,
    h.next rfl rfl rfl (Or.inl rfl)⟩

theorem devKlog_digits {digits : List UInt8}
    (hdigits : ∀ d ∈ digits, isDigit d = true)
    (h : c.Reads (digits ++ rest)) (hstate : c.state = .inLevel) :
    scan devKlogSwitch (digits ++ rest).length c =
        scan devKlogSwitch rest.length (c.skip digits.length) ∧
      (c.skip digits.length).Reads rest := by
  apply scan_skip digits _ (by simp [hstate]) h
  intro n d tail hd hreads
  have hcomma : d ≠ 44 := by
    rintro rfl
    exact absurd (hdigits 44 hd) (by decide)
  have hskip : (c.skip n).state = .inLevel := hstate
  unfold devKlogSwitch
  simp [hskip, hreads.load, hcomma]

/-- Up to the comma behind one or two digits. -/
theorem devKlog_level {priority : List UInt8}
    (hdigits : ∀ d ∈ priority, isDigit d = true) (hone : 1 ≤ priority.length)
    (htwo : priority.length ≤ 2) (h : c.Reads (priority ++ 44 :: rest))
    (hstate : c.state = .levelBegin) :
    ∃ c', scan devKlogSwitch (priority ++ 44 :: rest).length c =
        scan devKlogSwitch rest.length c' ∧
      c'.Reads rest ∧ c'.state = .timeStampBegin ∧
      c'.look = c.look + priority.length + 1 ∧
      c'.mem = c.mem.set (c.look + priority.length) 0 ∧
      c'.entry = c.entry.withLevel (devLevelOf priority) := by
  obtain ⟨d, digits, rfl⟩ : ∃ d digits, priority = d :: digits :=
    List.exists_cons_of_length_pos hone
  rw [List.cons_append] at h ⊢
  obtain ⟨after, hafter⟩ := h.ahead
  obtain ⟨hscan₁, hreads₁⟩ := devKlog_levelBegin h hstate
  obtain ⟨hscan₂, hreads₂⟩ := devKlog_digits
    (fun e he => hdigits e (List.mem_cons_of_mem _ he)) hreads₁ rfl
  generalize hc₂ : ((c.capture c.look).enter .inLevel).next.skip digits.length =
    c₂ at hscan₂ hreads₂
  have hlook₂ : c₂.look = c.look + (d :: digits).length := by
    rw [← hc₂, List.length_cons]
    simp only [skip, next, enter, capture]
    omega
  have hmem₂ : c₂.mem = c.mem := by rw [← hc₂]; rfl
  have hentry₂ : c₂.entry = c.entry := by rw [← hc₂]; rfl
  obtain ⟨c', hend, hlevelled⟩ := devKlogLevelEnd_of_priority hreads₂
    (by rw [← hc₂]; rfl) (by rw [← hc₂]; exact h.low) hdigits hone htwo hlook₂
    ⟨44 :: rest ++ after, by rw [hmem₂, hafter]; simp⟩
  have hswitch : devKlogSwitch (44 :: rest).length c₂ = some c' := by
    have hstate₂ : c₂.state = .inLevel := by rw [← hc₂]; rfl
    unfold devKlogSwitch
    simp [hstate₂, hreads₂.load, hend]
  have hrun : ¬c₂.Stopped := by
    rw [← hc₂]
    simp [Stopped, skip, next, enter]
  refine ⟨c'.next, ?_, hlevelled.reads hreads₂, hlevelled.state, ?_, ?_, ?_⟩
  · rw [hscan₁, hscan₂, scan_cons hrun hswitch]
  · simp only [next, hlevelled.look, hlook₂]
  · simp only [next, hlevelled.mem, hlook₂, hmem₂]
  · simp only [next, hlevelled.entry, hentry₂]

theorem devKlog_fields {fields : List UInt8} (hfields : 59 ∉ fields)
    (h : c.Reads (fields ++ rest)) (hstate : c.state = .timeStampBegin) :
    scan devKlogSwitch (fields ++ rest).length c =
        scan devKlogSwitch rest.length (c.skip fields.length) ∧
      (c.skip fields.length).Reads rest := by
  apply scan_skip fields _ (by simp [hstate]) h
  intro n d tail hd hreads
  have hsemicolon : d ≠ 59 := fun heq => hfields (heq ▸ hd)
  have hskip : (c.skip n).state = .timeStampBegin := hstate
  unfold devKlogSwitch
  simp [hskip, hreads.load, hsemicolon]

theorem devKlog_fieldsEnd (h : c.Reads (59 :: rest))
    (hstate : c.state = .timeStampBegin) :
    scan devKlogSwitch (59 :: rest).length c =
        scan devKlogSwitch rest.length (c.enter .bodyBegin).next ∧
      (c.enter .bodyBegin).next.Reads rest := by
  have hswitch : devKlogSwitch (59 :: rest).length c =
      some (c.enter .bodyBegin) := by
    unfold devKlogSwitch
    simp [hstate, h.load]
  exact ⟨scan_cons (by simp [Stopped, hstate]) hswitch,
    h.next rfl rfl rfl (Or.inl rfl)⟩

theorem devKlog_inBody (hstate : c.state = .inBody) (n : ℕ) :
    scan devKlogSwitch (n + 1) c =
      some ({ c with state := .endLog, look := c.look + n + 1 }, 0) := by
  induction n generalizing c with
  | zero =>
      unfold scan
      rw [if_neg (by simp [Stopped, hstate])]
      unfold devKlogSwitch
      simp only [hstate]
      rfl
  | succ n ih =>
      unfold scan
      rw [if_neg (by simp [Stopped, hstate])]
      have hswitch : devKlogSwitch (n + 1 + 1) c = some c := by
        unfold devKlogSwitch
        simp [hstate]
      rw [hswitch, Option.bind_some, ih (c := c.next) hstate]
      simp [next, Nat.add_assoc, Nat.add_comm 1]

/-- The body is everything up to the last byte. -/
theorem devKlog_body (hstate : c.state = .bodyBegin) (n : ℕ) :
    scan devKlogSwitch (n + 1) c =
      some ({ c with
        state := .endLog
        cap := some c.look
        look := c.look + n + 1 }, 0) := by
  unfold scan
  rw [if_neg (by simp [Stopped, hstate])]
  cases n with
  | zero =>
      unfold devKlogSwitch
      simp only [hstate]
      rfl
  | succ n =>
      have hswitch : devKlogSwitch (n + 1 + 1) c =
          some ((c.capture c.look).enter .inBody) := by
        unfold devKlogSwitch
        simp [hstate]
      rw [hswitch, Option.bind_some, devKlog_inBody rfl]
      simp [next, enter, capture, Nat.add_assoc, Nat.add_comm 1]

theorem devKlog_from_bodyBegin {last : UInt8} (h : c.Reads (body ++ [last]))
    (hstate : c.state = .bodyBegin) (hentry : c.entry = base.withLevel level) :
    ∃ res, c.parse devKlogSwitch (body ++ [last]).length = some res ∧
      res.Logged (base.filled body level) 0
        (c.look + (body ++ [last]).length) c.mem := by
  have hlow := h.low
  have hhigh := h.high
  simp only [List.length_append, List.length_singleton] at hhigh ⊢
  have hcaptured : ∃ after, c.mem.drop c.look = body ++ after := by
    obtain ⟨after, hafter⟩ := h.ahead
    exact ⟨[last] ++ after, by rw [hafter, List.append_assoc]⟩
  have hscan := devKlog_body hstate body.length
  generalize hend : ({ c with
    state := .endLog
    cap := some c.look
    look := c.look + body.length + 1 } : KernelCursor) = c' at hscan
  have hfinish : c'.finish 0 =
      some (c'.result true .levelBegin (base.filled body level) 0) := by
    subst hend
    exact finish_filled rfl rfl hlow rfl (by simp only; omega) hcaptured hentry
  refine ⟨_, parse_of_scan hscan hfinish, ?_⟩
  subst hend
  exact ⟨rfl, rfl, rfl, rfl, rfl, rfl⟩

theorem devKlog_from_timeStampBegin {last : UInt8} {fields : List UInt8}
    (hfields : 59 ∉ fields) (h : c.Reads (fields ++ 59 :: (body ++ [last])))
    (hstate : c.state = .timeStampBegin)
    (hentry : c.entry = base.withLevel level) :
    ∃ res, c.parse devKlogSwitch (fields ++ 59 :: (body ++ [last])).length =
        some res ∧
      res.Logged (base.filled body level) 0
        (c.look + (fields ++ 59 :: (body ++ [last])).length) c.mem := by
  obtain ⟨hscan₁, hreads₁⟩ := devKlog_fields hfields h hstate
  obtain ⟨hscan₂, hreads₂⟩ := devKlog_fieldsEnd hreads₁ hstate
  obtain ⟨res, hparse, hlogged⟩ := devKlog_from_bodyBegin hreads₂ rfl hentry
  have hmoved : c.look + fields.length + 1 + (body ++ [last]).length =
      c.look + (fields ++ 59 :: (body ++ [last])).length := by
    simp only [List.length_append, List.length_cons, List.length_nil]
    omega
  refine ⟨res, ?_, hmoved ▸ hlogged⟩
  unfold parse at hparse ⊢
  rw [hscan₁, hscan₂, hparse]

theorem devKlog_from_levelBegin (r : DevKlogRecord)
    (htwo : r.priority.length ≤ 2) (h : c.Reads r.bytes)
    (hstate : c.state = .levelBegin) :
    ∃ res, c.parse devKlogSwitch r.bytes.length = some res ∧
      res.Logged (c.entry.filled r.body (devLevelOf r.priority)) 0
        (c.look + r.bytes.length)
        (c.mem.set (c.look + r.priority.length) 0) := by
  have hsplit : r.bytes =
      r.priority ++ 44 :: (r.fields ++ 59 :: (r.body ++ [10])) := by
    simp [DevKlogRecord.bytes]
  rw [hsplit] at h ⊢
  obtain ⟨c', hscan, hreads, hstate', hlook, hmem, hentry⟩ :=
    devKlog_level r.priority_ok r.one_digit htwo h hstate
  obtain ⟨res, hparse, hlogged⟩ :=
    devKlog_from_timeStampBegin r.fields_ok hreads hstate' hentry
  have hmoved : c'.look + (r.fields ++ 59 :: (r.body ++ [10])).length =
      c.look +
        (r.priority ++ 44 :: (r.fields ++ 59 :: (r.body ++ [10]))).length := by
    simp only [hlook, List.length_append, List.length_cons, List.length_nil]
    omega
  rw [hmoved, hmem] at hlogged
  refine ⟨res, ?_, hlogged⟩
  unfold parse at hparse ⊢
  rw [hscan, hparse]

/-! ## Priorities that are not recognised -/

/-- A comma does not end the level any more. -/
def Stuck (c : KernelCursor) : Prop :=
  c.state = .inLevel ∧ ∀ cap, c.cap = some cap → cap + 2 < c.look

theorem Stuck.levelEnd (hstuck : c.Stuck) (h : c.Reads (b :: input)) :
    c.devKlogLevelEnd = some c.terminated := by
  have hfilter : (c.terminated.cap.filter fun cap =>
      c.terminated.look = cap + 1 ∨ c.terminated.look = cap + 2) = none := by
    cases hcap : c.terminated.cap with
    | none => rfl
    | some cap =>
        have hfar := hstuck.2 cap hcap
        refine if_neg fun hnear => ?_
        have hlook := of_decide_eq_true hnear
        change c.look = cap + 1 ∨ c.look = cap + 2 at hlook
        omega
  have hload : c.terminated.load c.terminated.look = some 0 := by
    have hlook : c.look < c.mem.length := h.look_lt.trans_le h.inside
    simp [load, terminated, h.low, h.look_lt, hlook]
  unfold devKlogLevelEnd
  simp only [store_eq_some h.low h.look_lt h.inside, hfilter, hload,
    Option.bind_eq_bind, Option.bind_some]
  rfl

theorem Stuck.next (hstuck : c.Stuck) : c.next.Stuck :=
  ⟨hstuck.1, fun cap hcap => Nat.lt_succ_of_lt (hstuck.2 cap hcap)⟩

theorem Stuck.scan (hstuck : c.Stuck) (h : c.Reads input) :
    ∃ c', scan devKlogSwitch input.length c = some (c', 0) ∧
      c'.state = .inLevel ∧ c'.entry = c.entry := by
  induction input generalizing c with
  | nil => exact ⟨c, rfl, hstuck.1, rfl⟩
  | cons b input ih =>
      have hrun : ¬c.Stopped := by simp [Stopped, hstuck.1]
      by_cases hcomma : b = 44
      · have hswitch : devKlogSwitch (b :: input).length c =
            some c.terminated := by
          unfold devKlogSwitch
          simp [hstuck.1, h.load, hcomma, hstuck.levelEnd h]
        have hstuck' : c.terminated.Stuck := hstuck
        obtain ⟨c', hscan, hstate, hentry⟩ :=
          ih hstuck'.next (h.next rfl rfl rfl (Or.inr rfl))
        exact ⟨c', by rw [scan_cons hrun hswitch, hscan], hstate, hentry⟩
      · have hswitch : devKlogSwitch (b :: input).length c = some c := by
          unfold devKlogSwitch
          simp [hstuck.1, h.load, hcomma]
        obtain ⟨c', hscan, hstate, hentry⟩ :=
          ih hstuck.next (h.next rfl rfl rfl (Or.inl rfl))
        exact ⟨c', by rw [scan_cons hrun hswitch, hscan], hstate, hentry⟩

theorem finish_inLevel (hstate : c.state = .inLevel) (n : ℕ) :
    c.finish n = some (c.result false .inLevel c.entry n) := by
  unfold finish
  rw [hstate]
  rfl

theorem Stuck.parse (hstuck : c.Stuck) (h : c.Reads input) :
    ∃ res, c.parse devKlogSwitch input.length = some res ∧
      res.loggable = false ∧ res.entry = c.entry := by
  obtain ⟨c', hscan, hstate, hentry⟩ := hstuck.scan h
  exact ⟨_, parse_of_scan hscan (finish_inLevel hstate 0), rfl, hentry⟩

/-- After three digits no comma is recognised. -/
theorem devKlog_long_scan {d e f : UInt8}
    (hdigits : ∀ x ∈ [e, f], isDigit x = true)
    (h : c.Reads (d :: e :: f :: rest)) (hstate : c.state = .levelBegin) :
    ∃ c', scan devKlogSwitch (d :: e :: f :: rest).length c = some (c', 0) ∧
      c'.state = .inLevel ∧ c'.entry = c.entry := by
  obtain ⟨hscan₁, hreads₁⟩ := devKlog_levelBegin h hstate
  obtain ⟨hscan₂, hreads₂⟩ := devKlog_digits hdigits hreads₁ rfl
  have hstuck : (((c.capture c.look).enter .inLevel).next.skip
      [e, f].length).Stuck := by
    refine ⟨rfl, ?_⟩
    rintro cap hcap
    cases hcap
    simp [skip, KernelCursor.next, enter, capture]
  obtain ⟨c', hscan, hstate', hentry⟩ := hstuck.scan hreads₂
  exact ⟨c', hscan₁.trans (hscan₂.trans hscan), hstate', hentry⟩

theorem devKlog_long {d e f : UInt8} (hdigits : ∀ x ∈ [e, f], isDigit x = true)
    (h : c.Reads (d :: e :: f :: rest)) (hstate : c.state = .levelBegin) :
    ∃ res, c.parse devKlogSwitch (d :: e :: f :: rest).length = some res ∧
      res.loggable = false ∧ res.entry = c.entry := by
  obtain ⟨c', hscan, hstate', hentry⟩ := devKlog_long_scan hdigits h hstate
  exact ⟨_, parse_of_scan hscan (finish_inLevel hstate' 0), rfl, hentry⟩

end KernelCursor

/-! ## Which records of `/dev/kmsg` are parsed -/

namespace DevKlogRecord

/-- The record, given whole, is parsed with its text and the level for its
priority. -/
def Parsed (r : DevKlogRecord) (before after : List UInt8)
    (entry : SingleLog) : Prop :=
  ∃ res, parseSingleDevklogToSingleLog (before ++ r.bytes ++ after)
      before.length r.bytes.length .levelBegin entry = some res ∧
    res.loggable = true ∧
    res.entry.buf.text = r.body.take entry.buf.len ∧
    res.entry.logMeta.m.tag = greaseTagKernel ∧
    res.entry.logMeta.m.level = r.logLevel ∧
    res.beginState = .levelBegin ∧ res.remain = 0

theorem long (r : DevKlogRecord) (h : 2 < r.priority.length) :
    ∃ d e f tail, (∀ x ∈ [e, f], isDigit x = true) ∧
      r.bytes = d :: e :: f :: tail := by
  have hdigits := r.priority_ok
  unfold bytes
  match hpriority : r.priority, h with
  | d :: e :: f :: tail, _ =>
      refine ⟨d, e, f, _, ?_, rfl⟩
      intro x hx
      apply hdigits
      rw [hpriority]
      simp only [List.mem_cons, List.not_mem_nil, or_false] at hx ⊢
      tauto

theorem default_level_iff {n : ℕ} (hn : n < 10) :
    greaseKlogDefaultLevel = klogLevelToLevelMap.getD n 0 ↔ n = 6 := by
  interval_cases n <;> decide

/-- The level the code finds is the one for the number, except for numbers
written with a zero in front. -/
theorem devLevelOf_eq_iff {priority : List UInt8}
    (hdigits : ∀ d ∈ priority, isDigit d = true) (hone : 1 ≤ priority.length)
    (htwo : priority.length ≤ 2) :
    KernelCursor.devLevelOf priority = levelOfPriority (priorityValue priority) ↔
      (priority.length = 2 → priority.head? = some 48 →
        priority = [48, 54]) := by
  match priority, hdigits, hone, htwo with
  | [d], hdigits, _, _ =>
      obtain ⟨-, hlt⟩ := KernelCursor.digitValue_of_isDigit (hdigits d (by simp))
      have hvalue : priorityValue [d] = d.toNat - 48 := Nat.zero_add _
      unfold levelOfPriority
      rw [hvalue, if_pos (by omega)]
      simp [KernelCursor.devLevelOf]
  | [d, e], hdigits, _, _ =>
      obtain ⟨hd, hdlt⟩ :=
        KernelCursor.digitValue_of_isDigit (hdigits d (by simp))
      obtain ⟨he, helt⟩ :=
        KernelCursor.digitValue_of_isDigit (hdigits e (by simp))
      have hvalue : priorityValue [d, e] =
          10 * (d.toNat - 48) + (e.toNat - 48) := by
        simp [priorityValue]
      have hdigit : 48 ≤ d.toNat ∧ 48 ≤ e.toNat := by
        have hds := hdigits d (by simp)
        have hes := hdigits e (by simp)
        simp only [isDigit, Bool.and_eq_true, decide_eq_true_eq,
          UInt8.le_iff_toNat_le, UInt8.reduceToNat] at hds hes
        exact ⟨hds.1, hes.1⟩
      have hsame : ∀ x y : UInt8, x = y ↔ x.toNat = y.toNat :=
        fun x y => UInt8.toNat_inj.symm
      unfold levelOfPriority
      simp only [KernelCursor.devLevelOf, hvalue, List.length_cons,
        List.length_nil, List.head?_cons, Option.some.injEq, List.cons.injEq,
        and_true, hsame, UInt8.reduceToNat]
      by_cases hteen : d.toNat = 49
      · rw [if_pos hteen, if_pos (by omega)]
        have hindex : e.toNat - 48 + 10 =
            10 * (d.toNat - 48) + (e.toNat - 48) := by omega
        rw [hindex]
        simp [hteen]
      · rw [if_neg hteen]
        by_cases hzero : d.toNat = 48
        · have hindex : 10 * (d.toNat - 48) + (e.toNat - 48) =
              e.toNat - 48 := by omega
          rw [if_pos (by omega), hindex, default_level_iff helt]
          constructor
          · intro hsix _ _
            exact ⟨hzero, by omega⟩
          · intro hsix
            have hlast := (hsix trivial hzero).2
            omega
        · rw [if_neg (by omega)]
          simp [hzero]

/-- A record of `/dev/kmsg` is parsed exactly if its priority has one or two
digits and is not written with a zero in front.  (`06` happens to have the
default level.) -/
theorem parsed_iff (r : DevKlogRecord) (before after : List UInt8)
    (entry : SingleLog) :
    r.Parsed before after entry ↔
      r.priority.length ≤ 2 ∧
        (r.priority.length = 2 → r.priority.head? = some 48 →
          r.priority = [48, 54]) := by
  have hreads := KernelCursor.reads_start before r.bytes after .levelBegin entry
  by_cases htwo : r.priority.length ≤ 2
  · obtain ⟨res, hparse, hlogged⟩ :=
      KernelCursor.devKlog_from_levelBegin r htwo hreads rfl
    have hentry : res.entry =
        entry.filled r.body (KernelCursor.devLevelOf r.priority) := hlogged.entry
    have hlevel := devLevelOf_eq_iff r.priority_ok r.one_digit htwo
    constructor
    · rintro ⟨res', hparse', -, -, -, hfound, -⟩
      obtain rfl : res = res' := Option.some.inj (hparse.symm.trans hparse')
      rw [hentry] at hfound
      exact ⟨htwo, hlevel.mp hfound⟩
    · rintro ⟨-, hzero⟩
      refine ⟨res, hparse, hlogged.loggable, ?_, ?_, ?_, hlogged.beginState,
        hlogged.remain⟩
      · rw [hentry, SingleLog.text_filled]
      · rw [hentry]
        rfl
      · rw [hentry]
        exact hlevel.mpr hzero
  · refine iff_of_false ?_ fun h => htwo h.1
    rintro ⟨res', hparse', hloggable, -⟩
    obtain ⟨d, e, f, tail, hdigits, hbytes⟩ := r.long (by omega)
    rw [hbytes] at hreads
    obtain ⟨res, hparse, hsilent, -⟩ :=
      KernelCursor.devKlog_long hdigits hreads rfl
    rw [← hbytes] at hparse
    obtain rfl : res = res' := Option.some.inj (hparse.symm.trans hparse')
    rw [hsilent] at hloggable
    exact absurd hloggable (by simp)

def highFacility : DevKlogRecord where
  priority := [49, 49, 56]
  fields := [49, 44, 50, 44, 45]
  body := [104, 105]
  priority_ok := List.all_eq_true.mp rfl
  one_digit := by decide
  four_digits := by decide
  fields_ok := by decide

/-- `118,1,2,-;hi` is not parsed. -/
theorem high_facility_not_parsed :
    ¬highFacility.Parsed [] [] (SingleLog.new (some 0) 100) := by
  rintro ⟨res, hparse, hloggable, -⟩
  have hresult : (parseSingleDevklogToSingleLog ([] ++ highFacility.bytes ++ [])
      0 highFacility.bytes.length .levelBegin
        (SingleLog.new (some 0) 100)).map (·.loggable) = some false := by
    decide +kernel
  rw [List.length_nil] at hparse
  rw [hparse, Option.map_some, hloggable] at hresult
  exact absurd hresult (by simp)

end DevKlogRecord

end GreaseLog
