import GreaseLog.EntrySources

/-!
# The parsers for kernel records

`parse_single_klog_to_singleLog` reads records of the ring buffer, and
`parse_single_devklog_to_singleLog` those of `/dev/kmsg`.  They share the loop
and the copy at its end, and differ in the `switch` over the states.

Here every access is checked against the bytes the parser was given: the
result is none when it would read or write outside of them, or copy from the
null pointer.  `lookups` notes the indices at which the table of levels is
read.
-/

namespace GreaseLog

/-- `*p - '0'`; a `char` is signed. -/
def digitValue (b : UInt8) : ℤ := b.toInt8.toInt - 48

/-- The local variables, with the bytes from `lo` up to `hi` given. -/
structure KernelCursor extends KlogCursor where
  lo : ℕ
  hi : ℕ
  lookups : List ℤ

namespace KernelCursor

def load (c : KernelCursor) (i : ℕ) : Option UInt8 :=
  if c.lo ≤ i ∧ i < c.hi then c.mem[i]? else none

def store (c : KernelCursor) (i : ℕ) (b : UInt8) : Option KernelCursor :=
  if c.lo ≤ i ∧ i < c.hi ∧ i < c.mem.length then
    some { c with mem := c.mem.set i b }
  else none

def enter (c : KernelCursor) (state : KlogParseState) : KernelCursor :=
  { c with state := state }

def capture (c : KernelCursor) (cap : ℕ) : KernelCursor :=
  { c with cap := some cap }

def setLevel (c : KernelCursor) (level : LevelMask) : KernelCursor :=
  { c with toKlogCursor := c.toKlogCursor.setLevel level }

/-- `GREASE_KLOGLEVEL_TO_LEVEL_MAP[k]`. -/
def mapLevel (c : KernelCursor) (k : ℤ) : Option KernelCursor :=
  if 0 ≤ k then
    (klogLevelToLevelMap[k.toNat]?).map fun level =>
      { c.setLevel level with lookups := c.lookups ++ [k] }
  else none

def next (c : KernelCursor) : KernelCursor :=
  { c with look := c.look + 1 }

/-! ## Records of the ring buffer -/

def klogLevelEnd (c : KernelCursor) : Option KernelCursor := do
  let c ← c.store c.look 0
  match c.cap with
  | none => return c.enter .invalid
  | some cap =>
      if c.look = cap + 1 then
        let digit ← c.load cap
        if digit = 99 then return c.enter .contBodyBegin
        else if digit = 100 then
          return (c.setLevel greaseKlogDefaultLevel).enter .timeStampBegin
        else if digitValue digit < 8 ∧ 0 ≤ digitValue digit then
          let c ← c.mapLevel (digitValue digit)
          return c.enter .timeStampBegin
        else return c.enter .invalid
      else return c.enter .invalid

/-- The `switch` of `parse_single_klog_to_singleLog`, for the byte under
`look`. -/
def klogSwitch (_remain : ℕ) (c : KernelCursor) : Option KernelCursor := do
  let byte ← c.load c.look
  match c.state with
  | .levelBegin =>
      if byte = 60 then return (c.capture (c.look + 1)).enter .inLevel
      else return c.enter .invalid
  | .inLevel => if byte = 62 then c.klogLevelEnd else return c
  | .timeStampBegin =>
      return c.enter (if byte = 91 then .inTimeStamp else .invalid)
  | .inTimeStamp =>
      if byte = 93 then return c.enter .bodyBegin
      else if ¬(48 ≤ byte ∧ byte ≤ 57) ∧ byte ≠ 46 ∧ byte ≠ 32 then
        return c.enter .invalid
      else return c
  | .bodyBegin =>
      return (c.capture (c.look + 1)).enter
        (if byte ≠ 10 then .inBody else .endLog)
  | .inBody => if byte = 10 then return c.enter .endLog else return c
  | _ => return c

/-! ## Records of `/dev/kmsg` -/

/-- The number before the comma. -/
def devKlogLevel (c : KernelCursor) (cap : ℕ) (digit : UInt8) : Option ℤ :=
  if c.look = cap + 1 then some (digitValue digit)
  else if digit = 49 then
    (c.load (cap + 1)).map fun second => digitValue second + 10
  else some 20

def devKlogLevelEnd (c : KernelCursor) : Option KernelCursor := do
  let c ← c.store c.look 0
  match c.cap.filter fun cap => c.look = cap + 1 ∨ c.look = cap + 2 with
  | some cap =>
      let digit ← c.load cap
      if digit = 99 then return c.enter .contBodyBegin
      else if digit = 100 then
        return (c.setLevel greaseKlogDefaultLevel).enter .timeStampBegin
      else
        let level ← c.devKlogLevel cap digit
        if level < 20 ∧ 0 ≤ level then
          let c ← c.mapLevel level
          return c.enter .timeStampBegin
        else
          return (c.setLevel greaseKlogDefaultLevel).enter .timeStampBegin
  | none =>
      -- the comma under `look` is overwritten by now
      let byte ← c.load c.look
      if byte = 59 then
        return (c.setLevel greaseKlogDefaultLevel).enter .bodyBegin
      else return c

/-- The `switch` of `parse_single_devklog_to_singleLog`. -/
def devKlogSwitch (remain : ℕ) (c : KernelCursor) : Option KernelCursor := do
  match c.state with
  | .levelBegin => return (c.capture c.look).enter .inLevel
  | .inLevel =>
      let byte ← c.load c.look
      if byte = 44 then c.devKlogLevelEnd else return c
  | .timeStampBegin =>
      let byte ← c.load c.look
      if byte = 59 then return c.enter .bodyBegin else return c
  | .bodyBegin =>
      return (c.capture c.look).enter (if remain = 1 then .endLog else .inBody)
  | .inBody => if remain = 1 then return c.enter .endLog else return c
  | _ => return c

/-! ## The loop -/

def Stopped (c : KernelCursor) : Prop := c.state = .invalid ∨ c.state = .endLog

instance (c : KernelCursor) : Decidable c.Stopped :=
  inferInstanceAs (Decidable (_ ∨ _))

def scan (switch : ℕ → KernelCursor → Option KernelCursor) :
    ℕ → KernelCursor → Option (KernelCursor × ℕ)
  | 0, c => some (c, 0)
  | remain + 1, c =>
      if c.Stopped then some (c, remain + 1)
      else (switch (remain + 1) c).bind fun c => scan switch remain c.next

end KernelCursor

structure KernelResult extends KlogResult where
  lookups : List ℤ

namespace KernelCursor

def result (c : KernelCursor) (loggable : Bool) (beginState : KlogParseState)
    (entry : SingleLog) (rest : ℕ) : KernelResult :=
  ⟨⟨loggable, beginState, entry, c.mem, rest, c.look⟩, c.lookups⟩

def fromKernel (entry : SingleLog) : SingleLog :=
  { entry with logMeta := { entry.logMeta with
    m := { entry.logMeta.m with tag := greaseTagKernel, origin := 0 } } }

/-- The end of both parsers.  `cap` is `NULL` only after a resumed call. -/
def finish (c : KernelCursor) (rest : ℕ) : Option KernelResult :=
  if c.state = .endLog then
    let c := { c with entry := fromKernel c.entry }
    match c.cap with
    | none => none
    | some cap =>
        if cap < c.look then
          let copied := min (c.look - cap - 1) c.entry.buf.len
          if c.lo ≤ cap ∧ cap + copied ≤ c.hi then
            some (c.result true .levelBegin (c.toKlogCursor.capture cap) rest)
          else none
        else some (c.result false .levelBegin c.entry rest)
  else some (c.result false c.state c.entry rest)

def parse (switch : ℕ → KernelCursor → Option KernelCursor) (remain : ℕ)
    (c : KernelCursor) : Option KernelResult :=
  (scan switch remain c).bind fun (c, rest) => c.finish rest

theorem parse_of_scan {switch : ℕ → KernelCursor → Option KernelCursor}
    {remain rest : ℕ} {c c' : KernelCursor} {r : KernelResult}
    (hscan : scan switch remain c = some (c', rest))
    (hfinish : c'.finish rest = some r) :
    c.parse switch remain = some r := by
  unfold parse
  rw [hscan, Option.bind_some]
  exact hfinish

end KernelCursor

def kernelStart (mem : List UInt8) (start remain : ℕ)
    (beginState : KlogParseState) (entry : SingleLog) : KernelCursor :=
  ⟨⟨mem, beginState, start, none, entry⟩, start, start + remain, []⟩

def parseKernelRecord
    (switch : ℕ → KernelCursor → Option KernelCursor) (mem : List UInt8)
    (start remain : ℕ) (beginState : KlogParseState) (entry : SingleLog) :
    Option KernelResult :=
  (kernelStart mem start remain beginState entry).parse switch remain

/-- `parse_single_klog_to_singleLog` with its accesses checked. -/
def checkedKlogToSingleLog :=
  parseKernelRecord KernelCursor.klogSwitch

/-- `parse_single_devklog_to_singleLog`. -/
def parseSingleDevklogToSingleLog :=
  parseKernelRecord KernelCursor.devKlogSwitch

/-! ## What holds between two bytes -/

namespace KernelCursor

variable {c c' : KernelCursor} {orig : List UInt8} {bound : ℤ} {buf : HeapBuf}

/-- The parser has come from `lo` to `look` and has changed nothing ahead of
it.  `cap` lies behind `look` whenever the state uses it, and from there on
the body is still as it was given. -/
structure Tracks (c : KernelCursor) (orig : List UInt8) (bound : ℤ)
    (buf : HeapBuf) : Prop where
  low : c.lo ≤ c.look
  high : c.look ≤ c.hi
  length : c.mem.length = orig.length
  given : c.hi ≤ orig.length
  behind : c.mem.take c.lo = orig.take c.lo
  unread : c.mem.drop c.look = orig.drop c.look
  level : c.state = .inLevel →
    ∃ cap, c.cap = some cap ∧ c.lo ≤ cap ∧ cap ≤ c.look
  body : c.state = .inBody ∨ c.state = .endLog →
    ∃ cap, c.cap = some cap ∧ c.lo ≤ cap ∧ cap ≤ c.look ∧
      c.mem.drop cap = orig.drop cap
  looked : ∀ k ∈ c.lookups, 0 ≤ k ∧ k < bound
  entryBuf : c.entry.buf = buf

/-- What a `switch` may do to the variables. -/
structure Moves (c c' : KernelCursor) (bound : ℤ) : Prop where
  lo : c'.lo = c.lo
  hi : c'.hi = c.hi
  look : c'.look = c.look
  mem : c'.mem = c.mem ∨ c'.mem = c.mem.set c.look 0
  entryBuf : c'.entry.buf = c.entry.buf
  looked : ∀ k ∈ c'.lookups, k ∈ c.lookups ∨ (0 ≤ k ∧ k < bound)
  level : c'.state = .inLevel →
    (c.state = .inLevel ∧ c'.cap = c.cap) ∨
      ∃ cap, c'.cap = some cap ∧ c.look ≤ cap ∧ cap ≤ c.look + 1
  body : c'.state = .inBody ∨ c'.state = .endLog →
    c'.mem = c.mem ∧
      ((c.state = .inBody ∧ c'.cap = c.cap) ∨
        ∃ cap, c'.cap = some cap ∧ c.look ≤ cap ∧ cap ≤ c.look + 1)

theorem Tracks.drop_of_le (h : c.Tracks orig bound buf) {i : ℕ}
    (hi : c.look ≤ i) :
    c.mem.drop i = orig.drop i := by
  have hsplit : i = c.look + (i - c.look) := by omega
  rw [hsplit, ← List.drop_drop, ← List.drop_drop, h.unread]

theorem Tracks.next_of_moves (h : c.Tracks orig bound buf)
    (hlook : c.look < c.hi) (hmoves : c.Moves c' bound) :
    c'.next.Tracks orig bound buf where
  low := by
    have hlow := h.low
    simp only [next, hmoves.lo, hmoves.look]
    omega
  high := by
    simp only [next, hmoves.hi, hmoves.look]
    omega
  length := by
    simp only [next]
    rcases hmoves.mem with hmem | hmem <;> simp [hmem, h.length]
  given := by
    simpa only [next, hmoves.hi] using h.given
  behind := by
    simp only [next, hmoves.lo]
    rcases hmoves.mem with hmem | hmem
    · rw [hmem, h.behind]
    · rw [hmem, List.take_set_of_le h.low, h.behind]
  unread := by
    simp only [next, hmoves.look]
    rcases hmoves.mem with hmem | hmem
    · rw [hmem, h.drop_of_le (Nat.le_succ _)]
    · rw [hmem, List.drop_set_of_lt (Nat.lt_succ_self _),
        h.drop_of_le (Nat.le_succ _)]
  level := by
    intro hstate
    have hlow := h.low
    simp only [next, hmoves.lo, hmoves.look]
    rcases hmoves.level hstate with ⟨hbefore, hcap⟩ | ⟨cap, hcap, hge, hle⟩
    · obtain ⟨cap, hsome, hlo, hle⟩ := h.level hbefore
      exact ⟨cap, hcap.trans hsome, hlo, by omega⟩
    · exact ⟨cap, hcap, by omega, hle⟩
  body := by
    intro hstate
    have hlow := h.low
    obtain ⟨hmem, hcase⟩ := hmoves.body hstate
    simp only [next, hmoves.lo, hmoves.look, hmem]
    rcases hcase with ⟨hbefore, hcap⟩ | ⟨cap, hcap, hge, hle⟩
    · obtain ⟨cap, hsome, hlo, hle, hdrop⟩ := h.body (Or.inl hbefore)
      exact ⟨cap, hcap.trans hsome, hlo, by omega, hdrop⟩
    · exact ⟨cap, hcap, by omega, hle, h.drop_of_le hge⟩
  looked := by
    intro k hk
    rcases hmoves.looked k hk with hold | hnew
    · exact h.looked k hold
    · exact hnew
  entryBuf := hmoves.entryBuf.trans h.entryBuf

theorem Tracks.hi_le (h : c.Tracks orig bound buf) : c.hi ≤ c.mem.length :=
  h.given.trans h.length.ge

theorem load_eq_some {i : ℕ} (hlow : c.lo ≤ i) (hhigh : i < c.hi)
    (hlength : c.hi ≤ c.mem.length) :
    c.load i = some (c.mem.getD i 0) := by
  have hi : i < c.mem.length := by omega
  simp [load, hlow, hhigh, hi]

/-- The terminator has been written over the byte under `look`. -/
def terminated (c : KernelCursor) : KernelCursor :=
  { c with mem := c.mem.set c.look 0 }

theorem store_eq_some (hlow : c.lo ≤ c.look) (hhigh : c.look < c.hi)
    (hlength : c.hi ≤ c.mem.length) :
    c.store c.look 0 = some c.terminated := by
  have hi : c.look < c.mem.length := by omega
  simp [store, terminated, hlow, hhigh, hi]

theorem load_terminated {i : ℕ} (hlow : c.lo ≤ i) (hhigh : i < c.look)
    (hlook : c.look < c.hi) (hlength : c.hi ≤ c.mem.length) :
    c.terminated.load i = some (c.mem.getD i 0) := by
  have hi : i < c.mem.length := by omega
  have hne : c.look ≠ i := by omega
  have hhi : i < c.hi := by omega
  simp [load, terminated, hlow, hhi, hi, List.getElem_set_ne hne]

theorem mapLevel_eq_some (c : KernelCursor) {k : ℤ} (hlow : 0 ≤ k)
    (hhigh : k < 20) :
    c.mapLevel k =
      some { c.setLevel (klogLevelToLevelMap.getD k.toNat 0) with
        lookups := c.lookups ++ [k] } := by
  have hindex : k.toNat < klogLevelToLevelMap.length := by
    have hlength : klogLevelToLevelMap.length = 20 := rfl
    omega
  simp [mapLevel, hlow, hindex]

theorem moves_refl (hstate : c.state ≠ .endLog) : c.Moves c bound where
  lo := rfl
  hi := rfl
  look := rfl
  mem := Or.inl rfl
  entryBuf := rfl
  looked := fun _ hk => Or.inl hk
  level := fun hlevel => Or.inl ⟨hlevel, rfl⟩
  body := fun hbody =>
    ⟨rfl, Or.inl ⟨hbody.resolve_right hstate, rfl⟩⟩

theorem moves_enter {state : KlogParseState} (hlevel : state ≠ .inLevel)
    (hbody : state = .inBody ∨ state = .endLog → c.state = .inBody) :
    c.Moves (c.enter state) bound where
  lo := rfl
  hi := rfl
  look := rfl
  mem := Or.inl rfl
  entryBuf := rfl
  looked := fun _ hk => Or.inl hk
  level := fun h => absurd h hlevel
  body := fun h => ⟨rfl, Or.inl ⟨hbody h, rfl⟩⟩

theorem moves_capture (state : KlogParseState) {cap : ℕ} (hge : c.look ≤ cap)
    (hle : cap ≤ c.look + 1) :
    c.Moves ((c.capture cap).enter state) bound where
  lo := rfl
  hi := rfl
  look := rfl
  mem := Or.inl rfl
  entryBuf := rfl
  looked := fun _ hk => Or.inl hk
  level := fun _ => Or.inr ⟨cap, rfl, hge, hle⟩
  body := fun _ => ⟨rfl, Or.inr ⟨cap, rfl, hge, hle⟩⟩

/-- Once the level has been read, the terminator, the level and the state are
new. -/
theorem moves_terminated {state : KlogParseState} {entry : SingleLog}
    {lookups : List ℤ}
    (hbuf : entry.buf = c.entry.buf)
    (hlooked : ∀ k ∈ lookups, k ∈ c.lookups ∨ (0 ≤ k ∧ k < bound))
    (hlevel : state = .inLevel → c.state = .inLevel)
    (hbody : ¬(state = .inBody ∨ state = .endLog)) :
    c.Moves { c.terminated with
      state := state, entry := entry, lookups := lookups } bound where
  lo := rfl
  hi := rfl
  look := rfl
  mem := Or.inr rfl
  entryBuf := hbuf
  looked := hlooked
  level := fun h => Or.inl ⟨hlevel h, rfl⟩
  body := fun h => absurd h hbody

theorem moves_terminated_enter {state : KlogParseState}
    (hlevel : state = .inLevel → c.state = .inLevel)
    (hbody : ¬(state = .inBody ∨ state = .endLog)) :
    c.Moves (c.terminated.enter state) bound :=
  moves_terminated rfl (fun _ hk => Or.inl hk) hlevel hbody

theorem moves_terminated_level (level : LevelMask) {state : KlogParseState}
    (hlevel : state = .inLevel → c.state = .inLevel)
    (hbody : ¬(state = .inBody ∨ state = .endLog)) :
    c.Moves ((c.terminated.setLevel level).enter state) bound :=
  moves_terminated rfl (fun _ hk => Or.inl hk) hlevel hbody

/-- The level comes from the table. -/
theorem mapLevel_moves {k : ℤ} (hlow : 0 ≤ k) (hhigh : k < bound)
    (hbound : bound ≤ 20) :
    ∃ c', c.terminated.mapLevel k = some c' ∧
      c.Moves (c'.enter .timeStampBegin) bound := by
  refine ⟨_, mapLevel_eq_some _ hlow (by omega),
    moves_terminated rfl ?_ (by simp) (by simp)⟩
  intro index hindex
  rcases List.mem_append.mp hindex with hold | hnew
  · exact Or.inl hold
  · rw [List.mem_singleton.mp hnew]
    exact Or.inr ⟨hlow, hhigh⟩

theorem klogLevelEnd_moves
    (hlow : c.lo ≤ c.look) (hhigh : c.look < c.hi)
    (hlength : c.hi ≤ c.mem.length) {cap : ℕ} (hcap : c.cap = some cap)
    (hlo : c.lo ≤ cap) :
    ∃ c', c.klogLevelEnd = some c' ∧ c.Moves c' 8 := by
  have hcap' : c.terminated.cap = some cap := hcap
  unfold klogLevelEnd
  simp only [store_eq_some hlow hhigh hlength, hcap', Option.bind_eq_bind,
    Option.bind_some]
  by_cases hdistance : c.terminated.look = cap + 1
  · have hbefore : cap < c.look := by
      change c.look = cap + 1 at hdistance
      omega
    simp only [if_pos hdistance,
      load_terminated hlo hbefore hhigh hlength, Option.bind_some]
    split
    · exact ⟨_, rfl, moves_terminated_enter (by simp) (by simp)⟩
    · split
      · exact ⟨_, rfl, moves_terminated_level _ (by simp) (by simp)⟩
      · split
        · rename_i hdigit
          obtain ⟨c', hmap, hmoves⟩ :=
            mapLevel_moves (c := c) hdigit.2 hdigit.1 (by norm_num)
          exact ⟨_, by rw [hmap]; rfl, hmoves⟩
        · exact ⟨_, rfl, moves_terminated_enter (by simp) (by simp)⟩
  · rw [if_neg hdistance]
    exact ⟨_, rfl, moves_terminated_enter (by simp) (by simp)⟩

theorem Tracks.klogSwitch (h : c.Tracks orig 8 buf) (hlook : c.look < c.hi)
    (hrun : ¬c.Stopped) (remain : ℕ) :
    ∃ c', c.klogSwitch remain = some c' ∧ c.Moves c' 8 := by
  have hload := load_eq_some (c := c) h.low hlook h.hi_le
  have hstop : c.state ≠ .endLog := fun hend => hrun (Or.inr hend)
  unfold KernelCursor.klogSwitch
  simp only [hload, Option.bind_eq_bind, Option.bind_some]
  cases hstate : c.state with
  | levelBegin =>
      simp only
      split
      · exact ⟨_, rfl, moves_capture _ (Nat.le_succ _) le_rfl⟩
      · exact ⟨_, rfl, moves_enter (by simp) (by simp)⟩
  | inLevel =>
      obtain ⟨cap, hcap, hlo, -⟩ := h.level hstate
      simp only
      split
      · exact klogLevelEnd_moves h.low hlook h.hi_le hcap hlo
      · exact ⟨_, rfl, moves_refl hstop⟩
  | timeStampBegin =>
      refine ⟨_, rfl, moves_enter ?_ ?_⟩ <;> split <;> simp
  | inTimeStamp =>
      simp only
      split
      · exact ⟨_, rfl, moves_enter (by simp) (by simp)⟩
      · split
        · exact ⟨_, rfl, moves_enter (by simp) (by simp)⟩
        · exact ⟨_, rfl, moves_refl hstop⟩
  | bodyBegin => exact ⟨_, rfl, moves_capture _ (Nat.le_succ _) le_rfl⟩
  | inBody =>
      simp only
      split
      · exact ⟨_, rfl, moves_enter (by simp) (fun _ => hstate)⟩
      · exact ⟨_, rfl, moves_refl hstop⟩
  | invalid => exact absurd (Or.inl hstate) hrun
  | endLog => exact absurd hstate hstop
  | bodyEnd => exact ⟨_, rfl, moves_refl hstop⟩
  | contBodyBegin => exact ⟨_, rfl, moves_refl hstop⟩
  | inContBody => exact ⟨_, rfl, moves_refl hstop⟩
  | contBodyEnd => exact ⟨_, rfl, moves_refl hstop⟩

theorem devKlogLevel_eq_some {cap : ℕ} (digit : UInt8)
    (hlo : c.lo ≤ cap) (hhigh : c.look < c.hi)
    (hlength : c.hi ≤ c.mem.length)
    (hdistance : c.look = cap + 1 ∨ c.look = cap + 2) :
    ∃ level, c.terminated.devKlogLevel cap digit = some level := by
  unfold devKlogLevel
  split
  · exact ⟨_, rfl⟩
  · rename_i hnear
    split
    · have hbefore : cap + 1 < c.look := by
        change ¬c.look = cap + 1 at hnear
        omega
      rw [load_terminated (by omega) hbefore hhigh hlength]
      exact ⟨_, rfl⟩
    · exact ⟨_, rfl⟩

theorem devKlogLevelEnd_moves (hstate : c.state = .inLevel)
    (hlow : c.lo ≤ c.look) (hhigh : c.look < c.hi)
    (hlength : c.hi ≤ c.mem.length) {cap : ℕ} (hcap : c.cap = some cap)
    (hlo : c.lo ≤ cap) :
    ∃ c', c.devKlogLevelEnd = some c' ∧ c.Moves c' 20 := by
  have hcap' : c.terminated.cap = some cap := hcap
  unfold devKlogLevelEnd
  simp only [store_eq_some hlow hhigh hlength, hcap', Option.bind_eq_bind,
    Option.bind_some]
  by_cases hdistance : c.look = cap + 1 ∨ c.look = cap + 2
  · have hfilter : (some cap).filter (fun cap =>
        decide (c.terminated.look = cap + 1 ∨
          c.terminated.look = cap + 2)) = some cap :=
      if_pos (decide_eq_true hdistance)
    have hbefore : cap < c.look := by omega
    simp only [hfilter, load_terminated hlo hbefore hhigh hlength,
      Option.bind_some]
    split
    · exact ⟨_, rfl, moves_terminated_enter (by simp) (by simp)⟩
    · split
      · exact ⟨_, rfl, moves_terminated_level _ (by simp) (by simp)⟩
      · obtain ⟨level, hlevel⟩ := devKlogLevel_eq_some (c.mem.getD cap 0)
          hlo hhigh hlength hdistance
        simp only [hlevel, Option.bind_some]
        split
        · rename_i hrange
          obtain ⟨c', hmap, hmoves⟩ :=
            mapLevel_moves (c := c) hrange.2 hrange.1 le_rfl
          exact ⟨_, by rw [hmap]; rfl, hmoves⟩
        · exact ⟨_, rfl, moves_terminated_level _ (by simp) (by simp)⟩
  · have hfilter : (some cap).filter (fun cap =>
        decide (c.terminated.look = cap + 1 ∨
          c.terminated.look = cap + 2)) = none :=
      if_neg fun h => hdistance (of_decide_eq_true h)
    have hload : c.terminated.load c.terminated.look = some 0 := by
      have hlook : c.look < c.mem.length := by omega
      simp [load, terminated, hlow, hhigh, hlook]
    simp only [hfilter, hload, Option.bind_some]
    have hmoves : c.Moves (c.terminated.enter c.state) 20 :=
      moves_terminated_enter id (by simp [hstate])
    exact ⟨_, rfl, hmoves⟩

theorem Tracks.devKlogSwitch (h : c.Tracks orig 20 buf) (hlook : c.look < c.hi)
    (hrun : ¬c.Stopped) (remain : ℕ) :
    ∃ c', c.devKlogSwitch remain = some c' ∧ c.Moves c' 20 := by
  have hload := load_eq_some (c := c) h.low hlook h.hi_le
  have hstop : c.state ≠ .endLog := fun hend => hrun (Or.inr hend)
  unfold KernelCursor.devKlogSwitch
  cases hstate : c.state with
  | levelBegin => exact ⟨_, rfl, moves_capture _ le_rfl (Nat.le_succ _)⟩
  | inLevel =>
      obtain ⟨cap, hcap, hlo, -⟩ := h.level hstate
      simp only [hload, Option.bind_eq_bind, Option.bind_some]
      split
      · exact devKlogLevelEnd_moves hstate h.low hlook h.hi_le hcap hlo
      · exact ⟨_, rfl, moves_refl hstop⟩
  | timeStampBegin =>
      simp only [hload, Option.bind_eq_bind, Option.bind_some]
      split
      · exact ⟨_, rfl, moves_enter (by simp) (by simp)⟩
      · exact ⟨_, rfl, moves_refl hstop⟩
  | bodyBegin => exact ⟨_, rfl, moves_capture _ le_rfl (Nat.le_succ _)⟩
  | inBody =>
      simp only
      split
      · exact ⟨_, rfl, moves_enter (by simp) (fun _ => hstate)⟩
      · exact ⟨_, rfl, moves_refl hstop⟩
  | invalid => exact absurd (Or.inl hstate) hrun
  | endLog => exact absurd hstate hstop
  | inTimeStamp => exact ⟨_, rfl, moves_refl hstop⟩
  | bodyEnd => exact ⟨_, rfl, moves_refl hstop⟩
  | contBodyBegin => exact ⟨_, rfl, moves_refl hstop⟩
  | inContBody => exact ⟨_, rfl, moves_refl hstop⟩
  | contBodyEnd => exact ⟨_, rfl, moves_refl hstop⟩

/-! ## Whole calls -/

/-- Both `switch`es make only moves that keep track. -/
def Safe (switch : ℕ → KernelCursor → Option KernelCursor) (bound : ℤ) : Prop :=
  ∀ (c : KernelCursor) (orig : List UInt8) (buf : HeapBuf) (remain : ℕ),
    c.Tracks orig bound buf → c.look < c.hi → ¬c.Stopped →
      ∃ c', switch remain c = some c' ∧ c.Moves c' bound

theorem safe_klogSwitch : Safe klogSwitch 8 :=
  fun _ _ _ remain h hlook hrun => h.klogSwitch hlook hrun remain

theorem safe_devKlogSwitch : Safe devKlogSwitch 20 :=
  fun _ _ _ remain h hlook hrun => h.devKlogSwitch hlook hrun remain

variable {switch : ℕ → KernelCursor → Option KernelCursor}

theorem Tracks.scan (hsafe : Safe switch bound)
    (h : c.Tracks orig bound buf) (remain : ℕ) (hremain : c.look + remain = c.hi) :
    ∃ c' rest, scan switch remain c = some (c', rest) ∧
      c'.Tracks orig bound buf ∧ c'.look + rest = c'.hi ∧
      c'.lo = c.lo ∧ c'.hi = c.hi := by
  induction remain generalizing c with
  | zero => exact ⟨c, 0, rfl, h, hremain, rfl, rfl⟩
  | succ remain ih =>
      unfold KernelCursor.scan
      by_cases hstopped : c.Stopped
      · rw [if_pos hstopped]
        exact ⟨c, remain + 1, rfl, h, hremain, rfl, rfl⟩
      · rw [if_neg hstopped]
        obtain ⟨c₁, hswitch, hmoves⟩ :=
          hsafe c orig buf (remain + 1) h (by omega) hstopped
        have hnext := h.next_of_moves (by omega) hmoves
        obtain ⟨c', rest, hscan, htracks, hrest, hlo, hhi⟩ :=
          ih hnext (by
            simp only [next, hmoves.look, hmoves.hi]
            omega)
        refine ⟨c', rest, ?_, htracks, hrest, hlo.trans hmoves.lo,
          hhi.trans hmoves.hi⟩
        rw [hswitch, Option.bind_some, hscan]

theorem tracks_start (before bytes after : List UInt8) (bound : ℤ)
    (entry : SingleLog) :
    (kernelStart (before ++ bytes ++ after) before.length bytes.length
      .levelBegin entry).Tracks (before ++ bytes ++ after) bound entry.buf where
  low := le_rfl
  high := Nat.le_add_right _ _
  length := rfl
  given := by simp [kernelStart]
  behind := rfl
  unread := rfl
  level := by simp [kernelStart]
  body := by simp [kernelStart]
  looked := by simp [kernelStart]
  entryBuf := rfl

/-- What the entry holds after the copy at the end of a parser. -/
theorem text_capture (k : KlogCursor) {cap : ℕ} (hcap : cap < k.look)
    (hlook : k.look ≤ k.mem.length) :
    (k.capture cap).buf.text =
      (k.mem.drop cap).take (min (k.look - cap - 1) k.entry.buf.len) := by
  have hcopied : (((k.mem.drop cap).take (k.look - cap - 1)).take
      k.entry.buf.len).length = min (k.look - cap - 1) k.entry.buf.len := by
    simp only [List.length_take, List.length_drop]
    omega
  unfold KlogCursor.capture HeapBuf.text HeapBuf.poke
  simp only
  rw [List.take_append_of_le_length hcopied.ge, List.take_of_length_le hcopied.le,
    List.take_take, Nat.min_comm]

end KernelCursor

/-- What the two parsers promise about the bytes they were given, which lie
between `before` and `after` in memory. -/
structure KernelResult.Sound (r : KernelResult) (before bytes after : List UInt8)
    (entry : SingleLog) (bound : ℤ) : Prop where
  forward : before.length ≤ r.moved
  consumed : r.remain + (r.moved - before.length) = bytes.length
  written : ∃ rewritten, rewritten.length = bytes.length ∧
    r.mem = before ++ rewritten ++ after
  looked : ∀ k ∈ r.lookups, 0 ≤ k ∧ k < bound
  copied : r.loggable = true →
    r.entry.buf.used ≤ entry.buf.len ∧ r.entry.buf.len = entry.buf.len ∧
      ∃ offset, offset + r.entry.buf.used ≤ bytes.length ∧
        r.entry.buf.text = (bytes.drop offset).take r.entry.buf.used

theorem take_drop_middle (before bytes after : List UInt8) {i n : ℕ}
    (hlow : before.length ≤ i)
    (hhigh : i + n ≤ before.length + bytes.length) :
    ((before ++ bytes ++ after).drop i).take n =
      (bytes.drop (i - before.length)).take n := by
  obtain ⟨k, rfl⟩ := Nat.exists_eq_add_of_le hlow
  have hdrop : (before ++ bytes ++ after).drop (before.length + k) =
      bytes.drop k ++ after := by
    rw [← List.drop_drop, List.append_assoc, List.drop_left,
      List.drop_append_of_le_length (by omega)]
  rw [hdrop, Nat.add_sub_cancel_left, List.take_append_of_le_length]
  simp only [List.length_drop]
  omega

namespace KernelCursor

variable {c : KernelCursor} {before bytes after : List UInt8} {bound : ℤ}
  {entry : SingleLog}

theorem Tracks.rewritten
    (h : c.Tracks (before ++ bytes ++ after) bound entry.buf)
    (hlo : c.lo = before.length) (hhi : c.hi = before.length + bytes.length) :
    ∃ rewritten, rewritten.length = bytes.length ∧
      c.mem = before ++ rewritten ++ after := by
  have hlength := h.length
  simp only [List.length_append] at hlength
  refine ⟨(c.mem.drop before.length).take bytes.length, ?_, ?_⟩
  · simp only [List.length_take, List.length_drop]
    omega
  · have hbefore : c.mem.take before.length = before := by
      have hbehind := h.behind
      rw [hlo] at hbehind
      rw [hbehind, List.append_assoc, List.take_left]
    have hafter : (c.mem.drop before.length).drop bytes.length = after := by
      have hunread := h.drop_of_le h.high
      rw [hhi] at hunread
      rw [List.drop_drop, hunread, ← List.length_append, List.drop_left]
    calc
      c.mem = c.mem.take before.length ++ c.mem.drop before.length :=
          (List.take_append_drop _ _).symm
      _ = before ++ ((c.mem.drop before.length).take bytes.length ++
            (c.mem.drop before.length).drop bytes.length) := by
          rw [hbefore, List.take_append_drop]
      _ = before ++ (c.mem.drop before.length).take bytes.length ++ after := by
          rw [hafter, List.append_assoc]

theorem Tracks.finish
    (h : c.Tracks (before ++ bytes ++ after) bound entry.buf)
    (hlo : c.lo = before.length) (hhi : c.hi = before.length + bytes.length)
    {rest : ℕ} (hrest : c.look + rest = c.hi) :
    ∃ r, c.finish rest = some r ∧ r.Sound before bytes after entry bound := by
  have hlow := h.low
  have hhigh := h.high
  have hforward : before.length ≤ c.look := by omega
  have hconsumed : rest + (c.look - before.length) = bytes.length := by omega
  have hwritten := h.rewritten hlo hhi
  have hsilent : ∀ (state : KlogParseState) (e : SingleLog),
      (c.result false state e rest).Sound before bytes after entry bound :=
    fun _ _ => ⟨hforward, hconsumed, hwritten, h.looked, by simp [result]⟩
  unfold KernelCursor.finish
  by_cases hend : c.state = .endLog
  · obtain ⟨cap, hcap, hlocap, hcaplook, hdrop⟩ := h.body (Or.inr hend)
    simp only [if_pos hend, hcap]
    by_cases hnonempty : cap < c.look
    · have hinside : cap + min (c.look - cap - 1) c.entry.buf.len ≤ c.hi := by
        omega
      rw [if_pos hnonempty, if_pos ⟨hlocap, hinside⟩]
      refine ⟨_, rfl, hforward, hconsumed, hwritten, h.looked, fun _ => ?_⟩
      have hlook : c.look ≤ c.mem.length := hhigh.trans h.hi_le
      have htext := text_capture { c.toKlogCursor with
        entry := fromKernel c.entry } hnonempty hlook
      have hbuf : (fromKernel c.entry).buf = entry.buf := h.entryBuf
      have hused : ((⟨c.mem, c.state, c.look, c.cap,
          fromKernel c.entry⟩ : KlogCursor).capture cap).buf.used =
            min (c.look - cap - 1) entry.buf.len := by
        simp [KlogCursor.capture, hbuf]
      refine ⟨?_, ?_, cap - before.length, ?_, ?_⟩
      · exact hused.le.trans (Nat.min_le_right _ _)
      · simp [result, KlogCursor.capture, HeapBuf.poke, hbuf]
      · change _ + ((⟨c.mem, c.state, c.look, c.cap,
          fromKernel c.entry⟩ : KlogCursor).capture cap).buf.used ≤ _
        omega
      · refine htext.trans ?_
        simp only [hbuf, hdrop]
        rw [take_drop_middle before bytes after (by omega) (by omega)]
        exact congrArg (fun n => List.take n _) hused.symm
    · rw [if_neg hnonempty]
      exact ⟨_, rfl, hsilent _ _⟩
  · rw [if_neg hend]
    exact ⟨_, rfl, hsilent _ _⟩

theorem sound_parse {switch : ℕ → KernelCursor → Option KernelCursor}
    (hsafe : Safe switch bound) (before bytes after : List UInt8)
    (entry : SingleLog) :
    ∃ r, parseKernelRecord switch (before ++ bytes ++ after) before.length
        bytes.length .levelBegin entry = some r ∧
      r.Sound before bytes after entry bound := by
  have hstart := tracks_start before bytes after bound entry
  obtain ⟨c, rest, hscan, htracks, hrest, hlo, hhi⟩ :=
    hstart.scan hsafe bytes.length rfl
  obtain ⟨r, hfinish, hsound⟩ := htracks.finish hlo hhi hrest
  exact ⟨r, parse_of_scan hscan hfinish, hsound⟩

end KernelCursor

/-! ## The parser without the checks -/

theorem digitValue_eq (d : UInt8) :
    digitValue d =
      if d.toNat < 128 then (d.toNat : ℤ) - 48 else (d.toNat : ℤ) - 304 := by
  have hsigned : d.toInt8.toInt = d.toBitVec.toInt := rfl
  have hnat : d.toBitVec.toNat = d.toNat := rfl
  unfold digitValue
  rw [hsigned, BitVec.toInt_eq_toNat_cond, hnat]
  split <;> split <;> omega

theorem digitValue_lt_eight (d : UInt8) :
    (digitValue d < 8 ∧ 0 ≤ digitValue d) ↔ 48 ≤ d ∧ d < 56 := by
  have hbyte := d.toNat_lt
  simp only [digitValue_eq, UInt8.le_iff_toNat_le, UInt8.lt_iff_toNat_lt,
    UInt8.reduceToNat]
  split <;> omega

theorem digitValue_toNat {d : UInt8} (h : 48 ≤ d ∧ d < 56) :
    (digitValue d).toNat = d.toNat - 48 := by
  simp only [UInt8.le_iff_toNat_le, UInt8.lt_iff_toNat_lt,
    UInt8.reduceToNat] at h
  rw [digitValue_eq, if_pos (by omega)]
  omega

namespace KernelCursor

variable {c c' : KernelCursor}

theorem byteAt_of_load {i : ℕ} {b : UInt8} (h : c.load i = some b) :
    c.toKlogCursor.byteAt i = b := by
  unfold load at h
  split at h
  · simp [KlogCursor.byteAt, List.getD_eq_getElem?_getD, h]
  · cases h

theorem store_eq {i : ℕ} {b : UInt8} (h : c.store i b = some c') :
    c' = { c with mem := c.mem.set i b } := by
  unfold store at h
  split at h
  · exact (Option.some.inj h).symm
  · cases h

theorem klogLevelEnd_eq (h : c.klogLevelEnd = some c') :
    c'.toKlogCursor = c.toKlogCursor.levelEnd := by
  obtain ⟨stored, hstore, h⟩ := Option.bind_eq_some_iff.mp h
  rw [store_eq hstore] at h
  unfold KlogCursor.levelEnd
  cases hcap : c.cap with
  | none =>
      simp only [hcap, Option.pure_def, Option.some.injEq] at h ⊢
      rw [← h]
      rfl
  | some cap =>
      simp only [hcap] at h ⊢
      split at h
      · rename_i hdistance
        obtain ⟨digit, hload, h⟩ := Option.bind_eq_some_iff.mp h
        have hbyte := byteAt_of_load hload
        rw [if_pos hdistance]
        simp only at hbyte
        simp only [hbyte, ← digitValue_lt_eight]
        split at h
        · cases h
          simp [*, enter]
        · split at h
          · cases h
            simp [*, enter, setLevel]
          · split at h
            · rename_i hdigit
              obtain ⟨mapped, hmap, h⟩ := Option.bind_eq_some_iff.mp h
              rw [mapLevel_eq_some _ hdigit.2 (by omega)] at hmap
              cases hmap
              cases h
              simp [*, enter, setLevel,
                digitValue_toNat ((digitValue_lt_eight digit).mp hdigit)]
            · cases h
              simp [*, enter]
      · rename_i hdistance
        cases h
        rw [if_neg hdistance]
        rfl

theorem klogSwitch_eq {remain : ℕ} (h : c.klogSwitch remain = some c') :
    c'.toKlogCursor = c.toKlogCursor.switch := by
  obtain ⟨byte, hload, h⟩ := Option.bind_eq_some_iff.mp h
  have hbyte := byteAt_of_load hload
  unfold KlogCursor.switch
  simp only [hbyte]
  cases hstate : c.state with
  | levelBegin =>
      simp only [hstate] at h ⊢
      split at h <;> rename_i hcase <;> cases h <;>
        simp [hcase, enter, capture]
  | inLevel =>
      simp only [hstate] at h ⊢
      split at h
      · rename_i hcase
        rw [if_pos hcase]
        exact klogLevelEnd_eq h
      · rename_i hcase
        cases h
        rw [if_neg hcase]
  | timeStampBegin =>
      simp only [hstate] at h ⊢
      cases h
      rfl
  | inTimeStamp =>
      simp only [hstate] at h ⊢
      split at h
      · rename_i hcase
        cases h
        rw [if_pos hcase]
        rfl
      · rename_i hcase
        rw [if_neg hcase]
        split at h
        · rename_i hother
          cases h
          rw [if_pos hother]
          rfl
        · rename_i hother
          cases h
          rw [if_neg hother]
  | bodyBegin =>
      simp only [hstate] at h ⊢
      cases h
      rfl
  | inBody =>
      simp only [hstate] at h ⊢
      split at h <;> rename_i hcase <;> cases h <;> simp [hcase, enter]
  | _ =>
      simp only [hstate] at h ⊢
      cases h
      rfl

theorem switch_look (k : KlogCursor) : k.switch.look = k.look := by
  have hlevel : k.levelEnd.look = k.look := by
    unfold KlogCursor.levelEnd KlogCursor.setLevel
    simp only
    split
    · rfl
    · split_ifs <;> rfl
  unfold KlogCursor.switch
  simp only
  split
  · split <;> rfl
  · split
    · exact hlevel
    · rfl
  · rfl
  · split_ifs <;> rfl
  · rfl
  · split <;> rfl
  · rfl

theorem scan_eq {remain rest : ℕ}
    (h : scan klogSwitch remain c = some (c', rest)) :
    KlogCursor.scan remain c.toKlogCursor = (c'.toKlogCursor, rest) := by
  induction remain generalizing c with
  | zero =>
      cases h
      rfl
  | succ remain ih =>
      unfold scan at h
      unfold KlogCursor.scan
      split at h
      · rename_i hstopped
        cases h
        exact if_pos hstopped
      · rename_i hstopped
        obtain ⟨c₁, hswitch, h⟩ := Option.bind_eq_some_iff.mp h
        have hsame := klogSwitch_eq hswitch
        have hlook : c.look = c₁.look := by
          rw [← switch_look c.toKlogCursor, ← hsame]
        refine (if_neg hstopped).trans ?_
        rw [← hsame, hlook]
        exact ih h

theorem finish_eq {rest : ℕ} {r : KernelResult} (h : c.finish rest = some r) :
    r.toKlogResult =
      if c.state = .endLog then
        let k := { c.toKlogCursor with entry := fromKernel c.entry }
        match k.cap with
        | some cap =>
            if cap < k.look then
              ⟨true, .levelBegin, k.capture cap, k.mem, rest, k.look⟩
            else ⟨false, .levelBegin, k.entry, k.mem, rest, k.look⟩
        | none => ⟨false, .levelBegin, k.entry, k.mem, rest, k.look⟩
      else ⟨false, c.state, c.entry, c.mem, rest, c.look⟩ := by
  unfold finish at h
  split at h
  · rename_i hend
    rw [if_pos hend]
    cases hcap : c.cap with
    | none => simp [hcap] at h
    | some cap =>
        simp only [hcap] at h ⊢
        split at h
        · rename_i hlook
          rw [if_pos hlook]
          split at h
          · cases h
            simp [result]
          · cases h
        · rename_i hlook
          cases h
          rw [if_neg hlook]
          rfl
  · rename_i hend
    cases h
    rw [if_neg hend]
    rfl

end KernelCursor

/-- The checks change nothing as long as they succeed. -/
theorem parseSingleKlog_eq {mem : List UInt8} {start remain : ℕ}
    {beginState : KlogParseState} {entry : SingleLog} {r : KernelResult}
    (h : checkedKlogToSingleLog mem start remain beginState entry = some r) :
    parseSingleKlogToSingleLog mem start remain beginState entry =
      r.toKlogResult := by
  obtain ⟨⟨c, rest⟩, hscan, hfinish⟩ := Option.bind_eq_some_iff.mp h
  have hsame := KernelCursor.scan_eq hscan
  have hresult := KernelCursor.finish_eq hfinish
  unfold parseSingleKlogToSingleLog
  unfold kernelStart at hsame
  simp only at hsame
  rw [hsame, hresult]
  rfl

/-- Both parsers take any bytes: they end, stay inside the bytes they were
given, count what they consume, read the table of levels inside its bounds and
copy a part of their input. -/
theorem kernel_parsers_safe (before bytes after : List UInt8)
    (entry : SingleLog) :
    (∃ r, checkedKlogToSingleLog (before ++ bytes ++ after) before.length
        bytes.length .levelBegin entry = some r ∧
      r.Sound before bytes after entry 8) ∧
    ∃ r, parseSingleDevklogToSingleLog (before ++ bytes ++ after) before.length
        bytes.length .levelBegin entry = some r ∧
      r.Sound before bytes after entry 20 :=
  ⟨KernelCursor.sound_parse KernelCursor.safe_klogSwitch before bytes after entry,
    KernelCursor.sound_parse KernelCursor.safe_devKlogSwitch before bytes after
      entry⟩

end GreaseLog
