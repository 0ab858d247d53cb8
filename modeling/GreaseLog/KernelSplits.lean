import GreaseLog.KernelRecords

/-!
# Records that arrive in two parts

Between two calls of a parser only the state and the cursor are kept; the
position of the capture and the level found so far are variables of the call.
A record can be parsed in two parts exactly if it is cut where the state does
not use the capture.
-/

namespace GreaseLog

/-- The record is parsed in two calls, the first of which ends after `n` bytes
without a result, as it would be parsed in one. -/
def Resumes (switch : ℕ → KernelCursor → Option KernelCursor)
    (bytes : List UInt8) (n : ℕ) (before after : List UInt8)
    (entry : SingleLog) : Prop :=
  ∃ whole first second,
    parseKernelRecord switch (before ++ bytes ++ after) before.length
      bytes.length .levelBegin entry = some whole ∧
    parseKernelRecord switch (before ++ bytes ++ after) before.length n
      .levelBegin entry = some first ∧
    first.loggable = false ∧ first.beginState ≠ .invalid ∧
    parseKernelRecord switch first.mem first.moved (bytes.length - n)
      first.beginState first.entry = some second ∧
    second.loggable = whole.loggable ∧
    second.entry.buf.text = whole.entry.buf.text ∧
    second.entry.logMeta.m.level = whole.entry.logMeta.m.level ∧
    second.entry.logMeta.m.tag = whole.entry.logMeta.m.tag

namespace KernelCursor

variable {switch : ℕ → KernelCursor → Option KernelCursor}
  {before after part tail : List UInt8} {entry : SingleLog}

/-- A cut before the first byte changes nothing. -/
theorem resumes_zero {bytes : List UInt8} {whole : KernelResult}
    (hwhole : parseKernelRecord switch (before ++ bytes ++ after) before.length
      bytes.length .levelBegin entry = some whole) :
    Resumes switch bytes 0 before after entry := by
  refine ⟨whole, _, whole, hwhole, rfl, rfl, ?_, hwhole, rfl, rfl, rfl, rfl⟩
  simp [kernelStart, result]

theorem reads_first (before part tail after : List UInt8)
    (state : KlogParseState) (entry : SingleLog) :
    (kernelStart (before ++ (part ++ tail) ++ after) before.length part.length
      state entry).Reads part := by
  have hreads := reads_start before part (tail ++ after) state entry
  simpa [List.append_assoc] using hreads

theorem finish_running {c : KernelCursor} (hstate : c.state ≠ .endLog) (n : ℕ) :
    c.finish n = some (c.result false c.state c.entry n) :=
  if_neg hstate

/-- The first call stops in the middle of the record; the second one begins
where it stopped, without a capture. -/
theorem resumes_iff_of_first {bound : ℤ} {c : KernelCursor}
    (hsafe : Safe switch bound)
    (hscan : scan switch part.length (kernelStart (before ++ (part ++ tail) ++
      after) before.length part.length .levelBegin entry) = some (c, 0))
    (hstate : c.state ≠ .endLog) (hvalid : c.state ≠ .invalid) :
    ∃ behind, Resumes switch (part ++ tail) part.length before after entry ↔
      ∃ whole second,
        parseKernelRecord switch (before ++ (part ++ tail) ++ after)
          before.length (part ++ tail).length .levelBegin entry = some whole ∧
        (kernelStart (behind ++ tail ++ after) behind.length tail.length
          c.state c.entry).parse switch tail.length = some second ∧
        second.loggable = whole.loggable ∧
        second.entry.buf.text = whole.entry.buf.text ∧
        second.entry.logMeta.m.level = whole.entry.logMeta.m.level ∧
        second.entry.logMeta.m.tag = whole.entry.logMeta.m.tag := by
  have hgiven : before ++ (part ++ tail) ++ after =
      before ++ part ++ (tail ++ after) := by simp
  have hstart := tracks_start before part (tail ++ after) bound entry
  rw [← hgiven] at hstart
  obtain ⟨c', rest, hscan', htracks, hrest, hlo, hhi⟩ :=
    hstart.scan hsafe part.length rfl
  obtain ⟨rfl, rfl⟩ : c = c' ∧ 0 = rest := by
    simpa using Option.some.inj (hscan.symm.trans hscan')
  rw [hgiven] at htracks
  obtain ⟨rewritten, hlength, hmem⟩ := htracks.rewritten hlo hhi
  have hlook : c.look = (before ++ rewritten).length := by
    rw [List.length_append, hlength]
    exact hrest.trans hhi
  have hmem' : c.mem = before ++ rewritten ++ tail ++ after := by
    rw [hmem, List.append_assoc (before ++ rewritten)]
  have hfirst : parseKernelRecord switch (before ++ (part ++ tail) ++ after)
      before.length part.length .levelBegin entry =
        some (c.result false c.state c.entry 0) :=
    parse_of_scan hscan (finish_running hstate 0)
  have hremain : (part ++ tail).length - part.length = tail.length := by simp
  refine ⟨before ++ rewritten, ?_, ?_⟩
  · rintro ⟨whole, first, second, hwhole, hfirst', -, -, hsecond, hsame⟩
    obtain rfl := Option.some.inj (hfirst.symm.trans hfirst')
    refine ⟨whole, second, hwhole, ?_, hsame⟩
    simp only [result] at hsecond
    rw [hremain, hmem', hlook] at hsecond
    exact hsecond
  · rintro ⟨whole, second, hwhole, hsecond, hsame⟩
    refine ⟨whole, _, second, hwhole, hfirst, rfl, hvalid, ?_, hsame⟩
    simp only [result]
    rw [hremain, hmem', hlook]
    exact hsecond

/-- A cut behind the level: `w` is what the first call still reads, and `state`
the state in which it stops. -/
theorem resumes_after_level {bound : ℤ} (hsafe : Safe switch bound)
    {lead w v body : List UInt8} {state : KlogParseState} {level : LevelMask}
    {whole : KernelResult}
    (hwhole : parseKernelRecord switch (before ++ (lead ++ w ++ v) ++ after)
      before.length (lead ++ w ++ v).length .levelBegin entry = some whole)
    (hloggable : whole.loggable = true)
    (hentry : whole.entry = entry.filled body level)
    (hlevel : ∀ c : KernelCursor, c.state = .levelBegin →
      c.Reads (lead ++ w) →
        ∃ c', scan switch (lead ++ w).length c = scan switch w.length c' ∧
          c'.Reads w ∧ c'.state = .timeStampBegin ∧
          c'.entry = c.entry.withLevel level)
    (hpart : ∀ c : KernelCursor, c.state = .timeStampBegin → c.Reads w →
      scan switch w.length c =
        some ({ c with state := state, look := c.look + w.length }, 0))
    (hend : state ≠ .endLog) (hvalid : state ≠ .invalid)
    (hresume : ∀ c : KernelCursor, c.state = state → c.Reads v →
      c.entry = entry.withLevel level →
        ∃ res, c.parse switch v.length = some res ∧ res.loggable = true ∧
          res.entry = entry.filled body level) :
    Resumes switch (lead ++ w ++ v) (lead ++ w).length before after entry := by
  obtain ⟨c, hscan, hreads, hstate, hentry'⟩ :=
    hlevel _ rfl (reads_first before (lead ++ w) v after .levelBegin entry)
  have hfirst := hscan.trans (hpart c hstate hreads)
  obtain ⟨behind, hiff⟩ := resumes_iff_of_first hsafe hfirst hend hvalid
  obtain ⟨second, hsecond, hloggable', hentry''⟩ := hresume
    (kernelStart (behind ++ v ++ after) behind.length v.length state c.entry)
    rfl (reads_start behind v after state c.entry) hentry'
  refine hiff.mpr ⟨whole, second, hwhole, hsecond, ?_, ?_, ?_, ?_⟩
  · rw [hloggable', hloggable]
  · rw [hentry'', hentry]
  · rw [hentry'', hentry]
  · rw [hentry'', hentry]

/-! ## Records of the ring buffer -/

theorem klog_whole (r : KlogRecord) (before after : List UInt8)
    (entry : SingleLog) :
    ∃ whole, parseKernelRecord klogSwitch (before ++ r.bytes ++ after)
        before.length r.bytes.length .levelBegin entry = some whole ∧
      whole.loggable = true ∧
      whole.entry = entry.filled r.body r.logLevel := by
  have hreads := reads_start before r.bytes after .levelBegin entry
  rw [← List.append_nil r.bytes] at hreads
  obtain ⟨whole, hparse, hlogged⟩ := klog_from_levelBegin r hreads rfl
  rw [List.append_nil] at hparse
  exact ⟨whole, hparse, hlogged.loggable, hlogged.entry⟩

/-- A cut behind the level of a record, given by what the two calls read. -/
theorem klog_resumes_at (r : KlogRecord) (w v : List UInt8)
    (state : KlogParseState)
    (hbytes : r.bytes = [60, r.level, 62] ++ w ++ v)
    (hpart : ∀ c : KernelCursor, c.state = .timeStampBegin → c.Reads w →
      scan klogSwitch w.length c =
        some ({ c with state := state, look := c.look + w.length }, 0))
    (hend : state ≠ .endLog) (hvalid : state ≠ .invalid)
    (hresume : ∀ c : KernelCursor, c.state = state → c.Reads v →
      c.entry = entry.withLevel r.logLevel →
        ∃ res, c.parse klogSwitch v.length = some res ∧ res.loggable = true ∧
          res.entry = entry.filled r.body r.logLevel) :
    Resumes klogSwitch r.bytes (w.length + 3) before after entry := by
  obtain ⟨whole, hwhole, hloggable, hentry⟩ :=
    klog_whole r before after entry
  rw [hbytes] at hwhole ⊢
  have hn : w.length + 3 = ([60, r.level, 62] ++ w).length := by simp
  rw [hn]
  refine resumes_after_level safe_klogSwitch hwhole hloggable hentry ?_ hpart
    hend hvalid hresume
  intro c hstate hreads
  obtain ⟨c', hscan, hreads', hstate', -, -, hentry'⟩ :=
    klog_level r hreads hstate
  exact ⟨c', hscan, hreads', hstate', hentry'⟩

theorem klog_inTimeStamp_part {c : KernelCursor} {time : List UInt8}
    (htime : ∀ b ∈ time, isTimeByte b = true) (h : c.Reads (91 :: time))
    (hstate : c.state = .timeStampBegin) :
    scan klogSwitch (91 :: time).length c =
      some ({ c with
        state := .inTimeStamp
        look := c.look + (91 :: time).length }, 0) := by
  obtain ⟨hscan₁, hreads₁⟩ := klog_timeStampBegin h hstate
  rw [← List.append_nil time] at hreads₁
  obtain ⟨hscan₂, -⟩ := klog_time htime hreads₁ rfl
  rw [List.append_nil] at hscan₂
  rw [hscan₁, hscan₂]
  simp [scan, skip, next, enter, Nat.add_comm 1, Nat.add_assoc]

theorem klog_bodyBegin_part {c : KernelCursor} {time : List UInt8}
    (htime : ∀ b ∈ time, isTimeByte b = true)
    (h : c.Reads (91 :: (time ++ [93]))) (hstate : c.state = .timeStampBegin) :
    scan klogSwitch (91 :: (time ++ [93])).length c =
      some ({ c with
        state := .bodyBegin
        look := c.look + (91 :: (time ++ [93])).length }, 0) := by
  obtain ⟨hscan₁, hreads₁⟩ := klog_timeStampBegin h hstate
  obtain ⟨hscan₂, hreads₂⟩ := klog_time htime hreads₁ rfl
  obtain ⟨hscan₃, -⟩ := klog_timeStampEnd hreads₂ rfl
  rw [hscan₁, hscan₂, hscan₃]
  simp [scan, skip, next, enter, Nat.add_comm 1, Nat.add_assoc]

theorem klog_resumes (r : KlogRecord) {n : ℕ} (hlow : 3 ≤ n)
    (hhigh : n ≤ r.time.length + 5) :
    Resumes klogSwitch r.bytes n before after entry := by
  obtain rfl | ⟨k, hk, rfl⟩ | rfl : n = 3 ∨
      (∃ k, k ≤ r.time.length ∧ n = k + 4) ∨ n = r.time.length + 5 := by
    rcases Nat.lt_or_ge n 4 with hsmall | hlarge
    · exact Or.inl (by omega)
    · rcases Nat.lt_or_ge n (r.time.length + 5) with htime | hbody
      · exact Or.inr (Or.inl ⟨n - 4, by omega, by omega⟩)
      · exact Or.inr (Or.inr (by omega))
  · -- in front of the time stamp
    refine klog_resumes_at r []
      (91 :: (r.time ++ 93 :: (r.separator :: (r.body ++ 10 :: []))))
      .timeStampBegin ?_ ?_ (by simp) (by simp) ?_
    · simp [KlogRecord.bytes, KlogRecord.line]
    · intro c hstate _
      rw [← hstate]
      rfl
    · intro c hstate hreads hentry
      obtain ⟨res, hparse, hlogged⟩ := klog_from_timeStampBegin r.time_ok
        r.separator_ok r.body_ok hreads hstate hentry
      exact ⟨res, hparse, hlogged.loggable, hlogged.entry⟩
  · -- in the time stamp
    have htime := List.take_append_drop k r.time
    have hn : k + 4 = (91 :: r.time.take k).length + 3 := by
      rw [List.length_cons, List.length_take_of_le hk]
    rw [hn]
    refine klog_resumes_at r (91 :: r.time.take k)
      (r.time.drop k ++ 93 :: (r.separator :: (r.body ++ 10 :: [])))
      .inTimeStamp ?_ ?_ (by simp) (by simp) ?_
    · simp only [KlogRecord.bytes, KlogRecord.line, List.cons_append,
        List.nil_append, List.append_assoc, List.cons.injEq, true_and]
      rw [← List.append_assoc (r.time.take k), htime]
    · intro c hstate hreads
      exact klog_inTimeStamp_part
        (fun b hb => r.time_ok b (List.mem_of_mem_take hb)) hreads hstate
    · intro c hstate hreads hentry
      obtain ⟨res, hparse, hlogged⟩ := klog_from_inTimeStamp
        (fun b hb => r.time_ok b (List.mem_of_mem_drop hb))
        r.separator_ok r.body_ok hreads hstate hentry
      exact ⟨res, hparse, hlogged.loggable, hlogged.entry⟩
  · -- behind the time stamp
    have hn : r.time.length + 5 = (91 :: (r.time ++ [93])).length + 3 := by
      simp
    rw [hn]
    refine klog_resumes_at r (91 :: (r.time ++ [93]))
      (r.separator :: (r.body ++ 10 :: [])) .bodyBegin ?_ ?_ (by simp)
      (by simp) ?_
    · simp [KlogRecord.bytes, KlogRecord.line]
    · intro c hstate hreads
      exact klog_bodyBegin_part r.time_ok hreads hstate
    · intro c hstate hreads hentry
      obtain ⟨res, hparse, hlogged⟩ := klog_from_bodyBegin
        r.separator_ok r.body_ok hreads hstate hentry
      exact ⟨res, hparse, hlogged.loggable, hlogged.entry⟩

theorem klog_level_skip {c : KernelCursor} {pre rest : List UInt8}
    (hpre : 62 ∉ pre) (h : c.Reads (pre ++ rest)) (hstate : c.state = .inLevel) :
    scan klogSwitch (pre ++ rest).length c =
        scan klogSwitch rest.length (c.skip pre.length) ∧
      (c.skip pre.length).Reads rest := by
  apply scan_skip pre _ (by simp [hstate]) h
  intro n b tail hb hreads
  have hbyte : b ≠ 62 := fun heq => hpre (heq ▸ hb)
  have hskip : (c.skip n).state = .inLevel := hstate
  unfold klogSwitch
  rw [hreads.load]
  simp [hskip, hbyte]

/-- Without a capture the level is not found. -/
theorem klog_lost_level {c : KernelCursor} {pre rest : List UInt8}
    (hpre : 62 ∉ pre) (h : c.Reads (pre ++ 62 :: rest))
    (hstate : c.state = .inLevel) (hcap : c.cap = none) :
    ∃ res, c.parse klogSwitch (pre ++ 62 :: rest).length = some res ∧
      res.loggable = false := by
  obtain ⟨hscan, hreads⟩ := klog_level_skip hpre h hstate
  have hswitch : klogSwitch (62 :: rest).length (c.skip pre.length) =
      some ((c.skip pre.length).terminated.enter .invalid) := by
    have hskip : (c.skip pre.length).state = .inLevel := hstate
    have hnone : (c.skip pre.length).terminated.cap = none := hcap
    unfold klogSwitch
    rw [hreads.load]
    simp only [hskip, Option.bind_eq_bind, Option.bind_some, if_pos]
    unfold klogLevelEnd
    simp only [store_eq_some hreads.low hreads.look_lt hreads.inside, hnone,
      Option.bind_eq_bind, Option.bind_some]
    rfl
  have hinvalid := hscan.trans ((scan_cons (by simp [Stopped, skip, hstate])
    hswitch).trans (scan_stopped (Or.inl rfl) _))
  exact ⟨_, parse_of_scan hinvalid (finish_running (by simp [next, enter]) _),
    rfl⟩

theorem finish_without_capture {c : KernelCursor} (hstate : c.state = .endLog)
    (hcap : c.cap = none) (n : ℕ) : c.finish n = none := by
  unfold finish
  simp only [if_pos hstate, hcap]

/-- Without a capture the body is copied from the null pointer. -/
theorem klog_lost_body {c : KernelCursor} {body : List UInt8}
    (hbody : 10 ∉ body) (h : c.Reads (body ++ [10]))
    (hstate : c.state = .inBody) (hcap : c.cap = none) :
    c.parse klogSwitch (body ++ [10]).length = none := by
  obtain ⟨hscan, hreads⟩ := klog_body hbody h hstate
  have hend := hscan.trans (klog_bodyEnd hreads hstate)
  have hcap' : ((c.skip body.length).enter .endLog).next.cap = none := hcap
  unfold parse
  rw [hend, Option.bind_some]
  exact finish_without_capture (by rfl) hcap' _

theorem klog_level_part {c : KernelCursor} {pre : List UInt8} (hpre : 62 ∉ pre)
    (h : c.Reads (60 :: pre)) (hstate : c.state = .levelBegin) :
    ∃ c', scan klogSwitch (60 :: pre).length c = some (c', 0) ∧
      c'.state = .inLevel := by
  have hopen : klogSwitch (60 :: pre).length c =
      some ((c.capture (c.look + 1)).enter .inLevel) := by
    unfold klogSwitch
    rw [h.load]
    simp [hstate]
  have hreads : ((c.capture (c.look + 1)).enter .inLevel).next.Reads
      (pre ++ []) := by
    rw [List.append_nil]
    exact h.next rfl rfl rfl (Or.inl rfl)
  obtain ⟨hscan, -⟩ := klog_level_skip hpre hreads rfl
  rw [List.append_nil] at hscan
  exact ⟨_, (scan_cons (by simp [Stopped, hstate]) hopen).trans hscan, rfl⟩

theorem klog_not_resumes_level (r : KlogRecord) {n : ℕ} (hlow : 1 ≤ n)
    (hhigh : n ≤ 2) : ¬Resumes klogSwitch r.bytes n before after entry := by
  have hclose : r.level ≠ 62 := by
    intro hlevel
    have hok := r.level_ok
    rw [hlevel] at hok
    exact absurd hok (by decide)
  obtain ⟨pre, post, hn, hpre, hpost, hbytes⟩ : ∃ pre post : List UInt8,
      n = (60 :: pre).length ∧ 62 ∉ pre ∧ 62 ∉ post ∧
      r.bytes = (60 :: pre) ++ (post ++ 62 ::
        (91 :: (r.time ++ 93 :: (r.separator :: (r.body ++ [10]))))) := by
    obtain rfl | rfl : n = 1 ∨ n = 2 := by omega
    · exact ⟨[], [r.level], rfl, by simp, by simpa using hclose.symm,
        by simp [KlogRecord.bytes, KlogRecord.line]⟩
    · exact ⟨[r.level], [], rfl, by simpa using hclose.symm, by simp,
        by simp [KlogRecord.bytes, KlogRecord.line]⟩
  obtain ⟨whole, hwhole, hloggable, -⟩ := klog_whole r before after entry
  rw [hbytes] at hwhole ⊢
  generalize hv : post ++ 62 ::
    (91 :: (r.time ++ 93 :: (r.separator :: (r.body ++ [10])))) = v at hwhole ⊢
  obtain ⟨c, hscan, hstate⟩ := klog_level_part hpre
    (reads_first before (60 :: pre) v after .levelBegin entry) rfl
  obtain ⟨behind, hiff⟩ := resumes_iff_of_first safe_klogSwitch hscan
    (by simp [hstate]) (by simp [hstate])
  rw [hn, hiff]
  rintro ⟨whole', second, hwhole', hsecond, hsame, -⟩
  obtain rfl := Option.some.inj (hwhole.symm.trans hwhole')
  have hreads := reads_start behind v after c.state c.entry
  rw [← hv] at hreads hsecond
  obtain ⟨res, hres, hsilent⟩ := klog_lost_level hpost hreads hstate rfl
  obtain rfl := Option.some.inj (hres.symm.trans hsecond)
  rw [hsilent, hloggable] at hsame
  exact absurd hsame (by simp)

theorem klog_body_part {c : KernelCursor} (r : KlogRecord) {body : List UInt8}
    (hbody : 10 ∉ body) (h : c.Reads ([60, r.level, 62] ++
      (91 :: (r.time ++ 93 :: (r.separator :: body)))))
    (hstate : c.state = .levelBegin) :
    ∃ c', scan klogSwitch ([60, r.level, 62] ++
        (91 :: (r.time ++ 93 :: (r.separator :: body)))).length c =
          some (c', 0) ∧
      c'.state = .inBody := by
  obtain ⟨c', hscan, hreads, hstate', -⟩ := klog_level r h hstate
  obtain ⟨hscan₁, hreads₁⟩ := klog_timeStampBegin hreads hstate'
  obtain ⟨hscan₂, hreads₂⟩ := klog_time r.time_ok hreads₁ rfl
  obtain ⟨hscan₃, hreads₃⟩ := klog_timeStampEnd hreads₂ rfl
  obtain ⟨hscan₄, hreads₄⟩ := klog_bodyBegin r.separator_ok hreads₃ rfl
  rw [← List.append_nil body] at hreads₄
  obtain ⟨hscan₅, -⟩ := klog_body hbody hreads₄ rfl
  rw [List.append_nil] at hscan₅
  have hchain := hscan.trans (hscan₁.trans (hscan₂.trans (hscan₃.trans
    (hscan₄.trans hscan₅))))
  exact ⟨_, hchain, rfl⟩

theorem klog_not_resumes_body (r : KlogRecord) {n : ℕ}
    (hlow : r.time.length + 6 ≤ n) (hhigh : n < r.bytes.length) :
    ¬Resumes klogSwitch r.bytes n before after entry := by
  rw [r.length_bytes] at hhigh
  obtain ⟨k, hk, rfl⟩ : ∃ k, k ≤ r.body.length ∧ n = r.time.length + 6 + k :=
    ⟨n - (r.time.length + 6), by omega, by omega⟩
  have hbody := List.take_append_drop k r.body
  have hn : r.time.length + 6 + k = ([60, r.level, 62] ++
      (91 :: (r.time ++ 93 :: (r.separator :: r.body.take k)))).length := by
    simp only [List.length_append, List.length_cons, List.length_nil,
      List.length_take_of_le hk]
    omega
  have hbytes : r.bytes = [60, r.level, 62] ++
      (91 :: (r.time ++ 93 :: (r.separator :: r.body.take k))) ++
        (r.body.drop k ++ [10]) := by
    simp only [KlogRecord.bytes, KlogRecord.line, List.cons_append,
      List.nil_append, List.append_assoc, List.cons.injEq, true_and,
      List.append_cancel_left_eq]
    rw [← List.append_assoc (r.body.take k), hbody]
  have hw : 10 ∉ r.body.take k := fun h => r.body_ok (List.mem_of_mem_take h)
  have hv : 10 ∉ r.body.drop k := fun h => r.body_ok (List.mem_of_mem_drop h)
  rw [hbytes, hn]
  obtain ⟨c, hscan, hstate⟩ := klog_body_part r hw
    (reads_first before _ (r.body.drop k ++ [10]) after .levelBegin entry) rfl
  obtain ⟨behind, hiff⟩ := resumes_iff_of_first safe_klogSwitch hscan
    (by simp [hstate]) (by simp [hstate])
  rw [hiff]
  rintro ⟨whole, second, -, hsecond, -⟩
  rw [klog_lost_body hv (reads_start _ _ _ _ _) hstate rfl] at hsecond
  cases hsecond

theorem klog_resumes_iff (r : KlogRecord) {n : ℕ} (hn : n < r.bytes.length) :
    Resumes klogSwitch r.bytes n before after entry ↔
      n = 0 ∨ (3 ≤ n ∧ n ≤ r.time.length + 5) := by
  rcases Nat.eq_zero_or_pos n with rfl | hpos
  · obtain ⟨whole, hwhole, -⟩ := klog_whole r before after entry
    exact iff_of_true (resumes_zero hwhole) (Or.inl rfl)
  · rcases Nat.lt_or_ge n 3 with hlevel | hlow
    · exact iff_of_false (klog_not_resumes_level r hpos (by omega)) (by omega)
    · rcases Nat.lt_or_ge n (r.time.length + 6) with hhigh | hbody
      · exact iff_of_true (klog_resumes r hlow (by omega))
          (Or.inr ⟨hlow, by omega⟩)
      · exact iff_of_false (klog_not_resumes_body r hbody hn) (by omega)

/-! ## Records of `/dev/kmsg` -/

theorem devKlog_whole (r : DevKlogRecord) (htwo : r.priority.length ≤ 2)
    (before after : List UInt8) (entry : SingleLog) :
    ∃ whole, parseKernelRecord devKlogSwitch (before ++ r.bytes ++ after)
        before.length r.bytes.length .levelBegin entry = some whole ∧
      whole.loggable = true ∧
      whole.entry = entry.filled r.body (devLevelOf r.priority) := by
  have hreads := reads_start before r.bytes after .levelBegin entry
  obtain ⟨whole, hparse, hlogged⟩ := devKlog_from_levelBegin r htwo hreads rfl
  exact ⟨whole, hparse, hlogged.loggable, hlogged.entry⟩

theorem devKlog_resumes_at (r : DevKlogRecord) (htwo : r.priority.length ≤ 2)
    (w v : List UInt8) (state : KlogParseState)
    (hbytes : r.bytes = r.priority ++ [44] ++ w ++ v)
    (hpart : ∀ c : KernelCursor, c.state = .timeStampBegin → c.Reads w →
      scan devKlogSwitch w.length c =
        some ({ c with state := state, look := c.look + w.length }, 0))
    (hend : state ≠ .endLog) (hvalid : state ≠ .invalid)
    (hresume : ∀ c : KernelCursor, c.state = state → c.Reads v →
      c.entry = entry.withLevel (devLevelOf r.priority) →
        ∃ res, c.parse devKlogSwitch v.length = some res ∧
          res.loggable = true ∧
          res.entry = entry.filled r.body (devLevelOf r.priority)) :
    Resumes devKlogSwitch r.bytes (r.priority.length + 1 + w.length) before after
      entry := by
  obtain ⟨whole, hwhole, hloggable, hentry⟩ :=
    devKlog_whole r htwo before after entry
  rw [hbytes] at hwhole ⊢
  have hn : r.priority.length + 1 + w.length =
      (r.priority ++ [44] ++ w).length := by
    simp only [List.length_append, List.length_singleton]
  rw [hn]
  refine resumes_after_level safe_devKlogSwitch hwhole hloggable hentry ?_ hpart
    hend hvalid hresume
  intro c hstate hreads
  rw [List.append_assoc] at hreads ⊢
  obtain ⟨c', hscan, hreads', hstate', -, -, hentry'⟩ :=
    devKlog_level r.priority_ok r.one_digit htwo hreads hstate
  exact ⟨c', hscan, hreads', hstate', hentry'⟩

theorem devKlog_fields_part {c : KernelCursor} {fields : List UInt8}
    (hfields : 59 ∉ fields) (h : c.Reads fields)
    (hstate : c.state = .timeStampBegin) :
    scan devKlogSwitch fields.length c =
      some ({ c with
        state := .timeStampBegin
        look := c.look + fields.length }, 0) := by
  rw [← List.append_nil fields] at h
  obtain ⟨hscan, -⟩ := devKlog_fields hfields h hstate
  rw [List.append_nil] at hscan
  rw [hscan, ← hstate]
  rfl

theorem devKlog_bodyBegin_part {c : KernelCursor} {fields : List UInt8}
    (hfields : 59 ∉ fields) (h : c.Reads (fields ++ [59]))
    (hstate : c.state = .timeStampBegin) :
    scan devKlogSwitch (fields ++ [59]).length c =
      some ({ c with
        state := .bodyBegin
        look := c.look + (fields ++ [59]).length }, 0) := by
  obtain ⟨hscan₁, hreads₁⟩ := devKlog_fields hfields h hstate
  obtain ⟨hscan₂, -⟩ := devKlog_fieldsEnd hreads₁ hstate
  rw [hscan₁, hscan₂]
  simp [scan, skip, next, enter, Nat.add_assoc]

theorem devKlog_resumes (r : DevKlogRecord) (htwo : r.priority.length ≤ 2)
    {n : ℕ} (hlow : r.priority.length + 1 ≤ n)
    (hhigh : n ≤ r.priority.length + r.fields.length + 2) :
    Resumes devKlogSwitch r.bytes n before after entry := by
  obtain ⟨k, hk, rfl⟩ | rfl : (∃ k, k ≤ r.fields.length ∧
      n = r.priority.length + 1 + k) ∨
        n = r.priority.length + r.fields.length + 2 := by
    rcases Nat.lt_or_ge n (r.priority.length + r.fields.length + 2) with
      hfields | hbody
    · exact Or.inl ⟨n - (r.priority.length + 1), by omega, by omega⟩
    · exact Or.inr (by omega)
  · -- in the fields between comma and semicolon
    have hfields := List.take_append_drop k r.fields
    suffices hresumes : Resumes devKlogSwitch r.bytes
        (r.priority.length + 1 + (r.fields.take k).length) before after entry by
      rwa [List.length_take_of_le hk] at hresumes
    refine devKlog_resumes_at r htwo (r.fields.take k)
      (r.fields.drop k ++ 59 :: (r.body ++ [10])) .timeStampBegin ?_ ?_
      (by simp) (by simp) ?_
    · simp only [DevKlogRecord.bytes, List.cons_append, List.nil_append,
        List.append_assoc, List.append_cancel_left_eq, List.cons.injEq,
        true_and]
      rw [← List.append_assoc (r.fields.take k), hfields]
    · intro c hstate hreads
      exact devKlog_fields_part
        (fun h => r.fields_ok (List.mem_of_mem_take h)) hreads hstate
    · intro c hstate hreads hentry
      obtain ⟨res, hparse, hlogged⟩ := devKlog_from_timeStampBegin
        (fun h => r.fields_ok (List.mem_of_mem_drop h)) hreads hstate hentry
      exact ⟨res, hparse, hlogged.loggable, hlogged.entry⟩
  · -- behind the semicolon
    have hn : r.priority.length + r.fields.length + 2 =
        r.priority.length + 1 + (r.fields ++ [59]).length := by
      simp only [List.length_append, List.length_singleton]
      omega
    rw [hn]
    refine devKlog_resumes_at r htwo (r.fields ++ [59]) (r.body ++ [10])
      .bodyBegin ?_ ?_ (by simp) (by simp) ?_
    · simp [DevKlogRecord.bytes]
    · intro c hstate hreads
      exact devKlog_bodyBegin_part r.fields_ok hreads hstate
    · intro c hstate hreads hentry
      obtain ⟨res, hparse, hlogged⟩ :=
        devKlog_from_bodyBegin hreads hstate hentry
      exact ⟨res, hparse, hlogged.loggable, hlogged.entry⟩

theorem devKlog_priority_part {c : KernelCursor} {d : UInt8}
    {digits : List UInt8} (hdigits : ∀ x ∈ digits, isDigit x = true)
    (h : c.Reads (d :: digits)) (hstate : c.state = .levelBegin) :
    ∃ c', scan devKlogSwitch (d :: digits).length c = some (c', 0) ∧
      c'.state = .inLevel ∧ c'.entry = c.entry := by
  obtain ⟨hscan₁, hreads₁⟩ := devKlog_levelBegin h hstate
  rw [← List.append_nil digits] at hreads₁
  obtain ⟨hscan₂, -⟩ := devKlog_digits hdigits hreads₁ rfl
  rw [List.append_nil] at hscan₂
  exact ⟨_, hscan₁.trans hscan₂, rfl, rfl⟩

/-- After a first call that stopped in the level, the second finds nothing. -/
theorem stuck_resumed (behind v after : List UInt8) (entry : SingleLog) :
    ∃ res, (kernelStart (behind ++ v ++ after) behind.length v.length .inLevel
        entry).parse devKlogSwitch v.length = some res ∧
      res.loggable = false ∧ res.entry = entry := by
  have hstuck : (kernelStart (behind ++ v ++ after) behind.length v.length
      .inLevel entry).Stuck := ⟨rfl, by rintro cap ⟨⟩⟩
  exact hstuck.parse (reads_start behind v after .inLevel entry)

theorem devKlog_priority_split (r : DevKlogRecord) {n : ℕ} (hlow : 1 ≤ n)
    (hhigh : n ≤ r.priority.length) :
    ∃ d digits v, n = (d :: digits).length ∧
      (∀ x ∈ digits, isDigit x = true) ∧ r.bytes = d :: digits ++ v := by
  obtain ⟨d, digits, hpriority⟩ : ∃ d digits, r.priority.take n = d :: digits :=
    List.exists_cons_of_length_pos
      (by rw [List.length_take_of_le hhigh]; exact hlow)
  refine ⟨d, digits, r.priority.drop n ++ [44] ++ r.fields ++ [59] ++ r.body ++
    [10], ?_, ?_, ?_⟩
  · rw [← hpriority, List.length_take_of_le hhigh]
  · intro x hx
    apply r.priority_ok
    apply List.mem_of_mem_take (i := n)
    rw [hpriority]
    exact List.mem_cons_of_mem _ hx
  · have hsplit := List.take_append_drop n r.priority
    rw [hpriority] at hsplit
    unfold DevKlogRecord.bytes
    nth_rewrite 1 [← hsplit]
    simp

theorem devKlog_not_resumes_level (r : DevKlogRecord)
    (htwo : r.priority.length ≤ 2) {n : ℕ} (hlow : 1 ≤ n)
    (hhigh : n ≤ r.priority.length) :
    ¬Resumes devKlogSwitch r.bytes n before after entry := by
  obtain ⟨d, digits, v, hn, hdigits, hbytes⟩ :=
    devKlog_priority_split r hlow hhigh
  obtain ⟨whole, hwhole, hloggable, -⟩ :=
    devKlog_whole r htwo before after entry
  rw [hbytes] at hwhole ⊢
  obtain ⟨c, hscan, hstate, -⟩ := devKlog_priority_part hdigits
    (reads_first before (d :: digits) v after .levelBegin entry) rfl
  obtain ⟨behind, hiff⟩ := resumes_iff_of_first safe_devKlogSwitch hscan
    (by simp [hstate]) (by simp [hstate])
  rw [hn, hiff]
  rintro ⟨whole', second, hwhole', hsecond, hsame, -⟩
  obtain rfl := Option.some.inj (hwhole.symm.trans hwhole')
  rw [hstate] at hsecond
  obtain ⟨res, hres, hsilent, -⟩ := stuck_resumed behind v after c.entry
  obtain rfl := Option.some.inj (hres.symm.trans hsecond)
  rw [hsilent, hloggable] at hsame
  exact absurd hsame (by simp)

/-- A part which reaches into the body is taken for a whole record. -/
theorem devKlog_not_resumes_body (r : DevKlogRecord)
    (htwo : r.priority.length ≤ 2) {n : ℕ}
    (hlow : r.priority.length + r.fields.length + 3 ≤ n)
    (hhigh : n < r.bytes.length) :
    ¬Resumes devKlogSwitch r.bytes n before after entry := by
  have hbytes : r.bytes =
      (r.priority ++ 44 :: (r.fields ++ [59])) ++ (r.body ++ [10]) := by
    simp [DevKlogRecord.bytes]
  obtain ⟨k, hk, hn⟩ : ∃ k, k + 1 ≤ (r.body ++ [10]).length ∧
      n = r.priority.length + r.fields.length + 2 + (k + 1) := by
    rw [hbytes, List.length_append] at hhigh
    simp only [List.length_append, List.length_cons, List.length_nil] at hhigh ⊢
    exact ⟨n - (r.priority.length + r.fields.length + 3), by omega, by omega⟩
  obtain ⟨body, last, hbody⟩ : ∃ body last,
      (r.body ++ [10]).take (k + 1) = body ++ [last] := by
    have hne : (r.body ++ [10]).take (k + 1) ≠ [] := by
      rw [← List.length_pos_iff_ne_nil, List.length_take_of_le hk]
      omega
    exact ⟨_, _, (List.dropLast_append_getLast hne).symm⟩
  have hlength : (body ++ [last]).length = k + 1 := by
    rw [← hbody, List.length_take_of_le hk]
  have hsplit : r.bytes =
      (r.priority ++ 44 :: (r.fields ++ 59 :: (body ++ [last]))) ++
        (r.body ++ [10]).drop (k + 1) := by
    rw [hbytes]
    nth_rewrite 1 [← List.take_append_drop (k + 1) (r.body ++ [10])]
    rw [hbody]
    simp
  have hn' : n =
      (r.priority ++ 44 :: (r.fields ++ 59 :: (body ++ [last]))).length := by
    rw [hn, ← hlength]
    simp only [List.length_append, List.length_cons]
    omega
  obtain ⟨c, hscan, hreads, hstate, -, -, hentry⟩ :=
    devKlog_level r.priority_ok r.one_digit htwo
      (reads_first before
        (r.priority ++ 44 :: (r.fields ++ 59 :: (body ++ [last])))
        ((r.body ++ [10]).drop (k + 1)) after .levelBegin entry) rfl
  obtain ⟨res, hparse, hlogged⟩ :=
    devKlog_from_timeStampBegin r.fields_ok hreads hstate hentry
  rintro ⟨whole, first, second, -, hfirst, hsilent, -⟩
  rw [hsplit, hn'] at hfirst
  have hres : first = res := by
    unfold parse at hparse
    rw [← hscan] at hparse
    exact Option.some.inj (hfirst.symm.trans hparse)
  rw [hres, hlogged.loggable] at hsilent
  exact absurd hsilent (by simp)

/-- A priority of three or four digits is lost either way. -/
theorem devKlog_long_resumes (r : DevKlogRecord)
    (hlong : 3 ≤ r.priority.length) {n : ℕ} (hn : n < r.bytes.length) :
    Resumes devKlogSwitch r.bytes n before after entry := by
  obtain ⟨d, e, f, tail, hdigits, hbytes⟩ := r.long hlong
  have hreads := reads_start before r.bytes after .levelBegin entry
  rw [hbytes] at hreads
  obtain ⟨whole, hwhole, hsilent, hentry⟩ := devKlog_long hdigits hreads rfl
  rw [← hbytes] at hwhole
  rcases Nat.eq_zero_or_pos n with rfl | hpos
  · exact resumes_zero hwhole
  · obtain ⟨part, v, c, hn', hsplit, hscan, hstate, hentry'⟩ :
        ∃ part v c, n = part.length ∧ r.bytes = part ++ v ∧
          scan devKlogSwitch part.length (kernelStart
            (before ++ (part ++ v) ++ after) before.length part.length
            .levelBegin entry) = some (c, 0) ∧
          c.state = .inLevel ∧ c.entry = entry := by
      rcases Nat.lt_or_ge n 3 with hshort | hthree
      · obtain ⟨x, digits, v, hn', hdigits', hbytes'⟩ :=
          devKlog_priority_split r hpos (by omega)
        obtain ⟨c, hscan⟩ := devKlog_priority_part hdigits'
          (reads_first before (x :: digits) v after .levelBegin entry) rfl
        exact ⟨x :: digits, v, c, hn', hbytes', hscan⟩
      · obtain ⟨k, rfl⟩ := Nat.exists_eq_add_of_le' hthree
        have htail : k ≤ tail.length := by
          rw [hbytes] at hn
          simp only [List.length_cons] at hn
          omega
        obtain ⟨c, hscan⟩ := devKlog_long_scan hdigits
          (reads_first before (d :: e :: f :: tail.take k) (tail.drop k) after
            .levelBegin entry) rfl
        refine ⟨d :: e :: f :: tail.take k, tail.drop k, c, ?_, ?_, hscan⟩
        · simp only [List.length_cons, List.length_take_of_le htail]
        · simp [hbytes]
    obtain ⟨behind, hiff⟩ := resumes_iff_of_first safe_devKlogSwitch hscan
      (by simp [hstate]) (by simp [hstate])
    obtain ⟨second, hsecond, hsilent', hentry''⟩ :=
      stuck_resumed behind v after c.entry
    rw [hn', hsplit]
    rw [hsplit] at hwhole
    rw [← hstate] at hsecond
    have hsame : second.entry = whole.entry := by
      rw [hentry'', hentry', hentry]
      rfl
    refine hiff.mpr ⟨whole, second, hwhole, hsecond, ?_, ?_, ?_, ?_⟩
    · rw [hsilent', hsilent]
    · rw [hsame]
    · rw [hsame]
    · rw [hsame]

theorem devKlog_resumes_iff (r : DevKlogRecord) {n : ℕ}
    (hn : n < r.bytes.length) :
    Resumes devKlogSwitch r.bytes n before after entry ↔
      n = 0 ∨ (r.priority.length + 1 ≤ n ∧
        n ≤ r.priority.length + r.fields.length + 2) ∨
      3 ≤ r.priority.length := by
  rcases Nat.lt_or_ge r.priority.length 3 with hshort | hlong
  · have htwo : r.priority.length ≤ 2 := by omega
    rcases Nat.eq_zero_or_pos n with rfl | hpos
    · obtain ⟨whole, hwhole, -⟩ := devKlog_whole r htwo before after entry
      exact iff_of_true (resumes_zero hwhole) (Or.inl rfl)
    · rcases Nat.lt_or_ge r.priority.length n with hlow | hlevel
      · rcases Nat.lt_or_ge n (r.priority.length + r.fields.length + 3) with
          hhigh | hbody
        · exact iff_of_true (devKlog_resumes r htwo (by omega) (by omega))
            (Or.inr (Or.inl ⟨by omega, by omega⟩))
        · exact iff_of_false (devKlog_not_resumes_body r htwo hbody hn)
            (by omega)
      · exact iff_of_false (devKlog_not_resumes_level r htwo hpos hlevel)
          (by omega)
  · exact iff_of_true (devKlog_long_resumes r hlong hn) (Or.inr (Or.inr hlong))

end KernelCursor

/-! ## Where a record may be cut -/

/-- For both parsers: a record can be cut before its first byte, or behind its
level and before its body.  Priorities of more than two digits are not
recognised in one call either. -/
theorem kernel_records_resume_iff (before after : List UInt8)
    (entry : SingleLog) :
    (∀ (r : KlogRecord) (n : Fin r.bytes.length),
      Resumes KernelCursor.klogSwitch r.bytes n before after entry ↔
        n.val = 0 ∨ (3 ≤ n.val ∧ n.val ≤ r.time.length + 5)) ∧
    ∀ (r : DevKlogRecord) (n : Fin r.bytes.length),
      Resumes KernelCursor.devKlogSwitch r.bytes n before after entry ↔
        n.val = 0 ∨ (r.priority.length + 1 ≤ n.val ∧
          n.val ≤ r.priority.length + r.fields.length + 2) ∨
        3 ≤ r.priority.length :=
  ⟨fun r n => KernelCursor.klog_resumes_iff r n.isLt,
    fun r n => KernelCursor.devKlog_resumes_iff r n.isLt⟩

def smallRecord : KlogRecord where
  level := 54
  time := [55]
  separator := 58
  body := [111, 107]
  level_ok := by decide
  time_ok := List.all_eq_true.mp rfl
  separator_ok := by decide
  body_ok := by decide

/-- `<6>[7]:o` and then `k` with a newline. -/
theorem split_in_body :
    ¬Resumes KernelCursor.klogSwitch smallRecord.bytes 8 [] []
      (SingleLog.new (some 0) 100) :=
  KernelCursor.klog_not_resumes_body smallRecord (by decide) (by decide)

end GreaseLog
