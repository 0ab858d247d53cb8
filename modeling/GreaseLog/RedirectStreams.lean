import GreaseLog.Redirectors
import GreaseLog.EntrySizes

/-!
# What redirected programs write is logged

Every byte that is read from a pipe is in exactly one entry, and the entries of
a pipe have its bytes in the order they were written, under the origin of the
ticket and with the tag and the level of the table.  The entries the command
queue took stay on it, unchanged and in this order, until the logger handles
them.
-/

namespace GreaseLog

/-! ## The numbers on the command queue -/

namespace Logger

/-- `taken` leaves the new entries of the queue at their front, and what is
added behind them carries the next number. -/
structure Advances (s s' : Logger) (taken : Option SingleLog) : Prop where
  nextSeq : s.nextSeq ≤ s'.nextSeq
  newLogs : ∃ added : Option SingleLog,
    taken.toList ++ s'.newLogs = s.newLogs ++ added.toList ∧
      ∀ l ∈ added, l.seq = s.nextSeq ∧ s.nextSeq < s'.nextSeq

variable {s s' : Logger}

theorem SamePool.advances (h : s.SamePool s') : s.Advances s' none :=
  ⟨h.nextSeq, none, by simp [h.newLogs], by simp⟩

theorem Takes.advances (h : s.Takes s') : s.Advances s' none := by
  rcases h.owner with ⟨queue, howner, ⟨hitems, hnext⟩ | ⟨c, l, hitems, hc, hl, hnext⟩⟩
  · refine ⟨hnext.ge, none, ?_, by simp⟩
    unfold newLogs
    rw [howner]
    dsimp only
    rw [hitems]
    simp
  · refine ⟨by omega, c.newLog?, ?_, fun l' hl' => ?_⟩
    · unfold newLogs
      rw [howner]
      dsimp only
      rw [hitems, List.filterMap_append]
      cases hnew : c.newLog? <;> simp [hnew]
    · have hmessage : c.message? = some l' := by
        cases c <;> simp_all [InternalCmdReq.newLog?, InternalCmdReq.message?]
      rw [hc] at hmessage
      rw [← Option.some.inj hmessage, hl]
      exact ⟨rfl, by omega⟩

theorem takenBy_handle {c : InternalCmdReq} {queue : BoundedFifo InternalCmdReq}
    (hitems : s.owner.internalCmdQueue.items = c :: queue.items)
    (env : Formatting) : s.takenBy (.handle env) = c.newLog? := by
  rcases exists_removeCmd hitems with ⟨next, hremove⟩
  unfold takenBy
  dsimp only
  rw [hremove]
  rfl

theorem takenBy_handle_nil (hitems : s.owner.internalCmdQueue.items = [])
    (env : Formatting) : s.takenBy (.handle env) = none := by
  simp [takenBy, removeCmd, BoundedFifo.remove_eq_none_iff.mpr hitems]

theorem advances_handleInternalCmd (s : Logger) (env : Formatting) :
    s.Advances (s.handleInternalCmd env) (s.takenBy (.handle env)) := by
  rcases s.handleInternalCmd_cases env with
    ⟨hitems, heq⟩ | ⟨c, queue, hitems, -, heq⟩
  · rw [heq, takenBy_handle_nil hitems]
    exact (SamePool.refl s).advances
  · rw [takenBy_handle hitems]
    have hmarked : (s.withQueue queue).SamePool { s.withQueue queue with
        strayed := (s.withQueue queue).strayed || (s.withQueue queue).cmdStrays c } :=
      ⟨rfl, rfl, rfl, le_rfl⟩
    have hexec : (s.withQueue queue).SamePool ((s.withQueue queue).execCmd env c) :=
      hmarked.trans (samePool_performAll _ env _)
    have hfinish : (s.handleInternalCmd env).newLogs = (s.withQueue queue).newLogs ∧
        s.nextSeq ≤ (s.handleInternalCmd env).nextSeq := by
      rw [heq, ← hexec.newLogs]
      cases c with
      | newLog l =>
          have hback := putBack_queue ((s.withQueue queue).execCmd env (.newLog l))
            (((s.withQueue queue).execCmd env (.newLog l)).sifted l)
          exact ⟨hback.1, hexec.nextSeq.trans hback.2.ge⟩
      | targetRotateBuffer d => exact ⟨rfl, hexec.nextSeq⟩
      | writeTargetOverflow d l => exact ⟨rfl, hexec.nextSeq⟩
      | internalShutdown => exact ⟨rfl, hexec.nextSeq⟩
    refine ⟨hfinish.2, none, ?_, by simp⟩
    rw [hfinish.1]
    unfold newLogs
    rw [hitems, List.filterMap_cons]
    cases c.newLog? <;> simp [withQueue]

theorem takenBy_eq_none (s : Logger) {a : Act} (ha : ∀ env, a ≠ .handle env) :
    s.takenBy a = none := by
  cases a with
  | handle env => exact absurd rfl (ha env)
  | _ => rfl

theorem advances_step (s : Logger) (a : Act) :
    s.Advances (s.step a) (s.takenBy a) := by
  cases hleaves : a.leavesPool with
  | true =>
      rw [s.takenBy_eq_none fun env heq => by simp [heq, Act.leavesPool] at hleaves]
      exact (s.samePool_step hleaves).advances
  | false =>
      cases a with
      | log m following text => exact (s.takes_log m following text).advances
      | redirect r d data => exact (s.takes_redirect r d data).advances
      | klog mem start remain => exact (s.takes_klog mem start remain).advances
      | handle env => exact s.advances_handleInternalCmd env
      | flushTimer id nocallbacks => simp [Act.leavesPool] at hleaves
      | completeWrite id i => simp [Act.leavesPool] at hleaves
      | completeOverflow id i => simp [Act.leavesPool] at hleaves
      | callV8LogCallbacks => simp [Act.leavesPool] at hleaves
      | cleanup j => simp [Act.leavesPool] at hleaves
      | filter c => simp [Act.leavesPool] at hleaves
      | disableTarget id v => simp [Act.leavesPool] at hleaves
      | setCallback id => simp [Act.leavesPool] at hleaves

end Logger

/-! ## Reads -/

theorem FdRedirectorTicket.text_fill (r : FdRedirectorTicket) (d : RedirectDefaults)
    {data : List UInt8} {l : SingleLog} (hfits : data.length ≤ l.buf.len) :
    (r.fill d data l).buf.text = data := by
  simp [FdRedirectorTicket.fill, HeapBuf.text, HeapBuf.poke,
    List.take_of_length_le hfits]

namespace Redirection

variable {s s' : Redirection} {size : ℕ} {k : RedirectKind} {r : RedirectTicket}

theorem read_data {fd len p : ℕ} {env : ReadEnv} {bytes : List UInt8}
    (hread : s.read fd len env = .data p bytes) :
    s.descriptors fd = some p ∧ bytes ≠ [] ∧ bytes.length ≤ len ∧
      ∃ n, bytes = (s.pipes p).unread.take n := by
  unfold read at hread
  split at hread
  · simp at hread
  · rename_i p' hp'
    split_ifs at hread with hfails hlen hunread hended
    rw [ReadResult.data.injEq] at hread
    rcases hread with ⟨rfl, rfl⟩
    have hpos := List.length_pos_iff.mpr hunread
    refine ⟨hp', ?_, ?_, _, rfl⟩
    · rw [← List.length_pos_iff, List.length_take]
      omega
    · rw [List.length_take]
      omega

/-- The bytes read from a pipe, in the order of the reads. -/
def readFrom (s : Redirection) (p : ℕ) : List UInt8 :=
  (s.rounds.filter fun r => r.pipe = p).flatMap fun r => r.entry.buf.text

/-- The entries of the rounds that the command queue took, under the numbers
they got there. -/
def accepted (s : Redirection) : List SingleLog :=
  s.rounds.filterMap fun r => r.seq.map fun n => { r.entry with seq := n }

/-- All new entries that were ever on the command queue. -/
def passed (s : Redirection) : List SingleLog :=
  s.handled ++ s.logger.newLogs

theorem lookup_insert (s : Redirection) (k k' : RedirectKind) (fd fd' : ℕ)
    (r : RedirectTicket) :
    ((s.setTable k ((s.tables k).insert fd r)).tables k').lookup fd' =
      if k' = k ∧ fd' = fd then some r else (s.tables k').lookup fd' := by
  unfold setTable
  dsimp only
  by_cases hk : k' = k
  · subst hk
    rw [Function.update_self]
    by_cases hfd : fd' = fd
    · subst hfd
      rw [AList.lookup_insert, if_pos ⟨rfl, rfl⟩]
    · rw [AList.lookup_insert_ne hfd, if_neg fun h => hfd h.2]
  · rw [Function.update_of_ne hk, if_neg fun h => hk h.1]

theorem lookup_erase (s : Redirection) (k k' : RedirectKind) (fd fd' : ℕ) :
    ((s.setTable k ((s.tables k).erase fd)).tables k').lookup fd' =
      if k' = k ∧ fd' = fd then none else (s.tables k').lookup fd' := by
  unfold setTable
  dsimp only
  by_cases hk : k' = k
  · subst hk
    rw [Function.update_self]
    by_cases hfd : fd' = fd
    · subst hfd
      rw [AList.lookup_erase, if_pos ⟨rfl, rfl⟩]
    · rw [AList.lookup_erase_ne hfd, if_neg fun h => hfd h.2]
  · rw [Function.update_of_ne hk, if_neg fun h => hk h.1]

/-! ## The invariant -/

structure RedirectRound.Proper (size : ℕ) (r : RedirectRound) : Prop where
  nonempty : r.entry.buf.text ≠ []
  fits : r.entry.buf.text.length ≤ size
  origin : r.entry.logMeta.m.origin = r.ticket.origin
  tag : r.entry.logMeta.m.tag = r.kind.defaults.tag
  level : r.entry.logMeta.m.level = r.kind.defaults.level

structure Streams (size : ℕ) (s : Redirection) : Prop where
  sized : s.logger.Sized size
  plain : ∀ k fd r, (s.tables k).lookup fd = some r → r.tag = 0 ∧ r.level = 0
  taken_le : ∀ p, (s.pipes p).taken ≤ (s.pipes p).written.length
  texts : ∀ p, s.readFrom p = (s.pipes p).written.take (s.pipes p).taken
  proper : ∀ r ∈ s.rounds, RedirectRound.Proper size r
  accepted : s.accepted.Sublist s.passed
  increasing : (s.passed.map SingleLog.seq).Pairwise (· < ·)
  below : ∀ l ∈ s.passed, l.seq < s.logger.nextSeq

/-- Moves of the program: the tables change and the descriptors. -/
theorem Streams.of_tables (h : s.Streams size)
    (hsame : s'.logger = s.logger ∧ s'.pipes = s.pipes ∧ s'.rounds = s.rounds ∧
      s'.handled = s.handled)
    (hplain : ∀ k fd r, (s'.tables k).lookup fd = some r →
      r.tag = 0 ∧ r.level = 0) : s'.Streams size where
  sized := by rw [hsame.1]; exact h.sized
  plain := hplain
  taken_le := by rw [hsame.2.1]; exact h.taken_le
  texts := by
    intro p
    unfold readFrom
    rw [hsame.2.1, hsame.2.2.1]
    exact h.texts p
  proper := by rw [hsame.2.2.1]; exact h.proper
  accepted := by
    unfold Redirection.accepted passed
    rw [hsame.1, hsame.2.2.1, hsame.2.2.2]
    exact h.accepted
  increasing := by
    unfold passed
    rw [hsame.1, hsame.2.2.2]
    exact h.increasing
  below := by
    unfold passed
    rw [hsame.1, hsame.2.2.2]
    exact h.below

theorem Streams.advance (h : s.Streams size) {logger : Logger}
    {taken : Option SingleLog} (hsized : logger.Sized size)
    (hadvances : s.logger.Advances logger taken) :
    ({ s with
      logger := logger
      handled := s.handled ++ taken.toList } : Redirection).Streams size := by
  rcases hadvances with ⟨hnext, added, hlogs, hadded⟩
  have hpassed : ({ s with
      logger := logger
      handled := s.handled ++ taken.toList } : Redirection).passed =
        s.passed ++ added.toList := by
    unfold passed
    dsimp only
    rw [List.append_assoc, hlogs, List.append_assoc]
  refine ⟨hsized, h.plain, h.taken_le, h.texts, h.proper, ?_, ?_, ?_⟩
  · rw [hpassed]
    exact h.accepted.trans (List.sublist_append_left _ _)
  · rw [hpassed, List.map_append, List.pairwise_append]
    refine ⟨h.increasing, ?_, ?_⟩
    · cases added <;> simp
    · intro n hn m hm
      rcases List.mem_map.mp hn with ⟨l, hl, rfl⟩
      rcases List.mem_map.mp hm with ⟨l', hl', rfl⟩
      -- The numbers that were given out are below the next one.
      rw [(hadded l' (Option.mem_toList.mp hl')).1]
      exact h.below l hl
  · rw [hpassed]
    intro l hl
    rcases List.mem_append.mp hl with hold | hnew
    · exact (h.below l hold).trans_le hnext
    · have hseq := hadded l (Option.mem_toList.mp hnew)
      dsimp only
      omega

theorem Streams.setPipe (h : s.Streams size) (p : ℕ) (pipe : Pipe)
    (hle : pipe.taken ≤ pipe.written.length)
    (htake : pipe.written.take pipe.taken =
      (s.pipes p).written.take (s.pipes p).taken) :
    (s.setPipe p pipe).Streams size where
  sized := h.sized
  plain := h.plain
  taken_le := by
    intro p'
    by_cases heq : p' = p
    · subst heq
      simpa [Redirection.setPipe] using hle
    · simpa [Redirection.setPipe, heq] using h.taken_le p'
  texts := by
    intro p'
    change s.readFrom p' = _
    rw [h.texts]
    by_cases heq : p' = p
    · subst heq
      simp [Redirection.setPipe, htake]
    · simp [Redirection.setPipe, heq]
  proper := h.proper
  accepted := h.accepted
  increasing := h.increasing
  below := h.below

theorem Streams.write (h : s.Streams size) (p : ℕ) (bytes : List UInt8) :
    (s.write p bytes).Streams size := by
  unfold Redirection.write
  dsimp only
  split_ifs
  · exact h
  · have hle := h.taken_le p
    apply h.setPipe
    · simp only [List.length_append]
      omega
    · exact List.take_append_of_le_length hle

theorem plain_insert (h : s.Streams size) (hr : r.tag = 0 ∧ r.level = 0)
    (k : RedirectKind) (fd : ℕ) :
    ∀ k' fd' r', ((s.setTable k ((s.tables k).insert fd r)).tables
      k').lookup fd' = some r' → r'.tag = 0 ∧ r'.level = 0 := by
  intro k' fd' r' hr'
  rw [lookup_insert] at hr'
  split_ifs at hr' with hsame
  · rw [← Option.some.inj hr']
    exact hr
  · exact h.plain _ _ _ hr'

theorem Streams.addFD (h : s.Streams size) (k : RedirectKind) (fd : ℕ)
    (origin : OriginId) (cb : Option ℕ) (valid : Bool) :
    (s.addFD k fd origin cb valid).Streams size := by
  unfold Redirection.addFD
  split_ifs
  · apply h.of_tables
    · exact ⟨rfl, rfl, rfl, rfl⟩
    · exact plain_insert h ⟨rfl, rfl⟩ k fd
  · exact h

theorem closeTicket_same (s : Redirection) (r : RedirectTicket) :
    (s.closeTicket r).logger = s.logger ∧ (s.closeTicket r).pipes = s.pipes ∧
      (s.closeTicket r).rounds = s.rounds ∧
      (s.closeTicket r).handled = s.handled ∧
      (s.closeTicket r).tables = s.tables := by
  unfold closeTicket
  split <;> exact ⟨rfl, rfl, rfl, rfl, rfl⟩

theorem Streams.removeFD (h : s.Streams size) (k : RedirectKind) (fd : ℕ) :
    (s.removeFD k fd).Streams size := by
  unfold Redirection.removeFD
  split
  · rename_i old hold
    have hsame := closeTicket_same (s.setTable k ((s.tables k).erase fd)) old
    apply h.of_tables ⟨hsame.1, hsame.2.1, hsame.2.2.1, hsame.2.2.2.1⟩
    rw [hsame.2.2.2.2]
    intro k' fd' r' hr'
    rw [lookup_erase] at hr'
    split_ifs at hr'
    exact h.plain _ _ _ hr'
  · exact h

/-! ## A round of a callback -/

/-- For the logger a round is one act, with the bytes of the read. -/
theorem redirect_of_grab {logger : Logger} {l : SingleLog}
    (hgrab : s.logger.grabInLogBuffer = some (l, logger))
    (r : FdRedirectorTicket) (d : RedirectDefaults) (bytes : List UInt8) :
    s.logger.step (.redirect r d bytes) =
      if bytes = [] then logger.putBack l
      else logger.submitBuffer (r.fill d bytes l) := by
  simp only [Logger.step, Logger.redirect, hgrab]

theorem grab_queue {logger : Logger} {l : SingleLog}
    (hgrab : s.logger.grabInLogBuffer = some (l, logger)) :
    logger.newLogs = s.logger.newLogs ∧ logger.nextSeq = s.logger.nextSeq := by
  unfold Logger.grabInLogBuffer at hgrab
  split at hgrab
  · rcases hgrab with ⟨⟩
    exact ⟨rfl, rfl⟩
  · simp at hgrab

/-- What becomes of a submitted entry. -/
theorem submit_cases (logger : Logger) {entry : SingleLog}
    (hused : 1 ≤ entry.buf.used) :
    (logger.enqueue .newLog entry = none ∧
        (logger.submitBuffer entry).newLogs = logger.newLogs ∧
        (logger.submitBuffer entry).nextSeq = logger.nextSeq) ∨
      (logger.enqueue .newLog entry).isSome ∧
        (logger.submitBuffer entry).newLogs =
          logger.newLogs ++ [{ entry with seq := logger.nextSeq }] ∧
        (logger.submitBuffer entry).nextSeq = logger.nextSeq + 1 := by
  unfold Logger.submitBuffer
  rw [if_neg (by omega)]
  cases henqueue : logger.enqueue .newLog entry with
  | none =>
      have hback := Logger.putBack_queue logger entry
      exact Or.inl ⟨rfl, hback.1, hback.2⟩
  | some next =>
      rcases Logger.enqueue_eq_some henqueue with ⟨-, -, hnext, hnewLogs⟩
      exact Or.inr ⟨rfl, hnewLogs, hnext⟩

theorem proper_fill (hplain : r.tag = 0 ∧ r.level = 0) (k : RedirectKind)
    {bytes : List UInt8} {l : SingleLog} (hbytes : bytes ≠ [])
    (hfits : bytes.length ≤ l.buf.len) (hlen : l.buf.len = size) (p : ℕ)
    (seq : Option ℕ) :
    RedirectRound.Proper size ⟨p, k, r, r.fill k.defaults bytes l, seq⟩ where
  nonempty := by rw [r.text_fill _ hfits]; exact hbytes
  fits := by rw [r.text_fill _ hfits, ← hlen]; exact hfits
  origin := rfl
  tag := by simp [FdRedirectorTicket.fill, hplain.1]
  level := by simp [FdRedirectorTicket.fill, hplain.2]

/-- One more read, with its entry submitted. -/
theorem Streams.append (h : s.Streams size) (rd : RedirectRound) {pipe : Pipe}
    {logger : Logger} (hproper : RedirectRound.Proper size rd)
    (hsized : logger.Sized size) (hle : pipe.taken ≤ pipe.written.length)
    (htake : pipe.written.take pipe.taken =
      (s.pipes rd.pipe).written.take (s.pipes rd.pipe).taken ++ rd.entry.buf.text)
    (hqueue : (rd.seq = none ∧ logger.newLogs = s.logger.newLogs ∧
        logger.nextSeq = s.logger.nextSeq) ∨
      rd.seq = some s.logger.nextSeq ∧ logger.newLogs = s.logger.newLogs ++
        [{ rd.entry with seq := s.logger.nextSeq }] ∧
        logger.nextSeq = s.logger.nextSeq + 1) :
    ({ s.setPipe rd.pipe pipe with
      logger := logger
      rounds := s.rounds ++ [rd] } : Redirection).Streams size where
  sized := hsized
  plain := h.plain
  taken_le := by
    intro p
    by_cases heq : p = rd.pipe
    · subst heq
      simpa [Redirection.setPipe] using hle
    · simpa [Redirection.setPipe, heq] using h.taken_le p
  texts := by
    intro p
    change ((s.rounds ++ [rd]).filter fun r => r.pipe = p).flatMap _ = _
    rw [List.filter_append, List.flatMap_append]
    change s.readFrom p ++ _ = _
    rw [h.texts]
    by_cases heq : p = rd.pipe
    · subst heq
      simp [Redirection.setPipe, htake]
    · simp [Redirection.setPipe, heq, Ne.symm heq]
  proper := by
    intro r hr
    rcases List.mem_append.mp hr with hold | hnew
    · exact h.proper r hold
    · rw [List.mem_singleton.mp hnew]
      exact hproper
  accepted := by
    change ((s.rounds ++ [rd]).filterMap _).Sublist (s.handled ++ logger.newLogs)
    rw [List.filterMap_append]
    rcases hqueue with ⟨hseq, hlogs, -⟩ | ⟨hseq, hlogs, -⟩
    · rw [hlogs, List.filterMap_cons, hseq, Option.map_none, List.filterMap_nil,
        List.append_nil]
      exact h.accepted
    · rw [hlogs, ← List.append_assoc, List.filterMap_cons, hseq, Option.map_some,
        List.filterMap_nil]
      exact h.accepted.append_right _
  increasing := by
    change ((s.handled ++ logger.newLogs).map SingleLog.seq).Pairwise _
    rcases hqueue with ⟨-, hlogs, -⟩ | ⟨-, hlogs, -⟩
    · rw [hlogs]
      exact h.increasing
    · rw [hlogs, ← List.append_assoc, List.map_append, List.pairwise_append]
      refine ⟨h.increasing, List.pairwise_singleton _ _, fun n hn m hm => ?_⟩
      rcases List.mem_map.mp hn with ⟨l, hl, rfl⟩
      rw [List.map_singleton, List.mem_singleton] at hm
      rw [hm]
      exact h.below l hl
  below := by
    change ∀ l ∈ s.handled ++ logger.newLogs, l.seq < logger.nextSeq
    rcases hqueue with ⟨-, hlogs, hnext⟩ | ⟨-, hlogs, hnext⟩
    · rw [hlogs, hnext]
      exact h.below
    · rw [hlogs, hnext, ← List.append_assoc]
      intro l hl
      rcases List.mem_append.mp hl with hold | hnew
      · exact (h.below l hold).trans (Nat.lt_succ_self _)
      · rw [List.mem_singleton.mp hnew]
        exact Nat.lt_succ_self _

theorem take_unread {pipe : Pipe} {bytes : List UInt8} {n : ℕ}
    (hle : pipe.taken ≤ pipe.written.length)
    (htaken : bytes = pipe.unread.take n) :
    pipe.taken + bytes.length ≤ pipe.written.length ∧
      pipe.written.take (pipe.taken + bytes.length) =
        pipe.written.take pipe.taken ++ bytes := by
  have hunread : pipe.unread.length = pipe.written.length - pipe.taken :=
    List.length_drop
  have hlength : bytes.length ≤ pipe.unread.length := by
    rw [htaken]
    exact List.length_take_le' _ _
  have hsame : pipe.unread.take bytes.length = bytes := by
    rw [htaken, List.length_take, ← List.take_eq_take_min]
  refine ⟨by omega, ?_⟩
  rw [List.take_add]
  unfold Pipe.unread at hsame
  rw [hsame]

theorem Streams.data (h : s.Streams size) (hplain : r.tag = 0 ∧ r.level = 0)
    {logger : Logger} {l : SingleLog} {p : ℕ} {env : ReadEnv}
    {bytes : List UInt8} (hgrab : s.logger.grabInLogBuffer = some (l, logger))
    (hread : s.read r.fd l.buf.len env = .data p bytes) :
    ({ s.setPipe p { s.pipes p with
        taken := (s.pipes p).taken + bytes.length } with
      logger := logger.submitBuffer (r.fill k.defaults bytes l)
      rounds := s.rounds ++ [RedirectRound.mk p k r (r.fill k.defaults bytes l)
        ((logger.enqueue .newLog (r.fill k.defaults bytes l)).map
          fun _ => logger.nextSeq)] } : Redirection).Streams size := by
  rcases read_data hread with ⟨-, hbytes, hfits, n, htaken⟩
  have hlen := (h.sized.grabInLogBuffer hgrab).1
  have hsized := h.sized.step (.redirect r.toFdRedirectorTicket k.defaults bytes)
  rw [redirect_of_grab hgrab, if_neg hbytes] at hsized
  rcases grab_queue hgrab with ⟨hlogs, hseq⟩
  have htext : (r.fill k.defaults bytes l).buf.text = bytes := r.text_fill _ hfits
  have hused : 1 ≤ (r.fill k.defaults bytes l).buf.used := by
    have hpos := List.length_pos_iff.mpr hbytes
    change 1 ≤ (bytes.take l.buf.len).length
    rw [List.length_take]
    omega
  have htake := take_unread (h.taken_le p) htaken
  apply h.append (.mk p k r (r.fill k.defaults bytes l) _)
  · exact proper_fill hplain k hbytes hfits hlen p _
  · exact hsized
  · exact htake.1
  · dsimp only
    rw [htext]
    exact htake.2
  · rcases submit_cases logger hused with
      ⟨hnone, hnew, hnext⟩ | ⟨hsome, hnew, hnext⟩
    · exact Or.inl ⟨by simp [hnone], hnew.trans hlogs, hnext.trans hseq⟩
    · rw [hlogs, hseq] at hnew
      rw [hseq] at hnext
      rcases Option.isSome_iff_exists.mp hsome with ⟨next, hsome⟩
      exact Or.inr ⟨by simp [hsome, hseq], hnew, hnext⟩

/-- A buffer that nothing was read into goes back. -/
theorem Streams.unused (h : s.Streams size) {logger : Logger} {l : SingleLog}
    (hgrab : s.logger.grabInLogBuffer = some (l, logger))
    (r : FdRedirectorTicket) (d : RedirectDefaults) :
    ({ s with logger := logger.putBack l } : Redirection).Streams size := by
  have hsized := h.sized.step (.redirect r d [])
  have hadvances := s.logger.advances_step (.redirect r d [])
  rw [redirect_of_grab hgrab, if_pos rfl] at hsized hadvances
  have hmoved := h.advance hsized hadvances
  simp only [Logger.takenBy, Option.toList_none, List.append_nil] at hmoved
  exact hmoved

theorem Streams.endStream (h : s.Streams size) (hplain : r.tag = 0 ∧ r.level = 0)
    {logger : Logger} {l : SingleLog}
    (hgrab : s.logger.grabInLogBuffer = some (l, logger)) (k : RedirectKind)
    (p : ℕ) :
    (({ s with logger := logger } : Redirection).endStream k r p l).Streams size := by
  have hback := h.unused hgrab r.toFdRedirectorTicket k.defaults
  have hclose := closeTicket_same { s with logger := logger } r
  have hmoved : ∀ calls : List ClosedCall, ({ (({ s with logger := logger } :
      Redirection).closeTicket r).setTable k ((s.tables k).insert r.fd
        { r with closed := true, polled := false }) with
      logger := logger.putBack l
      busy := none
      calls := calls } : Redirection).Streams size := by
    intro calls
    apply hback.of_tables
    · exact ⟨rfl, hclose.2.1, hclose.2.2.1, hclose.2.2.2.1⟩
    · change ∀ k' fd r', ((Function.update (({ s with logger := logger } :
        Redirection).closeTicket r).tables k _) k').lookup fd = some r' → _
      rw [hclose.2.2.2.2]
      exact plain_insert h (r := { r with closed := true, polled := false })
        hplain k r.fd
  unfold Redirection.endStream
  dsimp only
  rw [show ((({ s with logger := logger } : Redirection).closeTicket r).setTable k
    ((s.tables k).insert r.fd { r with closed := true, polled := false })).logger =
      logger from hclose.1]
  split
  · exact hmoved _
  · exact hmoved _

theorem Streams.roundOf (h : s.Streams size) (hplain : r.tag = 0 ∧ r.level = 0)
    (k : RedirectKind) (env : ReadEnv) : (s.roundOf k r env).Streams size := by
  unfold Redirection.roundOf
  split
  · exact h.of_tables ⟨rfl, rfl, rfl, rfl⟩ h.plain
  · rename_i l logger hgrab
    split
    · rename_i p bytes hread
      exact h.data hplain hgrab hread
    · rename_i p hread
      exact h.endStream hplain hgrab k p
    · have hback := h.unused hgrab r.toFdRedirectorTicket k.defaults
      exact hback.of_tables ⟨rfl, rfl, rfl, rfl⟩ h.plain

theorem Streams.step (h : s.Streams size) (a : RedirectAct) :
    (s.step a).Streams size := by
  cases a with
  | write p bytes => exact h.write p bytes
  | finish p => exact h.setPipe p _ (h.taken_le p) rfl
  | openPipe fd =>
      simp only [Redirection.step, Redirection.openPipe]
      split
      · exact h
      · exact h.of_tables ⟨rfl, rfl, rfl, rfl⟩ h.plain
  | closeFd fd => exact h.of_tables ⟨rfl, rfl, rfl, rfl⟩ h.plain
  | addFD k fd origin cb valid => exact h.addFD k fd origin cb valid
  | removeFD k fd => exact h.removeFD k fd
  | addDefaultRedirectorClosedCB cb => exact h.of_tables ⟨rfl, rfl, rfl, rfl⟩ h.plain
  | pollEvent k fd =>
      simp only [Redirection.step, Redirection.pollEvent]
      split
      · split_ifs
        · exact h.of_tables ⟨rfl, rfl, rfl, rfl⟩ h.plain
        · exact h
      · exact h
  | round env =>
      simp only [Redirection.step, Redirection.round]
      split
      · exact h
      · split
        · exact h
        · rename_i r hr
          exact h.roundOf (h.plain _ _ _ hr) _ env
  | logger a => exact h.advance (h.sized.step a) (s.logger.advances_step a)

end Redirection

end GreaseLog
