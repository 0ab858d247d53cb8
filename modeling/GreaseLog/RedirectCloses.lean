import GreaseLog.RedirectStreams

/-!
# How redirected streams end

The callback for a closed stream is made when its last byte has been logged,
and once for a pipe.  A descriptor that the program leaves to the library, in
one table only, is closed once and as the pipe it was handed over for, even
when its number has been used again in the meantime.
-/

namespace GreaseLog.Redirection

variable {s s' : Redirection} {size : ℕ} {k : RedirectKind} {r : RedirectTicket}

/-! ## What a round can do -/

theorem read_eof {fd len p : ℕ} {env : ReadEnv}
    (hread : s.read fd len env = .eof p) (hlen : len ≠ 0) :
    s.descriptors fd = some p ∧ (s.pipes p).ended = true ∧
      (s.pipes p).unread = [] := by
  unfold read at hread
  split at hread
  · simp at hread
  · rename_i p' hp'
    split_ifs at hread with hfails hunread hended
    rw [ReadResult.eof.injEq] at hread
    subst hread
    exact ⟨hp', hended, hunread⟩

/-- Nothing happens to tickets, descriptors and calls. -/
structure Quiet (s s' : Redirection) : Prop where
  tables : s'.tables = s.tables
  descriptors : s'.descriptors = s.descriptors
  nextPipe : s'.nextPipe = s.nextPipe
  closes : s'.closes = s.closes
  calls : s'.calls = s.calls
  busy : s'.busy = s.busy ∨ s'.busy = none

theorem Quiet.refl (s : Redirection) : s.Quiet s :=
  ⟨rfl, rfl, rfl, rfl, rfl, Or.inl rfl⟩

/-- The end of the stream of an open ticket. -/
structure EndsStream (s s' : Redirection) (k : RedirectKind) (r : RedirectTicket)
    (p : ℕ) : Prop where
  tables : s'.tables = (s.setTable k ((s.tables k).insert r.fd
    { r with closed := true, polled := false })).tables
  descriptors : s'.descriptors = Function.update s.descriptors r.fd none
  nextPipe : s'.nextPipe = s.nextPipe
  pipes : s'.pipes = s.pipes
  closes : s'.closes = s.closes ++ [⟨r, s.descriptors r.fd⟩]
  calls : s'.calls = s.calls ∨ ∃ cb, s'.calls = s.calls ++ [⟨cb, k, r.fd, p⟩]
  busy : s'.busy = none

theorem endStream_spec (hopen : r.closed = false) (k : RedirectKind) (p : ℕ)
    (l : SingleLog) : s.EndsStream (s.endStream k r p l) k r p := by
  unfold endStream closeTicket
  simp only [hopen, Bool.false_eq_true, if_false]
  split
  · exact ⟨rfl, rfl, rfl, rfl, rfl, Or.inr ⟨_, rfl⟩, rfl⟩
  · exact ⟨rfl, rfl, rfl, rfl, rfl, Or.inl rfl, rfl⟩

theorem roundOf_cases (h : s.Streams size) (hsize : 0 < size)
    (hopen : r.closed = false) (k : RedirectKind) (env : ReadEnv) :
    (s.Quiet (s.roundOf k r env) ∧
        ∀ p, (s.roundOf k r env).pipes p = s.pipes p ∨
          s.descriptors r.fd = some p) ∨
      ∃ p, s.descriptors r.fd = some p ∧ (s.pipes p).ended = true ∧
        (s.pipes p).unread = [] ∧ s.EndsStream (s.roundOf k r env) k r p := by
  unfold roundOf
  split
  · exact Or.inl ⟨⟨rfl, rfl, rfl, rfl, rfl, Or.inr rfl⟩, fun p => Or.inl rfl⟩
  · rename_i l logger hgrab
    have hlen := (h.sized.grabInLogBuffer hgrab).1
    split
    · rename_i p bytes hread
      refine Or.inl ⟨⟨rfl, rfl, rfl, rfl, rfl, Or.inl rfl⟩, fun p' => ?_⟩
      by_cases heq : p' = p
      · rw [heq]
        exact Or.inr (read_data hread).1
      · exact Or.inl (by simp [setPipe, heq])
    · rename_i p hread
      rcases read_eof hread (by omega) with ⟨hfd, hended, hunread⟩
      have hspec := endStream_spec (s := { s with logger := logger }) hopen k p l
      exact Or.inr ⟨p, hfd, hended, hunread, hspec.1, hspec.2, hspec.3, hspec.4,
        hspec.5, hspec.6, hspec.7⟩
    · exact Or.inl ⟨⟨rfl, rfl, rfl, rfl, rfl, Or.inr rfl⟩, fun p => Or.inl rfl⟩

/-! ## Tickets and descriptors -/

structure Placed (s : Redirection) : Prop where
  keys : ∀ k fd r, (s.tables k).lookup fd = some r → r.fd = fd
  polled : ∀ k fd r, (s.tables k).lookup fd = some r → r.polled = true →
    r.closed = false
  busy : ∀ k fd, s.busy = some (k, fd) →
    ∃ r, (s.tables k).lookup fd = some r ∧ r.polled = true
  fresh : ∀ fd p, s.descriptors fd = some p → p < s.nextPipe
  one : ∀ fd fd' p, s.descriptors fd = some p → s.descriptors fd' = some p →
    fd = fd'

theorem Placed.of_quiet (h : s.Placed) (hquiet : s.Quiet s') : s'.Placed where
  keys := by rw [hquiet.tables]; exact h.keys
  polled := by rw [hquiet.tables]; exact h.polled
  busy := by
    intro k fd hbusy
    rw [hquiet.tables]
    rcases hquiet.busy with hsame | hnone
    · exact h.busy k fd (hsame ▸ hbusy)
    · rw [hnone] at hbusy
      simp at hbusy
  fresh := by rw [hquiet.descriptors, hquiet.nextPipe]; exact h.fresh
  one := by rw [hquiet.descriptors]; exact h.one

theorem of_update_none {f : ℕ → Option ℕ} {a b p : ℕ}
    (hp : Function.update f a none b = some p) : f b = some p ∧ b ≠ a := by
  by_cases heq : b = a
  · subst heq
    simp at hp
  · rw [Function.update_of_ne heq] at hp
    exact ⟨hp, heq⟩

/-- A ticket is set or taken out between the callbacks, and a descriptor may
be closed. -/
theorem Placed.of_tables (h : s.Placed)
    (hkeys : ∀ k fd r, (s'.tables k).lookup fd = some r → r.fd = fd)
    (hpolled : ∀ k fd r, (s'.tables k).lookup fd = some r → r.polled = true →
      r.closed = false)
    (hbusy : s'.busy = none) (hnext : s'.nextPipe = s.nextPipe)
    (hdescriptors : ∀ fd p, s'.descriptors fd = some p →
      s.descriptors fd = some p) : s'.Placed where
  keys := hkeys
  polled := hpolled
  busy := fun k fd hsome => by rw [hbusy] at hsome; simp at hsome
  fresh := fun fd p hp => hnext ▸ h.fresh fd p (hdescriptors fd p hp)
  one := fun fd fd' p hp hp' =>
    h.one fd fd' p (hdescriptors fd p hp) (hdescriptors fd' p hp')

theorem Placed.closeFd (h : s.Placed) (fd : ℕ) : (s.closeFd fd).Placed where
  keys := h.keys
  polled := h.polled
  busy := h.busy
  fresh := fun fd' p hp => h.fresh fd' p (of_update_none hp).1
  one := fun a b p ha hb => h.one a b p (of_update_none ha).1 (of_update_none hb).1

theorem Placed.openPipe (h : s.Placed) (fd : ℕ) : (s.openPipe fd).Placed := by
  unfold Redirection.openPipe
  split
  · exact h
  · have hcases : ∀ a p, Function.update s.descriptors fd (some s.nextPipe) a =
        some p → a = fd ∧ p = s.nextPipe ∨ s.descriptors a = some p := by
      intro a p ha
      by_cases heq : a = fd
      · subst heq
        rw [Function.update_self, Option.some.injEq] at ha
        exact Or.inl ⟨rfl, ha.symm⟩
      · rw [Function.update_of_ne heq] at ha
        exact Or.inr ha
    refine ⟨h.keys, h.polled, h.busy, fun a p ha => ?_, fun a b p ha hb => ?_⟩
    · dsimp only
      rcases hcases a p ha with ⟨-, rfl⟩ | hold
      · omega
      · have hlt := h.fresh a p hold
        omega
    · rcases hcases a p ha with ⟨rfl, rfl⟩ | hold <;>
        rcases hcases b _ hb with ⟨rfl, hb'⟩ | hold'
      · rfl
      · exact absurd (h.fresh b _ hold') (lt_irrefl _)
      · subst hb'
        exact absurd (h.fresh a _ hold) (lt_irrefl _)
      · exact h.one a b p hold hold'

theorem Placed.addFD (h : s.Placed) (hbusy : s.busy = none) (k : RedirectKind)
    (fd : ℕ) (origin : OriginId) (cb : Option ℕ) (valid : Bool) :
    (s.addFD k fd origin cb valid).Placed := by
  unfold Redirection.addFD
  split_ifs
  · apply h.of_tables
    · intro k' fd' r' hr'
      rw [lookup_insert] at hr'
      split_ifs at hr' with hsame
      · rw [← Option.some.inj hr', hsame.2]
        rfl
      · exact h.keys _ _ _ hr'
    · intro k' fd' r' hr'
      rw [lookup_insert] at hr'
      split_ifs at hr' with hsame
      · rw [← Option.some.inj hr']
        exact fun _ => rfl
      · exact h.polled _ _ _ hr'
    · exact hbusy
    · rfl
    · exact fun _ _ hp => hp
  · exact h

/-- `close` of a ticket: the descriptor is closed unless the ticket was. -/
theorem closeTicket_descriptors (s : Redirection) (r : RedirectTicket) :
    ∀ fd p, (s.closeTicket r).descriptors fd = some p →
      s.descriptors fd = some p := by
  intro fd p hp
  unfold closeTicket at hp
  split_ifs at hp
  · exact hp
  · exact (of_update_none hp).1

theorem closeTicket_frame (s : Redirection) (r : RedirectTicket) :
    (s.closeTicket r).nextPipe = s.nextPipe ∧ (s.closeTicket r).busy = s.busy ∧
      (s.closeTicket r).calls = s.calls := by
  unfold closeTicket
  split_ifs <;> exact ⟨rfl, rfl, rfl⟩

theorem Placed.removeFD (h : s.Placed) (hbusy : s.busy = none) (k : RedirectKind)
    (fd : ℕ) : (s.removeFD k fd).Placed := by
  unfold Redirection.removeFD
  split
  · rename_i old hold
    have hframe := closeTicket_frame (s.setTable k ((s.tables k).erase fd)) old
    have htables := (closeTicket_same (s.setTable k ((s.tables k).erase fd)) old).2.2.2.2
    apply h.of_tables _ _ (hframe.2.1.trans hbusy) hframe.1
      (closeTicket_descriptors _ old)
    · rw [htables]
      intro k' fd' r' hr'
      rw [lookup_erase] at hr'
      split_ifs at hr'
      exact h.keys _ _ _ hr'
    · rw [htables]
      intro k' fd' r' hr'
      rw [lookup_erase] at hr'
      split_ifs at hr'
      exact h.polled _ _ _ hr'
  · exact h

theorem Placed.endsStream {p : ℕ} (h : s.Placed) (hends : s.EndsStream s' k r p) :
    s'.Placed := by
  apply h.of_tables _ _ hends.busy hends.nextPipe
  · intro fd p hp
    rw [hends.descriptors] at hp
    exact (of_update_none hp).1
  · rw [hends.tables]
    intro k' fd' r' hr'
    rw [lookup_insert] at hr'
    split_ifs at hr' with hsame
    · rw [← Option.some.inj hr', hsame.2]
    · exact h.keys _ _ _ hr'
  · rw [hends.tables]
    intro k' fd' r' hr'
    rw [lookup_insert] at hr'
    split_ifs at hr' with hsame
    · rw [← Option.some.inj hr']
      exact fun hpolled => by simp at hpolled
    · exact h.polled _ _ _ hr'

/-- The acts that have nothing to do with tickets or descriptors. -/
def isQuiet : RedirectAct → Bool
  | .write _ _ | .finish _ | .addDefaultRedirectorClosedCB _ | .logger _ => true
  | _ => false

theorem quiet_step (s : Redirection) {a : RedirectAct} (ha : isQuiet a = true) :
    s.Quiet (s.step a) := by
  cases a with
  | write p bytes =>
      simp only [step, write]
      split_ifs
      · exact Quiet.refl s
      · exact ⟨rfl, rfl, rfl, rfl, rfl, Or.inl rfl⟩
  | finish p => exact ⟨rfl, rfl, rfl, rfl, rfl, Or.inl rfl⟩
  | addDefaultRedirectorClosedCB cb => exact ⟨rfl, rfl, rfl, rfl, rfl, Or.inl rfl⟩
  | logger a => exact ⟨rfl, rfl, rfl, rfl, rfl, Or.inl rfl⟩
  | openPipe fd => simp [isQuiet] at ha
  | closeFd fd => simp [isQuiet] at ha
  | addFD k fd origin cb valid => simp [isQuiet] at ha
  | removeFD k fd => simp [isQuiet] at ha
  | pollEvent k fd => simp [isQuiet] at ha
  | round env => simp [isQuiet] at ha

/-- A round changes nothing here, or it ends the stream of the ticket whose
callback is running. -/
theorem round_cases (h : s.Placed) (hstreams : s.Streams size) (hsize : 0 < size)
    (env : ReadEnv) :
    (s.Quiet (s.round env) ∧ ∀ p, (s.round env).pipes p = s.pipes p ∨
        ∃ fd, s.descriptors fd = some p) ∨
      ∃ k r p, (s.tables k).lookup r.fd = some r ∧ r.closed = false ∧
        s.descriptors r.fd = some p ∧ (s.pipes p).ended = true ∧
        (s.pipes p).unread = [] ∧ s.EndsStream (s.round env) k r p := by
  unfold round
  split
  · exact Or.inl ⟨Quiet.refl s, fun p => Or.inl rfl⟩
  · rename_i k fd hbusy
    rcases h.busy k fd hbusy with ⟨r, hr, hpolled⟩
    have hopen := h.polled k fd r hr hpolled
    simp only [hr]
    rcases roundOf_cases hstreams hsize hopen k env with
      ⟨hquiet, hpipes⟩ | ⟨p, hfd, hended, hunread, hends⟩
    · refine Or.inl ⟨hquiet, fun p => ?_⟩
      rcases hpipes p with hsame | hfd
      · exact Or.inl hsame
      · exact Or.inr ⟨_, hfd⟩
    · refine Or.inr ⟨k, r, p, ?_, hopen, hfd, hended, hunread, hends⟩
      rw [h.keys k fd r hr]
      exact hr

theorem Placed.step (h : s.Placed) (hstreams : s.Streams size) (hsize : 0 < size)
    {a : RedirectAct} (hbetween : s.BetweenCallbacks a) : (s.step a).Placed := by
  cases hquiet : isQuiet a with
  | true => exact h.of_quiet (s.quiet_step hquiet)
  | false =>
      cases a with
      | openPipe fd => exact h.openPipe fd
      | closeFd fd => exact h.closeFd fd
      | addFD k fd origin cb valid => exact h.addFD hbetween k fd origin cb valid
      | removeFD k fd => exact h.removeFD hbetween k fd
      | pollEvent k fd =>
          simp only [Redirection.step, Redirection.pollEvent]
          split
          · rename_i r _ hr
            split_ifs with hpolled
            · refine ⟨h.keys, h.polled, fun k' fd' hbusy => ?_, h.fresh, h.one⟩
              rcases hbusy with ⟨⟩
              exact ⟨r, hr, hpolled⟩
            · exact h
          · exact h
      | round env =>
          rcases round_cases h hstreams hsize env with
            ⟨hquiet, -⟩ | ⟨k, r, p, -, -, -, -, -, hends⟩
          · exact h.of_quiet hquiet
          · exact h.endsStream hends
      | write p bytes => simp [isQuiet] at hquiet
      | finish p => simp [isQuiet] at hquiet
      | addDefaultRedirectorClosedCB cb => simp [isQuiet] at hquiet
      | logger a => simp [isQuiet] at hquiet

/-! ## Pipes and descriptors over a step -/

/-- A pipe that has ended and has no descriptor stays as it is. -/
theorem pipes_step (h : s.Placed) (hstreams : s.Streams size) (hsize : 0 < size)
    (a : RedirectAct) {p : ℕ} (hended : (s.pipes p).ended = true)
    (hgone : ∀ fd, s.descriptors fd ≠ some p) :
    ((s.step a).pipes p).ended = true ∧
      ((s.step a).pipes p).unread = (s.pipes p).unread := by
  cases a with
  | write p' bytes =>
      simp only [step, write]
      split_ifs with hended'
      · exact ⟨hended, rfl⟩
      · have hne : p ≠ p' := by
          rintro rfl
          exact hended' hended
        simp [setPipe, hne, hended]
  | finish p' =>
      by_cases heq : p = p'
      · subst heq
        simp [step, finish, setPipe, Pipe.unread]
      · simp [step, finish, setPipe, heq, hended]
  | openPipe fd =>
      simp only [step, openPipe]
      split <;> exact ⟨hended, rfl⟩
  | closeFd fd => exact ⟨hended, rfl⟩
  | addFD k fd origin cb valid =>
      simp only [step, addFD]
      split_ifs <;> exact ⟨hended, rfl⟩
  | removeFD k fd =>
      simp only [step, removeFD]
      split
      · rw [(closeTicket_same _ _).2.1]
        exact ⟨hended, rfl⟩
      · exact ⟨hended, rfl⟩
  | addDefaultRedirectorClosedCB cb => exact ⟨hended, rfl⟩
  | pollEvent k fd =>
      simp only [step, pollEvent]
      split
      · split_ifs <;> exact ⟨hended, rfl⟩
      · exact ⟨hended, rfl⟩
  | round env =>
      have hsame : (s.round env).pipes p = s.pipes p := by
        rcases round_cases h hstreams hsize env with
          ⟨-, hpipes⟩ | ⟨k, r, p', -, -, -, -, -, hends⟩
        · rcases hpipes p with hsame | ⟨fd, hfd⟩
          · exact hsame
          · exact absurd hfd (hgone fd)
        · rw [hends.pipes]
      simp only [step, hsame]
      exact ⟨hended, trivial⟩
  | logger a => exact ⟨hended, rfl⟩

theorem descriptors_step (h : s.Placed) (hstreams : s.Streams size)
    (hsize : 0 < size) (a : RedirectAct) :
    s.nextPipe ≤ (s.step a).nextPipe ∧
      ∀ fd p, (s.step a).descriptors fd = some p →
        s.descriptors fd = some p ∨ p = s.nextPipe := by
  cases hquiet : isQuiet a with
  | true =>
      have hsame := s.quiet_step hquiet
      rw [hsame.nextPipe, hsame.descriptors]
      exact ⟨le_rfl, fun fd p hp => Or.inl hp⟩
  | false =>
      cases a with
      | openPipe fd =>
          simp only [step, openPipe]
          split
          · exact ⟨le_rfl, fun fd p hp => Or.inl hp⟩
          · refine ⟨Nat.le_succ _, fun fd' p hp => ?_⟩
            dsimp only at hp
            by_cases heq : fd' = fd
            · subst heq
              rw [Function.update_self, Option.some.injEq] at hp
              exact Or.inr hp.symm
            · rw [Function.update_of_ne heq] at hp
              exact Or.inl hp
      | closeFd fd =>
          exact ⟨le_rfl, fun fd' p hp => Or.inl (of_update_none hp).1⟩
      | addFD k fd origin cb valid =>
          simp only [step, addFD]
          split_ifs <;> exact ⟨le_rfl, fun fd p hp => Or.inl hp⟩
      | removeFD k fd =>
          simp only [step, removeFD]
          split
          · rw [(closeTicket_frame _ _).1]
            exact ⟨le_rfl, fun fd' p hp => Or.inl (closeTicket_descriptors
              (s.setTable k ((s.tables k).erase fd)) _ fd' p hp)⟩
          · exact ⟨le_rfl, fun fd p hp => Or.inl hp⟩
      | pollEvent k fd =>
          simp only [step, pollEvent]
          split
          · split_ifs <;> exact ⟨le_rfl, fun fd p hp => Or.inl hp⟩
          · exact ⟨le_rfl, fun fd p hp => Or.inl hp⟩
      | round env =>
          simp only [step]
          rcases round_cases h hstreams hsize env with
            ⟨hsame, -⟩ | ⟨k, r, p, -, -, -, -, -, hends⟩
          · rw [hsame.nextPipe, hsame.descriptors]
            exact ⟨le_rfl, fun fd p hp => Or.inl hp⟩
          · rw [hends.nextPipe, hends.descriptors]
            exact ⟨le_rfl, fun fd p hp => Or.inl (of_update_none hp).1⟩
      | write p bytes => simp [isQuiet] at hquiet
      | finish p => simp [isQuiet] at hquiet
      | addDefaultRedirectorClosedCB cb => simp [isQuiet] at hquiet
      | logger a => simp [isQuiet] at hquiet

/-! ## Calls -/

/-- The streams whose end was reported are over, and their pipes are not open
any more. -/
structure Reported (s : Redirection) : Prop where
  ended : ∀ c ∈ s.calls, (s.pipes c.pipe).ended = true ∧
    (s.pipes c.pipe).unread = []
  gone : ∀ c ∈ s.calls, c.pipe < s.nextPipe ∧
    ∀ fd, s.descriptors fd ≠ some c.pipe
  once : (s.calls.map ClosedCall.pipe).Nodup

/-- A step reports at most one end, of a pipe that was open until then. -/
theorem calls_step (h : s.Placed) (hstreams : s.Streams size) (hsize : 0 < size)
    (a : RedirectAct) :
    (s.step a).calls = s.calls ∨
      ∃ c, (s.step a).calls = s.calls ++ [c] ∧
        (s.pipes c.pipe).ended = true ∧ (s.pipes c.pipe).unread = [] ∧
        (∃ fd, s.descriptors fd = some c.pipe) ∧
        (s.step a).pipes = s.pipes ∧ (s.step a).nextPipe = s.nextPipe ∧
        ∀ fd, (s.step a).descriptors fd ≠ some c.pipe := by
  cases hquiet : isQuiet a with
  | true => exact Or.inl (s.quiet_step hquiet).calls
  | false =>
      cases a with
      | openPipe fd =>
          left
          simp only [step, openPipe]
          split <;> rfl
      | closeFd fd => exact Or.inl rfl
      | addFD k fd origin cb valid =>
          left
          simp only [step, addFD]
          split_ifs <;> rfl
      | removeFD k fd =>
          left
          simp only [step, removeFD]
          split
          · exact (closeTicket_frame _ _).2.2
          · rfl
      | pollEvent k fd =>
          left
          simp only [step, pollEvent]
          split
          · split_ifs <;> rfl
          · rfl
      | round env =>
          simp only [step]
          rcases round_cases h hstreams hsize env with
            ⟨hsame, -⟩ | ⟨k, r, p, -, -, hfd, hended, hunread, hends⟩
          · exact Or.inl hsame.calls
          · rcases hends.calls with hsame | ⟨cb, hcalls⟩
            · exact Or.inl hsame
            · refine Or.inr ⟨_, hcalls, hended, hunread, ⟨_, hfd⟩, hends.pipes,
                hends.nextPipe, fun fd hp => ?_⟩
              rw [hends.descriptors] at hp
              have hold := of_update_none hp
              exact hold.2 (h.one _ _ _ hold.1 hfd)
      | write p bytes => simp [isQuiet] at hquiet
      | finish p => simp [isQuiet] at hquiet
      | addDefaultRedirectorClosedCB cb => simp [isQuiet] at hquiet
      | logger a => simp [isQuiet] at hquiet

theorem Reported.step (hreported : s.Reported) (h : s.Placed)
    (hstreams : s.Streams size) (hsize : 0 < size) (a : RedirectAct) :
    (s.step a).Reported := by
  have hdescriptors := descriptors_step h hstreams hsize a
  have hgone : ∀ c ∈ s.calls, c.pipe < (s.step a).nextPipe ∧
      ∀ fd, (s.step a).descriptors fd ≠ some c.pipe := by
    intro c hc
    rcases hreported.gone c hc with ⟨hlt, hnone⟩
    refine ⟨hlt.trans_le hdescriptors.1, fun fd hfd => ?_⟩
    rcases hdescriptors.2 fd c.pipe hfd with hold | hnew
    · exact hnone fd hold
    · omega
  have hended : ∀ c ∈ s.calls, ((s.step a).pipes c.pipe).ended = true ∧
      ((s.step a).pipes c.pipe).unread = [] := by
    intro c hc
    have hold := hreported.ended c hc
    have hkept := pipes_step h hstreams hsize a hold.1 (hreported.gone c hc).2
    exact ⟨hkept.1, hkept.2.trans hold.2⟩
  rcases calls_step h hstreams hsize a with hsame |
    ⟨c, hcalls, hend, hunread, ⟨fd, hfd⟩, hpipes, hnext, hnone⟩
  · refine ⟨?_, ?_, ?_⟩
    · rw [hsame]
      exact hended
    · rw [hsame]
      exact hgone
    · rw [hsame]
      exact hreported.once
  · refine ⟨?_, ?_, ?_⟩
    · rw [hcalls]
      intro c' hc'
      rcases List.mem_append.mp hc' with hold | hnew
      · exact hended c' hold
      · rw [List.mem_singleton.mp hnew, hpipes]
        exact ⟨hend, hunread⟩
    · rw [hcalls]
      intro c' hc'
      rcases List.mem_append.mp hc' with hold | hnew
      · exact hgone c' hold
      · rw [List.mem_singleton.mp hnew, hnext]
        exact ⟨h.fresh fd _ hfd, hnone⟩
    · rw [hcalls, List.map_append, List.map_singleton]
      apply List.nodup_append.mpr
      refine ⟨hreported.once, List.nodup_singleton _, ?_⟩
      intro p hp q hq heq
      rcases List.mem_map.mp hp with ⟨c', hc', rfl⟩
      rw [List.mem_singleton] at hq
      subst hq
      -- The pipe was still open, so its end has not been reported before.
      exact (hreported.gone c' hc').2 fd (heq ▸ hfd)

/-- What the program is asked for: to leave the descriptors it has handed over
alone, and to hand over open ones, each to one table. -/
def HandsOver (s : Redirection) : RedirectAct → Prop
  | .closeFd fd => ∀ k r, (s.tables k).lookup fd = some r → r.closed = true
  | .addFD k fd _ _ _ => s.descriptors fd ≠ none ∧
      ∀ k' r, k' ≠ k → (s.tables k').lookup fd = some r → r.closed = true
  | _ => True

structure Owned (s : Redirection) : Prop where
  owned : ∀ k fd r, (s.tables k).lookup fd = some r → r.closed = false →
    ∃ p, r.pipe = some p ∧ s.descriptors fd = some p
  alone : ∀ k k' fd r r', (s.tables k).lookup fd = some r →
    (s.tables k').lookup fd = some r' → r.closed = false → r'.closed = false →
      k = k'
  own : ∀ c ∈ s.closes, ∃ p, c.ticket.pipe = some p ∧ c.found = some p ∧
    p < s.nextPipe ∧ ∀ fd, s.descriptors fd ≠ some p
  once : (s.closes.map LibraryClose.found).Nodup

/-- Tables and closes as before; the descriptors of open tickets, too. -/
theorem Owned.of_same (h : s.Owned) (htables : s'.tables = s.tables)
    (hcloses : s'.closes = s.closes)
    (hdescriptors : s.nextPipe ≤ s'.nextPipe ∧
      ∀ fd p, s'.descriptors fd = some p → s.descriptors fd = some p ∨
        p = s.nextPipe)
    (hkept : ∀ k fd r p, (s.tables k).lookup fd = some r → r.closed = false →
      s.descriptors fd = some p → s'.descriptors fd = some p) : s'.Owned where
  owned := by
    rw [htables]
    intro k fd r hr hopen
    rcases h.owned k fd r hr hopen with ⟨p, hp, hfd⟩
    exact ⟨p, hp, hkept k fd r p hr hopen hfd⟩
  alone := by rw [htables]; exact h.alone
  own := by
    rw [hcloses]
    intro c hc
    rcases h.own c hc with ⟨p, hp, hfound, hlt, hnone⟩
    refine ⟨p, hp, hfound, hlt.trans_le hdescriptors.1, fun fd hfd => ?_⟩
    rcases hdescriptors.2 fd p hfd with hold | hnew
    · exact hnone fd hold
    · omega
  once := by rw [hcloses]; exact h.once

/-- An open ticket is closed, and it is out of its table or marked. -/
theorem Owned.close (h : s.Owned) (hplaced : s.Placed)
    (hr : (s.tables k).lookup r.fd = some r) (hopen : r.closed = false)
    (hsame : ∀ k' fd r', (s'.tables k').lookup fd = some r' → r'.closed = false →
      (s.tables k').lookup fd = some r' ∧ ¬(k' = k ∧ fd = r.fd))
    (hdescriptors : s'.descriptors = Function.update s.descriptors r.fd none)
    (hnext : s'.nextPipe = s.nextPipe)
    (hcloses : s'.closes = s.closes ++ [⟨r, s.descriptors r.fd⟩]) : s'.Owned := by
  rcases h.owned k r.fd r hr hopen with ⟨p, hp, hfd⟩
  refine ⟨?_, ?_, ?_, ?_⟩
  · intro k' fd r' hr' hopen'
    rcases hsame k' fd r' hr' hopen' with ⟨hold, hother⟩
    rcases h.owned k' fd r' hold hopen' with ⟨p', hp', hfd'⟩
    have hne : fd ≠ r.fd := by
      rintro rfl
      exact hother ⟨h.alone k' k r.fd r' r hold hr hopen' hopen, rfl⟩
    exact ⟨p', hp', by rw [hdescriptors, Function.update_of_ne hne]; exact hfd'⟩
  · intro k₁ k₂ fd r₁ r₂ h₁ h₂ hopen₁ hopen₂
    exact h.alone k₁ k₂ fd r₁ r₂ (hsame k₁ fd r₁ h₁ hopen₁).1
      (hsame k₂ fd r₂ h₂ hopen₂).1 hopen₁ hopen₂
  · rw [hcloses, hnext, hdescriptors]
    intro c hc
    rcases List.mem_append.mp hc with hold | hnew
    · rcases h.own c hold with ⟨q, hq, hfound, hlt, hnone⟩
      exact ⟨q, hq, hfound, hlt, fun fd hfd' => hnone fd (of_update_none hfd').1⟩
    · rw [List.mem_singleton.mp hnew]
      refine ⟨p, hp, hfd, hplaced.fresh r.fd p hfd, fun fd hfd' => ?_⟩
      have hold := of_update_none hfd'
      exact hold.2 (hplaced.one _ _ _ hold.1 hfd)
  · rw [hcloses, List.map_append, List.map_singleton]
    apply List.nodup_append.mpr
    refine ⟨h.once, List.nodup_singleton _, ?_⟩
    intro a ha b hb heq
    rcases List.mem_map.mp ha with ⟨c, hc, rfl⟩
    rcases h.own c hc with ⟨q, -, hfound, -, hnone⟩
    rw [List.mem_singleton.mp hb, hfound, hfd, Option.some.injEq] at heq
    exact hnone r.fd (heq ▸ hfd)

theorem Owned.removeFD (h : s.Owned) (hplaced : s.Placed) (k : RedirectKind)
    (fd : ℕ) : (s.removeFD k fd).Owned := by
  unfold Redirection.removeFD
  split
  · rename_i old hold
    have hkey := hplaced.keys k fd old hold
    subst hkey
    have hlookup : ∀ k' fd' r', ((s.setTable k ((s.tables k).erase old.fd)).tables
        k').lookup fd' = some r' →
          (s.tables k').lookup fd' = some r' ∧ ¬(k' = k ∧ fd' = old.fd) := by
      intro k' fd' r' hr'
      rw [lookup_erase] at hr'
      split_ifs at hr' with hsame
      exact ⟨hr', hsame⟩
    cases hclosed : old.closed with
    | true =>
        have hskip : (s.setTable k ((s.tables k).erase old.fd)).closeTicket old =
            s.setTable k ((s.tables k).erase old.fd) := by
          simp [closeTicket, hclosed]
        rw [hskip]
        refine ⟨?_, ?_, h.own, h.once⟩
        · intro k' fd' r' hr' hopen'
          exact h.owned k' fd' r' (hlookup k' fd' r' hr').1 hopen'
        · intro k₁ k₂ fd' r₁ r₂ h₁ h₂ hopen₁ hopen₂
          exact h.alone k₁ k₂ fd' r₁ r₂ (hlookup k₁ fd' r₁ h₁).1
            (hlookup k₂ fd' r₂ h₂).1 hopen₁ hopen₂
    | false =>
        have hclose : (s.setTable k ((s.tables k).erase old.fd)).closeTicket old =
            { (s.setTable k ((s.tables k).erase old.fd)).closeFd old.fd with
              closes := s.closes ++ [⟨old, s.descriptors old.fd⟩] } := by
          simp [closeTicket, hclosed, setTable]
        rw [hclose]
        apply h.close hplaced hold hclosed
        · exact fun k' fd' r' hr' _ => hlookup k' fd' r' hr'
        · rfl
        · rfl
        · rfl
  · exact h

theorem Owned.addFD (h : s.Owned) {k : RedirectKind} {fd : ℕ} {origin : OriginId}
    {cb : Option ℕ} {valid : Bool}
    (hands : s.HandsOver (.addFD k fd origin cb valid)) :
    (s.addFD k fd origin cb valid).Owned := by
  unfold Redirection.addFD
  split_ifs
  · rcases hands with ⟨hsome, hother⟩
    rcases Option.ne_none_iff_exists'.mp hsome with ⟨p, hp⟩
    refine ⟨?_, ?_, h.own, h.once⟩
    · intro k' fd' r' hr' hopen'
      rw [lookup_insert] at hr'
      split_ifs at hr' with hsame
      · rw [← Option.some.inj hr', hsame.2]
        exact ⟨p, hp, hp⟩
      · exact h.owned k' fd' r' hr' hopen'
    · intro k₁ k₂ fd' r₁ r₂ h₁ h₂ hopen₁ hopen₂
      rw [lookup_insert] at h₁ h₂
      split_ifs at h₁ h₂ with hsame₁ hsame₂ hsame₂
      · rw [hsame₁.1, hsame₂.1]
      · rw [hsame₁.2] at h₂
        by_contra hne
        have hclosed := hother k₂ r₂ (fun heq => hne (hsame₁.1.trans heq.symm)) h₂
        rw [hopen₂] at hclosed
        simp at hclosed
      · rw [hsame₂.2] at h₁
        by_contra hne
        have hclosed := hother k₁ r₁ (fun heq => hne (heq.trans hsame₂.1.symm)) h₁
        rw [hopen₁] at hclosed
        simp at hclosed
      · exact h.alone k₁ k₂ fd' r₁ r₂ h₁ h₂ hopen₁ hopen₂
  · exact h

theorem Owned.step (h : s.Owned) (hplaced : s.Placed) (hstreams : s.Streams size)
    (hsize : 0 < size) {a : RedirectAct} (hands : s.HandsOver a) :
    (s.step a).Owned := by
  have hmoved := descriptors_step hplaced hstreams hsize a
  cases hquiet : isQuiet a with
  | true =>
      have hsame := s.quiet_step hquiet
      apply h.of_same hsame.tables hsame.closes hmoved
      rw [hsame.descriptors]
      exact fun _ _ _ _ _ _ hfd => hfd
  | false =>
      cases a with
      | openPipe fd =>
          have htables : (s.step (.openPipe fd)).tables = s.tables := by
            simp only [Redirection.step, Redirection.openPipe]
            split <;> rfl
          have hcloses : (s.step (.openPipe fd)).closes = s.closes := by
            simp only [Redirection.step, Redirection.openPipe]
            split <;> rfl
          apply h.of_same htables hcloses hmoved
          intro k fd' r p hr hopen hfd
          simp only [Redirection.step, Redirection.openPipe]
          split
          · exact hfd
          · rename_i hfree
            have hne : fd' ≠ fd := by
              rintro rfl
              rw [hfree] at hfd
              simp at hfd
            dsimp only
            rw [Function.update_of_ne hne]
            exact hfd
      | closeFd fd =>
          have htables : (s.step (.closeFd fd)).tables = s.tables := rfl
          apply h.of_same htables rfl hmoved
          intro k fd' r p hr hopen hfd
          have hne : fd' ≠ fd := by
            rintro rfl
            rw [hands k r hr] at hopen
            simp at hopen
          simpa [Redirection.step, Redirection.closeFd, hne] using hfd
      | addFD k fd origin cb valid => exact h.addFD hands
      | removeFD k fd => exact h.removeFD hplaced k fd
      | pollEvent k fd =>
          simp only [Redirection.step, Redirection.pollEvent]
          split
          · split_ifs
            · exact ⟨h.owned, h.alone, h.own, h.once⟩
            · exact h
          · exact h
      | round env =>
          simp only [Redirection.step] at hmoved ⊢
          rcases round_cases hplaced hstreams hsize env with
            ⟨hsame, -⟩ | ⟨k, r, p, hr, hopen, -, -, -, hends⟩
          · apply h.of_same hsame.tables hsame.closes hmoved
            rw [hsame.descriptors]
            exact fun _ _ _ _ _ _ hfd => hfd
          · refine h.close hplaced hr hopen ?_ hends.descriptors hends.nextPipe
              hends.closes
            rw [hends.tables]
            intro k' fd' r' hr' hopen'
            rw [lookup_insert] at hr'
            split_ifs at hr' with hsame
            · rw [← Option.some.inj hr'] at hopen'
              simp at hopen'
            · exact ⟨hr', hsame⟩
      | write p bytes => simp [isQuiet] at hquiet
      | finish p => simp [isQuiet] at hquiet
      | addDefaultRedirectorClosedCB cb => simp [isQuiet] at hquiet
      | logger a => simp [isQuiet] at hquiet

end GreaseLog.Redirection
