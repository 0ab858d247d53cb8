import GreaseLog.LogTarget
import GreaseLog.Run

/-!
# The references to a large message

A message sent as `WRITE_TARGET_OVERFLOW` is one `singleLog` for all targets.
Its count should be one for the command and one for each `overflowWriteOut`
that contains it, and it should be deleted with the last of them.  The
constructors leave the count at `NOT_REFED`, which turns `incRef` and `decRef`
off; only `heapSingleLog` starts it at one, and the messages are not made by
`heapSingleLog`.

The life of one message is followed from its command on.  It is given to any
targets, in any order, and the targets finish with it in any order.
-/

namespace GreaseLog

/-! ## Reference counts -/

/-- `_ref_cnt` of a `singleLog`, and how often the object was deleted. -/
structure RefCount where
  refCnt : ℤ
  deletions : ℕ
  deriving DecidableEq, Repr

namespace RefCount

def notRefed : ℤ := -2

def initRef : ℤ := 1

/-- The constructors of `singleLog`. -/
def singleLog : RefCount where
  refCnt := notRefed
  deletions := 0

def newSingleLogAsJsonEscape : RefCount := singleLog

def heapSingleLog : RefCount := { singleLog with refCnt := initRef }

def incRef (c : RefCount) : RefCount :=
  if c.refCnt ≠ notRefed then { c with refCnt := c.refCnt + 1 } else c

def decRef (c : RefCount) : RefCount :=
  if c.refCnt ≠ notRefed then
    if c.refCnt - 1 < 1 then
      { refCnt := c.refCnt - 1, deletions := c.deletions + 1 }
    else
      { c with refCnt := c.refCnt - 1 }
  else c

end RefCount

/-- Where a `WRITE_TARGET_OVERFLOW` comes from: `_log`, or the `write` of a
target that escapes its text or does not. -/
inductive OverflowSource where
  | log
  | write (escapes : Bool)
  deriving DecidableEq, Repr

def OverflowSource.refCount : OverflowSource → RefCount
  | .log => RefCount.singleLog
  | .write true => RefCount.newSingleLogAsJsonEscape
  | .write false => RefCount.singleLog

/-! ## The life of a message -/

/-- `writing` are the targets whose `overflowWriteOut` is being written, and
`queued` counts those in the queue of callbacks. -/
structure OverflowLife where
  count : RefCount
  command : Bool
  writing : List LogTarget
  queued : ℕ

inductive OverflowAct where
  | writeOverflow (t : LogTarget) (room : Bool)
  | finishCmd
  | writeOverflowCb (i : ℕ) (room : Bool)
  | libCallback

namespace OverflowLife

/-- The command is taken from the queue. -/
def start (count : RefCount) : OverflowLife where
  count := count
  command := true
  writing := []
  queued := 0

def holders (s : OverflowLife) : ℕ := s.writing.length + s.queued

/-- The references there should be. -/
def held (s : OverflowLife) : ℕ := s.holders + if s.command then 1 else 0

/-- An `overflowWriteOut` is deleted. -/
def release (s : OverflowLife) : OverflowLife :=
  { s with count := s.count.decRef }

/-- If the queue of callbacks has no room, the `writeCBData` takes the
`overflowWriteOut` with it. -/
def enqueue (s : OverflowLife) (room : Bool) : OverflowLife :=
  if room then { s with queued := s.queued + 1 } else s.release

def returnBuffer (s : OverflowLife) (t : LogTarget) (room : Bool) :
    OverflowLife :=
  if t.logCallbackSet then s.enqueue room else s.release

/-- `incRef` of the command and `writeOverflow` of the target.  A disabled
target does not take the message, and a callback target without a callback
neither queues nor deletes its `overflowWriteOut`. -/
def writeOverflow (s : OverflowLife) (t : LogTarget) (room : Bool) :
    OverflowLife :=
  let s : OverflowLife := { s with count := s.count.incRef }
  if t.disabled then s
  else
    match t.kind with
    | .tty => { s with writing := s.writing ++ [t] }
    | .file => s.returnBuffer t room
    | .callback =>
        if t.logCallbackSet then s.enqueue room else s

def step (s : OverflowLife) : OverflowAct → OverflowLife
  | .writeOverflow t room => if s.command then s.writeOverflow t room else s
  | .finishCmd =>
      if s.command then { s with command := false }.release else s
  | .writeOverflowCb i room =>
      match s.writing[i]? with
      | none => s
      | some t => { s with writing := s.writing.eraseIdx i }.returnBuffer t room
  | .libCallback =>
      if s.queued = 0 then s
      else { s with queued := s.queued - 1 }.release

/-! ## Released once -/

def Done (s : OverflowLife) : Prop := s.held = 0

instance (s : OverflowLife) : Decidable s.Done :=
  inferInstanceAs (Decidable (s.held = 0))

/-- What the count should be and when the message should be deleted. -/
structure Released (s : OverflowLife) : Prop where
  count : ¬s.Done → s.count.refCnt = s.held
  kept : ¬s.Done → s.count.deletions = 0
  done : s.Done → s.count.deletions = 1

/-! ## Messages whose references are not counted -/

def Unrefed (s : OverflowLife) : Prop := s.count = RefCount.singleLog

theorem Unrefed.release
    {s : OverflowLife} (h : s.Unrefed) : s.release.Unrefed := by
  unfold Unrefed at h ⊢
  rw [OverflowLife.release, h]
  rfl

theorem Unrefed.enqueue
    {s : OverflowLife} (h : s.Unrefed) (room : Bool) :
    (s.enqueue room).Unrefed := by
  cases room with
  | true => exact h
  | false => exact h.release

theorem Unrefed.returnBuffer
    {s : OverflowLife} (h : s.Unrefed) (t : LogTarget) (room : Bool) :
    (s.returnBuffer t room).Unrefed := by
  unfold OverflowLife.returnBuffer
  split
  · exact h.enqueue room
  · exact h.release

theorem Unrefed.writeOverflow
    {s : OverflowLife} (h : s.Unrefed) (t : LogTarget) (room : Bool) :
    (s.writeOverflow t room).Unrefed := by
  have hinc : Unrefed { s with count := s.count.incRef } := by
    unfold Unrefed at h ⊢
    rw [h]
    rfl
  unfold OverflowLife.writeOverflow
  dsimp only
  split
  · exact hinc
  · split
    · exact hinc
    · exact hinc.returnBuffer t room
    · split
      · exact hinc.enqueue room
      · exact hinc

theorem Unrefed.step
    {s : OverflowLife} (h : s.Unrefed) (a : OverflowAct) :
    (s.step a).Unrefed := by
  cases a with
  | writeOverflow t room =>
      simp only [OverflowLife.step]
      split
      · exact h.writeOverflow t room
      · exact h
  | finishCmd =>
      simp only [OverflowLife.step]
      split
      · exact Unrefed.release h
      · exact h
  | writeOverflowCb i room =>
      simp only [OverflowLife.step]
      split
      · exact h
      · rename_i t _
        have herase :
            Unrefed { s with writing := s.writing.eraseIdx i } := h
        exact herase.returnBuffer t room
  | libCallback =>
      simp only [OverflowLife.step]
      split
      · exact h
      · exact Unrefed.release h

theorem unrefed_start (source : OverflowSource) :
    (start source.refCount).Unrefed := by
  rcases source with _ | _ | _ <;> rfl

/-- A message whose references are not counted has never the count it should
have, and it is not deleted when its last holder is done. -/
theorem Unrefed.not_released
    {s : OverflowLife} (h : s.Unrefed) : ¬s.Released := by
  intro hreleased
  by_cases hdone : s.Done
  · have hdeleted := hreleased.done hdone
    rw [h] at hdeleted
    exact absurd hdeleted (by decide)
  · have hcount := hreleased.count hdone
    rw [h] at hcount
    have hneg : RefCount.singleLog.refCnt = -2 := rfl
    omega

/-- Whatever its targets do with it, in whatever order, a large message has at
no moment the count it should have, and it is never deleted. -/
theorem never_released (source : OverflowSource) (acts : List OverflowAct) :
    ¬(Run.final step (start source.refCount) acts).Released ∧
      (Run.final step (start source.refCount) acts).count.deletions = 0 := by
  have hunrefed : (Run.final step (start source.refCount) acts).Unrefed :=
    Run.final_preserves (I := Unrefed) (fun _ a h => h.step a) acts
      (unrefed_start source)
  refine ⟨hunrefed.not_released, ?_⟩
  rw [hunrefed]
  rfl

/-- A message of `_log` goes to the terminal.  The command and the write are
done, and nobody has deleted the message. -/
theorem large_message_leaked :
    let s := Run.final step (start (OverflowSource.refCount .log))
      [.writeOverflow (LogTarget.new .tty 2000 0 none 4) true, .finishCmd,
        .writeOverflowCb 0 true]
    s.Done ∧ s.count.deletions = 0 ∧ ¬s.Released := by
  have hdone : (Run.final step (start (OverflowSource.refCount .log))
      [.writeOverflow (LogTarget.new .tty 2000 0 none 4) true, .finishCmd,
        .writeOverflowCb 0 true]).Done := by decide
  refine ⟨hdone, rfl, ?_⟩
  intro hreleased
  exact absurd (hreleased.done hdone) (by decide)

/-! ## Messages whose references are counted -/

/-- The count of an object made by `heapSingleLog` with `n` references
left. -/
def counted (n : ℕ) : RefCount where
  refCnt := n
  deletions := if n = 0 then 1 else 0

theorem counted_incRef {n : ℕ} (hn : n ≠ 0) :
    (counted n).incRef = counted (n + 1) := by
  have hrefed : (n : ℤ) ≠ RefCount.notRefed := by
    unfold RefCount.notRefed
    omega
  simp [counted, RefCount.incRef, hrefed, hn]

theorem counted_decRef (n : ℕ) :
    (counted (n + 1)).decRef = counted n := by
  have hrefed : ((n + 1 : ℕ) : ℤ) ≠ RefCount.notRefed := by
    unfold RefCount.notRefed
    omega
  by_cases hn : n = 0
  · subst hn
    rfl
  · have hlarge : ¬((n + 1 : ℕ) : ℤ) - 1 < 1 := by omega
    unfold counted RefCount.decRef
    simp only [hrefed, ne_eq, not_false_eq_true, if_true, hlarge, if_false, hn]
    simp

def Counted (s : OverflowLife) : Prop := s.count = counted s.held

/-- One reference belongs to an `overflowWriteOut` that is about to be
deleted or handed over. -/
def Owed (s : OverflowLife) : Prop := s.count = counted (s.held + 1)

theorem Owed.release {s : OverflowLife} (h : s.Owed) : s.release.Counted := by
  unfold Owed at h
  unfold Counted OverflowLife.release
  rw [h, counted_decRef]
  rfl

theorem Owed.enqueue
    {s : OverflowLife} (h : s.Owed) (room : Bool) :
    (s.enqueue room).Counted := by
  cases room with
  | false => exact h.release
  | true =>
      have hheld : OverflowLife.held { s with queued := s.queued + 1 } =
          s.held + 1 := by
        simp only [held, holders]
        omega
      unfold Counted
      simp only [OverflowLife.enqueue, if_true, hheld]
      exact h

theorem Owed.returnBuffer
    {s : OverflowLife} (h : s.Owed) (t : LogTarget) (room : Bool) :
    (s.returnBuffer t room).Counted := by
  unfold OverflowLife.returnBuffer
  split
  · exact h.enqueue room
  · exact h.release

/-- The target takes the message and will finish with it. -/
def Takes (t : LogTarget) : Prop :=
  t.disabled = false ∧ (t.kind = .callback → t.logCallbackSet = true)

theorem Counted.writeOverflow
    {s : OverflowLife} (h : s.Counted) (hcommand : s.command = true)
    {t : LogTarget} (ht : Takes t) (room : Bool) :
    (s.writeOverflow t room).Counted := by
  have hheld : s.held ≠ 0 := by simp [held, hcommand]
  have howed : Owed { s with count := s.count.incRef } := by
    unfold Counted at h
    unfold Owed
    rw [h, counted_incRef hheld]
    rfl
  unfold OverflowLife.writeOverflow
  simp only [ht.1, Bool.false_eq_true, if_false]
  split
  · have hmore : OverflowLife.held { s with
        count := s.count.incRef, writing := s.writing ++ [t] } =
          s.held + 1 := by
      simp only [held, holders, List.length_append, List.length_singleton]
      omega
    unfold Counted
    rw [hmore]
    exact howed
  · exact howed.returnBuffer t room
  · rename_i hkind
    rw [if_pos (ht.2 hkind)]
    exact howed.enqueue room

theorem Counted.step
    {s : OverflowLife} (h : s.Counted) {a : OverflowAct}
    (ha : ∀ t room, a = .writeOverflow t room → Takes t) :
    (s.step a).Counted := by
  unfold Counted at h
  cases a with
  | writeOverflow t room =>
      simp only [OverflowLife.step]
      split
      · rename_i hcommand
        exact Counted.writeOverflow h hcommand (ha t room rfl) room
      · exact h
  | finishCmd =>
      simp only [OverflowLife.step]
      split
      · rename_i hcommand
        apply Owed.release
        unfold Owed
        rw [h]
        simp [held, holders, hcommand]
      · exact h
  | writeOverflowCb i room =>
      simp only [OverflowLife.step]
      split
      · exact h
      · rename_i t hget
        apply Owed.returnBuffer
        have hlt : i < s.writing.length :=
          (List.getElem?_eq_some_iff.mp hget).1
        have hheld : s.held = OverflowLife.held
            { s with writing := s.writing.eraseIdx i } + 1 := by
          simp only [held, holders, List.length_eraseIdx_of_lt hlt]
          omega
        exact h.trans (congrArg counted hheld)
  | libCallback =>
      simp only [OverflowLife.step]
      split
      · exact h
      · apply Owed.release
        have hheld : s.held = OverflowLife.held
            { s with queued := s.queued - 1 } + 1 := by
          simp only [held, holders]
          omega
        exact h.trans (congrArg counted hheld)

theorem Counted.released {s : OverflowLife} (h : s.Counted) : s.Released := by
  unfold Counted at h
  constructor <;> intro hdone <;> rw [h]
  · rfl
  · exact if_neg hdone
  · exact if_pos hdone

/-- What the counting is for: an object made by `heapSingleLog` and given only
to targets that take it would be deleted once, with its last holder. -/
theorem heapSingleLog_released
    {acts : List OverflowAct}
    (hacts : ∀ t room, OverflowAct.writeOverflow t room ∈ acts → Takes t) :
    (Run.final step (start RefCount.heapSingleLog) acts).Released := by
  have hcounted : ∀ s : OverflowLife, s.Counted →
      (Run.final step s acts).Counted := by
    induction acts with
    | nil => exact fun s h => h
    | cons a acts ih =>
        intro s h
        refine ih (fun t room ht => hacts t room (by simp [ht])) _ (h.step ?_)
        rintro t room rfl
        exact hacts t room (by simp)
  have hstart : (start RefCount.heapSingleLog).Counted := by
    unfold Counted
    decide
  exact (hcounted _ hstart).released

end OverflowLife

end GreaseLog
