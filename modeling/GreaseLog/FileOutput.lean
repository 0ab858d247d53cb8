import GreaseLog.FileRotation
import GreaseLog.LogTarget
import GreaseLog.Run

/-!
# Requests of a file target

A file target hands its banks to the system with `uv_fs_write` and asks for an
`fsync` after each flush.  Both requests complete later, in any order.
`submittedWrites` is there to keep a rotation from closing the file while a
write is under way: `check_and_maybe_rotate` counts it down whenever a write is
done and rotates when nothing is left.

An `fsync` is not counted, and `flushSync` counts a write down that it has not
counted up.  A handle stands for one opening of the file, not for the number
the system may give out again.  `busyCloses` is not in the source; it counts the
closes of a handle with a request under way.
-/

namespace GreaseLog

structure FileOutput where
  file : FileTarget
  submittedWrites : ℤ
  fileHandle : ℕ
  writes : List (ℕ × LogBuf)
  syncs : List ℕ
  opens : Bool
  busyCloses : ℕ
  failure : Option RotateFailure

namespace FileOutput

/-- The target after its file was opened. -/
def start (file : FileTarget) : FileOutput where
  file := file
  submittedWrites := 0
  fileHandle := 0
  writes := []
  syncs := []
  opens := true
  busyCloses := 0
  failure := none

/-- A write or an `fsync` on the handle has not completed. -/
def busy (o : FileOutput) : Bool :=
  o.writes.any (fun w => w.1 == o.fileHandle) ||
    o.syncs.any fun handle => handle == o.fileHandle

def close (o : FileOutput) : FileOutput :=
  if o.busy then { o with busyCloses := o.busyCloses + 1 } else o

/-- `current_size` is a `uint32_t`. -/
def addSize (o : FileOutput) (n : ℕ) : FileOutput :=
  { o with file := { o.file with
    currentSize := (o.file.currentSize + n) % 2 ^ 32 } }

/-- `uv_fs_open` after the rotation; if it fails, the old handle stays. -/
def reopen (o : FileOutput) (file : FileTarget) : FileOutput :=
  if o.opens then
    { o with file := file.openFile, fileHandle := o.fileHandle + 1 }
  else
    { o with file := file }

/-- One write is done, with so many bytes if they are not counted yet. -/
def countDown (o : FileOutput) (sz : Option ℕ) : FileOutput :=
  let o : FileOutput := { o with submittedWrites := o.submittedWrites - 1 }
  match sz with
  | some n => o.addSize n
  | none => o

/-- Nothing seems to be under way, and the file is too big. -/
def Rotates (o : FileOutput) : Prop :=
  o.submittedWrites < 1 ∧ o.file.filerotation.enabled = true ∧
    o.file.filerotation.maxFileSize < o.file.currentSize

instance (o : FileOutput) : Decidable o.Rotates :=
  inferInstanceAs (Decidable (_ ∧ _))

def rotateFile (o : FileOutput) : FileOutput :=
  match o.close.file.rotateFiles with
  | .ok file => o.close.reopen file
  | .error failure => { o.close with failure := some failure }

def checkAndMaybeRotate (o : FileOutput) (sz : Option ℕ) : FileOutput :=
  if (o.countDown sz).Rotates then (o.countDown sz).rotateFile
  else o.countDown sz

/-! ## Operations -/

def flush (o : FileOutput) (b : LogBuf) : FileOutput :=
  let o := o.addSize b.handleLen
  { o with
    submittedWrites := o.submittedWrites + 1
    writes := o.writes ++ [(o.fileHandle, b)] }

def sync (o : FileOutput) : FileOutput :=
  { o with syncs := o.syncs ++ [o.fileHandle] }

/-- The write is done when `flushSync` comes to `check_and_maybe_rotate`. -/
def flushSync (o : FileOutput) : FileOutput := o.checkAndMaybeRotate none

/-- `got` is the answer of `writev`, with `none` for an error. -/
def writeAsyncOverflow (o : FileOutput) (got : Option ℕ) : FileOutput :=
  let o : FileOutput := { o with submittedWrites := o.submittedWrites + 1 }
  match got with
  | none => { o with submittedWrites := o.submittedWrites - 1 }
  | some n => o.checkAndMaybeRotate (some n)

/-- `write_cb` for the write at this position. -/
def writeCb (o : FileOutput) (i : ℕ) : FileOutput :=
  match o.writes[i]? with
  | none => o
  | some _ => { o with writes := o.writes.eraseIdx i }.checkAndMaybeRotate none

def syncCb (o : FileOutput) (i : ℕ) : FileOutput :=
  { o with syncs := o.syncs.eraseIdx i }

end FileOutput

/-- The operations of a file target and the answers of the system.  Anything
may happen to the files between them. -/
inductive FileAct where
  | flush (b : LogBuf)
  | sync
  | flushSync
  | writeAsyncOverflow (got : Option ℕ)
  | writeCb (i : ℕ)
  | syncCb (i : ℕ)
  | system (change : Disk → Disk) (opens : Bool)

namespace FileOutput

/-- A target which does not come back from a rotation does nothing more. -/
def step (o : FileOutput) (a : FileAct) : FileOutput :=
  if o.failure.isSome then o
  else
    match a with
    | .flush b => o.flush b
    | .sync => o.sync
    | .flushSync => o.flushSync
    | .writeAsyncOverflow got => o.writeAsyncOverflow got
    | .writeCb i => o.writeCb i
    | .syncCb i => o.syncCb i
    | .system change opens =>
        { o with
          file := { o.file with disk := change o.file.disk }
          opens := opens }

/-! ## Closing the file -/

/-- The count is the number of writes under way, and no file was closed with a
request under way. -/
structure Sound (o : FileOutput) : Prop where
  count : o.submittedWrites = o.writes.length
  nonneg : 0 ≤ o.submittedWrites
  closes : o.busyCloses = 0

/-- The acts which keep the promise: there is no synchronous flush, and no
`fsync` is under way when the last write is done and the file is too big. -/
def Keeps (o : FileOutput) (a : FileAct) : Prop :=
  o.failure = none →
    match a with
    | .flushSync => False
    | .writeAsyncOverflow (some n) =>
        o.writes = [] → o.file.filerotation.enabled = true →
          o.file.filerotation.maxFileSize <
              (o.file.currentSize + n) % 2 ^ 32 →
            o.fileHandle ∉ o.syncs
    | .writeCb i =>
        i = 0 → o.writes.length = 1 → o.file.filerotation.enabled = true →
          o.file.filerotation.maxFileSize < o.file.currentSize →
            o.fileHandle ∉ o.syncs
    | _ => True

theorem sound_start (file : FileTarget) : (start file).Sound :=
  ⟨rfl, le_rfl, rfl⟩

/-- What `check_and_maybe_rotate` does to the requests. -/
structure Checked (o : FileOutput) (sz : Option ℕ) (o' : FileOutput) :
    Prop where
  count : o'.submittedWrites = o.submittedWrites - 1
  writes : o'.writes = o.writes
  closes : o'.busyCloses = o.busyCloses +
    if (o.countDown sz).Rotates ∧ o.busy then 1 else 0

theorem countDown_frame (o : FileOutput) (sz : Option ℕ) :
    (o.countDown sz).submittedWrites = o.submittedWrites - 1 ∧
      (o.countDown sz).writes = o.writes ∧
      (o.countDown sz).busyCloses = o.busyCloses ∧
      (o.countDown sz).busy = o.busy := by
  cases sz <;> exact ⟨rfl, rfl, rfl, rfl⟩

theorem rotateFile_frame (o : FileOutput) :
    o.rotateFile.submittedWrites = o.submittedWrites ∧
      o.rotateFile.writes = o.writes ∧
      o.rotateFile.busyCloses = o.busyCloses + if o.busy then 1 else 0 := by
  have hclose : o.close.submittedWrites = o.submittedWrites ∧
      o.close.writes = o.writes ∧
      o.close.busyCloses = o.busyCloses + if o.busy then 1 else 0 := by
    unfold close
    split <;> exact ⟨rfl, rfl, rfl⟩
  unfold rotateFile reopen
  split
  · split <;> exact hclose
  · exact hclose

theorem checked_checkAndMaybeRotate (o : FileOutput) (sz : Option ℕ) :
    o.Checked sz (o.checkAndMaybeRotate sz) := by
  rcases o.countDown_frame sz with ⟨hcount, hwrites, hcloses, hbusy⟩
  rcases (o.countDown sz).rotateFile_frame with ⟨hcount', hwrites', hcloses'⟩
  unfold checkAndMaybeRotate
  split
  · rename_i hrotates
    refine ⟨hcount'.trans hcount, hwrites'.trans hwrites, ?_⟩
    rw [hcloses', hcloses, hbusy]
    simp [hrotates]
  · rename_i hstays
    refine ⟨hcount, hwrites, ?_⟩
    rw [hcloses]
    simp [hstays]

theorem busy_of_no_writes {o : FileOutput} (hwrites : o.writes = []) :
    o.busy = true ↔ o.fileHandle ∈ o.syncs := by
  simp [busy, hwrites, List.any_eq_true]

/-- When one of the writes that are counted is done, the file is closed with a
request under way exactly if an `fsync` is left. -/
theorem sound_checkAndMaybeRotate_iff
    {o : FileOutput} {sz : Option ℕ}
    (hcount : o.submittedWrites = o.writes.length + 1)
    (hcloses : o.busyCloses = 0) :
    (o.checkAndMaybeRotate sz).Sound ↔
      (o.writes = [] → o.file.filerotation.enabled = true →
        o.file.filerotation.maxFileSize < (o.countDown sz).file.currentSize →
          o.fileHandle ∉ o.syncs) := by
  have hchecked := o.checked_checkAndMaybeRotate sz
  have hopts : (o.countDown sz).file.filerotation = o.file.filerotation := by
    cases sz <;> rfl
  have hrotates : (o.countDown sz).Rotates ↔ o.writes = [] ∧
      o.file.filerotation.enabled = true ∧
      o.file.filerotation.maxFileSize <
        (o.countDown sz).file.currentSize := by
    unfold Rotates
    rw [hopts, (o.countDown_frame sz).1, ← List.length_eq_zero_iff]
    constructor
    · rintro ⟨hlast, hrest⟩
      exact ⟨by omega, hrest⟩
    · rintro ⟨hlast, hrest⟩
      exact ⟨by omega, hrest⟩
  have hsound : (o.checkAndMaybeRotate sz).Sound ↔
      ¬((o.countDown sz).Rotates ∧ o.busy) := by
    constructor
    · intro hsound hbad
      have hzero := hsound.closes
      rw [hchecked.closes, if_pos hbad] at hzero
      omega
    · intro hgood
      refine ⟨?_, ?_, ?_⟩
      · rw [hchecked.count, hchecked.writes]
        omega
      · rw [hchecked.count]
        omega
      · rw [hchecked.closes, if_neg hgood, hcloses]
  rw [hsound, hrotates]
  constructor
  · intro hgood hwrites henabled hbig hmem
    exact hgood ⟨⟨hwrites, henabled, hbig⟩, (busy_of_no_writes hwrites).mpr hmem⟩
  · rintro hgood ⟨⟨hwrites, henabled, hbig⟩, hbusy⟩
    exact hgood hwrites henabled hbig ((busy_of_no_writes hwrites).mp hbusy)

theorem Sound.writeCb_iff {o : FileOutput} (h : o.Sound) (i : ℕ) :
    (o.writeCb i).Sound ↔
      (i = 0 → o.writes.length = 1 → o.file.filerotation.enabled = true →
        o.file.filerotation.maxFileSize < o.file.currentSize →
          o.fileHandle ∉ o.syncs) := by
  have hcount := h.count
  unfold writeCb
  cases hget : o.writes[i]? with
  | none =>
      refine iff_of_true h ?_
      intro hzero hone
      have hlength := List.getElem?_eq_none_iff.mp hget
      omega
  | some w =>
      rcases List.getElem?_eq_some_iff.mp hget with ⟨hi, -⟩
      have hlength := List.length_eraseIdx_of_lt hi
      have hlast : o.writes.eraseIdx i = [] ↔
          i = 0 ∧ o.writes.length = 1 := by
        rw [← List.length_eq_zero_iff]
        omega
      have hiff : ({ o with
          writes := o.writes.eraseIdx i }.checkAndMaybeRotate
            none).Sound ↔ _ :=
        sound_checkAndMaybeRotate_iff (by dsimp only; omega) h.closes
      dsimp only
      rw [hiff]
      dsimp only
      rw [hlast, and_imp]
      rfl

/-- One act keeps the count and closes no busy file exactly if it is one of
those above. -/
theorem Sound.step_iff {o : FileOutput} (h : o.Sound) (a : FileAct) :
    (o.step a).Sound ↔ o.Keeps a := by
  have hcount := h.count
  have hnonneg := h.nonneg
  have hcloses := h.closes
  unfold step Keeps
  cases hfailure : o.failure with
  | some failure => simpa using h
  | none =>
      simp only [Option.isSome_none, Bool.false_eq_true, if_false,
        forall_const]
      cases a with
      | flush b =>
          refine iff_of_true ⟨?_, ?_, hcloses⟩ trivial
          · simp [flush, addSize, hcount]
          · simp only [flush, addSize]
            omega
      | sync => exact iff_of_true ⟨hcount, hnonneg, hcloses⟩ trivial
      | flushSync =>
          refine iff_of_false ?_ not_false
          intro hsound
          have hchecked := o.checked_checkAndMaybeRotate none
          have hbad := hsound.count
          unfold flushSync at hbad
          rw [hchecked.count, hchecked.writes] at hbad
          omega
      | writeAsyncOverflow got =>
          cases got with
          | none =>
              refine iff_of_true ⟨?_, ?_, hcloses⟩ trivial
              · simp [writeAsyncOverflow, hcount]
              · simp only [writeAsyncOverflow]
                omega
          | some n =>
              exact sound_checkAndMaybeRotate_iff
                (by dsimp only; omega) hcloses
      | writeCb i => exact h.writeCb_iff i
      | syncCb i => exact iff_of_true ⟨hcount, hnonneg, hcloses⟩ trivial
      | system change opens =>
          exact iff_of_true ⟨hcount, hnonneg, hcloses⟩ trivial

/-- Over any interleaving of operations and completions, the count is right and
no busy file is closed exactly if every act is one of those above. -/
theorem closes_idle_iff (file : FileTarget) (acts : List FileAct) :
    (∀ n, (Run.final step (start file) (acts.take n)).Sound) ↔
      Run.Meets step Keeps (start file) acts := by
  suffices hruns : ∀ o : FileOutput, o.Sound →
      ((∀ n, (Run.final step o (acts.take n)).Sound) ↔
        Run.Meets step Keeps o acts) from hruns _ (sound_start file)
  induction acts with
  | nil =>
      intro o hsound
      exact iff_of_true (fun n => by simpa using hsound) trivial
  | cons a acts ih =>
      intro o hsound
      constructor
      · intro hall
        have hnext : (o.step a).Sound := hall 1
        refine ⟨(hsound.step_iff a).mp hnext, (ih _ hnext).mp ?_⟩
        exact fun n => hall (n + 1)
      · rintro ⟨hkeeps, hrest⟩ n
        have hnext := (hsound.step_iff a).mpr hkeeps
        cases n with
        | zero => exact hsound
        | succ n => exact (ih _ hnext).mpr hrest n

/-- A file target that rotates after a hundred bytes. -/
def smallFiles : FileTarget :=
  (FileTarget.new [108] ⟨true, false, 3, 0, 100⟩ ⟨fun _ => none, []⟩).openFile

def largeBank : LogBuf :=
  { LogBuf.new 2000 0 none with data := [⟨0, List.replicate 101 97⟩] }

/-- A synchronous flush takes the count below zero, and a flush whose write
completes before its `fsync` closes the file under it. -/
theorem closed_under_fsync :
    (Run.final step (start smallFiles) [.flushSync]).submittedWrites = -1 ∧
      (Run.final step (start smallFiles)
        [.flush largeBank, .sync, .writeCb 0]).busyCloses = 1 := by
  decide +kernel

end FileOutput

/-! ## Options given through the library -/

structure GreaseLibTargetFileOpts where
  enabledFlags : UInt32
  maxFiles : UInt32
  maxFileSize : UInt32
  maxTotalSize : UInt64
  deriving DecidableEq, Repr

namespace GreaseLibTargetFileOpts

def setMaxFiles : UInt32 := 0x40000000
def setMaxFileSize : UInt32 := 0x80000000
def setMaxTotalSize : UInt32 := 0x01000000
def setRotateOnStart : UInt32 := 0x02000000
def setRotate : UInt32 := 0x04000000

def has (opts : GreaseLibTargetFileOpts) (flag : UInt32) : Bool :=
  (opts.enabledFlags &&& flag) != 0

/-- `rotateOpts` of `GreaseLib_addTarget` and `GreaseLib_modifyDefaultTarget`.
They fill in a default `rotationOpts`, for which rotation is not enabled. -/
def rotateOpts (opts : GreaseLibTargetFileOpts) : RotationOpts where
  enabled := false
  rotateOnStart := opts.has setRotate && opts.has setRotateOnStart
  maxFiles :=
    if opts.has setRotate && opts.has setMaxFiles then opts.maxFiles.toNat
    else 0
  maxTotalSize :=
    if opts.has setRotate && opts.has setMaxTotalSize then
      opts.maxTotalSize.toNat
    else 0
  maxFileSize :=
    if opts.has setRotate && opts.has setMaxFileSize then
      opts.maxFileSize.toNat
    else 0

end GreaseLibTargetFileOpts

namespace FileOutput

/-- The file target a call of the library makes. -/
def ofLib (opts : GreaseLibTargetFileOpts) (path : Path) (disk : Disk) :
    Except RotateFailure FileOutput :=
  (FileTarget.new path opts.rotateOpts disk).postCstor.map start

end FileOutput

namespace FileAct

/-- Asynchronous flushes, with or without the `fsync`, and what completes. -/
def isAsync : FileAct → Bool
  | .flush _ | .sync | .writeCb _ | .syncCb _ => true
  | _ => false

def flushed : FileAct → ℕ
  | .flush b => b.handleLen
  | _ => 0

end FileAct

namespace FileOutput

/-- A target that does not rotate only adds up what it flushes. -/
structure Adds (o : FileOutput) (total : ℕ) : Prop where
  alive : o.failure = none
  disabled : o.file.filerotation.enabled = false
  size : o.file.currentSize = total % 2 ^ 32

theorem Adds.checkAndMaybeRotate
    {o : FileOutput} {total : ℕ} (h : o.Adds total) :
    (o.checkAndMaybeRotate none).Adds total := by
  have hstays : ¬(o.countDown none).Rotates := by
    rintro ⟨-, henabled, -⟩
    have hdisabled : (o.countDown none).file.filerotation.enabled = false :=
      h.disabled
    rw [hdisabled] at henabled
    simp at henabled
  unfold FileOutput.checkAndMaybeRotate
  rw [if_neg hstays]
  exact ⟨h.alive, h.disabled, h.size⟩

theorem Adds.step
    {o : FileOutput} {total : ℕ} (h : o.Adds total) {a : FileAct}
    (hasync : a.isAsync = true) :
    (o.step a).Adds (total + a.flushed) := by
  unfold FileOutput.step
  rw [h.alive]
  simp only [Option.isSome_none, Bool.false_eq_true, if_false]
  cases a with
  | flush b =>
      refine ⟨h.alive, h.disabled, ?_⟩
      simp only [flush, addSize, FileAct.flushed, h.size, Nat.mod_add_mod]
  | sync => exact ⟨h.alive, h.disabled, h.size⟩
  | writeCb i =>
      unfold writeCb
      dsimp only
      split
      · exact h
      · have herased : { o with
            writes := o.writes.eraseIdx i }.Adds total :=
          ⟨h.alive, h.disabled, h.size⟩
        exact herased.checkAndMaybeRotate
  | syncCb i => exact ⟨h.alive, h.disabled, h.size⟩
  | flushSync => simp [FileAct.isAsync] at hasync
  | writeAsyncOverflow got => simp [FileAct.isAsync] at hasync
  | system change opens => simp [FileAct.isAsync] at hasync

theorem Adds.final
    {o : FileOutput} {total : ℕ} (h : o.Adds total) {acts : List FileAct}
    (hasync : ∀ a ∈ acts, a.isAsync = true) :
    (Run.final FileOutput.step o acts).Adds
      (total + (acts.map FileAct.flushed).sum) := by
  induction acts generalizing o total with
  | nil => exact h
  | cons a acts ih =>
      have hnext := h.step (hasync a List.mem_cons_self)
      have hrest := ih hnext fun b hb => hasync b (List.mem_cons_of_mem _ hb)
      rw [List.map_cons, List.sum_cons, ← Nat.add_assoc]
      exact hrest

/-- As rotation is not enabled, the constructor only opens the file. -/
theorem ofLib_eq
    (opts : GreaseLibTargetFileOpts) (path : Path) (disk : Disk) :
    ofLib opts path disk =
      .ok (start (FileTarget.new path opts.rotateOpts disk).openFile) := by
  have hdisabled : ¬(FileTarget.new path opts.rotateOpts
      disk).filerotation.enabled = true := Bool.false_ne_true
  unfold ofLib FileTarget.postCstor
  rw [if_neg hdisabled]
  rfl

theorem adds_ofLib
    {opts : GreaseLibTargetFileOpts} {path : Path} {disk : Disk}
    {o : FileOutput} (hmade : ofLib opts path disk = .ok o) :
    o.Adds 0 ∧ o.file.filerotation = opts.rotateOpts := by
  rw [ofLib_eq] at hmade
  cases hmade
  unfold FileTarget.openFile
  split <;> exact ⟨⟨rfl, rfl, rfl⟩, rfl⟩

/-- This completion is a real one and leaves no write under way. -/
structure LastDone (o : FileOutput) (before : List FileAct) (i : ℕ) :
    Prop where
  pending : i < (Run.final step o before).writes.length
  left : (Run.final step o (before ++ [.writeCb i])).writes = []

/-- The limit for the size of a file reaches the target.  Whenever a completion
leaves no write under way, the size is within the limit exactly if all the
bytes flushed since the start are: there is no rotation to set it back. -/
theorem currentSize_le_iff
    {opts : GreaseLibTargetFileOpts} {path : Path} {disk : Disk}
    {o : FileOutput} (hmade : ofLib opts path disk = .ok o)
    (hrotate : opts.has GreaseLibTargetFileOpts.setRotate = true)
    (hsize : opts.has GreaseLibTargetFileOpts.setMaxFileSize = true)
    {acts : List FileAct} (hasync : ∀ a ∈ acts, a.isAsync = true) :
    o.file.filerotation.maxFileSize = opts.maxFileSize.toNat ∧
      ((∀ before i after, acts = before ++ .writeCb i :: after →
          o.LastDone before i →
            (Run.final step o (before ++ [.writeCb i])).file.currentSize ≤
              opts.maxFileSize.toNat) ↔
        ∀ before i after, acts = before ++ .writeCb i :: after →
          o.LastDone before i →
            (before.map FileAct.flushed).sum % 2 ^ 32 ≤
              opts.maxFileSize.toNat) := by
  have hlimit : opts.rotateOpts.maxFileSize = opts.maxFileSize.toNat := by
    simp [GreaseLibTargetFileOpts.rotateOpts, hrotate, hsize]
  rcases adds_ofLib hmade with ⟨hstart, hopts⟩
  have hcurrent : ∀ before i after, acts = before ++ .writeCb i :: after →
      (Run.final step o (before ++ [.writeCb i])).file.currentSize =
        (before.map FileAct.flushed).sum % 2 ^ 32 := by
    intro before i after hacts
    have hbefore : ∀ a ∈ before ++ [FileAct.writeCb i], a.isAsync = true := by
      intro a ha
      apply hasync
      rw [hacts]
      simp only [List.mem_append, List.mem_cons, List.not_mem_nil,
        or_false] at ha ⊢
      exact ha.imp_right Or.inl
    have hadds := (hstart.final hbefore).size
    rw [hadds]
    simp [FileAct.flushed]
  refine ⟨by rw [hopts, hlimit], ?_⟩
  constructor
  · intro hall before i after hacts hdone
    rw [← hcurrent before i after hacts]
    exact hall before i after hacts hdone
  · intro hall before i after hacts hdone
    rw [hcurrent before i after hacts]
    exact hall before i after hacts hdone

end FileOutput

/-- Rotation with files of at most a hundred bytes. -/
def hundredBytes : GreaseLibTargetFileOpts where
  enabledFlags := GreaseLibTargetFileOpts.setRotate |||
    GreaseLibTargetFileOpts.setMaxFileSize
  maxFiles := 0
  maxFileSize := 100
  maxTotalSize := 0

namespace FileOutput

def noDisk : Disk := ⟨fun _ => none, []⟩

def libOutput : FileOutput :=
  start (FileTarget.new [108] hundredBytes.rotateOpts noDisk).openFile

def smallBank : LogBuf :=
  { LogBuf.new 2000 0 none with data := [⟨0, List.replicate 50 97⟩] }

theorem currentSize_le_iff_small :
    ofLib hundredBytes [108] noDisk = .ok libOutput ∧
      ∀ before i after, [FileAct.flush smallBank, .writeCb 0] =
        before ++ .writeCb i :: after → libOutput.LastDone before i →
          (Run.final step libOutput
            (before ++ [.writeCb i])).file.currentSize ≤ 100 := by
  have hmade : ofLib hundredBytes [108] noDisk = .ok libOutput :=
    ofLib_eq hundredBytes [108] noDisk
  refine ⟨hmade,
    (currentSize_le_iff hmade (by decide) (by decide) (by decide)).2.mpr ?_⟩
  intro before i after hacts _
  have hsum := congrArg (fun acts => (acts.map FileAct.flushed).sum) hacts
  have htotal : (([FileAct.flush smallBank, .writeCb 0].map
      FileAct.flushed).sum) = 50 := by decide +kernel
  rw [htotal] at hsum
  simp only [List.map_append, List.sum_append] at hsum
  have hle : (before.map FileAct.flushed).sum ≤ 50 := by omega
  exact (Nat.mod_le _ _).trans (hle.trans (by decide))

/-- The limit of a hundred bytes is passed by a single bank, and the file goes
on growing. -/
theorem size_past_limit :
    ofLib hundredBytes [108] noDisk = .ok libOutput ∧
      hundredBytes.has GreaseLibTargetFileOpts.setRotate = true ∧
      hundredBytes.has GreaseLibTargetFileOpts.setMaxFileSize = true ∧
      libOutput.LastDone [.flush largeBank] 0 ∧
      (Run.final step libOutput
        [.flush largeBank, .writeCb 0]).file.currentSize = 101 := by
  refine ⟨ofLib_eq hundredBytes [108] noDisk, by decide, by decide,
    ⟨by decide +kernel, ?_⟩, by decide +kernel⟩
  rfl

end FileOutput

end GreaseLog
