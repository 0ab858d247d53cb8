import GreaseLog.FileOutput
import GreaseLog.RotationNames

/-!
# The limits of a rotation

`rotationOpts` has two limits, for the size of a file and for all files
together, and zero is to mean that there is none.  The constructor respects
that for the first limit and `check_and_maybe_rotate` does not; the second
limit is compared as it is, and only in the constructor.

Here every call of `rotate_files` is listed with the comparisons that led to
it.
-/

namespace GreaseLog

/-! ## Calls of `rotate_files` -/

inductive Limit where
  | maxFileSize
  | maxTotalSize
  deriving DecidableEq, Repr

def RotationOpts.limit (opts : RotationOpts) : Limit → ℕ
  | .maxFileSize => opts.maxFileSize
  | .maxTotalSize => opts.maxTotalSize

namespace FileTarget

/-- The file at `myPath` is larger than its limit. -/
def FileTooBig (t : FileTarget) : Prop :=
  t.filerotation.maxFileSize ≠ 0 ∧
    (t.disk.files t.myPath).any fun file =>
      t.filerotation.maxFileSize < file.length

instance (t : FileTarget) : Decidable t.FileTooBig :=
  inferInstanceAs (Decidable (_ ∧ _))

/-- The comparisons of `check_files` that hold, for the target it leaves. -/
def startCauses (t : FileTarget) : List Limit :=
  (if t.FileTooBig then [.maxFileSize] else []) ++
    if t.filerotation.maxTotalSize < t.allFilesSize then [.maxTotalSize] else []

/-- The call of `rotate_files` in `post_cstor`. -/
def startRotation (t : FileTarget) : Option (List Limit) :=
  if t.filerotation.enabled then
    match t.checkFiles with
    | .ok (found, needsRotate) =>
        if needsRotate || found.filerotation.rotateOnStart then
          some found.startCauses
        else none
    | .error _ => none
  else none

end FileTarget

namespace FileOutput

/-- The call of `check_and_maybe_rotate` an act makes. -/
def check (o : FileOutput) : FileAct → Option (FileOutput × Option ℕ)
  | .flushSync => some (o, none)
  | .writeAsyncOverflow (some n) =>
      some ({ o with submittedWrites := o.submittedWrites + 1 }, some n)
  | .writeCb i =>
      if i < o.writes.length then
        some ({ o with writes := o.writes.eraseIdx i }, none)
      else none
  | _ => none

/-- The call of `rotate_files` an act leads to.  The only comparison on the way
is the one with the size of the file. -/
def rotation (o : FileOutput) (a : FileAct) : Option (List Limit) :=
  if o.failure.isSome then none
  else
    match o.check a with
    | some (o', sz) =>
        if (o'.countDown sz).Rotates then some [.maxFileSize] else none
    | none => none

def runRotations : FileOutput → List FileAct → List (List Limit)
  | _, [] => []
  | o, a :: acts => (o.rotation a).toList ++ runRotations (o.step a) acts

end FileOutput

/-- All calls of `rotate_files`, from the constructor on. -/
def rotations (path : Path) (opts : RotationOpts) (disk : Disk)
    (acts : List FileAct) : List (List Limit) :=
  let t := FileTarget.new path opts disk
  t.startRotation.toList ++
    match t.postCstor with
    | .ok t => (FileOutput.start t).runRotations acts
    | .error _ => []

/-! ## The list is complete -/

theorem FileTarget.postCstor_eq
    {t found : FileTarget} {needsRotate : Bool}
    (henabled : t.filerotation.enabled = true)
    (hcheck : t.checkFiles = .ok (found, needsRotate)) :
    t.postCstor =
      match t.startRotation with
      | some _ => found.rotateFiles.map openFile
      | none => .ok found.openFile := by
  unfold postCstor startRotation
  rw [if_pos henabled, if_pos henabled, hcheck]
  simp only [bind, Except.bind]
  cases needsRotate || found.filerotation.rotateOnStart with
  | true =>
      simp only [if_true]
      cases found.rotateFiles <;> rfl
  | false => rfl

namespace FileOutput

theorem step_of_check
    {o o' : FileOutput} {a : FileAct} {sz : Option ℕ}
    (halive : o.failure = none) (hcheck : o.check a = some (o', sz)) :
    o.step a = o'.checkAndMaybeRotate sz := by
  unfold step
  rw [halive]
  simp only [Option.isSome_none, Bool.false_eq_true, if_false]
  cases a with
  | flush b => simp [check] at hcheck
  | sync => simp [check] at hcheck
  | flushSync =>
      rcases hcheck with ⟨⟩
      rfl
  | writeAsyncOverflow got =>
      cases got with
      | none => simp [check] at hcheck
      | some n =>
          rcases hcheck with ⟨⟩
          rfl
  | writeCb i =>
      simp only [check] at hcheck
      split at hcheck
      · rename_i hi
        rcases hcheck with ⟨⟩
        simp only [writeCb, List.getElem?_eq_getElem hi]
      · simp at hcheck
  | syncCb i => simp [check] at hcheck
  | system change opens => simp [check] at hcheck

theorem file_of_check
    {o o' : FileOutput} {a : FileAct} {sz : Option ℕ}
    (hcheck : o.check a = some (o', sz)) :
    o'.file = o.file ∧ o'.fileHandle = o.fileHandle := by
  unfold check at hcheck
  split at hcheck
  · rcases hcheck with ⟨⟩
    exact ⟨rfl, rfl⟩
  · rcases hcheck with ⟨⟩
    exact ⟨rfl, rfl⟩
  · split at hcheck
    · rcases hcheck with ⟨⟩
      exact ⟨rfl, rfl⟩
    · simp at hcheck
  · simp at hcheck

theorem step_of_failure
    {o : FileOutput} (hfailure : o.failure ≠ none) (a : FileAct) :
    o.step a = o :=
  if_pos (Option.isSome_iff_ne_none.mpr hfailure)

/-- An act that makes no check leaves the rotated files and the handle. -/
theorem step_of_no_check
    {o : FileOutput} {a : FileAct} (hcheck : o.check a = none) :
    (o.step a).file.filerotation = o.file.filerotation ∧
      (o.step a).file.rotatedFiles = o.file.rotatedFiles ∧
      (o.step a).fileHandle = o.fileHandle := by
  unfold step
  split
  · exact ⟨rfl, rfl, rfl⟩
  · cases a with
    | flush b => exact ⟨rfl, rfl, rfl⟩
    | sync => exact ⟨rfl, rfl, rfl⟩
    | flushSync => simp [check] at hcheck
    | writeAsyncOverflow got =>
        cases got with
        | none => exact ⟨rfl, rfl, rfl⟩
        | some n => simp [check] at hcheck
    | writeCb i =>
        simp only [check] at hcheck
        split at hcheck
        · simp at hcheck
        · rename_i hi
          simp [writeCb, List.getElem?_eq_none (not_lt.mp hi)]
    | syncCb i => exact ⟨rfl, rfl, rfl⟩
    | system change opens => exact ⟨rfl, rfl, rfl⟩

/-- An act is listed exactly if it rotates. -/
theorem step_of_rotation
    {o : FileOutput} {a : FileAct} {causes : List Limit}
    (hrotation : o.rotation a = some causes) :
    ∃ o' sz, o.check a = some (o', sz) ∧
      o.step a = (o'.countDown sz).rotateFile := by
  unfold rotation at hrotation
  split at hrotation
  · simp at hrotation
  · rename_i halive
    rw [Option.not_isSome_iff_eq_none] at halive
    split at hrotation
    · rename_i o' sz hcheck
      split at hrotation
      · rename_i hrotates
        refine ⟨o', sz, hcheck, ?_⟩
        rw [step_of_check halive hcheck, checkAndMaybeRotate, if_pos hrotates]
      · simp at hrotation
    · simp at hrotation

theorem step_of_no_rotation
    {o : FileOutput} {a : FileAct} (hrotation : o.rotation a = none) :
    (o.step a).file.rotatedFiles = o.file.rotatedFiles ∧
      (o.step a).fileHandle = o.fileHandle := by
  by_cases halive : o.failure = none
  · cases hcheck : o.check a with
    | some called =>
        obtain ⟨o', sz⟩ := called
        unfold rotation at hrotation
        rw [halive, hcheck] at hrotation
        simp only [Option.isSome_none, Bool.false_eq_true, if_false] at hrotation
        split at hrotation
        · simp at hrotation
        · rename_i hstays
          obtain ⟨hfile, hhandle⟩ := file_of_check hcheck
          rw [step_of_check halive hcheck, checkAndMaybeRotate, if_neg hstays,
            ← hfile, ← hhandle]
          cases sz <;> exact ⟨rfl, rfl⟩
    | none => exact (step_of_no_check hcheck).2
  · rw [step_of_failure halive]
    exact ⟨rfl, rfl⟩

/-- A run of which nothing is listed has the rotated files and the handle it
began with. -/
theorem final_of_no_rotations
    {o : FileOutput} {acts : List FileAct} (hnone : o.runRotations acts = []) :
    (Run.final step o acts).file.rotatedFiles = o.file.rotatedFiles ∧
      (Run.final step o acts).fileHandle = o.fileHandle := by
  induction acts generalizing o with
  | nil => exact ⟨rfl, rfl⟩
  | cons a acts ih =>
      rw [runRotations, List.append_eq_nil_iff, Option.toList_eq_nil_iff] at hnone
      have hstep := step_of_no_rotation hnone.1
      have hrest := ih hnone.2
      exact ⟨hrest.1.trans hstep.1, hrest.2.trans hstep.2⟩

end FileOutput

/-! ## Options -/

theorem FileTarget.rotateFiles_filerotation
    {t t' : FileTarget} (hrotate : t.rotateFiles = .ok t') :
    t'.filerotation = t.filerotation := by
  unfold rotateFiles at hrotate
  simp only [bind, Except.bind] at hrotate
  split at hrotate
  · simp at hrotate
  · split at hrotate
    · rcases hrotate with ⟨⟩
      rfl
    · split at hrotate
      · simp at hrotate
      · rcases hrotate with ⟨⟩
        rfl

theorem FileTarget.openFile_filerotation (t : FileTarget) :
    t.openFile.filerotation = t.filerotation := by
  unfold openFile
  split <;> rfl

namespace FileOutput

theorem rotateFile_filerotation (o : FileOutput) :
    o.rotateFile.file.filerotation = o.file.filerotation := by
  have hclose : o.close.file = o.file := by
    unfold close
    split <;> rfl
  unfold rotateFile
  rw [hclose]
  split
  · rename_i file hrotate
    have hopts := FileTarget.rotateFiles_filerotation hrotate
    unfold reopen
    split
    · exact (FileTarget.openFile_filerotation file).trans hopts
    · exact hopts
  · rw [hclose]

theorem checkAndMaybeRotate_filerotation (o : FileOutput) (sz : Option ℕ) :
    (o.checkAndMaybeRotate sz).file.filerotation = o.file.filerotation := by
  have hcount : (o.countDown sz).file.filerotation = o.file.filerotation := by
    cases sz <;> rfl
  unfold checkAndMaybeRotate
  split
  · exact (rotateFile_filerotation _).trans hcount
  · exact hcount

theorem step_filerotation (o : FileOutput) (a : FileAct) :
    (o.step a).file.filerotation = o.file.filerotation := by
  by_cases halive : o.failure = none
  · cases hcheck : o.check a with
    | some called =>
        obtain ⟨o', sz⟩ := called
        rw [step_of_check halive hcheck, checkAndMaybeRotate_filerotation,
          (file_of_check hcheck).1]
    | none => exact (step_of_no_check hcheck).1
  · rw [step_of_failure halive]

end FileOutput

/-! ## The constructor -/

/-- The size of the file and of the numbered files up to the first gap. -/
def Disk.totalSize (d : Disk) (base : Path) : ℕ :=
  ((d.files base).map List.length).getD 0 +
    ((FileTarget.loadedFiles d base).map List.length).sum

theorem checkLoop_size
    {base : Path} {d : Disk} {n m : ℕ} (hpos : 1 ≤ n)
    (hend : n + m = maxRotatedFiles) {q q' : SafeCircular RotatedFile}
    {size size' : ℕ}
    (hrun : FileTarget.checkLoop base d (m + 1) n q size = .ok (q', size')) :
    size' = size + (((List.range' n m).takeWhile fun j =>
      (d.numbered base j).isSome).map fun j =>
        ((d.numbered base j).getD []).length).sum := by
  induction m generalizing n q size with
  | zero =>
      have hname := RotatedFile.strRotateName_eq_none base (by omega :
        maxRotatedFiles ≤ n)
      simp only [FileTarget.checkLoop, RotatedFile.new, hname,
        Option.bind_none] at hrun
      rcases hrun with ⟨⟩
      rfl
  | succ m ih =>
      have hname := RotatedFile.strRotateName_eq_some base (by omega :
        n < maxRotatedFiles) hpos
      rw [List.range'_succ, List.takeWhile_cons]
      rw [FileTarget.checkLoop] at hrun
      cases hfile : d.numbered base n with
      | none =>
          have hnone : d.files (rotateName base n) = none := hfile
          simp only [RotatedFile.new, hname, Option.bind_some, hnone] at hrun
          rcases hrun with ⟨⟩
          simp
      | some file =>
          have hsome : d.files (rotateName base n) = some file := hfile
          simp only [RotatedFile.new, hname, Option.bind_some, hsome, bind,
            Except.bind] at hrun
          split at hrun
          · simp at hrun
          · have hrest := ih (by omega) (by omega) hrun
            rw [hrest]
            simp [hfile, Nat.add_assoc]

theorem takeWhile_range'_eq (p : ℕ → Bool) (n m : ℕ) :
    (List.range' n m).takeWhile p =
      List.range' n ((List.range' n m).takeWhile p).length := by
  induction m generalizing n with
  | zero => rfl
  | succ m ih =>
      rw [List.range'_succ, List.takeWhile_cons]
      cases p n with
      | true =>
          rw [if_pos rfl, List.length_cons, List.range'_succ, ← ih]
      | false => rfl

namespace FileTarget

theorem mem_startCauses_iff (t : FileTarget) :
    (.maxFileSize ∈ t.startCauses ↔ t.FileTooBig) ∧
      (.maxTotalSize ∈ t.startCauses ↔
        t.filerotation.maxTotalSize < t.allFilesSize) := by
  unfold startCauses
  by_cases hbig : t.FileTooBig <;>
    by_cases htotal : t.filerotation.maxTotalSize < t.allFilesSize <;>
      simp [hbig, htotal]

theorem startCauses_ne_nil_iff (t : FileTarget) :
    t.startCauses ≠ [] ↔
      t.FileTooBig ∨ t.filerotation.maxTotalSize < t.allFilesSize := by
  rw [← t.mem_startCauses_iff.1, ← t.mem_startCauses_iff.2]
  constructor
  · intro hne
    obtain ⟨limit, hmem⟩ := List.exists_mem_of_ne_nil _ hne
    cases limit with
    | maxFileSize => exact Or.inl hmem
    | maxTotalSize => exact Or.inr hmem
  · rintro (hmem | hmem) <;> exact List.ne_nil_of_mem hmem

end FileTarget

/-- What `check_files` leaves, and its answer. -/
theorem checkFiles_found
    {path : Path} {opts : RotationOpts} {disk : Disk} {found : FileTarget}
    {needsRotate : Bool}
    (hcheck : (FileTarget.new path opts disk).checkFiles =
      .ok (found, needsRotate)) :
    found.myPath = path ∧ found.filerotation = opts ∧ found.disk = disk ∧
      found.allFilesSize = disk.totalSize path % 2 ^ 64 ∧
      (needsRotate = true ↔ found.startCauses ≠ []) := by
  unfold FileTarget.checkFiles at hcheck
  simp only [bind, Except.bind] at hcheck
  split at hcheck
  · simp at hcheck
  · rename_i loaded hloop
    obtain ⟨q, size⟩ := loaded
    have hrun : FileTarget.checkLoop path disk (maxRotatedFiles - 1 + 1) 1
        (FileTarget.new path opts disk).rotatedFiles.clear
        (((disk.files path).map List.length).getD 0) = .ok (q, size) := hloop
    have hsize : size = disk.totalSize path := by
      rw [checkLoop_size le_rfl rfl hrun, takeWhile_range'_eq, Disk.totalSize,
        FileTarget.loadedFiles, List.map_map]
      rfl
    rcases hcheck with ⟨⟩
    refine ⟨rfl, rfl, rfl, by rw [hsize], ?_⟩
    rw [FileTarget.startCauses_ne_nil_iff, Bool.or_eq_true,
      decide_eq_true_iff, decide_eq_true_iff]
    exact Iff.rfl

/-! ## What zero should mean -/

/-- Without a limit nothing is ever rotated, and with one of the two every
rotation comes from the comparison with that limit. -/
structure ZeroIsNoSetting (path : Path) (opts : RotationOpts) (disk : Disk)
    (acts : List FileAct) : Prop where
  neither : opts.maxFileSize = 0 → opts.maxTotalSize = 0 →
    rotations path opts disk acts = []
  one : ∀ limit other, limit ≠ other → opts.limit limit ≠ 0 →
    opts.limit other = 0 →
      ∀ causes ∈ rotations path opts disk acts, limit ∈ causes

/-- There is nothing on the disk that a total limit of zero would make the
constructor rotate, or the file is too big anyway. -/
def StartsQuiet (path : Path) (opts : RotationOpts) (disk : Disk) : Prop :=
  opts.maxTotalSize = 0 →
    disk.totalSize path % 2 ^ 64 = 0 ∨
      (opts.maxFileSize ≠ 0 ∧
        (disk.files path).any fun file => opts.maxFileSize < file.length)

/-- No write is done that leaves nothing under way and a file that is not
empty. -/
def FileOutput.Quiet (o : FileOutput) (a : FileAct) : Prop :=
  o.failure = none →
    match a with
    | .flushSync => o.submittedWrites ≤ 1 → o.file.currentSize = 0
    | .writeAsyncOverflow (some n) =>
        o.submittedWrites ≤ 0 → (o.file.currentSize + n) % 2 ^ 32 = 0
    | .writeCb i =>
        i < o.writes.length → o.submittedWrites ≤ 1 → o.file.currentSize = 0
    | _ => True

namespace FileOutput

/-- With a limit of zero an act does not rotate exactly if it is quiet. -/
theorem rotation_eq_none_iff
    {o : FileOutput} (henabled : o.file.filerotation.enabled = true)
    (hlimit : o.file.filerotation.maxFileSize = 0) (a : FileAct) :
    o.rotation a = none ↔ o.Quiet a := by
  unfold rotation Quiet
  cases hfailure : o.failure with
  | some failure => simp
  | none =>
      simp only [Option.isSome_none, Bool.false_eq_true, if_false,
        forall_const]
      cases a with
      | flush b => simp [check]
      | sync => simp [check]
      | flushSync =>
          simp only [check, countDown, Rotates, henabled, hlimit,
            ite_eq_right_iff, reduceCtorEq, imp_false, not_and, true_and]
          omega
      | writeAsyncOverflow got =>
          cases got with
          | none => simp [check]
          | some n =>
              simp only [check, countDown, addSize, Rotates, henabled, hlimit,
                ite_eq_right_iff, reduceCtorEq, imp_false, not_and, true_and]
              omega
      | writeCb i =>
          by_cases hi : i < o.writes.length
          · have hcheck : o.check (.writeCb i) =
                some ({ o with writes := o.writes.eraseIdx i }, none) :=
              if_pos hi
            simp only [hcheck, countDown, Rotates, henabled, hlimit,
              ite_eq_right_iff, reduceCtorEq, imp_false, not_and, true_and]
            omega
          · have hcheck : o.check (.writeCb i) = none := if_neg hi
            simp [hcheck, hi]
      | syncCb i => simp [check]
      | system change opens => simp [check]

theorem mem_runRotations
    {o : FileOutput} {acts : List FileAct} {causes : List Limit}
    (hcauses : causes ∈ o.runRotations acts) : causes = [.maxFileSize] := by
  induction acts generalizing o with
  | nil => simp [runRotations] at hcauses
  | cons a acts ih =>
      rw [runRotations] at hcauses
      rcases List.mem_append.mp hcauses with hfirst | hrest
      · rw [Option.mem_toList] at hfirst
        unfold rotation at hfirst
        split at hfirst
        · simp at hfirst
        · split at hfirst
          · split at hfirst
            · exact (Option.some.inj hfirst).symm
            · simp at hfirst
          · simp at hfirst
      · exact ih hrest

theorem runRotations_eq_nil_iff
    {o : FileOutput} (henabled : o.file.filerotation.enabled = true)
    (hlimit : o.file.filerotation.maxFileSize = 0) (acts : List FileAct) :
    o.runRotations acts = [] ↔ Run.Meets step Quiet o acts := by
  induction acts generalizing o with
  | nil => exact iff_of_true rfl trivial
  | cons a acts ih =>
      have hopts := o.step_filerotation a
      rw [runRotations, List.append_eq_nil_iff, Run.Meets,
        ← rotation_eq_none_iff henabled hlimit,
        ih (by rw [hopts]; exact henabled) (by rw [hopts]; exact hlimit)]
      apply and_congr_left'
      cases o.rotation a <;> simp

end FileOutput

/-- The call in the constructor, without `rotate_on_start`. -/
theorem startRotation_cases
    (path : Path) {opts : RotationOpts} (henabled : opts.enabled = true)
    (hstart : opts.rotateOnStart = false) (disk : Disk) :
    ∃ found : FileTarget, found.filerotation = opts ∧ found.myPath = path ∧
      found.disk = disk ∧ found.allFilesSize = disk.totalSize path % 2 ^ 64 ∧
      (FileTarget.new path opts disk).startRotation =
        if found.startCauses = [] then none else some found.startCauses := by
  rcases FileTarget.checkFiles_returns path opts disk with
    ⟨found, needsRotate, hcheck⟩
  rcases checkFiles_found hcheck with ⟨hpath, hopts, hdisk, hsize, hneeds⟩
  refine ⟨found, hopts, hpath, hdisk, hsize, ?_⟩
  have hnew : (FileTarget.new path opts disk).filerotation.enabled = true :=
    henabled
  unfold FileTarget.startRotation
  rw [if_pos hnew, hcheck]
  simp only [hopts, hstart, Bool.or_false]
  by_cases hcauses : found.startCauses = []
  · rw [if_neg fun h => hneeds.mp h hcauses, if_pos hcauses]
  · rw [if_pos (hneeds.mpr hcauses), if_neg hcauses]

theorem postCstor_filerotation
    {path : Path} {opts : RotationOpts} {disk : Disk} {t : FileTarget}
    (henabled : opts.enabled = true)
    (hmade : (FileTarget.new path opts disk).postCstor = .ok t) :
    t.filerotation = opts := by
  rcases FileTarget.checkFiles_returns path opts disk with
    ⟨found, needsRotate, hcheck⟩
  have hopts := (checkFiles_found hcheck).2.1
  rw [FileTarget.postCstor_eq henabled hcheck] at hmade
  split at hmade
  · cases hrotate : found.rotateFiles with
    | error failure => simp [hrotate, Except.map] at hmade
    | ok rotated =>
        rw [hrotate] at hmade
        rcases hmade with ⟨⟩
        rw [FileTarget.openFile_filerotation,
          FileTarget.rotateFiles_filerotation hrotate, hopts]
  · rcases hmade with ⟨⟩
    rw [FileTarget.openFile_filerotation, hopts]

/-- The first call is the one in the constructor, with the comparisons that
hold there; all others come from the size of the file. -/
theorem rotations_cases
    (path : Path) {opts : RotationOpts} (henabled : opts.enabled = true)
    (hstart : opts.rotateOnStart = false) (disk : Disk)
    (acts : List FileAct) :
    ∃ (first : List Limit) (t : FileTarget),
      (FileTarget.new path opts disk).postCstor = .ok t ∧
      t.filerotation = opts ∧
      rotations path opts disk acts =
        (if first = [] then [] else [first]) ++
          (FileOutput.start t).runRotations acts ∧
      (.maxFileSize ∈ first ↔ opts.maxFileSize ≠ 0 ∧
        (disk.files path).any fun file => opts.maxFileSize < file.length) ∧
      (.maxTotalSize ∈ first ↔
        opts.maxTotalSize < disk.totalSize path % 2 ^ 64) := by
  rcases startRotation_cases path henabled hstart disk with
    ⟨found, hopts, hpath, hdisk, hsize, hrotation⟩
  rcases FileTarget.postCstor_usable path opts disk with ⟨t, hmade, -⟩
  refine ⟨found.startCauses, t, hmade, postCstor_filerotation henabled hmade,
    ?_, ?_, ?_⟩
  · unfold rotations
    dsimp only
    rw [hmade, hrotation]
    split <;> rfl
  · rw [found.mem_startCauses_iff.1, FileTarget.FileTooBig, hopts, hpath, hdisk]
  · rw [found.mem_startCauses_iff.2, hopts, hsize]

/-- A call for a total of zero is the only one without a good cause in the
constructor. -/
theorem startsQuiet_iff
    {path : Path} {opts : RotationOpts} {disk : Disk} {first : List Limit}
    (hfile : .maxFileSize ∈ first ↔ opts.maxFileSize ≠ 0 ∧
      (disk.files path).any fun file => opts.maxFileSize < file.length)
    (htotal : .maxTotalSize ∈ first ↔
      opts.maxTotalSize < disk.totalSize path % 2 ^ 64) :
    StartsQuiet path opts disk ↔
      (opts.maxTotalSize = 0 → first ≠ [] → .maxFileSize ∈ first) := by
  unfold StartsQuiet
  apply forall_congr'
  intro hzero
  rw [← hfile]
  rw [hzero] at htotal
  constructor
  · rintro (hnone | hbig) hne
    · obtain ⟨limit, hmem⟩ := List.exists_mem_of_ne_nil _ hne
      cases limit with
      | maxFileSize => exact hmem
      | maxTotalSize =>
          have hpos := htotal.mp hmem
          omega
    · exact hbig
  · intro hcause
    rcases Nat.eq_zero_or_pos (disk.totalSize path % 2 ^ 64) with hnone | hpos
    · exact Or.inl hnone
    · exact Or.inr (hcause (List.ne_nil_of_mem (htotal.mpr hpos)))

section Causes

variable {path : Path} {opts : RotationOpts} {disk : Disk}
  {acts : List FileAct} {first : List Limit} {later : List (List Limit)}

theorem mem_rotations_iff
    (hrotations : rotations path opts disk acts =
      (if first = [] then [] else [first]) ++ later) {causes : List Limit} :
    causes ∈ rotations path opts disk acts ↔
      (first ≠ [] ∧ causes = first) ∨ causes ∈ later := by
  rw [hrotations, List.mem_append]
  by_cases hnone : first = []
  · rw [if_pos hnone]
    simp [hnone]
  · rw [if_neg hnone, List.mem_singleton, and_iff_right hnone]

/-- Zero is no setting if the first call, without a total, comes from the size
of the file, and there are no later ones without a file size. -/
theorem zeroIsNoSetting_of_causes
    (hrotations : rotations path opts disk acts =
      (if first = [] then [] else [first]) ++ later)
    (hlater : ∀ causes ∈ later, causes = [.maxFileSize])
    (hset : .maxFileSize ∈ first → opts.maxFileSize ≠ 0)
    (hfirst : opts.maxTotalSize = 0 → first ≠ [] → .maxFileSize ∈ first)
    (hnone : opts.maxFileSize = 0 → later = []) :
    ZeroIsNoSetting path opts disk acts := by
  constructor
  · intro hnoFile hnoTotal
    rw [List.eq_nil_iff_forall_not_mem]
    intro causes hcauses
    rcases (mem_rotations_iff hrotations).mp hcauses with ⟨hne, -⟩ | hlast
    · exact hset (hfirst hnoTotal hne) hnoFile
    · rw [hnone hnoFile] at hlast
      exact List.not_mem_nil hlast
  · intro limit other hne hlimit hother causes hcauses
    rcases (mem_rotations_iff hrotations).mp hcauses with ⟨hsome, rfl⟩ | hlast
    · obtain ⟨cause, hcause⟩ := List.exists_mem_of_ne_nil _ hsome
      cases limit with
      | maxFileSize =>
          cases other with
          | maxFileSize => exact absurd rfl hne
          | maxTotalSize => exact hfirst hother hsome
      | maxTotalSize =>
          cases other with
          | maxFileSize =>
              cases cause with
              | maxFileSize => exact absurd hother (hset hcause)
              | maxTotalSize => exact hcause
          | maxTotalSize => exact absurd rfl hne
    · cases limit with
      | maxFileSize =>
          rw [hlater causes hlast]
          exact List.mem_singleton_self _
      | maxTotalSize =>
          cases other with
          | maxFileSize =>
              rw [hnone hother] at hlast
              exact absurd hlast List.not_mem_nil
          | maxTotalSize => exact absurd rfl hne

theorem ZeroIsNoSetting.causes
    (hzero : ZeroIsNoSetting path opts disk acts)
    (hrotations : rotations path opts disk acts =
      (if first = [] then [] else [first]) ++ later)
    (hlater : ∀ causes ∈ later, causes = [.maxFileSize]) :
    (opts.maxTotalSize = 0 → first ≠ [] → .maxFileSize ∈ first) ∧
      (opts.maxFileSize = 0 → later = []) := by
  constructor
  · intro hnoTotal hne
    have hmem : first ∈ rotations path opts disk acts :=
      (mem_rotations_iff hrotations).mpr (.inl ⟨hne, rfl⟩)
    by_cases hnoFile : opts.maxFileSize = 0
    · rw [hzero.neither hnoFile hnoTotal] at hmem
      exact absurd hmem List.not_mem_nil
    · exact hzero.one .maxFileSize .maxTotalSize (by decide) hnoFile hnoTotal
        first hmem
  · intro hnoFile
    rw [List.eq_nil_iff_forall_not_mem]
    intro causes hcauses
    have hmem : causes ∈ rotations path opts disk acts :=
      (mem_rotations_iff hrotations).mpr (.inr hcauses)
    by_cases hnoTotal : opts.maxTotalSize = 0
    · rw [hzero.neither hnoFile hnoTotal] at hmem
      exact List.not_mem_nil hmem
    · have hcause := hzero.one .maxTotalSize .maxFileSize (by decide)
        hnoTotal hnoFile causes hmem
      rw [hlater causes hcauses] at hcause
      simp at hcause

end Causes

/-- Zero means that there is no limit exactly if the constructor finds nothing
to rotate for a total of zero, and no act rotates for a file size of zero.  That
the calls listed are those which are made is `FileTarget.postCstor_eq` for the
constructor, and `step_of_rotation` and `step_of_no_rotation` for the acts. -/
theorem zeroIsNoSetting_iff
    (path : Path) {opts : RotationOpts} (henabled : opts.enabled = true)
    (hstart : opts.rotateOnStart = false) (disk : Disk)
    (acts : List FileAct) :
    ZeroIsNoSetting path opts disk acts ↔
      StartsQuiet path opts disk ∧
        (opts.maxFileSize = 0 →
          ∀ t, (FileTarget.new path opts disk).postCstor = .ok t →
            Run.Meets FileOutput.step FileOutput.Quiet (FileOutput.start t)
              acts) := by
  rcases rotations_cases path henabled hstart disk acts with
    ⟨first, t, hmade, hopts, hrotations, hfile, htotal⟩
  have hlater : ∀ causes ∈ (FileOutput.start t).runRotations acts,
      causes = [.maxFileSize] := fun _ => FileOutput.mem_runRotations
  have hrun : opts.maxFileSize = 0 →
      ((FileOutput.start t).runRotations acts = [] ↔
        Run.Meets FileOutput.step FileOutput.Quiet (FileOutput.start t)
          acts) := by
    intro hzero
    have hsame : (FileOutput.start t).file.filerotation = opts := hopts
    apply FileOutput.runRotations_eq_nil_iff
    · rw [hsame]
      exact henabled
    · rw [hsame]
      exact hzero
  rw [startsQuiet_iff hfile htotal, hmade]
  constructor
  · intro hzero
    obtain ⟨hfirst, hnone⟩ := hzero.causes hrotations hlater
    refine ⟨hfirst, fun hnoFile t' ht' => ?_⟩
    rcases ht' with ⟨⟩
    exact (hrun hnoFile).mp (hnone hnoFile)
  · rintro ⟨hfirst, hmeets⟩
    exact zeroIsNoSetting_of_causes hrotations hlater
      (fun hmem => (hfile.mp hmem).1) hfirst
      fun hnoFile => (hrun hnoFile).mpr (hmeets hnoFile t rfl)

namespace FileOutput

/-- Files of a hundred bytes and no limit for all of them. -/
theorem zeroIsNoSetting_hundred :
    ZeroIsNoSetting [108] ⟨true, false, 3, 0, 100⟩ noDisk
      [.flush largeBank, .writeCb 0] := by
  apply (zeroIsNoSetting_iff [108] rfl rfl noDisk _).mpr
  constructor
  · intro _
    exact Or.inl rfl
  · intro hzero
    simp at hzero

/-- Without limits a write that is done rotates the file, and so does the
constructor if there is a file. -/
theorem rotates_without_limits :
    ¬ZeroIsNoSetting [108] ⟨true, false, 0, 0, 0⟩ noDisk
        [.flush smallBank, .writeCb 0] ∧
      ¬ZeroIsNoSetting [108] ⟨true, false, 0, 0, 0⟩
        (noDisk.write [108] [97]) [] := by
  constructor
  · intro hzero
    have hnone := hzero.neither rfl rfl
    revert hnone
    decide +kernel
  · intro hzero
    have hnone := hzero.neither rfl rfl
    revert hnone
    decide +kernel

end FileOutput

end GreaseLog
