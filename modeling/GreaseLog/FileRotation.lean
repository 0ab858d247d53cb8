import GreaseLog.SafeCircular
import Mathlib.Data.Nat.Digits.Lemmas

/-!
# Rotation of log files

A file target writes to `myPath`.  When the file is full it becomes `myPath.1`,
after `myPath.1` has become `myPath.2` and so on, and the target opens a new
one.  The numbers in use are kept in a ring buffer, the highest one first.

The disk is a function from paths to contents.  A rename to a path which is in
use replaces the file there; `replaced` collects the files that were lost in
this way and is not in the source.
-/

namespace GreaseLog

def maxRotatedFiles : ℕ := 10

abbrev Path := List UInt8

/-! ## The disk -/

structure Disk where
  files : Path → Option (List UInt8)
  replaced : List (List UInt8)

namespace Disk

/-- Files are found through `char *`.  A rename from or to `NULL` fails, like
one from a path where no file is. -/
def rename (d : Disk) : Option Path → Option Path → Option Disk
  | some old, some new =>
      match d.files old with
      | none => none
      | some file => some {
          files := fun p =>
            if p = new then some file else if p = old then none else d.files p
          replaced := d.replaced ++ (d.files new).toList }
  | _, _ => none

def unlink (d : Disk) (path : Path) : Disk :=
  { d with files := fun p => if p = path then none else d.files p }

def write (d : Disk) (path : Path) (file : List UInt8) : Disk :=
  { d with files := fun p => if p = path then some file else d.files p }

end Disk

/-! ## Rotated files -/

/-- The output of `%d`. -/
def decimal (n : ℕ) : List UInt8 :=
  (Nat.digits 10 n).reverse.map fun d => UInt8.ofNat (48 + d)

def rotateName (s : Path) (n : ℕ) : Path := s ++ 46 :: decimal n

structure RotatedFile where
  path : Option Path
  num : ℕ
  deriving DecidableEq, Repr, Inhabited

namespace RotatedFile

def strRotateName (s : Path) (n : ℕ) : Option Path :=
  if n < maxRotatedFiles ∧ 0 < n then some (rotateName s n) else none

/-- `rotatedFile(char *base, int n)`. -/
def new (base : Path) (n : ℕ) : RotatedFile where
  path := strRotateName base n
  num := n

end RotatedFile

/-! ## File targets -/

structure RotationOpts where
  enabled : Bool
  rotateOnStart : Bool
  maxFiles : ℕ
  maxTotalSize : ℕ
  maxFileSize : ℕ
  deriving DecidableEq, Repr

structure FileTarget where
  myPath : Path
  filerotation : RotationOpts
  rotatedFiles : SafeCircular RotatedFile
  currentSize : ℕ
  allFilesSize : ℕ
  disk : Disk

/-- Ways for a rotation not to come back: a producer waits for room in a full
buffer, or an assertion fails. -/
inductive RotateFailure where
  | waits
  | asserts
  deriving DecidableEq, Repr

namespace FileTarget

def new (path : Path) (rotateopts : RotationOpts) (disk : Disk) :
    FileTarget where
  myPath := path
  filerotation := rotateopts
  rotatedFiles := SafeCircular.new maxRotatedFiles
  currentSize := 0
  allFilesSize := 0
  disk := disk

def add (q : SafeCircular RotatedFile) (f : RotatedFile) :
    Except RotateFailure (SafeCircular RotatedFile) :=
  match q.addMv f with
  | none => .error .waits
  | some q => .ok q

/-- The loop of `rotate_files`. -/
def rotateLoop (base : Path) (maxFiles : ℕ) :
    ℕ → SafeCircular RotatedFile → SafeCircular RotatedFile → ℕ → Disk →
      Except RotateFailure (SafeCircular RotatedFile × Disk)
  | 0, _, tempFiles, _, disk => .ok (tempFiles, disk)
  | fuel + 1, rotatedFiles, tempFiles, n, disk =>
      match rotatedFiles.removeMv with
      | none => .ok (tempFiles, disk)
      | some (f, rotatedFiles) =>
          if maxFiles ≠ 0 ∧ maxFiles < n + 1 then
            -- `uv_fs_unlink` asserts that there is a path
            match f.path with
            | none => .error .asserts
            | some path =>
                rotateLoop base maxFiles fuel rotatedFiles tempFiles (n - 1)
                  (disk.unlink path)
          else do
            let newF := RotatedFile.new base (f.num + 1)
            let disk := (disk.rename f.path newF.path).getD disk
            let tempFiles ← add tempFiles newF
            rotateLoop base maxFiles fuel rotatedFiles tempFiles (n - 1) disk

def rotateFiles (t : FileTarget) : Except RotateFailure FileTarget := do
  let n := t.rotatedFiles.remaining
  let (tempFiles, disk) ← rotateLoop t.myPath t.filerotation.maxFiles n
    t.rotatedFiles (SafeCircular.new maxRotatedFiles) n t.disk
  let newF := RotatedFile.new t.myPath 1
  match disk.rename (some t.myPath) newF.path with
  | none => .ok { t with
      rotatedFiles := t.rotatedFiles.transferFrom tempFiles
      currentSize := 0
      disk := disk }
  | some disk => do
      let tempFiles ← add tempFiles newF
      .ok { t with
        rotatedFiles := t.rotatedFiles.transferFrom tempFiles
        currentSize := 0
        disk := disk }

/-- The loop of `check_files`. -/
def checkLoop (base : Path) (disk : Disk) :
    ℕ → ℕ → SafeCircular RotatedFile → ℕ →
      Except RotateFailure (SafeCircular RotatedFile × ℕ)
  | 0, _, rotatedFiles, size => .ok (rotatedFiles, size)
  | fuel + 1, n, rotatedFiles, size =>
      let f := RotatedFile.new base n
      match f.path.bind disk.files with
      | none => .ok (rotatedFiles, size)
      | some file => do
          let rotatedFiles ← add rotatedFiles f
          checkLoop base disk fuel (n + 1) rotatedFiles (size + file.length)

/-- The answer says whether to rotate at once.  `current_size` is a `uint32_t`
and `all_files_size` a `uint64_t`. -/
def checkFiles (t : FileTarget) : Except RotateFailure (FileTarget × Bool) := do
  let current := t.disk.files t.myPath
  let currentSize :=
    (current.map fun file => file.length % 2 ^ 32).getD t.currentSize
  let tooBig := t.filerotation.maxFileSize ≠ 0 ∧
    current.any fun file => t.filerotation.maxFileSize < file.length
  let (rotatedFiles, allFilesSize) ← checkLoop t.myPath t.disk maxRotatedFiles
    1 t.rotatedFiles.clear ((current.map List.length).getD 0)
  let allFilesSize := allFilesSize % 2 ^ 64
  .ok ({ t with
      rotatedFiles := rotatedFiles.reverse
      currentSize := currentSize
      allFilesSize := allFilesSize },
    decide tooBig || decide (t.filerotation.maxTotalSize < allFilesSize))

/-- `uv_fs_open` makes the file if there is none. -/
def openFile (t : FileTarget) : FileTarget :=
  match t.disk.files t.myPath with
  | some _ => t
  | none => { t with disk := t.disk.write t.myPath [] }

/-- What a file is when it is rotated, and the rotation of
`check_and_maybe_rotate`. -/
def rotate (t : FileTarget) (file : List UInt8) :
    Except RotateFailure FileTarget := do
  let t ← { t with disk := t.disk.write t.myPath file }.rotateFiles
  .ok t.openFile

/-- The files of the target, loaded by `check_files`, and one rotation for
every file of the list. -/
def life (path : Path) (rotateopts : RotationOpts) (disk : Disk)
    (files : List (List UInt8)) : Except RotateFailure FileTarget := do
  let t ← (new path rotateopts disk).checkFiles.map Prod.fst
  files.foldlM rotate t.openFile

/-- `post_cstor`. -/
def postCstor (t : FileTarget) : Except RotateFailure FileTarget :=
  if t.filerotation.enabled then do
    let (t, needsRotate) ← t.checkFiles
    let t ← if needsRotate || t.filerotation.rotateOnStart then t.rotateFiles
      else .ok t
    .ok t.openFile
  else
    .ok t.openFile

/-- A rotation of `check_and_maybe_rotate`, after something has happened to the
files.  Nothing is rotated if rotation is not enabled. -/
def rotateAfter (t : FileTarget) (change : Disk → Disk) :
    Except RotateFailure FileTarget :=
  let t := { t with disk := change t.disk }
  if t.filerotation.enabled then do
    let t ← t.rotateFiles
    .ok t.openFile
  else
    .ok t

/-- The constructor, and one rotation after each of the changes. -/
def wholeLife (path : Path) (rotateopts : RotationOpts) (disk : Disk)
    (changes : List (Disk → Disk)) : Except RotateFailure FileTarget := do
  let t ← (new path rotateopts disk).postCstor
  changes.foldlM rotateAfter t

end FileTarget

end GreaseLog
