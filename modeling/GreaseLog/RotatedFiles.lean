import GreaseLog.RotationSteps
import Mathlib.Data.Set.Card

/-!
# Rotations over the life of a target

A target starts with the files `check_files` finds and rotates any number of
times.  It keeps the newest files in order.  Their number is the limit
`max_files`, to which the current file comes on top.
-/

namespace GreaseLog

namespace FileTarget

variable {base : Path} {maxFiles e k : ℕ} {old : Disk} {t : FileTarget}
  {kept : List (List UInt8)}

/-- The number of entries after `r` rotations. -/
def countAfter (maxFiles e r : ℕ) : ℕ :=
  if r = 0 then e else if maxFiles = 0 then e + r else min (e + r) maxFiles

def keptAfter (maxFiles : ℕ) (kept files : List (List UInt8)) :
    List (List UInt8) :=
  if files = [] then kept
  else (files.reverse ++ kept).take (keptLimit maxFiles)

theorem countAfter_succ (maxFiles e r : ℕ) :
    countAfter maxFiles (nextCount maxFiles e) r =
      countAfter maxFiles e (r + 1) := by
  unfold countAfter nextCount
  rw [if_neg (Nat.succ_ne_zero r)]
  by_cases hzero : r = 0 <;> by_cases hlimit : maxFiles = 0 <;>
    simp only [hzero, hlimit, if_true, if_false] <;> omega

theorem keptAfter_cons
    (maxFiles : ℕ) (kept : List (List UInt8)) (file : List UInt8)
    (files : List (List UInt8)) :
    keptAfter maxFiles ((file :: kept).take (keptLimit maxFiles)) files =
      keptAfter maxFiles kept (file :: files) := by
  unfold keptAfter
  rw [if_neg (List.cons_ne_nil file files)]
  split
  · rename_i hnil
    simp [hnil]
  · rw [List.take_append, List.take_take, List.reverse_cons,
      List.append_assoc, List.singleton_append, List.take_append]
    congr 2
    omega

/-- The rotations come back as long as there is a name for every file, or the
limit keeps their number down. -/
def Returns (maxFiles k r : ℕ) : Prop :=
  (0 < maxFiles ∧ maxFiles < maxRotatedFiles) ∨ k + r ≤ maxRotatedFiles

theorem Keeps.rotations
    (h : Keeps base maxFiles k old t e kept) (hk : k < maxRotatedFiles)
    (files : List (List UInt8)) (hreturns : Returns maxFiles e files.length) :
    ∃ t', files.foldlM FileTarget.rotate t = .ok t' ∧
      Keeps base maxFiles k old t' (countAfter maxFiles e files.length)
        (keptAfter maxFiles kept files) ∧
      (0 < maxFiles → maxFiles < maxRotatedFiles →
        (∀ j, k < j → old.numbered base j = none) →
          t'.disk.replaced = t.disk.replaced) := by
  induction files generalizing t e kept with
  | nil => exact ⟨t, rfl, h, fun _ _ _ => rfl⟩
  | cons file files ih =>
      have hlimit := h.le_limit
      unfold Returns at hreturns ih
      rw [List.length_cons] at hreturns
      have hroom : e < maxRotatedFiles := by
        have hsize := h.le_size
        omega
      rcases h.rotate hroom file with ⟨t₁, hrotate, hkeeps, hreplaced⟩
      have hnext := nextCount_le maxFiles e
      rcases ih hkeeps (by omega) with ⟨t', hrun, hend, hlast⟩
      rw [countAfter_succ, keptAfter_cons] at hend
      refine ⟨t', ?_, hend, ?_⟩
      · rw [List.foldlM_cons, hrotate]
        exact hrun
      · intro hpos hmax hgone
        have hfree : e < maxFiles → t.disk.numbered base (e + 1) = none := by
          intro _
          have hlength := h.length
          rw [h.numbered _ (by omega), if_neg (by omega)]
          split
          · exact hgone _ (by omega)
          · rfl
        rw [hlast hpos hmax hgone, hreplaced hpos hmax hfree]

theorem Keeps.rotations_fail
    (h : Keeps base maxFiles k old t e kept) (hk : k < maxRotatedFiles)
    (files : List (List UInt8)) (hfails : ¬Returns maxFiles e files.length) :
    ∃ failure, files.foldlM FileTarget.rotate t = .error failure := by
  induction files generalizing t e kept with
  | nil =>
      have hsize := h.le_size
      unfold Returns at hfails
      rw [List.length_nil] at hfails
      omega
  | cons file files ih =>
      by_cases hroom : e < maxRotatedFiles
      · rcases h.rotate hroom file with ⟨t₁, hrotate, hkeeps, -⟩
        have hnext : nextCount maxFiles e = e + 1 := by
          unfold Returns at hfails
          unfold nextCount
          split <;> omega
        have hrest : ¬Returns maxFiles (nextCount maxFiles e)
            files.length := by
          unfold Returns at hfails ⊢
          rw [List.length_cons] at hfails
          omega
        rcases ih hkeeps hrest with ⟨failure, hrun⟩
        refine ⟨failure, ?_⟩
        rw [List.foldlM_cons, hrotate]
        exact hrun
      · have hfull : e = maxRotatedFiles := by
          have hsize := h.le_size
          omega
        subst hfull
        rcases h.rotate_full hk file with ⟨failure, hrotate⟩
        refine ⟨failure, ?_⟩
        rw [List.foldlM_cons, hrotate]
        rfl

end FileTarget

/-! ## The files found at the start -/

/-- The files from number one on, without a gap. -/
def Disk.found (d : Disk) (base : Path) : ℕ :=
  ((List.range' 1 (maxRotatedFiles - 1)).takeWhile fun j =>
    (d.numbered base j).isSome).length

theorem takeWhile_range' (p : ℕ → Bool) (n m : ℕ) :
    ((List.range' n m).takeWhile p).length ≤ m ∧
      (∀ j, n ≤ j → j < n + ((List.range' n m).takeWhile p).length →
        p j = true) ∧
      (((List.range' n m).takeWhile p).length < m →
        p (n + ((List.range' n m).takeWhile p).length) = false) := by
  induction m generalizing n with
  | zero =>
      refine ⟨le_rfl, ?_, ?_⟩
      · intro j hlow hhigh
        simp at hhigh
        omega
      · simp
  | succ m ih =>
      rw [List.range'_succ, List.takeWhile_cons]
      rcases ih (n + 1) with ⟨hle, hall, hend⟩
      cases hp : p n with
      | false =>
          simp only [Bool.false_eq_true, if_false, List.length_nil, add_zero]
          exact ⟨Nat.zero_le _, fun j hlow hhigh => absurd hhigh (by omega),
            fun _ => hp⟩
      | true =>
          simp only [if_true, List.length_cons]
          refine ⟨by omega, ?_, ?_⟩
          · intro j hlow hhigh
            rcases hlow.eq_or_lt with rfl | hlt
            · exact hp
            · exact hall j hlt (by omega)
          · intro hlt
            have hlast := hend (by omega)
            rwa [show n + 1 + ((List.range' (n + 1) m).takeWhile p).length =
              n + (((List.range' (n + 1) m).takeWhile p).length + 1)
                by omega] at hlast

theorem entries_eq_reverse (base : Path) (e : ℕ) :
    entries base e =
      ((List.range' 1 e).map (RotatedFile.new base)).reverse := by
  induction e with
  | zero => rfl
  | succ e ih =>
      rw [List.range'_1_concat, List.map_append, List.reverse_append, ← ih,
        add_comm 1 e]
      rfl

namespace FileTarget

variable {base : Path} {d : Disk} {q : SafeCircular RotatedFile}

theorem checkLoop_spec
    {n m : ℕ} (hpos : 1 ≤ n) (hend : n + m = maxRotatedFiles)
    (hvalid : q.Valid) (hsize : q.size = maxRotatedFiles)
    (hlist : q.toList = (List.range' 1 (n - 1)).map (RotatedFile.new base)) :
    ∃ q', q'.Valid ∧ q'.size = maxRotatedFiles ∧
      q'.toList = (List.range' 1 (n - 1 + ((List.range' n m).takeWhile fun j =>
        (d.numbered base j).isSome).length)).map (RotatedFile.new base) ∧
      ∀ size, ∃ size', checkLoop base d (m + 1) n q size =
        .ok (q', size') := by
  induction m generalizing n q with
  | zero =>
      have hname := RotatedFile.strRotateName_eq_none base (by omega :
        maxRotatedFiles ≤ n)
      refine ⟨q, hvalid, hsize, hlist, fun size => ⟨size, ?_⟩⟩
      simp only [checkLoop, RotatedFile.new, hname, Option.bind_none]
  | succ m ih =>
      have hname := RotatedFile.strRotateName_eq_some base (by omega :
        n < maxRotatedFiles) hpos
      rw [List.range'_succ, List.takeWhile_cons]
      cases hfile : d.numbered base n with
      | none =>
          have hnone : d.files (rotateName base n) = none := hfile
          refine ⟨q, hvalid, hsize, by simpa using hlist,
            fun size => ⟨size, ?_⟩⟩
          simp only [checkLoop, RotatedFile.new, hname, Option.bind_some,
            hnone]
      | some file =>
          have hstat : (RotatedFile.new base n).path.bind d.files =
              some file := by
            rw [RotatedFile.new, hname]
            exact hfile
          have hroom : q.toList.length < q.size := by
            rw [hlist, List.length_map, List.length_range', hsize]
            omega
          rcases add_of_room hvalid hroom (RotatedFile.new base n) with
            ⟨q₁, hadd⟩
          rcases add_eq_ok hadd hvalid with ⟨hvalid₁, hlist₁, hsize₁⟩
          have hgrown : q₁.toList =
              (List.range' 1 (n + 1 - 1)).map (RotatedFile.new base) := by
            obtain ⟨i, rfl⟩ : ∃ i, n = i + 1 := ⟨n - 1, by omega⟩
            rw [hlist₁, hlist, Nat.add_sub_cancel, Nat.add_sub_cancel,
              List.range'_1_concat, List.map_append, List.map_singleton,
              add_comm 1 i]
          rcases ih (by omega) (by omega) hvalid₁ (hsize₁.trans hsize) hgrown
            with ⟨q', hvalid', hsize', hlist', hloop⟩
          refine ⟨q', hvalid', hsize', ?_, ?_⟩
          · rw [hlist']
            simp only [Option.isSome_some, if_true, List.length_cons]
            congr 2
            omega
          · intro size
            rcases hloop (size + file.length) with ⟨size', hrest⟩
            refine ⟨size', ?_⟩
            rw [checkLoop]
            simp only [hstat, hadd]
            exact hrest

/-- `check_files` finds the files without a gap, the highest number first. -/
theorem checkFiles_spec (base : Path) (rotateopts : RotationOpts) (d : Disk) :
    ∃ t, (FileTarget.new base rotateopts d).checkFiles.map Prod.fst = .ok t ∧
      t.myPath = base ∧ t.filerotation = rotateopts ∧ t.disk = d ∧
      t.rotatedFiles.Valid ∧ t.rotatedFiles.size = maxRotatedFiles ∧
      t.rotatedFiles.toList = entries base (d.found base) := by
  have hspec : ∃ q : SafeCircular RotatedFile,
      q.Valid ∧ q.size = maxRotatedFiles ∧
      q.toList = (List.range' 1 (1 - 1 + d.found base)).map
        (RotatedFile.new base) ∧
      ∀ size, ∃ size', checkLoop base d maxRotatedFiles 1
        (SafeCircular.new maxRotatedFiles) size = .ok (q, size') :=
    checkLoop_spec le_rfl rfl valid_tempFiles rfl (SafeCircular.toList_new _)
  rw [Nat.sub_self, Nat.zero_add] at hspec
  rcases hspec with ⟨q, hvalid, hsize, hlist, hloop⟩
  rcases hloop (((d.files base).map List.length).getD 0) with ⟨size, hrun⟩
  rcases hvalid.reverse with ⟨hturned, hreversed, hsame⟩
  rw [hlist, ← entries_eq_reverse] at hreversed
  have hclear : (FileTarget.new base rotateopts d).rotatedFiles.clear =
      SafeCircular.new maxRotatedFiles := rfl
  refine ⟨{ FileTarget.new base rotateopts d with
    rotatedFiles := q.reverse
    currentSize := ((d.files base).map fun file => file.length % 2 ^ 32).getD 0
    allFilesSize := size % 2 ^ 64 }, ?_, rfl, rfl, rfl, hturned, hsame.trans hsize,
    hreversed⟩
  unfold FileTarget.checkFiles
  rw [hclear]
  simp only [FileTarget.new, hrun, bind, Except.bind, Except.map]

theorem found_lt (d : Disk) (base : Path) :
    d.found base < maxRotatedFiles := by
  have hle := (takeWhile_range' (fun j => (d.numbered base j).isSome) 1
    (maxRotatedFiles - 1)).1
  have hten : maxRotatedFiles = 10 := rfl
  unfold Disk.found
  omega

theorem isSome_of_le_found
    (d : Disk) (base : Path) {j : ℕ} (hpos : 1 ≤ j) (hle : j ≤ d.found base) :
    (d.numbered base j).isSome = true := by
  have hall := (takeWhile_range' (fun j => (d.numbered base j).isSome) 1
    (maxRotatedFiles - 1)).2.1
  unfold Disk.found at hle
  exact hall j hpos (by omega)

/-- The files a target starts with, the lowest number first. -/
def loadedFiles (d : Disk) (base : Path) : List (List UInt8) :=
  (List.range' 1 (d.found base)).map fun j => (d.numbered base j).getD []

theorem loadedFiles_getElem?
    (d : Disk) (base : Path) {j : ℕ} (hpos : 1 ≤ j) (hle : j ≤ d.found base) :
    (loadedFiles d base)[j - 1]? = d.numbered base j := by
  rcases Option.isSome_iff_exists.mp (isSome_of_le_found d base hpos hle) with
    ⟨file, hfile⟩
  have hindex : 1 + (j - 1) = j := by omega
  rw [loadedFiles, List.getElem?_map, List.getElem?_range' (by omega), one_mul,
    hindex, Option.map_some, hfile]
  rfl

theorem openFile_spec (t : FileTarget) :
    ∃ d, t.openFile = { t with disk := d } ∧ (d.files t.myPath).isSome ∧
      (∀ j, d.numbered t.myPath j = t.disk.numbered t.myPath j) ∧
      d.replaced = t.disk.replaced := by
  cases hfile : t.disk.files t.myPath with
  | some file =>
      refine ⟨t.disk, ?_, ?_, fun _ => rfl, rfl⟩
      · simp [openFile, hfile]
      · simp [hfile]
  | none =>
      refine ⟨t.disk.write t.myPath [], openFile_of_none hfile, ?_, ?_, rfl⟩
      · simp [Disk.write]
      · exact Disk.numbered_write t.disk t.myPath []

/-- The state in which a target starts. -/
theorem keeps_start (base : Path) (rotateopts : RotationOpts) (d : Disk) :
    ∃ t, (∀ files, life base rotateopts d files =
        files.foldlM FileTarget.rotate t) ∧
      Keeps base rotateopts.maxFiles (d.found base) d t (d.found base)
        (loadedFiles d base) ∧ t.disk.replaced = d.replaced := by
  rcases checkFiles_spec base rotateopts d with
    ⟨t, hcheck, hpath, hopts, hdisk, hvalid, hsize, hlist⟩
  rcases t.openFile_spec with ⟨d', hopened, hcurrent, hnumbered, hreplaced⟩
  rw [hpath] at hcurrent hnumbered
  have hfound := found_lt d base
  have hlength : (loadedFiles d base).length = d.found base := by
    simp [loadedFiles]
  refine ⟨t.openFile, ?_, ?_, ?_⟩
  · intro files
    rw [life, hcheck]
    rfl
  · rw [hopened]
    refine ⟨hpath, by rw [hopts], hvalid, hsize, hlist, hfound.le, ?_,
      Or.inl le_rfl, hcurrent, ?_⟩
    · rw [hlength]
      omega
    · intro j hj
      rw [hnumbered, hdisk, hlength]
      split
      · rename_i hle
        exact (loadedFiles_getElem? d base hj hle).symm
      · rw [if_pos (by omega)]
  · rw [hopened]
    exact hreplaced.trans (by rw [hdisk])

/-! ## The newest files are kept -/

/-- The target's files at its start: `olds`, numbered from one on. -/
def Contiguous (base : Path) (d : Disk) (olds : List (List UInt8)) : Prop :=
  ∀ j, 1 ≤ j → d.numbered base j = olds[j - 1]?

theorem Contiguous.found
    {olds : List (List UInt8)} (hold : Contiguous base d olds)
    (hk : olds.length < maxRotatedFiles) : d.found base = olds.length := by
  have hsome : ∀ j, 1 ≤ j → ((d.numbered base j).isSome = true ↔
      j ≤ olds.length) := by
    intro j hj
    rw [hold j hj, Option.isSome_iff_ne_none, ne_eq,
      List.getElem?_eq_none_iff]
    omega
  rcases takeWhile_range' (fun j => (d.numbered base j).isSome) 1
    (maxRotatedFiles - 1) with ⟨hle, hall, hend⟩
  have hten : maxRotatedFiles = 10 := rfl
  apply le_antisymm
  · by_contra hlt
    have hbad := hall (olds.length + 1) (by omega) (by
      unfold Disk.found at hlt
      omega)
    have hindex := (hsome _ (by omega)).mp hbad
    omega
  · by_contra hlt
    unfold Disk.found at hlt
    have hbad := hend (by omega)
    rw [Bool.eq_false_iff, ne_eq, hsome _ (by omega)] at hbad
    omega

theorem Contiguous.loadedFiles
    {olds : List (List UInt8)} (hold : Contiguous base d olds)
    (hk : olds.length < maxRotatedFiles) :
    FileTarget.loadedFiles d base = olds := by
  have hfound := hold.found hk
  apply List.ext_getElem?
  intro i
  by_cases hi : i < olds.length
  · have hget := loadedFiles_getElem? d base (by omega : 1 ≤ i + 1)
      (by omega)
    rw [hold _ (by omega)] at hget
    exact hget
  · have hlength : (FileTarget.loadedFiles d base).length = olds.length := by
      simp [FileTarget.loadedFiles, hfound]
    rw [List.getElem?_eq_none (by omega), List.getElem?_eq_none (by omega)]

theorem mem_nums_entries (base : Path) (e i : ℕ) :
    i ∈ (entries base e).map RotatedFile.num ↔ 1 ≤ i ∧ i ≤ e := by
  induction e with
  | zero =>
      simp [entries]
      omega
  | succ e ih =>
      rw [entries, List.map_cons, List.mem_cons, ih]
      change i = e + 1 ∨ _ ↔ _
      omega

theorem nums_entries_descending (base : Path) (e : ℕ) :
    ((entries base e).map RotatedFile.num).Pairwise (· > ·) := by
  induction e with
  | zero => exact List.Pairwise.nil
  | succ e ih =>
      rw [entries, List.map_cons, List.pairwise_cons]
      refine ⟨?_, ih⟩
      intro i hi
      have hle := (mem_nums_entries base e i).mp hi
      change e + 1 > i
      omega

/-- The newest files, under the numbers from one on, the last one rotated
first; and nothing else. -/
structure NewestKept (base : Path) (c : ℕ) (generations : List (List UInt8))
    (t : FileTarget) : Prop where
  holds : ∀ i, 1 ≤ i → i ≤ c →
    t.disk.numbered base i = generations[i - 1]? ∧
      (t.disk.numbered base i).isSome
  gone : ∀ j, c < j → t.disk.numbered base j = none
  nums : ∀ i, i ∈ t.rotatedFiles.toList.map RotatedFile.num ↔ 1 ≤ i ∧ i ≤ c
  descending : (t.rotatedFiles.toList.map RotatedFile.num).Pairwise (· > ·)

theorem newest_kept
    (base : Path) (rotateopts : RotationOpts) (d : Disk)
    (olds files : List (List UInt8))
    (hmin : 1 ≤ rotateopts.maxFiles)
    (hmax : rotateopts.maxFiles ≤ maxRotatedFiles - 1)
    (hold : Contiguous base d olds) (hk : olds.length < maxRotatedFiles)
    (hrotations : 1 ≤ files.length) :
    ∃ t, life base rotateopts d files = .ok t ∧
      NewestKept base (min (olds.length + files.length) rotateopts.maxFiles)
        (files.reverse ++ olds) t ∧
      t.disk.replaced = d.replaced := by
  have hten : maxRotatedFiles = 10 := rfl
  rcases keeps_start base rotateopts d with ⟨t₀, hlife, hstart, hkept⟩
  rw [hold.found hk, hold.loadedFiles hk] at hstart
  have hreturns : Returns rotateopts.maxFiles olds.length files.length :=
    Or.inl ⟨by omega, by omega⟩
  rcases hstart.rotations hk files hreturns with ⟨t, hrun, hend, hreplaced⟩
  have hgone : ∀ j, olds.length < j → d.numbered base j = none := by
    intro j hj
    rw [hold j (by omega)]
    exact List.getElem?_eq_none (by omega)
  have hcount : countAfter rotateopts.maxFiles olds.length files.length =
      min (olds.length + files.length) rotateopts.maxFiles := by
    unfold countAfter
    rw [if_neg (by omega), if_neg (by omega)]
  have hlimit : keptLimit rotateopts.maxFiles = rotateopts.maxFiles := by
    unfold keptLimit
    rw [if_neg (by omega)]
    omega
  have hfiles : files ≠ [] := by
    intro hnil
    rw [hnil] at hrotations
    simp at hrotations
  rw [hcount, keptAfter, if_neg hfiles, hlimit] at hend
  have hlength := hend.length
  have hlist := hend.list
  refine ⟨t, (hlife files).trans hrun, ⟨?_, ?_, ?_, ?_⟩,
    (hreplaced (by omega) (by omega) hgone).trans hkept⟩
  · intro i hi hle
    have hget : t.disk.numbered base i = (files.reverse ++ olds)[i - 1]? := by
      rw [hend.numbered i hi, if_pos (by omega),
        List.getElem?_take_of_lt (by omega)]
    refine ⟨hget, ?_⟩
    rw [hget, Option.isSome_iff_ne_none, ne_eq, List.getElem?_eq_none_iff,
      List.length_append, List.length_reverse]
    omega
  · intro j hj
    rw [hend.numbered j (by omega), if_neg (by omega)]
    split
    · exact hgone j (by assumption)
    · rfl
  · intro i
    rw [hlist]
    exact mem_nums_entries base _ i
  · rw [hlist]
    exact nums_entries_descending base _

/-- A disk with one rotated file. -/
def oneFile (base : Path) (file : List UInt8) : Disk where
  files := fun p => if p = rotateName base 1 then some file else none
  replaced := []

theorem contiguous_oneFile (base : Path) (file : List UInt8) :
    Contiguous base (oneFile base file) [file] := by
  intro j hj
  obtain ⟨i, rfl⟩ : ∃ i, j = i + 1 := ⟨j - 1, by omega⟩
  cases i with
  | zero => simp [Disk.numbered, oneFile]
  | succ i => simp [Disk.numbered, oneFile, rotateName_inj]

def twoFiles : RotationOpts where
  enabled := true
  rotateOnStart := false
  maxFiles := 2
  maxTotalSize := 0
  maxFileSize := 0

theorem newest_kept_twice :
    ∃ t, life [108] twoFiles (oneFile [108] [49]) [[50], [51]] = .ok t ∧
      NewestKept [108] 2 [[51], [50], [49]] t ∧ t.disk.replaced = [] :=
  newest_kept [108] twoFiles (oneFile [108] [49]) [[49]] [[50], [51]]
    (by decide) (by decide) (contiguous_oneFile [108] [49]) (by decide)
    (by decide)

/-! ## The number of files -/

section Count

variable {maxFiles e : ℕ} {t : FileTarget} {kept : List (List UInt8)}

/-- The current file and the numbered ones. -/
noncomputable def logFiles (t : FileTarget) : ℕ∞ :=
  {j | 1 ≤ j ∧ (t.disk.numbered t.myPath j).isSome}.encard +
    if (t.disk.files t.myPath).isSome then 1 else 0

/-- The numbered files above `c` that `check_files` has not found. -/
noncomputable def leftOver (base : Path) (d : Disk) (c : ℕ) : ℕ∞ :=
  {j | max (d.found base) c < j ∧ (d.numbered base j).isSome}.encard

theorem Keeps.logFiles (h : Keeps base maxFiles (d.found base) d t e kept) :
    t.logFiles = kept.length + leftOver base d kept.length + 1 := by
  have hset : {j | 1 ≤ j ∧ (t.disk.numbered base j).isSome} =
      Set.Icc 1 kept.length ∪
        {j | max (d.found base) kept.length < j ∧
          (d.numbered base j).isSome} := by
    ext j
    simp only [Set.mem_ofPred_eq, Set.mem_union, Set.mem_Icc]
    constructor
    · rintro ⟨hj, hsome⟩
      rw [h.numbered j hj] at hsome
      split_ifs at hsome
      · exact Or.inl ⟨hj, by assumption⟩
      · exact Or.inr ⟨by omega, hsome⟩
      · simp at hsome
    · rintro (⟨hj, hle⟩ | ⟨hlt, hsome⟩)
      · refine ⟨hj, ?_⟩
        rw [h.numbered j hj, if_pos hle, List.getElem?_eq_getElem (by omega)]
        rfl
      · refine ⟨by omega, ?_⟩
        rw [h.numbered j (by omega), if_neg (by omega), if_pos (by omega)]
        exact hsome
  have hdisjoint : Disjoint (Set.Icc 1 kept.length)
      {j | max (d.found base) kept.length < j ∧
        (d.numbered base j).isSome} := by
    rw [Set.disjoint_left]
    rintro j ⟨-, hle⟩ ⟨hlt, -⟩
    omega
  have hcard : (Set.Icc 1 kept.length).encard = kept.length := by
    rw [← Finset.coe_Icc, Set.encard_coe_eq_coe_finsetCard, Nat.card_Icc,
      Nat.add_sub_cancel]
  rw [FileTarget.logFiles, h.myPath, hset, Set.encard_union_eq hdisjoint,
    hcard, if_pos h.current]
  rfl

/-- The number of rotated files the target has under names of its own after
`r` rotations. -/
def trackedAfter (maxFiles k r : ℕ) : ℕ :=
  if r = 0 then k else min (k + r) (min maxFiles (maxRotatedFiles - 1))

/-- There are at most `max_files` files whenever the target has opened a new
one, exactly if the rotated files leave room for it; a target which never comes
back from a rotation does not open one. -/
theorem logFiles_le_iff
    (base : Path) (rotateopts : RotationOpts) (d : Disk)
    (files : List (List UInt8)) (hlimit : rotateopts.maxFiles ≠ 0) :
    (∀ t, life base rotateopts d files = .ok t →
        t.logFiles ≤ rotateopts.maxFiles) ↔
      (maxRotatedFiles ≤ rotateopts.maxFiles ∧
          maxRotatedFiles < d.found base + files.length) ∨
        (trackedAfter rotateopts.maxFiles (d.found base) files.length : ℕ∞) +
          leftOver base d (trackedAfter rotateopts.maxFiles (d.found base)
            files.length) + 1 ≤ rotateopts.maxFiles := by
  have hten : maxRotatedFiles = 10 := rfl
  have hk := found_lt d base
  rcases keeps_start base rotateopts d with ⟨t₀, hlife, hstart, -⟩
  by_cases hreturns : Returns rotateopts.maxFiles (d.found base) files.length
  · rcases hstart.rotations hk files hreturns with ⟨t, hrun, hend, -⟩
    have hlength := hend.length
    have htracked : min (countAfter rotateopts.maxFiles (d.found base)
        files.length) (maxRotatedFiles - 1) =
          trackedAfter rotateopts.maxFiles (d.found base) files.length := by
      unfold countAfter trackedAfter
      rw [if_neg hlimit]
      split <;> omega
    have hcount := hend.logFiles
    rw [hlength, htracked] at hcount
    rw [hlife, hrun, ← hcount]
    constructor
    · intro hall
      exact Or.inr (hall t rfl)
    · rintro (⟨hbig, hmany⟩ | hle) t' ht'
      · unfold Returns at hreturns
        omega
      · cases ht'
        exact hle
  · rcases hstart.rotations_fail hk files hreturns with ⟨failure, hrun⟩
    rw [hlife, hrun]
    constructor
    · intro _
      unfold Returns at hreturns
      exact Or.inl ⟨by omega, by omega⟩
    · intro _ t ht
      cases ht

def noFiles : Disk where
  files := fun _ => none
  replaced := []

theorem leftOver_noFiles (base : Path) (c : ℕ) :
    leftOver base noFiles c = 0 := by
  simp [leftOver, Disk.numbered, noFiles]

theorem logFiles_le_iff_once :
    twoFiles.maxFiles ≠ 0 ∧
      ∀ t, life [108] twoFiles noFiles [[50]] = .ok t →
        t.logFiles ≤ twoFiles.maxFiles := by
  have hlimit : twoFiles.maxFiles ≠ 0 := by decide
  have hone : trackedAfter twoFiles.maxFiles (noFiles.found [108])
      [[(50 : UInt8)]].length = 1 := by decide +kernel
  constructor
  · exact hlimit
  · apply (logFiles_le_iff [108] twoFiles noFiles [[50]] hlimit).mpr
    right
    rw [leftOver_noFiles, hone]
    decide

/-- Two rotations with a limit of two files leave three of them. -/
theorem three_log_files :
    ¬∀ t, life [108] twoFiles noFiles [[50], [51]] = .ok t →
      t.logFiles ≤ twoFiles.maxFiles := by
  intro hall
  rcases keeps_start [108] twoFiles noFiles with ⟨t₀, hlife, hstart, -⟩
  rcases hstart.rotations (found_lt _ _) [[50], [51]]
    (Or.inl (by decide)) with ⟨t, hrun, hend, -⟩
  have hkept : (keptAfter twoFiles.maxFiles (loadedFiles noFiles [108])
      [[50], [51]]).length = 2 := by decide +kernel
  have hcount := hend.logFiles
  rw [hkept, leftOver_noFiles] at hcount
  have hle := hall t ((hlife _).trans hrun)
  rw [hcount] at hle
  exact absurd hle (by decide)

end Count

end FileTarget

end GreaseLog
