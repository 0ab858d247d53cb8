import GreaseLog.FileRotation

/-!
# One rotation

The loop of `rotate_files` takes the entries from the highest number down, so
that every file finds its next name free.  `Shift` says what it does to the
disk; `Keeps` is the state of a target between rotations.
-/

namespace GreaseLog

/-! ## Names -/

theorem decimal_injective : Function.Injective decimal := by
  have hdigits : ∀ n, (decimal n).map (fun c => c.toNat - 48) =
      (Nat.digits 10 n).reverse := by
    intro n
    rw [decimal, List.map_map, ← List.map_id (Nat.digits 10 n).reverse,
      List.map_map]
    apply List.map_congr_left
    intro d hd
    have hlt : d < 10 :=
      Nat.digits_lt_base (by decide) (List.mem_reverse.mp hd)
    simp only [Function.comp_apply, id_eq, UInt8.toNat_ofNat']
    omega
  intro a b hsame
  have heq := congrArg (List.map fun c => c.toNat - 48) hsame
  rw [hdigits, hdigits, List.reverse_inj] at heq
  exact Nat.digits_inj_iff.mp heq

theorem rotateName_inj {s : Path} {a b : ℕ} :
    rotateName s a = rotateName s b ↔ a = b := by
  constructor
  · intro hsame
    exact decimal_injective (List.cons.inj (List.append_cancel_left hsame)).2
  · exact congrArg (rotateName s)

theorem rotateName_ne (s : Path) (n : ℕ) : rotateName s n ≠ s := by
  intro hsame
  have hlength := congrArg List.length hsame
  simp [rotateName] at hlength

theorem RotatedFile.strRotateName_eq_some
    (s : Path) {n : ℕ} (hn : n < maxRotatedFiles) (hpos : 0 < n) :
    strRotateName s n = some (rotateName s n) :=
  if_pos ⟨hn, hpos⟩

theorem RotatedFile.strRotateName_eq_none
    (s : Path) {n : ℕ} (hn : maxRotatedFiles ≤ n) :
    strRotateName s n = none :=
  if_neg fun h => absurd h.1 (by omega)

namespace Disk

/-- The file with a number, and what renames and removals do to it. -/
def numbered (d : Disk) (base : Path) (j : ℕ) : Option (List UInt8) :=
  d.files (rotateName base j)

theorem numbered_unlink (d : Disk) (base : Path) (i j : ℕ) :
    (d.unlink (rotateName base i)).numbered base j =
      if j = i then none else d.numbered base j := by
  simp [numbered, unlink, rotateName_inj]

theorem numbered_write (d : Disk) (base : Path) (file : List UInt8) (j : ℕ) :
    (d.write base file).numbered base j = d.numbered base j := by
  simp [numbered, write, rotateName_ne]

theorem files_unlink_base (d : Disk) (base : Path) (i : ℕ) :
    (d.unlink (rotateName base i)).files base = d.files base := by
  simp [unlink, (rotateName_ne base _).symm]

theorem files_rename_base (d : Disk) (base : Path) (i j : ℕ) :
    ((d.rename (RotatedFile.strRotateName base i)
      (RotatedFile.strRotateName base j)).getD d).files base =
        d.files base := by
  unfold RotatedFile.strRotateName
  split
  · split
    · cases hfile : d.files (rotateName base i) with
      | none => simp [rename, hfile]
      | some file => simp [rename, hfile, (rotateName_ne base _).symm]
    · rfl
  · rfl

theorem rename_next
    {d : Disk} {base : Path} {i : ℕ} {file : List UInt8}
    (hfile : d.numbered base i = some file) :
    ∃ d', d.rename (some (rotateName base i))
        (some (rotateName base (i + 1))) = some d' ∧
      d'.files base = d.files base ∧
      (∀ j, d'.numbered base j = if j = i + 1 then some file
        else if j = i then none else d.numbered base j) ∧
      d'.replaced = d.replaced ++ (d.numbered base (i + 1)).toList := by
  have hold : d.files (rotateName base i) = some file := hfile
  have hrename : d.rename (some (rotateName base i))
      (some (rotateName base (i + 1))) = some {
        files := fun p =>
          if p = rotateName base (i + 1) then some file
          else if p = rotateName base i then none else d.files p
        replaced := d.replaced ++ (d.numbered base (i + 1)).toList } := by
    simp only [rename, hold]
    rfl
  refine ⟨_, hrename, ?_, ?_, rfl⟩
  · simp [(rotateName_ne base _).symm]
  · intro j
    simp [numbered, rotateName_inj]

theorem rename_first
    {d : Disk} {base : Path} {file : List UInt8}
    (hfile : d.files base = some file) :
    ∃ d', d.rename (some base) (RotatedFile.new base 1).path = some d' ∧
      d'.files base = none ∧
      (∀ j, d'.numbered base j =
        if j = 1 then some file else d.numbered base j) ∧
      d'.replaced = d.replaced ++ (d.numbered base 1).toList := by
  have hname := RotatedFile.strRotateName_eq_some base
    (by decide : 1 < maxRotatedFiles) one_pos
  have hrename : d.rename (some base) (RotatedFile.new base 1).path = some {
      files := fun p =>
        if p = rotateName base 1 then some file
        else if p = base then none else d.files p
      replaced := d.replaced ++ (d.numbered base 1).toList } := by
    simp only [RotatedFile.new, hname, rename, hfile]
    rfl
  refine ⟨_, hrename, ?_, ?_, rfl⟩
  · simp [(rotateName_ne base _).symm]
  · intro j
    simp [numbered, rotateName_inj, rotateName_ne]

/-- What the loop of `rotate_files` does to the disk: the numbers below the
limit go up by one, the others go away.  There is no name for the number
`maxRotatedFiles`. -/
structure Shift (base : Path) (maxFiles e : ℕ) (d d' : Disk) : Prop where
  current : d'.files base = d.files base
  numbered : ∀ j, 1 ≤ j → d'.numbered base j =
    if 2 ≤ j ∧ j ≤ e + 1 ∧ j < maxRotatedFiles ∧
        (maxFiles = 0 ∨ j ≤ maxFiles) then d.numbered base (j - 1)
    else if j ≤ e then none else d.numbered base j
  replaced : 0 < maxFiles → maxFiles < maxRotatedFiles →
    (e < maxFiles → d.numbered base (e + 1) = none) →
      d'.replaced = d.replaced

variable {base : Path} {maxFiles e : ℕ} {d d₁ d' : Disk}

theorem shift_zero (base : Path) (maxFiles : ℕ) (d : Disk) :
    Shift base maxFiles 0 d d := by
  refine ⟨rfl, ?_, fun _ _ _ => rfl⟩
  intro j hj
  rw [if_neg (by omega), if_neg (by omega)]

/-- The highest number is removed. -/
theorem Shift.of_unlink
    (hlimit : maxFiles ≠ 0 ∧ maxFiles < e + 1 + 1)
    (hrest : Shift base maxFiles e (d.unlink (rotateName base (e + 1))) d') :
    Shift base maxFiles (e + 1) d d' := by
  refine ⟨?_, ?_, ?_⟩
  · rw [hrest.current, files_unlink_base]
  · intro j hj
    rw [hrest.numbered j hj]
    simp only [numbered_unlink]
    split_ifs <;> first | rfl | omega
  · intro hpos hmax _
    apply hrest.replaced hpos hmax
    intro _
    rw [numbered_unlink, if_pos rfl]

/-- The highest number goes up. -/
theorem Shift.of_rename
    {file : List UInt8} (hfile : d.numbered base (e + 1) = some file)
    (hlimit : ¬(maxFiles ≠ 0 ∧ maxFiles < e + 1 + 1))
    (hname : e + 1 + 1 < maxRotatedFiles)
    (hrename : d.rename (some (rotateName base (e + 1)))
      (some (rotateName base (e + 1 + 1))) = some d₁)
    (hrest : Shift base maxFiles e d₁ d') :
    Shift base maxFiles (e + 1) d d' := by
  rcases rename_next hfile with ⟨d₂, hsame, hcurrent, hnumbered, hreplaced⟩
  obtain rfl : d₂ = d₁ := Option.some.inj (hsame.symm.trans hrename)
  refine ⟨hrest.current.trans hcurrent, ?_, ?_⟩
  · intro j hj
    rw [hrest.numbered j hj, hnumbered, hnumbered]
    by_cases htop : j = e + 1 + 1
    · rw [if_neg (by omega), if_neg (by omega), if_pos htop, if_pos (by omega),
        htop, Nat.add_sub_cancel, hfile]
    · split_ifs <;> first | rfl | omega
  · intro hpos hmax hfree
    rw [hrest.replaced hpos hmax (by intro _; rw [hnumbered]; simp),
      hreplaced, hfree (by omega)]
    simp

/-- The highest number has no successor. -/
theorem Shift.of_stay
    (hlimit : ¬(maxFiles ≠ 0 ∧ maxFiles < e + 1 + 1))
    (hname : e + 1 + 1 = maxRotatedFiles)
    (hrest : Shift base maxFiles e d d') :
    Shift base maxFiles (e + 1) d d' := by
  have hten : maxRotatedFiles = 10 := rfl
  refine ⟨hrest.current, ?_, ?_⟩
  · intro j hj
    rw [hrest.numbered j hj]
    split_ifs <;> first | rfl | omega
  · intro hpos hmax
    omega

/-- What a rotation does to the disk when the current file is `file`. -/
structure Rotated (base : Path) (maxFiles e : ℕ) (file : List UInt8)
    (d d' : Disk) : Prop where
  current : d'.files base = none
  numbered : ∀ j, 1 ≤ j → d'.numbered base j =
    if j = 1 then some file
    else if j ≤ e + 1 ∧ j < maxRotatedFiles ∧
        (maxFiles = 0 ∨ j ≤ maxFiles) then d.numbered base (j - 1)
    else if j ≤ e then none else d.numbered base j
  replaced : 0 < maxFiles → maxFiles < maxRotatedFiles →
    (e < maxFiles → d.numbered base (e + 1) = none) →
      d'.replaced = d.replaced

/-- After the loop the current file becomes the first one. -/
theorem Shift.rotated
    {file : List UInt8} (hshift : Shift base maxFiles e (d.write base file) d₁) :
    ∃ d', d₁.rename (some base) (RotatedFile.new base 1).path = some d' ∧
      Rotated base maxFiles e file d d' := by
  have hcurrent : d₁.files base = some file := by
    rw [hshift.current]
    simp [write]
  rcases rename_first hcurrent with ⟨d', hrename, hgone, hnumbered, hreplaced⟩
  refine ⟨d', hrename, hgone, ?_, ?_⟩
  · intro j hj
    rw [hnumbered]
    split
    · rfl
    · rw [hshift.numbered j hj, numbered_write, numbered_write]
      split_ifs <;> first | rfl | omega
  · intro hpos hmax hfree
    have hloop : d₁.replaced = d.replaced := by
      refine (hshift.replaced hpos hmax ?_).trans rfl
      intro hlt
      rw [numbered_write]
      exact hfree hlt
    have hone : d₁.numbered base 1 = none := by
      rw [hshift.numbered 1 le_rfl, if_neg (by omega), numbered_write]
      split
      · rfl
      · have hzero : e = 0 := by omega
        subst hzero
        exact hfree hpos
    rw [hreplaced, hloop, hone]
    simp

end Disk

/-! ## One rotation -/

/-- The contents of `rotatedFiles`, the highest number first. -/
def entries (base : Path) : ℕ → List RotatedFile
  | 0 => []
  | e + 1 => RotatedFile.new base (e + 1) :: entries base e

/-- What the loop of `rotate_files` puts into `tempFiles`. -/
def movedEntries (base : Path) (maxFiles : ℕ) : ℕ → List RotatedFile
  | 0 => []
  | e + 1 =>
      if maxFiles ≠ 0 ∧ maxFiles < e + 1 + 1 then movedEntries base maxFiles e
      else RotatedFile.new base (e + 1 + 1) :: movedEntries base maxFiles e

/-- The number of entries after a rotation. -/
def nextCount (maxFiles e : ℕ) : ℕ :=
  if maxFiles = 0 then e + 1 else min (e + 1) maxFiles

theorem nextCount_le (maxFiles e : ℕ) : nextCount maxFiles e ≤ e + 1 := by
  unfold nextCount
  split <;> omega

theorem length_entries (base : Path) (e : ℕ) : (entries base e).length = e := by
  induction e with
  | zero => rfl
  | succ e ih => simp [entries, ih]

theorem movedEntries_append (base : Path) (maxFiles e : ℕ) :
    movedEntries base maxFiles e ++ [RotatedFile.new base 1] =
      entries base (nextCount maxFiles e) := by
  induction e with
  | zero =>
      have hone : nextCount maxFiles 0 = 1 := by
        unfold nextCount
        split <;> omega
      rw [hone]
      rfl
  | succ e ih =>
      unfold movedEntries
      split
      · rename_i hlimit
        have hsame : nextCount maxFiles (e + 1) = nextCount maxFiles e := by
          unfold nextCount
          split <;> omega
        rw [ih, hsame]
      · rename_i hlimit
        have hnext : nextCount maxFiles (e + 1) = nextCount maxFiles e + 1 := by
          unfold nextCount
          split <;> omega
        have hcount : nextCount maxFiles e = e + 1 := by
          unfold nextCount
          split <;> omega
        rw [List.cons_append, ih, hnext, hcount]
        rfl

theorem length_movedEntries (base : Path) (maxFiles e : ℕ) :
    (movedEntries base maxFiles e).length + 1 = nextCount maxFiles e := by
  have hlength := congrArg List.length (movedEntries_append base maxFiles e)
  rwa [List.length_append, List.length_singleton, length_entries] at hlength

namespace FileTarget

variable {base : Path} {maxFiles e fuel : ℕ} {d d' : Disk}
  {q tempFiles tempFiles' : SafeCircular RotatedFile}

theorem valid_tempFiles :
    (SafeCircular.new maxRotatedFiles : SafeCircular RotatedFile).Valid :=
  SafeCircular.valid_new (by decide)

theorem add_eq_ok
    {f : RotatedFile} (hadd : add q f = .ok tempFiles) (hvalid : q.Valid) :
    tempFiles.Valid ∧ tempFiles.toList = q.toList ++ [f] ∧
      tempFiles.size = q.size := by
  unfold add at hadd
  cases hq : q.addMv f with
  | none => simp [hq] at hadd
  | some next =>
      simp only [hq, Except.ok.injEq] at hadd
      subst hadd
      exact hvalid.addMv hq

theorem add_of_room
    (hvalid : q.Valid) (hroom : q.toList.length < q.size) (f : RotatedFile) :
    ∃ next, add q f = .ok next := by
  unfold add
  cases hq : q.addMv f with
  | none =>
      have hfull := (SafeCircular.addMv_eq_none_iff hvalid f).mp hq
      omega
  | some next => exact ⟨next, rfl⟩

theorem add_of_full
    (hvalid : q.Valid) (hfull : q.toList.length = q.size) (f : RotatedFile) :
    add q f = .error .waits := by
  unfold add
  rw [(SafeCircular.addMv_eq_none_iff hvalid f).mpr hfull]

/-- A file past the limit is removed. -/
def removeRound (base : Path) (maxFiles fuel : ℕ)
    (rest tempFiles : SafeCircular RotatedFile) (e : ℕ) (d : Disk) :
    Except RotateFailure (SafeCircular RotatedFile × Disk) :=
  match RotatedFile.strRotateName base (e + 1) with
  | none => .error .asserts
  | some path =>
      rotateLoop base maxFiles fuel rest tempFiles e (d.unlink path)

/-- Another file gets the next number. -/
def moveRound (base : Path) (maxFiles fuel : ℕ)
    (rest tempFiles : SafeCircular RotatedFile) (e : ℕ) (d : Disk) :
    Except RotateFailure (SafeCircular RotatedFile × Disk) := do
  let tempFiles ← add tempFiles (RotatedFile.new base (e + 1 + 1))
  rotateLoop base maxFiles fuel rest tempFiles e
    ((d.rename (RotatedFile.strRotateName base (e + 1))
      (RotatedFile.strRotateName base (e + 1 + 1))).getD d)

/-- One round of the loop. -/
theorem rotateLoop_succ
    (hvalid : q.Valid) (hlist : q.toList = entries base (e + 1)) :
    ∃ rest, rest.Valid ∧ rest.toList = entries base e ∧
      ∀ (fuel : ℕ) (tempFiles : SafeCircular RotatedFile) (d : Disk),
        rotateLoop base maxFiles (fuel + 1) q tempFiles (e + 1) d =
          if maxFiles ≠ 0 ∧ maxFiles < e + 1 + 1 then
            removeRound base maxFiles fuel rest tempFiles e d
          else moveRound base maxFiles fuel rest tempFiles e d := by
  cases hremove : q.removeMv with
  | none =>
      have hnil := SafeCircular.removeMv_eq_none_iff.mp hremove
      simp [hlist, entries] at hnil
  | some taken =>
      rcases taken with ⟨f, rest⟩
      rcases hvalid.removeMv hremove with ⟨hrest, hcons, -⟩
      rw [hlist, entries, List.cons.injEq] at hcons
      refine ⟨rest, hrest, hcons.2.symm, ?_⟩
      intro fuel tempFiles d
      rw [rotateLoop, hremove, ← hcons.1]
      rfl

theorem rotateLoop_nil
    (hlist : q.toList = []) (fuel : ℕ) (tempFiles : SafeCircular RotatedFile)
    (n : ℕ) (d : Disk) :
    rotateLoop base maxFiles fuel q tempFiles n d = .ok (tempFiles, d) := by
  cases fuel with
  | zero => rfl
  | succ fuel =>
      rw [rotateLoop, SafeCircular.removeMv_eq_none_iff.mpr hlist]

/-- What a loop that comes to its end leaves behind. -/
theorem tempFiles_rotateLoop
    (hvalid : q.Valid) (hlist : q.toList = entries base e) (hfuel : e ≤ fuel)
    (htemp : tempFiles.Valid)
    (hloop : rotateLoop base maxFiles fuel q tempFiles e d =
      .ok (tempFiles', d')) :
    tempFiles'.Valid ∧
      tempFiles'.toList = tempFiles.toList ++ movedEntries base maxFiles e ∧
      tempFiles'.size = tempFiles.size ∧ d'.files base = d.files base := by
  induction e generalizing fuel q tempFiles d with
  | zero =>
      rw [rotateLoop_nil hlist] at hloop
      simp only [Except.ok.injEq, Prod.mk.injEq] at hloop
      rcases hloop with ⟨rfl, rfl⟩
      exact ⟨htemp, (List.append_nil _).symm, rfl, rfl⟩
  | succ e ih =>
      obtain ⟨fuel, rfl⟩ : ∃ k, fuel = k + 1 := ⟨fuel - 1, by omega⟩
      rcases rotateLoop_succ hvalid hlist with ⟨rest, hrest, hentries, hround⟩
      rw [hround] at hloop
      split at hloop
      · rename_i hlimit
        unfold removeRound RotatedFile.strRotateName at hloop
        split at hloop
        · simp at hloop
        · rename_i path hpath
          rcases ih hrest hentries (by omega) htemp hloop with
            ⟨hdone, hmoved, hsame, hcurrent⟩
          split at hpath
          · obtain rfl := Option.some.inj hpath
            rw [Disk.files_unlink_base] at hcurrent
            rw [movedEntries, if_pos hlimit]
            exact ⟨hdone, hmoved, hsame, hcurrent⟩
          · simp at hpath
      · rename_i hlimit
        unfold moveRound at hloop
        cases hadd : add tempFiles (RotatedFile.new base (e + 1 + 1)) with
        | error failure =>
            rw [hadd] at hloop
            exact absurd hloop (by intro hbad; cases hbad)
        | ok added =>
            rw [hadd] at hloop
            rcases add_eq_ok hadd htemp with ⟨hnext, hitems, hsize⟩
            rcases ih hrest hentries (by omega) hnext hloop with
              ⟨hdone, hmoved, hsame, hcurrent⟩
            rw [Disk.files_rename_base] at hcurrent
            refine ⟨hdone, ?_, hsame.trans hsize, hcurrent⟩
            rw [hmoved, hitems, movedEntries, if_neg hlimit]
            simp

/-- With names for all files and room for all entries the loop comes to its
end. -/
theorem rotateLoop_shift
    (hvalid : q.Valid) (hlist : q.toList = entries base e) (hfuel : e ≤ fuel)
    (htemp : tempFiles.Valid) (hroom : tempFiles.toList.length + e ≤
      tempFiles.size) (hnames : e < maxRotatedFiles)
    (hfiles : ∀ j, 1 ≤ j → j ≤ e → (d.numbered base j).isSome) :
    ∃ tempFiles' d', rotateLoop base maxFiles fuel q tempFiles e d =
      .ok (tempFiles', d') ∧ d.Shift base maxFiles e d' := by
  induction e generalizing fuel q tempFiles d with
  | zero =>
      exact ⟨tempFiles, d, rotateLoop_nil hlist _ _ _ _,
        Disk.shift_zero base maxFiles d⟩
  | succ e ih =>
      obtain ⟨fuel, rfl⟩ : ∃ k, fuel = k + 1 := ⟨fuel - 1, by omega⟩
      rcases rotateLoop_succ hvalid hlist with ⟨rest, hrest, hentries, hround⟩
      have hname := RotatedFile.strRotateName_eq_some base hnames
        (Nat.succ_pos e)
      have hless : e ≤ fuel := by omega
      rw [hround]
      split
      · rename_i hlimit
        unfold removeRound
        rw [hname]
        have hleft : ∀ j, 1 ≤ j → j ≤ e →
            ((d.unlink (rotateName base (e + 1))).numbered base j).isSome := by
          intro j hj hle
          rw [Disk.numbered_unlink, if_neg (by omega)]
          exact hfiles j hj (by omega)
        rcases ih hrest hentries hless htemp (by omega) (by omega) hleft
          with ⟨tempFiles', d', hloop, hshift⟩
        exact ⟨tempFiles', d', hloop, hshift.of_unlink hlimit⟩
      · rename_i hlimit
        unfold moveRound
        rcases add_of_room htemp (by omega)
          (RotatedFile.new base (e + 1 + 1)) with ⟨added, hadd⟩
        rcases add_eq_ok hadd htemp with ⟨hnext, hitems, hsize⟩
        have hleft : added.toList.length + e ≤ added.size := by
          rw [hitems, hsize, List.length_append, List.length_singleton]
          omega
        rw [hadd, hname]
        by_cases hlast : e + 1 + 1 < maxRotatedFiles
        · rcases Option.isSome_iff_exists.mp (hfiles (e + 1) (by omega) le_rfl)
            with ⟨file, hfile⟩
          rcases Disk.rename_next hfile with
            ⟨d₁, hrename, -, hnumbered, -⟩
          have hfiles₁ : ∀ j, 1 ≤ j → j ≤ e →
              (d₁.numbered base j).isSome := by
            intro j hj hle
            rw [hnumbered, if_neg (by omega), if_neg (by omega)]
            exact hfiles j hj (by omega)
          rcases ih (d := d₁) hrest hentries hless hnext hleft (by omega)
            hfiles₁ with ⟨tempFiles', d', hloop, hshift⟩
          refine ⟨tempFiles', d', ?_,
            hshift.of_rename hfile hlimit hlast hrename⟩
          rw [RotatedFile.strRotateName_eq_some base hlast (Nat.succ_pos _),
            hrename]
          exact hloop
        · have hten : e + 1 + 1 = maxRotatedFiles := by omega
          rcases ih (d := d) hrest hentries hless hnext hleft (by omega)
            (fun j hj hle => hfiles j hj (by omega)) with
            ⟨tempFiles', d', hloop, hshift⟩
          refine ⟨tempFiles', d', ?_, hshift.of_stay hlimit hten⟩
          rw [RotatedFile.strRotateName_eq_none base (by omega)]
          exact hloop

/-- The state of a target which found the files up to the number `k`: `e`
entries, and the files in `kept`, the last one rotated first, under the numbers
from one on.  Other files are those of the `old` disk. -/
structure Keeps (base : Path) (maxFiles k : ℕ) (old : Disk) (t : FileTarget)
    (e : ℕ) (kept : List (List UInt8)) : Prop where
  myPath : t.myPath = base
  limit : t.filerotation.maxFiles = maxFiles
  valid : t.rotatedFiles.Valid
  size : t.rotatedFiles.size = maxRotatedFiles
  list : t.rotatedFiles.toList = entries base e
  le_size : e ≤ maxRotatedFiles
  length : kept.length = min e (maxRotatedFiles - 1)
  le_limit : e ≤ k ∨ maxFiles = 0 ∨ e ≤ maxFiles
  current : (t.disk.files base).isSome
  numbered : ∀ j, 1 ≤ j → t.disk.numbered base j =
    if j ≤ kept.length then kept[j - 1]?
    else if k < j then old.numbered base j else none

/-- How many files a rotation keeps. -/
def keptLimit (maxFiles : ℕ) : ℕ :=
  if maxFiles = 0 then maxRotatedFiles - 1
  else min maxFiles (maxRotatedFiles - 1)

variable {k : ℕ} {old : Disk} {t : FileTarget} {kept : List (List UInt8)}

theorem Keeps.remaining (h : Keeps base maxFiles k old t e kept) :
    t.rotatedFiles.remaining = e := by
  rw [← SafeCircular.length_toList, h.list, length_entries]

/-- What `rotate_files` does after its loop. -/
theorem Keeps.rotateFiles_of_loop
    (h : Keeps base maxFiles k old t e kept) {file : List UInt8}
    (hloop : rotateLoop base maxFiles e t.rotatedFiles
      (SafeCircular.new maxRotatedFiles) e (t.disk.write base file) =
        .ok (tempFiles, d'))
    (hrename : d'.rename (some base) (RotatedFile.new base 1).path = some d) :
    { t with disk := t.disk.write base file }.rotateFiles =
      (add tempFiles (RotatedFile.new base 1)).map fun q =>
        { t with rotatedFiles := q, currentSize := 0, disk := d } := by
  unfold FileTarget.rotateFiles
  dsimp only
  rw [h.remaining, h.myPath, h.limit, hloop]
  simp only [bind, Except.bind, hrename]
  cases add tempFiles (RotatedFile.new base 1) with
  | error failure => rfl
  | ok q => rfl

theorem Keeps.rotateFiles
    (h : Keeps base maxFiles k old t e kept) (hroom : e < maxRotatedFiles)
    (file : List UInt8) :
    ∃ q d, { t with disk := t.disk.write base file }.rotateFiles =
        .ok { t with rotatedFiles := q, currentSize := 0, disk := d } ∧
      q.Valid ∧ q.size = maxRotatedFiles ∧
      q.toList = entries base (nextCount maxFiles e) ∧
      t.disk.Rotated base maxFiles e file d := by
  have hfiles : ∀ j, 1 ≤ j → j ≤ e →
      ((t.disk.write base file).numbered base j).isSome := by
    intro j hj hle
    have hlt : j - 1 < kept.length := by
      rw [h.length]
      omega
    rw [Disk.numbered_write, h.numbered j hj, if_pos (by omega),
      List.getElem?_eq_getElem hlt, Option.isSome_some]
  have hempty : (SafeCircular.new maxRotatedFiles :
      SafeCircular RotatedFile).toList.length + e ≤ maxRotatedFiles := by
    rw [SafeCircular.toList_new, List.length_nil]
    omega
  obtain ⟨tempFiles, d', hloop, hshift⟩ : ∃ tempFiles d',
      rotateLoop base maxFiles e t.rotatedFiles
        (SafeCircular.new maxRotatedFiles) e (t.disk.write base file) =
          .ok (tempFiles, d') ∧
        (t.disk.write base file).Shift base maxFiles e d' :=
    rotateLoop_shift h.valid h.list le_rfl valid_tempFiles hempty hroom hfiles
  rcases hshift.rotated with ⟨d, hrename, hrotated⟩
  rcases tempFiles_rotateLoop h.valid h.list le_rfl valid_tempFiles hloop with
    ⟨hdone, hmoved, hsize, -⟩
  have hfull : tempFiles.size = maxRotatedFiles := hsize
  rw [SafeCircular.toList_new, List.nil_append] at hmoved
  have hfits : tempFiles.toList.length < tempFiles.size := by
    have hcount := length_movedEntries base maxFiles e
    have hnext := nextCount_le maxFiles e
    rw [hmoved, hfull]
    omega
  rcases add_of_room hdone hfits (RotatedFile.new base 1) with ⟨q, hadd⟩
  rcases add_eq_ok hadd hdone with ⟨hvalid, hlist, hlast⟩
  refine ⟨q, d, ?_, hvalid, hlast.trans hfull, ?_, hrotated⟩
  · rw [h.rotateFiles_of_loop hloop hrename, hadd]
    rfl
  · rw [hlist, hmoved, movedEntries_append]

/-- The files a rotation keeps are found under their new numbers. -/
theorem Keeps.numbered_rotated
    (h : Keeps base maxFiles k old t e kept) (hroom : e < maxRotatedFiles)
    {file : List UInt8} (hrotated : t.disk.Rotated base maxFiles e file d)
    {j : ℕ} (hj : 1 ≤ j) :
    d.numbered base j =
      if j ≤ min (nextCount maxFiles e) (maxRotatedFiles - 1) then
        ((file :: kept).take (keptLimit maxFiles))[j - 1]?
      else if k < j then old.numbered base j else none := by
  have hten : maxRotatedFiles = 10 := rfl
  have hkept : kept.length = e := by
    rw [h.length]
    omega
  have hnext := nextCount_le maxFiles e
  have hcount : nextCount maxFiles e =
      if maxFiles = 0 then e + 1 else min (e + 1) maxFiles := rfl
  rw [hrotated.numbered j hj]
  by_cases hle : j ≤ min (nextCount maxFiles e) (maxRotatedFiles - 1)
  · have hlt : j - 1 < keptLimit maxFiles := by
      unfold keptLimit
      split_ifs at hcount ⊢ <;> omega
    rw [if_pos hle, List.getElem?_take_of_lt hlt]
    by_cases hone : j = 1
    · rw [if_pos hone, hone]
      rfl
    · obtain ⟨i, rfl⟩ : ∃ i, j = i + 2 := ⟨j - 2, by omega⟩
      rw [if_neg hone, if_pos (by split_ifs at hcount <;> omega),
        h.numbered _ (by omega), if_pos (by omega)]
      rfl
  · have hlimit := h.le_limit
    rw [if_neg hle, if_neg (by split_ifs at hcount <;> omega),
      if_neg (by split_ifs at hcount <;> omega)]
    by_cases hentry : j ≤ e
    · rw [if_pos hentry, if_neg (by split_ifs at hcount <;> omega)]
    · rw [if_neg hentry, h.numbered j hj, if_neg (by omega)]

theorem openFile_of_none
    {t : FileTarget} (hnone : t.disk.files t.myPath = none) :
    t.openFile = { t with disk := t.disk.write t.myPath [] } := by
  simp [openFile, hnone]

theorem Keeps.rotate
    (h : Keeps base maxFiles k old t e kept) (hroom : e < maxRotatedFiles)
    (file : List UInt8) :
    ∃ t', t.rotate file = .ok t' ∧
      Keeps base maxFiles k old t' (nextCount maxFiles e)
        ((file :: kept).take (keptLimit maxFiles)) ∧
      (0 < maxFiles → maxFiles < maxRotatedFiles →
        (e < maxFiles → t.disk.numbered base (e + 1) = none) →
          t'.disk.replaced = t.disk.replaced) := by
  rcases h.rotateFiles hroom file with
    ⟨q, d, hrotate, hvalid, hsize, hlist, hrotated⟩
  set t₁ : FileTarget :=
    { t with rotatedFiles := q, currentSize := 0, disk := d } with ht₁
  have hpath : t₁.myPath = base := h.myPath
  have hopened : t₁.openFile = { t₁ with disk := d.write base [] } := by
    have hnone : t₁.disk.files t₁.myPath = none := by
      rw [hpath]
      exact hrotated.current
    rw [openFile_of_none hnone, hpath]
  have hlength : ((file :: kept).take (keptLimit maxFiles)).length =
      min (nextCount maxFiles e) (maxRotatedFiles - 1) := by
    rw [List.length_take, List.length_cons, h.length]
    unfold keptLimit nextCount
    split <;> omega
  have hnext := nextCount_le maxFiles e
  refine ⟨t₁.openFile, ?_, ?_, ?_⟩
  · have hwritten : t.disk.write t.myPath file = t.disk.write base file := by
      rw [h.myPath]
    rw [FileTarget.rotate, hwritten, hrotate]
    rfl
  · rw [hopened]
    refine ⟨hpath, h.limit, hvalid, hsize, hlist, by omega, hlength, ?_, ?_, ?_⟩
    · right
      unfold nextCount
      split <;> omega
    · simp [Disk.write]
    · intro j hj
      rw [Disk.numbered_write, hlength]
      exact h.numbered_rotated hroom hrotated hj
  · intro hpos hmax hfree
    rw [hopened]
    exact hrotated.replaced hpos hmax hfree

/-- A full buffer does not survive a rotation: the last entry has no name to
remove, or the entries of all files do not fit any more. -/
theorem Keeps.rotate_full
    (h : Keeps base maxFiles k old t maxRotatedFiles kept)
    (hk : k < maxRotatedFiles) (file : List UInt8) :
    ∃ failure, t.rotate file = .error failure := by
  have hten : maxRotatedFiles = 10 := rfl
  have hwritten : t.disk.write t.myPath file = t.disk.write base file := by
    rw [h.myPath]
  rw [FileTarget.rotate, hwritten]
  suffices hfails : ∃ failure,
      { t with disk := t.disk.write base file }.rotateFiles = .error failure by
    rcases hfails with ⟨failure, hfails⟩
    exact ⟨failure, by rw [hfails]; rfl⟩
  cases hloop : rotateLoop base maxFiles maxRotatedFiles t.rotatedFiles
      (SafeCircular.new maxRotatedFiles) maxRotatedFiles
      (t.disk.write base file) with
  | error failure =>
      refine ⟨failure, ?_⟩
      unfold FileTarget.rotateFiles
      dsimp only
      rw [h.remaining, h.myPath, h.limit, hloop]
      rfl
  | ok done =>
      rcases done with ⟨tempFiles, d'⟩
      rcases tempFiles_rotateLoop h.valid h.list le_rfl valid_tempFiles hloop
        with ⟨hdone, hmoved, hsize, hframe⟩
      -- a limit of `maxRotatedFiles` has failed in the first round
      have hlimit : maxFiles ≠ maxRotatedFiles := by
        intro heq
        rcases rotateLoop_succ (e := 9) h.valid h.list with
          ⟨rest, -, -, hround⟩
        have hbad := (hround 9 (SafeCircular.new maxRotatedFiles)
          (t.disk.write base file)).symm.trans hloop
        rw [if_pos (by omega), removeRound,
          RotatedFile.strRotateName_eq_none base (by omega)] at hbad
        simp at hbad
      have hmany : nextCount maxFiles maxRotatedFiles =
          maxRotatedFiles + 1 := by
        have hcases := h.le_limit
        unfold nextCount
        split <;> omega
      have hfull : tempFiles.toList.length = tempFiles.size := by
        have hlast : tempFiles.size = maxRotatedFiles := hsize
        have hcount := length_movedEntries base maxFiles maxRotatedFiles
        rw [hmoved, SafeCircular.toList_new, List.nil_append, hlast]
        omega
      have hcurrent : d'.files base = some file := by
        rw [hframe]
        simp [Disk.write]
      rcases Disk.rename_first hcurrent with ⟨d, hrename, -⟩
      refine ⟨.waits, ?_⟩
      rw [h.rotateFiles_of_loop hloop hrename, add_of_full hdone hfull]
      rfl

end FileTarget

end GreaseLog
