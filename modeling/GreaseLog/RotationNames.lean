import GreaseLog.RotatedFiles

/-!
# Names for all rotated files

A rotation gives every file it keeps the next number, and there are names for
the numbers below `MAX_ROTATED_FILES` only.  The entries of a target are
followed here as a list of numbers, the highest one first.  The files on the
disk do not matter for it, except that a rotation which finds no current file
adds no entry with the number one; the numbers then have a gap.

As long as all entries have names, `tempFiles` has room for them and a rotation
comes back.  It leaves an entry without a name exactly if the entry with the
highest number goes up from the last name.
-/

namespace GreaseLog

namespace FileTarget

/-- Every entry has a name. -/
def Usable (t : FileTarget) : Prop :=
  ∀ f ∈ t.rotatedFiles.toList,
    f.path.isSome ∧ 1 ≤ f.num ∧ f.num < maxRotatedFiles

/-- If rotation is enabled, the highest number can go up, or the file is
removed because there are `max_files` of them. -/
def Rotatable (t : FileTarget) : Prop :=
  t.filerotation.enabled = true → ∀ f ∈ t.rotatedFiles.toList.head?,
    f.num + 1 < maxRotatedFiles ∨
      t.filerotation.maxFiles ≠ 0 ∧
        t.filerotation.maxFiles ≤ t.rotatedFiles.remaining

/-! ## The numbers of a rotation -/

/-- The entries with these numbers are moved to the next one. -/
def keptNumbers (maxFiles : ℕ) : List ℕ → List ℕ
  | [] => []
  | x :: rest =>
      if maxFiles ≠ 0 ∧ maxFiles < rest.length + 1 + 1 then
        keptNumbers maxFiles rest
      else x :: keptNumbers maxFiles rest

theorem keptNumbers_sublist (maxFiles : ℕ) (nums : List ℕ) :
    (keptNumbers maxFiles nums).Sublist nums := by
  induction nums with
  | nil => exact List.Sublist.refl _
  | cons x rest ih =>
      unfold keptNumbers
      split
      · exact ih.cons x
      · exact ih.cons_cons x

/-- Only the highest number can be the last one with a name. -/
theorem keptNumbers_lt_iff
    {maxFiles : ℕ} {nums : List ℕ} (hdescending : nums.Pairwise (· > ·))
    (hnamed : ∀ x ∈ nums, x < maxRotatedFiles) :
    (∀ x ∈ keptNumbers maxFiles nums, x + 1 < maxRotatedFiles) ↔
      ∀ x ∈ nums.head?, x + 1 < maxRotatedFiles ∨
        maxFiles ≠ 0 ∧ maxFiles ≤ nums.length := by
  cases nums with
  | nil => simp [keptNumbers]
  | cons x rest =>
      have hrest : ∀ y ∈ keptNumbers maxFiles rest,
          y + 1 < maxRotatedFiles := by
        intro y hy
        have hmem := (keptNumbers_sublist maxFiles rest).subset hy
        have hlt : x > y := (List.pairwise_cons.mp hdescending).1 y hmem
        have hx := hnamed x List.mem_cons_self
        omega
      simp only [List.head?_cons, Option.mem_some_iff, forall_eq',
        List.length_cons]
      unfold keptNumbers
      split
      · rename_i hremoved
        exact ⟨fun _ => Or.inr ⟨hremoved.1, by omega⟩, fun _ => hrest⟩
      · rename_i hkept
        constructor
        · intro hall
          exact Or.inl (hall x List.mem_cons_self)
        · rintro (hlt | hremoved) y hy
          · rcases List.mem_cons.mp hy with rfl | hin
            · exact hlt
            · exact hrest y hin
          · exact absurd ⟨hremoved.1, by omega⟩ hkept

/-! ## The loop -/

section Loop

variable {base : Path} {maxFiles : ℕ}
  {q tempFiles : SafeCircular RotatedFile}

theorem rotateLoop_numbers
    {nums : List ℕ} (hvalid : q.Valid)
    (hlist : q.toList = nums.map (RotatedFile.new base))
    (hnamed : ∀ x ∈ nums, 1 ≤ x ∧ x < maxRotatedFiles)
    (htemp : tempFiles.Valid)
    (hroom : tempFiles.toList.length + nums.length ≤ tempFiles.size)
    (d : Disk) :
    ∃ done d', rotateLoop base maxFiles nums.length q tempFiles nums.length d =
        .ok (done, d') ∧
      done.Valid ∧ done.size = tempFiles.size ∧
      done.toList = tempFiles.toList ++
        ((keptNumbers maxFiles nums).map (· + 1)).map
          (RotatedFile.new base) := by
  induction nums generalizing q tempFiles d with
  | nil =>
      refine ⟨tempFiles, d, rfl, htemp, rfl, ?_⟩
      simp [keptNumbers]
  | cons x rest ih =>
      cases hremove : q.removeMv with
      | none =>
          rw [SafeCircular.removeMv_eq_none_iff.mp hremove] at hlist
          simp at hlist
      | some taken =>
          rcases taken with ⟨f, left⟩
          rcases hvalid.removeMv hremove with ⟨hleft, hcons, -⟩
          rw [hlist, List.map_cons, List.cons.injEq] at hcons
          rcases hcons with ⟨hf, hleftList⟩
          have hnamedRest : ∀ y ∈ rest, 1 ≤ y ∧ y < maxRotatedFiles :=
            fun y hy => hnamed y (List.mem_cons_of_mem _ hy)
          rw [List.length_cons] at hroom ⊢
          rw [rotateLoop]
          simp only [hremove, ← hf]
          unfold keptNumbers
          split
          · have hx := hnamed x List.mem_cons_self
            have hname := RotatedFile.strRotateName_eq_some base hx.2 hx.1
            simp only [RotatedFile.new, hname, Nat.add_sub_cancel]
            exact ih hleft hleftList.symm hnamedRest htemp (by omega) _
          · rcases add_of_room htemp (by omega)
              (RotatedFile.new base (x + 1)) with ⟨grown, hadd⟩
            rcases add_eq_ok hadd htemp with ⟨hgrown, hgrownList, hsize⟩
            have hfits : grown.toList.length + rest.length ≤ grown.size := by
              rw [hgrownList, hsize, List.length_append, List.length_singleton]
              omega
            rcases ih hleft hleftList.symm hnamedRest hgrown hfits
              ((d.rename (RotatedFile.new base x).path
                (RotatedFile.new base (x + 1)).path).getD d) with
              ⟨done, d', hloop, hdone, hsame, hdoneList⟩
            refine ⟨done, d', ?_, hdone, hsame.trans hsize, ?_⟩
            · have hnum : (RotatedFile.new base x).num = x := rfl
              rw [hnum, hadd]
              exact hloop
            · rw [hdoneList, hgrownList]
              simp

end Loop

/-! ## One rotation -/

/-- The entries of the target have these numbers, and names for all of them. -/
structure Numbered (t : FileTarget) (nums : List ℕ) : Prop where
  valid : t.rotatedFiles.Valid
  size : t.rotatedFiles.size = maxRotatedFiles
  list : t.rotatedFiles.toList = nums.map (RotatedFile.new t.myPath)
  descending : nums.Pairwise (· > ·)
  named : ∀ x ∈ nums, 1 ≤ x ∧ x < maxRotatedFiles

variable {t : FileTarget} {nums : List ℕ}

theorem Numbered.remaining (h : t.Numbered nums) :
    t.rotatedFiles.remaining = nums.length := by
  rw [← SafeCircular.length_toList, h.list, List.length_map]

theorem Numbered.length_lt (h : t.Numbered nums) :
    nums.length < maxRotatedFiles := by
  have hnodup : nums.Nodup := h.descending.imp fun hgt => Nat.ne_of_gt hgt
  have hsub : nums.toFinset ⊆ Finset.Ico 1 maxRotatedFiles := by
    intro x hx
    rw [Finset.mem_Ico]
    exact h.named x (List.mem_toFinset.mp hx)
  have hcard := Finset.card_le_card hsub
  rw [List.toFinset_card_of_nodup hnodup, Nat.card_Ico] at hcard
  have hten : maxRotatedFiles = 10 := rfl
  omega

theorem usable_iff_named
    (hlist : t.rotatedFiles.toList = nums.map (RotatedFile.new t.myPath)) :
    t.Usable ↔ ∀ x ∈ nums, 1 ≤ x ∧ x < maxRotatedFiles := by
  unfold Usable
  rw [hlist, List.forall_mem_map]
  constructor
  · intro hall x hx
    exact (hall x hx).2
  · intro hall x hx
    have hrange := hall x hx
    refine ⟨?_, hrange⟩
    rw [RotatedFile.new, RotatedFile.strRotateName_eq_some _ hrange.2 hrange.1]
    rfl

theorem Numbered.usable (h : t.Numbered nums) : t.Usable :=
  (usable_iff_named h.list).mpr h.named

theorem Numbered.rotatable_iff (h : t.Numbered nums) :
    t.Rotatable ↔ (t.filerotation.enabled = true →
      ∀ x ∈ keptNumbers t.filerotation.maxFiles nums,
        x + 1 < maxRotatedFiles) := by
  unfold Rotatable
  rw [keptNumbers_lt_iff h.descending fun x hx => (h.named x hx).2, h.list,
    List.head?_map, h.remaining]
  cases nums.head? <;> simp [RotatedFile.new]

/-- What a rotation leaves unchanged. -/
structure SameSetup (t t' : FileTarget) : Prop where
  myPath : t'.myPath = t.myPath
  filerotation : t'.filerotation = t.filerotation

/-- A rotation comes back.  The numbers it keeps go up by one, and the current
file gets the number one if there is a current file. -/
theorem Numbered.rotateFiles_numbers (h : t.Numbered nums) :
    ∃ t' first, t.rotateFiles = .ok t' ∧ t.SameSetup t' ∧
      (first = [] ∨ first = [1]) ∧
      t'.rotatedFiles.Valid ∧ t'.rotatedFiles.size = maxRotatedFiles ∧
      t'.rotatedFiles.toList =
        ((keptNumbers t.filerotation.maxFiles nums).map (· + 1) ++ first).map
          (RotatedFile.new t.myPath) := by
  have hlt := h.length_lt
  have hempty : (SafeCircular.new maxRotatedFiles :
      SafeCircular RotatedFile).toList = [] := SafeCircular.toList_new _
  obtain ⟨tempFiles, d, hloop, hvalid, hsize, hlist⟩ : ∃ done d,
      rotateLoop t.myPath t.filerotation.maxFiles nums.length t.rotatedFiles
        (SafeCircular.new maxRotatedFiles) nums.length t.disk =
          .ok (done, d) ∧
      done.Valid ∧ done.size = maxRotatedFiles ∧
      done.toList = (SafeCircular.new maxRotatedFiles :
        SafeCircular RotatedFile).toList ++
          ((keptNumbers t.filerotation.maxFiles nums).map (· + 1)).map
            (RotatedFile.new t.myPath) :=
    rotateLoop_numbers h.valid h.list h.named valid_tempFiles
      (by rw [hempty, List.length_nil, Nat.zero_add]; exact hlt.le) t.disk
  rw [hempty, List.nil_append] at hlist
  unfold rotateFiles
  dsimp only
  rw [h.remaining, hloop]
  simp only [bind, Except.bind]
  cases hrename : d.rename (some t.myPath) (RotatedFile.new t.myPath 1).path with
  | none =>
      refine ⟨_, [], rfl, ⟨rfl, rfl⟩, Or.inl rfl, hvalid, hsize, ?_⟩
      rw [List.append_nil]
      exact hlist
  | some d' =>
      have hkept := (keptNumbers_sublist t.filerotation.maxFiles
        nums).length_le
      have hroom : tempFiles.toList.length < tempFiles.size := by
        rw [hlist, hsize, List.length_map, List.length_map]
        omega
      rcases add_of_room hvalid hroom (RotatedFile.new t.myPath 1) with
        ⟨grown, hadd⟩
      rcases add_eq_ok hadd hvalid with ⟨hgrown, hgrownList, hsame⟩
      simp only [hadd]
      refine ⟨_, [1], rfl, ⟨rfl, rfl⟩, Or.inr rfl, hgrown,
        hsame.trans hsize, ?_⟩
      rw [List.map_append]
      exact hgrownList.trans (by rw [hlist]; rfl)

theorem sameSetup_openFile (t : FileTarget) :
    t.SameSetup t.openFile ∧ t.openFile.rotatedFiles = t.rotatedFiles := by
  rcases t.openFile_spec with ⟨d, hopened, -⟩
  rw [hopened]
  exact ⟨⟨rfl, rfl⟩, rfl⟩

theorem Numbered.of_same
    {t' : FileTarget} (h : t.Numbered nums) (hpath : t'.myPath = t.myPath)
    (hfiles : t'.rotatedFiles = t.rotatedFiles) : t'.Numbered nums :=
  ⟨hfiles ▸ h.valid, hfiles ▸ h.size, by rw [hfiles, hpath, h.list],
    h.descending, h.named⟩

theorem Numbered.openFile (h : t.Numbered nums) : t.openFile.Numbered nums :=
  h.of_same t.sameSetup_openFile.1.myPath t.sameSetup_openFile.2

theorem usable_openFile (t : FileTarget) : t.openFile.Usable ↔ t.Usable := by
  unfold Usable
  rw [t.sameSetup_openFile.2]

/-- A rotation leaves a name for every entry exactly if the highest number can
go up or is removed. -/
theorem Numbered.rotateFiles_usable
    (h : t.Numbered nums) (henabled : t.filerotation.enabled = true) :
    ∃ t', t.rotateFiles = .ok t' ∧ t.SameSetup t' ∧
      (t'.Usable ↔ t.Rotatable) ∧
      (t.Rotatable → ∃ nums', t'.Numbered nums') := by
  rcases h.rotateFiles_numbers with
    ⟨t', first, hrotate, hsetup, hfirst, hvalid, hsize, hlist⟩
  set nums' := (keptNumbers t.filerotation.maxFiles nums).map (· + 1) ++ first
    with hnums'
  rw [← hsetup.myPath] at hlist
  have hone : ∀ x ∈ first, x = 1 := by
    rcases hfirst with rfl | rfl <;> simp
  have hnamed : (∀ x ∈ nums', 1 ≤ x ∧ x < maxRotatedFiles) ↔ t.Rotatable := by
    rw [h.rotatable_iff, hnums']
    constructor
    · intro hall _ x hx
      exact (hall (x + 1) (List.mem_append_left _
        (List.mem_map_of_mem hx))).2
    · intro hall x hx
      rcases List.mem_append.mp hx with hkept | hnew
      · rcases List.mem_map.mp hkept with ⟨y, hy, rfl⟩
        exact ⟨by omega, hall henabled y hy⟩
      · rw [hone x hnew]
        decide
  refine ⟨t', hrotate, hsetup, (usable_iff_named hlist).trans hnamed, ?_⟩
  intro hrotatable
  refine ⟨nums', hvalid, hsize, hlist, ?_, hnamed.mpr hrotatable⟩
  have hkept : (keptNumbers t.filerotation.maxFiles nums).Pairwise (· > ·) :=
    h.descending.sublist (keptNumbers_sublist _ _)
  rw [hnums', List.pairwise_append]
  refine ⟨?_, ?_, ?_⟩
  · exact hkept.map _ fun _ _ hgt => Nat.succ_lt_succ hgt
  · rcases hfirst with rfl | rfl <;> simp
  · intro x hx y hy
    rcases List.mem_map.mp hx with ⟨z, hz, rfl⟩
    have hpos := (h.named z ((keptNumbers_sublist _ _).subset hz)).1
    rw [hone y hy]
    omega

/-! ## The life of a target -/

theorem Numbered.rotateAfter
    (h : t.Numbered nums) (change : Disk → Disk) :
    ∃ t', t.rotateAfter change = .ok t' ∧ (t'.Usable ↔ t.Rotatable) ∧
      (t.Rotatable → ∃ nums', t'.Numbered nums') := by
  have hchanged : { t with disk := change t.disk }.Numbered nums :=
    h.of_same rfl rfl
  unfold FileTarget.rotateAfter
  dsimp only
  split
  · rename_i henabled
    rcases hchanged.rotateFiles_usable henabled with
      ⟨t', hrotate, -, husable, hnumbered⟩
    refine ⟨t'.openFile, ?_, t'.usable_openFile.trans husable, ?_⟩
    · rw [hrotate]
      rfl
    · intro hrotatable
      rcases hnumbered hrotatable with ⟨nums', hnext⟩
      exact ⟨nums', hnext.openFile⟩
  · rename_i hdisabled
    refine ⟨_, rfl, ?_, fun _ => ⟨nums, hchanged⟩⟩
    exact iff_of_true hchanged.usable fun henabled =>
      absurd henabled hdisabled

/-- All rotations come back and leave names for all entries exactly if each of
them starts from a state in which the highest number can go up or is
removed. -/
theorem Numbered.rotations_usable_iff
    (h : t.Numbered nums) (changes : List (Disk → Disk)) :
    (∀ n, ∃ t', (changes.take n).foldlM FileTarget.rotateAfter t = .ok t' ∧
        t'.Usable) ↔
      ∀ n < changes.length, ∀ t',
        (changes.take n).foldlM FileTarget.rotateAfter t = .ok t' →
          t'.Rotatable := by
  induction changes generalizing t nums with
  | nil =>
      have hstart : ∀ n, ∃ t', (([] : List (Disk → Disk)).take n).foldlM
          FileTarget.rotateAfter t = .ok t' ∧ t'.Usable := by
        intro n
        rw [List.take_nil]
        exact ⟨t, rfl, h.usable⟩
      exact iff_of_true hstart fun n hn => absurd hn (Nat.not_lt_zero n)
  | cons change rest ih =>
      rcases h.rotateAfter change with ⟨t₁, hrotate, husable, hnumbered⟩
      have hcons : ∀ n, ((change :: rest).take (n + 1)).foldlM
          FileTarget.rotateAfter t =
            (rest.take n).foldlM FileTarget.rotateAfter t₁ := by
        intro n
        rw [List.take_succ_cons, List.foldlM_cons, hrotate]
        rfl
      constructor
      · intro hall
        have hrotatable : t.Rotatable := by
          rcases hall 1 with ⟨t', hrun, hnamed⟩
          rw [hcons 0, List.take_zero] at hrun
          cases hrun
          exact husable.mp hnamed
        rcases hnumbered hrotatable with ⟨nums₁, hnext⟩
        have hrest := (ih hnext).mp fun n => hcons n ▸ hall (n + 1)
        intro n hn t' hrun
        cases n with
        | zero =>
            cases hrun
            exact hrotatable
        | succ n =>
            rw [hcons] at hrun
            exact hrest n (Nat.succ_lt_succ_iff.mp hn) t' hrun
      · intro hall
        have hrotatable : t.Rotatable := hall 0 (Nat.zero_lt_succ _) t rfl
        rcases hnumbered hrotatable with ⟨nums₁, hnext⟩
        have hrest := (ih hnext).mpr fun n hn t' hrun =>
          hall (n + 1) (Nat.succ_lt_succ hn) t' ((hcons n).trans hrun)
        intro n
        cases n with
        | zero => exact ⟨t, rfl, h.usable⟩
        | succ n =>
            rw [hcons]
            exact hrest n

/-- A rotation at the start, too, begins with such a state. -/
def StartsRotatable (path : Path) (rotateopts : RotationOpts) (disk : Disk) :
    Prop :=
  ∀ t needsRotate,
    (FileTarget.new path rotateopts disk).checkFiles = .ok (t, needsRotate) →
      (needsRotate || rotateopts.rotateOnStart) = true → t.Rotatable

theorem numbered_new (path : Path) (rotateopts : RotationOpts) (disk : Disk) :
    (FileTarget.new path rotateopts disk).Numbered [] where
  valid := valid_tempFiles
  size := rfl
  list := SafeCircular.toList_new _
  descending := List.Pairwise.nil
  named := by simp

theorem numbered_checkFiles
    {path : Path} {rotateopts : RotationOpts} {disk : Disk} {found : FileTarget}
    {needsRotate : Bool}
    (hcheck : (FileTarget.new path rotateopts disk).checkFiles =
      .ok (found, needsRotate)) :
    found.filerotation = rotateopts ∧
      found.Numbered (List.range' 1 (disk.found path)).reverse := by
  rcases checkFiles_spec path rotateopts disk with
    ⟨t, hmap, hpath, hopts, -, hvalid, hsize, hlist⟩
  rw [hcheck] at hmap
  cases hmap
  have hlt := found_lt disk path
  refine ⟨hopts, hvalid, hsize, ?_, ?_, ?_⟩
  · rw [hlist, hpath, entries_eq_reverse, List.map_reverse]
  · rw [List.pairwise_reverse]
    exact List.pairwise_lt_range'
  · intro x hx
    rw [List.mem_reverse, List.mem_range'_1] at hx
    omega

theorem checkFiles_returns
    (path : Path) (rotateopts : RotationOpts) (disk : Disk) :
    ∃ found needsRotate, (FileTarget.new path rotateopts disk).checkFiles =
      .ok (found, needsRotate) := by
  rcases checkFiles_spec path rotateopts disk with ⟨t, hmap, -⟩
  cases hresult : (FileTarget.new path rotateopts disk).checkFiles with
  | error failure =>
      rw [hresult] at hmap
      cases hmap
  | ok result => exact ⟨result.1, result.2, rfl⟩

theorem startsRotatable_iff
    {path : Path} {rotateopts : RotationOpts} {disk : Disk} {found : FileTarget}
    {needsRotate : Bool}
    (hcheck : (FileTarget.new path rotateopts disk).checkFiles =
      .ok (found, needsRotate)) :
    StartsRotatable path rotateopts disk ↔
      ((needsRotate || rotateopts.rotateOnStart) = true → found.Rotatable) := by
  constructor
  · exact fun hall => hall found needsRotate hcheck
  · intro hfound t needs ht
    rw [hcheck] at ht
    cases ht
    exact hfound

/-- The constructor leaves names for all entries exactly if its rotation, if
there is one, does. -/
theorem postCstor_usable
    (path : Path) (rotateopts : RotationOpts) (disk : Disk) :
    ∃ t, (FileTarget.new path rotateopts disk).postCstor = .ok t ∧
      (t.Usable ↔ StartsRotatable path rotateopts disk) ∧
      (StartsRotatable path rotateopts disk → ∃ nums, t.Numbered nums) := by
  rcases checkFiles_returns path rotateopts disk with
    ⟨found, needsRotate, hcheck⟩
  rcases numbered_checkFiles hcheck with ⟨hopts, hnumbered⟩
  rw [startsRotatable_iff hcheck]
  unfold postCstor
  by_cases henabled : rotateopts.enabled = true
  · have hnew : (FileTarget.new path rotateopts disk).filerotation.enabled =
        true := henabled
    rw [if_pos hnew, hcheck]
    simp only [bind, Except.bind, hopts]
    cases hneeds : needsRotate || rotateopts.rotateOnStart with
    | true =>
        rcases hnumbered.rotateFiles_usable (by rw [hopts]; exact henabled)
          with ⟨t', hrotate, -, husable, hnext⟩
        simp only [hrotate, if_true]
        refine ⟨t'.openFile, rfl, ?_, ?_⟩
        · rw [usable_openFile, husable]
          simp
        · intro hrotatable
          rcases hnext (hrotatable trivial) with ⟨nums, hnums⟩
          exact ⟨nums, hnums.openFile⟩
    | false =>
        refine ⟨found.openFile, rfl, ?_, fun _ => ⟨_, hnumbered.openFile⟩⟩
        exact iff_of_true hnumbered.openFile.usable (by simp)
  · have hnew : ¬(FileTarget.new path rotateopts disk).filerotation.enabled =
        true := henabled
    have hopened := (numbered_new path rotateopts disk).openFile
    rw [if_neg hnew]
    refine ⟨_, rfl, ?_, fun _ => ⟨[], hopened⟩⟩
    refine iff_of_true hopened.usable fun _ hfound => ?_
    rw [hopts] at hfound
    exact absurd hfound henabled

/-- Every rotation of a life comes back, with names for all entries, exactly if
each of them finds the highest number below the last name or removes it. -/
theorem rotations_return_iff
    (path : Path) (rotateopts : RotationOpts) (disk : Disk)
    (changes : List (Disk → Disk)) :
    (∀ n, ∃ t, wholeLife path rotateopts disk (changes.take n) = .ok t ∧
        t.Usable) ↔
      StartsRotatable path rotateopts disk ∧
        ∀ n < changes.length, ∀ t,
          wholeLife path rotateopts disk (changes.take n) = .ok t →
            t.Rotatable := by
  rcases postCstor_usable path rotateopts disk with
    ⟨t, hstart, husable, hnumbered⟩
  have hlife : ∀ changes, wholeLife path rotateopts disk changes =
      changes.foldlM rotateAfter t := by
    intro changes
    rw [wholeLife, hstart]
    rfl
  simp only [hlife]
  constructor
  · intro hall
    have hstarts : StartsRotatable path rotateopts disk := by
      rcases hall 0 with ⟨t', hrun, hnamed⟩
      cases hrun
      exact husable.mp hnamed
    rcases hnumbered hstarts with ⟨nums, hnums⟩
    exact ⟨hstarts, (hnums.rotations_usable_iff changes).mp hall⟩
  · rintro ⟨hstarts, hall⟩
    rcases hnumbered hstarts with ⟨nums, hnums⟩
    exact (hnums.rotations_usable_iff changes).mpr hall

/-- Rotation without a limit on the number of files. -/
def unlimited : RotationOpts where
  enabled := true
  rotateOnStart := false
  maxFiles := 0
  maxTotalSize := 0
  maxFileSize := 100

/-- The current file is written before each rotation. -/
def written (r : ℕ) : List (Disk → Disk) :=
  List.replicate r fun d => d.write [108] [50]

def waits (result : Except RotateFailure FileTarget) : Bool :=
  match result with
  | .error .waits => true
  | _ => false

/-- The tenth rotation makes an entry without a name, and the eleventh waits
for room in `tempFiles`. -/
theorem eleventh_rotation_waits :
    (¬∀ n, ∃ t, wholeLife [108] unlimited noFiles ((written 11).take n) =
        .ok t ∧ t.Usable) ∧
      waits (wholeLife [108] unlimited noFiles (written 11)) = true := by
  have hwaits : waits (wholeLife [108] unlimited noFiles (written 11)) =
      true := by decide +kernel
  refine ⟨?_, hwaits⟩
  intro hall
  rcases hall 11 with ⟨t, hrun, -⟩
  rw [show (written 11).take 11 = written 11 from rfl] at hrun
  rw [hrun] at hwaits
  simp [waits] at hwaits

end FileTarget

end GreaseLog
