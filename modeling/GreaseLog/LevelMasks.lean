import GreaseLog.Dispatch
import GreaseLog.Run

/-!
# Masking levels

`GreaseLib_maskOutByLevel` adds levels to the mask that `sift` looks at first,
and `GreaseLib_unmaskOutByLevel` is to take them out again.  It computes
`!val | mask`, where `!` is the logical negation: the result is `mask` for
every `val` but zero, and `mask | 1` for zero.
-/

namespace GreaseLog

/-! ## Calls -/

namespace SiftOpts

def maskOutByLevel (opts : SiftOpts) (val : LevelMask) : SiftOpts :=
  { opts with levelFilterOutMask := opts.levelFilterOutMask ||| val }

/-- `!val`, as an `int`. -/
def logicalNot (val : LevelMask) : LevelMask := if val = 0 then 1 else 0

def unmaskOutByLevel (opts : SiftOpts) (val : LevelMask) : SiftOpts :=
  { opts with
    levelFilterOutMask := logicalNot val ||| opts.levelFilterOutMask }

end SiftOpts

inductive MaskCall where
  | maskOutByLevel (val : LevelMask)
  | unmaskOutByLevel (val : LevelMask)
  deriving DecidableEq, Repr

namespace MaskCall

def val : MaskCall → LevelMask
  | maskOutByLevel val => val
  | unmaskOutByLevel val => val

def isMaskOut : MaskCall → Bool
  | maskOutByLevel _ => true
  | unmaskOutByLevel _ => false

end MaskCall

def SiftOpts.maskStep (opts : SiftOpts) : MaskCall → SiftOpts
  | .maskOutByLevel val => opts.maskOutByLevel val
  | .unmaskOutByLevel val => opts.unmaskOutByLevel val

/-! ## Single levels -/

/-- The level with this bit and no other. -/
def levelBit (i : Fin 32) : LevelMask := ⟨BitVec.twoPow 32 i⟩

def hasLevel (v : LevelMask) (i : Fin 32) : Bool := v &&& levelBit i != 0

theorem hasLevel_eq_getLsbD (v : LevelMask) (i : Fin 32) :
    hasLevel v i = v.toBitVec.getLsbD i := by
  have hand : (v &&& levelBit i).toBitVec =
      if v.toBitVec.getLsbD i then BitVec.twoPow 32 i else 0#32 :=
    BitVec.and_twoPow v.toBitVec i
  have hpow : BitVec.twoPow 32 i.val ≠ 0#32 := by
    intro hzero
    have hbit := congrArg (fun x : BitVec 32 => x.getLsbD i) hzero
    simp at hbit
  have hzero : v &&& levelBit i = 0 ↔ v.toBitVec.getLsbD i = false := by
    rw [← UInt32.toBitVec_inj, hand]
    cases v.toBitVec.getLsbD i with
    | true => simpa using hpow
    | false => simp
  unfold hasLevel
  cases hbit : v.toBitVec.getLsbD i with
  | true => simp [hzero, hbit]
  | false => simp [hzero.mpr hbit]

theorem hasLevel_or (v w : LevelMask) (i : Fin 32) :
    hasLevel (v ||| w) i = (hasLevel v i || hasLevel w i) := by
  simp [hasLevel_eq_getLsbD]

theorem hasLevel_zero (i : Fin 32) : hasLevel 0 i = false := by
  simp [hasLevel_eq_getLsbD]

theorem hasLevel_one (i : Fin 32) : hasLevel 1 i = decide (i = 0) := by
  revert i
  decide

/-- Two masks have no level in common. -/
theorem and_eq_zero_iff (v w : LevelMask) :
    v &&& w = 0 ↔ ∀ i, ¬(hasLevel v i = true ∧ hasLevel w i = true) := by
  constructor
  · intro hzero i hboth
    have hbit := congrArg (fun x : LevelMask => x.toBitVec.getLsbD i) hzero
    simp only [hasLevel_eq_getLsbD] at hboth
    simp only [UInt32.toBitVec_and, BitVec.getLsbD_and, hboth.1, hboth.2] at hbit
    simp at hbit
  · intro hnone
    rw [← UInt32.toBitVec_inj]
    apply BitVec.eq_of_getLsbD_eq
    intro i hi
    have hbit := hnone ⟨i, hi⟩
    simp only [hasLevel_eq_getLsbD] at hbit
    simpa using hbit

/-! ## What the calls should do -/

/-- The last call with this level decides; without one it is as in the
beginning. -/
def lastCall (i : Fin 32) (calls : List MaskCall) : Option MaskCall :=
  (calls.filter fun c => hasLevel c.val i).getLast?

def isMasked (initial : SiftOpts) (i : Fin 32) (calls : List MaskCall) : Bool :=
  match lastCall i calls with
  | some c => c.isMaskOut
  | none => hasLevel initial.levelFilterOutMask i

/-- After the calls a message of a single level, which would be logged without
a mask, is rejected exactly if the level was last masked.  No call changes a
level that it was not given. -/
structure LastCallWins (initial : SiftOpts) (calls : List MaskCall) :
    Prop where
  rejects : ∀ (table : FilterTable) (m : LogMeta) (i : Fin 32),
    m.level = levelBit i →
      (table.sift { Run.final SiftOpts.maskStep initial calls with
        levelFilterOutMask := 0 } m).1 = true →
      ((table.sift (Run.final SiftOpts.maskStep initial calls) m).1 = false ↔
        isMasked initial i calls = true)
  others : ∀ before c later, calls = before ++ c :: later →
    ∀ i, hasLevel c.val i = false →
      hasLevel (Run.final SiftOpts.maskStep initial
          (before ++ [c])).levelFilterOutMask i =
        hasLevel (Run.final SiftOpts.maskStep initial
          before).levelFilterOutMask i

/-- A call that the code gets right: it masks levels, or there is nothing for
it to unmask. -/
def SiftOpts.Idle (opts : SiftOpts) : MaskCall → Prop
  | .maskOutByLevel _ => True
  | .unmaskOutByLevel val =>
      val &&& opts.levelFilterOutMask = 0 ∧
        (val = 0 → hasLevel opts.levelFilterOutMask 0 = true)

/-! ## One call -/

/-- What a call should make of a level. -/
def MaskCall.wins (c : MaskCall) (i : Fin 32) (masked : Bool) : Bool :=
  if hasLevel c.val i then c.isMaskOut else masked

theorem isMasked_cons
    {initial next : SiftOpts} {c : MaskCall} {i : Fin 32}
    (hnext : hasLevel next.levelFilterOutMask i =
      c.wins i (hasLevel initial.levelFilterOutMask i))
    (calls : List MaskCall) :
    isMasked initial i (c :: calls) = isMasked next i calls := by
  have hlast : lastCall i (c :: calls) =
      (lastCall i calls).or (if hasLevel c.val i then some c else none) := by
    unfold lastCall
    rw [List.filter_cons]
    by_cases hlevel : hasLevel c.val i = true
    · rw [if_pos hlevel, if_pos hlevel, List.getLast?_cons]
      cases (calls.filter fun c => hasLevel c.val i).getLast? <;> rfl
    · rw [if_neg hlevel, if_neg hlevel, Option.or_none]
  unfold isMasked
  rw [hlast]
  cases lastCall i calls with
  | some last => rfl
  | none =>
      rw [hnext]
      unfold MaskCall.wins
      by_cases hlevel : hasLevel c.val i = true
      · rw [if_pos hlevel, if_pos hlevel]
        rfl
      · rw [if_neg hlevel, if_neg hlevel]
        rfl

/-- A call does to every level what it should exactly if it is idle. -/
theorem maskStep_wins_iff (opts : SiftOpts) (c : MaskCall) :
    (∀ i, hasLevel (opts.maskStep c).levelFilterOutMask i =
        c.wins i (hasLevel opts.levelFilterOutMask i)) ↔ opts.Idle c := by
  cases c with
  | maskOutByLevel val =>
      refine iff_of_true ?_ trivial
      intro i
      simp only [SiftOpts.maskStep, SiftOpts.maskOutByLevel, hasLevel_or,
        MaskCall.wins, MaskCall.val, MaskCall.isMaskOut]
      by_cases hlevel : hasLevel val i = true <;> simp [hlevel]
  | unmaskOutByLevel val =>
      simp only [SiftOpts.maskStep, SiftOpts.unmaskOutByLevel, hasLevel_or,
        MaskCall.wins, MaskCall.val, MaskCall.isMaskOut, SiftOpts.Idle,
        and_eq_zero_iff]
      by_cases hzero : val = 0
      · -- only the lowest level can change
        simp only [hzero, SiftOpts.logicalNot, if_true, hasLevel_one,
          hasLevel_zero, Bool.false_eq_true, if_false, false_and,
          not_false_eq_true, implies_true, true_and, forall_const]
        constructor
        · intro hall
          simpa using (hall 0).symm
        · intro hlowest i
          by_cases hi : i = 0
          · simp [hi, hlowest]
          · simp [hi]
      · simp only [hzero, SiftOpts.logicalNot, if_false, hasLevel_zero,
          Bool.false_or, false_implies, and_true]
        apply forall_congr'
        intro i
        by_cases hlevel : hasLevel val i = true <;> simp [hlevel]

/-! ## Runs -/

/-- Without the mask the message is logged, so the mask alone can reject it. -/
theorem sift_rejects_iff
    {table : FilterTable} {opts : SiftOpts} {m : LogMeta} {i : Fin 32}
    (hlevel : m.level = levelBit i)
    (haccept : (table.sift { opts with levelFilterOutMask := 0 } m).1 = true) :
    (table.sift opts m).1 = false ↔
      hasLevel opts.levelFilterOutMask i = true := by
  by_cases hmask : opts.levelFilterOutMask &&& m.level = 0
  · have hsame : (table.sift opts m).1 =
        (table.sift { opts with levelFilterOutMask := 0 } m).1 := by
      have hzero : (0 : LevelMask) &&& m.level = 0 := UInt32.zero_and
      unfold FilterTable.sift
      simp only [hmask, hzero]
    rw [hsame, haccept]
    rw [hlevel] at hmask
    simp [hasLevel, hmask]
  · rw [table.sift_masked hmask]
    rw [hlevel] at hmask
    simp [hasLevel, hmask]

/-- A message that is logged without a mask, whatever the filters are. -/
def cachedMessage (i : Fin 32) : LogMeta :=
  { noMetaData with level := levelBit i, cachedHash := Vector.replicate 3 0 }

theorem sift_cachedMessage
    (table : FilterTable) (opts : SiftOpts) (i : Fin 32) :
    (table.sift { opts with levelFilterOutMask := 0 }
      (cachedMessage i)).1 = true := by
  rw [table.sift_cached UInt32.zero_and rfl]

/-- The law about `sift` is one about the mask. -/
theorem lastCallWins_iff (initial : SiftOpts) (calls : List MaskCall) :
    LastCallWins initial calls ↔
      (∀ i, hasLevel (Run.final SiftOpts.maskStep initial
          calls).levelFilterOutMask i = isMasked initial i calls) ∧
        ∀ before c later, calls = before ++ c :: later →
          ∀ i, hasLevel c.val i = false →
            hasLevel (Run.final SiftOpts.maskStep initial
                (before ++ [c])).levelFilterOutMask i =
              hasLevel (Run.final SiftOpts.maskStep initial
                before).levelFilterOutMask i := by
  constructor
  · intro hwins
    refine ⟨?_, hwins.others⟩
    intro i
    have haccept := sift_cachedMessage FilterTable.empty
      (Run.final SiftOpts.maskStep initial calls) i
    have hrejects := hwins.rejects FilterTable.empty (cachedMessage i) i rfl
      haccept
    rw [sift_rejects_iff rfl haccept] at hrejects
    exact Bool.eq_iff_iff.mpr hrejects
  · rintro ⟨hmask, hothers⟩
    refine ⟨?_, hothers⟩
    intro table m i hlevel haccept
    rw [sift_rejects_iff hlevel haccept, hmask i]

theorem masks_iff (initial : SiftOpts) (calls : List MaskCall) :
    (∀ n i, hasLevel (Run.final SiftOpts.maskStep initial
        (calls.take n)).levelFilterOutMask i =
          isMasked initial i (calls.take n)) ↔
      Run.Meets SiftOpts.maskStep SiftOpts.Idle initial calls := by
  induction calls generalizing initial with
  | nil =>
      refine iff_of_true ?_ trivial
      intro n i
      rw [List.take_nil]
      rfl
  | cons c calls ih =>
      have hfirst : (∀ i, hasLevel (initial.maskStep c).levelFilterOutMask i =
          isMasked initial i [c]) ↔ initial.Idle c := by
        rw [← maskStep_wins_iff]
        apply forall_congr'
        intro i
        have hone : isMasked initial i [c] =
            c.wins i (hasLevel initial.levelFilterOutMask i) := by
          unfold isMasked lastCall MaskCall.wins
          by_cases hlevel : hasLevel c.val i = true <;> simp [hlevel]
        rw [hone]
      constructor
      · intro hall
        have hidle := hfirst.mp (hall 1)
        refine ⟨hidle, (ih _).mp ?_⟩
        intro n i
        rw [← isMasked_cons ((maskStep_wins_iff initial c).mpr hidle i)]
        exact hall (n + 1) i
      · rintro ⟨hidle, hrest⟩ n i
        cases n with
        | zero => rfl
        | succ n =>
            rw [List.take_succ_cons,
              isMasked_cons ((maskStep_wins_iff initial c).mpr hidle i)]
            exact (ih _).mpr hrest n i

/-- Along a run the last call wins, in every state that is reached, exactly if
no unmask call has anything to do. -/
theorem last_call_wins_iff (initial : SiftOpts) (calls : List MaskCall) :
    (∀ n, LastCallWins initial (calls.take n)) ↔
      Run.Meets SiftOpts.maskStep SiftOpts.Idle initial calls := by
  rw [← masks_iff]
  constructor
  · intro hwins n
    exact ((lastCallWins_iff initial _).mp (hwins n)).1
  · intro hmasks n
    refine (lastCallWins_iff initial _).mpr ⟨hmasks n, ?_⟩
    intro before c later hcalls i hnot
    have hmeets := (masks_iff initial calls).mp hmasks
    rw [← List.take_append_drop n calls, hcalls, List.append_assoc,
      Run.meets_append] at hmeets
    have hidle := hmeets.2.1
    rw [Run.final_append]
    have hkept := (maskStep_wins_iff _ c).mpr hidle i
    rw [MaskCall.wins, hnot] at hkept
    exact hkept

/-- A level that was masked stays masked, and unmasking nothing masks the
lowest level. -/
theorem unmask_keeps_mask :
    ¬LastCallWins ⟨0, false⟩ [.maskOutByLevel 2, .unmaskOutByLevel 2] ∧
      ¬LastCallWins ⟨0, false⟩ [.unmaskOutByLevel 0] := by
  constructor
  · intro hwins
    have hmask := ((lastCallWins_iff _ _).mp hwins).1 1
    revert hmask
    decide
  · intro hwins
    have hmask := ((lastCallWins_iff _ _).mp hwins).1 0
    revert hmask
    decide

end GreaseLog
