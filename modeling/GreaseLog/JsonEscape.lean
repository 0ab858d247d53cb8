import Mathlib.Tactic

/-!
# Copying and escaping

`memcpy_and_json_escape` (`local_strdup.c`) copies a text and escapes it on the
way, into a given amount of space.  Sequences that start with an escape
character are left out.  While it skips them the counter of the bytes that
remain goes up and not down, so that the loop goes on behind the end of the
text: `after` is what lies there in memory, with zeros behind it.

The number of bytes the loop stores is bounded by the space alone.  `escaped`
is what it would store with unlimited space.
-/

namespace GreaseLog

/-- The states of the loop; the ones for UTF-8 are not used. -/
inductive EscapeState where
  | looking
  | ansiEscape
  | escape
  deriving DecidableEq, Repr

/-- What is stored for one byte.  A tab gets the same text as a newline. -/
def escapeByte (byte : UInt8) : List UInt8 :=
  if byte = 10 then [92, 110]
  else if byte = 9 then [92, 110]
  else if byte = 92 then [92, 92]
  else if byte = 13 then [92, 114]
  else if byte = 12 then [92, 102]
  else if byte = 34 then [92, 34]
  else if byte = 47 then [92, 47]
  else if 32 ≤ byte then [byte]
  else []

/-- Digits and `;`, the parameters of a CSI code. -/
def isCsiParameter (byte : UInt8) : Bool :=
  (48 ≤ byte && byte ≤ 57) || byte == 59

/-- The loop, from the memory under `walk_in` on. -/
def escapeLoop : EscapeState → List UInt8 → ℕ → ℕ → List UInt8
  | _, [], _, _ => []
  | state, byte :: mem, inRemain, space =>
      if inRemain = 0 ∨ space = 0 then []
      else if state = .escape ∧ byte = 91 then
        escapeLoop .ansiEscape mem (inRemain + 1) space
      else if state = .ansiEscape then
        escapeLoop (if isCsiParameter byte then .ansiEscape else .looking) mem
          (inRemain + 1) space
      else if byte = 0x1B then
        escapeLoop .escape mem (inRemain + 1) space
      else
        let out := (escapeByte byte).take space
        out ++ escapeLoop .looking mem (inRemain - 1) (space - out.length)

def memcpyAndJsonEscape (after : List UInt8) (space : ℕ) (text : List UInt8) :
    List UInt8 :=
  escapeLoop .looking (text ++ after) text.length space

/-- The zero behind the escaped text, which is stored if there is space for
it. -/
def escapeTerminator (space : ℕ) (out : List UInt8) : List UInt8 :=
  if out.length < space then [0] else []

/-! ## Unlimited space -/

def escapedFrom : EscapeState → List UInt8 → ℕ → List UInt8
  | _, [], _ => []
  | state, byte :: mem, inRemain =>
      if inRemain = 0 then []
      else if state = .escape ∧ byte = 91 then
        escapedFrom .ansiEscape mem (inRemain + 1)
      else if state = .ansiEscape then
        escapedFrom (if isCsiParameter byte then .ansiEscape else .looking) mem
          (inRemain + 1)
      else if byte = 0x1B then
        escapedFrom .escape mem (inRemain + 1)
      else
        escapeByte byte ++ escapedFrom .looking mem (inRemain - 1)

def jsonEscaped (after text : List UInt8) : List UInt8 :=
  escapedFrom .looking (text ++ after) text.length

theorem jsonEscaped_nil (after : List UInt8) : jsonEscaped after [] = [] := by
  cases after <;> rfl

theorem escapeLoop_eq_take
    (state : EscapeState) (mem : List UInt8) (inRemain space : ℕ) :
    escapeLoop state mem inRemain space =
      (escapedFrom state mem inRemain).take space := by
  induction mem generalizing state inRemain space with
  | nil => simp [escapeLoop, escapedFrom]
  | cons byte mem ih =>
      unfold escapeLoop escapedFrom
      by_cases hremain : inRemain = 0
      · simp [hremain]
      by_cases hspace : space = 0
      · simp [hspace]
      rw [if_neg (by omega), if_neg hremain]
      split
      · exact ih _ _ _
      · split
        · exact ih _ _ _
        · split
          · exact ih _ _ _
          · dsimp only
            rw [ih, List.take_append, List.length_take]
            congr 2
            omega

theorem memcpyAndJsonEscape_eq_take
    (after : List UInt8) (space : ℕ) (text : List UInt8) :
    memcpyAndJsonEscape after space text =
      (jsonEscaped after text).take space :=
  escapeLoop_eq_take _ _ _ _

/-! ## Texts that are not changed -/

/-- A byte is passed on, gets a backslash in front, or is left out. -/
theorem escapeByte_cases (byte : UInt8) :
    (escapeByte byte = [byte] ∧ 32 ≤ byte) ∨
      (∃ b, escapeByte byte = [92, b] ∧ 32 ≤ b) ∨
      (escapeByte byte = [] ∧ ¬32 ≤ byte) := by
  unfold escapeByte
  split_ifs with _ _ _ _ _ _ _ hprintable
  iterate 7 exact Or.inr (Or.inl ⟨_, rfl, by decide⟩)
  · exact Or.inl ⟨rfl, hprintable⟩
  · exact Or.inr (Or.inr ⟨rfl, hprintable⟩)

end GreaseLog
