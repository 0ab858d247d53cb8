import GreaseLog.EscapeRounds

/-!
# The rounds over a text

`stripped` is what should be left of a text: without the CSI sequences, the
other escape characters and the control characters that have no escape.  Its
escape, `escapedText`, depends on the text alone.  As long as the loop is
inside the text it stores just that; where it is then, and whether it goes on,
is a matter of the escape characters it has met.
-/

namespace GreaseLog

/-! ## Texts -/

namespace EscapeState

/-- The state after a byte. -/
def next (state : EscapeState) (byte : UInt8) : EscapeState :=
  if state = .escape ∧ byte = 91 then .ansiEscape
  else if state = .ansiEscape then
    if isCsiParameter byte then .ansiEscape else .looking
  else if byte = 0x1B then .escape
  else .looking

/-- The byte is an escape character or part of a CSI sequence. -/
def leavesOut (state : EscapeState) (byte : UInt8) : Bool :=
  (state == .escape && byte == 91) || state == .ansiEscape || byte == 0x1B

/-! The four branches of the loop. -/

theorem after_csi
    {state : EscapeState} {byte : UInt8}
    (hcsi : state = .escape ∧ byte = 91) :
    state.next byte = .ansiEscape ∧ state.leavesOut byte = true :=
  ⟨if_pos hcsi, by simp [leavesOut, hcsi]⟩

theorem after_ansiEscape
    {state : EscapeState} {byte : UInt8}
    (hcsi : ¬(state = .escape ∧ byte = 91)) (hansi : state = .ansiEscape) :
    (state.next byte =
        if isCsiParameter byte then .ansiEscape else .looking) ∧
      state.leavesOut byte = true := by
  refine ⟨?_, by simp [leavesOut, hansi]⟩
  rw [next, if_neg hcsi, if_pos hansi]

theorem after_escape
    {state : EscapeState} {byte : UInt8}
    (hcsi : ¬(state = .escape ∧ byte = 91)) (hansi : state ≠ .ansiEscape)
    (hescape : byte = 0x1B) :
    state.next byte = .escape ∧ state.leavesOut byte = true := by
  refine ⟨?_, by simp [leavesOut, hescape]⟩
  rw [next, if_neg hcsi, if_neg hansi, if_pos hescape]

theorem after_other
    {state : EscapeState} {byte : UInt8}
    (hcsi : ¬(state = .escape ∧ byte = 91)) (hansi : state ≠ .ansiEscape)
    (hescape : byte ≠ 0x1B) :
    state.next byte = .looking ∧ state.leavesOut byte = false := by
  constructor
  · rw [next, if_neg hcsi, if_neg hansi, if_neg hescape]
  · simp only [leavesOut, Bool.or_eq_false_iff, Bool.and_eq_false_iff,
      beq_eq_false_iff_ne]
    exact ⟨⟨not_and_or.mp hcsi, hansi⟩, hescape⟩

theorem leavesOut_escape (state : EscapeState) :
    state.leavesOut 0x1B = true := by
  simp [leavesOut]

theorem leavesOut_looking {byte : UInt8} (hbyte : byte ≠ 0x1B) :
    leavesOut .looking byte = false := by
  simp [leavesOut, hbyte]

theorem next_looking {byte : UInt8} (hbyte : byte ≠ 0x1B) :
    next .looking byte = .looking := by
  simp [next, hbyte]

end EscapeState

/-- A control character other than tab, newline, form feed and carriage
return. -/
def isBareControl (byte : UInt8) : Bool :=
  byte < 32 && !(byte == 9 || byte == 10 || byte == 12 || byte == 13)

def strippedFrom : EscapeState → List UInt8 → List UInt8
  | _, [] => []
  | state, byte :: text =>
      if state.leavesOut byte || isBareControl byte then
        strippedFrom (state.next byte) text
      else byte :: strippedFrom (state.next byte) text

def stripped (text : List UInt8) : List UInt8 := strippedFrom .looking text

/-- A CSI sequence goes with its parameters and its last byte. -/
theorem stripped_csi
    {params : List UInt8} (hparams : ∀ b ∈ params, isCsiParameter b = true)
    {last : UInt8} (hlast : isCsiParameter last = false) (text : List UInt8) :
    stripped (0x1B :: 91 :: params ++ last :: text) = stripped text := by
  have hsequence : strippedFrom .ansiEscape (params ++ last :: text) =
      stripped text := by
    induction params with
    | nil =>
        simp [strippedFrom, EscapeState.leavesOut, EscapeState.next, hlast,
          stripped]
    | cons b params ih =>
        have hb := hparams b List.mem_cons_self
        have hrest := ih fun c hc => hparams c (List.mem_cons_of_mem b hc)
        simpa [strippedFrom, EscapeState.leavesOut, EscapeState.next, hb]
          using hrest
  simpa [stripped, strippedFrom, EscapeState.leavesOut, EscapeState.next]
    using hsequence

/-- A lone escape character goes alone. -/
theorem stripped_escape
    {text : List UInt8} (hlone : text.head? ≠ some 91) :
    stripped (0x1B :: text) = stripped text := by
  cases text with
  | nil => rfl
  | cons b text =>
      have hb : b ≠ 91 := fun heq => hlone (by rw [heq]; rfl)
      simp [stripped, strippedFrom, EscapeState.leavesOut, EscapeState.next, hb]

theorem isBareControl_iff (byte : UInt8) :
    isBareControl byte = true ↔ escapeByte byte = [] := by
  unfold isBareControl escapeByte
  split_ifs <;> simp_all

theorem strippedFrom_looking
    {text : List UInt8} (hplain : 0x1B ∉ text) :
    strippedFrom .looking text = text.filter fun b => !isBareControl b := by
  induction text with
  | nil => rfl
  | cons byte text ih =>
      rw [List.mem_cons, not_or] at hplain
      have hbyte : byte ≠ 0x1B := fun heq => hplain.1 heq.symm
      rw [strippedFrom, EscapeState.leavesOut_looking hbyte,
        EscapeState.next_looking hbyte, ih hplain.2, List.filter_cons]
      cases isBareControl byte <;> rfl

/-! ## The complete escape -/

def escapedTextFrom (state : EscapeState) (text : List UInt8) : List UInt8 :=
  (strippedFrom state text).flatMap escapeByte

def escapedText (text : List UInt8) : List UInt8 :=
  escapedTextFrom .looking text

theorem escapedTextFrom_nil (state : EscapeState) :
    escapedTextFrom state [] = [] := rfl

theorem escapedTextFrom_cons
    (state : EscapeState) (byte : UInt8) (text : List UInt8) :
    escapedTextFrom state (byte :: text) =
      (if state.leavesOut byte then [] else escapeByte byte) ++
        escapedTextFrom (state.next byte) text := by
  unfold escapedTextFrom
  rw [strippedFrom]
  cases hleaves : state.leavesOut byte with
  | true => simp
  | false =>
      cases hbare : isBareControl byte with
      | true => simp [(isBareControl_iff byte).mp hbare]
      | false => simp

/-- The escape of a beginning of the text is a beginning of its escape. -/
theorem escapedTextFrom_append
    (state : EscapeState) (text more : List UInt8) :
    escapedTextFrom state (text ++ more) =
      escapedTextFrom state text ++
        escapedTextFrom (text.foldl EscapeState.next state) more := by
  induction text generalizing state with
  | nil => rfl
  | cons byte text ih =>
      rw [List.cons_append, escapedTextFrom_cons, escapedTextFrom_cons, ih,
        List.foldl_cons, List.append_assoc]

theorem foldl_next_looking {text : List UInt8} (hplain : 0x1B ∉ text) :
    text.foldl EscapeState.next .looking = .looking := by
  induction text with
  | nil => rfl
  | cons byte text ih =>
      rw [List.mem_cons, not_or] at hplain
      rw [List.foldl_cons, EscapeState.next_looking fun heq => hplain.1 heq.symm,
        ih hplain.2]

theorem length_escapeByte_le (byte : UInt8) : (escapeByte byte).length ≤ 2 := by
  rcases escapeByte_cases byte with ⟨heq, -⟩ | ⟨b, heq, -⟩ | ⟨heq, -⟩ <;>
    simp [heq]

theorem length_escapedTextFrom_le (state : EscapeState) (text : List UInt8) :
    (escapedTextFrom state text).length ≤ 2 * text.length := by
  induction text generalizing state with
  | nil => simp [escapedTextFrom_nil]
  | cons byte text ih =>
      have hrest := ih (state.next byte)
      have hbyte := length_escapeByte_le byte
      rw [escapedTextFrom_cons, List.length_append, List.length_cons]
      split
      · rw [List.length_nil]
        omega
      · omega

/-- The number of bytes that are left out. -/
def skips : EscapeState → List UInt8 → ℕ
  | _, [] => 0
  | state, byte :: text =>
      (if state.leavesOut byte then 1 else 0) + skips (state.next byte) text

theorem skips_pos
    (state : EscapeState) {text : List UInt8} (hescape : 0x1B ∈ text) :
    0 < skips state text := by
  induction text generalizing state with
  | nil => simp at hescape
  | cons byte text ih =>
      rw [skips]
      rcases List.mem_cons.mp hescape with heq | hmem
      · rw [← heq, state.leavesOut_escape, if_pos rfl]
        omega
      · have hrest := ih (state.next byte) hmem
        omega

theorem skips_eq_zero {text : List UInt8} (hplain : 0x1B ∉ text) :
    skips .looking text = 0 := by
  induction text with
  | nil => rfl
  | cons byte text ih =>
      rw [List.mem_cons, not_or] at hplain
      have hbyte : byte ≠ 0x1B := fun heq => hplain.1 heq.symm
      rw [skips, EscapeState.leavesOut_looking hbyte,
        EscapeState.next_looking hbyte, ih hplain.2]
      rfl

/-- All bytes of the text are looked at: there is space left in front of
each. -/
def ReadsAll (state : EscapeState) (text : List UInt8) (space : ℕ) : Prop :=
  ∀ i, i < text.length → (escapedTextFrom state (text.take i)).length < space

theorem readsAll_nil (state : EscapeState) (space : ℕ) :
    ReadsAll state [] space := by
  intro i hi
  simp at hi

theorem readsAll_cons
    {state : EscapeState} {byte : UInt8} {text : List UInt8} {space : ℕ} :
    ReadsAll state (byte :: text) space ↔
      0 < space ∧ ReadsAll (state.next byte) text
        (space - (if state.leavesOut byte then [] else escapeByte byte).length) := by
  constructor
  · intro hall
    refine ⟨hall 0 (by simp), ?_⟩
    intro i hi
    have hlt := hall (i + 1) (by simpa using hi)
    rw [List.take_succ_cons, escapedTextFrom_cons, List.length_append] at hlt
    omega
  · rintro ⟨hspace, hall⟩ i hi
    cases i with
    | zero => exact hspace
    | succ i =>
        have hlt := hall i (by simpa using hi)
        rw [List.take_succ_cons, escapedTextFrom_cons, List.length_append]
        omega

/-- If some bytes are not looked at, the space is used up. -/
theorem le_of_not_readsAll
    {state : EscapeState} {text : List UInt8} {space : ℕ}
    (hnot : ¬ReadsAll state text space) :
    space ≤ (escapedTextFrom state text).length := by
  unfold ReadsAll at hnot
  push Not at hnot
  obtain ⟨i, -, hle⟩ := hnot
  have hsplit := escapedTextFrom_append state (text.take i) (text.drop i)
  rw [List.take_append_drop] at hsplit
  rw [hsplit, List.length_append]
  omega

/-! ## Storing -/

namespace JsonEscaper

/-- Storing looks at the space and touches the output alone. -/
structure Appends (s : List UInt8) (e e' : JsonEscaper) : Prop where
  out : ∀ i, e'.out i =
    if e.walkOut ≤ i ∧ i < e.walkOut + min s.length e.space then
      s[i - e.walkOut]? else e.out i
  walkOut : e'.walkOut = e.walkOut + min s.length e.space
  space : e'.space = e.space - s.length

theorem appends_append (s : List UInt8) (e : JsonEscaper) :
    Appends s e (append s e) := by
  induction s generalizing e with
  | nil =>
      refine ⟨?_, rfl, rfl⟩
      intro i
      rw [if_neg (by simp)]
      rfl
  | cons byte s ih =>
      rw [append]
      split
      · rename_i hspace
        have hrest := ih (e.put byte)
        have hwalkOut : (e.put byte).walkOut = e.walkOut + 1 := rfl
        have hspace' : (e.put byte).space = e.space - 1 := rfl
        refine ⟨?_, ?_, ?_⟩
        · intro i
          rw [hrest.out i, hwalkOut, hspace', List.length_cons]
          by_cases hfirst : i = e.walkOut
          · rw [if_neg (by omega), if_pos (by omega), hfirst, Nat.sub_self]
            exact if_pos rfl
          · have hput : (e.put byte).out i = e.out i := if_neg hfirst
            rw [hput]
            by_cases hin : e.walkOut + 1 ≤ i ∧
                i < e.walkOut + 1 + min s.length (e.space - 1)
            · rw [if_pos hin, if_pos (by omega)]
              have hindex : i - e.walkOut = i - (e.walkOut + 1) + 1 := by omega
              rw [hindex, List.getElem?_cons_succ]
            · rw [if_neg hin, if_neg (by omega)]
        · rw [hrest.walkOut, hwalkOut, hspace', List.length_cons]
          omega
        · rw [hrest.space, hspace', List.length_cons]
          omega
      · rename_i hspace
        refine ⟨?_, ?_, ?_⟩
        · intro i
          rw [if_neg (by omega)]
        · omega
        · omega

theorem appends_nil {e e' : JsonEscaper} (hout : e'.out = e.out)
    (hwalkOut : e'.walkOut = e.walkOut) (hspace : e'.space = e.space) :
    Appends [] e e' := by
  refine ⟨?_, hwalkOut, hspace⟩
  intro i
  rw [if_neg (by simp), hout]

/-- Without space nothing is stored. -/
theorem appends_of_space_eq_zero
    (s : List UInt8) {e : JsonEscaper} (hspace : e.space = 0) :
    Appends s e e := by
  refine ⟨?_, ?_, ?_⟩
  · intro i
    rw [if_neg (by omega)]
  · omega
  · omega

/-- Storing in two steps. -/
theorem Appends.trans
    {s s' : List UInt8} {e e' e'' : JsonEscaper}
    (h : Appends s e e') (h' : Appends s' e' e'') :
    Appends (s ++ s') e e'' := by
  have hout := h.out
  have hwalkOut := h.walkOut
  have hspace := h.space
  refine ⟨?_, ?_, ?_⟩
  · intro i
    rw [h'.out i, hout i, hwalkOut, hspace, List.length_append]
    by_cases hlow : i < e.walkOut + min s.length e.space
    · rw [if_neg (by omega)]
      by_cases hin : e.walkOut ≤ i
      · rw [if_pos ⟨hin, hlow⟩, if_pos (by omega),
          List.getElem?_append_left (by omega)]
      · rw [if_neg (by omega), if_neg (by omega)]
    · rw [if_neg (show ¬(e.walkOut ≤ i ∧
        i < e.walkOut + min s.length e.space) by omega)]
      by_cases hin : i < e.walkOut + min (s.length + s'.length) e.space
      · rw [if_pos (by omega), if_pos (by omega),
          List.getElem?_append_right (by omega)]
        congr 1
        omega
      · rw [if_neg (by omega), if_neg (by omega)]
  · rw [h'.walkOut, hwalkOut, hspace, List.length_append]
    omega
  · rw [h'.space, hspace, List.length_append]
    omega

/-! ## Reading -/

/-- What a round makes of a byte. -/
structure Passes (byte : UInt8) (e e' : JsonEscaper) : Prop where
  state : e'.state = e.state.next byte
  walkIn : e'.walkIn = e.walkIn + 1
  inRemain : e'.inRemain + 1 =
    e.inRemain + 2 * if e.state.leavesOut byte then 1 else 0
  stores : Appends (if e.state.leavesOut byte then [] else escapeByte byte) e e'

theorem passes_skip
    {e : JsonEscaper} {byte : UInt8} (hleaves : e.state.leavesOut byte = true) :
    Passes byte e (e.skip (e.state.next byte)) := by
  refine ⟨rfl, rfl, ?_, ?_⟩
  · rw [hleaves]
    rfl
  · rw [hleaves]
    exact appends_nil rfl rfl rfl

theorem passes_advance
    {e : JsonEscaper} {byte : UInt8} (hremain : 0 < e.inRemain)
    (hleaves : e.state.leavesOut byte = false)
    (hnext : e.state.next byte = .looking) :
    Passes byte e (append (escapeByte byte) e).advance := by
  have hframe := append_frame (escapeByte byte) e
  have hstored := appends_append (escapeByte byte) e
  refine ⟨hnext.symm, congrArg (· + 1) hframe.1, ?_, ?_⟩
  · rw [hleaves]
    change (append (escapeByte byte) e).inRemain - 1 + 1 = e.inRemain + 2 * 0
    rw [hframe.2]
    omega
  · rw [hleaves]
    exact ⟨hstored.out, hstored.walkOut, hstored.space⟩

theorem passes_round
    {mem : ℕ → UInt8} {e : JsonEscaper} (hremain : 0 < e.inRemain) :
    Passes (mem e.walkIn) e (e.round mem) := by
  unfold round
  dsimp only
  by_cases hcsi : e.state = .escape ∧ mem e.walkIn = 91
  · obtain ⟨hnext, hleaves⟩ := EscapeState.after_csi hcsi
    rw [if_pos hcsi, ← hnext]
    exact passes_skip hleaves
  by_cases hansi : e.state = .ansiEscape
  · obtain ⟨hnext, hleaves⟩ := EscapeState.after_ansiEscape hcsi hansi
    rw [if_neg hcsi, if_pos hansi, ← hnext]
    exact passes_skip hleaves
  by_cases hescape : mem e.walkIn = 0x1B
  · obtain ⟨hnext, hleaves⟩ := EscapeState.after_escape hcsi hansi hescape
    rw [if_neg hcsi, if_neg hansi, if_pos hescape, ← hnext]
    exact passes_skip hleaves
  · obtain ⟨hnext, hleaves⟩ := EscapeState.after_other hcsi hansi hescape
    rw [if_neg hcsi, if_neg hansi, if_neg hescape]
    exact passes_advance hremain hleaves hnext

/-- The bytes from this position on are the text. -/
def Reads (mem : ℕ → UInt8) (start : ℕ) (text : List UInt8) : Prop :=
  ∀ i (hi : i < text.length), mem (start + i) = text[i]

theorem Reads.head
    {mem : ℕ → UInt8} {start : ℕ} {byte : UInt8} {text : List UInt8}
    (h : Reads mem start (byte :: text)) : mem start = byte :=
  h 0 (by simp)

theorem Reads.tail
    {mem : ℕ → UInt8} {start : ℕ} {byte : UInt8} {text : List UInt8}
    (h : Reads mem start (byte :: text)) : Reads mem (start + 1) text := by
  intro i hi
  have hnext := h (i + 1) (by simpa using hi)
  rw [← Nat.add_assoc, Nat.add_right_comm] at hnext
  exact hnext

/-- After as many rounds as the text has bytes: its escape is stored as far as
there was space.  Either all bytes were looked at, or some remain. -/
structure AfterText (text : List UInt8) (e e' : JsonEscaper) : Prop where
  stores : Appends (escapedTextFrom e.state text) e e'
  all : ReadsAll e.state text e.space →
    e'.walkIn = e.walkIn + text.length ∧
      e'.inRemain + text.length = e.inRemain + 2 * skips e.state text
  cut : ¬ReadsAll e.state text e.space → 0 < e'.inRemain

theorem AfterText.cons
    {byte : UInt8} {text : List UInt8} {e e' e'' : JsonEscaper}
    (hspace : 0 < e.space) (hbyte : Passes byte e e')
    (hrest : AfterText text e' e'') : AfterText (byte :: text) e e'' := by
  have hreadsAll : ReadsAll e.state (byte :: text) e.space ↔
      ReadsAll e'.state text e'.space := by
    rw [readsAll_cons, hbyte.state, hbyte.stores.space]
    exact and_iff_right hspace
  have hinRemain := hbyte.inRemain
  refine ⟨?_, ?_, ?_⟩
  · rw [escapedTextFrom_cons, ← hbyte.state]
    exact hbyte.stores.trans hrest.stores
  · intro hall
    rcases hrest.all (hreadsAll.mp hall) with ⟨hwalkIn, hcount⟩
    rw [hbyte.walkIn] at hwalkIn
    rw [skips, ← hbyte.state, List.length_cons]
    omega
  · intro hnot
    exact hrest.cut fun hall => hnot (hreadsAll.mpr hall)

theorem afterText_rounds
    {mem : ℕ → UInt8} {text : List UInt8} {e : JsonEscaper}
    (hreads : Reads mem e.walkIn text) (hremain : text.length ≤ e.inRemain) :
    AfterText text e (rounds mem text.length e) := by
  induction text generalizing e with
  | nil =>
      refine ⟨appends_nil rfl rfl rfl, ?_, ?_⟩
      · intro _
        exact ⟨rfl, rfl⟩
      · intro hnot
        exact absurd (readsAll_nil _ _) hnot
  | cons byte text ih =>
      rw [List.length_cons] at hremain ⊢
      rw [rounds]
      by_cases hspace : e.space = 0
      · have hstop : ¬e.Running := fun hrunning => by
          have hpos := hrunning.2
          omega
        rw [if_neg hstop]
        refine ⟨appends_of_space_eq_zero _ hspace, ?_, ?_⟩
        · intro hall
          have hpos := (readsAll_cons.mp hall).1
          omega
        · intro _
          omega
      · rw [if_pos ⟨by omega, by omega⟩]
        have hbyte : Passes byte e (e.round mem) := by
          have hround := @passes_round mem e (by omega)
          rw [hreads.head] at hround
          exact hround
        have hcount := hbyte.inRemain
        apply AfterText.cons (Nat.pos_of_ne_zero hspace) hbyte
        apply ih
        · rw [hbyte.walkIn]
          exact hreads.tail
        · omega

end JsonEscaper

end GreaseLog
