import GreaseLog.EscapedText
import GreaseLog.JsonString

/-!
# What a caller of the escape can rely on

Four laws about `memcpy_and_json_escape`: it reads its input alone, under a
limit it stores a beginning of the complete escape, the output reads back as
the input, and its answer tells whether all of it was stored.  Escape
characters break three of them, since each one makes the loop read two bytes
more than there are.  A tab is read back as a newline, and the last two break
at the end of the space.
-/

namespace GreaseLog

namespace JsonEscaper

variable {mem : ℕ → UInt8} {text : List UInt8} {cap : ℕ}

/-! ## The rounds of a call -/

theorem afterText_start (hreads : Reads mem 0 text) (cap : ℕ) :
    AfterText text (start text.length cap)
      (rounds mem text.length (start text.length cap)) :=
  afterText_rounds hreads le_rfl

/-- The function has returned this. -/
def Returns (mem : ℕ → UInt8) (text : List UInt8) (cap : ℕ)
    (r : EscapeResult) : Prop :=
  ∃ n, run mem text.length cap n = some r

theorem Returns.unique
    {r r' : EscapeResult} (h : Returns mem text cap r)
    (h' : Returns mem text cap r') : r = r' := by
  rcases h with ⟨m, hm⟩
  rcases h' with ⟨n, hn⟩
  exact run_unique hm hn

theorem run_of_stopped
    {n : ℕ} (hstop : ¬(rounds mem n (start text.length cap)).Running) :
    run mem text.length cap n =
      some (rounds mem n (start text.length cap)).finish :=
  if_neg hstop

theorem out_finish
    {s : List UInt8} {inLen : ℕ} {e : JsonEscaper}
    (hstores : Appends s (start inLen cap) e) (i : ℕ) :
    e.finish.out i =
      if i < min cap s.length then s[i]?
      else if i = s.length ∧ s.length < cap then some 0
      else none := by
  have hwalkOut : e.walkOut = min s.length cap := by
    rw [hstores.walkOut]
    exact Nat.zero_add _
  have hspace : e.space = cap - s.length := hstores.space
  have hout : e.out i = if i < min s.length cap then s[i]? else none := by
    rw [hstores.out i]
    simp [start]
  simp only [finish, hwalkOut, hspace, hout]
  by_cases hin : i < min cap s.length
  · rw [if_neg (by omega), if_pos (by omega), if_pos hin]
  · rw [if_neg hin, if_neg (show ¬i < min s.length cap by omega)]
    by_cases hend : i = s.length ∧ s.length < cap
    · rw [if_pos (by omega), if_pos hend]
    · rw [if_neg (by omega), if_neg hend]

theorem outLen_finish
    {s : List UInt8} {inLen : ℕ} {e : JsonEscaper}
    (hstores : Appends s (start inLen cap) e) :
    e.finish.outLen = min cap s.length := by
  have hwalkOut := hstores.walkOut
  change e.walkOut = _
  rw [hwalkOut, Nat.min_comm]
  exact Nat.zero_add _

theorem text_finish
    {s : List UInt8} {inLen : ℕ} {e : JsonEscaper}
    (hstores : Appends s (start inLen cap) e) :
    e.finish.text = s.take cap := by
  apply List.ext_getElem
  · simp [EscapeResult.text, outLen_finish hstores]
  · intro i hi hi'
    have hlt : i < min cap s.length := by
      rw [List.length_take] at hi'
      exact hi'
    have hout := out_finish hstores i
    rw [if_pos hlt, List.getElem?_eq_getElem (by omega)] at hout
    simp [EscapeResult.text, hout]

/-- After the rounds over the text the loop goes on exactly if there was an
escape character and there is space left. -/
theorem stopped_iff (hreads : Reads mem 0 text) :
    ¬(rounds mem text.length (start text.length cap)).Running ↔
      0x1B ∉ text ∨ cap ≤ (escapedText text).length := by
  have hafter := afterText_start hreads cap
  have hspace : (rounds mem text.length (start text.length cap)).space =
      cap - (escapedText text).length := hafter.stores.space
  unfold Running
  rw [hspace]
  rcases Nat.lt_or_ge (escapedText text).length cap with hroom | hfull
  · have hall : ReadsAll .looking text cap := by
      by_contra hnot
      have hle := le_of_not_readsAll hnot
      exact absurd hroom (not_lt.mpr hle)
    have hcount : (rounds mem text.length (start text.length cap)).inRemain +
        text.length = text.length + 2 * skips .looking text :=
      (hafter.all hall).2
    by_cases hescape : 0x1B ∈ text
    · have hpos := skips_pos .looking hescape
      refine iff_of_false (not_not.mpr ⟨by omega, by omega⟩) ?_
      rintro (hplain | hle)
      · exact hplain hescape
      · omega
    · have hzero := skips_eq_zero hescape
      refine iff_of_true ?_ (Or.inl hescape)
      omega
  · exact iff_of_true (by omega) (Or.inr hfull)

/-! ## The output of the list model

`memcpyAndJsonEscape` has only the bytes that are stored.  They are those of
the loop, over a memory with zeros behind its end. -/

/-- A round on a zero stores nothing and ends a CSI sequence. -/
theorem round_of_zero
    {e : JsonEscaper} (hrunning : e.Running) (hzero : mem e.walkIn = 0) :
    Appends [] e (e.round mem) ∧ (e.round mem).walkIn = e.walkIn + 1 ∧
      (e.round mem).state ≠ .ansiEscape ∧
      (e.state ≠ .ansiEscape → (e.round mem).inRemain + 1 = e.inRemain) := by
  have hround := @passes_round mem e hrunning.1
  rw [hzero] at hround
  have hcsi : ¬(e.state = .escape ∧ (0 : UInt8) = 91) := fun h => by simp at h
  by_cases hansi : e.state = .ansiEscape
  · obtain ⟨hnext, hleaves⟩ := EscapeState.after_ansiEscape hcsi hansi
    have hstores := hround.stores
    rw [hleaves, if_pos rfl] at hstores
    refine ⟨hstores, hround.walkIn, ?_, fun h => absurd hansi h⟩
    rw [hround.state, hnext]
    decide
  · obtain ⟨hnext, hleaves⟩ := EscapeState.after_other hcsi hansi (by decide)
    have hstores := hround.stores
    have hcount := hround.inRemain
    rw [hleaves, if_neg Bool.false_ne_true] at hstores hcount
    refine ⟨hstores, hround.walkIn, ?_, fun _ => hcount⟩
    rw [hround.state, hnext]
    decide

/-- Outside a CSI sequence every zero counts down. -/
theorem stops_at_zeros_outside
    {e : JsonEscaper} (hstate : e.state ≠ .ansiEscape)
    (hzeros : ∀ i, e.walkIn ≤ i → mem i = 0) :
    ∃ n, ¬(rounds mem n e).Running ∧ Appends [] e (rounds mem n e) := by
  induction hremain : e.inRemain generalizing e with
  | zero =>
      refine ⟨0, fun hrunning => ?_, appends_nil rfl rfl rfl⟩
      have hpos : 0 < e.inRemain := hrunning.1
      omega
  | succ k ih =>
      by_cases hrunning : e.Running
      · obtain ⟨hstores, hwalkIn, hnext, hcount⟩ :=
          round_of_zero hrunning (hzeros e.walkIn le_rfl)
        have hleft := hcount hstate
        obtain ⟨n, hstop, hrest⟩ := @ih (e.round mem) hnext
          (fun i hi => hzeros i (by omega)) (by omega)
        refine ⟨n + 1, ?_⟩
        rw [rounds, if_pos hrunning]
        exact ⟨hstop, hstores.trans hrest⟩
      · exact ⟨0, hrunning, appends_nil rfl rfl rfl⟩

theorem stops_at_zeros
    {e : JsonEscaper} (hzeros : ∀ i, e.walkIn ≤ i → mem i = 0) :
    ∃ n, ¬(rounds mem n e).Running ∧ Appends [] e (rounds mem n e) := by
  by_cases hrunning : e.Running
  · obtain ⟨hstores, hwalkIn, hnext, -⟩ :=
      round_of_zero hrunning (hzeros e.walkIn le_rfl)
    obtain ⟨n, hstop, hrest⟩ := stops_at_zeros_outside hnext
      (fun i hi => hzeros i (by omega))
    refine ⟨n + 1, ?_⟩
    rw [rounds, if_pos hrunning]
    exact ⟨hstop, hstores.trans hrest⟩
  · exact ⟨0, hrunning, appends_nil rfl rfl rfl⟩

theorem escapedFrom_cons
    {state : EscapeState} {byte : UInt8} {l : List UInt8} {inRemain next : ℕ}
    (hremain : 0 < inRemain)
    (hnext : next + 1 = inRemain + 2 * if state.leavesOut byte then 1 else 0) :
    escapedFrom state (byte :: l) inRemain =
      (if state.leavesOut byte then [] else escapeByte byte) ++
        escapedFrom (state.next byte) l next := by
  have hmore : state.leavesOut byte = true → next = inRemain + 1 := by
    intro hleaves
    rw [hleaves, if_pos rfl] at hnext
    omega
  rw [escapedFrom, if_neg (by omega)]
  by_cases hcsi : state = .escape ∧ byte = 91
  · obtain ⟨hstate, hleaves⟩ := EscapeState.after_csi hcsi
    rw [if_pos hcsi, hstate, hleaves, if_pos rfl, hmore hleaves,
      List.nil_append]
  by_cases hansi : state = .ansiEscape
  · obtain ⟨hstate, hleaves⟩ := EscapeState.after_ansiEscape hcsi hansi
    rw [if_neg hcsi, if_pos hansi, hstate, hleaves, if_pos rfl, hmore hleaves,
      List.nil_append]
  by_cases hescape : byte = 0x1B
  · obtain ⟨hstate, hleaves⟩ := EscapeState.after_escape hcsi hansi hescape
    rw [if_neg hcsi, if_neg hansi, if_pos hescape, hstate, hleaves, if_pos rfl,
      hmore hleaves, List.nil_append]
  · obtain ⟨hstate, hleaves⟩ := EscapeState.after_other hcsi hansi hescape
    have hless : next = inRemain - 1 := by
      rw [hleaves, if_neg Bool.false_ne_true] at hnext
      omega
    rw [if_neg hcsi, if_neg hansi, if_neg hescape, hstate, hleaves,
      if_neg Bool.false_ne_true, hless]

theorem stores_escapedFrom
    {l : List UInt8} {e : JsonEscaper}
    (hmem : ∀ i, e.walkIn ≤ i → mem i = l.getD (i - e.walkIn) 0) :
    ∃ n, ¬(rounds mem n e).Running ∧
      Appends (escapedFrom e.state l e.inRemain) e (rounds mem n e) := by
  induction l generalizing e with
  | nil =>
      obtain ⟨n, hstop, hstores⟩ := stops_at_zeros hmem
      refine ⟨n, hstop, ?_⟩
      rw [escapedFrom]
      exact hstores
  | cons byte l ih =>
      by_cases hrunning : e.Running
      · have hround := @passes_round mem e hrunning.1
        have hbyte : mem e.walkIn = byte := by
          rw [hmem e.walkIn le_rfl, Nat.sub_self]
          rfl
        rw [hbyte] at hround
        obtain ⟨n, hstop, hstores⟩ := @ih (e.round mem) (by
          intro i hi
          rw [hround.walkIn] at hi ⊢
          have hindex : i - e.walkIn = i - (e.walkIn + 1) + 1 := by omega
          rw [hmem i (by omega), hindex, List.getD_cons_succ])
        refine ⟨n + 1, ?_⟩
        rw [rounds, if_pos hrunning,
          escapedFrom_cons hrunning.1 hround.inRemain, ← hround.state]
        exact ⟨hstop, hround.stores.trans hstores⟩
      · refine ⟨0, hrunning, ?_⟩
        rcases Nat.eq_zero_or_pos e.inRemain with hremain | hremain
        · rw [escapedFrom, if_pos hremain]
          exact appends_nil rfl rfl rfl
        · apply appends_of_space_eq_zero
          by_contra hspace
          exact hrunning ⟨hremain, Nat.pos_of_ne_zero hspace⟩

theorem returns_memcpyAndJsonEscape
    (after : List UInt8) (cap : ℕ) (text : List UInt8) :
    ∃ r, Returns (fun i => (text ++ after).getD i 0) text cap r ∧
      r.text = memcpyAndJsonEscape after cap text := by
  obtain ⟨n, hstop, hstores⟩ := @stores_escapedFrom
    (fun i => (text ++ after).getD i 0) (text ++ after)
    (start text.length cap) (fun i _ => rfl)
  refine ⟨_, ⟨n, run_of_stopped hstop⟩, ?_⟩
  rw [text_finish hstores, memcpyAndJsonEscape_eq_take]
  rfl

/-! ## Reading the input alone -/

/-- The function is through after a round for each byte at most, it reads
nothing behind the input, and what lies there does not matter. -/
structure ReadsInput (text : List UInt8) (cap : ℕ) : Prop where
  stops : ∀ mem, Reads mem 0 text →
    ¬(rounds mem text.length (start text.length cap)).Running
  inside : ∀ mem, Reads mem 0 text →
    ∀ n, ∀ i ∈ reads mem n (start text.length cap), i < text.length
  alike : ∀ mem mem', Reads mem 0 text → Reads mem' 0 text →
    ∃ r, Returns mem text cap r ∧ Returns mem' text cap r

/-- A text to which only zeros follow. -/
def zerosBehind (text : List UInt8) (i : ℕ) : UInt8 := text.getD i 0

theorem reads_zerosBehind (text : List UInt8) :
    Reads (zerosBehind text) 0 text := by
  intro i hi
  simp [zerosBehind, hi]

theorem inside_of_stopped
    (hstop : ¬(rounds mem text.length (start text.length cap)).Running)
    {n i : ℕ} (hi : i ∈ reads mem n (start text.length cap)) :
    i < text.length := by
  have hmore : i ∈ reads mem (text.length + n) (start text.length cap) := by
    rw [Nat.add_comm, reads_add]
    exact List.mem_append_left _ hi
  have hend : reads mem n (rounds mem text.length (start text.length cap)) =
      [] := by
    cases n with
    | zero => rfl
    | succ n => rw [reads, if_neg hstop]
  rw [reads_add, hend, List.append_nil] at hmore
  simpa [start] using lt_of_mem_reads hmore

/-- The function reads its input alone exactly if there is no escape character
in it, or the escape of the input uses up all the space. -/
theorem readsInput_iff (text : List UInt8) (cap : ℕ) :
    ReadsInput text cap ↔
      0x1B ∉ text ∨ cap ≤ (escapedText text).length := by
  constructor
  · intro h
    exact (stopped_iff (reads_zerosBehind text)).mp
      (h.stops _ (reads_zerosBehind text))
  · intro hcond
    have hstops : ∀ mem, Reads mem 0 text →
        ¬(rounds mem text.length (start text.length cap)).Running :=
      fun mem hreads => (stopped_iff hreads).mpr hcond
    refine ⟨hstops, fun mem hreads n i => inside_of_stopped (hstops mem hreads),
      ?_⟩
    intro mem mem' hreads hreads'
    have hsame : rounds mem text.length (start text.length cap) =
        rounds mem' text.length (start text.length cap) := by
      apply rounds_congr
      intro i hi
      have hlt : i < text.length := by simpa [start] using hi
      have hbyte := hreads i hlt
      have hbyte' := hreads' i hlt
      rw [Nat.zero_add] at hbyte hbyte'
      rw [hbyte, hbyte']
    refine ⟨_, ⟨_, run_of_stopped (hstops mem hreads)⟩, ⟨text.length, ?_⟩⟩
    rw [run_of_stopped (hstops mem' hreads'), hsame]

/-- An input that ends with an escape character: two more bytes are read, and
what they are shows in the output. -/
theorem escape_reads_behind :
    ¬ReadsInput [104, 0x1B] 4 ∧
      reads (fun i => [104, 0x1B, 97, 98].getD i 0) 4 (start 2 4) =
        [0, 1, 2, 3] ∧
      ((run (fun i => [104, 0x1B, 97, 98].getD i 0) 2 4 4).map
        EscapeResult.text) = some [104, 97, 98] := by
  refine ⟨?_, by decide, by decide⟩
  intro h
  have hstop := (stopped_iff (reads_zerosBehind [104, 0x1B])).mp
    (h.stops _ (reads_zerosBehind [104, 0x1B]))
  revert hstop
  decide

/-! ## Limited space -/

theorem escapedText_append
    {text : List UInt8} (hplain : 0x1B ∉ text) (more : List UInt8) :
    escapedText (text ++ more) = escapedText text ++ escapedText more := by
  unfold escapedText
  rw [escapedTextFrom_append, foldl_next_looking hplain]

/-- Without escape characters the function stores the beginning of the complete
escape that fits, a zero behind it if that fits too, and nothing else. -/
theorem limited_escape_is_beginning
    {text : List UInt8} (hplain : 0x1B ∉ text) {mem : ℕ → UInt8}
    (hreads : Reads mem 0 text) (cap : ℕ) :
    ∃ r, Returns mem text cap r ∧
      r.text = (escapedText text).take cap ∧
      r.outLen = min cap (escapedText text).length ∧
      (∀ i, r.out i =
        if i < min cap (escapedText text).length then (escapedText text)[i]?
        else if i = (escapedText text).length ∧
          (escapedText text).length < cap then some 0
        else none) ∧
      (∀ i, cap ≤ i → r.out i = none) ∧
      (escapedText text).length ≤ 2 * text.length ∧
      ∀ more, 0x1B ∉ more →
        escapedText (text ++ more) = escapedText text ++ escapedText more := by
  have hstop := (@stopped_iff mem text cap hreads).mpr (Or.inl hplain)
  have hstores := (afterText_start hreads cap).stores
  refine ⟨_, ⟨text.length, run_of_stopped hstop⟩, text_finish hstores,
    outLen_finish hstores, out_finish hstores, ?_,
    length_escapedTextFrom_le .looking text,
    fun more _ => escapedText_append hplain more⟩
  intro i hi
  rw [out_finish hstores, if_neg (by omega), if_neg (by omega)]

/-- A newline and a letter, in three bytes and in one. -/
theorem limited_escape_newline :
    (∃ r, Returns (zerosBehind [10, 97]) [10, 97] 3 r ∧
        r.text = [92, 110, 97]) ∧
      ∃ r, Returns (zerosBehind [10, 97]) [10, 97] 1 r ∧ r.text = [92] := by
  constructor
  · obtain ⟨r, hreturns, htext, -⟩ := @limited_escape_is_beginning
      [10, 97] (by decide) _ (reads_zerosBehind [10, 97]) 3
    exact ⟨r, hreturns, htext⟩
  · obtain ⟨r, hreturns, htext, -⟩ := @limited_escape_is_beginning
      [10, 97] (by decide) _ (reads_zerosBehind [10, 97]) 1
    exact ⟨r, hreturns, htext⟩

/-! ## Reading the output back -/

/-- What a byte comes back as. -/
def readBack (byte : UInt8) : UInt8 := if byte = 9 then 10 else byte

theorem decodes_escapeByte
    {byte : UInt8} (hkept : isBareControl byte = false)
    {inside content : List UInt8} (h : JsonString.Decodes inside content) :
    JsonString.Decodes (escapeByte byte ++ inside) (readBack byte :: content) := by
  unfold escapeByte
  split_ifs with hnewline htab hbackslash hreturn hfeed hquote hslash hprintable
  · rw [hnewline]
    exact h.escape rfl
  · rw [htab]
    exact h.escape rfl
  · rw [hbackslash]
    exact h.escape rfl
  · rw [hreturn]
    exact h.escape rfl
  · rw [hfeed]
    exact h.escape rfl
  · rw [hquote]
    exact h.escape rfl
  · rw [hslash]
    exact h.escape rfl
  · rw [readBack, if_neg htab]
    exact h.plain hquote hbackslash hprintable
  · have hbare : isBareControl byte = true := by
      rw [isBareControl_iff]
      simp [escapeByte, hnewline, htab, hbackslash, hreturn, hfeed, hquote,
        hslash, hprintable]
    rw [hkept] at hbare
    simp at hbare

theorem decodes_flatMap_escapeByte
    {l : List UInt8} (hkept : ∀ b ∈ l, isBareControl b = false) :
    JsonString.Decodes (l.flatMap escapeByte) (l.map readBack) := by
  induction l with
  | nil => exact JsonString.decodes_nil
  | cons byte l ih =>
      have hrest := ih fun b hb => hkept b (List.mem_cons_of_mem byte hb)
      exact decodes_escapeByte (hkept byte List.mem_cons_self) hrest

theorem not_bareControl_of_mem
    {state : EscapeState} {text : List UInt8} {b : UInt8}
    (hb : b ∈ strippedFrom state text) : isBareControl b = false := by
  induction text generalizing state with
  | nil => simp [strippedFrom] at hb
  | cons byte text ih =>
      rw [strippedFrom] at hb
      split at hb
      · exact ih hb
      · rename_i hkept
        rcases List.mem_cons.mp hb with rfl | hrest
        · simp only [Bool.or_eq_true, not_or, Bool.not_eq_true] at hkept
          exact hkept.2
        · exact ih hrest

theorem decodes_escapedText (text : List UInt8) :
    JsonString.Decodes (escapedText text) ((stripped text).map readBack) :=
  decodes_flatMap_escapeByte fun _ hb => not_bareControl_of_mem hb

/-- A text to which only escape characters follow. -/
def escapesBehind (text : List UInt8) (i : ℕ) : UInt8 := text.getD i 0x1B

theorem reads_escapesBehind (text : List UInt8) :
    Reads (escapesBehind text) 0 text := by
  intro i hi
  simp [escapesBehind, hi]

/-- Among escape characters the loop never stops. -/
theorem running_rounds
    {e : JsonEscaper} (hrunning : e.Running)
    (hbehind : ∀ i, e.walkIn ≤ i → mem i = 0x1B) (n : ℕ) :
    (rounds mem n e).Running := by
  induction n generalizing e with
  | zero => exact hrunning
  | succ n ih =>
      have hround := @passes_round mem e hrunning.1
      rw [hbehind e.walkIn le_rfl] at hround
      have hinRemain := hround.inRemain
      have hspace := hround.stores.space
      rw [e.state.leavesOut_escape] at hinRemain hspace
      simp only [if_true, List.length_nil] at hinRemain hspace
      have hpos := hrunning.2
      rw [rounds, if_pos hrunning]
      apply ih
      · exact ⟨by omega, by omega⟩
      · intro i hi
        rw [hround.walkIn] at hi
        exact hbehind i (by omega)

/-- With an escape character and space for the whole text, the function need
not return. -/
theorem not_returns
    (hescape : 0x1B ∈ text) (hroom : (escapedText text).length < cap)
    (r : EscapeResult) : ¬Returns (escapesBehind text) text cap r := by
  rintro ⟨n, hrun⟩
  have hreads := reads_escapesBehind text
  have hrunning : (rounds (escapesBehind text) text.length
      (start text.length cap)).Running := by
    by_contra hstop
    rcases (stopped_iff hreads).mp hstop with hplain | hle
    · exact hplain hescape
    · omega
  have hwalkIn : (rounds (escapesBehind text) text.length
      (start text.length cap)).walkIn = text.length := by
    have hall : ReadsAll .looking text cap := by
      by_contra hnot
      have hle := le_of_not_readsAll hnot
      exact absurd hroom (not_lt.mpr hle)
    rw [((afterText_start hreads cap).all hall).1]
    exact Nat.zero_add _
  have hmore := @running_rounds (escapesBehind text) _ hrunning (by
    intro i hi
    rw [hwalkIn] at hi
    simp [escapesBehind, hi]) n
  unfold run at hrun
  dsimp only at hrun
  split at hrun
  · simp at hrun
  · rename_i hstop
    rw [← rounds_add, Nat.add_comm, rounds_add,
      rounds_of_stopped hstop] at hmore
    exact hstop hmore

/-- Whatever lies behind the input, the output of a call with enough space
reads back as the input, less what is to be left out. -/
def EscapesFaithfully (text : List UInt8) : Prop :=
  ∀ mem cap, Reads mem 0 text → 2 * text.length ≤ cap →
    ∃ r, Returns mem text cap r ∧ JsonString.Decodes r.text (stripped text)

theorem returns_of_plain
    (hplain : 0x1B ∉ text) (hreads : Reads mem 0 text)
    (hcap : 2 * text.length ≤ cap) :
    ∃ r, Returns mem text cap r ∧ r.text = escapedText text := by
  have hstop := (@stopped_iff mem text cap hreads).mpr (Or.inl hplain)
  have hlength := length_escapedTextFrom_le .looking text
  refine ⟨_, ⟨text.length, run_of_stopped hstop⟩, ?_⟩
  rw [text_finish (afterText_start hreads cap).stores]
  exact List.take_of_length_le (hlength.trans hcap)

theorem map_readBack_eq_self_iff (l : List UInt8) :
    l.map readBack = l ↔ 9 ∉ l := by
  induction l with
  | nil => simp
  | cons byte l ih =>
      rw [List.map_cons, List.cons.injEq, ih, List.mem_cons, not_or]
      apply and_congr_left'
      unfold readBack
      split
      · rename_i htab
        simp [htab]
      · rename_i hother
        simpa using fun heq => hother heq.symm

theorem mem_stripped_tab {text : List UInt8} (hplain : 0x1B ∉ text) :
    9 ∈ stripped text ↔ 9 ∈ text := by
  unfold stripped
  rw [strippedFrom_looking hplain, List.mem_filter]
  exact and_iff_left rfl

/-- The escape is faithful exactly for texts without escape characters and
tabs. -/
theorem escapesFaithfully_iff (text : List UInt8) :
    EscapesFaithfully text ↔ 0x1B ∉ text ∧ 9 ∉ text := by
  constructor
  · intro h
    have hplain : 0x1B ∉ text := by
      intro hescape
      have hlength := length_escapedTextFrom_le .looking text
      obtain ⟨r, hreturns, -⟩ := h (escapesBehind text) (2 * text.length + 1)
        (reads_escapesBehind text) (by omega)
      exact not_returns hescape (Nat.lt_succ_of_le hlength) r hreturns
    refine ⟨hplain, ?_⟩
    have hreads := reads_zerosBehind text
    obtain ⟨r, hreturns, hdecodes⟩ := h _ _ hreads le_rfl
    obtain ⟨r', hreturns', htext⟩ := returns_of_plain hplain hreads le_rfl
    rw [hreturns.unique hreturns', htext] at hdecodes
    have hsame := (decodes_escapedText text).unique hdecodes
    rw [map_readBack_eq_self_iff, mem_stripped_tab hplain] at hsame
    exact hsame
  · rintro ⟨hplain, htab⟩ mem cap hreads hcap
    obtain ⟨r, hreturns, htext⟩ := returns_of_plain hplain hreads hcap
    refine ⟨r, hreturns, ?_⟩
    rw [← mem_stripped_tab hplain] at htab
    have hdecodes := decodes_escapedText text
    rw [(map_readBack_eq_self_iff _).mpr htab] at hdecodes
    rw [htext]
    exact hdecodes

/-- A tab comes back as a newline. -/
theorem tab_reads_back_as_newline :
    ¬EscapesFaithfully [9] ∧
      ∃ r, Returns (zerosBehind [9]) [9] 2 r ∧
        JsonString.Decodes r.text [10] := by
  have hdecodes : JsonString.Decodes (escapedText [9]) [10] :=
    decodes_escapedText [9]
  obtain ⟨r, hreturns, htext⟩ := @returns_of_plain _ [9] 2 (by decide)
    (reads_zerosBehind [9]) le_rfl
  rw [← htext] at hdecodes
  refine ⟨?_, r, hreturns, hdecodes⟩
  intro h
  obtain ⟨r', hreturns', hdecodes'⟩ := h _ 2 (reads_zerosBehind [9]) le_rfl
  rw [← hreturns.unique hreturns'] at hdecodes'
  have hsame := hdecodes.unique hdecodes'
  revert hsame
  decide

/-! ## The answer -/

/-- The answer is zero exactly if the whole escape was stored.  Otherwise it is
`-1` and the output is the whole escape of a beginning of the text, which
leaves the closing quote alone. -/
def ReportsCut (text : List UInt8) (cap : ℕ) : Prop :=
  ∀ mem, Reads mem 0 text → ∃ r, Returns mem text cap r ∧
    (r.ret = 0 ↔ r.text = escapedText text) ∧
    (r.ret ≠ 0 → r.ret = -1 ∧
      (∃ beginning, beginning <+: text ∧ r.text = escapedText beginning) ∧
      ∃ content, JsonString.Decodes r.text content)

/-- The space ends between the escapes of two bytes, or there is space for all
of them and the last byte of the text was looked at. -/
def EndsBetween (text : List UInt8) (cap : ℕ) : Prop :=
  (cap < (escapedText text).length ∧
      ∃ beginning, beginning <+: text ∧
        (escapedText beginning).length = cap) ∨
    (0x1B ∉ text ∧ (escapedText text).length ≤ cap ∧
      ReadsAll .looking text cap)

theorem ret_finish (e : JsonEscaper) :
    (e.finish.ret = 0 ↔ e.inRemain = 0) ∧
      (e.finish.ret ≠ 0 → e.finish.ret = -1) := by
  unfold finish
  dsimp only
  split
  · exact ⟨iff_of_false (by omega) (by omega), fun _ => rfl⟩
  · exact ⟨iff_of_true rfl (by omega), fun h => absurd rfl h⟩

/-- Nothing remains exactly if all bytes were looked at and none was an escape
character. -/
theorem inRemain_eq_zero_iff (hreads : Reads mem 0 text) :
    (rounds mem text.length (start text.length cap)).inRemain = 0 ↔
      ReadsAll .looking text cap ∧ 0x1B ∉ text := by
  have hafter := afterText_start hreads cap
  by_cases hall : ReadsAll .looking text cap
  · have hcount : (rounds mem text.length (start text.length cap)).inRemain +
        text.length = text.length + 2 * skips .looking text :=
      (hafter.all hall).2
    rw [and_iff_right hall]
    constructor
    · intro hzero hescape
      have hpos := skips_pos .looking hescape
      omega
    · intro hplain
      have hzero := skips_eq_zero hplain
      omega
  · have hpos := hafter.cut hall
    exact iff_of_false (by omega) fun h => hall h.1

theorem escapedText_beginning
    {beginning text : List UInt8} (hbeginning : beginning <+: text) :
    escapedText beginning =
      (escapedText text).take (escapedText beginning).length := by
  obtain ⟨more, rfl⟩ := hbeginning
  unfold escapedText
  rw [escapedTextFrom_append, List.take_left]

/-- For a cut in the text the output is the escape of a beginning exactly if
one has the length of the space. -/
theorem take_eq_escapedText_iff (hcut : cap < (escapedText text).length) :
    (∃ beginning, beginning <+: text ∧
        (escapedText text).take cap = escapedText beginning) ↔
      ∃ beginning, beginning <+: text ∧
        (escapedText beginning).length = cap := by
  constructor
  · rintro ⟨beginning, hbeginning, heq⟩
    refine ⟨beginning, hbeginning, ?_⟩
    rw [← heq, List.length_take]
    omega
  · rintro ⟨beginning, hbeginning, hlength⟩
    refine ⟨beginning, hbeginning, ?_⟩
    rw [escapedText_beginning hbeginning, hlength]

/-- What the law says of a call that has stopped in the text. -/
theorem reported_iff
    (hreads : Reads mem 0 text) {r : EscapeResult}
    (hr : r = (rounds mem text.length (start text.length cap)).finish) :
    ((r.ret = 0 ↔ r.text = escapedText text) ∧
      (r.ret ≠ 0 → r.ret = -1 ∧
        (∃ beginning, beginning <+: text ∧ r.text = escapedText beginning) ∧
        ∃ content, JsonString.Decodes r.text content)) ↔
      EndsBetween text cap := by
  have hret := ret_finish (rounds mem text.length (start text.length cap))
  rw [← hr, inRemain_eq_zero_iff hreads] at hret
  have htext : r.text = (escapedText text).take cap := by
    rw [hr]
    exact text_finish (afterText_start hreads cap).stores
  have hcomplete : (escapedText text).take cap = escapedText text ↔
      (escapedText text).length ≤ cap := by
    rw [List.take_eq_self_iff]
  rw [htext, hcomplete]
  constructor
  · rintro ⟨hzero, hcut⟩
    rcases Nat.lt_or_ge cap (escapedText text).length with hshort | hfits
    · left
      have hnot : r.ret ≠ 0 := fun h => absurd (hzero.mp h) (not_le.mpr hshort)
      exact ⟨hshort, (take_eq_escapedText_iff hshort).mp (hcut hnot).2.1⟩
    · right
      have hall := hret.1.mp (hzero.mpr hfits)
      exact ⟨hall.2, hfits, hall.1⟩
  · rintro (⟨hshort, hbetween⟩ | ⟨hplain, hfits, hall⟩)
    · have hbeginning := (take_eq_escapedText_iff hshort).mpr hbetween
      refine ⟨iff_of_false ?_ (not_le.mpr hshort), ?_⟩
      · -- a text that was read to its end without escape characters would fit
        intro hzero
        rcases hret.1.mp hzero with ⟨hall, -⟩
        obtain ⟨beginning, ⟨more, hmore⟩, hlength⟩ := hbetween
        cases more with
        | nil =>
            rw [List.append_nil] at hmore
            rw [hmore] at hlength
            omega
        | cons byte more =>
            have hlt := hall beginning.length (by simp [← hmore])
            rw [← hmore, List.take_left] at hlt
            exact absurd hlength hlt.ne
      · intro hne
        refine ⟨hret.2 hne, hbeginning, ?_⟩
        obtain ⟨beginning, -, heq⟩ := hbeginning
        rw [heq]
        exact ⟨_, decodes_escapedText beginning⟩
    · have hzero := hret.1.mpr ⟨hall, hplain⟩
      exact ⟨iff_of_true hzero hfits, fun hne => absurd hzero hne⟩

/-- The answer is right and the cut is clean exactly if the space ends between
two escapes. -/
theorem reportsCut_iff (text : List UInt8) (cap : ℕ) :
    ReportsCut text cap ↔ EndsBetween text cap := by
  by_cases hcond : 0x1B ∉ text ∨ cap ≤ (escapedText text).length
  · constructor
    · intro h
      have hreads := reads_zerosBehind text
      obtain ⟨r, hreturns, hlaw⟩ := h _ hreads
      have hr := hreturns.unique
        ⟨text.length, run_of_stopped ((stopped_iff hreads).mpr hcond)⟩
      exact (reported_iff hreads hr).mp hlaw
    · intro hbetween mem hreads
      exact ⟨_, ⟨text.length, run_of_stopped ((stopped_iff hreads).mpr hcond)⟩,
        (reported_iff hreads rfl).mpr hbetween⟩
  · push Not at hcond
    refine iff_of_false ?_ ?_
    · intro h
      obtain ⟨r, hreturns, -⟩ := h _ (reads_escapesBehind text)
      exact not_returns hcond.1 hcond.2 r hreturns
    · rintro (⟨hshort, -⟩ | ⟨hplain, -, -⟩)
      · omega
      · exact hplain hcond.1

/-- A newline in one byte is reported as complete and leaves a backslash, and a
control character behind a text that fits is reported as cut off. -/
theorem cut_escape_reported_complete :
    ¬ReportsCut [10] 1 ∧ ¬ReportsCut [97, 1] 1 ∧
      (run (zerosBehind [10]) 1 1 1).map EscapeResult.ret = some 0 ∧
      (run (zerosBehind [10]) 1 1 1).map EscapeResult.text = some [92] ∧
      (run (zerosBehind [97, 1]) 2 1 2).map EscapeResult.ret = some (-1) ∧
      (run (zerosBehind [97, 1]) 2 1 2).map EscapeResult.text =
        some (escapedText [97, 1]) := by
  refine ⟨?_, ?_, by decide, by decide, by decide, by decide⟩
  · intro h
    obtain ⟨r, hreturns, hlaw, -⟩ := h _ (reads_zerosBehind [10])
    rw [hreturns.unique ⟨1, rfl⟩] at hlaw
    revert hlaw
    decide
  · intro h
    obtain ⟨r, hreturns, hlaw, -⟩ := h _ (reads_zerosBehind [97, 1])
    rw [hreturns.unique ⟨2, rfl⟩] at hlaw
    revert hlaw
    decide

end JsonEscaper

end GreaseLog
