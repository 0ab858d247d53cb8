import GreaseLog.BufferedOutput
import GreaseLog.Decorations

/-!
# What the decorations say

For pre and post formats without directives, and decorations that are shorter
than the prefix together, the header is the texts of its pieces in a row.  The
footer is so too unless it has two pieces: the format of the target is then
printed over the format of the filter, and its NUL stands in the middle of
what is reported.
-/

namespace GreaseLog

open Snprintf

namespace Decorator

/-! ## The texts in a row -/

/-- A format without directives prints as it is. -/
def literal (format : LogLabel) : List UInt8 :=
  (format.map chars).getD []

def headerText (d : Decorator) (now : Timeb) (m : LogMeta)
    (filter : Option Filter) : List UInt8 :=
  literal (filter.bind Filter.preFormat) ++ literal d.preFormat ++
    (d.timeText now).getD [] ++ (d.levelText m).getD [] ++
    (d.tagText m).getD [] ++ (d.originText m).getD [] ++
    literal d.preMsgFormat ++ literal (filter.bind Filter.postFormatPreMsg)

def footerText (d : Decorator) (filter : Option Filter) : List UInt8 :=
  literal (filter.bind Filter.postFormat) ++ literal d.postFormat

/-- The formats that are printed without arguments have no `%`. -/
def PlainFormats (d : Decorator) (filter : Option Filter) : Prop :=
  37 ∉ literal (filter.bind Filter.preFormat) ∧ 37 ∉ literal d.preFormat ∧
    37 ∉ literal d.preMsgFormat ∧
    37 ∉ literal (filter.bind Filter.postFormatPreMsg) ∧
    37 ∉ literal (filter.bind Filter.postFormat) ∧ 37 ∉ literal d.postFormat

theorem zero_notMem_literal (format : LogLabel) : 0 ∉ literal format := by
  cases format with
  | none => exact List.not_mem_nil
  | some s => exact zero_notMem_chars s

theorem text_eq_none_iff
    (d : Decorator) (format : LogLabel) (args : List Arg) :
    d.text format args = none ↔ format = none :=
  Option.map_eq_none_iff

theorem text_of_plain
    (d : Decorator) {format : LogLabel} (hplain : 37 ∉ literal format)
    (hshort : (literal format).length < 2 ^ 31) :
    (d.text format []).getD [] = literal format := by
  cases format with
  | none => rfl
  | some s => exact d.printf.text_of_plain _ _ hplain hshort

theorem content_cons_piece
    (o : Option (List UInt8)) (checks : Bool)
    (rest : List (Option Snprintf.Piece)) :
    content (o.map (.mk checks) :: rest).reduceOption =
      o.getD [] ++ content rest.reduceOption := by
  cases o with
  | none => rfl
  | some t => exact content_cons _ _

theorem content_headerPieces
    {d : Decorator} {now : Timeb} {m : LogMeta} {filter : Option Filter}
    (hplain : d.PlainFormats filter)
    (hshort : (d.headerText now m filter).length < 2 ^ 31) :
    content (d.headerPieces now m filter) = d.headerText now m filter := by
  obtain ⟨hpre, htarget, hmsg, hpost, -, -⟩ := hplain
  simp only [headerText, List.length_append] at hshort
  simp only [headerPieces, content_cons_piece, List.reduceOption_nil,
    content_nil, List.append_nil]
  rw [d.text_of_plain hpre (by omega), d.text_of_plain htarget (by omega),
    d.text_of_plain hmsg (by omega), d.text_of_plain hpost (by omega)]
  simp only [headerText, List.append_assoc]

theorem content_footerPieces
    {d : Decorator} {filter : Option Filter}
    (hplain : d.PlainFormats filter)
    (hshort : (d.footerText filter).length < 2 ^ 31) :
    content (d.footerPieces filter) = d.footerText filter := by
  obtain ⟨-, -, -, -, hfilter, htarget⟩ := hplain
  simp only [footerText, List.length_append] at hshort
  simp only [footerPieces, content_cons_piece, List.reduceOption_nil,
    content_nil, List.append_nil]
  rw [d.text_of_plain hfilter (by omega), d.text_of_plain htarget (by omega),
    footerText]

/-! ## What is stored -/

/-- The buffer has a text at its beginning and its length is returned. -/
def Put.Holds (put : Put) (text : List UInt8) : Prop :=
  put.length.toNat = text.length ∧
    put.mem.read text.length = text.map some

theorem puts_header_holds
    {pieces : List Snprintf.Piece} {remain : UInt64}
    (hshort : (content pieces).length < remain.toNat) :
    (puts (fun space => remain - space) pieces remain).Holds
      (content pieces) := by
  constructor
  · rw [puts_length _ (.inl (by omega))]
    omega
  · have hstored := (Printer.mem_run_append (p := Printer.start remain)
      (Nat.add_zero _) hshort).2
    rw [Memory.read_eq_iff]
    intro i hi
    have hat := hstored i hi
    rwa [Nat.zero_add] at hat

/-- One piece at the beginning of the buffer. -/
theorem read_print_zero
    (p : Printer) {text : List UInt8} (hshort : text.length < p.space.toNat) :
    (p.print 0 text).mem.read text.length = text.map some := by
  rw [Memory.read_eq_iff]
  intro i hi
  have hat := p.print_text 0 hshort hi
  rwa [UInt64.toNat_zero, Nat.zero_add] at hat

/-- Behind a second piece at the same place stands its NUL. -/
theorem read_print_over
    (p : Printer) {first second : List UInt8}
    (hfirst : 0 ∉ first) (hsecond : 0 ∉ second) (hsome : first ≠ [])
    (hshort : second.length < p.space.toNat) :
    (p.print 0 second).mem.read (first ++ second).length ≠
      (first ++ second).map some := by
  intro hread
  have hlength : second.length < (first ++ second).length := by
    have hpos := List.length_pos_iff.mpr hsome
    rw [List.length_append]
    omega
  have hat := (Memory.read_eq_iff _ _).mp hread _ hlength
  have hnul := p.print_nul 0 hshort
  rw [UInt64.toNat_zero, Nat.zero_add] at hnul
  rw [hnul] at hat
  have hmem := List.mem_of_getElem? hat.symm
  rcases List.mem_append.mp hmem with hmem | hmem
  · exact hfirst hmem
  · exact hsecond hmem

/-- The piece of the target at the beginning of the buffer, behind a first
text that stands there too. -/
theorem read_run_second_iff
    (p : Printer) {first second : List UInt8}
    (hfirst : 0 ∉ first) (hsecond : 0 ∉ second)
    (hshort : second.length < p.space.toNat) :
    (Printer.run (fun _ => 0) [⟨true, second⟩] p).mem.read
        (first ++ second).length = (first ++ second).map some ↔
      first = [] := by
  have hprinted : ¬(true = true ∧ p.space = 0) := by
    rw [← Printer.toNat_eq_zero_iff]
    omega
  rw [Printer.run_printed hprinted]
  constructor
  · intro hread
    by_contra hsome
    exact read_print_over p hfirst hsecond hsome hshort hread
  · rintro rfl
    exact read_print_zero p hshort

/-- Two pieces that are both printed at the beginning of the buffer. -/
theorem read_run_footer_iff
    (first second : Option (List UInt8)) {remain : UInt64}
    (hfirst : 0 ∉ first.getD []) (hsecond : 0 ∉ second.getD [])
    (hshort : (first.getD []).length + (second.getD []).length <
      remain.toNat) :
    (Printer.run (fun _ => 0)
        [first.map (Snprintf.Piece.mk false),
          second.map (Snprintf.Piece.mk true)].reduceOption
        (Printer.start remain)).mem.read
          (first.getD [] ++ second.getD []).length =
        (first.getD [] ++ second.getD []).map some ↔
      first.getD [] = [] ∨ second = none := by
  have hunchecked : ∀ p : Printer, ¬(false = true ∧ p.space = 0) := by simp
  cases second with
  | none =>
      refine ⟨fun _ => .inr rfl, fun _ => ?_⟩
      rw [Option.getD_none, List.append_nil]
      cases first with
      | none => rfl
      | some u =>
          change (Printer.run _ [⟨false, u⟩] _).mem.read u.length = u.map some
          rw [Printer.run_printed (hunchecked _)]
          exact read_print_zero _ (by simpa using hshort)
  | some t =>
      rw [or_iff_left (Option.some_ne_none t)]
      cases first with
      | none =>
          exact read_run_second_iff (Printer.start remain) hfirst hsecond
            (by simpa using hshort)
      | some u =>
          change u.length + t.length < remain.toNat at hshort
          have hspace : ((Printer.start remain).print 0 u).space.toNat =
              remain.toNat - u.length :=
            Printer.space_print _ _ (show u.length ≤ remain.toNat by omega)
          change (Printer.run _ [⟨false, u⟩, ⟨true, t⟩] _).mem.read _ = _ ↔ _
          rw [Printer.run_printed (hunchecked _)]
          exact read_run_second_iff _ hfirst hsecond
            (show t.length < ((Printer.start remain).print 0 u).space.toNat
              by omega)

/-! ## The prefix of a message -/

structure Composes (d : Decorator) (now : Timeb) (m : LogMeta)
    (filter : Option Filter) : Prop where
  header : (d.headerBuffer now m filter).Holds (d.headerText now m filter)
  footer : (d.footerBuffer now m filter).Holds (d.footerText filter)
  noNul : 0 ∉ d.headerText now m filter ++ d.footerText filter

theorem zero_notMem_headerText_iff
    (d : Decorator) (now : Timeb) (m : LogMeta) (filter : Option Filter) :
    0 ∉ d.headerText now m filter ↔
      0 ∉ (d.timeText now).getD [] ∧ 0 ∉ (d.levelText m).getD [] ∧
        0 ∉ (d.tagText m).getD [] ∧ 0 ∉ (d.originText m).getD [] := by
  simp only [headerText, List.mem_append, zero_notMem_literal, false_or,
    or_false, not_or]
  tauto

theorem headerBuffer_holds
    {d : Decorator} {now : Timeb} {m : LogMeta} {filter : Option Filter}
    (hplain : d.PlainFormats filter)
    (hshort : (d.headerText now m filter).length < greaseMaxPrefixHeader) :
    (d.headerBuffer now m filter).Holds (d.headerText now m filter) := by
  have hsize : greaseMaxPrefixHeader = 128 := rfl
  have hcontent : content (d.headerPieces now m filter) =
      d.headerText now m filter := content_headerPieces hplain (by omega)
  rw [← hcontent] at hshort ⊢
  exact puts_header_holds hshort

theorem footerBuffer_holds_iff
    {d : Decorator} {now : Timeb} {m : LogMeta} {filter : Option Filter}
    (hplain : d.PlainFormats filter)
    (hshort : (d.headerText now m filter).length +
      (d.footerText filter).length < greaseMaxPrefixHeader) :
    (d.footerBuffer now m filter).Holds (d.footerText filter) ↔
      literal (filter.bind Filter.postFormat) = [] ∨ d.postFormat = none := by
  have hsize : greaseMaxPrefixHeader = 128 := rfl
  have hheader : content (d.headerPieces now m filter) =
      d.headerText now m filter := content_headerPieces hplain (by omega)
  have hfits : Fits (d.headerPieces now m filter) greaseMaxPrefixHeader :=
    .inl (by rw [hheader]; omega)
  have hremain := footerRemain_eq hfits
  rw [hheader] at hremain
  have hcontent : content (d.footerPieces filter) = d.footerText filter :=
    content_footerPieces hplain (by omega)
  have hlength : (d.footerBuffer now m filter).length.toNat =
      (d.footerText filter).length := by
    have hfits : Fits (d.footerPieces filter)
        (d.footerRemain now m filter).toNat :=
      .inl (by rw [hcontent]; omega)
    rw [footerBuffer, putsFooter, puts_length _ hfits, hcontent]
    omega
  obtain ⟨-, -, -, -, hfilter, htarget⟩ := hplain
  simp only [footerText, List.length_append] at hshort
  have hfirst := d.text_of_plain hfilter (by omega)
  have hsecond := d.text_of_plain htarget (by omega)
  have hread := read_run_footer_iff
    (d.text (filter.bind Filter.postFormat) []) (d.text d.postFormat [])
    (by rw [hfirst]; exact zero_notMem_literal _)
    (by rw [hsecond]; exact zero_notMem_literal _)
    (show _ < (d.footerRemain now m filter).toNat by rw [hfirst, hsecond]; omega)
  rw [hfirst, hsecond, text_eq_none_iff] at hread
  rw [Put.Holds, and_iff_right hlength]
  exact hread

/-- The decorations compose exactly when the footer is not printed over
itself and no directive prints a NUL. -/
theorem composes_iff
    {d : Decorator} {now : Timeb} {m : LogMeta} {filter : Option Filter}
    (hplain : d.PlainFormats filter)
    (hshort : (d.headerText now m filter).length +
      (d.footerText filter).length < greaseMaxPrefixHeader) :
    d.Composes now m filter ↔
      (literal (filter.bind Filter.postFormat) = [] ∨ d.postFormat = none) ∧
        0 ∉ (d.timeText now).getD [] ∧ 0 ∉ (d.levelText m).getD [] ∧
        0 ∉ (d.tagText m).getD [] ∧ 0 ∉ (d.originText m).getD [] := by
  have hfooter := footerBuffer_holds_iff hplain hshort
  have hnul := d.zero_notMem_headerText_iff now m filter
  have hnul' : 0 ∉ d.footerText filter := by
    rw [footerText, List.mem_append, not_or]
    exact ⟨zero_notMem_literal _, zero_notMem_literal _⟩
  constructor
  · rintro ⟨-, hholds, hnone⟩
    rw [List.mem_append, not_or] at hnone
    exact ⟨hfooter.mp hholds, hnul.mp hnone.1⟩
  · rintro ⟨hsingle, hnone⟩
    refine ⟨headerBuffer_holds hplain (by omega), hfooter.mpr hsingle, ?_⟩
    rw [List.mem_append, not_or]
    exact ⟨hnul.mpr hnone, hnul'⟩

/-- A bracket of the filter, one of the target, and a colon. -/
theorem composes_brackets :
    let d := plain (some [40]) (some [58]) (some [41])
    let filter : Filter := { Filter.empty with preFormat := some [91] }
    let m := LogMeta.declare 1 1 1
    d.PlainFormats (some filter) ∧
      (d.headerText ⟨0, 0⟩ m (some filter)).length +
        (d.footerText (some filter)).length < greaseMaxPrefixHeader ∧
      d.headerText ⟨0, 0⟩ m (some filter) = [91, 40, 58] ∧
      d.footerText (some filter) = [41] ∧
      d.Composes ⟨0, 0⟩ m (some filter) := by
  intro d filter m
  have hplain : d.PlainFormats (some filter) := by
    unfold PlainFormats
    decide
  have hshort : (d.headerText ⟨0, 0⟩ m (some filter)).length +
      (d.footerText (some filter)).length < greaseMaxPrefixHeader := by
    decide
  refine ⟨hplain, hshort, by decide, by decide, ?_⟩
  rw [composes_iff hplain hshort]
  decide

/-- Two footers: the second is printed over the first, and of the four bytes
that are reported one is a NUL and one was never stored. -/
theorem footer_printed_over :
    let d := plain none none (some [67, 68])
    let filter : Filter := { Filter.empty with postFormat := some [65, 66] }
    let m := LogMeta.declare 1 1 1
    d.PlainFormats (some filter) ∧
      (d.headerText ⟨0, 0⟩ m (some filter)).length +
        (d.footerText (some filter)).length < greaseMaxPrefixHeader ∧
      d.footerText (some filter) = [65, 66, 67, 68] ∧
      (d.footerBuffer ⟨0, 0⟩ m (some filter)).length = 4 ∧
      (d.footerBuffer ⟨0, 0⟩ m (some filter)).mem.read 4 =
        [some 67, some 68, some 0, none] ∧
      ¬d.Composes ⟨0, 0⟩ m (some filter) := by
  intro d filter m
  have hread : (d.footerBuffer ⟨0, 0⟩ m (some filter)).mem.read 4 =
      [some 67, some 68, some 0, none] := by
    decide +kernel
  refine ⟨?_, by decide, by decide, by decide +kernel, hread, ?_⟩
  · unfold PlainFormats
    decide
  · rintro ⟨-, ⟨-, htext⟩, -⟩
    have htext : (d.footerBuffer ⟨0, 0⟩ m (some filter)).mem.read 4 =
        [some 65, some 66, some 67, some 68] := htext
    rw [hread] at htext
    exact absurd htext (by decide)

/-! ## The prefix in the output of a target -/

/-- What `copyIn` takes from a buffer. -/
def Put.bytes (put : Put) : List UInt8 :=
  (put.mem.read put.length.toNat).reduceOption

/-- The decorations of all targets at one time. -/
def formatting (decorators : TargetId → Decorator) (now : Timeb)
    (jsonEscape : ℕ → List UInt8 → List UInt8) : Formatting where
  header id m filter := ((decorators id).headerBuffer now m (some filter)).bytes
  footer id m filter := ((decorators id).footerBuffer now m (some filter)).bytes
  jsonEscape := jsonEscape

theorem Put.Holds.bytes_eq
    {put : Put} {text : List UInt8} (h : put.Holds text) : put.bytes = text := by
  rw [Put.bytes, h.1, h.2, List.reduceOption, List.filterMap_map]
  exact List.filterMap_some

/-- A write adds the decorations around its text. -/
theorem Composes.message
    {decorators : TargetId → Decorator} {now : Timeb} {id : TargetId}
    {m : LogMeta} {filter : Filter}
    (h : (decorators id).Composes now m (some filter))
    (jsonEscape : ℕ → List UInt8 → List UInt8) (owner : Owner) (seq : ℕ)
    (text : List UInt8) (delim : Option (List UInt8)) :
    TargetCall.message id delim
        ⟨owner, formatting decorators now jsonEscape,
          .write seq text m filter⟩ =
      (decorators id).headerText now m (some filter) ++ text ++
        (decorators id).footerText (some filter) ++ delim.getD [] := by
  simp only [TargetCall.message, formatting, h.header.bytes_eq,
    h.footer.bytes_eq]

/-- Decorations that fit the prefix leave room for the text in a bank. -/
theorem length_formatting_le
    {decorators : TargetId → Decorator} {now : Timeb} {id : TargetId}
    {m : LogMeta} {filter : Filter}
    (hheader : Fits ((decorators id).headerPieces now m (some filter))
      greaseMaxPrefixHeader)
    (hfooter : Fits ((decorators id).footerPieces (some filter))
      (greaseMaxPrefixHeader -
        (content ((decorators id).headerPieces now m (some filter))).length))
    (jsonEscape : ℕ → List UInt8 → List UInt8) :
    ((formatting decorators now jsonEscape).header id m filter).length +
        ((formatting decorators now jsonEscape).footer id m filter).length ≤
      greaseMaxPrefixHeader := by
  have hbytes : ∀ put : Put, put.bytes.length ≤ put.length.toNat := by
    intro put
    have hle := List.reduceOption_length_le (put.mem.read put.length.toNat)
    rwa [Memory.read, List.length_map, List.length_range] at hle
  have hfirst := hbytes ((decorators id).headerBuffer now m (some filter))
  have hsecond := hbytes ((decorators id).footerBuffer now m (some filter))
  simp only [formatting]
  exact le_trans (Nat.add_le_add hfirst hsecond)
    (length_buffers_le hheader hfooter)

end Decorator

end GreaseLog
