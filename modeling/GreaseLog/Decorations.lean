import GreaseLog.LogTarget
import GreaseLog.Snprintf
import GreaseLog.UnixDgramSink
import Mathlib.Data.List.ReduceOption

/-!
# Headers and footers

`putsHeader` and `putsFooter` print the decorations of a message: the formats
of the target, with the time and the labels of the message, and the formats of
the filter.  Both print piece after piece, and both count the space left down
by what `snprintf` returns.  The header prints each piece behind the ones
before it; the footer prints all its pieces at the beginning of the buffer.

`write` and `writeOverflow` make a header of at most
`GREASE_MAX_PREFIX_HEADER` bytes and leave the rest of them to the footer.
-/

namespace GreaseLog

open Snprintf

/-- What `ftime` reads. -/
structure Timeb where
  time : ℤ
  millitm : ℕ

/-- The formats of a target and the label tables of its owner. -/
structure Decorator where
  printf : Printf
  levelLabels : LevelMask → Option LogLabel
  tagLabels : TagId → Option LogLabel
  originLabels : OriginId → Option LogLabel
  timeFormat : LogLabel
  tagFormat : LogLabel
  originFormat : LogLabel
  levelFormat : LogLabel
  preFormat : LogLabel
  postFormat : LogLabel
  preMsgFormat : LogLabel

def emptyLabel : List UInt8 := [45, 45]

namespace Decorator

/-! ## The pieces -/

/-- The text of a format that is set: `!empty()` for the formats of a filter,
`length() > 0` for those of a target. -/
def text (d : Decorator) (format : LogLabel) (args : List Arg) :
    Option (List UInt8) :=
  format.map fun s => d.printf.text (chars s) args

def timeText (d : Decorator) (now : Timeb) : Option (List UInt8) :=
  d.text d.timeFormat [.int now.time, .int now.millitm]

/-- A level without a label has no text. -/
def levelText (d : Decorator) (m : LogMeta) : Option (List UInt8) :=
  match (d.levelLabels m.level).join with
  | some label => d.text d.levelFormat [.string (chars label)]
  | none => none

/-- The label of a tag or an origin; the id `0` has none. -/
def labelOf (labels : UInt32 → Option LogLabel) (id : UInt32) : List UInt8 :=
  if 0 < id then
    match (labels id).join with
    | some label => chars label
    | none => emptyLabel
  else emptyLabel

def tagText (d : Decorator) (m : LogMeta) : Option (List UInt8) :=
  d.text d.tagFormat [.string (labelOf d.tagLabels m.tag)]

def originText (d : Decorator) (m : LogMeta) : Option (List UInt8) :=
  d.text d.originFormat [.string (labelOf d.originLabels m.origin)]

/-- The formats of the filter are printed without a look at the space. -/
def headerPieces (d : Decorator) (now : Timeb) (m : LogMeta)
    (filter : Option Filter) : List Snprintf.Piece :=
  [(d.text (filter.bind Filter.preFormat) []).map (.mk false),
    (d.text d.preFormat []).map (.mk true),
    (d.timeText now).map (.mk true),
    (d.levelText m).map (.mk true),
    (d.tagText m).map (.mk true),
    (d.originText m).map (.mk true),
    (d.text d.preMsgFormat []).map (.mk true),
    (d.text (filter.bind Filter.postFormatPreMsg) []).map (.mk false)].reduceOption

def footerPieces (d : Decorator) (filter : Option Filter) :
    List Snprintf.Piece :=
  [(d.text (filter.bind Filter.postFormat) []).map (.mk false),
    (d.text d.postFormat []).map (.mk true)].reduceOption

/-! ## The two functions and their callers -/

/-- What is returned, and what is stored in the buffer. -/
structure Put where
  length : UInt64
  mem : Memory

def puts (place : UInt64 → UInt64) (pieces : List Snprintf.Piece)
    (remain : UInt64) : Put :=
  let p := Printer.run place pieces (Printer.start remain)
  ⟨remain - p.space, p.mem⟩

def putsHeader (d : Decorator) (remain : UInt64) (now : Timeb) (m : LogMeta)
    (filter : Option Filter) : Put :=
  puts (fun space => remain - space) (d.headerPieces now m filter) remain

def putsFooter (d : Decorator) (remain : UInt64) (filter : Option Filter) :
    Put :=
  puts (fun _ => 0) (d.footerPieces filter) remain

/-- `header_buffer` in `write`, and `hdr` in `writeOverflow`. -/
def headerBuffer (d : Decorator) (now : Timeb) (m : LogMeta)
    (filter : Option Filter) : Put :=
  d.putsHeader (UInt64.ofNat greaseMaxPrefixHeader) now m filter

def lenHeaderBuffer (d : Decorator) (now : Timeb) (m : LogMeta)
    (filter : Option Filter) : ℤ :=
  toInt (d.headerBuffer now m filter).length.toNat

/-- The size the callers give to `putsFooter`. -/
def footerRemain (d : Decorator) (now : Timeb) (m : LogMeta)
    (filter : Option Filter) : UInt64 :=
  UInt64.ofInt (greaseMaxPrefixHeader - d.lenHeaderBuffer now m filter)

def footerBuffer (d : Decorator) (now : Timeb) (m : LogMeta)
    (filter : Option Filter) : Put :=
  d.putsFooter (d.footerRemain now m filter) filter

def lenFooterBuffer (d : Decorator) (now : Timeb) (m : LogMeta)
    (filter : Option Filter) : ℤ :=
  toInt (d.footerBuffer now m filter).length.toNat

/-! ## Staying inside the buffer -/

/-- Nothing is stored behind the buffer, and no more is reported. -/
def Put.Inside (put : Put) (remain : UInt64) : Prop :=
  (∀ i, remain.toNat ≤ i → put.mem i = none) ∧ put.length ≤ remain

/-- Both functions keep to a buffer of any size, and the callers get a header
and a footer that have room in one prefix together. -/
def StaysInside (d : Decorator) (remain : UInt64) (now : Timeb) (m : LogMeta)
    (filter : Option Filter) : Prop :=
  (d.putsHeader remain now m filter).Inside remain ∧
    (d.putsFooter remain filter).Inside remain ∧
    (d.headerBuffer now m filter).Inside (UInt64.ofNat greaseMaxPrefixHeader) ∧
    (d.footerBuffer now m filter).Inside (d.footerRemain now m filter) ∧
    d.lenHeaderBuffer now m filter + d.lenFooterBuffer now m filter ≤
      greaseMaxPrefixHeader

theorem puts_inside_iff
    {place : UInt64 → UInt64} {pieces : List Snprintf.Piece} {remain : UInt64}
    (hplace : ∀ space ≤ remain,
      (place space).toNat + space.toNat ≤ remain.toNat)
    (hlength : (content pieces).length < 2 ^ 64) :
    (puts place pieces remain).Inside remain ↔ Fits pieces remain.toNat := by
  have hused := Printer.used_le_iff place hlength (Printer.start remain)
  constructor
  · rintro ⟨-, hle⟩
    exact hused.mp hle
  · intro hfits
    refine ⟨fun i hi => ?_, hused.mpr hfits⟩
    exact Printer.mem_run_of_fits (p := Printer.start remain) hplace hfits hi

/-- The length of decorations that fit: all of them, or the whole buffer. -/
theorem puts_length
    (place : UInt64 → UInt64) {pieces : List Snprintf.Piece} {remain : UInt64}
    (hfits : Fits pieces remain.toNat) :
    (puts place pieces remain).length.toNat =
      min (content pieces).length remain.toNat := by
  have hspace := Printer.space_run_of_fits place (p := Printer.start remain) hfits
  rw [Printer.space_start] at hspace
  have hle :
      (Printer.run place pieces (Printer.start remain)).space ≤ remain := by
    rw [UInt64.le_iff_toNat_le]
    omega
  rw [puts, UInt64.toNat_sub_of_le _ _ hle]
  omega

/-! ### The lengths of the pieces -/

theorem length_of_text
    (d : Decorator) {format : LogLabel} {args : List Arg} {t : List UInt8}
    (ht : d.text format args = some t) : t.length < 2 ^ 31 := by
  obtain ⟨s, -, rfl⟩ := Option.map_eq_some_iff.mp ht
  exact d.printf.length_text _ _

theorem length_of_levelText
    (d : Decorator) {m : LogMeta} {t : List UInt8}
    (ht : d.levelText m = some t) : t.length < 2 ^ 31 := by
  unfold levelText at ht
  split at ht
  · exact d.length_of_text ht
  · cases ht

theorem length_of_piece
    {o : Option (List UInt8)} (ho : ∀ t, o = some t → t.length < 2 ^ 31)
    {checks : Bool} {piece : Snprintf.Piece}
    (hpiece : some piece = o.map (.mk checks)) : piece.text.length < 2 ^ 31 := by
  obtain ⟨t, ht, rfl⟩ := Option.map_eq_some_iff.mp hpiece.symm
  exact ho t ht

theorem length_of_mem_headerPieces
    {d : Decorator} {now : Timeb} {m : LogMeta} {filter : Option Filter}
    {piece : Snprintf.Piece} (hmem : piece ∈ d.headerPieces now m filter) :
    piece.text.length < 2 ^ 31 := by
  have htext : ∀ format args t, d.text format args = some t →
      t.length < 2 ^ 31 := fun _ _ _ => d.length_of_text
  rw [headerPieces, List.reduceOption_mem_iff] at hmem
  simp only [List.mem_cons, List.not_mem_nil, or_false] at hmem
  rcases hmem with h | h | h | h | h | h | h | h
  · exact length_of_piece (htext _ _) h
  · exact length_of_piece (htext _ _) h
  · exact length_of_piece (htext _ _) h
  · exact length_of_piece (fun t => d.length_of_levelText) h
  · exact length_of_piece (htext _ _) h
  · exact length_of_piece (htext _ _) h
  · exact length_of_piece (htext _ _) h
  · exact length_of_piece (htext _ _) h

theorem length_of_mem_footerPieces
    {d : Decorator} {filter : Option Filter} {piece : Snprintf.Piece}
    (hmem : piece ∈ d.footerPieces filter) : piece.text.length < 2 ^ 31 := by
  rw [footerPieces, List.reduceOption_mem_iff] at hmem
  simp only [List.mem_cons, List.not_mem_nil, or_false] at hmem
  rcases hmem with h | h
  · exact length_of_piece (fun t => d.length_of_text) h
  · exact length_of_piece (fun t => d.length_of_text) h

theorem length_content_le
    (pieces : List Snprintf.Piece)
    (hpieces : ∀ piece ∈ pieces, piece.text.length < 2 ^ 31) :
    (content pieces).length ≤ pieces.length * 2 ^ 31 := by
  induction pieces with
  | nil => exact Nat.zero_le _
  | cons piece rest ih =>
      have hfirst := hpieces piece List.mem_cons_self
      have hrest := ih fun other hother =>
        hpieces other (List.mem_cons_of_mem _ hother)
      rw [content_cons, List.length_append, List.length_cons]
      omega

theorem length_content_headerPieces
    (d : Decorator) (now : Timeb) (m : LogMeta) (filter : Option Filter) :
    (content (d.headerPieces now m filter)).length < 2 ^ 64 := by
  have hcount : (d.headerPieces now m filter).length ≤ 8 :=
    List.reduceOption_length_le _
  have hlength := length_content_le (d.headerPieces now m filter)
    fun piece => length_of_mem_headerPieces
  omega

theorem length_content_footerPieces
    (d : Decorator) (filter : Option Filter) :
    (content (d.footerPieces filter)).length < 2 ^ 64 := by
  have hcount : (d.footerPieces filter).length ≤ 2 :=
    List.reduceOption_length_le _
  have hlength := length_content_le (d.footerPieces filter)
    fun piece => length_of_mem_footerPieces
  omega

/-! ### When the decorations fit -/

theorem putsHeader_inside_iff
    (d : Decorator) (remain : UInt64) (now : Timeb) (m : LogMeta)
    (filter : Option Filter) :
    (d.putsHeader remain now m filter).Inside remain ↔
      Fits (d.headerPieces now m filter) remain.toNat := by
  apply puts_inside_iff
  · intro space hle
    rw [UInt64.toNat_sub_of_le _ _ hle]
    rw [UInt64.le_iff_toNat_le] at hle
    omega
  · exact d.length_content_headerPieces now m filter

theorem putsFooter_inside_iff
    (d : Decorator) (remain : UInt64) (filter : Option Filter) :
    (d.putsFooter remain filter).Inside remain ↔
      Fits (d.footerPieces filter) remain.toNat := by
  apply puts_inside_iff
  · intro space hle
    rw [UInt64.le_iff_toNat_le] at hle
    rw [UInt64.toNat_zero, Nat.zero_add]
    exact hle
  · exact d.length_content_footerPieces filter

theorem toNat_greaseMaxPrefixHeader :
    (UInt64.ofNat greaseMaxPrefixHeader).toNat = greaseMaxPrefixHeader :=
  rfl

theorem length_headerBuffer
    {d : Decorator} {now : Timeb} {m : LogMeta} {filter : Option Filter}
    (hfits : Fits (d.headerPieces now m filter) greaseMaxPrefixHeader) :
    (d.headerBuffer now m filter).length.toNat =
      min (content (d.headerPieces now m filter)).length
        greaseMaxPrefixHeader :=
  puts_length _ hfits

/-- The length of a header that fits survives the conversion to `int`. -/
theorem lenHeaderBuffer_eq
    {d : Decorator} {now : Timeb} {m : LogMeta} {filter : Option Filter}
    (hfits : Fits (d.headerPieces now m filter) greaseMaxPrefixHeader) :
    d.lenHeaderBuffer now m filter =
      (d.headerBuffer now m filter).length.toNat := by
  have hlength := length_headerBuffer hfits
  have hsize : greaseMaxPrefixHeader = 128 := rfl
  rw [lenHeaderBuffer, toInt_of_range (by omega) (by omega)]

theorem footerRemain_eq
    {d : Decorator} {now : Timeb} {m : LogMeta} {filter : Option Filter}
    (hfits : Fits (d.headerPieces now m filter) greaseMaxPrefixHeader) :
    (d.footerRemain now m filter).toNat =
      greaseMaxPrefixHeader -
        (content (d.headerPieces now m filter)).length := by
  set n := (content (d.headerPieces now m filter)).length with hn
  have hsize : greaseMaxPrefixHeader = 128 := rfl
  have hleft : ((greaseMaxPrefixHeader - d.lenHeaderBuffer now m filter) %
      2 ^ 64).toNat = greaseMaxPrefixHeader - n := by
    rw [lenHeaderBuffer_eq hfits, length_headerBuffer hfits, ← hn, hsize]
    omega
  rw [footerRemain, UInt64.ofInt, hleft, UInt64.toNat_ofNat_of_lt']
  exact lt_of_le_of_lt (Nat.sub_le _ _) (by decide)

theorem length_footerBuffer
    {d : Decorator} {now : Timeb} {m : LogMeta} {filter : Option Filter}
    (hheader : Fits (d.headerPieces now m filter) greaseMaxPrefixHeader)
    (hfooter : Fits (d.footerPieces filter) (greaseMaxPrefixHeader -
      (content (d.headerPieces now m filter)).length)) :
    (d.footerBuffer now m filter).length.toNat =
      min (content (d.footerPieces filter)).length (greaseMaxPrefixHeader -
        (content (d.headerPieces now m filter)).length) := by
  rw [← footerRemain_eq hheader] at hfooter ⊢
  exact puts_length _ hfooter

theorem lenFooterBuffer_eq
    {d : Decorator} {now : Timeb} {m : LogMeta} {filter : Option Filter}
    (hheader : Fits (d.headerPieces now m filter) greaseMaxPrefixHeader)
    (hfooter : Fits (d.footerPieces filter) (greaseMaxPrefixHeader -
      (content (d.headerPieces now m filter)).length)) :
    d.lenFooterBuffer now m filter =
      (d.footerBuffer now m filter).length.toNat := by
  have hlength := length_footerBuffer hheader hfooter
  have hsize : greaseMaxPrefixHeader = 128 := rfl
  rw [lenFooterBuffer, toInt_of_range (by omega) (by omega)]

/-- A header and a footer that fit have room in one prefix together. -/
theorem length_buffers_le
    {d : Decorator} {now : Timeb} {m : LogMeta} {filter : Option Filter}
    (hheader : Fits (d.headerPieces now m filter) greaseMaxPrefixHeader)
    (hfooter : Fits (d.footerPieces filter) (greaseMaxPrefixHeader -
      (content (d.headerPieces now m filter)).length)) :
    (d.headerBuffer now m filter).length.toNat +
        (d.footerBuffer now m filter).length.toNat ≤
      greaseMaxPrefixHeader := by
  rw [length_headerBuffer hheader, length_footerBuffer hheader hfooter]
  omega

/-- The functions and their callers stay inside exactly when the pieces fit:
into a buffer of the given size, and into the prefix of a message, where the
footer has what the header leaves. -/
theorem staysInside_iff
    (d : Decorator) (remain : UInt64) (now : Timeb) (m : LogMeta)
    (filter : Option Filter) :
    d.StaysInside remain now m filter ↔
      Fits (d.headerPieces now m filter) remain.toNat ∧
        Fits (d.footerPieces filter) remain.toNat ∧
        Fits (d.headerPieces now m filter) greaseMaxPrefixHeader ∧
        Fits (d.footerPieces filter) (greaseMaxPrefixHeader -
          (content (d.headerPieces now m filter)).length) := by
  have hheader := d.putsHeader_inside_iff (UInt64.ofNat greaseMaxPrefixHeader)
    now m filter
  have hfooter := d.putsFooter_inside_iff (d.footerRemain now m filter) filter
  rw [toNat_greaseMaxPrefixHeader] at hheader
  rw [StaysInside, putsHeader_inside_iff, putsFooter_inside_iff]
  refine and_congr_right fun _ => and_congr_right fun _ => ?_
  constructor
  · rintro ⟨hinside, hinside', -⟩
    have hfits := hheader.mp hinside
    refine ⟨hfits, ?_⟩
    rw [← footerRemain_eq hfits]
    exact hfooter.mp hinside'
  · rintro ⟨hfits, hfits'⟩
    refine ⟨hheader.mpr hfits, ?_, ?_⟩
    · apply hfooter.mpr
      rwa [footerRemain_eq hfits]
    · rw [lenHeaderBuffer_eq hfits, lenFooterBuffer_eq hfits hfits']
      exact_mod_cast length_buffers_le hfits hfits'

/-- Formats without directives, as `snprintf` prints them. -/
def plainPrintf : Printf where
  text format _ := format.take (2 ^ 31 - 1)
  length_text format args := by
    rw [List.length_take]
    omega
  text_of_plain format args _ hlength := List.take_of_length_le (by omega)

/-- A target with plain formats. -/
def plain (preFormat preMsgFormat postFormat : LogLabel) : Decorator where
  printf := plainPrintf
  levelLabels := fun _ => none
  tagLabels := fun _ => none
  originLabels := fun _ => none
  timeFormat := none
  tagFormat := none
  originFormat := none
  levelFormat := none
  preFormat := preFormat
  postFormat := postFormat
  preMsgFormat := preMsgFormat

/-- After a format of 200 bytes, the next one is stored behind the buffer. -/
theorem header_overruns :
    let d := plain (some (List.replicate 200 97)) (some [58]) none
    let m := LogMeta.declare 1 1 1
    (d.putsHeader 128 ⟨0, 0⟩ m none).length = 201 ∧
      (d.putsHeader 128 ⟨0, 0⟩ m none).mem 200 = some 58 ∧
      ¬d.StaysInside 128 ⟨0, 0⟩ m none := by
  intro d m
  have hlength : (d.putsHeader 128 ⟨0, 0⟩ m none).length = 201 := by
    decide +kernel
  refine ⟨hlength, by decide +kernel, ?_⟩
  rintro ⟨⟨-, hle⟩, -⟩
  rw [hlength] at hle
  exact absurd hle (by decide)

end Decorator

end GreaseLog
