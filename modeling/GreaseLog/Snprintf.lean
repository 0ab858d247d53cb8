import Mathlib.Data.List.TakeWhile
import Mathlib.Tactic

/-!
# Printing into a buffer of limited size

`snprintf` by its contract.  The text it makes of a format and its arguments
is a parameter; what it stores of a text is not: nothing when the size is
zero, and otherwise as much as leaves room for a NUL.  It returns the length of
the whole text, whether it stored the whole text or not.

The second part is a caller that prints one piece after the other and
subtracts each return value from a `size_t`, the space left.  Some of its
pieces are left out when there is no space left, others are printed all the
same.  A piece longer than the space makes the counter wrap around, and the
space seems to be without end from there on.
-/

namespace Snprintf

/-! ## One call -/

/-- The characters of a C string, up to its NUL. -/
def chars (s : List UInt8) : List UInt8 := s.takeWhile fun b => b ≠ 0

theorem zero_notMem_chars (s : List UInt8) : 0 ∉ chars s := by
  intro hmem
  simpa using List.mem_takeWhile_imp hmem

inductive Arg
  | int (n : ℤ)
  | string (s : List UInt8)
  deriving DecidableEq, Repr

/-- The texts of formats.  The length of a text is returned as an `int`, and a
format without `%` is its own text. -/
structure Printf where
  text : List UInt8 → List Arg → List UInt8
  length_text : ∀ format args, (text format args).length < 2 ^ 31
  text_of_plain : ∀ format args, 37 ∉ format → format.length < 2 ^ 31 →
    text format args = format

/-- The bytes stored in a buffer so far. -/
abbrev Memory := ℕ → Option UInt8

def Memory.store (mem : Memory) (offset : ℕ) (bytes : List UInt8) : Memory :=
  fun i => if offset ≤ i ∧ i < offset + bytes.length then bytes[i - offset]?
    else mem i

/-- The first `n` bytes of a buffer. -/
def Memory.read (mem : Memory) (n : ℕ) : List (Option UInt8) :=
  (List.range n).map mem

/-- What `snprintf(mem + offset, size, …)` stores of a text. -/
def snprintf (mem : Memory) (offset size : ℕ) (text : List UInt8) : Memory :=
  if size = 0 then mem else mem.store offset (text.take (size - 1) ++ [0])

theorem snprintf_outside
    (mem : Memory) {offset size i : ℕ} (text : List UInt8)
    (houtside : i < offset ∨ offset + size ≤ i) :
    snprintf mem offset size text i = mem i := by
  unfold snprintf
  split
  · rfl
  · rename_i hsize
    apply if_neg
    have hlength : (text.take (size - 1) ++ [0]).length ≤ size := by
      rw [List.length_append, List.length_take, List.length_singleton]
      omega
    omega

/-- A text that is shorter than the size is stored with its NUL. -/
theorem snprintf_whole
    (mem : Memory) (offset : ℕ) {size : ℕ} {text : List UInt8}
    (hshort : text.length < size) :
    snprintf mem offset size text = mem.store offset (text ++ [0]) := by
  have hsize : size ≠ 0 := by omega
  have htake : text.take (size - 1) = text := List.take_of_length_le (by omega)
  rw [snprintf, if_neg hsize, htake]

theorem Memory.store_inside
    (mem : Memory) (offset : ℕ) {bytes : List UInt8} {i : ℕ}
    (hi : i < bytes.length) :
    mem.store offset bytes (offset + i) = bytes[i]? := by
  have hrange : offset ≤ offset + i ∧ offset + i < offset + bytes.length := by
    omega
  rw [Memory.store, if_pos hrange, Nat.add_sub_cancel_left]

theorem Memory.read_eq_iff (mem : Memory) (bytes : List UInt8) :
    mem.read bytes.length = bytes.map some ↔
      ∀ i < bytes.length, mem i = bytes[i]? := by
  constructor
  · intro hread i hi
    have hat := congrArg (fun l => l[i]?) hread
    simp only [Memory.read, List.getElem?_map, List.getElem?_range hi,
      List.getElem?_eq_getElem hi, Option.map_some, Option.some.injEq] at hat
    rw [hat, List.getElem?_eq_getElem hi]
  · intro hall
    apply List.ext_getElem
    · simp [Memory.read]
    · intro i hi hi'
      have hi : i < bytes.length := by simpa using hi'
      simp only [Memory.read, List.getElem_map, List.getElem_range]
      rw [hall i hi, List.getElem?_eq_getElem hi]

/-! ## One piece after the other -/

/-- A text, and whether it is printed only while there is space left. -/
structure Piece where
  checksSpace : Bool
  text : List UInt8
  deriving DecidableEq, Repr

/-- The texts of the pieces in a row. -/
def content (pieces : List Piece) : List UInt8 := pieces.flatMap Piece.text

@[simp] theorem content_nil : content [] = [] := rfl

@[simp] theorem content_cons (piece : Piece) (rest : List Piece) :
    content (piece :: rest) = piece.text ++ content rest := by
  simp [content]

structure Printer where
  space : UInt64
  mem : Memory

namespace Printer

/-- Nothing is stored yet. -/
def start (remain : UInt64) : Printer where
  space := remain
  mem := fun _ => none

@[simp] theorem space_start (remain : UInt64) : (start remain).space = remain :=
  rfl

/-- A call at an offset, and `space = space - n`. -/
def print (p : Printer) (offset : UInt64) (text : List UInt8) : Printer where
  space := p.space - UInt64.ofNat text.length
  mem := snprintf p.mem offset.toNat p.space.toNat text

/-- `place` gives the offset of a piece from the space left. -/
def run (place : UInt64 → UInt64) : List Piece → Printer → Printer
  | [], p => p
  | piece :: rest, p =>
      if piece.checksSpace = true ∧ p.space = 0 then run place rest p
      else run place rest (p.print (place p.space) piece.text)

end Printer

/-! ## When the pieces fit -/

/-- The pieces fit together, or a beginning of them takes all the room and the
others are left out or empty. -/
def Fits (pieces : List Piece) (room : ℕ) : Prop :=
  (content pieces).length ≤ room ∨
    ∃ front back, pieces = front ++ back ∧ (content front).length = room ∧
      ∀ piece ∈ back, piece.checksSpace = true ∨ piece.text = []

theorem fits_nil (room : ℕ) : Fits [] room := Or.inl (Nat.zero_le _)

theorem fits_zero_iff (pieces : List Piece) :
    Fits pieces 0 ↔
      ∀ piece ∈ pieces, piece.checksSpace = true ∨ piece.text = [] := by
  constructor
  · rintro (hall | ⟨front, back, rfl, hfull, hback⟩) piece hmem
    · have hnone : content pieces = [] :=
        List.length_eq_zero_iff.mp (Nat.le_zero.mp hall)
      exact .inr (List.flatMap_eq_nil_iff.mp hnone piece hmem)
    · have hnone : content front = [] := List.length_eq_zero_iff.mp hfull
      rcases List.mem_append.mp hmem with hfront | hbehind
      · exact .inr (List.flatMap_eq_nil_iff.mp hnone piece hfront)
      · exact hback piece hbehind
  · intro hall
    exact .inr ⟨[], pieces, rfl, rfl, hall⟩

/-- Behind a full buffer, a piece that checks for space changes nothing. -/
theorem fits_cons_skipped
    {piece : Piece} (hchecks : piece.checksSpace = true) (rest : List Piece) :
    Fits (piece :: rest) 0 ↔ Fits rest 0 := by
  rw [fits_zero_iff, fits_zero_iff, List.forall_mem_cons]
  exact and_iff_right (.inl hchecks)

theorem fits_cons_printed
    {piece : Piece} {room : ℕ}
    (hprinted : ¬(piece.checksSpace = true ∧ room = 0)) (rest : List Piece) :
    Fits (piece :: rest) room ↔
      piece.text.length ≤ room ∧ Fits rest (room - piece.text.length) := by
  constructor
  · rintro (hall | ⟨front, back, hsplit, hfull, hback⟩)
    · rw [content_cons, List.length_append] at hall
      exact ⟨by omega, .inl (by omega)⟩
    · cases front with
      | nil =>
          subst hsplit
          have hroom : room = 0 := hfull.symm
          have hempty : piece.text = [] :=
            (hback piece List.mem_cons_self).resolve_left fun hchecks =>
              hprinted ⟨hchecks, hroom⟩
          rw [hempty, hroom]
          exact ⟨Nat.le_refl _, .inr ⟨[], rest, rfl, rfl,
            fun other hother => hback other (List.mem_cons_of_mem _ hother)⟩⟩
      | cons first front =>
          obtain ⟨rfl, rfl⟩ := List.cons.inj hsplit
          rw [content_cons, List.length_append] at hfull
          exact ⟨by omega, .inr ⟨front, back, rfl, by omega, hback⟩⟩
  · rintro ⟨hpiece, hall | ⟨front, back, rfl, hfull, hback⟩⟩
    · left
      rw [content_cons, List.length_append]
      omega
    · refine .inr ⟨piece :: front, back, rfl, ?_, hback⟩
      rw [content_cons, List.length_append, hfull]
      omega

/-! ## The space left and the stores -/

namespace Printer

variable {place : UInt64 → UInt64}

theorem run_skipped
    {piece : Piece} {p : Printer}
    (hskip : piece.checksSpace = true ∧ p.space = 0) (rest : List Piece) :
    run place (piece :: rest) p = run place rest p :=
  if_pos hskip

theorem run_printed
    {piece : Piece} {p : Printer}
    (hprinted : ¬(piece.checksSpace = true ∧ p.space = 0)) (rest : List Piece) :
    run place (piece :: rest) p =
      run place rest (p.print (place p.space) piece.text) :=
  if_neg hprinted

theorem space_print_sub
    (p : Printer) (offset : UInt64) (text : List UInt8) (used : ℕ) :
    (p.print offset text).space - UInt64.ofNat used =
      p.space - UInt64.ofNat (text.length + used) := by
  rw [print, UInt64.ofNat_add, UInt64.eq_sub_iff_add_eq,
    UInt64.add_comm (UInt64.ofNat text.length), ← UInt64.add_assoc,
    UInt64.sub_add_cancel, UInt64.sub_add_cancel]

theorem space_print
    (p : Printer) (offset : UInt64) {text : List UInt8}
    (hfits : text.length ≤ p.space.toNat) :
    (p.print offset text).space.toNat = p.space.toNat - text.length := by
  have hsmall := p.space.toNat_lt
  have hlength : (UInt64.ofNat text.length).toNat = text.length :=
    UInt64.toNat_ofNat_of_lt' (lt_of_le_of_lt hfits hsmall)
  have hle : UInt64.ofNat text.length ≤ p.space := by
    rw [UInt64.le_iff_toNat_le, hlength]
    exact hfits
  rw [print, UInt64.toNat_sub_of_le _ _ hle, hlength]

theorem toNat_eq_zero_iff (n : UInt64) : n.toNat = 0 ↔ n = 0 := by
  rw [← UInt64.toNat_inj, UInt64.toNat_zero]

/-- What becomes of the first piece when the pieces fit: it is left out since
the buffer is full, or it is printed and leaves enough for the others. -/
theorem run_cons_of_fits
    (place : UInt64 → UInt64) {piece : Piece} {rest : List Piece} {p : Printer}
    (hfits : Fits (piece :: rest) p.space.toNat) :
    (run place (piece :: rest) p = run place rest p ∧ p.space.toNat = 0 ∧
        Fits rest p.space.toNat) ∨
      ∃ p', p' = p.print (place p.space) piece.text ∧
        run place (piece :: rest) p = run place rest p' ∧
        p'.space.toNat + piece.text.length = p.space.toNat ∧
        Fits rest p'.space.toNat := by
  by_cases hskip : piece.checksSpace = true ∧ p.space = 0
  · have hzero : p.space.toNat = 0 := (toNat_eq_zero_iff _).mpr hskip.2
    rw [hzero, fits_cons_skipped hskip.1] at hfits
    exact .inl ⟨run_skipped hskip rest, hzero, by rwa [hzero]⟩
  · have hprinted : ¬(piece.checksSpace = true ∧ p.space.toNat = 0) := by
      rwa [toNat_eq_zero_iff]
    obtain ⟨hpiece, hrest⟩ := (fits_cons_printed hprinted rest).mp hfits
    have hspace := space_print p (place p.space) hpiece
    refine .inr ⟨_, rfl, run_printed hskip rest, by omega, ?_⟩
    rwa [hspace]

/-- What the pieces leave of the space when they fit. -/
theorem space_run_of_fits
    (place : UInt64 → UInt64) {pieces : List Piece} {p : Printer}
    (hfits : Fits pieces p.space.toNat) :
    (run place pieces p).space.toNat =
      p.space.toNat - (content pieces).length := by
  induction pieces generalizing p with
  | nil => simp [run]
  | cons piece rest ih =>
      rw [content_cons, List.length_append]
      rcases run_cons_of_fits place hfits with
        ⟨hrun, hzero, hrest⟩ | ⟨p', -, hrun, hspace, hrest⟩
      · rw [hrun, ih hrest]
        omega
      · rw [hrun, ih hrest]
        omega

/-- The space left is the space at the start less the length of some of the
pieces, wrapped around. -/
theorem space_run (place : UInt64 → UInt64) (pieces : List Piece) (p : Printer) :
    ∃ used ≤ (content pieces).length,
      (run place pieces p).space = p.space - UInt64.ofNat used := by
  induction pieces generalizing p with
  | nil => exact ⟨0, Nat.le_refl _, by simp [run]⟩
  | cons piece rest ih =>
      by_cases hskip : piece.checksSpace = true ∧ p.space = 0
      · obtain ⟨used, hused, hspace⟩ := ih p
        refine ⟨used, ?_, (congrArg space (run_skipped hskip rest)).trans hspace⟩
        rw [content_cons, List.length_append]
        omega
      · obtain ⟨used, hused, hspace⟩ := ih (p.print (place p.space) piece.text)
        refine ⟨piece.text.length + used, ?_, ?_⟩
        · rw [content_cons, List.length_append]
          omega
        · rw [run_printed hskip, hspace, space_print_sub]

/-- Pieces that do not fit use more than the space there was. -/
theorem space_run_of_not_fits
    (place : UInt64 → UInt64) {pieces : List Piece} {p : Printer}
    (hfits : ¬Fits pieces p.space.toNat) :
    ∃ used, p.space.toNat < used ∧ used ≤ (content pieces).length ∧
      (run place pieces p).space = p.space - UInt64.ofNat used := by
  induction pieces generalizing p with
  | nil => exact absurd (fits_nil _) hfits
  | cons piece rest ih =>
      by_cases hskip : piece.checksSpace = true ∧ p.space = 0
      · have hzero : p.space.toNat = 0 := (toNat_eq_zero_iff _).mpr hskip.2
        rw [hzero, fits_cons_skipped hskip.1] at hfits
        obtain ⟨used, hmore, hused, hspace⟩ := ih (p := p) (by rwa [hzero])
        refine ⟨used, hmore, ?_, (congrArg space (run_skipped hskip rest)).trans hspace⟩
        rw [content_cons, List.length_append]
        omega
      · have hprinted : ¬(piece.checksSpace = true ∧ p.space.toNat = 0) := by
          rwa [toNat_eq_zero_iff]
        rw [fits_cons_printed hprinted, not_and] at hfits
        rw [run_printed hskip, content_cons, List.length_append]
        by_cases hpiece : piece.text.length ≤ p.space.toNat
        · have hleft := space_print p (place p.space) hpiece
          obtain ⟨used, hmore, hused, hspace⟩ :=
            ih (p := p.print (place p.space) piece.text)
              (by rw [hleft]; exact hfits hpiece)
          refine ⟨piece.text.length + used, by omega, by omega, ?_⟩
          rw [hspace, space_print_sub]
        · obtain ⟨used, hused, hspace⟩ :=
            space_run place rest (p.print (place p.space) piece.text)
          refine ⟨piece.text.length + used, by omega, by omega, ?_⟩
          rw [hspace, space_print_sub]

/-- The amount of space used is within bounds just when the pieces fit. -/
theorem used_le_iff
    (place : UInt64 → UInt64) {pieces : List Piece}
    (hlength : (content pieces).length < 2 ^ 64) (p : Printer) :
    p.space - (run place pieces p).space ≤ p.space ↔
      Fits pieces p.space.toNat := by
  constructor
  · intro hle
    by_contra hfits
    obtain ⟨used, hmore, hused, hspace⟩ :=
      space_run_of_not_fits place hfits
    have hreturned :
        p.space - (run place pieces p).space = UInt64.ofNat used := by
      rw [hspace, UInt64.sub_eq_iff_eq_add, UInt64.add_comm,
        UInt64.sub_add_cancel]
    have hsmall : used < 2 ^ 64 := by omega
    rw [hreturned, UInt64.le_iff_toNat_le,
      UInt64.toNat_ofNat_of_lt' hsmall] at hle
    omega
  · intro hfits
    have hspace := space_run_of_fits place hfits
    have hle : (run place pieces p).space ≤ p.space := by
      rw [UInt64.le_iff_toNat_le]
      omega
    rw [UInt64.le_iff_toNat_le, UInt64.toNat_sub_of_le _ _ hle]
    omega

/-- Pieces that fit are stored below the limit that bounds every call. -/
theorem mem_run_of_fits
    {pieces : List Piece} {p : Printer} {limit : ℕ}
    (hplace : ∀ space ≤ p.space, (place space).toNat + space.toNat ≤ limit)
    (hfits : Fits pieces p.space.toNat) {i : ℕ} (hi : limit ≤ i) :
    (run place pieces p).mem i = p.mem i := by
  induction pieces generalizing p with
  | nil => rfl
  | cons piece rest ih =>
      rcases run_cons_of_fits place hfits with
        ⟨hrun, -, hrest⟩ | ⟨p', hp', hrun, hspace, hrest⟩
      · rw [hrun]
        exact ih hplace hrest
      · have hless : p'.space ≤ p.space := by
          rw [UInt64.le_iff_toNat_le]
          omega
        rw [hrun, ih (fun space hle => hplace space (UInt64.le_trans hle hless))
          hrest, hp']
        have hcall := hplace p.space (UInt64.le_refl _)
        exact snprintf_outside _ _ (.inr (by omega))

/-! ## Pieces that are shorter than the space -/

theorem print_before
    (p : Printer) {offset : UInt64} (text : List UInt8) {i : ℕ}
    (hi : i < offset.toNat) :
    (p.print offset text).mem i = p.mem i :=
  snprintf_outside _ _ (.inl hi)

theorem mem_print
    (p : Printer) (offset : UInt64) {text : List UInt8}
    (hshort : text.length < p.space.toNat) :
    (p.print offset text).mem = p.mem.store offset.toNat (text ++ [0]) :=
  snprintf_whole _ _ hshort

theorem print_text
    (p : Printer) (offset : UInt64) {text : List UInt8}
    (hshort : text.length < p.space.toNat) {i : ℕ} (hi : i < text.length) :
    (p.print offset text).mem (offset.toNat + i) = text[i]? := by
  have hi' : i < (text ++ [0]).length := by
    rw [List.length_append]
    omega
  rw [mem_print p _ hshort, Memory.store_inside _ _ hi',
    List.getElem?_append_left hi]

theorem print_nul
    (p : Printer) (offset : UInt64) {text : List UInt8}
    (hshort : text.length < p.space.toNat) :
    (p.print offset text).mem (offset.toNat + text.length) = some 0 := by
  have hi : text.length < (text ++ [0]).length := by
    rw [List.length_append, List.length_singleton]
    omega
  rw [mem_print p _ hshort, Memory.store_inside _ _ hi,
    List.getElem?_concat_length]

/-- Pieces that are printed behind what has been used follow each other; the
NUL of each one gives way to the next. -/
theorem mem_run_append
    {remain : UInt64} {pieces : List Piece} {p : Printer} {used : ℕ}
    (hspace : p.space.toNat + used = remain.toNat)
    (hshort : (content pieces).length < p.space.toNat) :
    (∀ i < used, (run (fun space => remain - space) pieces p).mem i = p.mem i) ∧
      ∀ i < (content pieces).length,
        (run (fun space => remain - space) pieces p).mem (used + i) =
          (content pieces)[i]? := by
  induction pieces generalizing p used with
  | nil => exact ⟨fun i hi => rfl, fun i hi => absurd hi (Nat.not_lt_zero i)⟩
  | cons piece rest ih =>
      rw [content_cons, List.length_append] at hshort
      have hprinted : ¬(piece.checksSpace = true ∧ p.space = 0) := by
        rw [← toNat_eq_zero_iff]
        omega
      have hoffset : (remain - p.space).toNat = used := by
        have hle : p.space ≤ remain := by
          rw [UInt64.le_iff_toNat_le]
          omega
        rw [UInt64.toNat_sub_of_le _ _ hle]
        omega
      have hleft := space_print p (remain - p.space)
        (show piece.text.length ≤ p.space.toNat by omega)
      obtain ⟨hbefore, hbehind⟩ :=
        @ih (p.print (remain - p.space) piece.text) (used + piece.text.length)
          (by omega) (by omega)
      rw [run_printed hprinted]
      constructor
      · intro i hi
        rw [hbefore i (by omega), print_before p _ (by omega)]
      · intro i hi
        rw [content_cons, List.length_append] at hi
        rw [content_cons]
        by_cases hpiece : i < piece.text.length
        · rw [hbefore (used + i) (by omega), List.getElem?_append_left hpiece,
            ← hoffset, print_text p _ (by omega) hpiece]
        · have hnext := hbehind (i - piece.text.length) (by omega)
          rw [show used + piece.text.length + (i - piece.text.length) = used + i
            by omega] at hnext
          rw [hnext, List.getElem?_append_right (by omega)]

end Printer

end Snprintf
