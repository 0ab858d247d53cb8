import GreaseLog.BankCapacity
import GreaseLog.Intake

/-!
# The bytes of a large message

A message that is too large for the pool or for a bank is written out at once,
piece by piece: header, entry, footer and the delimiter of the target.  The
other way through a bank copies header, text and footer, escapes the text if
the target wants that, and adds the delimiter of the bank.  The two agree for
plain targets whose banks have the delimiter of the target.

Pieces are written out with the length of their buffer, `handle.len`, and not
with the number of bytes that are used.  A byte of the buffer that nobody has
stored anything in is `none` below.
-/

namespace GreaseLog

/-- The bytes an output reads from the buffer. -/
def HeapBuf.contents (b : HeapBuf) : List (Option UInt8) :=
  (b.mem.take b.len).map some ++
    List.replicate (b.len - b.mem.length) none

theorem HeapBuf.length_contents (b : HeapBuf) :
    b.contents.length = b.len := by
  simp only [contents, List.length_append, List.length_map, List.length_take,
    List.length_replicate]
  omega

/-- How a message became an overflow: `_log` found it too large for the pool, or
the target `u` found it too large for its banks. -/
inductive OverflowPath where
  | log
  | target (u : LogTarget)

namespace OverflowPath

/-- Whether the entry holds the escaped text. -/
def escapes : OverflowPath → Bool
  | .log => false
  | .target u => u.escapes

def entry (path : OverflowPath) (env : Formatting) (seq : ℕ)
    (text : List UInt8) (m : LogMeta) (following : IgnoreList) : SingleLog :=
  match path with
  | .log => { Logger.largeMessage m following text with seq := seq }
  | .target u => u.overflowEntry env seq text m

end OverflowPath

namespace LogTarget

/-- The delimiter and the flags `GreaseLib_modifyDefaultTarget` gives to the
default target, when it does not replace it by a tty or a file.  The banks keep
the delimiter they were made with. -/
def modifyDefaultTarget (t : LogTarget) (delim : Option (List UInt8))
    (flags : UInt32) : LogTarget :=
  { t with delim := delim.orElse fun _ => t.delim }.setFlag flags

end LogTarget

/-! ## Entries -/

namespace OverflowPath

end OverflowPath

/-! ## When they agree -/

namespace LogTarget

end LogTarget

/-! ## The copy for a callback

`_doLibCallback` allocates one buffer for all pieces and copies them into it. -/

/-- What the user of the library finds in a `GreaseLibBuf`; `data` is the
memory it points to. -/
structure GreaseLibBuf where
  data : List (Option UInt8)
  size : ℕ
  id : Int32
  deriving DecidableEq

namespace OverflowWriteOut

def totalSize (bufs : List SingleLog) : ℕ :=
  (bufs.map fun b => b.buf.len).sum

/-- `memcpy` to the given offset of an allocated block. -/
def memcpyAt (d : List (Option UInt8)) (offset : ℕ)
    (src : List (Option UInt8)) : List (Option UInt8) :=
  d.take offset ++ src ++ d.drop (offset + src.length)

/-- The loop of `copyAllTo`: `walk` moves on with each piece, and the pieces
are copied to `d`. -/
def copyAllTo (bufs : List SingleLog) (d : List (Option UInt8)) :
    List (Option UInt8) :=
  (bufs.foldl (fun (acc : List (Option UInt8) × ℕ) b =>
    (memcpyAt acc.1 0 b.buf.contents, acc.2 + b.buf.len)) (d, 0)).1

theorem le_totalSize
    {bufs : List SingleLog} {b : SingleLog} (hb : b ∈ bufs) :
    b.buf.len ≤ totalSize bufs := by
  apply List.le_sum_of_mem
  exact List.mem_map_of_mem hb

theorem length_flatMap_contents (bufs : List SingleLog) :
    (bufs.flatMap fun piece => piece.buf.contents).length =
      totalSize bufs := by
  rw [List.length_flatMap]
  apply congrArg List.sum
  apply List.map_congr_left
  intro b _
  exact b.buf.length_contents

/-- The copies stay inside the block. -/
theorem length_copyAllTo
    {bufs : List SingleLog} {d : List (Option UInt8)}
    (hroom : ∀ b ∈ bufs, b.buf.len ≤ d.length) :
    (copyAllTo bufs d).length = d.length := by
  have hloop : ∀ acc : List (Option UInt8) × ℕ,
      (∀ b ∈ bufs, b.buf.len ≤ acc.1.length) →
        (bufs.foldl (fun (acc : List (Option UInt8) × ℕ) b =>
          (memcpyAt acc.1 0 b.buf.contents, acc.2 + b.buf.len))
          acc).1.length = acc.1.length := by
    clear hroom
    induction bufs with
    | nil => exact fun _ _ => rfl
    | cons b bufs ih =>
        intro acc hroom
        have hfirst : (memcpyAt acc.1 0 b.buf.contents).length =
            acc.1.length := by
          have hlen := hroom b (by simp)
          simp only [memcpyAt, List.take_zero, List.nil_append, Nat.zero_add,
            List.length_append, List.length_drop, b.buf.length_contents]
          omega
        rw [List.foldl_cons, ih, hfirst]
        intro b' hb'
        rw [hfirst]
        exact hroom b' (by simp [hb'])
  exact hloop (d, 0) hroom

end OverflowWriteOut

/-- `GreaseLib_new_GreaseLibBuf`. -/
def GreaseLibBuf.new (size : ℕ) : GreaseLibBuf where
  data := List.replicate size none
  size := 0
  id := -1

/-- The buffer that `_doLibCallback` fills in. -/
def LibBuf.filled : LibBuf → GreaseLibBuf
  | .bank id shadow =>
      { data := (bytesOf shadow.data).map some
        size := shadow.handleLen
        id := id }
  | .overflow bufs =>
      let buf := GreaseLibBuf.new (OverflowWriteOut.totalSize bufs)
      { buf with data := OverflowWriteOut.copyAllTo bufs buf.data }

/-- The buffer holds the pieces one after the other, and says how long they
are. -/
def GreaseLibBuf.Holds (buf : GreaseLibBuf) (bufs : List SingleLog) : Prop :=
  buf.data = bufs.flatMap (fun piece => piece.buf.contents) ∧
    buf.size = OverflowWriteOut.totalSize bufs

namespace Logger

/-- A callback gets the pieces of the overflow whole, in their order. -/
def GetsIntact (s : Logger) (t : TargetId) (bufs : List SingleLog) : Prop :=
  ∃ buf, (s.doLibCallback (.overflow t bufs)).owner.userBufs =
    s.owner.userBufs ++ [buf] ∧ buf.filled.Holds bufs

theorem length_filled_overflow (bufs : List SingleLog) :
    (LibBuf.overflow bufs).filled.data.length =
      OverflowWriteOut.totalSize bufs := by
  have hnew : (GreaseLibBuf.new (OverflowWriteOut.totalSize bufs)).data.length =
      OverflowWriteOut.totalSize bufs :=
    List.length_replicate
  have hroom : ∀ b ∈ bufs, b.buf.len ≤
      (GreaseLibBuf.new (OverflowWriteOut.totalSize bufs)).data.length := by
    intro b hb
    rw [hnew]
    exact OverflowWriteOut.le_totalSize hb
  exact (OverflowWriteOut.length_copyAllTo hroom).trans hnew

/-- The size is never set, so only overflows without a single byte arrive as
they are. -/
theorem getsIntact_iff (s : Logger) (t : TargetId) (bufs : List SingleLog) :
    s.GetsIntact t bufs ↔ ∀ b ∈ bufs, b.buf.len = 0 := by
  have hsum : OverflowWriteOut.totalSize bufs = 0 ↔
      ∀ b ∈ bufs, b.buf.len = 0 := by
    simp [OverflowWriteOut.totalSize, List.sum_eq_zero_iff]
  constructor
  · rintro ⟨buf, hadded, -, hsize⟩
    have hbuf : buf = .overflow bufs :=
      (List.cons.inj (List.append_cancel_left hadded)).1.symm
    subst hbuf
    exact hsum.mp hsize.symm
  · intro hempty
    have htotal := hsum.mpr hempty
    have hcopied : (LibBuf.overflow bufs).filled.data = [] := by
      apply List.length_eq_zero_iff.mp
      rw [length_filled_overflow, htotal]
    have hpieces : bufs.flatMap (fun piece => piece.buf.contents) = [] := by
      apply List.length_eq_zero_iff.mp
      rw [OverflowWriteOut.length_flatMap_contents, htotal]
    exact ⟨.overflow bufs, rfl, hcopied.trans hpieces.symm, htotal.symm⟩

/-- The pieces of a message of 2001 bytes for a callback. -/
def callbackPieces : List SingleLog :=
  (LogTarget.started .callback 2000 7 (some [10]) 4 0).overflowBufs
    (LogTarget.decorated [] [91] [93])
    (OverflowPath.log.entry noFormatting 0 (List.replicate 2001 97)
      noMetaData noIgnoreList) Filter.empty

/-- The memory starts with the delimiter instead of the header, and has no
bytes according to the size. -/
theorem overflow_copy_broken :
    ¬(Logger.new 2000).GetsIntact 7 callbackPieces ∧
      (LibBuf.overflow callbackPieces).filled.data.head? = some (some 10) ∧
      (LibBuf.overflow callbackPieces).filled.size = 0 := by
  refine ⟨?_, by decide +kernel, rfl⟩
  rintro ⟨buf, hadded, -, hsize⟩
  have hbuf := (List.cons.inj (List.append_cancel_left hadded)).1
  rw [← hbuf] at hsize
  revert hsize
  decide +kernel

end Logger

end GreaseLog
