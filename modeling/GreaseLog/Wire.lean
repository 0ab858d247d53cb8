import GreaseLog.LittleEndian
import GreaseLog.LogMeta

/-!
# The datagram format

A client sends `[preamble][size][logMeta][text]`, where the two numbers and
the structure are copied from memory: little-endian words, with four bytes of
padding in front of the 64-bit members.  `grease_logToSink` sends such a
message, `_grease_logToRaw` puts one into a buffer.
-/

namespace GreaseLog

def sinkLogPreamble : UInt32 := 0xF00DFEED
def sinkLogPing : UInt32 := 0xF00DF00D

def sizeofLogMeta : ℕ := 80
def greaseClientHeaderSize : ℕ := 8
def greaseClientPingSize : ℕ := 4
def greaseRawbufMinSize : ℕ := sizeofLogMeta

/-- The widths of the members of `logMeta`, padding included. -/
def logMetaLayout : List ℕ := [4, 4, 4, 4, 4, 4, 8, 8, 8, 8, 8, 8, 8]

def LogMeta.members (m : LogMeta) (padding : UInt32) : List ℕ :=
  [m.tag.toNat, m.level.toNat, m.origin.toNat, m.target.toNat,
    m.extras.toNat, padding.toNat] ++
    (m.cachedHash.toList ++ m.cachedLists.toList).map UInt64.toNat

def LogMeta.bytes (m : LogMeta) (padding : UInt32) : List UInt8 :=
  LittleEndian.storeRecord (logMetaLayout.zip (m.members padding))

def LogMeta.ofMembers (members : List ℕ) : LogMeta :=
  let word (i : ℕ) : UInt32 := UInt32.ofNat (members.getD i 0)
  let long (i : ℕ) : UInt64 := UInt64.ofNat (members.getD i 0)
  { tag := word 0
    level := word 1
    origin := word 2
    target := word 3
    extras := word 4
    cachedHash := #v[long 6, long 7, long 8]
    cachedLists := #v[long 9, long 10, long 11, long 12] }

def LogMeta.ofBytes (bytes : List UInt8) : LogMeta :=
  LogMeta.ofMembers (LittleEndian.loadRecord logMetaLayout bytes)

theorem LogMeta.cache_words (m : LogMeta) :
    ∃ h₀ h₁ h₂ l₀ l₁ l₂ l₃, m = { m with
      cachedHash := #v[h₀, h₁, h₂]
      cachedLists := #v[l₀, l₁, l₂, l₃] } := by
  rcases m with ⟨tag, level, origin, target, extras,
    ⟨⟨hashes⟩, hhashes⟩, ⟨⟨lists⟩, hlists⟩⟩
  rcases List.length_eq_three.mp hhashes with ⟨h₀, h₁, h₂, rfl⟩
  match lists, hlists with
  | [l₀, l₁, l₂, l₃], _ => exact ⟨h₀, h₁, h₂, l₀, l₁, l₂, l₃, rfl⟩

theorem LogMeta.map_fst_members (m : LogMeta) (padding : UInt32) :
    (logMetaLayout.zip (m.members padding)).map Prod.fst = logMetaLayout := by
  rcases m.cache_words with ⟨h₀, h₁, h₂, l₀, l₁, l₂, l₃, hm⟩
  rw [hm]
  rfl

theorem LogMeta.length_bytes (m : LogMeta) (padding : UInt32) :
    (m.bytes padding).length = sizeofLogMeta := by
  unfold bytes
  rw [LittleEndian.length_storeRecord, map_fst_members]
  rfl

theorem LogMeta.ofMembers_members (m : LogMeta) (padding : UInt32) :
    LogMeta.ofMembers (m.members padding) = m := by
  rcases m.cache_words with ⟨h₀, h₁, h₂, l₀, l₁, l₂, l₃, hm⟩
  rw [hm]
  simp [ofMembers, members]

theorem LogMeta.ofBytes_bytes
    (m : LogMeta) (padding : UInt32) (rest : List UInt8) :
    LogMeta.ofBytes (m.bytes padding ++ rest) = m := by
  have hload := LittleEndian.loadRecord_storeRecord
    (logMetaLayout.zip (m.members padding)) rest
  rw [map_fst_members] at hload
  have hmembers : (logMetaLayout.zip (m.members padding)).map
      (fun field => field.2 % 256 ^ field.1) = m.members padding := by
    rcases m.cache_words with ⟨h₀, h₁, h₂, l₀, l₁, l₂, l₃, hm⟩
    rw [hm]
    simp [logMetaLayout, members]
  unfold ofBytes bytes
  rw [hload, hmembers]
  exact ofMembers_members m padding

/-! ## Encoders -/

def clientHeader (size : UInt32) : List UInt8 :=
  LittleEndian.storeRecord [(4, sinkLogPreamble.toNat), (4, size.toNat)]

/-- The datagram `grease_logToSink` sends for a text whose length is a
`RawLogLen`. -/
def logToSink (m : LogMeta) (padding : UInt32) (text : List UInt8) :
    List UInt8 :=
  clientHeader (UInt32.ofNat (text.length + sizeofLogMeta)) ++
    m.bytes padding ++ text

theorem length_clientHeader (size : UInt32) :
    (clientHeader size).length = greaseClientHeaderSize := by
  simp [clientHeader, LittleEndian.length_storeRecord, greaseClientHeaderSize]

theorem length_logToSink
    (m : LogMeta) (padding : UInt32) (text : List UInt8) :
    (logToSink m padding text).length =
      greaseClientHeaderSize + sizeofLogMeta + text.length := by
  simp only [logToSink, List.length_append, length_clientHeader,
    LogMeta.length_bytes]

end GreaseLog
