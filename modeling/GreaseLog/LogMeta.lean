import Mathlib.Tactic

/-!
# Log metadata

Every log entry carries a `logMeta` (`grease_client.h`): the tag, level and
origin the filters look at, a flag which says that an ignore list follows the
structure in memory, and a private cache of filter hashes and filter list
pointers.  Pointers are the machine words the structure really holds, so that
a `logMeta` taken from a datagram is a value of the same type.
-/

namespace GreaseLog

abbrev FilterHash := UInt64
abbrev FilterId := UInt32
abbrev TargetId := UInt32
abbrev OriginId := UInt32
abbrev TagId := UInt32
abbrev LevelMask := UInt32

/-- A `FilterList *`; the null pointer is `0`. -/
abbrev FilterListPtr := UInt64

def greaseMaxMessageSize : ℕ := 65535
def greaseMaxPrefixHeader : ℕ := 128
def maxLogMessageSize : ℕ := 65536
def maxIgnoreList : ℕ := 10

/-- `GREASE_NATIVE_TAG`, which `GLOG_DEFAULT_TAG` stands for. -/
def glogDefaultTag : TagId := 0xFFF3

/-- The first cached hash of metadata that caches nothing. -/
def noCachedHash : FilterHash := 0xFFFFFFFFFFFFFFFF

structure LogMeta where
  tag : TagId
  level : LevelMask
  origin : OriginId
  target : TargetId
  extras : UInt32
  cachedHash : Vector FilterHash 3
  cachedLists : Vector FilterListPtr 4
  deriving DecidableEq, Repr

/-- The eleven words of `extra_logMeta::ignore_list`. -/
abbrev IgnoreList := Vector TargetId 11

structure ExtraLogMeta where
  m : LogMeta
  ignoreList : IgnoreList
  deriving DecidableEq, Repr

namespace LogMeta

/-- `DECL_LOG_META`. -/
def declare (tag : TagId) (level : LevelMask) (origin : OriginId) : LogMeta where
  tag := tag
  level := level
  origin := origin
  target := 0
  extras := 0
  cachedHash := #v[noCachedHash, 0, 0]
  cachedLists := #v[0, 0, 0, 0]

def hasCache (m : LogMeta) : Bool :=
  m.cachedHash[0] != noCachedHash

def hasIgnores (m : LogMeta) : Bool :=
  m.extras != 0

def setList (m : LogMeta) (i : Fin 4) (list : FilterListPtr) : LogMeta :=
  { m with cachedLists := m.cachedLists.set i list }

/-- `LOG_META_RESET_CACHE`. -/
def resetCache (m : LogMeta) : LogMeta :=
  { m with
    cachedHash := #v[noCachedHash, 0, 0]
    cachedLists := #v[0, 0, 0, 0] }

/-- Metadata whose cache has never been used: the declared value, or one
whose cache has been reset. -/
def Fresh (m : LogMeta) : Prop :=
  m.cachedHash[0] = noCachedHash ∧ m.cachedLists = #v[0, 0, 0, 0]

instance (m : LogMeta) : Decidable m.Fresh :=
  inferInstanceAs (Decidable (_ ∧ _))

end LogMeta

/-- `__noMetaData`. -/
def noMetaData : LogMeta := LogMeta.declare glogDefaultTag 0 0

def noIgnoreList : IgnoreList := Vector.replicate 11 0

namespace ExtraLogMeta

/-- The scan of the ignore list: it ends at the first zero and never looks
past `MAX_IGNORE_LIST` entries. -/
def ignoredTargets (e : ExtraLogMeta) : List TargetId :=
  (e.ignoreList.toList.take maxIgnoreList).takeWhile (· != 0)

def ignores (e : ExtraLogMeta) (id : TargetId) : Bool :=
  e.m.hasIgnores && e.ignoredTargets.contains id

end ExtraLogMeta

end GreaseLog
