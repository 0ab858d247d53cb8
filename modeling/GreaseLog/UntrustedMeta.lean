import GreaseLog.Intake
import GreaseLog.SinkRoundTrip

/-!
# Metadata from strangers

`logFromRaw` uses the bytes of a datagram as a `logMeta` where they lie.  The
cache words and the extras flag of the sender therefore reach `sift`, `_log`
and the dispatch.  This file looks at what the logger does for one entry and
asks on which datagrams these words make no difference.
-/

namespace GreaseLog

/-- The eleven words behind the metadata, which `_log` takes for the ignore
list when the extras flag is set. -/
def ignoreListOf (bytes : List UInt8) : IgnoreList :=
  Vector.ofFn fun i =>
    UInt32.ofNat (LittleEndian.load ((bytes.drop (4 * i)).take 4))

structure Observation where
  accepted : Bool
  consulted : List FilterListPtr
  targets : List TargetId
  deriving DecidableEq, Repr

def Observation.dropped : Observation := ⟨false, [], []⟩

namespace Logger

/-- The entry `_log` would put on the queue. -/
def queued (s : Logger) (m : LogMeta) (following : IgnoreList)
    (text : List UInt8) : SingleLog :=
  if s.bufferSize < text.length then largeMessage m following text
  else fillMessage m following text (SingleLog.new none s.bufferSize)

/-- `logP`, and the dispatch of the message in the same state. -/
def observeLogP (s : Logger) (m : LogMeta) (following : IgnoreList)
    (text : List UInt8) : Observation :=
  if greaseMaxMessageSize < text.length then .dropped
  else if (s.filters.sift s.opts m).1 then
    let l := s.queued (s.filters.sift s.opts m).2 following text
    { accepted := s.accepts l
      consulted := (s.sifted l).logMeta.m.consulted
      targets := (s.dispatch l).map Filter.targetId }
  else .dropped

def observe (s : Logger) (r : RawEntry) : Observation :=
  r.logFromRaw.elim .dropped fun call =>
    s.observeLogP call.1 (ignoreListOf (r.base.drop sizeofLogMeta)) call.2

theorem observe_of_some
    {s : Logger} {r : RawEntry} {m : LogMeta} {text : List UInt8}
    (hraw : r.logFromRaw = some (m, text)) :
    s.observe r =
      s.observeLogP m (ignoreListOf (r.base.drop sizeofLogMeta)) text := by
  unfold observe
  rw [hraw, Option.elim_some]

theorem observe_of_none
    {s : Logger} {r : RawEntry} (hraw : r.logFromRaw = none) :
    s.observe r = .dropped := by
  unfold observe
  rw [hraw, Option.elim_none]

theorem queued_meta
    (s : Logger) (m : LogMeta) (following : IgnoreList) (text : List UInt8) :
    (s.queued m following text).logMeta.m = m := by
  unfold queued
  split
  · simp [largeMessage]
  · simp [fillMessage]

theorem queued_ignores
    (s : Logger) (m : LogMeta) (following : IgnoreList) (text : List UInt8) :
    (s.queued m following text).logMeta.ignores =
      ExtraLogMeta.ignores ⟨m, following⟩ := by
  unfold queued
  split
  · exact SingleLog.setMeta_ignores _ m following
  · exact SingleLog.setMeta_ignores _ m following

end Logger

namespace Logger

theorem observe_accepted
    {s : Logger} (msg : ClientMessage) (after : List UInt8)
    (hpos : msg.text ≠ []) (hmax : msg.text.length ≤ greaseMaxMessageSize)
    (haccept : (s.filters.sift s.opts msg.m).1 = true) :
    ∃ e : ExtraLogMeta, e.m = (s.filters.sift s.opts msg.m).2 ∧
      e.ignores = ExtraLogMeta.ignores ⟨(s.filters.sift s.opts msg.m).2,
        ignoreListOf (msg.text ++ after)⟩ ∧
      s.observe (msg.entry after) = {
        accepted := true
        consulted := e.m.consulted
        targets := (s.filters.dispatch s.registered e).map
          Filter.targetId } := by
  have hlen : msg.text.length + 80 < 2 ^ 31 := by
    unfold greaseMaxMessageSize at hmax
    omega
  have hraw := msg.logFromRaw_entry hlen after
  rw [if_neg hpos] at hraw
  have hbehind : (msg.entry after).base.drop sizeofLogMeta =
      msg.text ++ after := by
    unfold ClientMessage.entry
    rw [List.append_assoc,
      List.drop_left' (msg.m.length_bytes msg.padding)]
  set l := s.queued (s.filters.sift s.opts msg.m).2
    (ignoreListOf (msg.text ++ after)) msg.text with hl
  have hmeta : l.logMeta.m = (s.filters.sift s.opts msg.m).2 :=
    s.queued_meta _ _ _
  have hagain := sifted_again haccept hmeta
  refine ⟨l.logMeta, hmeta, s.queued_ignores _ _ _, ?_⟩
  rw [observe_of_some hraw, hbehind]
  unfold observeLogP
  rw [if_neg (by omega), if_pos haccept, ← hl]
  simp only [dispatch, hagain.1, hagain.2]

theorem observe_dropped
    {s : Logger} (msg : ClientMessage) (after : List UInt8)
    (hlen : msg.text.length + 80 < 2 ^ 31)
    (hdropped : msg.text = [] ∨ greaseMaxMessageSize < msg.text.length ∨
      (s.filters.sift s.opts msg.m).1 = false) :
    s.observe (msg.entry after) = .dropped := by
  have hraw := msg.logFromRaw_entry hlen after
  by_cases hnil : msg.text = []
  · rw [if_pos hnil] at hraw
    exact observe_of_none hraw
  · rw [if_neg hnil] at hraw
    rw [observe_of_some hraw]
    unfold observeLogP
    rcases hdropped with hempty | hlong | hrejected
    · exact absurd hempty hnil
    · rw [if_pos hlong]
    · split
      · rfl
      · rw [if_neg (by simp [hrejected])]

/-- The logger treats all datagrams with this tag, level, origin and text
alike, whatever the rest of their metadata says. -/
def Indifferent (s : Logger) (tag : TagId) (level : LevelMask)
    (origin : OriginId) (text after : List UInt8) : Prop :=
  ∀ m₁ m₂ : LogMeta, ∀ padding₁ padding₂ : UInt32,
    m₁.tag = tag → m₁.level = level → m₁.origin = origin →
    m₂.tag = tag → m₂.level = level → m₂.origin = origin →
    s.observe (ClientMessage.entry ⟨m₁, padding₁, text⟩ after) =
      s.observe (ClientMessage.entry ⟨m₂, padding₂, text⟩ after)

/-- Metadata that makes the dispatch consult a list of the sender's choice. -/
def forgedMeta (tag : TagId) (level : LevelMask) (origin : OriginId)
    (p : FilterListPtr) : LogMeta :=
  { LogMeta.declare tag level origin with
    cachedHash := #v[0, 0, 0]
    cachedLists := #v[p, 0, 0, 0] }

theorem observe_forged
    {s : Logger} (tag : TagId) {level : LevelMask} (origin : OriginId)
    {text : List UInt8} (after : List UInt8) {p : FilterListPtr}
    (hp : p ≠ 0) (hpos : text ≠ [])
    (hmax : text.length ≤ greaseMaxMessageSize)
    (hmask : s.opts.levelFilterOutMask &&& level = 0) :
    (s.observe (ClientMessage.entry
      ⟨forgedMeta tag level origin p, 0, text⟩ after)).consulted = [p] := by
  have hsift : s.filters.sift s.opts (forgedMeta tag level origin p) =
      (true, forgedMeta tag level origin p) :=
    s.filters.sift_cached hmask rfl
  have haccept : (s.filters.sift s.opts (forgedMeta tag level origin p)).1 =
      true := by rw [hsift]
  rcases observe_accepted
      ⟨forgedMeta tag level origin p, 0, text⟩ after
      hpos hmax haccept with ⟨e, he, -, hobserve⟩
  rw [hobserve]
  simp only [he, hsift]
  simp [LogMeta.consulted, forgedMeta, hp]

/-- Reset caches and a clear extras flag leave nothing to steer with. -/
theorem observe_reset
    {s : Logger} {m₁ m₂ : LogMeta} {padding₁ padding₂ : UInt32}
    {text : List UInt8} (after : List UInt8)
    (hlen : text.length + 80 < 2 ^ 31)
    (htag : m₁.tag = m₂.tag) (hlevel : m₁.level = m₂.level)
    (horigin : m₁.origin = m₂.origin)
    (hfresh₁ : m₁.Fresh) (hfresh₂ : m₂.Fresh)
    (hextras₁ : m₁.extras = 0) (hextras₂ : m₂.extras = 0) :
    s.observe (ClientMessage.entry ⟨m₁, padding₁, text⟩ after) =
      s.observe (ClientMessage.entry ⟨m₂, padding₂, text⟩ after) := by
  have hcache₁ : m₁.hasCache = false := by
    simp [LogMeta.hasCache, hfresh₁.1]
  have hcache₂ : m₂.hasCache = false := by
    simp [LogMeta.hasCache, hfresh₂.1]
  have hsift : (s.filters.sift s.opts m₁).1 = (s.filters.sift s.opts m₂).1 ∧
      (s.filters.sift s.opts m₁).2.cachedLists =
        (s.filters.sift s.opts m₂).2.cachedLists := by
    by_cases hmask : s.opts.levelFilterOutMask &&& m₂.level = 0
    · rw [s.filters.sift_uncached (hlevel ▸ hmask) hcache₁,
        s.filters.sift_uncached hmask hcache₂, htag, horigin]
      cases s.filters.firstList (getHashes m₂.tag m₂.origin) with
      | none => simp [hfresh₁.2, hfresh₂.2]
      | some found => simp [LogMeta.setList, hfresh₁.2, hfresh₂.2]
    · rw [s.filters.sift_masked (hlevel ▸ hmask), s.filters.sift_masked hmask]
      simp [hfresh₁.2, hfresh₂.2]
  by_cases hdropped : text = [] ∨ greaseMaxMessageSize < text.length ∨
      (s.filters.sift s.opts m₂).1 = false
  · rw [observe_dropped ⟨m₁, padding₁, text⟩ after hlen
        (by rw [hsift.1]; exact hdropped),
      observe_dropped ⟨m₂, padding₂, text⟩ after hlen hdropped]
  · push Not at hdropped
    have haccept₂ : (s.filters.sift s.opts m₂).1 = true := by
      simpa using hdropped.2.2
    have hframe₁ := s.filters.sift_frame s.opts m₁
    have hframe₂ := s.filters.sift_frame s.opts m₂
    rcases observe_accepted ⟨m₁, padding₁, text⟩ after
      hdropped.1 hdropped.2.1 (hsift.1.trans haccept₂) with
      ⟨e₁, he₁, hignores₁, hobserve₁⟩
    rcases observe_accepted ⟨m₂, padding₂, text⟩ after
      hdropped.1 hdropped.2.1 haccept₂ with
      ⟨e₂, he₂, hignores₂, hobserve₂⟩
    have hconsulted : e₁.m.consulted = e₂.m.consulted := by
      unfold LogMeta.consulted
      rw [he₁, he₂, hsift.2]
    have hnone : ∀ (e : ExtraLogMeta), e.m.extras = 0 →
        e.ignores = fun _ => false := by
      intro e hextras
      funext id
      simp [ExtraLogMeta.ignores, LogMeta.hasIgnores, hextras]
    have hselects : ∀ f : Filter,
        f.selects s.registered e₁ = f.selects s.registered e₂ := by
      intro f
      unfold Filter.selects
      rw [hnone e₁ (by rw [he₁, hframe₁.2.2.2.2]; exact hextras₁),
        hnone e₂ (by rw [he₂, hframe₂.2.2.2.2]; exact hextras₂),
        he₁, he₂, hframe₁.2.1, hframe₂.2.1, hlevel]
    have hroutes : s.filters.routes s.registered e₁ =
        s.filters.routes s.registered e₂ := by
      unfold FilterTable.routes FilterList.routes
      rw [hconsulted]
      simp only [hselects]
      rw [he₁, he₂, hframe₁.2.1, hframe₂.2.1, hlevel]
    rw [hobserve₁, hobserve₂, hconsulted]
    unfold FilterTable.dispatch
    rw [hroutes]

/-- Untrusted metadata makes no difference exactly where the datagram is
dropped before anything looks at it: without text, with too long a text, or
with a level that is masked out.  Between datagrams with reset caches and
without the extras flag it never makes a difference. -/
theorem indifferent_iff_dropped
    (s : Logger) (tag : TagId) (level : LevelMask) (origin : OriginId)
    {text : List UInt8} (after : List UInt8)
    (hlen : text.length + 80 < 2 ^ 31) :
    (s.Indifferent tag level origin text after ↔
      text = [] ∨ greaseMaxMessageSize < text.length ∨
        s.opts.levelFilterOutMask &&& level ≠ 0) ∧
    ∀ m₁ m₂ : LogMeta, ∀ padding₁ padding₂ : UInt32,
      m₁.tag = m₂.tag → m₁.level = m₂.level → m₁.origin = m₂.origin →
      m₁.Fresh → m₂.Fresh → m₁.extras = 0 → m₂.extras = 0 →
      s.observe (ClientMessage.entry ⟨m₁, padding₁, text⟩ after) =
        s.observe (ClientMessage.entry ⟨m₂, padding₂, text⟩ after) := by
  constructor
  · constructor
    · intro hsame
      by_contra hlooked
      push Not at hlooked
      have hobserve := hsame (forgedMeta tag level origin 1)
        (forgedMeta tag level origin 2) 0 0 rfl rfl rfl rfl rfl rfl
      have hfirst := observe_forged tag origin after
        (show (1 : FilterListPtr) ≠ 0 by decide) hlooked.1 hlooked.2.1
        hlooked.2.2
      have hsecond := observe_forged tag origin after
        (show (2 : FilterListPtr) ≠ 0 by decide) hlooked.1 hlooked.2.1
        hlooked.2.2
      rw [hobserve, hsecond] at hfirst
      simp at hfirst
    · intro hdropped m₁ m₂ padding₁ padding₂ _ hlevel₁ _ _ hlevel₂ _
      have hall : ∀ m : LogMeta, ∀ padding : UInt32, m.level = level →
          s.observe (ClientMessage.entry ⟨m, padding, text⟩ after) =
            .dropped := by
        intro m padding hlevel
        apply observe_dropped ⟨m, padding, text⟩ after hlen
        rcases hdropped with hempty | hlong | hmask
        · exact Or.inl hempty
        · exact Or.inr (Or.inl hlong)
        · right
          right
          rw [← hlevel] at hmask
          rw [s.filters.sift_masked hmask]
      rw [hall m₁ padding₁ hlevel₁, hall m₂ padding₂ hlevel₂]
  · intro m₁ m₂ padding₁ padding₂ htag hlevel horigin hfresh₁ hfresh₂
      hextras₁ hextras₂
    exact observe_reset after hlen htag hlevel horigin hfresh₁ hfresh₂
      hextras₁ hextras₂

theorem indifferent_masked :
    { Logger.new 2000 with opts := ⟨1, false⟩ }.Indifferent 7 1 3 [104, 105]
      [] :=
  (indifferent_iff_dropped _ 7 1 3 [] (by decide)).1.mpr
    (Or.inr (Or.inr (by decide)))

/-- While messages are filtered out by default, a sender gets its message
through by claiming to have a cache. -/
theorem not_indifferent_forged :
    ¬{ Logger.new 2000 with opts := ⟨0, true⟩ }.Indifferent 7 1 3 [104, 105]
      [] := by
  intro hsame
  have hobserve := hsame (LogMeta.declare 7 1 3)
    { LogMeta.declare 7 1 3 with cachedHash := #v[0, 0, 0] } 0 0
    rfl rfl rfl rfl rfl rfl
  have haccepted := congrArg Observation.accepted hobserve
  revert haccepted
  decide

end Logger

end GreaseLog
