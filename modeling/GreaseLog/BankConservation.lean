import GreaseLog.LoggerSteps
import GreaseLog.Run
import Mathlib.Data.Multiset.Range

/-!
# No bank is lost

A target starts with a fixed number of banks.  Each of them is the current
bank, waits in `availBuffers` or `writeOutBuffers`, is part of a write the
system has not finished, waits in the queue of callbacks, or is with the user.
The places are counted with multiplicity, so that the total is the range of
bank numbers exactly when every bank is in one place.
-/

namespace GreaseLog

/-! ## Places -/

def WriteCBData.bankOf (id : TargetId) : WriteCBData → Option ℕ
  | .bank t b => if t = id then some b.id else none
  | .overflow _ _ => none

def LibBuf.bankOf (id : TargetId) : LibBuf → Option ℕ
  | .bank i b => if i = id.toInt32 then some b.id else none
  | .overflow _ => none

def Owner.awayIds (o : Owner) (id : TargetId) : Multiset ℕ :=
  (o.callerLogCallbacks.items.filterMap (WriteCBData.bankOf id) : List ℕ) +
    (o.userBufs.filterMap (LibBuf.bankOf id) : List ℕ)

def LogTarget.bankIds (t : LogTarget) : Multiset ℕ :=
  {t.currentBuffer.id} + (t.availBuffers.items.map LogBuf.id : List ℕ) +
    (t.writeOutBuffers.items.map LogBuf.id : List ℕ) +
    (t.inFlight.map (fun x => x.1.id) : List ℕ)

namespace Owner

theorem awayIds_of_onlyRefs
    {o o' : Owner} (hrefs : o.OnlyRefs o') (id : TargetId) :
    o'.awayIds id = o.awayIds id := by
  unfold awayIds
  rw [hrefs.callerLogCallbacks, hrefs.userBufs]

theorem awayIds_callback
    {o : Owner} {data : WriteCBData} {callbacks : BoundedFifo WriteCBData}
    (hadd : o.callerLogCallbacks.addIfRoom data = some callbacks)
    (id : TargetId) :
    { o with callerLogCallbacks := callbacks }.awayIds id =
      (data.bankOf id).toList + o.awayIds id := by
  have hitems := (BoundedFifo.addIfRoom_eq_some hadd).2.1
  unfold awayIds
  dsimp only
  rw [hitems, List.filterMap_append, ← Multiset.coe_add]
  cases hbank : data.bankOf id with
  | none => simp [hbank]
  | some k =>
      simp only [List.filterMap_cons, hbank, List.filterMap_nil,
        Option.toList_some]
      abel

theorem awayIds_of_callbacks
    {o : Owner} {data : WriteCBData} {callbacks : BoundedFifo WriteCBData}
    (hitems : o.callerLogCallbacks.items = data :: callbacks.items)
    (id : TargetId) :
    o.awayIds id = (data.bankOf id).toList +
      { o with callerLogCallbacks := callbacks }.awayIds id := by
  unfold awayIds
  rw [hitems, List.filterMap_cons]
  cases hbank : data.bankOf id with
  | none => simp
  | some k =>
      simp only [← Multiset.cons_coe, ← Multiset.singleton_add,
        Option.toList_some, Multiset.coe_nil]
      abel

theorem awayIds_of_user
    {o : Owner} {j : ℕ} {buf : LibBuf} (hget : o.userBufs[j]? = some buf)
    (id : TargetId) :
    o.awayIds id = (buf.bankOf id).toList +
      { o with userBufs := o.userBufs.eraseIdx j }.awayIds id := by
  rcases List.getElem?_eq_some_iff.mp hget with ⟨hj, hitem⟩
  have hperm := List.getElem_cons_eraseIdx_perm hj
  have hids := Multiset.coe_eq_coe.mpr
    (hperm.filterMap (LibBuf.bankOf id))
  rw [hitem, List.filterMap_cons] at hids
  unfold awayIds
  rw [← hids]
  cases hbank : buf.bankOf id with
  | none => simp
  | some k =>
      simp only [← Multiset.cons_coe, ← Multiset.singleton_add,
        Option.toList_some, Multiset.coe_nil]
      abel

theorem awayIds_user (o : Owner) (buf : LibBuf) (id : TargetId) :
    { o with userBufs := o.userBufs ++ [buf] }.awayIds id =
      (buf.bankOf id).toList + o.awayIds id := by
  unfold awayIds
  dsimp only
  rw [List.filterMap_append, ← Multiset.coe_add]
  cases hbank : buf.bankOf id with
  | none => simp [hbank]
  | some k =>
      simp only [List.filterMap_cons, hbank, List.filterMap_nil,
        Option.toList_some]
      abel

end Owner

namespace LogTarget

/-- Every bank is in one place.  `hand` are the banks an operation has taken
out and not yet put anywhere. -/
structure Conserves (n : ℕ) (hand : Multiset ℕ) (t : LogTarget) (o : Owner) :
    Prop where
  banks : t.bankIds + hand + o.awayIds t.myId = Multiset.range n
  availCapacity : t.availBuffers.capacity = n
  writeOutCapacity : t.writeOutBuffers.capacity + 1 = n
  availEmpty : t.AvailEmpty
  notStuck : t.stuck = false

variable {n : ℕ} {hand : Multiset ℕ} {t : LogTarget} {o : Owner}

theorem Conserves.count (h : Conserves n hand t o) :
    1 + t.availBuffers.items.length + t.writeOutBuffers.items.length +
      t.inFlight.length + hand.card + (o.awayIds t.myId).card = n := by
  have hcard := congrArg Multiset.card h.banks
  simp only [bankIds, Multiset.card_add, Multiset.card_singleton,
    Multiset.coe_card, List.length_map, Multiset.card_range] at hcard
  exact hcard

theorem Conserves.avail_hasRoom (h : Conserves n hand t o) :
    t.availBuffers.hasRoom := by
  have hcount := h.count
  have hcapacity := h.availCapacity
  unfold BoundedFifo.hasRoom
  omega

/-- A bank to continue with leaves room to write out the current one. -/
theorem Conserves.writeOut_hasRoom
    (h : Conserves n hand t o) (havail : t.availBuffers.items ≠ []) :
    t.writeOutBuffers.hasRoom := by
  have hpos := List.length_pos_iff.mpr havail
  have hcount := h.count
  have hcapacity := h.writeOutCapacity
  unfold BoundedFifo.hasRoom
  omega

theorem Conserves.of_away
    (h : Conserves n hand t o) {o' : Owner}
    (haway : o'.awayIds t.myId = o.awayIds t.myId) :
    Conserves n hand t o' :=
  ⟨by rw [haway]; exact h.banks, h.availCapacity, h.writeOutCapacity,
    h.availEmpty, h.notStuck⟩

theorem Conserves.addAvail
    {b : LogBuf} (h : Conserves n {b.id} t o) :
    Conserves n 0 (t.addAvail b) o := by
  rcases t.addAvail_cases b with ⟨avail, hadd, heq⟩ | ⟨hfull, -⟩
  · have hadded := BoundedFifo.addIfRoom_eq_some hadd
    have hempty := h.availEmpty.addAvail b
    rw [heq] at hempty ⊢
    refine ⟨?_, hadded.2.2.trans h.availCapacity, h.writeOutCapacity, hempty,
      h.notStuck⟩
    rw [← h.banks]
    simp only [bankIds, hadded.2.1, List.map_append, List.map_singleton,
      ← Multiset.coe_add, Multiset.coe_singleton, LogBuf.clear]
    abel
  · exact absurd h.avail_hasRoom hfull

theorem Conserves.finalizeV8Callback
    {b : LogBuf} (h : Conserves n {b.id} t o) :
    Conserves n 0 (t.finalizeV8Callback b) o := by
  rcases t.finalizeV8Callback_cases b with ⟨avail, hadd, heq⟩ | ⟨hfull, -⟩
  · have hreturned := h.addAvail
    have hsame : t.addAvail b = t.finalizeV8Callback b := by
      rw [heq, LogTarget.addAvail, hadd]
    rwa [← hsame]
  · exact absurd h.avail_hasRoom hfull

theorem returnBuffer_away
    (t : LogTarget) (o : Owner) (b : LogBuf) (sync nocallback : Bool)
    {id : TargetId} (hne : id ≠ t.myId) :
    (t.returnBuffer o b sync nocallback).2.awayIds id = o.awayIds id := by
  have hcallback : WriteCBData.bankOf id (.bank t.myId b) = none := by
    simp [WriteCBData.bankOf, Ne.symm hne]
  have huser : LibBuf.bankOf id (.bank t.myId.toInt32 b) = none := by
    have hint : t.myId.toInt32 ≠ id.toInt32 :=
      fun heq => hne (congrArg Int32.toUInt32 heq).symm
    simp [LibBuf.bankOf, hint]
  rcases t.returnBuffer_cases o b sync nocallback with
    ⟨o', hrefs, heq | ⟨callbacks, hadd, heq⟩ | ⟨-, heq⟩⟩
  · rw [heq]
    exact Owner.awayIds_of_onlyRefs hrefs id
  · rw [heq, Owner.awayIds_callback (hrefs.callerLogCallbacks ▸ hadd),
      hcallback, Owner.awayIds_of_onlyRefs hrefs id]
    exact zero_add _
  · rw [heq, ← hrefs.userBufs, Owner.awayIds_user, huser,
      Owner.awayIds_of_onlyRefs hrefs id]
    exact zero_add _

theorem Conserves.returnBuffer
    {b : LogBuf} (h : Conserves n {b.id} t o) (sync nocallback : Bool) :
    Conserves n 0 (t.returnBuffer o b sync nocallback).1
      (t.returnBuffer o b sync nocallback).2 := by
  have hleft : ∀ o' : Owner, o'.awayIds t.myId = {b.id} + o.awayIds t.myId →
      Conserves n 0 t o' := by
    intro o' haway
    refine ⟨?_, h.availCapacity, h.writeOutCapacity, h.availEmpty, h.notStuck⟩
    rw [haway, ← h.banks]
    abel
  rcases t.returnBuffer_cases o b sync nocallback with
    ⟨o', hrefs, heq | ⟨callbacks, hadd, heq⟩ | ⟨-, heq⟩⟩
  · rw [heq]
    apply h.addAvail.of_away
    rw [(t.sameOutput_addAvail b).myId]
    exact Owner.awayIds_of_onlyRefs hrefs _
  · rw [heq]
    apply hleft
    rw [Owner.awayIds_callback (hrefs.callerLogCallbacks ▸ hadd),
      Owner.awayIds_of_onlyRefs hrefs]
    simp [WriteCBData.bankOf]
  · rw [heq]
    apply hleft
    rw [← hrefs.userBufs, Owner.awayIds_user,
      Owner.awayIds_of_onlyRefs hrefs]
    simp [LibBuf.bankOf]

theorem Conserves.completeWrite (h : Conserves n 0 t o) (i : ℕ) :
    Conserves n 0 (t.completeWrite o i).1 (t.completeWrite o i).2 := by
  unfold LogTarget.completeWrite
  split
  · exact h
  · rename_i b nocallback hget
    rcases List.getElem?_eq_some_iff.mp hget with ⟨hi, hitem⟩
    have hperm := List.getElem_cons_eraseIdx_perm hi
    have hids := Multiset.coe_eq_coe.mpr
      (hperm.map fun x : LogBuf × Bool => x.1.id)
    rw [hitem, List.map_cons, ← Multiset.cons_coe,
      ← Multiset.singleton_add] at hids
    have hrest : Conserves n {b.id}
        { t with inFlight := t.inFlight.eraseIdx i } o := by
      refine ⟨?_, h.availCapacity, h.writeOutCapacity, h.availEmpty,
        h.notStuck⟩
      rw [← h.banks]
      simp only [bankIds, ← hids]
      abel
    exact hrest.returnBuffer false nocallback

theorem Conserves.flush
    (h : Conserves n 0 t o) {b : LogBuf} {writeOut : BoundedFifo LogBuf}
    (hremove : t.writeOutBuffers.remove = some (b, writeOut))
    (nocallbacks : Bool) :
    Conserves n 0
      ({ t with writeOutBuffers := writeOut }.flush o b nocallbacks).1
      ({ t with writeOutBuffers := writeOut }.flush o b nocallbacks).2 := by
  have hremoved := BoundedFifo.remove_eq_some hremove
  have hcapacity : writeOut.capacity + 1 = n := by
    rw [hremoved.2]
    exact h.writeOutCapacity
  have hids : (t.writeOutBuffers.items.map LogBuf.id : Multiset ℕ) =
      {b.id} + (writeOut.items.map LogBuf.id : List ℕ) := by
    rw [hremoved.1]
    rfl
  rcases flush_cases { t with writeOutBuffers := writeOut } o b nocallbacks with
    heq | heq
  · rw [heq]
    refine ⟨?_, h.availCapacity, hcapacity, h.availEmpty, h.notStuck⟩
    rw [← h.banks]
    simp only [bankIds, hids, List.map_append, List.map_singleton,
      ← Multiset.coe_add, Multiset.coe_singleton]
    abel
  · rw [heq]
    have hhand : Conserves n {b.id} { t with
        writeOutBuffers := writeOut
        handed := t.handed ++ [Handed.bank b.data] } o := by
      refine ⟨?_, h.availCapacity, hcapacity, h.availEmpty, h.notStuck⟩
      rw [← h.banks]
      simp only [bankIds, hids]
      abel
    exact hhand.returnBuffer false nocallbacks

theorem Conserves.rotate (h : Conserves n 0 t o) :
    Conserves n 0 t.rotate.1 o := by
  rcases t.rotate_cases with ⟨-, heq⟩ |
    ⟨next, avail, writeOut, -, hremove, hadd, heq⟩ | ⟨-, -, heq⟩ |
    ⟨next, avail, -, hremove, hfull, -⟩
  · rw [heq]
    exact h
  · have hremoved := BoundedFifo.remove_eq_some hremove
    have hadded := BoundedFifo.addIfRoom_eq_some hadd
    have hempty := h.availEmpty.rotate
    rw [heq] at hempty ⊢
    refine ⟨?_, hremoved.2.trans h.availCapacity, ?_, hempty, h.notStuck⟩
    · rw [← h.banks]
      simp only [bankIds, hremoved.1, hadded.2.1, List.map_append,
        List.map_cons, List.map_nil, ← Multiset.cons_coe,
        ← Multiset.singleton_add, ← Multiset.coe_add, Multiset.coe_nil]
      abel
    · dsimp only
      rw [hadded.2.2]
      exact h.writeOutCapacity
  · rw [heq]
    exact ⟨h.banks, h.availCapacity, h.writeOutCapacity, h.availEmpty,
      h.notStuck⟩
  · have havail : t.availBuffers.items ≠ [] := by
      rw [(BoundedFifo.remove_eq_some hremove).1]
      simp
    exact absurd (h.writeOut_hasRoom havail) hfull

theorem Conserves.flushAll
    (h : Conserves n 0 t o) (rotate nocallbacks : Bool) :
    Conserves n 0 (t.flushAll o rotate nocallbacks).1
      (t.flushAll o rotate nocallbacks).2 := by
  have hstart : Conserves n 0 (t.flushStart rotate) o := by
    unfold flushStart
    split
    · exact h.rotate
    · exact h
  exact flushLoop_invariant (f := fun t o b => t.flush o b nocallbacks)
    (P := fun t o => Conserves n 0 t o)
    (fun _ _ _ _ hremove hround => hround.flush hremove nocallbacks)
    _ (t.flushStart rotate) o hstart

theorem Conserves.copyMessage
    (h : Conserves n 0 t o) (env : Formatting) (seq : ℕ)
    (header text footer : List UInt8) :
    Conserves n 0 (t.copyMessage env seq header text footer) o := by
  have hframe := t.copyMessage_frame env seq header text footer
  refine ⟨?_, h.availCapacity, h.writeOutCapacity, h.availEmpty, h.notStuck⟩
  rw [← h.banks]
  unfold bankIds
  rw [hframe.1]
  rfl

theorem Conserves.write
    (h : Conserves n 0 t o) (env : Formatting) (seq : ℕ) (text : List UInt8)
    (m : LogMeta) (filter : Filter) :
    Conserves n 0 (t.write o env seq text m filter).1
      (t.write o env seq text m filter).2 := by
  rcases t.write_cases o env seq text m filter with ⟨-, heq⟩ |
    ⟨-, -, queue, -, heq⟩ | ⟨-, -, -, o', hrefs, heq⟩ |
    ⟨-, -, -, -, queue, o', -, hrefs, heq⟩ | ⟨-, -, -, -, heq⟩
  · rw [heq]
    exact h.of_away rfl
  · rw [heq]
    exact h.of_away rfl
  · rw [heq]
    exact (h.copyMessage env seq _ text _).of_away
      (Owner.awayIds_of_onlyRefs hrefs _)
  · rw [heq]
    exact (h.rotate.copyMessage env seq _ text _).of_away
      (Owner.awayIds_of_onlyRefs hrefs _)
  · rw [heq]
    exact h.rotate.of_away rfl

theorem returnOverflow_away
    (t : LogTarget) (o : Owner) (bufs : List SingleLog) (nocallback : Bool)
    (id : TargetId) :
    (t.returnOverflow o bufs nocallback).awayIds id = o.awayIds id := by
  have hrefs := o.onlyRefs_unrefGreaseInGrease
  have hsame := Owner.awayIds_of_onlyRefs hrefs id
  unfold returnOverflow
  dsimp only
  split
  · split
    · rename_i callbacks hadd
      rw [Owner.awayIds_callback hadd, hsame]
      exact zero_add _
    · exact hsame
  · exact hsame

theorem writeAsyncOverflow_banks
    (t : LogTarget) (o : Owner) (bufs : List SingleLog) (nocallbacks : Bool) :
    (t.writeAsyncOverflow o bufs nocallbacks).1.bankIds = t.bankIds ∧
      (t.writeAsyncOverflow o bufs nocallbacks).1.availBuffers =
        t.availBuffers ∧
      (t.writeAsyncOverflow o bufs nocallbacks).1.stuck = t.stuck ∧
      ∀ id, (t.writeAsyncOverflow o bufs nocallbacks).2.awayIds id =
        o.awayIds id := by
  unfold writeAsyncOverflow
  dsimp only
  split
  · exact ⟨rfl, rfl, rfl, fun _ => rfl⟩
  · exact ⟨rfl, rfl, rfl, fun id => returnOverflow_away _ o bufs _ id⟩
  · split
    · split
      · rename_i callbacks hadd
        refine ⟨rfl, rfl, rfl, fun id => ?_⟩
        rw [Owner.awayIds_callback hadd]
        exact zero_add _
      · exact ⟨rfl, rfl, rfl, fun _ => rfl⟩
    · exact ⟨rfl, rfl, rfl, fun _ => rfl⟩

theorem Conserves.writeOverflow
    (h : Conserves n 0 t o) (env : Formatting) (l : SingleLog)
    (filter : Filter) :
    Conserves n 0 (t.writeOverflow o env l filter).1
      (t.writeOverflow o env l filter).2 := by
  unfold LogTarget.writeOverflow
  split
  · exact h.of_away rfl
  · have hframe := (t.writeAsyncOverflow_frame
      (o.refGreaseInGrease.deliver ⟨filter, t.myId, l.seq⟩)
      (t.overflowBufs env l filter) false).1
    rcases t.writeAsyncOverflow_banks
      (o.refGreaseInGrease.deliver ⟨filter, t.myId, l.seq⟩)
      (t.overflowBufs env l filter) false with ⟨hids, havail, hstuck, haway⟩
    refine ⟨?_, ?_, ?_, ?_, ?_⟩
    · rw [hids, haway, hframe.myId]
      exact h.banks
    · rw [havail]
      exact h.availCapacity
    · rw [hframe.writeOutBuffers]
      exact h.writeOutCapacity
    · unfold AvailEmpty
      rw [havail]
      exact h.availEmpty
    · rw [hstuck]
      exact h.notStuck

theorem Conserves.completeOverflow (h : Conserves n 0 t o) (i : ℕ) :
    Conserves n 0 (t.completeOverflow o i).1 (t.completeOverflow o i).2 := by
  unfold LogTarget.completeOverflow
  split
  · exact h
  · rename_i bufs nocallback _
    have hrest : Conserves n 0
        { t with overflowInFlight := t.overflowInFlight.eraseIdx i } o :=
      ⟨h.banks, h.availCapacity, h.writeOutCapacity, h.availEmpty, h.notStuck⟩
    exact hrest.of_away (returnOverflow_away _ o bufs nocallback _)

/-- The acts of a running target.  Banks that the user gives back and the
synchronous flush of a shutdown are not among them. -/
def Running : TargetAct → Prop
  | .flushAllSync _ _ => False
  | .finalizeV8Callback _ => False
  | _ => True

theorem Conserves.act
    (h : Conserves n 0 t o) (env : Formatting) {a : TargetAct}
    (hrunning : Running a) :
    Conserves n 0 (t.act o env a).1 (t.act o env a).2 := by
  cases a with
  | write seq text m filter => exact h.write env seq text m filter
  | writeOverflow l filter => exact h.writeOverflow env l filter
  | flushAll rotate nocallbacks => exact h.flushAll rotate nocallbacks
  | flushAllSync rotate nocallbacks => exact hrunning.elim
  | completeWrite i => exact h.completeWrite i
  | completeOverflow i => exact h.completeOverflow i
  | finalizeV8Callback b => exact hrunning.elim
  | disableWrites v =>
      exact ⟨h.banks, h.availCapacity, h.writeOutCapacity, h.availEmpty,
        h.notStuck⟩
  | setCallback =>
      exact ⟨h.banks, h.availCapacity, h.writeOutCapacity, h.availEmpty,
        h.notStuck⟩

/-! ## Other targets -/

theorem flush_away
    (t : LogTarget) (o : Owner) (b : LogBuf) (nocallbacks : Bool)
    {id : TargetId} (hne : id ≠ t.myId) :
    (t.flush o b nocallbacks).2.awayIds id = o.awayIds id := by
  rcases t.flush_cases o b nocallbacks with heq | heq
  · rw [heq]
  · rw [heq]
    exact returnBuffer_away { t with
      handed := t.handed ++ [Handed.bank b.data] } o b false nocallbacks hne

theorem flushAll_away
    (t : LogTarget) (o : Owner) (rotate nocallbacks : Bool)
    {id : TargetId} (hne : id ≠ t.myId) :
    (t.flushAll o rotate nocallbacks).2.awayIds id = o.awayIds id := by
  have hstart : id ≠ (t.flushStart rotate).myId := by
    rw [(t.flushStart_sameConfig rotate).myId]
    exact hne
  refine (flushLoop_invariant (f := fun t o b => t.flush o b nocallbacks)
    (P := fun t' o' => id ≠ t'.myId ∧ o'.awayIds id = o.awayIds id) ?_
    _ (t.flushStart rotate) o ⟨hstart, rfl⟩).2
  intro t' o' b writeOut _ hround
  have hframe := flush_frame
    { t' with writeOutBuffers := writeOut } o' b nocallbacks
  have hsame := flush_away
    { t' with writeOutBuffers := writeOut } o' b nocallbacks hround.1
  exact ⟨by rw [hframe.1.myId]; exact hround.1, hsame.trans hround.2⟩

theorem write_away
    (t : LogTarget) (o : Owner) (env : Formatting) (seq : ℕ)
    (text : List UInt8) (m : LogMeta) (filter : Filter) (id : TargetId) :
    (t.write o env seq text m filter).2.awayIds id = o.awayIds id := by
  rcases t.write_cases o env seq text m filter with ⟨-, heq⟩ |
    ⟨-, -, queue, -, heq⟩ | ⟨-, -, -, o', hrefs, heq⟩ |
    ⟨-, -, -, -, queue, o', -, hrefs, heq⟩ | ⟨-, -, -, -, heq⟩ <;> rw [heq]
  · rfl
  · rfl
  · exact Owner.awayIds_of_onlyRefs hrefs id
  · exact Owner.awayIds_of_onlyRefs hrefs id
  · rfl

theorem act_away
    (t : LogTarget) (o : Owner) (env : Formatting) {a : TargetAct}
    (hrunning : Running a) {id : TargetId} (hne : id ≠ t.myId) :
    (t.act o env a).2.awayIds id = o.awayIds id := by
  cases a with
  | write seq text m filter => exact t.write_away o env seq text m filter id
  | writeOverflow l filter =>
      unfold act writeOverflow
      dsimp only
      split
      · rfl
      · exact (t.writeAsyncOverflow_banks _ _ _).2.2.2 id
  | flushAll rotate nocallbacks =>
      exact t.flushAll_away o rotate nocallbacks hne
  | flushAllSync rotate nocallbacks => exact hrunning.elim
  | completeWrite i =>
      unfold act completeWrite
      dsimp only
      split
      · rfl
      · exact returnBuffer_away
          { t with inFlight := t.inFlight.eraseIdx i } o _ false _ hne
  | completeOverflow i =>
      unfold act completeOverflow
      dsimp only
      split
      · rfl
      · exact returnOverflow_away _ o _ _ id
  | finalizeV8Callback b => exact hrunning.elim
  | disableWrites v => rfl
  | setCallback => rfl

end LogTarget

/-! ## The logger -/

namespace Logger

structure Conserved (id : TargetId) (n : ℕ) (s : Logger) : Prop where
  filed : s.Filed
  noShutdown : s.NoShutdown
  banks : ∃ t, s.target? id = some t ∧ t.Conserves n 0 s.owner

variable {id : TargetId} {n : ℕ} {s s' : Logger}

theorem Conserved.of_same
    (h : s.Conserved id n) (htargets : ∀ id', s'.target? id' = s.target? id')
    (hqueue : s'.NoShutdown)
    (haway : s'.owner.awayIds id = s.owner.awayIds id) :
    s'.Conserved id n := by
  rcases h.banks with ⟨t, htarget, hconserves⟩
  refine ⟨?_, hqueue, t, (htargets id).trans htarget, ?_⟩
  · intro id' t' htarget'
    exact h.filed id' t' ((htargets id') ▸ htarget')
  · apply hconserves.of_away
    rw [h.filed id t htarget]
    exact haway

theorem Conserved.of_takes (h : s.Conserved id n) (htakes : s.Takes s') :
    s'.Conserved id n := by
  rcases htakes.owner with ⟨queue, howner, -⟩
  have haway : s'.owner.awayIds id = s.owner.awayIds id := by
    rw [howner]
    rfl
  exact h.of_same htakes.targets (h.noShutdown.of_takes htakes) haway

theorem conserved_perform_self
    {env : Formatting} {a : TargetAct} {t : LogTarget} (hfiled : s.Filed)
    (hqueue : s.NoShutdown)
    (htarget : s.target? id = some t)
    (hnext : (t.act s.owner env a).1.Conserves n 0 (t.act s.owner env a).2) :
    (s.perform env id a).Conserved id n := by
  rcases s.perform_cases env id a with ⟨hnone, -⟩ | ⟨t', hacts⟩
  · rw [hnone] at htarget
    simp at htarget
  · have hsame : t' = t := Option.some.inj (hacts.before.symm.trans htarget)
    refine ⟨hfiled.perform env id a, hqueue.perform env id a, _,
      hacts.after, ?_⟩
    rw [hacts.owner, hsame]
    exact hnext

theorem Conserved.perform_other
    (h : s.Conserved id n) (env : Formatting) {id' : TargetId} {a : TargetAct}
    (hne : id' ≠ id)
    (haway : ∀ t, s.target? id' = some t →
      (t.act s.owner env a).2.awayIds id = s.owner.awayIds id) :
    (s.perform env id' a).Conserved id n := by
  rcases s.perform_cases env id' a with ⟨-, heq⟩ | ⟨t', hacts⟩
  · rw [heq]
    exact h
  · rcases h.banks with ⟨t, htarget, hconserves⟩
    refine ⟨h.filed.perform env id' a,
      h.noShutdown.perform env id' a, t,
      (hacts.others id (Ne.symm hne)).trans htarget, ?_⟩
    rw [hacts.owner]
    apply hconserves.of_away
    rw [h.filed id t htarget]
    exact haway t' hacts.before

theorem Conserved.perform
    (h : s.Conserved id n) (env : Formatting) (id' : TargetId) {a : TargetAct}
    (hrunning : LogTarget.Running a) :
    (s.perform env id' a).Conserved id n := by
  by_cases hsame : id' = id
  · subst hsame
    rcases h.banks with ⟨t, htarget, hconserves⟩
    exact conserved_perform_self h.filed h.noShutdown htarget
      (hconserves.act env hrunning)
  · apply h.perform_other env hsame
    intro t' htarget'
    apply t'.act_away s.owner env hrunning
    rw [h.filed id' t' htarget']
    exact Ne.symm hsame

theorem running_cmdActs
    (s : Logger) {c : InternalCmdReq} (hc : c ≠ .internalShutdown) :
    ∀ a ∈ s.cmdActs c, LogTarget.Running a.2 := by
  intro a ha
  rcases mem_cmdActs ha with ⟨l, f, -, -, -, rfl⟩ | ⟨d, -, rfl⟩ |
    ⟨d, l, f, -, -, -, rfl | rfl⟩ | hshutdown
  · trivial
  · trivial
  · trivial
  · trivial
  · exact absurd hshutdown hc

theorem Conserved.handleInternalCmd
    (h : s.Conserved id n) (env : Formatting) :
    (s.handleInternalCmd env).Conserved id n := by
  rcases s.handleInternalCmd_cases env with ⟨-, heq⟩ |
    ⟨c, queue, hitems, -, heq⟩
  · rw [heq]
    exact h
  · have hnoShutdown : .internalShutdown ≠ c ∧
        (s.withQueue queue).NoShutdown :=
      h.noShutdown.of_cons hitems
    have hremoved : { s.withQueue queue with
        strayed := (s.withQueue queue).strayed ||
          (s.withQueue queue).cmdStrays c }.Conserved id n :=
      h.of_same (fun _ => rfl) hnoShutdown.2 rfl
    have hdone : ((s.withQueue queue).execCmd env c).Conserved id n :=
      performAll_invariant (P := Conserved id n)
        (fun _ hs a ha => hs.perform env a.1
          ((s.withQueue queue).running_cmdActs (Ne.symm hnoShutdown.1) a ha))
        hremoved
    rw [heq]
    exact hdone.of_takes (takes_finishCmd _ c)

theorem Conserved.callV8LogCallbacks (h : s.Conserved id n) :
    s.callV8LogCallbacks.Conserved id n := by
  unfold Logger.callV8LogCallbacks
  cases hremove : s.owner.callerLogCallbacks.remove with
  | none => exact h
  | some taken =>
      rcases taken with ⟨data, callbacks⟩
      have hitems := (BoundedFifo.remove_eq_some hremove).1
      have hbefore := Owner.awayIds_of_callbacks hitems id
      cases data with
      | bank id' b =>
          refine h.of_same (fun _ => rfl) h.noShutdown ?_
          have hint : id'.toInt32 = id.toInt32 ↔ id' = id :=
            ⟨fun heq => congrArg Int32.toUInt32 heq,
              fun heq => congrArg UInt32.toInt32 heq⟩
          have hafter := Owner.awayIds_user
            { s.owner with callerLogCallbacks := callbacks }
            (.bank id'.toInt32 b) id
          simp only [LibBuf.bankOf, hint] at hafter
          exact hafter.trans hbefore.symm
      | overflow id' bufs =>
          refine h.of_same (fun _ => rfl) h.noShutdown ?_
          have hafter := Owner.awayIds_user
            { s.owner with callerLogCallbacks := callbacks }
            (.overflow bufs) id
          exact hafter.trans hbefore.symm

theorem neg_one_lt_toInt32 {id : TargetId} (hlow : id.toNat < 2 ^ 31) :
    -1 < id.toInt32 := by
  have hbits : id.toInt32.toBitVec.toNat = id.toNat := rfl
  have hint : id.toInt32.toInt = (id.toNat : Int) :=
    BitVec.toInt_eq_toNat_of_lt (by omega)
  have hneg : (-1 : Int32).toInt = -1 := by decide
  rw [Int32.lt_iff_toInt_lt, hint]
  omega

/-- A bank of the target which the user gives back finds its way: the target
is in the table, and its id survives as an `int`. -/
def GivenBack (s : Logger) (id : TargetId) : Act → Prop
  | .cleanup j => ∀ shadow,
      s.owner.userBufs[j]? = some (.bank id.toInt32 shadow) →
        id ≠ 0 ∧ id.toNat < 2 ^ 31
  | _ => True

/-- The user's buffer goes back to the target it came from. -/
theorem Conserved.cleanupGreaseLibBuf
    (h : s.Conserved id n) (env : Formatting) {j : ℕ}
    (hback : s.GivenBack id (.cleanup j)) :
    (s.cleanupGreaseLibBuf env j).Conserved id n := by
  unfold Logger.cleanupGreaseLibBuf
  cases hget : s.owner.userBufs[j]? with
  | none => exact h
  | some buf =>
      have hbefore := Owner.awayIds_of_user hget id
      set s₁ : Logger := { s with owner := { s.owner with
        userBufs := s.owner.userBufs.eraseIdx j } } with hs₁
      have hother : buf.bankOf id = none → s₁.Conserved id n := by
        intro hnone
        refine h.of_same (fun _ => rfl) h.noShutdown ?_
        rw [hbefore, hnone]
        exact (zero_add _).symm
      cases buf with
      | overflow bufs => exact hother rfl
      | bank i shadow =>
          dsimp only
          by_cases hown : i = id.toInt32
          · rcases hback shadow (hown ▸ hget) with ⟨hid, hlow⟩
            rcases h.banks with ⟨t, htarget, hconserves⟩
            have hmyId := h.filed id t htarget
            have hregistered : s₁.registered id = true := by
              unfold target? at htarget
              rw [if_neg hid] at htarget
              simp [registered, hs₁, htarget]
            have hback : i.toUInt32 = id := by rw [hown]; rfl
            have hhand : t.Conserves n {shadow.id} s₁.owner := by
              refine ⟨?_, hconserves.availCapacity,
                hconserves.writeOutCapacity, hconserves.availEmpty,
                hconserves.notStuck⟩
              have hbanks := hconserves.banks
              simp only [hmyId, hbefore, LibBuf.bankOf, hown, if_true,
                Option.toList_some, Multiset.coe_singleton, add_zero] at hbanks
              rw [← hbanks, hmyId]
              abel
            rw [if_pos (hown ▸ neg_one_lt_toInt32 hlow), hback]
            unfold returnBufferToTarget
            rw [if_pos ⟨hregistered, hid⟩]
            exact conserved_perform_self h.filed h.noShutdown htarget
              hhand.finalizeV8Callback
          · have hnone : LibBuf.bankOf id (.bank i shadow) = none := by
              simp [LibBuf.bankOf, hown]
            have hrest := hother hnone
            unfold returnBufferToTarget
            split
            · split
              · apply hrest.perform_other
                · intro heq
                  exact hown (congrArg UInt32.toInt32 heq)
                · intro t' _
                  rfl
              · exact hrest
            · exact hrest

theorem Conserved.step
    (h : s.Conserved id n) {a : Act} (hback : s.GivenBack id a) :
    (s.step a).Conserved id n := by
  cases a with
  | log m following text => exact h.of_takes (s.takes_log m following text)
  | redirect r d data => exact h.of_takes (s.takes_redirect r d data)
  | klog mem start remain => exact h.of_takes (s.takes_klog mem start remain)
  | handle env => exact h.handleInternalCmd env
  | flushTimer id' nocallbacks => exact h.perform noFormatting id' trivial
  | completeWrite id' i => exact h.perform noFormatting id' trivial
  | completeOverflow id' i => exact h.perform noFormatting id' trivial
  | callV8LogCallbacks => exact h.callV8LogCallbacks
  | cleanup j => exact h.cleanupGreaseLibBuf noFormatting hback
  | filter c => exact h.of_same (fun _ => rfl) h.noShutdown rfl
  | disableTarget id' v => exact h.perform noFormatting id' trivial
  | setCallback id' => exact h.perform noFormatting id' trivial

theorem givenBack_of_low
    (s : Logger) (hid : id ≠ 0) (hlow : id.toNat < 2 ^ 31) (a : Act) :
    s.GivenBack id a := by
  cases a with
  | cleanup j => exact fun _ _ => ⟨hid, hlow⟩
  | _ => trivial

/-- The target is new, as the default target or in the table. -/
structure JustMade (s : Logger) (id : TargetId) (n : ℕ) : Prop where
  filed : s.Filed
  noShutdown : s.NoShutdown
  target : ∃ kind bankSize delim flags, s.target? id =
    some ((LogTarget.new kind bankSize id delim n).setFlag flags)
  noneAway : s.owner.awayIds id = 0

structure JustRegistered (s : Logger) (id : TargetId) (n : ℕ) : Prop where
  filed : s.Filed
  noShutdown : s.NoShutdown
  target : ∃ kind bankSize delim flags, s.targets.lookup id =
    some ((LogTarget.new kind bankSize id delim n).setFlag flags)
  noneAway : s.owner.awayIds id = 0

/-- Every bank of the target is in one place, those in `availBuffers` are
empty, no `availBuffers.add` has blocked, and a rotation that gets a bank to
continue with can also put the current one, or else that bank, into its
queue. -/
def BanksInPlace (s : Logger) (id : TargetId) (n : ℕ) : Prop :=
  ∃ t, s.targets.lookup id = some t ∧
    t.bankIds + s.owner.awayIds id = Multiset.range n ∧
    (∀ b ∈ t.availBuffers.items, b.isEmpty = true) ∧ t.stuck = false ∧
    ∀ next avail, t.availBuffers.remove = some (next, avail) →
      t.writeOutBuffers.hasRoom ∧ avail.hasRoom

theorem Conserved.banksInPlace (hid : id ≠ 0) (h : s.Conserved id n) :
    s.BanksInPlace id n := by
  rcases h.banks with ⟨t, htarget, hconserves⟩
  have hmyId := h.filed id t htarget
  unfold target? at htarget
  rw [if_neg hid] at htarget
  refine ⟨t, htarget, ?_, ?_, hconserves.notStuck, ?_⟩
  · have hbanks := hconserves.banks
    rwa [add_zero, hmyId] at hbanks
  · intro b hb
    simp [LogBuf.isEmpty, LogBuf.handleLen, hconserves.availEmpty b hb,
      bytesOf]
  · intro next avail hremove
    have havail : t.availBuffers.items ≠ [] := by
      rw [(BoundedFifo.remove_eq_some hremove).1]
      simp
    exact ⟨hconserves.writeOut_hasRoom havail,
      BoundedFifo.hasRoom_of_remove hremove⟩

theorem JustRegistered.justMade
    (hid : id ≠ 0) (h : s.JustRegistered id n) : s.JustMade id n := by
  rcases h.target with ⟨kind, bankSize, delim, flags, hlookup⟩
  refine ⟨h.filed, h.noShutdown, ⟨kind, bankSize, delim, flags, ?_⟩,
    h.noneAway⟩
  rw [target?, if_neg hid]
  exact hlookup

theorem JustMade.conserved (hn : 1 ≤ n) (h : s.JustMade id n) :
    s.Conserved id n := by
  rcases h.target with ⟨kind, bankSize, delim, flags, htarget⟩
  refine ⟨h.filed, h.noShutdown, _, htarget, ?_⟩
  refine ⟨?_, rfl, ?_, ?_, rfl⟩
  · have haway : s.owner.awayIds ((LogTarget.new kind bankSize id delim
        n).setFlag flags).myId = 0 := h.noneAway
    have hrange : List.range n = 0 :: List.range' 1 (n - 1) := by
      obtain ⟨k, rfl⟩ : ∃ k, n = k + 1 := ⟨n - 1, by omega⟩
      rw [List.range_eq_range', List.range'_succ, Nat.add_sub_cancel]
    have hids : ((List.range' 1 (n - 1)).map fun k =>
        LogBuf.new bankSize k delim).map LogBuf.id =
          List.range' 1 (n - 1) := by
      rw [List.map_map]
      exact List.map_id _
    rw [haway, Multiset.range, hrange, ← Multiset.cons_coe,
      ← Multiset.singleton_add]
    simp only [LogTarget.bankIds, LogTarget.setFlag, LogTarget.new, hids,
      BoundedFifo.items_empty, List.map_nil, Multiset.coe_nil, add_zero]
    rfl
  · change n - 1 + 1 = n
    omega
  · intro b hb
    rcases List.mem_map.mp hb with ⟨k, -, rfl⟩
    rfl

/-- The id a target gets after so many earlier calls of `addTarget`:
`nextTargetId++`, which starts with 1. -/
def nextTargetId (added : ℕ) : TargetId := UInt32.ofNat (added + 1)

theorem toNat_nextTargetId {added : ℕ} (hadded : added + 1 < 2 ^ 31) :
    (nextTargetId added).toNat = added + 1 := by
  have hsize : added + 1 < UInt32.size := hadded.trans (by decide)
  exact UInt32.toNat_ofNat_of_lt' hsize

/-- In every run, the banks of a registered target stay in place, provided that
`addTarget` has been called fewer than 2^31 times: then the id fits the `int`
with which the user gives a buffer back. -/
theorem banks_in_place
    {s : Logger} {added n : ℕ}
    (hstart : s.JustRegistered (nextTargetId added) n)
    (hadded : added + 1 < 2 ^ 31) (hn : 2 ≤ n) (acts : List Act) :
    (Run.final step s acts).BanksInPlace (nextTargetId added) n := by
  have htoNat := toNat_nextTargetId hadded
  have hid : nextTargetId added ≠ 0 := by
    intro hzero
    rw [hzero] at htoNat
    simp at htoNat
  have hend : (Run.final step s acts).Conserved (nextTargetId added) n :=
    Run.final_preserves
      (fun s a h => h.step (s.givenBack_of_low hid (by omega) a)) acts
      ((hstart.justMade hid).conserved (by omega))
  exact hend.banksInPlace hid

/-- A logger whose only target has two banks and a callback, and the moves
that bring a bank to the user and back. -/
def callbackLogger (id : TargetId) : Logger :=
  (Logger.new 2000).setTarget id (LogTarget.new .callback 200 id none 2)

def roundTrip (id : TargetId) : List Act :=
  [.setCallback id,
    .filter (.add { target := id, origin := 0, tag := 0, mask := 1 }),
    .log (LogMeta.declare 0 1 0) noIgnoreList [104, 105],
    .handle noFormatting, .flushTimer id false, .callV8LogCallbacks,
    .cleanup 0]

theorem callbackLogger_justRegistered (id : TargetId) (hid : id ≠ 0) :
    (callbackLogger id).JustRegistered id 2 := by
  have hlookup : (callbackLogger id).targets.lookup id =
      some (LogTarget.new .callback 200 id none 2) := by
    simp [callbackLogger, setTarget, hid]
  have hflags : (LogTarget.new .callback 200 id none 2).setFlag 0 =
      LogTarget.new .callback 200 id none 2 := by
    simp [LogTarget.setFlag, LogTarget.new]
  have howner : (callbackLogger id).owner = (Logger.new 2000).owner := by
    simp [callbackLogger, setTarget, hid]
  refine ⟨(filed_new 2000).setTarget id _ rfl, ?_,
    ⟨.callback, 200, none, 0, by rw [hflags]; exact hlookup⟩, ?_⟩
  · unfold NoShutdown
    rw [howner]
    simp [Logger.new]
  · rw [howner]
    rfl

theorem banks_in_place_seventh :
    (Run.final step (callbackLogger (nextTargetId 6))
      (roundTrip (nextTargetId 6))).BanksInPlace (nextTargetId 6) 2 :=
  banks_in_place (callbackLogger_justRegistered _ (by decide)) (by decide)
    (by decide) (roundTrip (nextTargetId 6))

/-! ## Banks the user gives back -/

/-- No write of the target is under way, no callback waits in the queue for
it, and the user holds none of its banks. -/
def Quiet (s : Logger) (id : TargetId) : Prop :=
  ∀ t, s.target? id = some t → t.inFlight = [] ∧ s.owner.awayIds id = 0

/-- All banks but the current one can be written to or wait for a flush. -/
def AllBack (s : Logger) (id : TargetId) (n : ℕ) : Prop :=
  ∃ t, s.target? id = some t ∧
    {t.currentBuffer.id} + (t.availBuffers.items.map LogBuf.id : List ℕ) +
      (t.writeOutBuffers.items.map LogBuf.id : List ℕ) = Multiset.range n

theorem Conserved.allBack (h : s.Conserved id n) (hquiet : s.Quiet id) :
    s.AllBack id n := by
  rcases h.banks with ⟨t, htarget, hconserves⟩
  rcases hquiet t htarget with ⟨hflight, haway⟩
  refine ⟨t, htarget, ?_⟩
  have hbanks := hconserves.banks
  rw [h.filed id t htarget, haway, LogTarget.bankIds, hflight] at hbanks
  simpa using hbanks

/-- Once the last buffer has been cleaned up, no bank is missing, in every run
in which the banks given back find their way. -/
theorem banks_come_back
    {s : Logger} {id : TargetId} {n : ℕ} (hstart : s.JustMade id n)
    (hn : 1 ≤ n) {acts : List Act}
    (hback : Run.Meets step (fun s => s.GivenBack id) s acts)
    (hquiet : (Run.final step s acts).Quiet id) :
    (Run.final step s acts).AllBack id n := by
  have hend : (Run.final step s acts).Conserved id n :=
    Run.final_invariant (fun _ _ h hback => h.step hback)
      (hstart.conserved hn) hback
  exact hend.allBack hquiet

theorem quiet_of_settled
    {s : Logger} {id : TargetId}
    (hflight : (s.target? id).all (fun t => t.inFlight.isEmpty) = true)
    (haway : s.owner.awayIds id = 0) : s.Quiet id := by
  intro t htarget
  rw [htarget, Option.all_some, List.isEmpty_iff] at hflight
  exact ⟨hflight, haway⟩

theorem banks_come_back_registered :
    (Run.final step (callbackLogger 7) (roundTrip 7)).AllBack 7 2 := by
  have hstart := (callbackLogger_justRegistered 7 (by decide)).justMade
    (by decide)
  apply banks_come_back hstart (by decide)
  · exact ⟨trivial, trivial, trivial, trivial, trivial, trivial,
      givenBack_of_low _ (by decide) (by decide) _, trivial⟩
  · exact quiet_of_settled (by decide +kernel) (by decide +kernel)

/-- A logger whose default target is a tty, and the moves that bring one of its
banks to the callback of `GreaseLib_modifyDefaultTarget` and back. -/
def defaultLogger : Logger :=
  (Logger.new 2000).setTarget 0 (LogTarget.new .tty 2000 0 (some [10]) 4)

def defaultRoundTrip : List Act :=
  [.setCallback 0,
    .log (LogMeta.declare 0 1 0) noIgnoreList [104, 105],
    .handle noFormatting, .flushTimer 0 false, .completeWrite 0 0,
    .callV8LogCallbacks, .cleanup 0]

/-- The default target is not in the table where `returnBufferToTarget` looks
for it. -/
theorem default_bank_lost :
    defaultLogger.JustMade 0 4 ∧
      (Run.final step defaultLogger defaultRoundTrip).Quiet 0 ∧
      ¬(Run.final step defaultLogger defaultRoundTrip).AllBack 0 4 := by
  refine ⟨⟨(filed_new 2000).setTarget 0 _ rfl, ?_,
    ⟨.tty, 2000, some [10], 0, rfl⟩, rfl⟩,
    quiet_of_settled (by decide +kernel) (by decide +kernel), ?_⟩
  · simp [NoShutdown, defaultLogger, setTarget, Logger.new]
  · rintro ⟨t, htarget, hbanks⟩
    have hleft : ((Run.final step defaultLogger defaultRoundTrip).target?
        0).map (fun t => t.availBuffers.items.length +
          t.writeOutBuffers.items.length) = some 2 := by decide +kernel
    have hcard := congrArg Multiset.card hbanks
    rw [htarget, Option.map_some, Option.some.injEq] at hleft
    simp only [Multiset.card_add, Multiset.card_singleton, Multiset.coe_card,
      List.length_map, Multiset.card_range] at hcard
    omega

end Logger

end GreaseLog
