import Folio.EntryCache
import Folio.TransitionSystem

/-! What the write buffer counts against what it holds, over every history of its calls. -/
namespace Folio.CacheAccounting
open KeyedTable Protocol Fjall EntryCache TransitionSystem

section Model

/-- The calls that change the buffer; `order` is the list that `drain_hot_to_warm` returns. -/
inductive CacheAct where
  | insert (k : Key) (payload : Bytes)
  | drainHotToWarm (order : List (Key × Bytes))
  | evictWarm

def step (c : EntrySegmentCache) : CacheAct → Option EntrySegmentCache
  | .insert k payload => some (c.insert k payload)
  | .drainHotToWarm order =>
    if order.isPerm c.hot.entries then some (c.drainHotToWarm order) else none
  | .evictWarm => some c.evictWarm

def hotLen (c : EntrySegmentCache) : Nat := c.hot.total List.length

structure Accounted (c : EntrySegmentCache) : Prop where
  bytes : c.hotBytes = hotLen c
  full : c.isFull = true ↔ c.flushThreshold ≤ hotLen c

def sameLength (c : EntrySegmentCache) : CacheAct → Prop
  | .insert k payload => ∀ old, c.hot.get k = some old → old.length = payload.length
  | .drainHotToWarm _ | .evictWarm => True

def Apart (c : EntrySegmentCache) : Prop := ∀ k, c.hot.get k = none ∨ c.warm.get k = none

end Model

section Steps
variable {c t : EntrySegmentCache} {k : Key} {payload : Bytes} {order : List (Key × Bytes)}

theorem step_drain : step c (.drainHotToWarm order) = some t ↔
    order.Perm c.hot.entries ∧ t = c.drainHotToWarm order := by
  rw [step, Option.ite_none_right_eq_some, List.isPerm_iff, Option.some.injEq, eq_comm]

theorem accounted_iff : Accounted c ↔ c.hotBytes = hotLen c := by
  refine ⟨Accounted.bytes, fun h => ⟨h, ?_⟩⟩
  rw [EntrySegmentCache.isFull, decide_eq_true_iff, h]

theorem apart_insert (h : Apart c) (k : Key) (payload : Bytes) : Apart (c.insert k payload) := by
  intro k'
  rw [EntrySegmentCache.insert_warm, EntrySegmentCache.insert_hot_get]
  split_ifs with hnew
  · right
    rw [hnew.1]
    exact Option.isNone_iff_eq_none.mp hnew.2
  · exact h k'

theorem apart_step {a : CacheAct} (h : Apart c) (hst : step c a = some t) : Apart t := by
  cases a with
  | insert k payload =>
    cases hst
    exact apart_insert h k payload
  | drainHotToWarm order =>
    obtain ⟨-, rfl⟩ := step_drain.mp hst
    exact fun _ => .inl rfl
  | evictWarm =>
    cases hst
    exact fun _ => .inr rfl

theorem insert_cold (payload : Bytes) (hwarm : c.warm.get k = none) :
    hotLen (c.insert k payload) + ((c.hot.get k).map List.length).getD 0 =
        hotLen c + payload.length ∧
      (c.insert k payload).hotBytes =
        if (c.hot.get k).isNone then c.hotBytes + payload.length else c.hotBytes := by
  have hins : c.insert k payload =
      { c with
        hot := c.hot.put k payload
        hotBytes := if (c.hot.get k).isNone then c.hotBytes + payload.length else c.hotBytes } := by
    rw [EntrySegmentCache.insert, hwarm]
    rfl
  rw [hins]
  exact ⟨Table.total_put List.length c.hot k payload, rfl⟩

theorem accounted_insert_iff (hapart : Apart c) (h : Accounted c) :
    Accounted (c.insert k payload) ↔ sameLength c (.insert k payload) := by
  have hbytes := h.bytes
  cases hwarm : c.warm.get k with
  | some w =>
    have hnone : c.hot.get k = none := (hapart k).resolve_right (by rw [hwarm]; nofun)
    have hins : c.insert k payload = c := by
      rw [EntrySegmentCache.insert, hwarm]
      rfl
    rw [hins]
    refine iff_of_true h fun old hold => ?_
    cases hnone.symm.trans hold
  | none =>
    obtain ⟨hlen, hcount⟩ := insert_cold payload hwarm
    rw [accounted_iff, hcount]
    cases hhot : c.hot.get k with
    | none =>
      rw [hhot] at hlen
      refine iff_of_true ?_ fun old hold => ?_
      · simp only [Option.map_none, Option.getD_none, Option.isNone_none, if_true] at hlen ⊢
        omega
      · cases hhot.symm.trans hold
    | some old =>
      rw [hhot] at hlen
      simp only [Option.map_some, Option.getD_some] at hlen
      simp only [sameLength, hhot, Option.some.injEq, forall_eq', Option.isNone_some]
      -- the counter stays, the sum moves by the difference of the lengths
      change c.hotBytes = _ ↔ _
      omega

theorem accounted_step_iff {a : CacheAct} (hapart : Apart c) (h : Accounted c)
    (hst : step c a = some t) : Accounted t ↔ sameLength c a := by
  cases a with
  | insert k payload =>
    cases hst
    exact accounted_insert_iff hapart h
  | drainHotToWarm order =>
    obtain ⟨-, rfl⟩ := step_drain.mp hst
    exact iff_of_true (accounted_iff.mpr rfl) trivial
  | evictWarm =>
    cases hst
    exact iff_of_true (accounted_iff.mpr h.bytes) trivial

theorem drain_spec (hperm : order.Perm c.hot.entries) :
    (order.map Prod.fst).Nodup ∧ (∀ k payload, (k, payload) ∈ order ↔ c.hot.get k = some payload) ∧
      ∀ k, (c.drainHotToWarm order).get k = c.get k := by
  refine ⟨(hperm.map Prod.fst).nodup_iff.mpr c.hot.nodup, fun k payload => ?_, fun k => ?_⟩
  · rw [hperm.mem_iff, Table.mem_entries_iff]
  · have hhot : (c.drainHotToWarm order).hot.get k = none := rfl
    rw [EntrySegmentCache.get, hhot, Option.none_or]
    exact EntrySegmentCache.drain_warm_get hperm k

end Steps

section Histories

theorem apart_new (flushThreshold : Nat) : Apart (.new flushThreshold) := fun _ => .inl rfl

theorem accounted_new (flushThreshold : Nat) : Accounted (.new flushThreshold) :=
  accounted_iff.mpr rfl

/-- Whatever the calls, the tiers share no key and a drain returns the hot tier and hides
nothing. The byte count is right all along exactly when no insert has replaced a hot payload
by one of another length. -/
theorem cache_accounting_iff (flushThreshold : Nat) (as : List CacheAct) (c : EntrySegmentCache)
    (h : run step (.new flushThreshold) as = some c) :
    (∀ k, c.hot.get k = none ∨ c.warm.get k = none) ∧
      (∀ order t, step c (.drainHotToWarm order) = some t →
        (order.map Prod.fst).Nodup ∧
        (∀ k payload, (k, payload) ∈ order ↔ c.hot.get k = some payload) ∧
        ∀ k, t.get k = c.get k) ∧
      (Always step Accounted (.new flushThreshold) as ↔
        EachStep step sameLength (.new flushThreshold) as) := by
  have hkeep : ∀ c a t, Apart c → step c a = some t → Apart t := fun _ _ _ => apart_step
  refine ⟨run_invariant hkeep as (apart_new _) h, fun order t hst => ?_, ?_⟩
  · obtain ⟨hperm, rfl⟩ := step_drain.mp hst
    exact drain_spec hperm
  · exact always_iff_eachStep hkeep (fun _ _ _ => accounted_step_iff) (apart_new _)
      (accounted_new _) h

/-- Every call but the second insert is ordinary; that one has the length of what it replaces. -/
theorem equal_rewrite_accounted : ∃ c,
    run step (.new 3) [.insert (1, 0) [7, 7], .insert (1, 0) [8, 8], .insert (1, 1) [9],
      .drainHotToWarm [((1, 0), [8, 8]), ((1, 1), [9])], .insert (1, 0) [7], .evictWarm] = some c ∧
    Always step Accounted (.new 3) [.insert (1, 0) [7, 7], .insert (1, 0) [8, 8],
      .insert (1, 1) [9], .drainHotToWarm [((1, 0), [8, 8]), ((1, 1), [9])],
      .insert (1, 0) [7], .evictWarm] := by
  refine ⟨_, rfl, (cache_accounting_iff 3 _ _ rfl).2.2.mpr ?_⟩
  refine ⟨nofun, ?_⟩
  rintro _ ⟨⟩
  refine ⟨?_, ?_⟩
  · rintro _ ⟨⟩
    rfl
  rintro _ ⟨⟩
  refine ⟨nofun, ?_⟩
  rintro _ ⟨⟩
  refine ⟨trivial, ?_⟩
  rintro _ ⟨⟩
  refine ⟨nofun, ?_⟩
  rintro _ ⟨⟩
  refine ⟨trivial, ?_⟩
  rintro _ ⟨⟩
  trivial

/-- Three bytes are in hot and one is counted, so the buffer does not report itself full. -/
theorem longer_rewrite_miscounted : ∃ c,
    run step (.new 2) [.insert (1, 0) [7], .insert (1, 0) [8, 8, 8]] = some c ∧
      c.hotBytes = 1 ∧ hotLen c = 3 ∧ c.flushThreshold ≤ hotLen c ∧ c.isFull = false :=
  ⟨_, rfl, rfl, rfl, by decide, rfl⟩

end Histories
end Folio.CacheAccounting
