import Folio.Fjall

/-! The two-tier write buffer between the WAL and the entry segments. -/
namespace Folio.EntryCache
open KeyedTable Protocol Fjall

structure EntrySegmentCache where
  hot : Table Key Bytes
  warm : Table Key Bytes
  hotBytes : Nat
  flushThreshold : Nat

namespace EntrySegmentCache

def new (flushThreshold : Nat) : EntrySegmentCache := ⟨.empty, .empty, 0, flushThreshold⟩

def insert (c : EntrySegmentCache) (k : Key) (payload : Bytes) : EntrySegmentCache :=
  if (c.warm.get k).isSome then c
  else
    { c with
      hot := c.hot.put k payload
      hotBytes := if (c.hot.get k).isNone then c.hotBytes + payload.length else c.hotBytes }

def get (c : EntrySegmentCache) (k : Key) : Option Bytes := (c.hot.get k).or (c.warm.get k)

def contains (c : EntrySegmentCache) (k : Key) : Bool :=
  (c.hot.get k).isSome || (c.warm.get k).isSome

def isFull (c : EntrySegmentCache) : Bool := decide (c.flushThreshold ≤ c.hotBytes)

/-- Moves every hot entry to warm; `order` is the order the hash map drains in. -/
def drainHotToWarm (c : EntrySegmentCache) (order : List (Key × Bytes)) : EntrySegmentCache :=
  { c with
    hot := .empty
    hotBytes := 0
    warm := order.foldl (fun w e => w.put e.1 e.2) c.warm }

def evictWarm (c : EntrySegmentCache) : EntrySegmentCache := { c with warm := .empty }

section Lookup
variable (c : EntrySegmentCache) (k k' : Key) (b : Bytes)

variable {c k b} in
theorem get_cases (h : c.get k = some b) : c.hot.get k = some b ∨ c.warm.get k = some b :=
  (Option.or_eq_some_iff.mp h).imp_right And.right

theorem insert_warm : (c.insert k b).warm = c.warm := by
  unfold insert
  split_ifs <;> rfl

theorem insert_hot_get :
    (c.insert k b).hot.get k' =
      if k' = k ∧ (c.warm.get k).isNone then some b else c.hot.get k' := by
  unfold insert
  cases hwarm : c.warm.get k with
  | none =>
    simp only [Option.isSome_none, Bool.false_eq_true, if_false, Option.isNone_none, and_true]
    exact Table.get_put _ _ _ _
  | some v => simp

theorem insert_hot (h : (c.hot.get k').isSome) : ((c.insert k b).hot.get k').isSome := by
  rw [insert_hot_get]
  split_ifs
  · rfl
  · exact h

theorem insert_contains : ((c.insert k b).hot.get k).isSome ∨ (c.warm.get k).isSome := by
  rw [insert_hot_get]
  cases c.warm.get k <;> simp

theorem insert_cached :
    (c.insert k b).contains k' = true ↔ k' = k ∨ c.contains k' = true := by
  unfold contains
  rw [insert_warm, insert_hot_get]
  by_cases hk : k' = k
  · subst hk
    cases c.warm.get k' <;> simp
  · simp [hk]

end Lookup

section Drain

theorem foldl_put_get (order : List (Key × Bytes)) (hn : (order.map Prod.fst).Nodup)
    (w : Table Key Bytes) (k : Key) (v : Bytes) :
    (order.foldl (fun w e => w.put e.1 e.2) w).get k = some v ↔
      (k, v) ∈ order ∨ k ∉ order.map Prod.fst ∧ w.get k = some v := by
  induction order generalizing w with
  | nil => simp
  | cons e order ih =>
    rw [List.map_cons, List.nodup_cons] at hn
    rw [List.foldl_cons, ih hn.2, Table.get_put]
    obtain ⟨k₀, v₀⟩ := e
    by_cases hk : k = k₀
    · subst hk
      have hnot : (k, v) ∉ order := fun h => hn.1 (List.mem_map.mpr ⟨(k, v), h, rfl⟩)
      have hk : k ∉ order.map Prod.fst := hn.1
      simp only [hnot, hk, List.mem_cons, List.map_cons, not_true_eq_false, false_and,
        or_false, false_or, not_false_eq_true, true_and, if_true, Prod.mk.injEq, Option.some.injEq]
      exact eq_comm
    · simp [hk]

variable {c : EntrySegmentCache} {order : List (Key × Bytes)}

theorem drain_warm_get (hperm : order.Perm c.hot.entries) (k : Key) :
    (c.drainHotToWarm order).warm.get k = c.get k := by
  have hn : (order.map Prod.fst).Nodup := (hperm.map Prod.fst).nodup_iff.mpr c.hot.nodup
  ext v
  rw [drainHotToWarm, foldl_put_get order hn, hperm.mem_iff, (hperm.map Prod.fst).mem_iff,
    Table.mem_entries_iff]
  have hkeys : k ∈ c.hot.entries.map Prod.fst ↔ ∃ b, c.hot.get k = some b :=
    Table.mem_keys_iff c.hot k
  rw [hkeys, get]
  cases c.hot.get k <;> simp

theorem drain_cached (hperm : order.Perm c.hot.entries) (k : Key) :
    (c.drainHotToWarm order).contains k = c.contains k := by
  unfold contains
  rw [drain_warm_get hperm, get]
  cases c.hot.get k <;> simp [drainHotToWarm]

end Drain
end EntrySegmentCache
end Folio.EntryCache
