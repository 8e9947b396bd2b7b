import Folio.KeyedTable

/-! A store whose keys may be attached to leases, and the events that its watchers are told. -/
namespace Folio.LeaseStore
open KeyedTable

inductive Event (κ ν : Type) where
  | put (k : κ) (v : ν)
  | delete (k : κ)
  deriving DecidableEq, Repr

section Events
variable {κ ν : Type} [DecidableEq κ]

def Event.key : Event κ ν → κ
  | put k _ => k
  | delete k => k

def lastEvent (k : κ) (es : List (Event κ ν)) : Option (Event κ ν) :=
  (es.filter fun e => decide (e.key = k)).getLast?

theorem lastEvent_append (k : κ) (es fs : List (Event κ ν)) :
    lastEvent k (es ++ fs) = (lastEvent k fs).or (lastEvent k es) := by
  simp [lastEvent, List.filter_append, List.getLast?_append]

theorem lastEvent_put (k k' : κ) (v : ν) (es : List (Event κ ν)) :
    lastEvent k (es ++ [.put k' v]) = if k' = k then some (.put k' v) else lastEvent k es := by
  rw [lastEvent_append]
  by_cases h : k' = k <;> simp [lastEvent, Event.key, h]

theorem lastEvent_deletes (k : κ) (ks : List κ) :
    lastEvent k (ks.map (Event.delete (ν := ν))) = if k ∈ ks then some (.delete k) else none := by
  induction ks with
  | nil => rfl
  | cons k' ks ih =>
    have hcons : (k' :: ks).map (Event.delete (ν := ν)) = [.delete k'] ++ ks.map .delete := rfl
    rw [hcons, lastEvent_append, ih]
    by_cases hmem : k ∈ ks
    · simp [hmem]
    · by_cases hk : k' = k
      · simp [lastEvent, Event.key, hk, hmem]
      · simp [lastEvent, Event.key, hk, Ne.symm hk, hmem]

end Events

structure Item (ν : Type) where
  value : ν
  lease : Option Nat

/-- The leases that are neither revoked nor expired, with the time each has left. A key is
attached to no other. -/
structure Leased (κ ν : Type) [DecidableEq κ] where
  items : Table κ (Item ν)
  alive : Table Nat Nat
  nextLease : Nat
  events : List (Event κ ν)
  attached_alive : ∀ k i l, items.get k = some i → i.lease = some l → (alive.get l).isSome
  alive_lt : ∀ l, (alive.get l).isSome → l < nextLease

namespace Leased
variable {κ ν : Type} [DecidableEq κ] (s : Leased κ ν) {k : κ} {l : Nat}

def new : Leased κ ν where
  items := .empty
  alive := .empty
  nextLease := 0
  events := []
  attached_alive k i l h := by simp at h
  alive_lt l h := by simp at h

def grant (ttl : Nat) : Leased κ ν where
  items := s.items
  alive := s.alive.put s.nextLease ttl
  nextLease := s.nextLease + 1
  events := s.events
  attached_alive k i l h hl := Table.isSome_put _ (s.attached_alive k i l h hl)
  alive_lt l h := by
    rw [Table.get_put] at h
    split_ifs at h with heq
    · omega
    · exact Nat.lt_succ_of_lt (s.alive_lt l h)

/-- The lease of a put, if it has one, is the only one its key is attached to from then on. -/
def put (k : κ) (v : ν) (lease : Option Nat) : Option (Leased κ ν) :=
  if h : lease.all (fun l => (s.alive.get l).isSome) then
    some {
      items := s.items.put k ⟨v, lease⟩
      alive := s.alive
      nextLease := s.nextLease
      events := s.events ++ [.put k v]
      attached_alive := by
        intro k' i l hget hl
        rw [Table.get_put] at hget
        split_ifs at hget
        · cases hget
          change lease = some l at hl
          simpa [hl] using h
        · exact s.attached_alive k' i l hget hl
      alive_lt := s.alive_lt }
  else none

def keepAlive (l ttl : Nat) : Leased κ ν :=
  if h : (s.alive.get l).isSome then {
    s with
    alive := s.alive.put l ttl
    attached_alive := fun k i l' hget hl => Table.isSome_put _ (s.attached_alive k i l' hget hl)
    alive_lt := by
      intro l' h'
      rw [Table.get_put] at h'
      split_ifs at h' with heq
      · exact heq ▸ s.alive_lt l h
      · exact s.alive_lt l' h' }
  else s

def pass : Leased κ ν where
  items := s.items
  alive := s.alive.map (· - 1)
  nextLease := s.nextLease
  events := s.events
  attached_alive k i l h hl := by
    rw [Table.get_map, Option.isSome_map]
    exact s.attached_alive k i l h hl
  alive_lt l h := by
    rw [Table.get_map, Option.isSome_map] at h
    exact s.alive_lt l h

def attachedKeys (l : Nat) : List κ := (s.items.filter fun e => decide (e.2.lease = some l)).keys

/-- The lease is revoked or expires, and the keys attached to it go. -/
def drop (l : Nat) : Leased κ ν where
  items := s.items.filter fun e => decide (e.2.lease ≠ some l)
  alive := s.alive.del l
  nextLease := s.nextLease
  events := s.events ++ (s.attachedKeys l).map .delete
  attached_alive k i l' h hl := by
    rw [Table.get_filter, Option.filter_eq_some_iff] at h
    have hne : l' ≠ l := by
      rintro rfl
      exact of_decide_eq_true h.2 hl
    rw [Table.get_del_ne _ hne]
    exact s.attached_alive k i l' h.1 hl
  alive_lt l' h := by
    rw [Table.get_del] at h
    split_ifs at h
    · cases h
    · exact s.alive_lt l' h

theorem put_eq_some {v : ν} {lease : Option Nat} {t : Leased κ ν} (h : s.put k v lease = some t) :
    (∀ l, lease = some l → (s.alive.get l).isSome) ∧ t.items = s.items.put k ⟨v, lease⟩ ∧
      t.alive = s.alive ∧ t.nextLease = s.nextLease ∧ t.events = s.events ++ [.put k v] := by
  unfold put at h
  split_ifs at h with hall
  cases h
  refine ⟨fun l hl => ?_, rfl, rfl, rfl, rfl⟩
  simpa [hl] using hall

theorem mem_attachedKeys :
    k ∈ s.attachedKeys l ↔ ∃ i, s.items.get k = some i ∧ i.lease = some l := by
  rw [attachedKeys, Table.mem_keys_iff]
  simp [Table.get_filter, Option.filter_eq_some_iff]

theorem lastEvent_drop (k : κ) (l : Nat) :
    lastEvent k (s.drop l).events =
      if k ∈ s.attachedKeys l then some (.delete k) else lastEvent k s.events := by
  change lastEvent k (s.events ++ (s.attachedKeys l).map .delete) = _
  rw [lastEvent_append, lastEvent_deletes]
  split_ifs <;> rfl

theorem get_drop (k : κ) (l : Nat) :
    (s.drop l).items.get k = if k ∈ s.attachedKeys l then none else s.items.get k := by
  change (s.items.filter fun e => decide (e.2.lease ≠ some l)).get k = _
  rw [Table.get_filter]
  cases hget : s.items.get k with
  | none => simp
  | some i =>
    by_cases hl : i.lease = some l
    · simp [mem_attachedKeys, hget, hl, Option.filter]
    · simp [mem_attachedKeys, hget, hl, Option.filter]

end Leased
end Folio.LeaseStore
