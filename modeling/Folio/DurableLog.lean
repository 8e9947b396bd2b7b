import Folio.KeyedTable
import Mathlib.Order.Basic
import Mathlib.Order.Nat

/-! A keyed store whose writes reach the disk in order: a crash keeps a first part of them,
with everything written before the last successful sync. -/
namespace Folio.DurableLog
open KeyedTable
variable {κ ν : Type*}

structure Log (κ ν : Type*) where
  writes : List (κ × ν)
  synced : Nat
  synced_le : synced ≤ writes.length

namespace Log

def insert (l : Log κ ν) (k : κ) (v : ν) : Log κ ν where
  writes := l.writes ++ [(k, v)]
  synced := l.synced
  synced_le := by
    have := l.synced_le
    simp only [List.length_append, List.length_singleton]
    omega

def sync (l : Log κ ν) : Log κ ν := ⟨l.writes, l.writes.length, le_rfl⟩

theorem sync_eq {l : Log κ ν} (h : l.synced = l.writes.length) : l.sync = l := by
  obtain ⟨writes, synced, hle⟩ := l
  dsimp only at h
  subst h
  rfl

/-- A crash that keeps the first `n` writes. What it keeps is not synced by it. -/
def crash (l : Log κ ν) (n : Nat) : Option (Log κ ν) :=
  if h : l.synced ≤ n ∧ n ≤ l.writes.length then
    some ⟨l.writes.take n, l.synced, by rw [List.length_take]; omega⟩
  else none

variable [DecidableEq κ]

def putAll (ws : List (κ × ν)) : Table κ ν := ws.foldl (fun t w => t.put w.1 w.2) .empty

def upTo (l : Log κ ν) (n : Nat) : Table κ ν := putAll (l.writes.take n)

def contents (l : Log κ ν) : Table κ ν := putAll l.writes

def durable (l : Log κ ν) : Table κ ν := l.upTo l.synced

theorem upTo_length (l : Log κ ν) : l.upTo l.writes.length = l.contents := by
  rw [upTo, List.take_length, contents]

@[simp] theorem contents_sync (l : Log κ ν) : l.sync.contents = l.contents := rfl

@[simp] theorem contents_insert (l : Log κ ν) (k : κ) (v : ν) :
    (l.insert k v).contents = l.contents.put k v := by
  simp [contents, insert, putAll]

theorem upTo_insert_of_le (l : Log κ ν) (k : κ) (v : ν) {n : Nat} (h : n ≤ l.writes.length) :
    (l.insert k v).upTo n = l.upTo n := by
  rw [upTo, upTo, insert, List.take_append_of_le_length h]

theorem upTo_insert_of_lt (l : Log κ ν) (k : κ) (v : ν) {n : Nat} (h : l.writes.length < n) :
    (l.insert k v).upTo n = l.contents.put k v := by
  have hall : (l.insert k v).writes.length ≤ n := by
    simp only [insert, List.length_append, List.length_singleton]
    omega
  rw [upTo, List.take_of_length_le hall, ← contents_insert, contents]

theorem crash_eq_some {l l' : Log κ ν} {n : Nat} (h : l.crash n = some l') :
    l.synced ≤ n ∧ n ≤ l.writes.length ∧ l'.synced = l.synced ∧ l'.writes.length = n ∧
      l'.contents = l.upTo n ∧ ∀ m ≤ n, l'.upTo m = l.upTo m := by
  unfold crash at h
  split_ifs at h with hn
  cases h
  refine ⟨hn.1, hn.2, rfl, List.length_take_of_le hn.2, rfl, fun m hm => ?_⟩
  rw [upTo, upTo, List.take_take, Nat.min_eq_left hm]

def Since (l : Log κ ν) (m : Nat) (P : Table κ ν → Prop) : Prop :=
  ∀ n, m ≤ n → n ≤ l.writes.length → P (l.upTo n)

def Survives (l : Log κ ν) (P : Table κ ν → Prop) : Prop := l.Since l.synced P

def Stable (l : Log κ ν) (P : Table κ ν → Prop) : Prop :=
  ∀ m n, l.synced ≤ m → m ≤ n → n ≤ l.writes.length → P (l.upTo m) → P (l.upTo n)

section Rules
variable {l l' : Log κ ν} {P Q : Table κ ν → Prop} {k : κ} {v : ν} {m n : Nat}

theorem Since.contents (h : l.Since m P) (hm : m ≤ l.writes.length) : P l.contents := by
  rw [← upTo_length]
  exact h _ hm le_rfl

theorem since_length (h : P l.contents) : l.Since l.writes.length P := by
  intro n hge hle
  rw [le_antisymm hle hge, upTo_length]
  exact h

theorem Since.imp (h : l.Since m P) (hPQ : ∀ t, P t → Q t) : l.Since m Q :=
  fun n hm hn => hPQ _ (h n hm hn)

theorem Since.insert (h : l.Since m P) (hm : m ≤ l.writes.length)
    (hput : P l.contents → P (l.contents.put k v)) : (l.insert k v).Since m P := by
  intro n hmn _
  rcases Nat.lt_or_ge l.writes.length n with hlt | hle
  · rw [upTo_insert_of_lt _ _ _ hlt]
    exact hput (h.contents hm)
  · rw [upTo_insert_of_le _ _ _ hle]
    exact h n hmn hle

theorem Since.crash (h : l.Since m P) (hc : l.crash n = some l') : l'.Since m P := by
  obtain ⟨-, hn, -, hlen, -, hup⟩ := crash_eq_some hc
  intro j hmj hj
  rw [hlen] at hj
  rw [hup j hj]
  exact h j hmj (hj.trans hn)

theorem Survives.contents (h : l.Survives P) : P l.contents := Since.contents h l.synced_le

theorem Survives.durable (h : l.Survives P) : P l.durable := h _ le_rfl l.synced_le

theorem Survives.insert (h : l.Survives P) (hput : P l.contents → P (l.contents.put k v)) :
    (l.insert k v).Survives P :=
  Since.insert h l.synced_le hput

theorem survives_of_synced (hl : l.synced = l.writes.length) (h : P l.contents) :
    l.Survives P := by
  rw [Survives, hl]
  exact since_length h

theorem survives_sync (h : P l.contents) : l.sync.Survives P :=
  survives_of_synced rfl h

theorem Survives.crash (h : l.Survives P) (hc : l.crash n = some l') : l'.Survives P := by
  unfold Survives
  rw [(crash_eq_some hc).2.2.1]
  exact Since.crash h hc

theorem Stable.insert (h : l.Stable P) (hput : P l.contents → P (l.contents.put k v)) :
    (l.insert k v).Stable P := by
  intro m n hs hmn _ hm
  rcases Nat.lt_or_ge l.writes.length n with hnlt | hnle
  · rw [upTo_insert_of_lt _ _ _ hnlt]
    rcases Nat.lt_or_ge l.writes.length m with hmlt | hmle
    · rwa [upTo_insert_of_lt _ _ _ hmlt] at hm
    · rw [upTo_insert_of_le _ _ _ hmle] at hm
      refine hput ?_
      rw [← upTo_length]
      exact h m _ hs hmle le_rfl hm
  · rw [upTo_insert_of_le _ _ _ (hmn.trans hnle)] at hm
    rw [upTo_insert_of_le _ _ _ hnle]
    exact h m n hs hmn hnle hm

theorem stable_sync : l.sync.Stable P := by
  intro m n hs hmn hn hm
  have heq : m = n := le_antisymm hmn (hn.trans hs)
  rw [← heq]
  exact hm

theorem Stable.crash (h : l.Stable P) (hc : l.crash n = some l') : l'.Stable P := by
  obtain ⟨-, hn, hs, hlen, -, hup⟩ := crash_eq_some hc
  intro m m' hsm hmm hm' hm
  rw [hlen] at hm'
  rw [hup m (hmm.trans hm')] at hm
  rw [hup m' hm']
  exact h m m' (hs ▸ hsm) hmm (hm'.trans hn) hm

theorem Stable.survives (h : l.Stable P) (hd : P l.durable) : l.Survives P :=
  fun n hs hn => h _ n le_rfl hs hn hd

end Rules
end Log
end Folio.DurableLog
