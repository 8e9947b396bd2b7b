import Folio.KeyedTable
import Mathlib.Order.Basic
import Mathlib.Order.Nat

/-! A key-value store that stamps each row with the revisions of its creation and of its last
write, and writes made under a comparison. -/
namespace Folio.RevisionStore
open KeyedTable

structure Row (ν : Type) where
  value : ν
  createRevision : Nat
  modRevision : Nat
  deriving DecidableEq, Repr

structure RevStore (κ ν : Type) [DecidableEq κ] where
  revision : Nat
  rows : Table κ (Row ν)
  stamped : ∀ k row, rows.get k = some row →
    0 < row.createRevision ∧ 0 < row.modRevision ∧ row.modRevision ≤ revision

inductive Compare (κ ν : Type) where
  | value (k : κ) (v : ν)
  | modRevision (k : κ) (n : Nat)
  | createRevision (k : κ) (n : Nat)

namespace RevStore
variable {κ ν : Type} [DecidableEq κ]

def created (s : RevStore κ ν) (k : κ) : Nat := ((s.rows.get k).map Row.createRevision).getD 0

def modified (s : RevStore κ ν) (k : κ) : Nat := ((s.rows.get k).map Row.modRevision).getD 0

def put (s : RevStore κ ν) (k : κ) (v : ν) : RevStore κ ν where
  revision := s.revision + 1
  rows := s.rows.put k
    ⟨v, ((s.rows.get k).map Row.createRevision).getD (s.revision + 1), s.revision + 1⟩
  stamped := by
    intro k' row h
    rw [Table.get_put] at h
    split_ifs at h with heq
    · cases h
      refine ⟨?_, Nat.succ_pos _, le_rfl⟩
      cases hold : s.rows.get k with
      | none => exact Nat.succ_pos _
      | some old => exact (s.stamped k old hold).1
    · have hold := s.stamped k' row h
      exact ⟨hold.1, hold.2.1, Nat.le_succ_of_le hold.2.2⟩

/-- A delete that finds no row makes no revision. -/
def delete (s : RevStore κ ν) (k : κ) : RevStore κ ν where
  revision := if (s.rows.get k).isSome then s.revision + 1 else s.revision
  rows := s.rows.del k
  stamped := by
    intro k' row h
    rw [Table.get_del] at h
    split_ifs at h with heq
    have hold := s.stamped k' row h
    refine ⟨hold.1, hold.2.1, hold.2.2.trans ?_⟩
    split_ifs
    · exact Nat.le_succ _
    · exact le_rfl

section Transactions
variable [DecidableEq ν]

/-- An absent row has revision 0 and equals no value. -/
def holds (s : RevStore κ ν) : Compare κ ν → Prop
  | .value k v => (s.rows.get k).map Row.value = some v
  | .modRevision k n => s.modified k = n
  | .createRevision k n => s.created k = n

instance (s : RevStore κ ν) : (c : Compare κ ν) → Decidable (s.holds c)
  | .value k v => inferInstanceAs (Decidable ((s.rows.get k).map Row.value = some v))
  | .modRevision k n => inferInstanceAs (Decidable (s.modified k = n))
  | .createRevision k n => inferInstanceAs (Decidable (s.created k = n))

def txn (s : RevStore κ ν) (c : Compare κ ν) (k : κ) (v : ν) : RevStore κ ν × Bool :=
  if s.holds c then (s.put k v, true) else (s, false)

theorem txn_cases (s : RevStore κ ν) (c : Compare κ ν) (k : κ) (v : ν) :
    (s.holds c ∧ s.txn c k v = (s.put k v, true)) ∨ s.txn c k v = (s, false) := by
  unfold txn
  split_ifs with h
  · exact .inl ⟨h, rfl⟩
  · exact .inr rfl

end Transactions

theorem created_eq_zero (s : RevStore κ ν) (k : κ) : s.created k = 0 ↔ s.rows.get k = none := by
  unfold created
  cases h : s.rows.get k with
  | none => simp
  | some row => simpa using Nat.ne_of_gt (s.stamped k row h).1

theorem modified_eq (s : RevStore κ ν) (k : κ) {n : Nat} (hn : 0 < n) (h : s.modified k = n) :
    ∃ row, s.rows.get k = some row ∧ row.modRevision = n := by
  unfold modified at h
  cases hrow : s.rows.get k with
  | none =>
    rw [hrow] at h
    exact absurd h.symm (Nat.ne_of_gt hn)
  | some row =>
    rw [hrow] at h
    exact ⟨row, rfl, h⟩

structure Later (s t : RevStore κ ν) : Prop where
  revision : s.revision ≤ t.revision
  unchanged : ∀ k row, t.rows.get k = some row → row.modRevision ≤ s.revision →
    s.rows.get k = some row

theorem Later.refl (s : RevStore κ ν) : Later s s := ⟨le_rfl, fun _ _ h _ => h⟩

theorem Later.trans {s t u : RevStore κ ν} (hst : Later s t) (htu : Later t u) : Later s u where
  revision := hst.revision.trans htu.revision
  unchanged := fun k row h hrev =>
    hst.unchanged k row (htu.unchanged k row h (hrev.trans hst.revision)) hrev

theorem later_put (s : RevStore κ ν) (k : κ) (v : ν) : Later s (s.put k v) where
  revision := Nat.le_succ _
  unchanged := by
    intro k' row h hrev
    simp only [put] at h
    rw [Table.get_put] at h
    split_ifs at h with heq
    · cases h
      exact absurd hrev (Nat.not_succ_le_self _)
    · exact h

theorem later_delete (s : RevStore κ ν) (k : κ) : Later s (s.delete k) where
  revision := by
    simp only [delete]
    split_ifs
    · exact Nat.le_succ _
    · exact le_rfl
  unchanged := by
    intro k' row h _
    simp only [delete] at h
    rw [Table.get_del] at h
    split_ifs at h
    exact h

theorem Later.same_row {s t : RevStore κ ν} (h : Later s t) {k : κ} {row : Row ν}
    (hrow : s.rows.get k = some row) (hmod : t.modified k = row.modRevision) :
    t.rows.get k = some row := by
  have hstamp := s.stamped k row hrow
  obtain ⟨row', hrow', hrev⟩ := t.modified_eq k hstamp.2.1 hmod
  have hold := h.unchanged k row' hrow' (hrev.trans_le hstamp.2.2)
  exact hrow'.trans (hold.symm.trans hrow)

end RevStore
end Folio.RevisionStore
