import Folio.KeyedTable
import Mathlib.Data.List.Forall2
import Mathlib.Data.List.Sort

/-! Keyed tables that are read in the order of their keys, as a whole or between two keys, and
keys made of two parts of which the first one decides. -/
namespace Folio.KeyedTable

section Order
variable {κ : Type*} [LE κ] [LT κ] [Std.IsLinearOrder κ] [Std.LawfulOrderLT κ]

def Composite {α β : Type*} [LT α] [LT β] (enc : α → β → κ) : Prop :=
  ∀ a b a' b', enc a b < enc a' b' ↔ a < a' ∨ a = a' ∧ b < b'

variable {α β : Type*} [LE α] [LT α] [Std.IsLinearOrder α] [Std.LawfulOrderLT α]
  [LE β] [LT β] [Std.IsLinearOrder β] [Std.LawfulOrderLT β] {enc : α → β → κ}

theorem Composite.le_iff (h : Composite enc) (a : α) (b : β) (a' : α) (b' : β) :
    enc a b ≤ enc a' b' ↔ a < a' ∨ a = a' ∧ b ≤ b' := by
  rw [← Std.not_lt, h]
  grind

theorem Composite.inj (h : Composite enc) {a a' : α} {b b' : β} :
    enc a b = enc a' b' ↔ a = a' ∧ b = b' := by
  constructor
  · intro heq
    have hle := (h.le_iff a b a' b').mp (heq ▸ Std.le_refl _)
    have hge := (h.le_iff a' b' a b).mp (heq ▸ Std.le_refl _)
    grind
  · rintro ⟨rfl, rfl⟩
    rfl

theorem Composite.between_iff (h : Composite enc) {bot top : β} (hbot : ∀ b, bot ≤ b)
    (htop : ∀ b, b ≤ top) (a a' : α) (b : β) :
    enc a bot ≤ enc a' b ∧ enc a' b ≤ enc a top ↔ a' = a := by
  rw [h.le_iff, h.le_iff]
  have hb := hbot b
  have ht := htop b
  grind

end Order

namespace Table
variable {κ ν : Type*} [LE κ] [DecidableLE κ]

def keyLe (a b : κ × ν) : Prop := a.1 ≤ b.1

instance : DecidableRel (keyLe (κ := κ) (ν := ν)) := fun a b =>
  inferInstanceAs (Decidable (a.1 ≤ b.1))

def ascending (t : Table κ ν) : List (κ × ν) := t.entries.insertionSort keyLe

def range (t : Table κ ν) (first last : κ) : List (κ × ν) :=
  t.ascending.filter fun e => decide (first ≤ e.1) && decide (e.1 ≤ last)

section Members
variable [DecidableEq κ] (t : Table κ ν) (k : κ) (v : ν)

theorem mem_ascending : (k, v) ∈ t.ascending ↔ t.get k = some v := by
  rw [ascending, List.mem_insertionSort, mem_entries_iff]

theorem mem_ascending_keys : k ∈ t.ascending.map Prod.fst ↔ (t.get k).isSome := by
  simp [Option.isSome_iff_exists, mem_ascending]

theorem mem_range (first last : κ) :
    (k, v) ∈ t.range first last ↔ t.get k = some v ∧ first ≤ k ∧ k ≤ last := by
  rw [range, List.mem_filter, mem_ascending, Bool.and_eq_true, decide_eq_true_iff,
    decide_eq_true_iff]

end Members

section Sorted
variable [LT κ] [Std.IsLinearOrder κ] [Std.LawfulOrderLT κ]

instance : Std.Total (keyLe (κ := κ) (ν := ν)) := ⟨fun _ _ => Std.le_total⟩

instance : IsTrans (κ × ν) keyLe := ⟨fun _ _ _ h h' => Std.le_trans (α := κ) h h'⟩

theorem ascending_pairwise (t : Table κ ν) : t.ascending.Pairwise fun a b => a.1 < b.1 := by
  have hle : t.ascending.Pairwise keyLe := List.pairwise_insertionSort keyLe t.entries
  have hne : t.ascending.Pairwise fun a b => a.1 ≠ b.1 := by
    have hperm : (t.ascending.map Prod.fst).Perm (t.entries.map Prod.fst) :=
      (List.perm_insertionSort keyLe t.entries).map Prod.fst
    exact List.pairwise_map.mp (hperm.nodup_iff.mpr t.nodup)
  exact (hle.and hne).imp fun h => Std.lt_of_le_of_ne h.1 h.2

theorem range_pairwise (t : Table κ ν) (first last : κ) :
    (t.range first last).Pairwise fun a b => a.1 < b.1 :=
  t.ascending_pairwise.filter _

section Related
variable [DecidableEq κ] {ν' : Type*} {t : Table κ ν} {t' : Table κ ν'}

theorem ascending_keys (h : ∀ k, (t.get k).isSome ↔ (t'.get k).isSome) :
    t.ascending.map Prod.fst = t'.ascending.map Prod.fst := by
  have hanti : Std.Antisymm fun a b : κ => a < b :=
    ⟨fun a b hab hba => absurd (Std.lt_trans hab hba) Std.lt_irrefl⟩
  have hirr : Std.Irrefl fun a b : κ => a < b := ⟨fun _ => Std.lt_irrefl⟩
  refine (List.pairwise_map.mpr t.ascending_pairwise).eq_of_mem_iff
    (List.pairwise_map.mpr t'.ascending_pairwise) fun k => ?_
  rw [t.mem_ascending_keys, t'.mem_ascending_keys, h]

theorem ascending_rel {R : ν → ν' → Prop} (h : ∀ k, Option.Rel R (t.get k) (t'.get k)) :
    List.Forall₂ (fun a b => a.1 = b.1 ∧ R a.2 b.2) t.ascending t'.ascending := by
  have hkeys : t.ascending.map Prod.fst = t'.ascending.map Prod.fst := by
    refine ascending_keys fun k => ?_
    have hk := h k
    generalize t.get k = o at hk
    generalize t'.get k = o' at hk
    cases hk <;> rfl
  have hsame : List.Forall₂ (fun (a : κ × ν) (b : κ × ν') => a.1 = b.1)
      t.ascending t'.ascending := by
    rw [← List.forall₂_eq_eq_eq, List.forall₂_map_left_iff, List.forall₂_map_right_iff] at hkeys
    exact hkeys
  obtain ⟨hlen, hzip⟩ := List.forall₂_iff_zip.mp hsame
  refine List.forall₂_iff_zip.mpr ⟨hlen, fun {a b} hab => ⟨hzip hab, ?_⟩⟩
  obtain ⟨ha, hb⟩ := List.of_mem_zip hab
  have hk := h a.1
  have hgetb := (t'.mem_ascending b.1 b.2).mp hb
  rw [← hzip hab] at hgetb
  rw [(t.mem_ascending a.1 a.2).mp ha, hgetb] at hk
  cases hk with
  | some hR => exact hR

end Related
end Sorted
end Table
end Folio.KeyedTable
