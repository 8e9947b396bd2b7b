import Mathlib.Data.List.Nodup
import Mathlib.Data.List.Basic

/-! Finite keyed tables: an association list in which every key occurs once. -/
namespace Folio.KeyedTable

/-- Distinct keys are part of the data, so lookups and membership agree. -/
structure Table (κ ν : Type*) where
  entries : List (κ × ν)
  nodup : (entries.map Prod.fst).Nodup

theorem forall_of_eq_none {α : Type*} {o : Option α} {P : α → Prop} (h : o = none) :
    ∀ a, o = some a → P a := by
  rintro a ha
  cases h.symm.trans ha

namespace Table
variable {κ ν : Type*} [DecidableEq κ]

def empty : Table κ ν := ⟨[], List.nodup_nil⟩

def get (t : Table κ ν) (k : κ) : Option ν :=
  (t.entries.find? fun e => decide (e.1 = k)).map Prod.snd

def del (t : Table κ ν) (k : κ) : Table κ ν where
  entries := t.entries.filter fun e => decide (e.1 ≠ k)
  nodup := t.nodup.sublist (List.filter_sublist.map _)

def put (t : Table κ ν) (k : κ) (v : ν) : Table κ ν where
  entries := (k, v) :: (t.del k).entries
  nodup := by
    rw [List.map_cons, List.nodup_cons]
    refine ⟨?_, (t.del k).nodup⟩
    simp [del]

def filter (t : Table κ ν) (p : κ × ν → Bool) : Table κ ν where
  entries := t.entries.filter p
  nodup := t.nodup.sublist (List.filter_sublist.map _)

def map {ν' : Type*} (t : Table κ ν) (f : ν → ν') : Table κ ν' where
  entries := t.entries.map fun e => (e.1, f e.2)
  nodup := by
    rw [List.map_map]
    exact t.nodup

def keys (t : Table κ ν) : List κ := t.entries.map Prod.fst
def values (t : Table κ ν) : List ν := t.entries.map Prod.snd

def total (f : ν → Nat) (t : Table κ ν) : Nat := t.entries.foldr (fun e n => f e.2 + n) 0

theorem find_cons (e : κ × ν) (es : List (κ × ν)) (k : κ) :
    ((e :: es).find? fun x => decide (x.1 = k)).map Prod.snd =
      if e.1 = k then some e.2 else (es.find? fun x => decide (x.1 = k)).map Prod.snd := by
  by_cases h : e.1 = k <;> simp [h]

theorem mem_entries_iff (t : Table κ ν) (k : κ) (v : ν) :
    (k, v) ∈ t.entries ↔ t.get k = some v := by
  obtain ⟨es, hn⟩ := t
  induction es with
  | nil => simp [get]
  | cons e es ih =>
    rw [List.map_cons, List.nodup_cons] at hn
    have hrec := ih hn.2
    simp only [get, find_cons, List.mem_cons] at hrec ⊢
    by_cases he : e.1 = k
    · have hnot : (k, v) ∉ es := fun hm => hn.1 (by
        rw [he]; exact List.mem_map_of_mem hm)
      simp only [he, if_true, hnot, or_false, Option.some.injEq]
      constructor
      · intro h; rw [← h]
      · intro h; rw [← h, ← he]
    · simp only [he, if_false, ← hrec]
      constructor
      · rintro (h | h)
        · exact absurd (congrArg Prod.fst h).symm he
        · exact h
      · exact Or.inr

theorem mem_del {t : Table κ ν} {k : κ} {e : κ × ν} (h : e ∈ (t.del k).entries) :
    e ∈ t.entries :=
  (List.mem_filter.mp h).1

theorem mem_put {t : Table κ ν} {k : κ} {v : ν} {e : κ × ν} (h : e ∈ (t.put k v).entries) :
    e = (k, v) ∨ e ∈ t.entries :=
  (List.mem_cons.mp h).imp_right mem_del

theorem keys_put (t : Table κ ν) (k : κ) (v : ν) :
    (t.put k v).keys = k :: t.keys.filter (· ≠ k) := by
  simp [put, keys, del, List.filter_map, Function.comp_def]

theorem mem_keys_iff (t : Table κ ν) (k : κ) : k ∈ t.keys ↔ ∃ v, t.get k = some v := by
  constructor
  · intro h
    obtain ⟨⟨k', v⟩, hm, rfl⟩ := List.mem_map.mp h
    exact ⟨v, (t.mem_entries_iff k' v).mp hm⟩
  · rintro ⟨v, hv⟩
    exact List.mem_map_of_mem ((t.mem_entries_iff k v).mpr hv)

theorem mem_values_iff (t : Table κ ν) (v : ν) : v ∈ t.values ↔ ∃ k, t.get k = some v := by
  constructor
  · intro h
    obtain ⟨⟨k, v'⟩, hm, rfl⟩ := List.mem_map.mp h
    exact ⟨k, (t.mem_entries_iff k v').mp hm⟩
  · rintro ⟨k, hk⟩
    exact List.mem_map_of_mem ((t.mem_entries_iff k v).mpr hk)

@[simp] theorem get_empty (k : κ) : (empty : Table κ ν).get k = none := rfl

theorem get_filter (t : Table κ ν) (p : κ × ν → Bool) (k : κ) :
    (t.filter p).get k = (t.get k).filter fun v => p (k, v) := by
  ext v
  rw [← mem_entries_iff, filter, List.mem_filter, mem_entries_iff, Option.filter_eq_some_iff]

theorem get_map {ν' : Type*} (t : Table κ ν) (f : ν → ν') (k : κ) :
    (t.map f).get k = (t.get k).map f := by
  simp [get, map, List.find?_map, Function.comp_def]

@[simp] theorem get_del_self (t : Table κ ν) (k : κ) : (t.del k).get k = none := by
  cases h : (t.del k).get k with
  | none => rfl
  | some v =>
    have hm := ((t.del k).mem_entries_iff k v).mpr h
    simp [del] at hm

theorem get_del_ne (t : Table κ ν) {k k' : κ} (h : k' ≠ k) : (t.del k).get k' = t.get k' := by
  ext v
  rw [← mem_entries_iff, ← mem_entries_iff, del, List.mem_filter]
  simp [h]

theorem get_del (t : Table κ ν) (k k' : κ) :
    (t.del k).get k' = if k' = k then none else t.get k' := by
  split_ifs with h
  · rw [h, get_del_self]
  · exact t.get_del_ne h

@[simp] theorem get_put_self (t : Table κ ν) (k : κ) (v : ν) : (t.put k v).get k = some v := by
  simp [get, put]

theorem get_put_ne (t : Table κ ν) {k k' : κ} (v : ν) (h : k' ≠ k) :
    (t.put k v).get k' = t.get k' := by
  have hcons := find_cons (k, v) (t.del k).entries k'
  rw [if_neg (Ne.symm h)] at hcons
  exact hcons.trans (t.get_del_ne h)

theorem isSome_put {t : Table κ ν} {k k' : κ} (v : ν) (h : (t.get k').isSome) :
    ((t.put k v).get k').isSome := by
  by_cases hk : k' = k
  · rw [hk, get_put_self]
    rfl
  · rw [get_put_ne _ _ hk]
    exact h

theorem get_put (t : Table κ ν) (k k' : κ) (v : ν) :
    (t.put k v).get k' = if k' = k then some v else t.get k' := by
  split_ifs with h
  · rw [h, get_put_self]
  · exact t.get_put_ne v h

theorem put_put (t : Table κ ν) (k : κ) (v w : ν) : (t.put k v).put k w = t.put k w := by
  simp [put, del]

section Agree
variable {α β γ : Type*} {f : α → Option γ} {g : β → Option γ} {t : Table κ α} {u : Table κ β}
  {k : κ}

/-- Two tables that look the same through `f` and `g`. -/
def Agree (f : α → Option γ) (g : β → Option γ) (t : Table κ α) (u : Table κ β) : Prop :=
  ∀ k, (t.get k).bind f = (u.get k).bind g

theorem Agree.put (h : Agree f g t u) {a : α} {b : β} (hab : f a = g b) :
    Agree f g (t.put k a) (u.put k b) := by
  intro k'
  rw [get_put, get_put]
  split_ifs
  · exact hab
  · exact h k'

theorem Agree.put_left (h : Agree f g t u) {a : α} (ha : f a = (t.get k).bind f) :
    Agree f g (t.put k a) u := by
  intro k'
  rw [get_put]
  split_ifs with hk
  · rw [← h, hk]
    exact ha
  · exact h k'

theorem Agree.del (h : Agree f g t u) : Agree f g (t.del k) (u.del k) := by
  intro k'
  rw [get_del, get_del]
  split_ifs
  · rfl
  · exact h k'

theorem Agree.isSome
    (h : Agree (fun _ => some ()) (fun _ => some ()) t u) (k : κ) :
    (u.get k).isSome = (t.get k).isSome := by
  have hk := h k
  cases ht : t.get k <;> cases hu : u.get k <;> simp_all

end Agree

section Total
variable (f : ν → Nat)

theorem total_del (t : Table κ ν) (k : κ) :
    t.total f = ((t.get k).map f).getD 0 + (t.del k).total f := by
  obtain ⟨es, hn⟩ := t
  induction es with
  | nil => rfl
  | cons e es ih =>
    rw [List.map_cons, List.nodup_cons] at hn
    have hrec := ih hn.2
    simp only [total, get, del, find_cons, List.foldr_cons] at hrec ⊢
    by_cases he : e.1 = k
    · have hes : es.filter (fun x => decide (x.1 ≠ k)) = es := by
        refine List.filter_eq_self.mpr fun x hx => decide_eq_true fun hxk => hn.1 ?_
        rw [he, ← hxk]
        exact List.mem_map_of_mem hx
      rw [if_pos he, List.filter_cons_of_neg (by simp [he]), hes]
      rfl
    · rw [if_neg he, List.filter_cons_of_pos (by simp [he]), List.foldr_cons, hrec]
      omega

theorem total_put (t : Table κ ν) (k : κ) (v : ν) :
    (t.put k v).total f + ((t.get k).map f).getD 0 = t.total f + f v := by
  have hput : (t.put k v).total f = f v + (t.del k).total f := rfl
  rw [hput, t.total_del f k]
  omega

end Total
end Table
end Folio.KeyedTable
