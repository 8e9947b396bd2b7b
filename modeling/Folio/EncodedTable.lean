import Folio.OrderedTable

/-! Tables that are kept as encoded rows under encoded keys and read back row by row. -/
namespace Except
variable {ε α β : Type*}

theorem bind_eq_ok {x : Except ε α} {f : α → Except ε β} {b : β} :
    x.bind f = .ok b ↔ ∃ a, x = .ok a ∧ f a = .ok b := by
  cases x with
  | error e =>
    constructor
    · rintro ⟨⟩
    · rintro ⟨a, ⟨⟩, -⟩
  | ok a =>
    constructor
    · exact fun h => ⟨a, rfl, h⟩
    · rintro ⟨a, ⟨⟩, h⟩
      exact h

theorem map_eq_ok {x : Except ε α} {f : α → β} {b : β} :
    x.map f = .ok b ↔ ∃ a, x = .ok a ∧ f a = b := by
  cases x with
  | error e =>
    constructor
    · rintro ⟨⟩
    · rintro ⟨a, ⟨⟩, -⟩
  | ok a =>
    constructor
    · rintro ⟨⟩
      exact ⟨a, rfl, rfl⟩
    · rintro ⟨a, ⟨⟩, rfl⟩
      rfl

end Except

namespace Folio.EncodedTable
open KeyedTable
variable {κ ν : Type}

abbrev Partition := Table (List UInt8) (List UInt8)

structure KeyFormat (κ : Type) [LT κ] where
  Fits : κ → Prop
  enc : κ → List UInt8
  dec : List UInt8 → κ
  dec_enc : ∀ k, Fits k → dec (enc k) = k
  enc_lt : ∀ k k', Fits k → Fits k' → (enc k < enc k' ↔ k < k')

/-- A row that fits is read back as it was written; nothing else is assumed of the encoding. -/
structure RowFormat (ε : Type) {ν : Type} (Fits : ν → Prop) where
  enc : ν → List UInt8
  read : List UInt8 → Except ε ν
  read_enc : ∀ a, Fits a → read (enc a) = .ok a

theorem KeyFormat.inj [LT κ] (key : KeyFormat κ) {k k' : κ} (hk : key.Fits k) (hk' : key.Fits k')
    (h : key.enc k = key.enc k') : k = k' := by
  rw [← key.dec_enc k hk, h, key.dec_enc k' hk']

section Scan
variable {ε ρ β : Type}

def collect (f : ρ → Except ε (Option β)) : List ρ → Except ε (List β)
  | [] => .ok []
  | r :: rs => (f r).bind fun o => (collect f rs).map fun out => o.toList ++ out

theorem collect_ok {f : ρ → Except ε (Option β)} {g : ρ → Option β} {rows : List ρ}
    (h : ∀ r ∈ rows, f r = .ok (g r)) : collect f rows = .ok (rows.filterMap g) := by
  induction rows with
  | nil => rfl
  | cons r rows ih =>
    have hrest := ih fun r hr => h r (List.mem_cons_of_mem _ hr)
    rw [collect, h r List.mem_cons_self, Except.bind, hrest, Except.map, List.filterMap_cons]
    cases g r <;> rfl

end Scan

section Rows
variable [DecidableEq κ] [LT κ] {ε : Type} {Fits : ν → Prop} (key : KeyFormat κ)
  (c : RowFormat ε Fits)

def readRow (p : Partition) (b : List UInt8) : Except ε (Option ν) :=
  match p.get b with
  | none => .ok none
  | some v => (c.read v).map some

structure Encodes (p : Partition) (t : Table κ ν) : Prop where
  rows : ∀ b v, p.get b = some v → ∃ k a, b = key.enc k ∧ t.get k = some a
  row : ∀ k a, t.get k = some a → key.Fits k ∧ Fits a ∧ p.get (key.enc k) = some (c.enc a)

variable {key c} {p : Partition} {t : Table κ ν} {k : κ}

theorem encodes_empty : Encodes key c .empty (.empty : Table κ ν) where
  rows _ _ h := by cases h
  row _ _ h := by cases h

theorem Encodes.get (h : Encodes key c p t) (hk : key.Fits k) :
    p.get (key.enc k) = (t.get k).map c.enc := by
  cases ht : t.get k with
  | some a => exact (h.row k a ht).2.2
  | none =>
    by_contra hne
    obtain ⟨v, hv⟩ := Option.ne_none_iff_exists'.mp hne
    obtain ⟨k', a, hkey, hget⟩ := h.rows _ v hv
    rw [← key.inj hk (h.row k' a hget).1 hkey, ht] at hget
    cases hget

theorem Encodes.readRow (h : Encodes key c p t) (hk : key.Fits k) :
    readRow c p (key.enc k) = .ok (t.get k) := by
  rw [EncodedTable.readRow, h.get hk]
  cases ht : t.get k with
  | none => rfl
  | some a =>
    change (c.read (c.enc a)).map some = _
    rw [c.read_enc a (h.row k a ht).2.1]
    rfl

theorem Encodes.put {a : ν} (h : Encodes key c p t) (hk : key.Fits k) (ha : Fits a) :
    Encodes key c (p.put (key.enc k) (c.enc a)) (t.put k a) where
  rows b v hget := by
    rw [Table.get_put] at hget
    split_ifs at hget with hb
    · exact ⟨k, a, hb, Table.get_put_self t k a⟩
    · obtain ⟨k', a', rfl, ht⟩ := h.rows b v hget
      refine ⟨k', a', rfl, ?_⟩
      rw [Table.get_put_ne _ _ fun heq => hb (congrArg key.enc heq)]
      exact ht
  row k' a' hget := by
    rw [Table.get_put] at hget
    split_ifs at hget with heq
    · cases hget
      subst heq
      exact ⟨hk, ha, Table.get_put_self _ _ _⟩
    · obtain ⟨hk', ha', hrow⟩ := h.row k' a' hget
      refine ⟨hk', ha', ?_⟩
      rw [Table.get_put_ne _ _ fun henc => heq (key.inj hk' hk henc)]
      exact hrow

theorem Encodes.mem_ascending (h : Encodes key c p t) {r : List UInt8 × List UInt8} :
    r ∈ p.ascending ↔ ∃ k a, t.get k = some a ∧ r = (key.enc k, c.enc a) := by
  obtain ⟨b, v⟩ := r
  rw [Table.mem_ascending]
  constructor
  · intro hget
    obtain ⟨k, a, rfl, ht⟩ := h.rows b v hget
    rw [(h.row k a ht).2.2] at hget
    cases hget
    exact ⟨k, a, ht, rfl⟩
  · rintro ⟨k, a, ht, heq⟩
    cases heq
    exact (h.row k a ht).2.2

theorem Encodes.ascending [LE κ] [DecidableLE κ] [Std.IsLinearOrder κ] [Std.LawfulOrderLT κ]
    (h : Encodes key c p t) :
    p.ascending = t.ascending.map fun r => (key.enc r.1, c.enc r.2) := by
  have hanti : Std.Antisymm fun a b : List UInt8 × List UInt8 => a.1 < b.1 :=
    ⟨fun a b hab hba => absurd (Std.lt_trans hab hba) Std.lt_irrefl⟩
  have hirr : Std.Irrefl fun a b : List UInt8 × List UInt8 => a.1 < b.1 :=
    ⟨fun _ => Std.lt_irrefl⟩
  have hrow {r : κ × ν} (hr : r ∈ t.ascending) : key.Fits r.1 :=
    (h.row r.1 r.2 ((t.mem_ascending r.1 r.2).mp hr)).1
  have hsorted : (t.ascending.map fun r => (key.enc r.1, c.enc r.2)).Pairwise
      fun a b => a.1 < b.1 :=
    List.pairwise_map.mpr (t.ascending_pairwise.imp_of_mem fun ha hb hlt =>
      (key.enc_lt _ _ (hrow ha) (hrow hb)).mpr hlt)
  refine p.ascending_pairwise.eq_of_mem_iff hsorted fun r => ?_
  rw [h.mem_ascending, List.mem_map]
  constructor
  · rintro ⟨k, a, hget, rfl⟩
    exact ⟨(k, a), (t.mem_ascending k a).mpr hget, rfl⟩
  · rintro ⟨⟨k, a⟩, hmem, rfl⟩
    exact ⟨k, a, (t.mem_ascending k a).mp hmem, rfl⟩

end Rows
end Folio.EncodedTable
