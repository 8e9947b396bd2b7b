import Folio.LocationIndex
import Mathlib.Logic.Function.Basic

/-! The calls on the `locations` partition against a map from pairs of ids to values. A range of
byte keys holds exactly one ledger, so its scan is the ledger's part of the map in order. -/
namespace Folio.LedgerRanges
open KeyedTable Protocol Fjall LocationIndex
variable {p p' : Locations} {rows : List (Bytes × Bytes)} {l : UInt64}

section Histories

abbrev Live := Ids → Option IndexValue

inductive LocationOp where
  | insert (ledgerId entryId segmentId offset : UInt64) (length : UInt32)
  | delete (ledgerId entryId : UInt64)
  | deleteTail (segmentId minOffset : UInt64)

def perform (p : Locations) : LocationOp → Except FolioError Locations
  | .insert ledgerId entryId segmentId offset length =>
    .ok (insertLocation p ledgerId entryId segmentId offset length)
  | .delete ledgerId entryId => .ok (deleteLocation p ledgerId entryId)
  | .deleteTail segmentId minOffset =>
    (deleteLocationsInSegmentTail p segmentId minOffset).map Prod.fst

def performAll (p : Locations) : List LocationOp → Except FolioError Locations
  | [] => .ok p
  | op :: ops => do
    let p ← perform p op
    performAll p ops

def liveAfter (live : Live) : LocationOp → Live
  | .insert ledgerId entryId segmentId offset length =>
    Function.update live (ledgerId, entryId) (some ⟨segmentId.toNat, offset.toNat, length.toNat⟩)
  | .delete ledgerId entryId => Function.update live (ledgerId, entryId) none
  | .deleteTail segmentId minOffset => fun k =>
    (live k).filter fun iv => !inTail segmentId minOffset iv

def liveOf (ops : List LocationOp) : Live := ops.foldl liveAfter fun _ => none

end Histories

variable {live live' : Live}

section Rows
variable {k v : Bytes}

structure Encodes (p : Locations) (live : Live) : Prop where
  rows : ∀ k v, p.get k = some v → (∃ l e, k = encodeKey l e) ∧ 20 ≤ v.length
  value : ∀ l e, (p.get (encodeKey l e)).map valueOf = live (l, e)

theorem encodes_empty : Encodes .empty fun _ => none := ⟨nofun, fun _ _ => rfl⟩

theorem Encodes.decodes (h : Encodes p live) (hget : p.get k = some v) :
    decodeKey k = .ok (keyOf k) ∧ deserialize v = .ok (valueOf v) := by
  obtain ⟨⟨l, e, rfl⟩, hlen⟩ := h.rows k v hget
  rw [decodeKey_encodeKey, keyOf_encodeKey, deserialize, if_neg (Nat.not_lt.mpr hlen)]
  exact ⟨rfl, rfl⟩

theorem Encodes.getLocation (h : Encodes p live) (l e : UInt64) :
    getLocation p l e = .ok (live (l, e)) := by
  rw [← h.value, LocationIndex.getLocation]
  cases hget : p.get (encodeKey l e) with
  | none => rfl
  | some v =>
    dsimp only
    rw [(h.decodes hget).2]
    rfl

theorem Encodes.row_iff (h : Encodes p live) (ids : Ids) (iv : IndexValue) :
    (∃ k v, p.get k = some v ∧ keyOf k = ids ∧ valueOf v = iv) ↔ live ids = some iv := by
  constructor
  · rintro ⟨k, v, hget, rfl, rfl⟩
    obtain ⟨⟨l, e, rfl⟩, -⟩ := h.rows k v hget
    rw [keyOf_encodeKey, ← h.value, hget]
    rfl
  · intro hlive
    rw [← h.value, Option.map_eq_some_iff] at hlive
    obtain ⟨v, hget, hv⟩ := hlive
    exact ⟨_, v, hget, keyOf_encodeKey _ _, hv⟩

def idsLt (a b : Ids) : Prop := a.1 < b.1 ∨ a.1 = b.1 ∧ a.2 < b.2

theorem Encodes.keyOf_lt {k' v' : Bytes} (h : Encodes p live) (hget : p.get k = some v)
    (hget' : p.get k' = some v') (hlt : k < k') : idsLt (keyOf k) (keyOf k') := by
  obtain ⟨⟨l, e, rfl⟩, -⟩ := h.rows k v hget
  obtain ⟨⟨l', e', rfl⟩, -⟩ := h.rows k' v' hget'
  rw [keyOf_encodeKey, keyOf_encodeKey]
  exact (encodeKey_composite l e l' e').mp hlt

theorem Encodes.insert (h : Encodes p live) (l e seg off : UInt64) (len : UInt32) :
    Encodes (insertLocation p l e seg off len)
      (Function.update live (l, e) (some ⟨seg.toNat, off.toNat, len.toNat⟩)) := by
  refine ⟨fun k v hget => ?_, fun l' e' => ?_⟩
  · rw [insertLocation, Table.get_put] at hget
    split_ifs at hget with hk
    · cases hget
      exact ⟨⟨l, e, hk⟩, (serialize_length seg off len).ge⟩
    · exact h.rows k v hget
  · by_cases hk : (l', e') = (l, e)
    · cases hk
      rw [insertLocation, Table.get_put_self, Option.map_some, valueOf_serialize,
        Function.update_self]
    · rw [insertLocation, Table.get_put_ne _ _ (encodeKey_ne hk), Function.update_of_ne hk]
      exact h.value l' e'

theorem Encodes.delete (h : Encodes p live) (l e : UInt64) :
    Encodes (deleteLocation p l e) (Function.update live (l, e) none) := by
  refine ⟨fun k v hget => ?_, fun l' e' => ?_⟩
  · rw [deleteLocation, Table.get_del] at hget
    split_ifs at hget
    exact h.rows k v hget
  · by_cases hk : (l', e') = (l, e)
    · cases hk
      rw [deleteLocation, Table.get_del_self, Option.map_none, Function.update_self]
    · rw [deleteLocation, Table.get_del_ne _ (encodeKey_ne hk), Function.update_of_ne hk]
      exact h.value l' e'

end Rows

section Scan

theorem scanRows_ok (h : ∀ r ∈ rows,
    decodeKey r.1 = .ok (keyOf r.1) ∧ deserialize r.2 = .ok (valueOf r.2)) :
    scanRows rows = .ok (rows.map fun r => ((keyOf r.1).2, valueOf r.2)) := by
  induction rows with
  | nil => rfl
  | cons r rows ih =>
    obtain ⟨hk, hv⟩ := h r List.mem_cons_self
    rw [scanRows, hk, hv, ih fun r hr => h r (List.mem_cons_of_mem _ hr)]
    rfl

def ledgerRows (p : Locations) (l : UInt64) : List (UInt64 × IndexValue) :=
  (ledgerRange p l).map fun r => ((keyOf r.1).2, valueOf r.2)

theorem Encodes.mem_ledgerRange (h : Encodes p live) (l : UInt64) (k v : Bytes) :
    (k, v) ∈ ledgerRange p l ↔ p.get k = some v ∧ ∃ e, k = encodeKey l e := by
  have hbot : ∀ e : UInt64, 0 ≤ e := fun e => UInt64.le_iff_toNat_le.mpr (Nat.zero_le _)
  have htop : ∀ e : UInt64, e ≤ u64Max := fun e =>
    UInt64.le_iff_toNat_le.mpr (Nat.le_of_lt_succ e.toNat_lt)
  rw [ledgerRange, Table.mem_range]
  refine and_congr_right fun hget => ?_
  obtain ⟨⟨l', e, rfl⟩, -⟩ := h.rows k v hget
  rw [encodeKey_composite.between_iff hbot htop]
  constructor
  · rintro rfl
    exact ⟨e, rfl⟩
  · rintro ⟨e', heq⟩
    exact (encodeKey_inj.mp heq).1

theorem Encodes.mem_ledgerRows (h : Encodes p live) (l e : UInt64) (iv : IndexValue) :
    (e, iv) ∈ ledgerRows p l ↔ live (l, e) = some iv := by
  rw [← h.row_iff, ledgerRows, List.mem_map]
  constructor
  · rintro ⟨⟨k, v⟩, hmem, heq⟩
    obtain ⟨hget, e', rfl⟩ := (h.mem_ledgerRange l k v).mp hmem
    cases heq
    exact ⟨_, v, hget, by rw [keyOf_encodeKey], rfl⟩
  · rintro ⟨k, v, hget, hk, rfl⟩
    obtain ⟨⟨l', e', rfl⟩, -⟩ := h.rows k v hget
    rw [keyOf_encodeKey] at hk
    cases hk
    exact ⟨_, (h.mem_ledgerRange l _ v).mpr ⟨hget, e, rfl⟩, by rw [keyOf_encodeKey]⟩

theorem Encodes.ledgerRows_pairwise (h : Encodes p live) (l : UInt64) :
    (ledgerRows p l).Pairwise fun a b => a.1 < b.1 := by
  refine List.pairwise_map.mpr ((p.range_pairwise _ _).imp_of_mem fun {a b} ha hb hlt => ?_)
  obtain ⟨hgeta, e, hka⟩ := (h.mem_ledgerRange l a.1 a.2).mp ha
  obtain ⟨hgetb, e', hkb⟩ := (h.mem_ledgerRange l b.1 b.2).mp hb
  have hids := h.keyOf_lt hgeta hgetb hlt
  rw [hka, hkb, keyOf_encodeKey, keyOf_encodeKey] at hids ⊢
  exact hids.elim (fun hll => absurd hll Std.lt_irrefl) And.right

theorem Encodes.scan_eq (h : Encodes p live) (l : UInt64) :
    scanLedgerLocations p l = .ok (ledgerRows p l) :=
  scanRows_ok fun r hr => h.decodes ((h.mem_ledgerRange l r.1 r.2).mp hr).1

theorem Encodes.next_eq (h : Encodes p live) (l : UInt64) :
    getNextEntryId p l = .ok ((ledgerRows p l).getLast?.elim 0 fun r => r.1 + 1) := by
  rw [getNextEntryId, ledgerRows, List.getLast?_map]
  cases hlast : (ledgerRange p l).getLast? with
  | none => rfl
  | some r =>
    have hmem := (h.mem_ledgerRange l r.1 r.2).mp (List.mem_of_getLast? hlast)
    dsimp only
    rw [(h.decodes hmem.1).1]
    rfl

theorem Encodes.ledgerRows_congr (h : Encodes p live) (h' : Encodes p' live')
    (heq : ∀ e, live (l, e) = live' (l, e)) : ledgerRows p l = ledgerRows p' l := by
  have hanti : Std.Antisymm fun a b : UInt64 × IndexValue => a.1 < b.1 :=
    ⟨fun a b hab hba => absurd (Std.lt_trans hab hba) Std.lt_irrefl⟩
  have hirr : Std.Irrefl fun a b : UInt64 × IndexValue => a.1 < b.1 := ⟨fun _ => Std.lt_irrefl⟩
  refine (h.ledgerRows_pairwise l).eq_of_mem_iff (h'.ledgerRows_pairwise l) fun ⟨e, iv⟩ => ?_
  rw [h.mem_ledgerRows, h'.mem_ledgerRows, heq]

theorem Encodes.last_spec (h : Encodes p live) (l : UInt64) :
    ((ledgerRows p l).getLast? = none ∧ ∀ e, live (l, e) = none) ∨
      ∃ e iv, (ledgerRows p l).getLast? = some (e, iv) ∧ (live (l, e)).isSome ∧
        ∀ e', (live (l, e')).isSome → e' ≤ e := by
  cases hlast : (ledgerRows p l).getLast? with
  | none =>
    refine .inl ⟨rfl, fun e => Option.eq_none_iff_forall_ne_some.mpr fun iv hiv => ?_⟩
    have hmem := (h.mem_ledgerRows l e iv).mpr hiv
    rw [List.getLast?_eq_none_iff.mp hlast] at hmem
    cases hmem
  | some r =>
    obtain ⟨e, iv⟩ := r
    have hlive := (h.mem_ledgerRows l e iv).mp (List.mem_of_getLast? hlast)
    refine .inr ⟨e, iv, rfl, Option.isSome_iff_exists.mpr ⟨iv, hlive⟩, fun e' he' => ?_⟩
    obtain ⟨iv', hlive'⟩ := Option.isSome_iff_exists.mp he'
    have hmem := (h.mem_ledgerRows l e' iv').mpr hlive'
    obtain ⟨front, hfront⟩ := List.getLast?_eq_some_iff.mp hlast
    have hsorted := h.ledgerRows_pairwise l
    rw [hfront] at hmem hsorted
    rcases List.mem_append.mp hmem with hmem | hmem
    · exact Std.le_of_lt ((List.pairwise_append.mp hsorted).2.2 _ hmem _ List.mem_cons_self)
    · cases List.mem_singleton.mp hmem
      exact Std.le_refl _

theorem Encodes.next_spec (h : Encodes p live) (l : UInt64) :
    (getNextEntryId p l = .ok 0 ∧ ∀ e, live (l, e) = none) ∨
      ∃ e, getNextEntryId p l = .ok (e + 1) ∧ (live (l, e)).isSome ∧
        ∀ e', (live (l, e')).isSome → e' ≤ e := by
  rw [h.next_eq]
  rcases h.last_spec l with ⟨hlast, hnone⟩ | ⟨e, iv, hlast, hlive, hmax⟩
  · rw [hlast]
    exact .inl ⟨rfl, hnone⟩
  · rw [hlast]
    exact .inr ⟨e, rfl, hlive, hmax⟩

end Scan

section Tail
variable {p : Locations} {live : Live}

theorem inTail_iff (seg min : UInt64) (iv : IndexValue) :
    inTail seg min iv = true ↔ iv.segmentId = seg.toNat ∧ min.toNat ≤ iv.offset := by
  simp [inTail]

theorem tailKeys_ok (seg min : UInt64) (h : ∀ r ∈ rows,
    decodeKey r.1 = .ok (keyOf r.1) ∧ deserialize r.2 = .ok (valueOf r.2)) :
    tailKeys seg min rows =
      .ok ((rows.filter fun r => inTail seg min (valueOf r.2)).map fun r => keyOf r.1) := by
  induction rows with
  | nil => rfl
  | cons r rows ih =>
    obtain ⟨hk, hv⟩ := h r List.mem_cons_self
    have hrest := ih fun r hr => h r (List.mem_cons_of_mem _ hr)
    rw [tailKeys, hv, hk, hrest, List.filter_cons]
    change (if inTail seg min (valueOf r.2) = true then _ else _) = _
    split_ifs <;> rfl

theorem Encodes.deleteAll (h : Encodes p live) (keys : List Ids) :
    Encodes (keys.foldl (fun p k => deleteLocation p k.1 k.2) p)
      fun k => if k ∈ keys then none else live k := by
  induction keys generalizing p live with
  | nil => simpa using h
  | cons ids keys ih =>
    have hrest := ih (h.delete ids.1 ids.2)
    have heq : (fun k => if k ∈ keys then none else Function.update live ids none k) =
        fun k => if k ∈ ids :: keys then none else live k := by
      funext k
      by_cases hk : k = ids
      · simp [hk]
      · simp [hk]
    rwa [heq] at hrest

theorem filter_tail {seg min : UInt64} {keys : List Ids}
    (hmem : ∀ ids, ids ∈ keys ↔ ∃ iv, live ids = some iv ∧ inTail seg min iv = true) (ids : Ids) :
    ((live ids).filter fun iv => !inTail seg min iv) = if ids ∈ keys then none else live ids := by
  cases hlive : live ids with
  | none => simp
  | some iv =>
    have hin : ids ∈ keys ↔ inTail seg min iv = true := by
      rw [hmem, hlive]
      simp
    cases ht : inTail seg min iv with
    | true => simp [hin, ht, Option.filter_some]
    | false => simp [hin, ht, Option.filter_some]

def tailIds (p : Locations) (seg min : UInt64) : List Ids :=
  (p.ascending.filter fun r => inTail seg min (valueOf r.2)).map fun r => keyOf r.1

theorem Encodes.mem_tailIds (h : Encodes p live) (seg min : UInt64) (ids : Ids) :
    ids ∈ tailIds p seg min ↔ ∃ iv, live ids = some iv ∧ inTail seg min iv = true := by
  simp only [tailIds, List.mem_map, List.mem_filter, ← h.row_iff]
  constructor
  · rintro ⟨r, ⟨hr, htail⟩, hk⟩
    exact ⟨_, ⟨r.1, r.2, (p.mem_ascending r.1 r.2).mp hr, hk, rfl⟩, htail⟩
  · rintro ⟨iv, ⟨k, v, hget, hk, rfl⟩, htail⟩
    exact ⟨(k, v), ⟨(p.mem_ascending k v).mpr hget, htail⟩, hk⟩

theorem Encodes.tailIds_pairwise (h : Encodes p live) (seg min : UInt64) :
    (tailIds p seg min).Pairwise idsLt := by
  have hrows := p.ascending_pairwise.imp_of_mem fun {a b} ha hb hlt =>
    h.keyOf_lt ((p.mem_ascending a.1 a.2).mp ha) ((p.mem_ascending b.1 b.2).mp hb) hlt
  exact List.pairwise_map.mpr (hrows.filter _)

theorem Encodes.tail (h : Encodes p live) (seg min : UInt64) :
    ∃ p', deleteLocationsInSegmentTail p seg min = .ok (p', tailIds p seg min) ∧
      Encodes p' fun k => (live k).filter fun iv => !inTail seg min iv := by
  have hkeys := tailKeys_ok seg min fun r hr => h.decodes ((p.mem_ascending r.1 r.2).mp hr)
  refine ⟨_, by rw [deleteLocationsInSegmentTail, hkeys]; rfl, ?_⟩
  rw [funext (filter_tail (h.mem_tailIds seg min))]
  exact h.deleteAll (tailIds p seg min)

end Tail

section Queries

theorem Encodes.perform {p : Locations} {live : Live} (h : Encodes p live) (op : LocationOp) :
    ∃ p', perform p op = .ok p' ∧ Encodes p' (liveAfter live op) := by
  cases op with
  | insert l e seg off len => exact ⟨_, rfl, h.insert l e seg off len⟩
  | delete l e => exact ⟨_, rfl, h.delete l e⟩
  | deleteTail seg min =>
    obtain ⟨p', hok, henc⟩ := h.tail seg min
    exact ⟨p', by rw [LedgerRanges.perform, hok]; rfl, henc⟩

theorem Encodes.performAll {p : Locations} {live : Live} (h : Encodes p live)
    (ops : List LocationOp) :
    ∃ p', performAll p ops = .ok p' ∧ Encodes p' (ops.foldl liveAfter live) := by
  induction ops generalizing p live with
  | nil => exact ⟨p, rfl, h⟩
  | cons op ops ih =>
    obtain ⟨p₁, hop, h₁⟩ := h.perform op
    obtain ⟨p', hops, h'⟩ := ih h₁
    exact ⟨p', by rw [LedgerRanges.performAll, hop]; exact hops, h'⟩

theorem Encodes.queries_congr (h : Encodes p live)
    (h' : Encodes p' live') (heq : ∀ e, live' (l, e) = live (l, e)) :
    scanLedgerLocations p' l = scanLedgerLocations p l ∧
      getNextEntryId p' l = getNextEntryId p l := by
  rw [h.scan_eq, h'.scan_eq, h.next_eq, h'.next_eq, h'.ledgerRows_congr h heq]
  exact ⟨rfl, rfl⟩

/-- After any history of calls the queries of the partition are exact. -/
theorem ledger_range_queries_exact (ops : List LocationOp) :
    ∃ p, performAll .empty ops = .ok p ∧
      (∀ l e, getLocation p l e = .ok (liveOf ops (l, e))) ∧
      (∀ l, ∃ out, scanLedgerLocations p l = .ok out ∧ out.Pairwise (fun a b => a.1 < b.1) ∧
        ∀ e iv, (e, iv) ∈ out ↔ liveOf ops (l, e) = some iv) ∧
      (∀ l, getNextEntryId p l = .ok 0 ∧ (∀ e, liveOf ops (l, e) = none) ∨
        ∃ next e, getNextEntryId p l = .ok next ∧ (liveOf ops (l, e)).isSome ∧
          (∀ e', (liveOf ops (l, e')).isSome → e' ≤ e) ∧
          (e.toNat + 1 < 2 ^ 64 → next.toNat = e.toNat + 1)) ∧
      (∀ s m, ∃ p' keys, deleteLocationsInSegmentTail p s m = .ok (p', keys) ∧
        keys.Pairwise idsLt ∧
        (∀ ids, ids ∈ keys ↔ ∃ iv, liveOf ops ids = some iv ∧
          iv.segmentId = s.toNat ∧ m.toNat ≤ iv.offset) ∧
        (∀ l e, getLocation p' l e = .ok (if (l, e) ∈ keys then none else liveOf ops (l, e))) ∧
        ∀ l, (∀ e, (l, e) ∉ keys) → scanLedgerLocations p' l = scanLedgerLocations p l ∧
          getNextEntryId p' l = getNextEntryId p l) ∧
      ∀ l l', l' ≠ l → ∀ e,
        (∀ s off len, scanLedgerLocations (insertLocation p l e s off len) l' =
            scanLedgerLocations p l' ∧
          getNextEntryId (insertLocation p l e s off len) l' = getNextEntryId p l') ∧
        scanLedgerLocations (deleteLocation p l e) l' = scanLedgerLocations p l' ∧
        getNextEntryId (deleteLocation p l e) l' = getNextEntryId p l' := by
  obtain ⟨p, hp, h⟩ := encodes_empty.performAll ops
  refine ⟨p, hp, h.getLocation, fun l => ?_, fun l => ?_, fun s m => ?_, fun l l' hne e => ?_⟩
  · exact ⟨_, h.scan_eq l, h.ledgerRows_pairwise l, h.mem_ledgerRows l⟩
  · refine (h.next_spec l).imp_right ?_
    rintro ⟨e, hnext, hlive, hmax⟩
    refine ⟨e + 1, e, hnext, hlive, hmax, fun hlt => ?_⟩
    rw [UInt64.toNat_add]
    exact Nat.mod_eq_of_lt hlt
  · obtain ⟨p', hok, henc⟩ := h.tail s m
    have hcut := filter_tail (h.mem_tailIds s m)
    refine ⟨p', _, hok, h.tailIds_pairwise s m, fun ids => ?_, fun l e => ?_, fun l hl => ?_⟩
    · rw [h.mem_tailIds]
      simp only [inTail_iff]
      rfl
    · rw [henc.getLocation, hcut]
      rfl
    · exact h.queries_congr henc fun e => (hcut (l, e)).trans (if_neg (hl e))
  · have hoff : ∀ e', (l', e') ≠ (l, e) := fun e' heq => hne (congrArg Prod.fst heq)
    have hdel := h.queries_congr (h.delete l e) fun e' => Function.update_of_ne (hoff e') _ _
    refine ⟨fun s off len => ?_, hdel⟩
    exact h.queries_congr (h.insert l e s off len) fun e' => Function.update_of_ne (hoff e') _ _

-- the unit test of the source: entry 3 lies in another segment
example :
    (do
      let p ← performAll .empty [.insert 1 0 4 0 10, .insert 1 1 4 100 10, .insert 1 2 4 200 10,
        .insert 1 3 5 0 10]
      let (p, removed) ← deleteLocationsInSegmentTail p 4 100
      let left ← scanLedgerLocations p 1
      pure (removed, left.map Prod.fst)) = .ok ([(1, 1), (1, 2)], [0, 3]) := by
  decide +kernel

end Queries

section Refinement
variable {p : Locations} {x : FjallIndex}

def view (x : FjallIndex) : Live := fun ids => x.getLocation (ids.1.toNat, ids.2.toNat)

def indexAfter (x : FjallIndex) : LocationOp → FjallIndex
  | .insert ledgerId entryId segmentId offset length =>
    x.insertLocation (ledgerId.toNat, entryId.toNat) segmentId.toNat offset.toNat length.toNat
  | .delete ledgerId entryId => x.deleteLocation (ledgerId.toNat, entryId.toNat)
  | .deleteTail segmentId minOffset =>
    (x.deleteLocationsInSegmentTail segmentId.toNat minOffset.toNat).1

theorem toNat_pair_inj {a b : Ids} :
    (a.1.toNat, a.2.toNat) = (b.1.toNat, b.2.toNat) ↔ a = b := by
  rw [Prod.mk.injEq, UInt64.toNat_inj, UInt64.toNat_inj, Prod.ext_iff]

theorem view_indexAfter (x : FjallIndex) (op : LocationOp) :
    view (indexAfter x op) = liveAfter (view x) op := by
  funext ids
  cases op with
  | insert l e seg off len =>
    have hiff := toNat_pair_inj (a := ids) (b := (l, e))
    simp only [view, indexAfter, liveAfter, FjallIndex.getLocation_insert,
      Function.update_apply, hiff]
  | delete l e =>
    have hiff := toNat_pair_inj (a := ids) (b := (l, e))
    simp only [view, indexAfter, liveAfter, FjallIndex.getLocation_delete,
      Function.update_apply, hiff]
  | deleteTail seg min => exact FjallIndex.getLocation_deleteTail x seg.toNat min.toNat _

theorem segmentIdsOf_ok (h : ∀ r ∈ rows, deserialize r.2 = .ok (valueOf r.2)) :
    segmentIdsOf rows = .ok (rows.map fun r => (valueOf r.2).segmentId) := by
  induction rows with
  | nil => rfl
  | cons r rows ih =>
    rw [segmentIdsOf, h r List.mem_cons_self, ih fun r hr => h r (List.mem_cons_of_mem _ hr)]
    rfl

/-- The bytes of an index: its rows are those of the partition, and no other id is in it. -/
structure Represents (p : Locations) (x : FjallIndex) : Prop where
  encodes : Encodes p (view x)
  bounded : ∀ k, (x.getLocation k).isSome → ∃ ids : Ids, k = (ids.1.toNat, ids.2.toNat)

theorem Represents.perform (h : Represents p x) (op : LocationOp) :
    ∃ p', perform p op = .ok p' ∧ Represents p' (indexAfter x op) := by
  obtain ⟨p', hop, henc⟩ := h.encodes.perform op
  refine ⟨p', hop, by rw [view_indexAfter]; exact henc, fun k hk => ?_⟩
  cases op with
  | insert l e seg off len =>
    rw [indexAfter, FjallIndex.getLocation_insert] at hk
    split_ifs at hk with heq
    · exact ⟨(l, e), heq⟩
    · exact h.bounded k hk
  | delete l e =>
    rw [indexAfter, FjallIndex.getLocation_delete] at hk
    split_ifs at hk
    · cases hk
    · exact h.bounded k hk
  | deleteTail seg min =>
    rw [indexAfter, FjallIndex.getLocation_deleteTail] at hk
    exact h.bounded k (Option.isSome_of_isSome_filter _ _ hk)

theorem partition_represents_index (ops : List LocationOp) :
    ∃ p, performAll .empty ops = .ok p ∧ Represents p (ops.foldl indexAfter .empty) := by
  suffices ∀ p x, Represents p x →
      ∃ p', performAll p ops = .ok p' ∧ Represents p' (ops.foldl indexAfter x) from
    this _ _ ⟨encodes_empty, nofun⟩
  induction ops with
  | nil => exact fun p x h => ⟨p, rfl, h⟩
  | cons op ops ih =>
    intro p x h
    obtain ⟨p₁, hop, h₁⟩ := h.perform op
    obtain ⟨p', hops, h'⟩ := ih p₁ _ h₁
    exact ⟨p', by rw [performAll, hop]; exact hops, h'⟩

section Queries
variable (h : Represents p x)
include h

theorem Represents.named {id : Nat} (hid : (x.getLocation (l.toNat, id)).isSome) :
    ∃ e : UInt64, id = e.toNat ∧ (view x (l, e)).isSome := by
  obtain ⟨⟨l', e⟩, hk⟩ := h.bounded _ hid
  obtain ⟨-, rfl⟩ := Prod.ext_iff.mp hk
  exact ⟨e, rfl, hid⟩

theorem Represents.next (l : UInt64) :
    getNextEntryId p l = .ok (.ofNat (x.getNextEntryId l.toNat)) := by
  unfold FjallIndex.getNextEntryId
  rcases h.encodes.next_spec l with ⟨hnext, hnone⟩ | ⟨e, hnext, hlive, hmax⟩
  · have hempty : (x.locations.keys.filter fun k => k.1 == l.toNat).map Prod.snd = [] := by
      refine List.eq_nil_iff_forall_not_mem.mpr fun id hid => ?_
      obtain ⟨e, -, hview⟩ := h.named ((x.mem_indexIds l.toNat id).mp hid)
      rw [hnone e] at hview
      cases hview
    rw [hnext, hempty]
    rfl
  · have hlast : ((x.locations.keys.filter fun k => k.1 == l.toNat).map Prod.snd).max? =
        some e.toNat := by
      have hmem := (x.mem_indexIds l.toNat e.toNat).mpr hlive
      refine List.max?_eq_some_iff.mpr ⟨hmem, fun id hid => ?_⟩
      obtain ⟨e', rfl, hview⟩ := h.named ((x.mem_indexIds l.toNat id).mp hid)
      exact UInt64.le_iff_toNat_le.mp (hmax e' hview)
    have hsum : e + 1 = .ofNat ((e.toNat + 1) % 2 ^ 64) := by
      rw [← UInt64.toNat_inj, UInt64.toNat_add, UInt64.toNat_ofNat', Nat.mod_mod]
      rfl
    rw [hnext, hlast, hsum]

theorem Represents.scan (l : UInt64) : ∃ rows, scanLedgerLocations p l = .ok rows ∧
    (rows.map fun r => (r.1.toNat, r.2)).Pairwise (fun a b => a.1 < b.1) ∧
    (rows.map fun r => (r.1.toNat, r.2)).Perm (x.scanLedgerLocations l.toNat) := by
  have hsorted : ((ledgerRows p l).map fun r => (r.1.toNat, r.2)).Pairwise
      (fun a b => a.1 < b.1) :=
    List.pairwise_map.mpr ((h.encodes.ledgerRows_pairwise l).imp UInt64.lt_iff_toNat_lt.mp)
  refine ⟨_, h.encodes.scan_eq l, hsorted, ?_⟩
  have hnodup : ((ledgerRows p l).map fun r => (r.1.toNat, r.2)).Nodup := by
    refine hsorted.imp fun hlt heq => ?_
    rw [heq] at hlt
    exact Nat.lt_irrefl _ hlt
  refine (List.perm_ext_iff_of_nodup hnodup (x.scanLedgerLocations_nodup _)).mpr ?_
  rintro ⟨id, iv⟩
  rw [x.mem_scanLedgerLocations, List.mem_map]
  constructor
  · rintro ⟨⟨e, iv⟩, hmem, heq⟩
    cases heq
    exact (h.encodes.mem_ledgerRows l e iv).mp hmem
  · intro hget
    obtain ⟨e, rfl, -⟩ := h.named (Option.isSome_iff_exists.mpr ⟨iv, hget⟩)
    exact ⟨(e, iv), (h.encodes.mem_ledgerRows l e iv).mpr hget, rfl⟩

theorem Represents.tail (seg min : UInt64) : ∃ p' keys,
    deleteLocationsInSegmentTail p seg min = .ok (p', keys) ∧
      ∀ k, k ∈ (x.deleteLocationsInSegmentTail seg.toNat min.toNat).2 ↔
        ∃ ids ∈ keys, k = (ids.1.toNat, ids.2.toNat) := by
  obtain ⟨p', hok, -⟩ := h.encodes.tail seg min
  refine ⟨p', _, hok, fun k => ?_⟩
  have hindex : k ∈ (x.deleteLocationsInSegmentTail seg.toNat min.toNat).2 ↔
      ∃ iv, x.getLocation k = some iv ∧ inTail seg min iv = true := by
    change k ∈ (x.locations.filter _).keys ↔ _
    rw [Table.mem_keys_iff]
    simp [Table.get_filter, FjallIndex.getLocation, FjallIndex.inTail, inTail]
  simp only [hindex, h.encodes.mem_tailIds]
  constructor
  · rintro ⟨iv, hget, htail⟩
    obtain ⟨ids, rfl⟩ := h.bounded k (Option.isSome_iff_exists.mpr ⟨iv, hget⟩)
    exact ⟨ids, ⟨iv, hget, htail⟩, rfl⟩
  · rintro ⟨ids, hlive, rfl⟩
    exact hlive

theorem Represents.referenced : ∃ ids, referencedSegmentIds p = .ok ids ∧
    ∀ s, s ∈ ids ↔ s ∈ x.referencedSegmentIds := by
  refine ⟨_, segmentIdsOf_ok fun r hr =>
    (h.encodes.decodes ((p.mem_ascending r.1 r.2).mp hr)).2, fun s => ?_⟩
  simp only [FjallIndex.referencedSegmentIds, List.mem_map, Table.mem_values_iff]
  constructor
  · rintro ⟨r, hr, rfl⟩
    have hlive := (h.encodes.row_iff (keyOf r.1) (valueOf r.2)).mp
      ⟨r.1, r.2, (p.mem_ascending r.1 r.2).mp hr, rfl, rfl⟩
    exact ⟨valueOf r.2, ⟨_, hlive⟩, rfl⟩
  · rintro ⟨iv, ⟨k, hget⟩, rfl⟩
    obtain ⟨ids, rfl⟩ := h.bounded k (Option.isSome_iff_exists.mpr ⟨iv, hget⟩)
    obtain ⟨k, v, hrow, -, rfl⟩ := (h.encodes.row_iff ids iv).mpr hget
    exact ⟨(k, v), (p.mem_ascending k v).mpr hrow, rfl⟩

end Queries
end Refinement
end Folio.LedgerRanges
