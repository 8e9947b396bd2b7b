import Folio.ReplayEffect
import Folio.WalSession

/-! The registry, the WAL files and the locations agree as long as every boot starts
without a registry row for `active.seg`. -/
namespace Folio.WalInvariant
open KeyedTable Protocol Fjall Segment RecoveryScan CrashRecovery Journal ScanLocality ReplayEffect
open WalSession
variable (crc32 : Bytes → UInt32)

def Sealed (st : Store) (id : SegmentId) : Prop :=
  ∃ m, st.walRegistry.get id = some m ∧ m.localPath = some (.sealedSeg id)

/-- The part of the invariant that only looks at the store; `c` is the id of the segment
`active.seg` belongs to. -/
structure StoreInv (c : SegmentId) (st : Store) : Prop where
  rows : ∀ id m, st.walRegistry.get id = some m → m.id = id ∧ live m ∧
    (m.localPath = some (.sealedSeg id) ∨ id = c ∧ m.localPath = some .activeSeg)
  upto : ∀ id m, st.walRegistry.get id = some m → id ≤ c
  below : ∀ id, id < c → ∃ m, st.walRegistry.get id = some m
  fileRow : ∀ id data, st.files.get (.sealedSeg id) = some data →
    ∃ m, st.walRegistry.get id = some m
  locs : ∀ k iv, st.walIndex.getLocation k = some iv → Sealed st iv.segmentId ∧
    ∃ data r n, st.files.get (.sealedSeg iv.segmentId) = some data ∧
      decodeRecord crc32 data iv.offset = .ok (r, n) ∧ r.key = k ∧
      iv.offset + n ≤ st.walIndex.getCheckpoint iv.segmentId
  checkpoints : ∀ id, st.walIndex.getCheckpoint id = 0 ∨ Sealed st id ∧
    ∃ data, st.files.get (.sealedSeg id) = some data ∧
      st.walIndex.getCheckpoint id ≤ data.length

def Blank (st : Store) : Prop := (st.files.get .activeSeg).getD [] = []

structure Booting (c : SegmentId) (st : Store) : Prop where
  blank : Blank st
  noFile : st.files.get (.sealedSeg c) = none
  notSealed : ¬ Sealed st c

def ActiveRow (c : SegmentId) (st : Store) : Prop :=
  ∃ m, st.walRegistry.get c = some m ∧ live m ∧ m.localPath = some .activeSeg

def PcInv (c : SegmentId) (s : State) : Prop :=
  match s.journal with
  | .down => NoActiveRow s.store.walRegistry → Blank s.store
  | .opened id | .resumed id _ | .created id _ => id = c ∧ Booting c s.store
  | .ready id _ => id = c ∧ ActiveRow c s.store ∧ s.store.files.get (.sealedSeg c) = none ∧
      (s.recovery ≠ .finished → Blank s.store)
  | .renamed id => id = c ∧ ActiveRow c s.store ∧ s.store.files.get .activeSeg = none ∧
      (∃ data, s.store.files.get (.sealedSeg c) = some data) ∧ s.recovery = .finished
  | .upserted id | .reopened id => id = c ∧ Sealed s.store c ∧ Blank s.store ∧
      s.recovery = .finished

def TodoInv (c : SegmentId) (s : State) : Prop :=
  ∀ todo, s.recovery = .replaying todo → s.journal ≠ .down ∧
    ∀ m ∈ todo, (m.id < c ∧ m.localPath = some (.sealedSeg m.id)) ∨
      m.id = c ∧ m.localPath = some .activeSeg

structure Inv (c : SegmentId) (s : State) : Prop where
  store : StoreInv crc32 c s.store
  pc : PcInv c s
  todo : TodoInv c s

section StoreSteps
variable {crc32} {c : SegmentId} {st st' : Store} {id : SegmentId}

theorem StoreInv.frame (h : StoreInv crc32 c st) (hreg : st'.walRegistry = st.walRegistry)
    (hfiles : ∀ id, st'.files.get (.sealedSeg id) = st.files.get (.sealedSeg id))
    (hcp : ∀ id, st'.walIndex.getCheckpoint id = st.walIndex.getCheckpoint id)
    (hloc : ∀ k iv, st'.walIndex.getLocation k = some iv → st.walIndex.getLocation k = some iv) :
    StoreInv crc32 c st' where
  rows := by rw [hreg]; exact h.rows
  upto := by rw [hreg]; exact h.upto
  below := by rw [hreg]; exact h.below
  fileRow id data hd := by rw [hreg]; exact h.fileRow id data (by rw [← hfiles, hd])
  locs k iv hk := by
    simp only [Sealed, hreg, hfiles, hcp]
    exact h.locs k iv (hloc k iv hk)
  checkpoints id := by
    simp only [Sealed, hreg, hfiles, hcp]
    exact h.checkpoints id

theorem StoreInv.sameWal (h : StoreInv crc32 c st) (hw : SameWal st st') :
    StoreInv crc32 c st' :=
  h.frame hw.registry (fun id => hw.files _ (by simp)) (fun _ => by rw [hw.index])
    (fun k iv hk => by rwa [hw.index] at hk)

theorem not_sealed_of_active (h : ActiveRow c st) : ¬ Sealed st c := by
  rintro ⟨m, hm, hpath⟩
  obtain ⟨m', hm', -, hpath'⟩ := h
  rw [hm, Option.some.injEq] at hm'
  subst hm'
  rw [hpath] at hpath'
  cases hpath'

theorem StoreInv.sealed_of_lt (h : StoreInv crc32 c st) (hlt : id < c) : Sealed st id := by
  obtain ⟨m, hm⟩ := h.below id hlt
  refine ⟨m, hm, (h.rows id m hm).2.2.resolve_right fun hc => ?_⟩
  exact absurd hc.1 (Nat.ne_of_lt hlt)

theorem StoreInv.checkpoint_zero (h : StoreInv crc32 c st)
    (hs : ¬ Sealed st id) : st.walIndex.getCheckpoint id = 0 :=
  (h.checkpoints id).resolve_right fun hc => hs hc.1

theorem StoreInv.below_index (h : StoreInv crc32 c st) : Below st.walIndex := by
  intro k iv hk
  obtain ⟨-, data, r, n, -, hd, -, hle⟩ := h.locs k iv hk
  have := (decode_len crc32 hd).1
  omega

theorem StoreInv.openNext (h : StoreInv crc32 c st) (hno : NoActiveRow st.walRegistry) :
    StoreInv crc32 (nextWalSegmentId st.files st.walRegistry) st ∧
      st.files.get (.sealedSeg (nextWalSegmentId st.files st.walRegistry)) = none ∧
      st.walRegistry.get (nextWalSegmentId st.files st.walRegistry) = none := by
  have hsealed : ∀ id m, st.walRegistry.get id = some m → m.localPath = some (.sealedSeg id) := by
    intro id m hm
    obtain ⟨-, hlive, hs | ⟨-, hact⟩⟩ := h.rows id m hm
    · exact hs
    · exact absurd hact (hno m ((Table.mem_values_iff _ _).mpr ⟨id, hm⟩) hlive)
  have hnext := lt_nextWalSegmentId_iff st.files st.walRegistry
  generalize nextWalSegmentId st.files st.walRegistry = n at *
  refine ⟨{ h with
    rows := fun id m hm => ⟨(h.rows id m hm).1, (h.rows id m hm).2.1, .inl (hsealed id m hm)⟩
    upto := fun id m hm => Nat.le_of_lt ((hnext id).mpr ⟨id, Nat.le_refl _, .inr ⟨m, hm⟩⟩)
    below := fun id hid => ?_ }, ?_, ?_⟩
  · obtain ⟨j, hle, hj⟩ := (hnext id).mp hid
    have hrow : ∃ m, st.walRegistry.get j = some m := by
      rcases hj with ⟨data, hd⟩ | hj
      · exact h.fileRow j data hd
      · exact hj
    rcases Nat.lt_or_eq_of_le hle with hlt | rfl
    · obtain ⟨m, hm⟩ := hrow
      exact h.below id (Nat.lt_of_lt_of_le hlt (h.upto j m hm))
    · exact hrow
  · cases hd : st.files.get (.sealedSeg n) with
    | none => rfl
    | some data =>
      exact absurd ((hnext n).mpr ⟨n, Nat.le_refl _, .inl ⟨data, hd⟩⟩) (Nat.lt_irrefl n)
  · cases hm : st.walRegistry.get n with
    | none => rfl
    | some m => exact absurd ((hnext n).mpr ⟨n, Nat.le_refl _, .inr ⟨m, hm⟩⟩) (Nat.lt_irrefl n)

theorem StoreInv.putActive (h : StoreInv crc32 c st) {m : SegmentMeta} (hid : m.id = c)
    (hlive : live m) (hpath : m.localPath = some .activeSeg)
    (hnone : st.files.get (.sealedSeg c) = none) :
    StoreInv crc32 c { st with walRegistry := st.walRegistry.put c m } := by
  have hkeep : ∀ id, (∃ data, st.files.get (.sealedSeg id) = some data) → id ≠ c := by
    rintro id ⟨data, hd⟩ rfl
    rw [hnone] at hd
    cases hd
  have hsealed : ∀ id, id ≠ c → Sealed st id →
      Sealed { st with walRegistry := st.walRegistry.put c m } id := by
    rintro id hne ⟨m', hm', hp'⟩
    exact ⟨m', by rw [Table.get_put_ne _ _ hne, hm'], hp'⟩
  refine { rows := ?_, upto := ?_, below := ?_, fileRow := ?_, locs := ?_, checkpoints := ?_ }
  · intro id m' hm'
    dsimp only at hm'
    rw [Table.get_put] at hm'
    split_ifs at hm' with hc
    · cases hm'
      exact ⟨hid.trans hc.symm, hlive, .inr ⟨hc, hpath⟩⟩
    · exact h.rows id m' hm'
  · intro id m' hm'
    dsimp only at hm'
    rw [Table.get_put] at hm'
    split_ifs at hm' with hc
    · exact Nat.le_of_eq hc
    · exact h.upto id m' hm'
  · intro id hlt
    obtain ⟨m', hm'⟩ := h.below id hlt
    exact ⟨m', by rw [Table.get_put_ne _ _ (Nat.ne_of_lt hlt), hm']⟩
  · intro id data hd
    obtain ⟨m', hm'⟩ := h.fileRow id data hd
    exact ⟨m', by rw [Table.get_put_ne _ _ (hkeep id ⟨data, hd⟩), hm']⟩
  · intro k iv hk
    obtain ⟨hs, data, r, n, hd, hrest⟩ := h.locs k iv hk
    exact ⟨hsealed _ (hkeep _ ⟨data, hd⟩) hs, data, r, n, hd, hrest⟩
  · intro id
    refine (h.checkpoints id).imp_right ?_
    rintro ⟨hs, data, hd, hle⟩
    exact ⟨hsealed _ (hkeep _ ⟨data, hd⟩) hs, data, hd, hle⟩

theorem StoreInv.rename (h : StoreInv crc32 c st) (hrow : ActiveRow c st)
    {files : Table SegPath Bytes} (hr : renameActive st.files c = some files) :
    StoreInv crc32 c { st with files } ∧ files.get .activeSeg = none ∧
      ∃ data, st.files.get .activeSeg = some data ∧ files.get (.sealedSeg c) = some data := by
  obtain ⟨data, hdata, rfl⟩ := Option.map_eq_some_iff.mp hr
  have hns := not_sealed_of_active hrow
  have hother : ∀ id, id ≠ c →
      ((st.files.del .activeSeg).put (.sealedSeg c) data).get (.sealedSeg id) =
        st.files.get (.sealedSeg id) := by
    intro id hne
    rw [Table.get_put_ne _ _ (by simpa using hne), Table.get_del_ne _ (by simp)]
  refine ⟨{ h with fileRow := ?_, locs := ?_, checkpoints := ?_ }, ?_, data, hdata,
    Table.get_put_self _ _ _⟩
  · intro id d hd
    by_cases hc : id = c
    · obtain ⟨m, hm, -⟩ := hrow
      exact ⟨m, hc ▸ hm⟩
    · dsimp only at hd
      rw [hother id hc] at hd
      exact h.fileRow id d hd
  · intro k iv hk
    obtain ⟨hs, d, r, n, hd, hrest⟩ := h.locs k iv hk
    have hne : iv.segmentId ≠ c := fun hc => hns (hc ▸ hs)
    exact ⟨hs, d, r, n, by rw [hother _ hne, hd], hrest⟩
  · intro id
    refine (h.checkpoints id).imp_right ?_
    rintro ⟨hs, d, hd, hle⟩
    have hne : id ≠ c := fun hc => hns (hc ▸ hs)
    exact ⟨hs, d, by rw [hother _ hne, hd], hle⟩
  · rw [Table.get_put_ne _ _ (by simp), Table.get_del_self]

theorem StoreInv.upsertSealed (h : StoreInv crc32 c st) (hrow : ActiveRow c st) :
    StoreInv crc32 c { st with walRegistry := registerSealed st.files st.walRegistry c } ∧
      Sealed { st with walRegistry := registerSealed st.files st.walRegistry c } c := by
  have hns := not_sealed_of_active hrow
  have hget : ∀ id, (registerSealed st.files st.walRegistry c).get id =
      if id = c then some ⟨c, .Wal, .Local, some (.sealedSeg c), none,
        ((st.files.get (.sealedSeg c)).map List.length).getD 0⟩
      else st.walRegistry.get id := fun id => Table.get_put _ _ _ _
  have hkeep : ∀ id, Sealed st id →
      Sealed { st with walRegistry := registerSealed st.files st.walRegistry c } id := by
    rintro id ⟨m, hm, hp⟩
    have hne : id ≠ c := fun hc => hns (hc ▸ ⟨m, hm, hp⟩)
    exact ⟨m, by rw [hget, if_neg hne, hm], hp⟩
  refine ⟨{ rows := ?_, upto := ?_, below := ?_, fileRow := ?_, locs := ?_, checkpoints := ?_ },
    _, by rw [hget, if_pos rfl], rfl⟩
  · intro id m hm
    rw [hget] at hm
    split_ifs at hm with hc
    · cases hm
      exact ⟨hc.symm, .inl rfl, .inl (by rw [hc])⟩
    · exact h.rows id m hm
  · intro id m hm
    rw [hget] at hm
    split_ifs at hm with hc
    · exact Nat.le_of_eq hc
    · exact h.upto id m hm
  · intro id hlt
    rw [hget, if_neg (Nat.ne_of_lt hlt)]
    exact h.below id hlt
  · intro id data hd
    rw [hget]
    split_ifs
    · exact ⟨_, rfl⟩
    · exact h.fileRow id data hd
  · intro k iv hk
    obtain ⟨hs, hrest⟩ := h.locs k iv hk
    exact ⟨hkeep _ hs, hrest⟩
  · intro id
    exact (h.checkpoints id).imp_right (And.imp_left (hkeep id))

theorem StoreInv.advance (h : StoreInv crc32 c st) (hs : Sealed st c) :
    StoreInv crc32 (c + 1) st ∧ st.files.get (.sealedSeg (c + 1)) = none := by
  obtain ⟨m, hm, hp⟩ := hs
  refine ⟨{ h with rows := ?_, upto := ?_, below := ?_ }, ?_⟩
  · intro id m' hm'
    refine ⟨(h.rows id m' hm').1, (h.rows id m' hm').2.1, ?_⟩
    rcases (h.rows id m' hm').2.2 with hs | ⟨hc, hact⟩
    · exact .inl hs
    · subst hc
      rw [hm, Option.some.injEq] at hm'
      subst hm'
      rw [hp] at hact
      cases hact
  · exact fun id m' hm' => (h.upto id m' hm').trans (Nat.le_succ c)
  · intro id hlt
    rcases Nat.lt_or_eq_of_le (Nat.le_of_lt_succ hlt) with hlt | rfl
    · exact h.below id hlt
    · exact ⟨m, hm⟩
  · cases hd : st.files.get (.sealedSeg (c + 1)) with
    | none => rfl
    | some data =>
      obtain ⟨m', hm'⟩ := h.fileRow _ data hd
      exact absurd (h.upto _ m' hm') (Nat.not_succ_le_self c)

section ReplaySealed
variable {id : SegmentId} {data : Bytes} {fuel : Nat} {e : ScanEnd (List Visit)}

theorem StoreInv.scan_fits (h : StoreInv crc32 c st)
    (hfile : st.files.get (.sealedSeg id) = some data)
    (he : scan crc32 data fuel (st.walIndex.getCheckpoint id) (st.walIndex.getCheckpoint id) =
      some e) : e.lastValid ≤ data.length := by
  rcases scan_lastValid_cases crc32 he with ⟨-, hl⟩ | hl
  · rcases h.checkpoints id with hz | ⟨-, d, hd, hle⟩
    · omega
    · rw [hfile, Option.some.injEq] at hd
      subst hd
      omega
  · exact hl.2

theorem Sealed.replayed {j : SegmentId} (hs : Sealed st j)
    (hreg : st'.walRegistry = st.walRegistry) : Sealed st' j := by
  obtain ⟨m, hm, hp⟩ := hs
  exact ⟨m, by rw [hreg, hm], hp⟩

theorem StoreInv.replayed_loc (h : StoreInv crc32 c st)
    (hfile : st.files.get (.sealedSeg id) = some data)
    (he : scan crc32 data fuel (st.walIndex.getCheckpoint id) (st.walIndex.getCheckpoint id) =
      some e) (eff : Effect st st' id (.sealedSeg id) data e) (hs : Sealed st id) {k : Key}
    {iv : IndexValue} (hk : st'.walIndex.getLocation k = some iv) :
    Sealed st iv.segmentId ∧
      ∃ data' r n, st'.files.get (.sealedSeg iv.segmentId) = some data' ∧
        decodeRecord crc32 data' iv.offset = .ok (r, n) ∧ r.key = k ∧
        iv.offset + n ≤ st'.walIndex.getCheckpoint iv.segmentId := by
  have hlast := scan_lastValid_ge crc32 (Nat.le_refl _) he
  obtain ⟨data', hdata', hfront, -⟩ := eff.front hfile (h.scan_fits hfile he)
  rw [eff.checkpoint]
  rcases eff.origin k iv hk with hold | ⟨v, hv, hkey, hid, hoff⟩
  · obtain ⟨hs', d, r, n, hd, hdec, hkey, hle⟩ := h.locs k iv hold
    refine ⟨hs', ?_⟩
    by_cases hid : iv.segmentId = id
    · rw [hid, hfile, Option.some.injEq] at hd
      subst hd
      rw [hid] at hle
      rw [if_pos hid, hid]
      exact ⟨data', r, n, hdata', decode_congr crc32 hfront (by omega) hdec, hkey, by omega⟩
    · rw [if_neg hid, eff.other_file (by simpa using hid)]
      exact ⟨d, r, n, hd, hdec, hkey, hle⟩
  · have hv := scan_sound crc32 he v hv
    rw [if_pos hid, hid, hoff]
    exact ⟨hs, data', v.record, v.len, hdata', decode_congr crc32 hfront hv.2.1 hv.2.2, hkey,
      hv.2.1⟩

theorem StoreInv.replaySealed (h : StoreInv crc32 c st) (hs : Sealed st id)
    (hfile : st.files.get (.sealedSeg id) = some data)
    (he : scan crc32 data fuel (st.walIndex.getCheckpoint id) (st.walIndex.getCheckpoint id) =
      some e) (eff : Effect st st' id (.sealedSeg id) data e) :
    StoreInv crc32 c st' ∧ st'.files.get .activeSeg = st.files.get .activeSeg := by
  have hreg := eff.registry
  obtain ⟨data', hdata', -, hlen'⟩ := eff.front hfile (h.scan_fits hfile he)
  refine ⟨{ rows := ?_, upto := ?_, below := ?_, fileRow := ?_, locs := ?_, checkpoints := ?_ },
    eff.other_file (by simp)⟩
  · rw [hreg]; exact h.rows
  · rw [hreg]; exact h.upto
  · rw [hreg]; exact h.below
  · intro j d hd
    rw [hreg]
    by_cases hj : j = id
    · exact h.fileRow j data (by rw [hj, hfile])
    · exact h.fileRow j d (by rw [← eff.other_file (by simpa using hj), hd])
  · exact fun k iv hk => (h.replayed_loc hfile he eff hs hk).imp_left (·.replayed hreg)
  · intro j
    rw [eff.checkpoint]
    by_cases hj : j = id
    · rw [if_pos hj, hj]
      exact .inr ⟨hs.replayed hreg, data', hdata', hlen'⟩
    · rw [if_neg hj, eff.other_file (by simpa using hj)]
      exact (h.checkpoints j).imp_right fun hcp => hcp.imp_left (·.replayed hreg)

end ReplaySealed

theorem StoreInv.replayBlank (h : StoreInv crc32 c st) {fuel : Nat}
    (hblank : Blank st) (hcp : st.walIndex.getCheckpoint id = 0)
    (hr : replayWalSegment crc32 fuel id .activeSeg st = some st') :
    StoreInv crc32 c st' ∧ st'.files = st.files ∧ st'.walRegistry = st.walRegistry := by
  cases hfile : st.files.get .activeSeg with
  | none =>
    simp only [replayWalSegment, hfile] at hr
    cases hr
    exact ⟨h, rfl, rfl⟩
  | some data =>
    have hnil : data = [] := by simpa [Blank, hfile] using hblank
    subst hnil
    obtain ⟨e, he, eff⟩ := replay_effect crc32 h.below_index hfile hr
    have hend : e = ⟨[], 0, false⟩ := by
      cases fuel with
      | zero => simp [scan] at he
      | succ fuel =>
        rw [hcp, scan, if_pos (by simp)] at he
        exact (Option.some.inj he).symm
    subst hend
    have hfiles := eff.files
    simp only [Bool.false_eq_true, if_false] at hfiles
    refine ⟨h.frame eff.registry (fun _ => by rw [hfiles]) (fun j => ?_) (fun k iv hk => ?_),
      hfiles, eff.registry⟩
    · rw [eff.checkpoint]
      split_ifs with hj
      · rw [hj, hcp]
      · rfl
    · exact (eff.origin k iv hk).resolve_right (by simp)

end StoreSteps
end Folio.WalInvariant
