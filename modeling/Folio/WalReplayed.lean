import Folio.WalHeld

/-! The boot after a crash replays every WAL file of the crashed session, because each of
them is named by a live registry row whose replay starts at its first byte. -/
namespace Folio.WalReplayed
open KeyedTable Protocol Fjall RecoveryScan BatchSeams CrashRecovery Journal ReplayEffect
open TransitionSystem WalSession WalInvariant WalLocations WalHeld ScanCompleteness
variable (crc32 : Bytes → UInt32)

/-- Steps of the next boot: `LsmcJournal::open` with its thread, and `CrashRecovery::recover`. -/
def isBoot : Act → Bool
  | .openJournal | .resume | .create | .register | .recoverEntries _ | .registerFiles
  | .listSegments | .replayNext _ | .finish => true
  | _ => false

/-- The batches a session has acknowledged, by the file they are in. -/
def ackedFiles (s : State) : List (SegPath × List Batch) :=
  (.activeSeg, s.active) :: s.done.map fun p => (.sealedSeg p.1, p.2)

/-- Every record of the batches has its key in one of the two indices. -/
def Indexed (st : Store) (bs : List Batch) : Prop :=
  ∀ b ∈ bs, ∀ r ∈ b.recs, (st.entryIndex.getLocation r.key).isSome = true ∨
    (st.walIndex.getLocation r.key).isSome = true

section Boot
variable {path : SegPath} {bs : List Batch} {st st' : Store} {m : SegmentMeta} {fuel : Nat}

/-- A file that recovery has yet to list: some live row names it, and every row that does
will replay it from its start. -/
structure Listed (st : Store) (path : SegPath) (bs : List Batch) : Prop where
  wal : ∀ id, path ≠ .entrySeg id
  readable : Readable crc32 st path bs
  chain : bs.IsChain Seamless
  row : ∃ id m, st.walRegistry.get id = some m ∧ live m ∧ m.localPath = some path
  untouched : ∀ id, path = .sealedSeg id → st.walIndex.getCheckpoint id = 0

/-- Before the rows are listed; `files` are the files of the crashed session. -/
structure PreList (files : List (SegPath × List Batch)) (s : State) : Prop where
  own : ∀ id m, s.store.walRegistry.get id = some m → m.id = id ∧
    ∀ j, m.localPath = some (.sealedSeg j) → j = id
  fileRow : ∀ id data, s.store.files.get (.sealedSeg id) = some data →
    ∃ m, s.store.walRegistry.get id = some m
  checkpoints : ∀ id, s.store.walIndex.getCheckpoint id = 0 ∨ Sealed s.store id
  bound : ∀ id, Sealed s.store id → match s.journal with
    | .opened n | .resumed n _ | .created n _ => id < n
    | _ => True
  listed : ∀ f ∈ files, f.2 ≠ [] → Listed crc32 s.store f.1 f.2

def Replaying (st : Store) (todo : List SegmentMeta) (path : SegPath) (bs : List Batch) : Prop :=
  Indexed st bs ∨ Readable crc32 st path bs ∧ bs.IsChain Seamless ∧
    (∃ m ∈ todo, m.localPath = some path) ∧
    ∀ m ∈ todo, m.localPath = some path → st.walIndex.getCheckpoint m.id = 0

def BootInv (files : List (SegPath × List Batch)) (s : State) : Prop :=
  (s.journal = .down → s.recovery = .start) ∧ match s.recovery with
  | .start | .entriesDone | .registered => Below s.store.walIndex ∧ PreList crc32 files s
  | .replaying todo => Below s.store.walIndex ∧ (∀ m ∈ todo, ∀ m' ∈ todo, m.id = m'.id → m = m') ∧
      ∀ f ∈ files, f.2 ≠ [] → Replaying crc32 s.store todo f.1 f.2
  | .finished => ∀ f ∈ files, f.2 ≠ [] → Indexed s.store f.2

variable {crc32} {files : List (SegPath × List Batch)} {s t : State}

theorem Listed.frame (h : Listed crc32 st path bs) (hfile : st'.files.get path = st.files.get path)
    (hidx : st'.walIndex = st.walIndex)
    (hrow : ∃ id m, st'.walRegistry.get id = some m ∧ live m ∧ m.localPath = some path) :
    Listed crc32 st' path bs where
  wal := h.wal
  readable := by
    unfold Readable
    rw [hfile]
    exact h.readable
  chain := h.chain
  row := hrow
  untouched := by rw [hidx]; exact h.untouched

theorem PreList.putActive (h : PreList crc32 files s) {id : SegmentId}
    (hid : m.id = id) (hlive : live m) (hpath : m.localPath = some .activeSeg)
    (hns : ¬ Sealed s.store id) {j : JournalPc} {r : RecoveryPc}
    (hbound : ∀ i, Sealed s.store i → match j with
      | .opened n | .resumed n _ | .created n _ => i < n
      | _ => True) (stats : RecoveryStats) :
    PreList crc32 files { s with
      store := { s.store with walRegistry := s.store.walRegistry.put id m, stats }
      journal := j, recovery := r } := by
  have hsealed : ∀ i, Sealed { s.store with walRegistry := s.store.walRegistry.put id m, stats } i ↔
      Sealed s.store i := by
    intro i
    unfold Sealed
    by_cases hi : i = id
    · subst hi
      simp only [Table.get_put_self, Option.some.injEq, exists_eq_left', hpath]
      simpa [Sealed] using hns
    · simp only [Table.get_put_ne _ _ hi]
  refine ⟨?_, ?_, fun i => ?_, fun i hi => hbound i ((hsealed i).mp hi), fun f hf hne => ?_⟩
  · intro i m' hm'
    dsimp only at hm'
    rw [Table.get_put] at hm'
    split_ifs at hm' with hi
    · cases hm'
      exact ⟨hid.trans hi.symm, fun j hj => by rw [hpath] at hj; cases hj⟩
    · exact h.own i m' hm'
  · intro i data hd
    dsimp only
    rw [Table.get_put]
    split_ifs
    · exact ⟨m, rfl⟩
    · exact h.fileRow i data hd
  · exact (h.checkpoints i).imp_right fun hs => (hsealed i).mpr hs
  · have hl := h.listed f hf hne
    refine hl.frame rfl rfl ?_
    obtain ⟨i, m', hm', hlive', hpath'⟩ := hl.row
    by_cases hi : i = id
    · subst hi
      refine ⟨i, m, Table.get_put_self _ _ _, hlive, ?_⟩
      -- the overwritten row had no sealed file, so it named `active.seg` too
      cases hf1 : f.1 with
      | activeSeg => exact hpath
      | sealedSeg k =>
        rw [hf1] at hpath'
        obtain rfl := (h.own i m' hm').2 k hpath'
        exact absurd ⟨m', hm', hpath'⟩ hns
      | entrySeg k => exact absurd hf1 (hl.wal k)
    · exact ⟨i, m', by rw [Table.get_put_ne _ _ hi, hm'], hlive', hpath'⟩

theorem PreList.sameWal {store : Store} (h : PreList crc32 files s) (hw : SameWal s.store store)
    (r : RecoveryPc) : PreList crc32 files { s with store, recovery := r } where
  own := by rw [hw.registry]; exact h.own
  fileRow id data hd := by
    rw [hw.registry]
    exact h.fileRow id data (by rw [← hw.files _ (by simp), hd])
  checkpoints := by
    simp only [Sealed, hw.registry, hw.index]
    exact h.checkpoints
  bound := by
    simp only [Sealed, hw.registry]
    exact h.bound
  listed f hf hne := by
    have hl := h.listed f hf hne
    exact hl.frame (hw.files _ hl.wal) hw.index (by rw [hw.registry]; exact hl.row)

theorem PreList.registerFiles (h : PreList crc32 files s) (hb : Below s.store.walIndex) :
    Below (registerWalFiles s.store).walIndex ∧ PreList crc32 files
      { s with store := registerWalFiles s.store, recovery := .registered } := by
  rcases registerWalFiles_cases s.store h.fileRow with
    heq | ⟨m, stats, -, hlive, hpath, hnone, heq⟩ <;> rw [heq]
  · exact ⟨hb, h.sameWal ⟨fun _ _ => rfl, rfl, rfl⟩ _⟩
  · refine ⟨hb, h.putActive rfl hlive hpath ?_ h.bound stats⟩
    rintro ⟨m', hm', -⟩
    rw [hnone] at hm'
    cases hm'

theorem openOdirect_readable {st : Store} (h : Readable crc32 st path bs) :
    (openOdirect st.files).get path = st.files.get path := by
  obtain ⟨u, hu⟩ := h
  by_cases hp : path = .activeSeg
  · subst hp
    rw [openOdirect_active, hu]
    rfl
  · exact openOdirect_get _ _ hp

theorem BootInv.thread (h : BootInv crc32 files s) (hrec : t.recovery = s.recovery)
    (hj : t.journal = .down → s.journal = .down) (hw : t.store.walIndex = s.store.walIndex)
    (he : t.store.entryIndex = s.store.entryIndex)
    (hfile : ∀ path bs, Readable crc32 s.store path bs →
      t.store.files.get path = s.store.files.get path)
    (hpre : PreList crc32 files s → PreList crc32 files t) : BootInv crc32 files t := by
  have hindexed : ∀ bs, Indexed s.store bs → Indexed t.store bs := by
    unfold Indexed
    rw [hw, he]
    exact fun _ h => h
  unfold BootInv at h ⊢
  refine ⟨fun hd => by rw [hrec, h.1 (hj hd)], ?_⟩
  replace h := h.2
  rw [hrec]
  cases hr : s.recovery with
  | start => rw [hr] at h; exact ⟨by rw [hw]; exact h.1, hpre h.2⟩
  | entriesDone => rw [hr] at h; exact ⟨by rw [hw]; exact h.1, hpre h.2⟩
  | registered => rw [hr] at h; exact ⟨by rw [hw]; exact h.1, hpre h.2⟩
  | replaying todo =>
    rw [hr] at h
    refine ⟨by rw [hw]; exact h.1, h.2.1, fun f hf hne => (h.2.2 f hf hne).imp (hindexed _) ?_⟩
    rintro ⟨hread, hrest⟩
    refine ⟨?_, by rw [hw]; exact hrest⟩
    unfold Readable
    rw [hfile _ _ hread]
    exact hread
  | finished => rw [hr] at h; exact fun f hf hne => hindexed _ (h f hf hne)

theorem PreList.list (h : PreList crc32 files s) :
    (∀ m ∈ segmentsToReplay s.store.walRegistry, ∀ m' ∈ segmentsToReplay s.store.walRegistry,
      m.id = m'.id → m = m') ∧
    ∀ f ∈ files, f.2 ≠ [] →
      Replaying crc32 s.store (segmentsToReplay s.store.walRegistry) f.1 f.2 := by
  constructor
  · intro m hm m' hm' hid
    obtain ⟨i, hi, -⟩ := mem_segmentsToReplay hm
    obtain ⟨i', hi', -⟩ := mem_segmentsToReplay hm'
    rw [← (h.own i m hi).1, hid, (h.own i' m' hi').1, hi', Option.some.injEq] at hi
    exact hi.symm
  · intro f hf hne
    have hl := h.listed f hf hne
    refine .inr ⟨hl.readable, hl.chain, ?_, fun m hm hpath => ?_⟩
    · obtain ⟨i, m, hm, hlive, hpath⟩ := hl.row
      exact ⟨m, mem_segmentsToReplay_of_live hm hlive, hpath⟩
    · obtain ⟨i, hi, -⟩ := mem_segmentsToReplay hm
      obtain ⟨hid, hown⟩ := h.own i m hi
      rcases h.checkpoints m.id with hz | ⟨m', hm', hsealed⟩
      · exact hz
      · rw [hid, hi, Option.some.injEq] at hm'
        rw [← hm', hpath, Option.some.injEq] at hsealed
        exact hl.untouched m.id hsealed

theorem mem_ackedAll_of_rec (crc32 : Bytes → UInt32) (base : Nat) (bs : List Batch) :
    ∀ b ∈ bs, ∀ r ∈ b.recs, ∃ v ∈ ackedAll crc32 base bs, v.record = r := by
  induction bs generalizing base with
  | nil => simp
  | cons b bs ih =>
    intro b' hb' r hr
    rcases List.mem_cons.mp hb' with rfl | hb'
    · obtain ⟨v, hv, rfl⟩ := mem_layout_of_rec base b'.recs r hr
      exact ⟨v, List.mem_append_left _ (by rwa [b'.acked_eq]), rfl⟩
    · obtain ⟨v, hv, rfl⟩ := ih _ b' hb' r hr
      exact ⟨v, List.mem_append_right _ hv, rfl⟩

theorem indexed_of_effect {id : SegmentId} {data : Bytes} {e : ScanEnd (List Visit)}
    (hfile : st.files.get path = some data) (hread : Readable crc32 st path bs)
    (hc : bs.IsChain Seamless) (he : scan crc32 data fuel 0 0 = some e)
    (eff : Effect st st' id path data e) : Indexed st' bs := by
  obtain ⟨u, hu⟩ := hread
  rw [hfile, Option.some.injEq] at hu
  subst hu
  have hl : Laid crc32 (fileBytes crc32 bs ++ u) 0 bs := by
    simpa using laid_fileBytes crc32 [] u bs
  have hpre := (scan_visits_iff crc32 _ bs 0 fuel 0 e (by decide) hl he).mpr hc
  intro b hb r hr
  obtain ⟨v, hv, rfl⟩ := mem_ackedAll_of_rec crc32 0 bs b hb r hr
  rw [eff.entries]
  exact eff.indexes v (hpre.subset hv)

theorem replayMeta_below (hb : Below st.walIndex) (hm : replayMeta crc32 fuel st m = some st') :
    Below st'.walIndex := by
  rcases replayMeta_cases crc32 hb hm with ⟨rfl, -⟩ | ⟨_, _, e, -, -, he, eff⟩
  · exact hb
  · exact eff.below crc32 hb he

theorem replaying_next {todo : List SegmentMeta} (hb : Below st.walIndex)
    (huniq : ∀ m' ∈ todo, m.id = m'.id → m = m') (hm : replayMeta crc32 fuel st m = some st')
    (h : Replaying crc32 st (m :: todo) path bs) : Replaying crc32 st' todo path bs := by
  rcases replayMeta_cases crc32 hb hm with ⟨rfl, hnone⟩ | ⟨path', data, e, hpath', hfile, he, eff⟩
  · refine h.imp_right ?_
    rintro ⟨hread, hc, ⟨m', hm', hp'⟩, hzero⟩
    refine ⟨hread, hc, ⟨m', ?_, hp'⟩, fun m'' hm'' => hzero m'' (List.mem_cons_of_mem m hm'')⟩
    refine (List.mem_cons.mp hm').resolve_left ?_
    rintro rfl
    obtain ⟨u, hu⟩ := hread
    rw [hnone path hp'] at hu
    cases hu
  · rcases h with hdone | ⟨hread, hc, ⟨m', hm', hp'⟩, hzero⟩
    · refine .inl fun b hb r hr => ?_
      rw [eff.entries]
      refine (hdone b hb r hr).imp_right fun hsome => ?_
      obtain ⟨iv, hiv⟩ := Option.isSome_iff_exists.mp hsome
      rw [eff.keeps _ iv hiv]
      rfl
    by_cases hsame : path' = path
    · subst hsame
      rw [hzero m List.mem_cons_self hpath'] at he
      exact .inl (indexed_of_effect hfile hread hc he eff)
    · have hne : m.localPath ≠ some path := by
        rw [hpath']
        simpa using hsame
      refine .inr ⟨?_, hc, ⟨m', (List.mem_cons.mp hm').resolve_left ?_, hp'⟩, ?_⟩
      · unfold Readable
        rw [eff.other_file (Ne.symm hsame)]
        exact hread
      · rintro rfl
        exact hne hp'
      · intro m'' hm'' hp''
        rw [eff.checkpoint, if_neg, hzero m'' (List.mem_cons_of_mem m hm'') hp'']
        intro hid
        exact hne (huniq m'' hm'' hid.symm ▸ hp'')

theorem bootInv_step {a : Act} (ha : isBoot a = true) (h : BootInv crc32 files s)
    (ht : Trans crc32 s a t) : BootInv crc32 files t := by
  cases ht with
  | openJournal hj =>
    have hpre := h.2
    rw [h.1 hj] at hpre
    obtain ⟨hbelow, hpre⟩ := hpre
    refine ⟨(fun hd => by cases hd), hbelow, { hpre with bound := ?_ }⟩
    rintro id ⟨m, hm, -⟩
    exact (lt_nextWalSegmentId_iff _ _ id).mpr ⟨id, Nat.le_refl _, .inr ⟨m, hm⟩⟩
  | resume id hj =>
    refine BootInv.thread h rfl (fun hd => by cases hd) rfl rfl (fun _ _ _ => rfl) fun hpre => ?_
    have hbound := hpre.bound
    rw [hj] at hbound
    exact { hpre with bound := hbound }
  | create id off hj =>
    refine BootInv.thread h rfl (fun hd => by cases hd) rfl rfl
      (fun _ _ hread => openOdirect_readable hread) fun hpre => ?_
    have hbound := hpre.bound
    rw [hj] at hbound
    refine { hpre with fileRow := ?_, bound := hbound, listed := ?_ }
    · intro j data hd
      exact hpre.fileRow j data (by rw [← openOdirect_get _ _ (by simp)]; exact hd)
    · intro f hf hne
      have hl := hpre.listed f hf hne
      exact hl.frame (openOdirect_readable hl.readable) rfl hl.row
  | register id off hj =>
    refine BootInv.thread h rfl (fun hd => by cases hd) rfl rfl (fun _ _ _ => rfl) fun hpre => ?_
    have hbound := hpre.bound
    rw [hj] at hbound
    exact hpre.putActive (m := ⟨id, .Wal, .Active, some .activeSeg, none, 0⟩) rfl (.inr rfl) rfl
      (fun hs => Nat.lt_irrefl id (hbound id hs)) (fun _ _ => trivial) _
  | recoverEntries fuel store hj hrec hst =>
    have hpre := h.2
    rw [hrec] at hpre
    have hw := recoverEntries_sameWal crc32 hst
    exact ⟨fun hd => absurd hd hj, by rw [hw.index]; exact hpre.1, hpre.2.sameWal hw _⟩
  | registerFiles hj hrec =>
    have hpre := h.2
    rw [hrec] at hpre
    exact ⟨fun hd => absurd hd hj, hpre.2.registerFiles hpre.1⟩
  | listSegments hj hrec =>
    have hpre := h.2
    rw [hrec] at hpre
    exact ⟨fun hd => absurd hd hj, hpre.1, hpre.2.list⟩
  | replayNext fuel m todo store hj hrec hm =>
    have hrep := h.2
    rw [hrec] at hrep
    obtain ⟨hbelow, huniq, hfiles⟩ := hrep
    refine ⟨fun hd => absurd hd hj, replayMeta_below hbelow hm, ?_, fun f hf hne => ?_⟩
    · exact fun m' hm' m'' hm'' => huniq m' (List.mem_cons_of_mem m hm') m''
        (List.mem_cons_of_mem m hm'')
    · exact replaying_next hbelow (fun m' hm' => huniq m List.mem_cons_self m'
        (List.mem_cons_of_mem m hm')) hm (hfiles f hf hne)
  | finish hj hrec =>
    have hrep := h.2
    rw [hrec] at hrep
    refine ⟨fun hd => absurd hd hj, fun f hf hne => ?_⟩
    exact (hrep.2.2 f hf hne).resolve_right fun hw => by simp at hw
  | batch => simp [isBoot] at ha
  | failedBatch => simp [isBoot] at ha
  | rename => simp [isBoot] at ha
  | upsert => simp [isBoot] at ha
  | reopen => simp [isBoot] at ha
  | registerNext => simp [isBoot] at ha
  | flush => simp [isBoot] at ha
  | crash => simp [isBoot] at ha

theorem bootInv_run (boot : List Act) (hboot : ∀ a ∈ boot, isBoot a = true)
    (h : BootInv crc32 files s) (hrun : run (step crc32) s boot = some t) :
    BootInv crc32 files t := by
  induction boot generalizing s with
  | nil =>
    cases hrun
    exact h
  | cons a boot ih =>
    obtain ⟨u, hu, hrest⟩ := Option.bind_eq_some_iff.mp hrun
    exact ih (fun b hb => hboot b (List.mem_cons_of_mem a hb))
      (bootInv_step (hboot a List.mem_cons_self) h (step_trans crc32 hu)) hrest

end Boot

section Session
variable {crc32} {c : SegmentId} {s t : State}

theorem active_listed (hinv : Inv crc32 c s) (hactive : HeldActive crc32 s)
    (hseam : SeamlessFiles s) (hup : s.journal ≠ .down) (hne : s.active ≠ []) :
    Listed crc32 s.store .activeSeg s.active := by
  have hpc := hinv.pc
  unfold HeldActive at hactive
  unfold PcInv at hpc
  cases hs : s.journal <;> simp only [hs] at hactive hpc
  case down => exact absurd hs hup
  case ready =>
    obtain ⟨m, hm, hlive, hpath⟩ := hpc.2.1
    exact ⟨by simp, hactive.1, hseam.1, ⟨c, m, hm, hlive, hpath⟩, by simp⟩
  all_goals exact absurd hactive.1 hne

theorem done_sealed (hinv : Inv crc32 c s) (hactive : HeldActive crc32 s)
    (hup : s.journal ≠ .down) (hseal : ∀ id, s.journal ≠ .renamed id)
    {p : SegmentId × List Batch} (hp : p ∈ s.done) : Sealed s.store p.1 := by
  have hpc := hinv.pc
  unfold HeldActive at hactive
  unfold PcInv at hpc
  have hle (hs : Sealed s.store c) (hpc : p.1 ≤ c) : Sealed s.store p.1 := by
    rcases Nat.lt_or_eq_of_le hpc with hlt | heq
    · exact hinv.store.sealed_of_lt hlt
    · exact heq ▸ hs
  cases hs : s.journal <;> simp only [hs] at hactive hpc
  case down => exact absurd hs hup
  case ready => exact hinv.store.sealed_of_lt (hpc.1 ▸ hactive.2.2.1 p hp)
  case renamed id => exact absurd hs (hseal id)
  case upserted => exact hle hpc.2.1 (hpc.1 ▸ hactive.2 p hp)
  case reopened => exact hle hpc.2.1 (hpc.1 ▸ hactive.2.1 p hp)
  case opened => rw [hactive.2] at hp; cases hp
  case resumed => rw [hactive.2.1] at hp; cases hp
  case created => rw [hactive.2.1] at hp; cases hp

theorem bootInv_of_crash (hinv : Inv crc32 c s) (hactive : HeldActive crc32 s)
    (hdone : HeldDone crc32 s) (hseam : SeamlessFiles s) (hup : s.journal ≠ .down)
    (hseal : ∀ id, s.journal ≠ .renamed id) (ht : Trans crc32 s .crash t) :
    BootInv crc32 (ackedFiles s) t := by
  cases ht
  refine ⟨fun _ => rfl, hinv.store.below_index, ?_, hinv.store.fileRow, fun id => ?_,
    fun _ _ => trivial, fun f hf hne => ?_⟩
  · intro id m hm
    obtain ⟨hid, -, hrow⟩ := hinv.store.rows id m hm
    refine ⟨hid, fun j hj => ?_⟩
    rcases hrow with hrow | ⟨-, hrow⟩
    · rw [hrow, Option.some.injEq] at hj
      exact (SegPath.sealedSeg.inj hj).symm
    · rw [hrow] at hj
      cases hj
  · exact (hinv.store.checkpoints id).imp_right fun hs => hs.1
  · rcases List.mem_cons.mp hf with rfl | hf
    · have hl := active_listed hinv hactive hseam hup hne
      exact hl.frame rfl rfl hl.row
    · obtain ⟨p, hp, rfl⟩ := List.mem_map.mp hf
      obtain ⟨hread, hzero⟩ := hdone p hp
      obtain ⟨m, hm, hpath⟩ := done_sealed hinv hactive hup hseal hp
      refine ⟨by simp, hread, hseam.2 p hp, ⟨p.1, m, hm, (hinv.store.rows _ m hm).2.1, hpath⟩, ?_⟩
      intro id hid
      rw [← SegPath.sealedSeg.inj hid]
      exact hzero

/-- After a careful session, a crash outside the window between rename and upsert, and a
completed boot, every record the session acknowledged is in one of the indices. -/
theorem every_wal_file_replayed (hreach : Reach (guarded carefulSession (step crc32)) Fresh s)
    (hup : s.journal ≠ .down) (hseal : ∀ id, s.journal ≠ .renamed id) (boot : List Act)
    (hboot : ∀ a ∈ boot, isBoot a = true) (hrun : run (step crc32) s (.crash :: boot) = some t)
    (hdone : t.recovery = .finished) :
    ∀ f ∈ ackedFiles s, f.2 ≠ [] → Readable crc32 s.store f.1 f.2 ∧ Indexed t.store f.2 := by
  obtain ⟨c, hinv, hactive, hheld, hseam⟩ := reach_held hreach
  obtain ⟨u, hcrash, hrest⟩ := Option.bind_eq_some_iff.mp hrun
  have hstart := bootInv_of_crash hinv hactive hheld hseam hup hseal (step_trans crc32 hcrash)
  have hend := (bootInv_run boot hboot hstart hrest).2
  rw [hdone] at hend
  intro f hf hne
  refine ⟨?_, hend f hf hne⟩
  obtain rfl := Option.some.inj hcrash
  exact (hstart.2.2.listed f hf hne).readable

/- Segment 0 is sealed and segment 1 active: the next boot replays both files. -/
theorem sealed_and_active_file_replayed :
    ∃ s t : State, Reach (guarded carefulSession (step Crc32.crc32)) Fresh s ∧
      ackedFiles s = [(.activeSeg, [nextBatch]), (.sealedSeg 0, [plainBatch])] ∧
      run (step Crc32.crc32) s (.crash :: bootActs 3) = some t ∧ t.recovery = .finished ∧
      Indexed t.store [nextBatch] ∧ Indexed t.store [plainBatch] := by
  obtain ⟨s, hs, hcheck⟩ := run_check (guarded carefulSession (step Crc32.crc32))
    blankNode (fun s => decide (s.journal = .ready 1 4096) &&
      decide (ackedFiles s = [(.activeSeg, [nextBatch]), (.sealedSeg 0, [plainBatch])]) &&
      (run (step Crc32.crc32) s (.crash :: bootActs 3)).any fun t =>
        decide (t.recovery = .finished))
    (bootActs 1 ++ [.batch plainBatch, .rename, .upsert, .reopen, .registerNext,
      .batch nextBatch])
    (by decide +kernel)
  simp only [Bool.and_eq_true, decide_eq_true_eq, Option.any_eq_true] at hcheck
  obtain ⟨⟨hpc, hfiles⟩, t, ht, hdone⟩ := hcheck
  have hreach := reach_of_run _ (.start blankNode_fresh) hs
  have hall := every_wal_file_replayed hreach (by simp [hpc]) (by simp [hpc]) (bootActs 3)
    (by decide) ht hdone
  rw [hfiles] at hall
  exact ⟨s, t, hreach, hfiles, ht, hdone, (hall (.activeSeg, [nextBatch]) (by simp) (by simp)).2,
    (hall (.sealedSeg 0, [plainBatch]) (by simp) (by simp)).2⟩

/- The crash falls between rename and upsert: row 0 still names `active.seg`, and nothing
names the file that holds the record. -/
theorem crash_after_rename_loses_record :
    ∃ s t : State, Reach (guarded carefulSession (step Crc32.crc32)) Fresh s ∧
      s.journal = .renamed 0 ∧ ackedFiles s = [(.activeSeg, []), (.sealedSeg 0, [plainBatch])] ∧
      Readable Crc32.crc32 s.store (.sealedSeg 0) [plainBatch] ∧
      run (step Crc32.crc32) s (.crash :: bootActs 2) = some t ∧ t.recovery = .finished ∧
      ¬ Indexed t.store [plainBatch] := by
  obtain ⟨s, hs, hcheck⟩ := run_check (guarded carefulSession (step Crc32.crc32))
    blankNode (fun s => decide (s.journal = .renamed 0) &&
      decide (ackedFiles s = [(.activeSeg, []), (.sealedSeg 0, [plainBatch])]) &&
      decide (s.done = [(0, [plainBatch])]) &&
      (run (step Crc32.crc32) s (.crash :: bootActs 2)).any fun t =>
        decide (t.recovery = .finished) &&
        decide (t.store.entryIndex.getLocation (1, 0) = none ∧
          t.store.walIndex.getLocation (1, 0) = none))
    (bootActs 1 ++ [.batch plainBatch, .rename])
    (by decide +kernel)
  simp only [Bool.and_eq_true, decide_eq_true_eq, Option.any_eq_true] at hcheck
  obtain ⟨⟨⟨hpc, hfiles⟩, hsealed⟩, t, ht, hdone, hentry, hwal⟩ := hcheck
  have hreach := reach_of_run _ (.start blankNode_fresh) hs
  obtain ⟨-, -, -, hheld, -⟩ := reach_held hreach
  have hread := (hheld (0, [plainBatch]) (by rw [hsealed]; simp)).1
  refine ⟨s, t, hreach, hpc, hfiles, hread, ht, hdone, fun hidx => ?_⟩
  have hrec := hidx plainBatch (by simp) plainBatch.first (List.head_mem _)
  have hkey : plainBatch.first.key = (1, 0) := rfl
  rw [hkey, hentry, hwal] at hrec
  simp at hrec

end Session
end Folio.WalReplayed
