import Folio.WalLocations

/-! Where the batches acknowledged in one session are on disk while the session runs. -/
namespace Folio.WalHeld
open KeyedTable Protocol Fjall RecoveryScan BatchSeams CrashRecovery Journal ReplayEffect
open TransitionSystem WalSession WalInvariant WalLocations
variable (crc32 : Bytes → UInt32)

/-- The file starts with the batches, whatever follows. -/
def Readable (st : Store) (path : SegPath) (bs : List Batch) : Prop :=
  ∃ t, st.files.get path = some (fileBytes crc32 bs ++ t)

/-- The current segment's batches are in `active.seg` up to the journal's offset. -/
def HeldActive (s : State) : Prop :=
  match s.journal with
  | .down => True
  | .opened _ => s.active = [] ∧ s.done = []
  | .resumed _ off => s.active = [] ∧ s.done = [] ∧ off = 0
  | .created _ off => s.active = [] ∧ s.done = [] ∧ off = 0 ∧ Readable crc32 s.store .activeSeg []
  | .ready id off => Readable crc32 s.store .activeSeg s.active ∧
      off = (fileBytes crc32 s.active).length ∧ (∀ p ∈ s.done, p.1 < id) ∧
      (s.recovery ≠ .finished → s.active = [] ∧ s.done = [])
  | .renamed id | .upserted id => s.active = [] ∧ ∀ p ∈ s.done, p.1 ≤ id
  | .reopened id => s.active = [] ∧ (∀ p ∈ s.done, p.1 ≤ id) ∧ Readable crc32 s.store .activeSeg []

def HeldDone (s : State) : Prop :=
  ∀ p ∈ s.done, Readable crc32 s.store (.sealedSeg p.1) p.2 ∧
    s.store.walIndex.getCheckpoint p.1 = 0

section Steps
variable {crc32} {c : SegmentId} {s t : State} {st : Store}

theorem Readable.of_some {path : SegPath} {data : Bytes}
    (h : st.files.get path = some data) : Readable crc32 st path [] :=
  ⟨data, by simpa [fileBytes] using h⟩

theorem Readable.append {bs : List Batch} (h : Readable crc32 st .activeSeg bs) (b : Batch) :
    Readable crc32 { st with files :=
      (appendBatch crc32 (st.files, (fileBytes crc32 bs).length) b).1 } .activeSeg (bs ++ [b]) := by
  obtain ⟨t, ht⟩ := h
  refine ⟨(fileBytes crc32 bs ++ t).drop
    ((fileBytes crc32 bs).length + (b.bytes crc32).length), ?_⟩
  simp only [appendBatch, ht, Option.getD_some, Table.get_put_self, writeAt]
  rw [setLen_of_le (by simp), List.take_left, fileBytes_append]
  simp [fileBytes]

theorem nothing_held (h : HeldActive crc32 s) (hpc : PcInv c s) (hj : s.journal ≠ .down)
    (hr : s.recovery ≠ .finished) : s.active = [] ∧ s.done = [] := by
  unfold HeldActive at h
  unfold PcInv at hpc
  cases hs : s.journal <;> simp only [hs] at h hpc hj
  case down => exact absurd rfl hj
  case opened => exact h
  case resumed => exact ⟨h.1, h.2.1⟩
  case created => exact ⟨h.1, h.2.1⟩
  case ready => exact h.2.2.2 hr
  case renamed => exact absurd hpc.2.2.2.2 hr
  case upserted => exact absurd hpc.2.2.2 hr
  case reopened => exact absurd hpc.2.2.2 hr

theorem HeldActive.recovering (h : HeldActive crc32 s) (hpc : PcInv c s) (hj : s.journal ≠ .down)
    (hr : s.recovery ≠ .finished) (hsame : t.journal = s.journal) (ha : t.active = s.active)
    (hd : t.done = s.done)
    (hfile : t.store.files.get .activeSeg = s.store.files.get .activeSeg) :
    HeldActive crc32 t := by
  have hnone := nothing_held h hpc hj hr
  unfold HeldActive Readable at h ⊢
  rw [hsame, ha, hd, hfile]
  cases hs : s.journal <;> simp only [hs] at h ⊢ <;> try exact h
  exact ⟨h.1, h.2.1, h.2.2.1, fun _ => hnone⟩

theorem resumeOffset_blank (h : Blank st) : resumeOffset st.files = 0 := by
  unfold Blank at h
  cases hf : st.files.get .activeSeg with
  | none => simp [resumeOffset, hf]
  | some data =>
    have hdata : data = [] := by simpa [hf] using h
    simp [resumeOffset, hf, hdata]

theorem heldActive_step {a : Act} (hinv : Inv crc32 c s) (h : HeldActive crc32 s)
    (ht : Trans crc32 s a t) : HeldActive crc32 t := by
  have hpc := hinv.pc
  cases ht with
  | openJournal hj => exact ⟨rfl, rfl⟩
  | resume id hj =>
    simp only [HeldActive, hj] at h
    simp only [PcInv, hj] at hpc
    exact ⟨h.1, h.2, resumeOffset_blank hpc.2.blank⟩
  | create id off hj =>
    simp only [HeldActive, hj] at h
    exact ⟨h.1, h.2.1, h.2.2, Readable.of_some (openOdirect_active _)⟩
  | register id off hj =>
    simp only [HeldActive, hj] at h
    obtain ⟨hactive, hdone, hoff, hfile⟩ := h
    refine ⟨?_, ?_, ?_, fun _ => ⟨hactive, hdone⟩⟩
    · simp only [hactive, State.withRegistry]
      exact hfile
    · simp [State.withRegistry, hactive, fileBytes, hoff]
    · simp [State.withRegistry, hdone]
  | recoverEntries fuel store hj hrec hst =>
    have hr : s.recovery ≠ .finished := by rw [hrec]; simp
    exact HeldActive.recovering h hpc hj hr rfl rfl rfl
      ((recoverEntries_sameWal crc32 hst).files _ (by simp))
  | registerFiles hj hrec =>
    have hr : s.recovery ≠ .finished := by rw [hrec]; simp
    refine HeldActive.recovering h hpc hj hr rfl rfl rfl ?_
    rcases registerWalFiles_cases s.store hinv.store.fileRow with
      heq | ⟨m, stats, -, -, -, -, heq⟩ <;> rw [heq]
  | listSegments hj hrec =>
    have hr : s.recovery ≠ .finished := by rw [hrec]; simp
    exact HeldActive.recovering h hpc hj hr rfl rfl rfl rfl
  | replayNext fuel m todo store hj hrec hm =>
    have hr : s.recovery ≠ .finished := by rw [hrec]; simp
    exact HeldActive.recovering h hpc hj hr rfl rfl rfl
      (replay_kept hinv (PcInv.booting hpc hj hr) hrec hm).2.1
  | finish hj hrec =>
    have hr : s.recovery ≠ .finished := by rw [hrec]; simp
    exact HeldActive.recovering h hpc hj hr rfl rfl rfl rfl
  | batch b id off hj hr =>
    simp only [HeldActive, hj] at h
    obtain ⟨hread, rfl, hdone, -⟩ := h
    refine ⟨hread.append b, ?_, hdone, fun hne => absurd hr hne⟩
    simp [appendBatch, fileBytes]
  | failedBatch tail id off hj hr =>
    simp only [HeldActive, hj] at h
    obtain ⟨⟨u, hu⟩, rfl, hdone, -⟩ := h
    simp only [HeldActive, State.withFiles, hj, Readable, hu, Option.getD_some, List.take_left,
      Table.get_put_self]
    exact ⟨⟨tail, rfl⟩, trivial, hdone, fun hne => absurd hr hne⟩
  | rename id off files hj hr hf =>
    simp only [HeldActive, hj] at h
    refine ⟨rfl, fun p hp => ?_⟩
    rcases List.mem_append.mp hp with hp | hp
    · exact Nat.le_of_lt (h.2.2.1 p hp)
    · rw [List.mem_singleton.mp hp]
  | upsert id hj hr =>
    simp only [HeldActive, hj] at h
    exact h
  | reopen id hj hr =>
    simp only [HeldActive, hj] at h
    exact ⟨h.1, h.2, Readable.of_some (openOdirect_active _)⟩
  | registerNext id hj hr =>
    simp only [HeldActive, hj] at h
    obtain ⟨hactive, hdone, hfile⟩ := h
    refine ⟨?_, ?_, fun p hp => Nat.lt_succ_of_le (hdone p hp), fun hne => absurd hr hne⟩
    · simp only [hactive, State.withRegistry]
      exact hfile
    · simp [State.withRegistry, hactive, fileBytes]
  | flush index segId bytes migrated =>
    have hfile : (flushed s.store index segId bytes migrated).files.get .activeSeg =
        s.store.files.get .activeSeg := Table.get_put_ne _ _ (by simp)
    unfold HeldActive Readable at h ⊢
    dsimp only
    rw [hfile]
    exact h
  | crash => trivial

theorem heldDone_step {a : Act} (hinv : Inv crc32 c s) (ha : HeldActive crc32 s)
    (h : HeldDone crc32 s) (ht : Trans crc32 s a t) : HeldDone crc32 t := by
  have hpc := hinv.pc
  have hboot (hj : s.journal ≠ .down) (hr : s.recovery ≠ .finished) (hd : t.done = s.done) :
      HeldDone crc32 t := by
    intro p hp
    rw [hd, (nothing_held ha hpc hj hr).2] at hp
    cases hp
  have hframe (hd : t.done = s.done)
      (hidx : t.store.walIndex.checkpoints = s.store.walIndex.checkpoints)
      (hfiles : ∀ id, t.store.files.get (.sealedSeg id) = s.store.files.get (.sealedSeg id)) :
      HeldDone crc32 t := by
    intro p hp
    rw [hd] at hp
    simp only [Readable, hfiles, FjallIndex.getCheckpoint, hidx]
    exact h p hp
  cases ht with
  | openJournal hj => exact fun p hp => by cases hp
  | resume id hj => exact hframe rfl rfl fun _ => rfl
  | create id off hj => exact hframe rfl rfl fun _ => openOdirect_get _ _ (by simp)
  | register id off hj => exact hframe rfl rfl fun _ => rfl
  | recoverEntries fuel store hj hrec hst => exact hboot hj (by rw [hrec]; simp) rfl
  | registerFiles hj hrec => exact hboot hj (by rw [hrec]; simp) rfl
  | listSegments hj hrec => exact hboot hj (by rw [hrec]; simp) rfl
  | replayNext fuel m todo store hj hrec hm => exact hboot hj (by rw [hrec]; simp) rfl
  | finish hj hrec => exact hframe rfl rfl fun _ => rfl
  | batch b id off hj hr => exact hframe rfl rfl fun _ => Table.get_put_ne _ _ (by simp)
  | failedBatch tail id off hj hr => exact hframe rfl rfl fun _ => Table.get_put_ne _ _ (by simp)
  | rename id off files hj hr hf =>
    simp only [HeldActive, hj] at ha
    simp only [PcInv, hj] at hpc
    obtain ⟨rfl, hrow, -, -⟩ := hpc
    obtain ⟨data, hdata, rfl⟩ := Option.map_eq_some_iff.mp hf
    intro p hp
    rcases List.mem_append.mp hp with hp | hp
    · have hne : p.1 ≠ id := Nat.ne_of_lt (ha.2.2.1 p hp)
      refine ⟨?_, (h p hp).2⟩
      simp only [Readable, State.withFiles]
      rw [Table.get_put_ne _ _ (by simpa using hne), Table.get_del_ne _ (by simp)]
      exact (h p hp).1
    · rw [List.mem_singleton.mp hp]
      obtain ⟨u, hu⟩ := ha.1
      rw [hu, Option.some.injEq] at hdata
      subst hdata
      exact ⟨⟨u, Table.get_put_self _ _ _⟩,
        hinv.store.checkpoint_zero (not_sealed_of_active hrow)⟩
  | upsert id hj hr => exact hframe rfl rfl fun _ => rfl
  | reopen id hj hr => exact hframe rfl rfl fun _ => openOdirect_get _ _ (by simp)
  | registerNext id hj hr => exact hframe rfl rfl fun _ => rfl
  | flush index segId bytes migrated =>
    exact hframe rfl (FjallIndex.foldl_deleteLocation_checkpoints _ _)
      fun _ => Table.get_put_ne _ _ (by simp)
  | crash => exact hframe rfl rfl fun _ => rfl

end Steps

section Runs
variable {crc32} {s t : State}

def seamlessBatch (s : State) (a : Act) : Prop :=
  match a with
  | .batch b => ∀ last ∈ s.active.getLast?, Seamless last b
  | _ => True

instance (s : State) (a : Act) : Decidable (seamlessBatch s a) := by
  unfold seamlessBatch; split <;> infer_instance

def carefulSession (s : State) (a : Act) : Prop := freshOpen s a ∧ seamlessBatch s a

instance (s : State) (a : Act) : Decidable (carefulSession s a) := by
  unfold carefulSession; infer_instance

def SeamlessFiles (s : State) : Prop :=
  s.active.IsChain Seamless ∧ ∀ p ∈ s.done, p.2.IsChain Seamless

theorem seamlessFiles_step {a : Act} (h : SeamlessFiles s) (hg : seamlessBatch s a)
    (ht : Trans crc32 s a t) : SeamlessFiles t := by
  cases ht with
  | openJournal hj => exact ⟨List.isChain_nil, fun p hp => by cases hp⟩
  | batch b id off hj hr =>
    exact ⟨List.isChain_append.mpr ⟨h.1, List.isChain_singleton b, fun x hx y hy => by
      rw [List.head?_cons, Option.mem_some_iff] at hy
      exact hy ▸ hg x hx⟩, h.2⟩
  | rename id off files hj hr hf =>
    refine ⟨List.isChain_nil, fun p hp => ?_⟩
    rcases List.mem_append.mp hp with hp | hp
    · exact h.2 p hp
    · rw [List.mem_singleton.mp hp]
      exact h.1
  | _ => exact h

theorem reach_held (h : Reach (guarded carefulSession (step crc32)) Fresh s) :
    ∃ c, Inv crc32 c s ∧ HeldActive crc32 s ∧ HeldDone crc32 s ∧ SeamlessFiles s := by
  refine Reach.invariant (P := fun s => ∃ c, Inv crc32 c s ∧ HeldActive crc32 s ∧
    HeldDone crc32 s ∧ SeamlessFiles s) ?_ ?_ h
  · intro s hs
    have hinv : Inv crc32 0 s := inv_fresh hs
    obtain ⟨hj, -, -, -, -, -, hactive, hdone⟩ := hs
    refine ⟨0, hinv, by simp [HeldActive, hj], ?_, ?_⟩
    · simp [HeldDone, hdone]
    · simp [SeamlessFiles, hactive, hdone]
  · rintro s a t ⟨c, hinv, hactive, hdone, hseam⟩ hst
    obtain ⟨⟨hopen, hbatch⟩, hst⟩ := (guarded_eq_some carefulSession).mp hst
    have ht := step_trans crc32 hst
    obtain ⟨c', hinv'⟩ := inv_step hinv hopen ht
    exact ⟨c', hinv', heldActive_step hinv hactive ht, heldDone_step hinv hactive hdone ht,
      seamlessFiles_step hseam hbatch ht⟩

end Runs
end Folio.WalHeld
