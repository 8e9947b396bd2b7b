import Folio.NodeFailure

/-! The tasks that the auditor queues for a lost node, and what the worker makes of them. The
worker reads the metadata again before every task. -/
namespace Folio.Auditor
open KeyedTable Protocol Metadata LedgerClient RemoteProgram Recovery RecoveryWorker
open RestoreReplication RestoreOutcome TransitionSystem NodeFailure
open Cluster (appendActs changeActs)
variable {failed : NodeId} {done : List ReReplicationTask} {m m' : LedgerMetadata}
  {crc32 : Bytes → UInt32} {net : Net} {up : NodeId → Prop} {s t : Clocked}

section Queue

def enqueueForNode (failed : NodeId) : Remote (List ReReplicationTask) := do
  let ledgers ← listLedgers
  let nodes ← listNodes
  pure (ledgers.flatMap (tasksFor failed nodes))

/-- The worker takes from the channel what the auditor sends. -/
def nodeLost (failed : NodeId) : Remote Unit := do
  let tasks ← enqueueForNode failed
  runTasks tasks

def taskOf (failed : NodeId) (m : LedgerMetadata) (f : Fragment) : ReReplicationTask :=
  ⟨m.id, failed, f.firstEntryId⟩

end Queue

section Outcomes

/-- What becomes of a fragment: a mendable one of the failed node has a new member, which holds
the entries that were to be copied; any other one is as before. -/
def Outcome (w w' : World) (failed : NodeId) (m : LedgerMetadata) (f f' : Fragment) : Prop :=
  (failed ∈ f.ensemble ∧ Mendable w m failed f ∧ ∃ tgt, tgt ∉ f.ensemble ∧ tgt ≠ failed ∧
    f' = swapped failed tgt f ∧
    ∀ i ∈ copyRange m f f.firstEntryId, ((w'.replica tgt).entries.get (m.id, i)).isSome) ∨
  ¬(failed ∈ f.ensemble ∧ Mendable w m failed f) ∧ f' = f

structure After (w w' : World) (failed : NodeId) (done : List ReReplicationTask)
    (m m' : LedgerMetadata) : Prop where
  id : m'.id = m.id
  state : m'.state = m.state
  confirmed : m'.lastAddConfirmed = m.lastAddConfirmed
  fragments : List.Forall₂ (fun f f' => taskOf failed m f ∈ done ∧ Outcome w w' failed m f f' ∨
    taskOf failed m f ∉ done ∧ f' = f) m.fragments m'.fragments

variable {w w' w'' : World} {f f' : Fragment}

theorem Outcome.later (h : Outcome w w' failed m f f') (hkept : Kept w' w'') :
    Outcome w w'' failed m f f' := by
  refine h.imp_left ?_
  rintro ⟨hit, hmend, tgt, hout, hne, hf', hheld⟩
  exact ⟨hit, hmend, tgt, hout, hne, hf', fun i hi => hkept.entries tgt _ (hheld i hi)⟩

theorem Outcome.first (h : Outcome w w' failed m f f') :
    f'.firstEntryId = f.firstEntryId := by
  rcases h with ⟨-, -, tgt, -, -, rfl, -⟩ | ⟨-, rfl⟩
  · rfl
  · rfl

theorem Outcome.gone_iff (h : Outcome w w' failed m f f') :
    failed ∉ f'.ensemble ↔ (failed ∈ f.ensemble → Mendable w m failed f) := by
  rcases h with ⟨-, hmend, tgt, -, hne, rfl, -⟩ | ⟨hnot, rfl⟩
  · simp [swapped, hne.symm, hmend]
  · constructor
    · intro hmiss hit
      exact absurd hit hmiss
    · intro hmend hit
      exact hnot ⟨hit, hmend hit⟩

theorem After.later (h : After w w' failed done m m') (hkept : Kept w' w'') :
    After w w'' failed done m m' where
  id := h.id
  state := h.state
  confirmed := h.confirmed
  fragments := h.fragments.imp fun _ _ hf => hf.imp_left (And.imp_right (·.later hkept))

theorem After.firsts (h : After w w' failed done m m') :
    m'.fragments.map Fragment.firstEntryId = m.fragments.map Fragment.firstEntryId := by
  have hfirsts : List.Forall₂ (fun i j => j = i) (m.fragments.map Fragment.firstEntryId)
      (m'.fragments.map Fragment.firstEntryId) := by
    rw [List.forall₂_map_left_iff, List.forall₂_map_right_iff]
    refine h.fragments.imp fun f f' hf => ?_
    rcases hf with ⟨-, hf⟩ | ⟨-, rfl⟩
    · exact hf.first
    · rfl
  exact List.forall₂_eq_eq_eq ▸ hfirsts.flip

theorem After.sorted (h : After w w' failed done m m')
    (hsorted : m.fragments.Pairwise fun f g => f.firstEntryId < g.firstEntryId) :
    m'.fragments.Pairwise fun f g => f.firstEntryId < g.firstEntryId := by
  rw [← List.pairwise_map (f := Fragment.firstEntryId) (R := (· < ·))] at hsorted ⊢
  rwa [h.firsts]

theorem endEntryId_eq (m : LedgerMetadata) (f : Fragment) :
    endEntryId m f = ((m.fragments.map Fragment.firstEntryId).find?
      fun i => decide (i > f.firstEntryId)).getD m.lastAddConfirmed := by
  rw [List.find?_map]
  unfold endEntryId Function.comp
  cases m.fragments.find? fun g => decide (g.firstEntryId > f.firstEntryId) <;> rfl

theorem After.copyRange (h : After w w' failed done m m') (f : Fragment) (i : Nat) :
    copyRange m' f i = copyRange m f i := by
  unfold RestoreReplication.copyRange
  rw [endEntryId_eq, endEntryId_eq, h.firsts, h.confirmed]

theorem forall₂_mem {α : Type} {R : α → α → Prop} {as bs : List α} (h : List.Forall₂ R as bs)
    {a : α} (ha : a ∈ as) : ∃ b ∈ bs, R a b := by
  induction h with
  | nil => cases ha
  | @cons a' b' _ _ hab _ ih =>
    rcases List.mem_cons.mp ha with rfl | ha
    · exact ⟨b', List.mem_cons_self, hab⟩
    · obtain ⟨b, hb, hR⟩ := ih ha
      exact ⟨b, List.mem_cons_of_mem _ hb, hR⟩

theorem forall₂_all_iff {α : Type} {R : α → α → Prop} {p q : α → Prop} {as bs : List α}
    (h : List.Forall₂ R as bs) (hR : ∀ a b, R a b → (q b ↔ p a)) :
    (∀ b ∈ bs, q b) ↔ ∀ a ∈ as, p a := by
  induction h with
  | nil => simp
  | cons hab _ ih => rw [List.forall_mem_cons, List.forall_mem_cons, hR _ _ hab, ih]

theorem After.pending (h : After w w' failed done m m') (hf : f ∈ m.fragments)
    (hnew : taskOf failed m f ∉ done) : f ∈ m'.fragments := by
  obtain ⟨f', hf', ⟨hdone, -⟩ | ⟨-, rfl⟩⟩ := forall₂_mem h.fragments hf
  · exact absurd hdone hnew
  · exact hf'

theorem forall₂_replaceMember {R S : Fragment → Fragment → Prop} {fs fs' : List Fragment}
    {tgt : NodeId} (h : List.Forall₂ R fs fs')
    (hsorted : fs.Pairwise fun f g => f.firstEntryId < g.firstEntryId) (hf : f ∈ fs)
    (hfirst : ∀ g g', R g g' → g'.firstEntryId = g.firstEntryId)
    (hnew : ∀ f', R f f' → S f (swapped failed tgt f'))
    (hold : ∀ g g', R g g' → g.firstEntryId ≠ f.firstEntryId → S g g') :
    List.Forall₂ S fs (replaceMember failed tgt f.firstEntryId fs') := by
  induction h with
  | nil => cases hf
  | @cons g g' gs gs' hg hgs ih =>
    obtain ⟨hlater, hsorted⟩ := List.pairwise_cons.mp hsorted
    unfold replaceMember
    rcases List.mem_cons.mp hf with rfl | hf
    · rw [if_pos (hfirst _ _ hg)]
      refine .cons (hnew g' hg) ?_
      have hrest := (List.forall₂_and_left gs gs').mpr ⟨hlater, hgs⟩
      exact hrest.imp fun a b hab => hold a b hab.2 hab.1.ne'
    · have hne := (hlater f hf).ne
      rw [if_neg (hfirst _ _ hg ▸ hne)]
      exact .cons (hold g g' hg hne) (ih hsorted hf)

end Outcomes

section Restores
variable {w : World} {f : Fragment}

def Copying : Op → Prop
  | .fenceLedger _ _ | .transitionState _ _ _ => False
  | _ => True

theorem kept_perform {o : Op} (ho : Copying o) : Kept w (perform crc32 w o).1 := by
  cases o with
  | putLedger m =>
    refine ⟨?_, rfl, fun _ => rfl, fun _ _ h => h⟩
    change (w.store.putLedger m).1.listNodes = w.store.listNodes
    rcases w.store.putLedger_cases m with ⟨cur, -, -, hwrite⟩ | ⟨e, herr⟩
    · rw [hwrite]
      rfl
    · rw [herr]
  | addEntry n e =>
    have hreplica (n' : NodeId) : (perform crc32 w (.addEntry n e)).1.replica n' = _ :=
      replica_setReplica w n n' _
    by_cases hok : e.validateDigest crc32 = true ∧ e.ledgerId ∉ (w.replica n).fences
    · obtain ⟨-, hfences, hentries⟩ := addEntry_taken n hok.1 hok.2
      refine ⟨rfl, rfl, fun n' => ?_, fun n' k hk => ?_⟩
      · rw [hreplica]
        split_ifs with hn
        · rw [hfences, hn]
        · rfl
      · rw [hreplica]
        split_ifs with hn
        · rw [hn] at hk
          simp [hentries, hk]
        · exact hk
    · obtain ⟨err, herr, -⟩ := addEntry_refused n hok
      have hsame (n' : NodeId) : (perform crc32 w (.addEntry n e)).1.replica n' = w.replica n' := by
        rw [hreplica, herr]
        split_ifs with hn
        · rw [hn]
        · rfl
      exact ⟨rfl, rfl, fun n' => by rw [hsame], fun n' k hk => by rwa [hsame]⟩
  | fenceLedger _ _ => exact ho.elim
  | transitionState _ _ _ => exact ho.elim
  | _ => exact .refl w

theorem kept_answerAt {o : Op} (ho : Copying o) : Kept s.2 (answerAt crc32 net s o).1.2 := by
  change Kept s.2 ((net s.1 o).send (perform crc32 s.2 o) s.2).1
  cases net s.1 o with
  | delivered => exact kept_perform ho
  | lostRequest e => exact .refl _
  | lostReply e => exact kept_perform ho

theorem restoreReplication_copying (m : LedgerMetadata) (failed : NodeId) (fromId : Nat) :
    (restoreReplication m failed fromId).Uses Copying := by
  rw [restoreReplication_eq]
  refine (restorePlan_uses trivial (fun _ => trivial) (fun _ _ _ => trivial) (fun _ _ => trivial)
    ..).bind fun plan => ?_
  exact (Prog.uses_request trivial).bind fun _ => Prog.uses_pure _

theorem kept_restore (m : LedgerMetadata) (failed : NodeId) (fromId : Nat) :
    Kept s.2 (runAlone crc32 net (restoreReplication m failed fromId) s).1.2 :=
  (restoreReplication_copying m failed fromId).keeps (Q := fun t : Clocked => Kept s.2 t.2)
    (fun _ _ ho ht => ht.trans (kept_answerAt ho)) (.refl _)

/-- An error leaves the metadata as it is. -/
def Unwritten (s t : Clocked) (r : Except FolioError Unit) : Prop :=
  ∀ e, r = .error e → t.2.store = s.2.store

theorem putLedger_unwritten (hnet : Static net up) (m : LedgerMetadata) :
    Yields crc32 net (putLedger m) s fun t r => ∀ e, r = .error e → t.2.store = s.2.store := by
  have hdelivered : net s.1 (.putLedger m) = .delivered :=
    hnet.answers _ _ fun x hx => by cases hx
  refine store_yields rfl fun t ht e he => ?_
  rw [hdelivered] at ht he
  change t.2.store = (s.2.store.putLedger m).1 at ht
  change (s.2.store.putLedger m).2 = .error e at he
  rcases s.2.store.putLedger_cases m with ⟨cur, -, -, hwrite⟩ | ⟨e, herr⟩
  · rw [hwrite] at he
    cases he
  · rw [ht, herr]

theorem restore_unwritten (hnet : Static net up) (m : LedgerMetadata) (fromId : Nat) :
    Yields crc32 net (restoreReplication m failed fromId) s (Unwritten s) := by
  rw [restoreReplication_eq]
  refine (quiet_yields (restorePlan_quiet ..) s).bind (fun t plan ht => ?_)
    fun _ _ ht _ _ => ht
  refine (putLedger_unwritten hnet _).bind (fun _ _ _ _ he => by cases he) ?_
  exact fun u e hu _ _ => (hu e rfl).trans ht

theorem restore_error (hnet : Static net up) {fromId : Nat} {e : FolioError}
    (h : runAlone crc32 net (restoreReplication m failed fromId) s = (t, .error e)) :
    t.2.store = s.2.store ∧ Kept s.2 t.2 := by
  have hstore : Yields crc32 net (restoreReplication m failed fromId) s (Unwritten s) :=
    restore_unwritten hnet m fromId
  have hkept : Kept s.2 (runAlone crc32 net (restoreReplication m failed fromId) s).1.2 :=
    kept_restore m failed fromId
  change Unwritten s (runAlone crc32 net _ s).1 (runAlone crc32 net _ s).2 at hstore
  rw [h] at hstore hkept
  exact ⟨hstore e rfl, hkept⟩

theorem CanRestore.congr {fromId : Nat} (hid : m'.id = m.id)
    (hrange : ∀ f, copyRange m' f fromId = copyRange m f fromId)
    (howner : LedgerHandle.owner m'.fragments fromId = LedgerHandle.owner m.fragments fromId)
    (h : CanRestore up w m' failed fromId) : CanRestore up w m failed fromId := by
  obtain ⟨f, src, tgt, hchosen, hcan⟩ := h
  rw [hrange, hid] at hcan
  exact ⟨f, src, tgt, { hchosen with owner := howner ▸ hchosen.owner }, hcan⟩

end Restores

section Tasks
variable {w w' : World} {f : Fragment}

structure Progress (crc32 : Bytes → UInt32) (w : World) (failed : NodeId)
    (done : List ReReplicationTask) (s : Clocked) : Prop where
  kept : Kept w s.2
  served : ∀ n, Served crc32 (s.2.replica n)
  rows : ∀ m ∈ w.store.listLedgers, ∃ m', row s m.id = some m' ∧ After w s.2 failed done m m'

theorem mem_tasks_cons {m₁ m₂ : LedgerMetadata} {f₁ f₂ : Fragment} :
    taskOf failed m₁ f₁ ∈ taskOf failed m₂ f₂ :: done ↔
      m₁.id = m₂.id ∧ f₁.firstEntryId = f₂.firstEntryId ∨ taskOf failed m₁ f₁ ∈ done := by
  simp [taskOf]

theorem After.other {m₂ : LedgerMetadata} (h : After w w' failed done m m')
    (hne : m.id ≠ m₂.id) : After w w' failed (taskOf failed m₂ f :: done) m m' := by
  refine { h with fragments := h.fragments.imp fun g g' hg => ?_ }
  simpa only [mem_tasks_cons, hne, false_and, false_or] using hg

theorem After.unmendable (h : After w w' failed done m m')
    (hsorted : m.fragments.Pairwise fun f g => f.firstEntryId < g.firstEntryId)
    (hf : f ∈ m.fragments) (hnew : taskOf failed m f ∉ done) (hmend : ¬Mendable w m failed f) :
    After w w' failed (taskOf failed m f :: done) m m' := by
  have hall := (List.forall₂_and_left _ _).mpr ⟨fun g hg => hg, h.fragments⟩
  refine { h with fragments := hall.imp fun g g' hg => ?_ }
  rw [mem_tasks_cons]
  by_cases hfirst : g.firstEntryId = f.firstEntryId
  · have hgf : g = f :=
      Option.some.inj ((owner_first hsorted hg.1).symm.trans (hfirst ▸ owner_first hsorted hf))
    subst hgf
    rcases hg.2 with ⟨hdone, -⟩ | ⟨-, rfl⟩
    · exact absurd hdone hnew
    · exact .inl ⟨.inl ⟨rfl, rfl⟩, .inr ⟨fun hboth => hmend hboth.2, rfl⟩⟩
  · simpa only [hfirst, and_false, false_or] using hg.2

theorem After.mended {tgt : NodeId} (h : After w w' failed done m m')
    (hsorted : m.fragments.Pairwise fun f g => f.firstEntryId < g.firstEntryId)
    (hf : f ∈ m.fragments) (hnew : taskOf failed m f ∉ done)
    (hout : Outcome w w' failed m f (swapped failed tgt f)) :
    After w w' failed (taskOf failed m f :: done) m (rewritten m' failed tgt f) where
  id := h.id
  state := h.state
  confirmed := h.confirmed
  fragments := by
    refine forall₂_replaceMember h.fragments hsorted hf ?_ ?_ ?_
    · rintro g g' (⟨-, hg⟩ | ⟨-, rfl⟩)
      · exact hg.first
      · rfl
    · rintro f' (⟨hdone, -⟩ | ⟨-, rfl⟩)
      · exact absurd hdone hnew
      · exact .inl ⟨List.mem_cons_self, hout⟩
    · intro g g' hg hfirst
      simpa only [mem_tasks_cons, hfirst, and_false, false_or] using hg

theorem process_run (hnet : Static net up) (hrow : row s m.id = some m')
    (hstate : m'.state ≠ .Open) :
    runAlone crc32 net (process (taskOf failed m f)) s =
      runAlone crc32 net (restoreReplication m' failed f.firstEntryId) (s.1 + 1, s.2) := by
  have hget : runAlone crc32 net (getLedger m.id) s = ((s.1 + 1, s.2), .ok m') := by
    refine (ask_run (hnet.answers _ _ fun x hx => by cases hx)).trans ?_
    change _ = (_, _)
    simp only [perform, Store.getLedger]
    change s.2.store.ledgers.get m.id = some m' at hrow
    rw [hrow]
  have hmeta : runAlone crc32 net (metadataFor (taskOf failed m f)) s =
      ((s.1 + 1, s.2), .ok m') := by
    refine (Prog.run_bind_of_ok (I := Service) _ hget).trans ?_
    rw [if_neg hstate]
    rfl
  exact Prog.run_bind_of_ok (I := Service) _ hmeta

variable (hnet : Static net up) (hup : ∀ n, n ≠ failed → up n) (h : Ready w failed)
include hnet hup h

theorem restore_after_iff (hp : Progress crc32 w failed done s) (hm : m ∈ w.store.listLedgers)
    (hf : f ∈ m.fragments) (hit : failed ∈ f.ensemble) (hnew : taskOf failed m f ∉ done)
    (hrow : row s m.id = some m') (hafter : After w s.2 failed done m m') (n : Nat) :
    (runAlone crc32 net (restoreReplication m' failed f.firstEntryId) (n, s.2)).2 = .ok () ↔
      Mendable w m failed f := by
  have hsorted := h.increasing m hm
  have howner : LedgerHandle.owner m'.fragments f.firstEntryId =
      LedgerHandle.owner m.fragments f.firstEntryId := by
    rw [owner_first (hafter.sorted hsorted) (hafter.pending hf hnew), owner_first hsorted hf]
  have hversion : (s.2.store.ledgers.get m'.id).map LedgerMetadata.version = some m'.version := by
    rw [hafter.id]
    exact congrArg (Option.map _) hrow
  have hsame : CanRestore up s.2 m' failed f.firstEntryId ↔
      CanRestore up s.2 m failed f.firstEntryId :=
    ⟨CanRestore.congr hafter.id (hafter.copyRange · _) howner,
      CanRestore.congr hafter.id.symm (fun g => (hafter.copyRange g _).symm) howner.symm⟩
  rw [restore_ok_iff (s := (n, s.2)) hnet hp.served, hsame, canRestore_iff hup h hp.kept hm hf hit]
  exact and_iff_left hversion

theorem Progress.process (hkeyed : w.store.WellKeyed) (hp : Progress crc32 w failed done s)
    (hm : m ∈ w.store.listLedgers) (hf : f ∈ m.fragments) (hit : failed ∈ f.ensemble)
    (hstate : m.state ≠ .Open) (hnew : taskOf failed m f ∉ done) :
    Progress crc32 w failed (taskOf failed m f :: done)
      (runAlone crc32 net (process (taskOf failed m f)) s).1 := by
  obtain ⟨m', hrow, hafter⟩ := hp.rows m hm
  have hiff := restore_after_iff hnet hup h hp hm hf hit hnew hrow hafter (s.1 + 1)
  have hsorted := h.increasing m hm
  have hsame {m₂ : LedgerMetadata} (hm₂ : m₂ ∈ w.store.listLedgers) (hid : m₂.id = m.id) :
      m₂ = m :=
    List.inj_on_of_nodup_map (Store.WellKeyed.listLedgers_nodup hkeyed) hm₂ hm hid
  rw [process_run hnet hrow (hafter.state ▸ hstate)]
  cases hr : runAlone crc32 net (restoreReplication m' failed f.firstEntryId) (s.1 + 1, s.2) with
  | mk t r =>
  rw [hr] at hiff
  cases r with
  | error e =>
    obtain ⟨hstore, hkept⟩ := restore_error hnet hr
    refine ⟨hp.kept.trans hkept, served_next (s := (s.1 + 1, s.2)) hp.served hr, fun m₂ hm₂ => ?_⟩
    obtain ⟨m₂', hrow₂, hafter₂⟩ := hp.rows m₂ hm₂
    refine ⟨m₂', (congrArg (·.ledgers.get m₂.id) hstore).trans hrow₂, ?_⟩
    by_cases hid : m₂.id = m.id
    · obtain rfl := hsame hm₂ hid
      exact (hafter₂.later hkept).unmendable hsorted hf hnew (by simp [← hiff])
    · exact (hafter₂.later hkept).other hid
  | ok _ =>
    obtain ⟨f', src, tgt, w', hchosen, hcopied, hheld, -, -, ht⟩ :=
      restore_effect (s := (s.1 + 1, s.2)) hnet.grpc hp.served hr
    obtain rfl : f = f' := Option.some.inj
      ((owner_first (hafter.sorted hsorted) (hafter.pending hf hnew)).symm.trans hchosen.owner)
    have hkept : Kept s.2 t.2 := ht ▸ kept_of_copied hcopied _ _
    have hmended : Outcome w t.2 failed m f (swapped failed tgt f) := by
      refine .inl ⟨hit, hiff.mp rfl, tgt, hchosen.ne_failed.2.2.1, hchosen.ne_failed.2.2.2, rfl, ?_⟩
      intro i hi
      rw [← hafter.copyRange] at hi
      have hentry := hcopied.entries (m'.id, i)
      rw [if_pos ⟨rfl, hi⟩] at hentry
      rw [ht, ← hafter.id]
      change ((w'.replica tgt).entries.get (m'.id, i)).isSome
      simp [hentry, hheld i hi]
    refine ⟨hp.kept.trans hkept, served_next (s := (s.1 + 1, s.2)) hp.served hr, fun m₂ hm₂ => ?_⟩
    obtain ⟨m₂', hrow₂, hafter₂⟩ := hp.rows m₂ hm₂
    unfold row
    rw [ht]
    by_cases hid : m₂.id = m.id
    · obtain rfl := hsame hm₂ hid
      refine ⟨rewritten m' failed tgt f, ?_, ?_⟩
      · rw [← hafter.id]
        exact Table.get_put_self _ _ _
      · exact ht ▸ (hafter.later hkept).mended hsorted hf hnew hmended
    · refine ⟨m₂', ?_, ht ▸ (hafter₂.later hkept).other hid⟩
      exact (Table.get_put_ne _ _ (hafter.id ▸ hid)).trans hrow₂

/-- By induction over the tasks; no two of them are for one fragment. -/
theorem Progress.tasks (hkeyed : w.store.WellKeyed) {tasks : List ReReplicationTask}
    (hp : Progress crc32 w failed done s)
    (htasks : ∀ task ∈ tasks, ∃ m ∈ w.store.listLedgers, m.state ≠ .Open ∧ ∃ f ∈ m.fragments,
      failed ∈ f.ensemble ∧ task = taskOf failed m f)
    (hnodup : tasks.Nodup) (hnew : ∀ task ∈ tasks, task ∉ done)
    (hrun : run (step crc32 net) s tasks = some t) :
    Progress crc32 w failed (tasks.reverse ++ done) t := by
  induction tasks generalizing s done with
  | nil =>
    cases hrun
    exact hp
  | cons task tasks ih =>
    obtain ⟨hhead, hrest⟩ := List.forall_mem_cons.mp htasks
    obtain ⟨m, hm, hstate, f, hf, hit, rfl⟩ := hhead
    obtain ⟨hnot, hnodup⟩ := List.nodup_cons.mp hnodup
    obtain ⟨hfirst, hnew⟩ := List.forall_mem_cons.mp hnew
    have hnext := hp.process hnet hup h hkeyed hm hf hit hstate hfirst
    rw [List.reverse_cons, List.append_assoc, List.singleton_append]
    refine ih hnext hrest hnodup (fun task htask => ?_) hrun
    rw [List.mem_cons, not_or]
    exact ⟨fun heq => hnot (heq ▸ htask), hnew task htask⟩

end Tasks

section Audit
variable {s : Clocked}

def queued (failed : NodeId) (st : Store) : List ReReplicationTask :=
  st.listLedgers.flatMap (tasksFor failed st.listNodes)

theorem nodeLost_run (hnet : Static net up) : runAlone crc32 net (nodeLost failed) s =
    runAlone crc32 net (runTasks (queued failed s.2.store)) (s.1 + 2, s.2) := by
  have hledgers : runAlone crc32 net listLedgers s = ((s.1 + 1, s.2), .ok s.2.store.listLedgers) :=
    ask_run (hnet.answers _ _ fun x hx => by cases hx)
  have hnodes : runAlone crc32 net listNodes (s.1 + 1, s.2) =
      ((s.1 + 2, s.2), .ok s.2.store.listNodes) :=
    ask_run (hnet.answers _ _ fun x hx => by cases hx)
  have htasks : runAlone crc32 net (enqueueForNode failed) s =
      ((s.1 + 2, s.2), .ok (queued failed s.2.store)) := by
    refine (Prog.run_bind_of_ok (I := Service) _ hledgers).trans ?_
    exact (Prog.run_bind_of_ok (I := Service) _ hnodes).trans rfl
  exact Prog.run_bind_of_ok (I := Service) _ htasks

theorem mem_queued {st : Store} {task : ReReplicationTask} : task ∈ queued failed st ↔
    ∃ m ∈ st.listLedgers, ∃ f ∈ m.fragments, (failed ∈ f.ensemble ∧
      (targetNode f failed st.listNodes).isSome) ∧ task = taskOf failed m f := by
  simp only [queued, List.mem_flatMap, tasksFor, List.mem_map, List.mem_filter, Bool.and_eq_true,
    decide_eq_true_eq, and_assoc, taskOf, @eq_comm _ task]

theorem queued_nodup (hkeyed : s.2.store.WellKeyed) (h : Ready s.2 failed) :
    (queued failed s.2.store).Nodup := by
  refine List.nodup_flatMap.mpr ⟨fun m hm => ?_, ?_⟩
  · have hfirsts : (m.fragments.map Fragment.firstEntryId).Nodup :=
      List.pairwise_map.mpr ((h.increasing m hm).imp Nat.ne_of_lt)
    refine List.Nodup.of_map ReReplicationTask.fromEntryId ?_
    unfold tasksFor
    rw [List.map_map]
    exact hfirsts.sublist (List.filter_sublist.map _)
  · refine (List.pairwise_map.mp hkeyed.listLedgers_nodup).imp fun {m₁ m₂} hne => ?_
    intro task h₁ h₂
    unfold tasksFor at h₁ h₂
    obtain ⟨f₁, -, rfl⟩ := List.mem_map.mp h₁
    obtain ⟨f₂, -, heq⟩ := List.mem_map.mp h₂
    exact hne (congrArg ReReplicationTask.ledgerId heq).symm

theorem runTasks_ok (tasks : List ReReplicationTask) (s : Clocked) :
    (runAlone crc32 net (runTasks tasks) s).2 = .ok () := by
  induction tasks generalizing s with
  | nil => rfl
  | cons task tasks ih =>
    have hcaught : ∃ u, runAlone crc32 net (tryCatch (process task) fun _ => pure ()) s =
        (u, .ok ()) := by
      unfold runAlone
      rw [Prog.run_handle]
      split
      · exact ⟨_, rfl⟩
      · exact ⟨_, rfl⟩
    obtain ⟨u, hu⟩ := hcaught
    rw [runTasks, runAlone, Prog.run_bind_of_ok (I := Service) _ hu]
    exact ih u

theorem progress_start (hkeyed : s.2.store.WellKeyed) (hserved : ∀ n, Served crc32 (s.2.replica n))
    (k : Nat) : Progress crc32 s.2 failed [] (k, s.2) := by
  refine ⟨.refl _, hserved, fun m hm => ⟨m, ?_, rfl, rfl, rfl, ?_⟩⟩
  · obtain ⟨id, hid⟩ := (s.2.store.mem_listLedgers m).mp hm
    obtain rfl := hkeyed id m hid
    exact hid
  · exact List.forall₂_same.mpr fun f _ => .inr ⟨List.not_mem_nil, rfl⟩

theorem After.outcomes {w' : World} (hafter : After s.2 w' failed done m m') (h : Ready s.2 failed)
    (hdone : ∀ task ∈ queued failed s.2.store, task ∈ done) (hm : m ∈ s.2.store.listLedgers) :
    List.Forall₂ (Outcome s.2 w' failed m) m.fragments m'.fragments := by
  have hall := (List.forall₂_and_left _ _).mpr ⟨fun f hf => hf, hafter.fragments⟩
  refine hall.imp fun f f' hf => ?_
  rcases hf with ⟨hf, ⟨-, hout⟩ | ⟨hnot, rfl⟩⟩
  · exact hout
  · refine .inr ⟨fun hboth => hnot (hdone _ ?_), rfl⟩
    refine mem_queued.mpr ⟨m, hm, f', hf, ⟨hboth.1, ?_⟩, rfl⟩
    obtain ⟨info, hinfo, hout⟩ := (h.copyable m hm f' hf hboth.1).2
    exact List.find?_isSome.mpr ⟨info, hinfo, decide_eq_true hout⟩

end Audit
end Folio.Auditor
