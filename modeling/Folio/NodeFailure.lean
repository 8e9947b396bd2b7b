import Folio.RestoreOutcome

/-! The failure of a node: `handle_node_failure` goes through the stored ledgers and restores
every fragment that the node is a member of. -/
namespace Folio.NodeFailure
open KeyedTable Protocol Metadata LedgerClient RemoteProgram TransitionSystem Recovery
open RecoveryWorker RestoreReplication RestoreOutcome
open Cluster (appendActs changeActs)
variable {crc32 : Bytes → UInt32} {net : Net} {up : NodeId → Prop} {s t : Clocked}
  {m : LedgerMetadata} {failed : NodeId}

section Premises

def Copyable (w : World) (failed : NodeId) (m : LedgerMetadata) (f : Fragment) : Prop :=
  (∀ n ∈ f.ensemble, n ≠ failed → n ∈ w.resolver ∧
    ∀ i ∈ copyRange m f f.firstEntryId, ((w.replica n).entries.get (m.id, i)).isSome) ∧
  ∃ info ∈ w.store.listNodes, info.nodeId ≠ failed ∧ info.nodeId ∉ f.ensemble

instance (w : World) (failed : NodeId) (m : LedgerMetadata) (f : Fragment) :
    Decidable (Copyable w failed m f) := by
  unfold Copyable
  infer_instance

/-- The fragments of every ledger start one after the other, those of the failed node can be
copied, and the other nodes have known addresses. -/
structure Ready (w : World) (failed : NodeId) : Prop where
  increasing : ∀ m ∈ w.store.listLedgers,
    m.fragments.Pairwise fun f g => f.firstEntryId < g.firstEntryId
  copyable : ∀ m ∈ w.store.listLedgers, ∀ f ∈ m.fragments, failed ∈ f.ensemble →
    Copyable w failed m f
  known : ∀ info ∈ w.store.listNodes, info.nodeId ≠ failed → info.nodeId ∈ w.resolver

instance (w : World) (failed : NodeId) : Decidable (Ready w failed) :=
  decidable_of_iff _ ⟨fun h => ⟨h.1, h.2.1, h.2.2⟩,
    fun h => And.intro h.increasing (And.intro h.copyable h.known)⟩

/-- A member is left to copy from, and the node to copy to takes what there is to copy. -/
structure Mendable (w : World) (m : LedgerMetadata) (failed : NodeId) (f : Fragment) : Prop where
  survivor : ∃ n ∈ f.ensemble, n ≠ failed
  unfenced : copyRange m f f.firstEntryId = [] ∨
    ∀ info ∈ targetNode f failed w.store.listNodes, m.id ∉ (w.replica info.nodeId).fences

instance (w : World) (m : LedgerMetadata) (failed : NodeId) (f : Fragment) :
    Decidable (Mendable w m failed f) :=
  decidable_of_iff _ ⟨fun h => ⟨h.1, h.2⟩, fun h => And.intro h.survivor h.unfenced⟩

def Clean (failed : NodeId) (m : LedgerMetadata) : Prop :=
  ∀ f ∈ m.fragments, failed ∉ f.ensemble

def MendableLedger (w : World) (failed : NodeId) (m : LedgerMetadata) : Prop :=
  ∀ f ∈ m.fragments, failed ∈ f.ensemble →
    Mendable w m failed f ∧ ∀ g ∈ m.fragments, failed ∈ g.ensemble → g = f

instance (w : World) (failed : NodeId) (m : LedgerMetadata) :
    Decidable (MendableLedger w failed m) := by
  unfold MendableLedger
  infer_instance

end Premises

section Fragment
variable {w : World} {f : Fragment}

structure Kept (w w' : World) : Prop where
  nodes : w'.store.listNodes = w.store.listNodes
  resolver : w'.resolver = w.resolver
  fences : ∀ n, (w'.replica n).fences = (w.replica n).fences
  entries : ∀ n k, ((w.replica n).entries.get k).isSome → ((w'.replica n).entries.get k).isSome

theorem Kept.refl (w : World) : Kept w w := ⟨rfl, rfl, fun _ => rfl, fun _ _ h => h⟩

theorem Kept.trans {w' w'' : World} (h : Kept w w') (h' : Kept w' w'') : Kept w w'' where
  nodes := h'.nodes.trans h.nodes
  resolver := h'.resolver.trans h.resolver
  fences n := (h'.fences n).trans (h.fences n)
  entries n k hk := h'.entries n k (h.entries n k hk)

theorem kept_of_copied {w' : World} {id : Nat} {src tgt : NodeId} {ids : List Nat}
    (h : Copied w w' id src tgt ids) (key : Nat) (m : LedgerMetadata) :
    Kept w { w' with store := (w.store.writeLedger key m).1 } where
  nodes := rfl
  resolver := h.resolver
  fences n := by
    change (w'.replica n).fences = _
    by_cases hn : n = tgt
    · rw [hn, h.fences]
    · rw [h.others n hn]
  entries n k hk := by
    change ((w'.replica n).entries.get k).isSome
    by_cases hn : n = tgt
    · subst hn
      simp [h.entries, hk]
    · rwa [h.others n hn]

theorem served_run {α : Type} (p : Remote α) (h : ∀ n, Served crc32 (s.2.replica n)) :
    ∀ n, Served crc32 ((runAlone crc32 net p s).1.2.replica n) := by
  refine Prog.run_keeps (I := Service) (P := fun s : Clocked => ∀ n, Served crc32 (s.2.replica n))
    (answerAt crc32 net) (fun s o hs => ?_) p h
  have hperform : ∀ n, Served crc32 ((perform crc32 s.2 o).1.replica n) := by
    intro n
    cases o with
    | addEntry n' e =>
      refine (replica_setReplica s.2 n' n _).symm ▸ ?_
      split_ifs
      · exact (hs n').add n' e
      · exact hs n
    | fenceLedger n' id =>
      refine (replica_setReplica s.2 n' n _).symm ▸ ?_
      split_ifs
      · exact (hs n').fence id
      · exact hs n
    | _ => exact hs n
  change ∀ n, Served crc32 (((net s.1 o).send (perform crc32 s.2 o) s.2).1.replica n)
  cases net s.1 o with
  | delivered => exact hperform
  | lostRequest e => exact hs
  | lostReply e => exact hperform

theorem owner_first {fs : List Fragment}
    (h : fs.Pairwise fun f g => f.firstEntryId < g.firstEntryId) (hf : f ∈ fs) :
    LedgerHandle.owner fs f.firstEntryId = some f := by
  obtain ⟨front, back, rfl⟩ := List.append_of_mem hf
  refine owner_of_split le_rfl fun g hg => ?_
  exact (List.pairwise_cons.mp (List.pairwise_append.mp h).2.1).1 g hg

theorem canRestore_iff (hup : ∀ n, n ≠ failed → up n) (h : Ready w failed) (hk : Kept w s.2)
    (hm : m ∈ w.store.listLedgers) (hf : f ∈ m.fragments) (hit : failed ∈ f.ensemble) :
    CanRestore up s.2 m failed f.firstEntryId ↔ Mendable w m failed f := by
  have howner := owner_first (h.increasing m hm) hf
  constructor
  · rintro ⟨f', src, tgt, hchosen, hcan⟩
    obtain rfl : f = f' := Option.some.inj (howner.symm.trans hchosen.owner)
    refine ⟨⟨src, hchosen.ne_failed.1, hchosen.ne_failed.2.1⟩, hcan.imp_right ?_⟩
    rintro ⟨-, -, hfence, -⟩ info hinfo
    have htarget := hchosen.target
    rw [hk.nodes, hinfo] at htarget
    cases htarget
    rwa [hk.fences] at hfence
  · rintro ⟨⟨n, hn, hne⟩, hfence⟩
    obtain ⟨src, hsrc⟩ : ∃ src, sourceNode f failed = some src :=
      Option.isSome_iff_exists.mp (List.find?_isSome.mpr ⟨n, hn, decide_eq_true hne⟩)
    obtain ⟨hheld, info', hinfo', hout⟩ := h.copyable m hm f hf hit
    obtain ⟨info, hinfo⟩ : ∃ info, targetNode f failed w.store.listNodes = some info :=
      Option.isSome_iff_exists.mp (List.find?_isSome.mpr ⟨info', hinfo', decide_eq_true hout⟩)
    have hsrcNe : src ≠ failed := by simpa using List.find?_some hsrc
    have htgtNe : info.nodeId ≠ failed := by
      have hfound := List.find?_some hinfo
      exact (of_decide_eq_true hfound).1
    obtain ⟨hknown, hheld⟩ := hheld src (List.mem_of_find?_eq_some hsrc) hsrcNe
    refine ⟨f, src, info.nodeId, ⟨howner, hsrc, ?_, ?_, ?_⟩, hfence.imp_right fun hfence => ?_⟩
    · rw [hk.nodes, hinfo]
      rfl
    · rwa [hk.resolver]
    · rw [hk.resolver]
      exact h.known info (List.mem_of_find?_eq_some hinfo) htgtNe
    · refine ⟨hup src hsrcNe, hup _ htgtNe, ?_, fun i hi => hk.entries src _ (hheld i hi)⟩
      rw [hk.fences]
      exact hfence info hinfo

def Fresh (s : Clocked) (m : LedgerMetadata) : Prop :=
  (row s m.id).map LedgerMetadata.version = some m.version

def rewritten (m : LedgerMetadata) (failed tgt : NodeId) (f : Fragment) : LedgerMetadata :=
  { restoredMetadata m failed tgt f with version := m.version + 1 }

theorem not_fresh_rewritten {tgt : NodeId} (h : row s m.id = some (rewritten m failed tgt f)) :
    ¬Fresh s m := by
  unfold Fresh
  rw [h]
  simp [rewritten]

theorem repaired (hnet : Static net up) (hserved : ∀ n, Served crc32 (s.2.replica n))
    (hsorted : m.fragments.Pairwise fun f g => f.firstEntryId < g.firstEntryId)
    (hf : f ∈ m.fragments)
    (h : runAlone crc32 net (restoreReplication m failed f.firstEntryId) s = (t, .ok ())) :
    Kept s.2 t.2 ∧ (∀ id, id ≠ m.id → row t id = row s id) ∧
      ∃ tgt, tgt ≠ failed ∧ row t m.id = some (rewritten m failed tgt f) := by
  obtain ⟨f', src, tgt, w', hchosen, hcopied, -, -, -, ht⟩ :=
    restore_effect hnet.grpc hserved h
  obtain rfl : f = f' := Option.some.inj ((owner_first hsorted hf).symm.trans hchosen.owner)
  refine ⟨ht ▸ kept_of_copied hcopied _ _, fun id hid => ?_, tgt, hchosen.ne_failed.2.2.2, ?_⟩
  · unfold row
    rw [ht]
    exact Table.get_put_ne _ _ hid
  · unfold row
    rw [ht]
    exact Table.get_put_self _ _ _

end Fragment

section Ledger
variable {w : World} {f : Fragment} {fs : List Fragment} {ms : List LedgerMetadata}

theorem restoreFragments_hit (h : failed ∈ f.ensemble) (fs : List Fragment) :
    restoreFragments m failed (f :: fs) =
      (restoreReplication m failed f.firstEntryId >>= fun _ => restoreFragments m failed fs) := by
  have : (f.ensemble.any fun n => n == failed) = true := by simpa using h
  rw [restoreFragments, if_pos this]

theorem restoreFragments_miss (h : failed ∉ f.ensemble) (fs : List Fragment) :
    restoreFragments m failed (f :: fs) = restoreFragments m failed fs := by
  have : ¬(f.ensemble.any fun n => n == failed) = true := by simpa using h
  rw [restoreFragments, if_neg this]

theorem served_next {α : Type} {p : Remote α} {r : Except FolioError α}
    (hserved : ∀ n, Served crc32 (s.2.replica n)) (h : runAlone crc32 net p s = (t, r)) :
    ∀ n, Served crc32 (t.2.replica n) := by
  have hrun : ∀ n, Served crc32 ((runAlone crc32 net p s).1.2.replica n) := served_run p hserved
  rwa [h] at hrun

theorem restoreFragments_effect (hnet : Static net up) (hserved : ∀ n, Served crc32 (s.2.replica n))
    (hsorted : m.fragments.Pairwise fun f g => f.firstEntryId < g.firstEntryId)
    (hfs : fs ⊆ m.fragments)
    (h : runAlone crc32 net (restoreFragments m failed fs) s = (t, .ok ())) :
    Kept s.2 t.2 ∧ (∀ id, id ≠ m.id → row t id = row s id) ∧
      ((∀ f ∈ fs, failed ∉ f.ensemble) ∧ t = s ∨ ∃ f ∈ fs, failed ∈ f.ensemble ∧
        ∃ tgt, tgt ≠ failed ∧ row t m.id = some (rewritten m failed tgt f)) := by
  induction fs generalizing s with
  | nil =>
    cases h
    exact ⟨.refl _, fun _ _ => rfl, .inl ⟨by simp, rfl⟩⟩
  | cons f fs ih =>
    obtain ⟨hf, hrest⟩ := List.cons_subset.mp hfs
    by_cases hit : failed ∈ f.ensemble
    · rw [restoreFragments_hit hit] at h
      obtain ⟨u, ⟨⟩, hone, h⟩ := Prog.run_bind_ok (I := Service) _ h
      obtain ⟨hkept, hrows, hrow⟩ := repaired hnet hserved hsorted hf hone
      obtain ⟨hkept', hrows', hlast⟩ := ih (served_next hserved hone) hrest h
      refine ⟨hkept.trans hkept', fun id hid => (hrows' id hid).trans (hrows id hid), .inr ?_⟩
      rcases hlast with ⟨-, rfl⟩ | ⟨g, hg, hlast⟩
      · exact ⟨f, List.mem_cons_self, hit, hrow⟩
      · exact ⟨g, List.mem_cons_of_mem f hg, hlast⟩
    · rw [restoreFragments_miss hit] at h
      obtain ⟨hkept, hrows, hlast⟩ := ih hserved hrest h
      refine ⟨hkept, hrows, hlast.imp ?_ ?_⟩
      · rintro ⟨hmiss, hsame⟩
        exact ⟨List.forall_mem_cons.mpr ⟨hit, hmiss⟩, hsame⟩
      · rintro ⟨g, hg, hlast⟩
        exact ⟨g, List.mem_cons_of_mem f hg, hlast⟩

def Repairable (w : World) (s : Clocked) (m : LedgerMetadata) (failed : NodeId)
    (fs : List Fragment) : Prop :=
  ∀ f ∈ fs, failed ∈ f.ensemble → Mendable w m failed f ∧ Fresh s m ∧
    ∀ g ∈ fs, failed ∈ g.ensemble → g = f

theorem repairable_stale (h : ¬Fresh s m) :
    Repairable w s m failed fs ↔ ∀ f ∈ fs, failed ∉ f.ensemble :=
  ⟨fun hall f hf hit => h (hall f hf hit).2.1, fun hmiss f hf hit => absurd hit (hmiss f hf)⟩

theorem repairable_miss (h : failed ∉ f.ensemble) :
    Repairable w s m failed (f :: fs) ↔ Repairable w s m failed fs := by
  simp [Repairable, h]

theorem repairable_hit (hit : failed ∈ f.ensemble) (hlater : ∀ g ∈ fs, g ≠ f) :
    Repairable w s m failed (f :: fs) ↔
      (Mendable w m failed f ∧ Fresh s m) ∧ ∀ g ∈ fs, failed ∉ g.ensemble := by
  constructor
  · intro h
    obtain ⟨hmend, hfresh, honly⟩ := h f List.mem_cons_self hit
    refine ⟨⟨hmend, hfresh⟩, fun g hg hgit => hlater g hg ?_⟩
    exact honly g (List.mem_cons_of_mem f hg) hgit
  · rintro ⟨⟨hmend, hfresh⟩, hmiss⟩
    have honly : ∀ g ∈ f :: fs, failed ∈ g.ensemble → g = f :=
      List.forall_mem_cons.mpr ⟨fun _ => rfl, fun g hg hgit => absurd hgit (hmiss g hg)⟩
    intro g hg hgit
    obtain rfl := honly g hg hgit
    exact ⟨hmend, hfresh, honly⟩

theorem restoreFragments_ok_iff (hnet : Static net up) (hup : ∀ n, n ≠ failed → up n)
    (h : Ready w failed) (hm : m ∈ w.store.listLedgers)
    (hfs : fs.Sublist m.fragments) (hk : Kept w s.2) (hserved : ∀ n, Served crc32 (s.2.replica n)) :
    (runAlone crc32 net (restoreFragments m failed fs) s).2 = .ok () ↔
      Repairable w s m failed fs := by
  induction fs generalizing s with
  | nil => exact ⟨fun _ f hf => (List.not_mem_nil hf).elim, fun _ => rfl⟩
  | cons f fs ih =>
    have hf : f ∈ m.fragments := hfs.subset List.mem_cons_self
    have hrest : fs.Sublist m.fragments := (List.sublist_cons_self f fs).trans hfs
    by_cases hit : failed ∈ f.ensemble
    · have hlater : ∀ g ∈ fs, g ≠ f := by
        rintro g hg rfl
        exact lt_irrefl _ ((List.pairwise_cons.mp ((h.increasing m hm).sublist hfs)).1 g hg)
      have hone : (runAlone crc32 net (restoreReplication m failed f.firstEntryId) s).2 = .ok () ↔
          Mendable w m failed f ∧ Fresh s m := by
        rw [restore_ok_iff hnet hserved, canRestore_iff hup h hk hm hf hit]
        rfl
      rw [restoreFragments_hit hit, repairable_hit hit hlater, ← hone]
      cases hr : runAlone crc32 net (restoreReplication m failed f.firstEntryId) s with
      | mk u r =>
      cases r with
      | error e =>
        rw [runAlone, Prog.run_bind_of_error (I := Service) _ hr]
        simp
      | ok _ =>
        obtain ⟨hkept, -, tgt, -, hrow⟩ := repaired hnet hserved (h.increasing m hm) hf hr
        have hlast := ih hrest (hk.trans hkept) (served_next hserved hr)
        rw [repairable_stale (not_fresh_rewritten hrow)] at hlast
        rw [runAlone, Prog.run_bind_of_ok (I := Service) _ hr]
        exact hlast.trans (and_iff_right rfl).symm
    · rw [restoreFragments_miss hit, repairable_miss hit]
      exact ih hrest hk hserved

theorem rewritten_clean {tgt : NodeId}
    (hsorted : m.fragments.Pairwise fun f g => f.firstEntryId < g.firstEntryId)
    (hf : f ∈ m.fragments) (honly : ∀ g ∈ m.fragments, failed ∈ g.ensemble → g = f)
    (htgt : tgt ≠ failed) : Clean failed (rewritten m failed tgt f) := by
  obtain ⟨front, back, hfs⟩ := List.append_of_mem hf
  rw [hfs, List.pairwise_append, List.pairwise_cons] at hsorted
  obtain ⟨-, ⟨hback, -⟩, hfront⟩ := hsorted
  have hfrags : (rewritten m failed tgt f).fragments =
      front ++ swapped failed tgt f :: back := by
    have hnone : front.any (fun g => decide (g.firstEntryId = f.firstEntryId)) = false := by
      rw [List.any_eq_false]
      intro g hg
      have := hfront g hg f List.mem_cons_self
      simp [this.ne]
    change replaceMember failed tgt f.firstEntryId m.fragments = _
    rw [hfs, replaceMember_append, hnone]
    simp [replaceMember, swapped]
  intro g hg hit
  rw [hfrags, List.mem_append, List.mem_cons] at hg
  rw [hfs] at honly
  rcases hg with hg | rfl | hg
  · obtain rfl := honly g (by simp [hg]) hit
    exact lt_irrefl _ (hfront g hg g List.mem_cons_self)
  · simp [swapped, htgt.symm] at hit
  · obtain rfl := honly g (by simp [hg]) hit
    exact lt_irrefl _ (hback g hg)

theorem rows_rest (hnew : m.id ∉ ms.map LedgerMetadata.id)
    (hothers : ∀ id, id ≠ m.id → row t id = row s id) (hrows : ∀ m' ∈ ms, row s m'.id = some m') :
    ∀ m' ∈ ms, row t m'.id = some m' := by
  intro m' hm'
  rw [hothers m'.id (fun heq => hnew (heq ▸ List.mem_map_of_mem hm'))]
  exact hrows m' hm'

variable (hnet : Static net up) (hup : ∀ n, n ≠ failed → up n) (h : Ready w failed)
include hnet hup h

theorem ledger_ok_iff (hm : m ∈ w.store.listLedgers) (hk : Kept w s.2)
    (hserved : ∀ n, Served crc32 (s.2.replica n)) (hrow : row s m.id = some m) :
    (runAlone crc32 net (restoreFragments m failed m.fragments) s).2 = .ok () ↔
      MendableLedger w failed m := by
  have hfresh : Fresh s m := congrArg (Option.map _) hrow
  rw [restoreFragments_ok_iff hnet hup h hm (.refl _) hk hserved]
  simp [Repairable, MendableLedger, hfresh]

theorem ledger_effect (hm : m ∈ w.store.listLedgers) (hk : Kept w s.2)
    (hserved : ∀ n, Served crc32 (s.2.replica n)) (hrow : row s m.id = some m)
    (hrun : runAlone crc32 net (restoreFragments m failed m.fragments) s = (t, .ok ())) :
    Kept w t.2 ∧ (∀ id, id ≠ m.id → row t id = row s id) ∧
      ∀ m', row t m.id = some m' → Clean failed m' := by
  have hmend := (ledger_ok_iff hnet hup h hm hk hserved hrow).mp (congrArg Prod.snd hrun)
  obtain ⟨hkept, hrows, hlast⟩ :=
    restoreFragments_effect hnet hserved (h.increasing m hm) (List.Subset.refl _) hrun
  refine ⟨hk.trans hkept, hrows, fun m' hm' => ?_⟩
  rcases hlast with ⟨hmiss, rfl⟩ | ⟨f, hf, hit, tgt, htgt, hlast⟩
  · cases hrow.symm.trans hm'
    exact hmiss
  · cases hlast.symm.trans hm'
    exact rewritten_clean (h.increasing m hm) hf (hmend f hf hit).2 htgt

/-- By induction over the ledgers: each has its own row, so one repair leaves the rows of the
others as they were read. -/
theorem restoreLedgers_ok_iff (hms : ms ⊆ w.store.listLedgers)
    (hids : (ms.map LedgerMetadata.id).Nodup) (hk : Kept w s.2)
    (hserved : ∀ n, Served crc32 (s.2.replica n)) (hrows : ∀ m ∈ ms, row s m.id = some m) :
    (runAlone crc32 net (restoreLedgers failed ms) s).2 = .ok () ↔
      ∀ m ∈ ms, MendableLedger w failed m := by
  induction ms generalizing s with
  | nil => exact ⟨fun _ m hm => (List.not_mem_nil hm).elim, fun _ => rfl⟩
  | cons m ms ih =>
    obtain ⟨hm, hrest⟩ := List.cons_subset.mp hms
    obtain ⟨hrow, hrows⟩ := List.forall_mem_cons.mp hrows
    obtain ⟨hnew, hids⟩ := List.nodup_cons.mp hids
    have hone := ledger_ok_iff hnet hup h hm hk hserved hrow
    rw [List.forall_mem_cons, ← hone]
    cases hr : runAlone crc32 net (restoreFragments m failed m.fragments) s with
    | mk u r =>
    cases r with
    | error e =>
      rw [restoreLedgers, runAlone, Prog.run_bind_of_error (I := Service) _ hr]
      simp
    | ok _ =>
      obtain ⟨hkept, hothers, -⟩ := ledger_effect hnet hup h hm hk hserved hrow hr
      rw [restoreLedgers, runAlone, Prog.run_bind_of_ok (I := Service) _ hr]
      refine (ih hrest hids hkept (served_next hserved hr) (rows_rest hnew hothers hrows)).trans ?_
      simp

theorem restoreLedgers_effect (hms : ms ⊆ w.store.listLedgers)
    (hids : (ms.map LedgerMetadata.id).Nodup) (hk : Kept w s.2)
    (hserved : ∀ n, Served crc32 (s.2.replica n)) (hrows : ∀ m ∈ ms, row s m.id = some m)
    (hrun : runAlone crc32 net (restoreLedgers failed ms) s = (t, .ok ())) {id : Nat}
    {m' : LedgerMetadata} (hm' : row t id = some m') :
    Clean failed m' ∨ row s id = some m' ∧ id ∉ ms.map LedgerMetadata.id := by
  induction ms generalizing s with
  | nil =>
    cases hrun
    exact .inr ⟨hm', List.not_mem_nil⟩
  | cons m ms ih =>
    obtain ⟨hm, hrest⟩ := List.cons_subset.mp hms
    obtain ⟨hrow, hrows⟩ := List.forall_mem_cons.mp hrows
    obtain ⟨hnew, hids⟩ := List.nodup_cons.mp hids
    obtain ⟨u, ⟨⟩, hr, hrun⟩ := Prog.run_bind_ok (I := Service) _ hrun
    obtain ⟨hkept, hothers, hclean⟩ := ledger_effect hnet hup h hm hk hserved hrow hr
    rcases ih hrest hids hkept (served_next hserved hr) (rows_rest hnew hothers hrows) hrun with
      hdone | ⟨hsame, hnot⟩
    · exact .inl hdone
    · by_cases hid : id = m.id
      · exact .inl (hclean m' (hid ▸ hsame))
      · rw [hothers id hid] at hsame
        exact .inr ⟨hsame, List.not_mem_cons_of_ne_of_not_mem hid hnot⟩

end Ledger

section Failure
variable {s : Clocked}

/-- `handle_node_failure` returns `Ok`, and the failed node is a member of no fragment any
more. -/
def Repairs (crc32 : Bytes → UInt32) (net : Net) (failed : NodeId) (s : Clocked) : Prop :=
  (∃ affected, (runAlone crc32 net (handleNodeFailure failed) s).2 = .ok affected) ∧
    ∀ m ∈ (runAlone crc32 net (handleNodeFailure failed) s).1.2.store.listLedgers, Clean failed m

theorem isNodeInEnsemble_iff (m : LedgerMetadata) (n : NodeId) :
    isNodeInEnsemble m n = true ↔ ¬Clean n m := by
  simp [isNodeInEnsemble, Clean]

def affected (w : World) (failed : NodeId) : List LedgerMetadata :=
  w.store.listLedgers.filter fun m => isNodeInEnsemble m failed

theorem mem_affected {w : World} :
    m ∈ affected w failed ↔ m ∈ w.store.listLedgers ∧ ¬Clean failed m := by
  rw [affected, List.mem_filter, isNodeInEnsemble_iff]

theorem mendable_affected {w : World} : (∀ m ∈ affected w failed, MendableLedger w failed m) ↔
    ∀ m ∈ w.store.listLedgers, MendableLedger w failed m := by
  refine ⟨fun hmend m hm => ?_, fun hmend m hm => hmend m (mem_affected.mp hm).1⟩
  by_cases hclean : Clean failed m
  · exact fun f hf hit => absurd hit (hclean f hf)
  · exact hmend m (mem_affected.mpr ⟨hm, hclean⟩)

theorem handleNodeFailure_run (hnet : Static net up) :
    runAlone crc32 net (handleNodeFailure failed) s = runAlone crc32 net
      (do restoreLedgers failed (affected s.2 failed); pure (affected s.2 failed))
      (s.1 + 1, s.2) := by
  have hlist : runAlone crc32 net listLedgers s = ((s.1 + 1, s.2), .ok s.2.store.listLedgers) :=
    ask_run (hnet.answers _ _ fun x hx => by cases hx)
  exact Prog.run_bind_of_ok (I := Service) _ hlist

/-- A ledger is written back under the version that it was read with, so the call gets through
the fragments of one ledger only if the node was a member of a single one. -/
theorem every_fragment_repaired_iff (hnet : Static net up) (hup : ∀ n, n ≠ failed → up n)
    (hkeyed : s.2.store.WellKeyed) (hserved : ∀ n, Served crc32 (s.2.replica n))
    (h : Ready s.2 failed) :
    Repairs crc32 net failed s ↔
      ∀ m ∈ s.2.store.listLedgers, MendableLedger s.2 failed m := by
  have hsub : affected s.2 failed ⊆ s.2.store.listLedgers := List.filter_subset_self _
  have hids : ((affected s.2 failed).map LedgerMetadata.id).Nodup :=
    hkeyed.listLedgers_nodup.sublist (List.filter_sublist.map _)
  have hrows : ∀ m ∈ affected s.2 failed, row (s.1 + 1, s.2) m.id = some m := by
    intro m hm
    obtain ⟨id, hid⟩ := (s.2.store.mem_listLedgers m).mp (hsub hm)
    obtain rfl := hkeyed id m hid
    exact hid
  rw [← mendable_affected, ← restoreLedgers_ok_iff (s := (s.1 + 1, s.2)) hnet hup h hsub hids
    (.refl _) hserved hrows, Repairs, handleNodeFailure_run hnet]
  cases hr : runAlone crc32 net (restoreLedgers failed (affected s.2 failed)) (s.1 + 1, s.2) with
  | mk t r =>
  cases r with
  | error e =>
    rw [runAlone, Prog.run_bind_of_error (I := Service) _ hr]
    simp
  | ok _ =>
    rw [runAlone, Prog.run_bind_of_ok (I := Service) _ hr]
    refine iff_of_true ⟨⟨_, rfl⟩, fun m hm => ?_⟩ rfl
    obtain ⟨id, hid⟩ := (Store.mem_listLedgers _ m).mp hm
    rcases restoreLedgers_effect (s := (s.1 + 1, s.2)) hnet hup h hsub hids (.refl _) hserved
      hrows hr hid with hclean | ⟨hsame, hnot⟩
    · exact hclean
    · -- not restored, so not affected
      by_contra hclean
      have hm' := (s.2.store.mem_listLedgers m).mpr ⟨id, hsame⟩
      obtain rfl := hkeyed id m hsame
      exact hnot (List.mem_map_of_mem (mem_affected.mpr ⟨hm', hclean⟩))

theorem twoFragmentWorld_repaired :
    Repairs Crc32.crc32 (without "n0") "n0" (0, twoFragmentWorld) := by
  refine (every_fragment_repaired_iff (without_static "n0") (fun _ h => h) ?_
    twoFragmentWorld_served ?_).mpr ?_ <;> decide +kernel

/-- After a member has been replaced, the other one is in both fragments. -/
def sharedMember : LedgerMetadata :=
  ⟨1, .Closed, [⟨0, ["n0", "n1"], 2, 2⟩, ⟨1, ["n0", "n2"], 2, 2⟩], some 1, 1, 3⟩

/-- The second fragment of `n0` is written back with the version of before the first. -/
theorem second_fragment_kept :
    ∃ s, Reach (Cluster.step Crc32.crc32) (ServedNodes Crc32.crc32) s ∧
      (sealedBy s 1).2.store.WellKeyed ∧ Ready (sealedBy s 1).2 "n0" ∧
      row (sealedBy s 1) 1 = some sharedMember ∧
      (runAlone Crc32.crc32 (without "n0") (handleNodeFailure "n0") (sealedBy s 1)).2 =
        .error .casConflict ∧
      row (runAlone Crc32.crc32 (without "n0") (handleNodeFailure "n0") (sealedBy s 1)).1 1 =
        some { sharedMember with
          fragments := [⟨0, ["n1", "n2"], 2, 2⟩, ⟨1, ["n0", "n2"], 2, 2⟩], version := 4 } :=
  reach_check _ (clusterOf_served ["n0", "n1"] 2 ["n0", "n1", "n2"]) _
    (appendActs [1] [.delivered, .delivered] ++
      appendActs [2] [.delivered, Cluster.unreachable] ++ changeActs ++
      [.writer (.deliver 0 .delivered), .writer (.deliver 1 .delivered), .writer .decide])
    (by decide +kernel)

end Failure
end Folio.NodeFailure
