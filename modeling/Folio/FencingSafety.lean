import Folio.Crc32
import Folio.FencingInvariant

/-! Steps of `fence_and_seal` keep the invariant, and what it says about whole runs. -/
namespace Folio.FencingSafety
open KeyedTable Protocol Metadata TransitionSystem Cluster

section FencerSteps
variable {s t : State} {cur : LedgerMetadata} {c : Nat} {m : LedgerMetadata} {d : Delivery}
  {lacs acked : List Nat}

theorem InvAt.withFencer {f : Fencer} (h : InvAt s cur)
    (hf : FencerInv s.ledger (fencedIn s) cur s.writer.handle.metadata.version f.pc)
    (hold : ∀ old, s.fencers.get c = some old → isSealed old = false) :
    InvAt { s with fencers := s.fencers.put c f } cur := by
  refine ⟨h.stored, h.id, h.quorum, fun c' f' hget => ?_, h.base, h.pc, fun hseal => ?_⟩
  · dsimp only at hget
    rw [Table.get_put] at hget
    split_ifs at hget
    · cases hget
      exact hf
    · exact h.fencers c' f' hget
  · obtain ⟨c', f', hget, hsealed⟩ := h.afterSeal hseal
    have hne : c' ≠ c := fun heq => by
      rw [heq] at hget
      rw [hold f' hget] at hsealed
      cases hsealed
    exact ⟨c', f', (Table.get_put_ne _ _ hne).trans hget, hsealed⟩

theorem unsealed_of_get {f : Fencer} (hget : s.fencers.get c = some f) (hf : isSealed f = false) :
    ∀ old, s.fencers.get c = some old → isSealed old = false := by
  intro old hold
  rw [← Option.some.inj (hget.symm.trans hold)]
  exact hf

theorem InvAt.withStore (h : InvAt s cur) (hid : m.id = cur.id)
    (hv : m.version = cur.version) (hf : m.fragments = cur.fragments) :
    InvAt { s with store := (s.store.writeLedger s.ledger m).1 }
      (s.store.writeLedger s.ledger m).2 := by
  have hlt : cur.version < (s.store.writeLedger s.ledger m).2.version := by
    change cur.version < m.version + 1
    rw [hv]
    exact Nat.lt_succ_self _
  refine ⟨Table.get_put_self _ _ _, hid.trans h.id, ?_, fun c f hget => ?_, ?_, ?_, h.afterSeal⟩
  · change ∀ g, m.fragments.getLast? = some g → _
    rw [hf]
    exact h.quorum
  · exact (h.fencers c f hget).advance hlt hf
  · exact ⟨h.base.id, Nat.le_trans h.base.version (Nat.le_of_lt hlt), h.base.replies⟩
  · exact h.pc.of_fragments hf

theorem startFencing_inv {version : Nat} {fenced : NodeId → Prop} {ledger : Nat}
    (hid : m.id = ledger) : FencerInv ledger fenced m version (startFencing m) := by
  unfold startFencing
  split
  · trivial
  · rename_i f hlast
    exact ⟨hid, Nat.le_refl _, fun _ => rfl, f, [], hlast, rfl, nofun⟩

theorem InvAt.transition {acked : List Nat} {pc : FencerPc} (h : InvAt s cur)
    (hget : s.fencers.get c = some ⟨.started, acked⟩)
    (hpc : pc = match (d.send (s.store.transitionState s.ledger .Open .InRecovery) s.store).2 with
      | .ok m => startFencing m
      | .error _ => .fallback) :
    ∃ cur', InvAt { s with
      store := (d.send (s.store.transitionState s.ledger .Open .InRecovery) s.store).1
      fencers := s.fencers.put c ⟨pc, acked⟩ } cur' := by
  have hold := unsealed_of_get hget rfl
  rcases transitionState_send d s.store s.ledger .Open .InRecovery with
    ⟨hst, hno⟩ | ⟨cur', hcur, hst, hm⟩
  · rw [hst]
    refine ⟨cur, h.withFencer ?_ hold⟩
    rw [hpc]
    split
    · exact absurd ‹_› (hno _)
    · trivial
  · rw [hst]
    obtain rfl : cur' = cur := Option.some.inj (hcur.symm.trans h.stored)
    have hwrite := h.withStore (m := { cur' with state := .InRecovery }) rfl rfl rfl
    refine ⟨_, hwrite.withFencer ?_ hold⟩
    rw [hpc]
    split
    · rename_i m hok
      rw [hm m hok]
      exact startFencing_inv h.id
    · trivial

theorem InvAt.fence {n : NodeId} {todo : List NodeId} {pc : FencerPc} (h : InvAt s cur)
    (hget : s.fencers.get c = some ⟨.fencing m (n :: todo) lacs, acked⟩)
    (hpc : pc = match (deliverFence s n d).2 with
      | .ok lac => .fencing m todo (lacs ++ [lac])
      | .error e => .returned (.error e)) :
    InvAt { s with
      replicas := s.replicas.put n (deliverFence s n d).1
      fencers := s.fencers.put c ⟨pc, acked⟩ } cur := by
  have hrep := h.withReplicas fun n' => deliverFence_fencedIn (n := n) (d := d) n'
  refine hrep.withFencer (c := c) ?_ ?_
  · have hfencing : Fencing _ _ _ _ _ := hrep.fencers c _ hget
    rw [hpc]
    cases d with
    | lostRequest e => trivial
    | lostReply e => trivial
    | delivered =>
      obtain ⟨hid, hv, hfrags, f, done, hlast, hsplit, hdone⟩ := hfencing
      refine ⟨hid, hv, hfrags, f, done ++ [n], hlast, by rw [hsplit]; simp, fun n' hn' => ?_⟩
      rcases List.mem_append.mp hn' with hn' | hn'
      · exact hdone n' hn'
      · obtain rfl := List.mem_singleton.mp hn'
        unfold fencedIn
        rw [replica_put, if_pos rfl]
        exact List.mem_cons_self
  · exact unsealed_of_get hget rfl

/-- The seal is written only over the metadata it was read from, so the ensemble that has
been fenced is still the last one. -/
theorem InvAt.sealLedger
    (h : InvAt s cur) (hget : s.fencers.get c = some ⟨.fencing m [] lacs, acked⟩) :
    ∃ cur', InvAt { s with
      store := (d.send (s.store.putLedger (sealedMetadata m lacs)) s.store).1
      fencers := s.fencers.put c
        ⟨.returned (d.send (s.store.putLedger (sealedMetadata m lacs)) s.store).2, acked⟩ }
      cur' := by
  have hold := unsealed_of_get hget rfl
  have hfencing : Fencing _ _ _ _ _ := h.fencers c _ hget
  rcases putLedger_send d s.store (sealedMetadata m lacs) with
    ⟨hst, hno⟩ | ⟨cur', hcur, hv, hst, -⟩
  · rw [hst]
    refine ⟨cur, h.withFencer ?_ hold⟩
    unfold FencerInv
    split
    · trivial
    · rename_i m' hok
      exact absurd (FencerPc.returned.inj hok) (hno m')
    · trivial
  · rw [hst]
    have hid : (sealedMetadata m lacs).id = s.ledger := hfencing.id
    obtain rfl : cur' = cur := by
      rw [hid, h.stored] at hcur
      exact (Option.some.inj hcur).symm
    have hfrags : m.fragments = cur'.fragments := hfencing.fragments hv.symm
    have hwrite := h.withStore (m := sealedMetadata m lacs) (hid.trans h.id.symm) hv.symm hfrags
    rw [hid]
    refine ⟨_, hwrite.withFencer ?_ hold⟩
    have hlt : s.writer.handle.metadata.version < (sealedMetadata m lacs).version + 1 := by
      rw [← hv]
      exact Nat.lt_succ_of_le h.base.version
    unfold FencerInv
    split
    · trivial
    · exact ⟨hlt, hfencing.all_fenced⟩
    · trivial

theorem fencer_step {a : FencerAct} (h : InvAt s cur) (hst : stepFencer s c a = some t) :
    ∃ cur', InvAt t cur' := by
  unfold stepFencer at hst
  split at hst
  · cases hst
    refine ⟨cur, h.withFencer trivial ?_⟩
    rintro old hold
    rw [‹s.fencers.get c = none›] at hold
    cases hold
  · cases hst
    exact h.transition ‹_› rfl
  · rename_i d acked hget
    cases hst
    refine ⟨cur, h.withFencer ?_ ?_⟩
    · have hread : ∀ m, (d.send (s.store, s.store.getLedger s.ledger) s.store).2 = .ok m →
          m = cur := by
        intro m hm
        obtain rfl := Delivery.delivered_of_ok hm
        exact Option.some.inj ((Store.getLedger_ok hm).symm.trans h.stored)
      dsimp only
      split
      · rename_i m hm
        rw [hread m hm]
        exact startFencing_inv h.id
      · trivial
    · exact unsealed_of_get hget rfl
  · cases hst
    exact ⟨cur, h.fence ‹_› rfl⟩
  · cases hst
    exact h.sealLedger ‹_›
  · cases hst

end FencerSteps

section Runs
variable {crc32 : Bytes → UInt32} {s t : State}

theorem inv_step {a : Act} (h : ∃ cur, InvAt s cur) (hg : putAccepted s a)
    (hst : step crc32 s a = some t) : ∃ cur, InvAt t cur := by
  obtain ⟨cur, h⟩ := h
  cases a with
  | writer a => exact writer_step h hg (stepWriter_cases crc32 hst)
  | fencer c a => exact fencer_step h hst
  | register n =>
    cases hst
    exact ⟨cur, h.stored, h.id, h.quorum, h.fencers, h.base, h.pc, h.afterSeal⟩
  | expire n =>
    cases hst
    exact ⟨cur, h.stored, h.id, h.quorum, h.fencers, h.base, h.pc, h.afterSeal⟩

theorem inv_opened (h : Opened s) : ∃ cur, InvAt s cur := by
  obtain ⟨hstored, hquorum, ⟨hpc, hseal, hreplies⟩, hfencers⟩ := h
  refine ⟨s.writer.handle.metadata, hstored, rfl, hquorum, ?_, ⟨rfl, Nat.le_refl _, ?_⟩, ?_, ?_⟩
  · intro c f hget
    rw [hfencers] at hget
    cases hget
  · rw [hreplies]
    nofun
  · unfold PcInv
    rw [hpc]
  · rw [hseal]
    nofun

/-- If every `put_ledger` of the writer is accepted, no append that starts after a
`fence_and_seal` has returned `Ok` succeeds. -/
theorem no_append_after_seal (h : Reach (guarded putAccepted (step crc32)) Opened s) :
    ∀ r ∈ s.writer.replies, r.afterSeal = true → ∀ id, r.result ≠ .ok id := by
  have hinv : ∃ cur, InvAt s cur := by
    refine Reach.invariant (P := fun s => ∃ cur, InvAt s cur) (fun _ => inv_opened)
      (fun s a t hs hst => ?_) h
    obtain ⟨hg, hst⟩ := (guarded_eq_some putAccepted).mp hst
    exact inv_step hs hg hst
  obtain ⟨cur, hinv⟩ := hinv
  exact hinv.base.replies

theorem oneNode_opened (nodes : Table NodeId NodeStatus) : Opened (newCluster oneNode nodes) := by
  refine ⟨Table.get_put_self _ _ _, fun f hf => ?_, ⟨rfl, rfl, rfl⟩, rfl⟩
  cases hf
  exact Nat.le_refl 1

def spareNode : Table NodeId NodeStatus := Table.empty.put "n1" .ReadWrite

theorem fenced_append_refused :
    ∃ s, Reach (guarded putAccepted (step Crc32.crc32)) Opened s ∧
      s.writer.replies = [⟨[1], true, .error (.ledgerFenced 1)⟩] ∧
      ∀ r ∈ s.writer.replies, r.afterSeal = true → ∀ id, r.result ≠ .ok id := by
  obtain ⟨s, hreach, hreplies⟩ := reach_check (guarded putAccepted (step Crc32.crc32))
    (oneNode_opened spareNode)
    (fun s => s.writer.replies = [⟨[1], true, .error (.ledgerFenced 1)⟩])
    (sealActs 1 ++ appendActs [1] [.delivered])
    (by decide +kernel)
  exact ⟨s, hreach, hreplies, no_append_after_seal hreach⟩

/-- The fenced node cannot be reached, `put_ledger` loses its race, and the spare stays in
the handle: the next append succeeds there. -/
theorem append_succeeds_after_seal :
    ∃ s, Reach (step Crc32.crc32) Opened s ∧ ⟨[2], true, .ok 0⟩ ∈ s.writer.replies ∧
      (s.store.ledgers.get 1).map LedgerMetadata.state = some .Closed :=
  reach_check _ (oneNode_opened spareNode) _
    (sealActs 1 ++ appendActs [1] [unreachable] ++
      changeActs ++
      appendActs [2] [.delivered])
    (by decide +kernel)

end Runs
end Folio.FencingSafety
