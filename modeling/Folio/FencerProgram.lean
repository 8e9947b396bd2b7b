import Folio.ClusterSteps
import Folio.Recovery
import Folio.TransitionSystem

/-! The `fence_and_seal` calls of the cluster are runs of the program: each position of a call
is what is left of the program, and each step of the call is one or two of its requests. -/
namespace Folio.FencerProgram
open KeyedTable Protocol Metadata LedgerClient RemoteProgram TransitionSystem Recovery
open Cluster (Delivery FencerPc FencerAct sealedMetadata startFencing stepFencer)

structure Shows (w : World) (s : Cluster.State) : Prop where
  store : w.store = s.store
  replica : ∀ n, w.replica n = s.replica n

def sealFrom (ledgerId : Nat) (m : LedgerMetadata) : Remote LedgerMetadata := do
  let fragment ← .okOr (.invalidFragment ledgerId) m.fragments.getLast?
  let lacs ← fenceAll ledgerId fragment.ensemble
  putLedger (sealedMetadata m lacs)

def position (ledgerId : Nat) : FencerPc → Remote LedgerMetadata
  | .started => fenceAndSeal ledgerId
  | .fallback => do
    let m ← getLedger ledgerId
    sealFrom ledgerId m
  | .fencing m todo lacs => do
    let more ← fenceAll ledgerId todo
    putLedger (sealedMetadata m (lacs ++ more))
  | .returned r => .done r

section Advance
variable (crc32 : Bytes → UInt32)

def advance (s : World × Remote LedgerMetadata) (d : Delivery) :
    Option (World × Remote LedgerMetadata) :=
  s.2.advance (answer crc32) d s.1

end Advance

theorem sealFrom_eq {ledgerId : Nat} {m : LedgerMetadata} (hid : m.id = ledgerId) :
    sealFrom ledgerId m = position ledgerId (startFencing m) := by
  unfold sealFrom startFencing
  cases m.fragments.getLast? with
  | none =>
    rw [hid]
    rfl
  | some f => rfl

theorem fencing_cons (ledgerId lac : Nat) (m : LedgerMetadata) (todo : List NodeId)
    (lacs : List Nat) :
    ((do
      let more ← fenceAll ledgerId todo
      pure (lac :: more)) >>= fun more => putLedger (sealedMetadata m (lacs ++ more))) =
      position ledgerId (.fencing m todo (lacs ++ [lac])) := by
  rw [Prog.bind_assoc]
  unfold position
  congr 1
  funext more
  change putLedger (sealedMetadata m (lacs ++ lac :: more)) = _
  rw [List.append_assoc, List.singleton_append]

section Simulation
variable {crc32 : Bytes → UInt32} {s t : Cluster.State} {w : World} {c : Nat} {a : FencerAct}
  {pc : FencerPc} {acked : List Nat}

theorem answer_fence (crc32 : Bytes → UInt32) (hw : Shows w s) (n : NodeId) (d : Delivery) :
    (answer crc32 d w (.fenceLedger n s.ledger)).2 = (Cluster.deliverFence s n d).2 ∧
      (answer crc32 d w (.fenceLedger n s.ledger)).1.store = w.store ∧
      (answer crc32 d w (.fenceLedger n s.ledger)).1.resolver = w.resolver ∧
      ∀ n', (answer crc32 d w (.fenceLedger n s.ledger)).1.replica n' =
        if n' = n then (Cluster.deliverFence s n d).1 else s.replica n' := by
  have hput : ∀ n', (w.setReplica n ((w.replica n).fenceLedger s.ledger).1).replica n' =
      if n' = n then ((s.replica n).fenceLedger s.ledger).1 else s.replica n' := by
    intro n'
    unfold World.replica World.setReplica
    dsimp only
    rw [Table.get_put]
    split_ifs
    · exact congrArg (fun r => (Replica.fenceLedger r s.ledger).1) (hw.replica n)
    · exact hw.replica n'
  have hreply : ((w.replica n).fenceLedger s.ledger).2 =
      ((s.replica n).fenceLedger s.ledger).2 := by rw [hw.replica]
  cases d with
  | delivered => exact ⟨hreply, rfl, rfl, hput⟩
  | lostReply e => exact ⟨rfl, rfl, rfl, hput⟩
  | lostRequest e =>
    refine ⟨rfl, rfl, rfl, fun n' => (hw.replica n').trans ?_⟩
    split_ifs with heq
    · rw [heq]
      rfl
    · rfl

theorem run_call {o : Op} {k : Except FolioError o.Reply → Remote LedgerMetadata} {d : Delivery}
    {ds : List Delivery} :
    run (advance crc32) (w, .call o k) (d :: ds) =
      run (advance crc32) ((answer crc32 d w o).1, k (answer crc32 d w o).2) ds := rfl

theorem fencer_step_advances (hk : s.store.WellKeyed) (hw : Shows w s)
    (hc : s.fencers.get c = some ⟨pc, acked⟩)
    (hres : ∀ m n todo lacs, pc = .fencing m (n :: todo) lacs → n ∈ w.resolver)
    (h : stepFencer s c a = some t) :
    ∃ pc' ds w', t.fencers.get c = some ⟨pc', acked⟩ ∧ Shows w' t ∧ w'.resolver = w.resolver ∧
      run (advance crc32) (w, position s.ledger pc) ds = some (w', position s.ledger pc') := by
  unfold stepFencer at h
  split at h
  case h_1 hnone =>
    rw [hc] at hnone
    cases hnone
  case h_2 d acked' hget =>
    rw [hc] at hget
    cases hget
    generalize hr : d.send (s.store.transitionState s.ledger .Open .InRecovery) s.store = r at h
    cases h
    have hans : answer crc32 d w (.transitionState s.ledger .Open .InRecovery) =
        ({ w with store := r.1 }, r.2) := by
      rw [answer_store rfl, hw.store, hr]
    refine ⟨_, [d], { w with store := r.1 }, Table.get_put_self _ _ _, ⟨rfl, hw.replica⟩, rfl, ?_⟩
    refine run_call.trans ?_
    rw [hans]
    obtain ⟨store, _ | m⟩ := r
    · rfl
    · have hid : m.id = s.ledger := by
        rcases Cluster.transitionState_send d s.store s.ledger .Open .InRecovery with
          ⟨-, hno⟩ | ⟨cur, hcur, -, hm⟩
        · exact absurd (congrArg Prod.snd hr) (hno m)
        · rw [hm m (congrArg Prod.snd hr)]
          exact hk s.ledger cur hcur
      exact congrArg (fun p => some (_, p)) (sealFrom_eq hid)
  case h_3 d acked' hget =>
    rw [hc] at hget
    cases hget
    generalize hr : d.send (s.store, s.store.getLedger s.ledger) s.store = r at h
    cases h
    have hans : answer crc32 d w (.getLedger s.ledger) = (w, r.2) := by
      rw [← hr, ← hw.store]
      cases d <;> rfl
    refine ⟨_, [d], w, Table.get_put_self _ _ _, ⟨hw.store, hw.replica⟩, rfl, ?_⟩
    refine run_call.trans ?_
    rw [hans]
    obtain ⟨store, e | m⟩ := r
    · rfl
    · obtain rfl := Delivery.delivered_of_ok (congrArg Prod.snd hr)
      have hid : m.id = s.ledger := hk s.ledger m (Store.getLedger_ok (congrArg Prod.snd hr))
      exact congrArg (fun p => some (_, p)) (sealFrom_eq hid)
  case h_4 d m n todo lacs acked' hget =>
    rw [hc] at hget
    cases hget
    obtain ⟨hreply, hstore, hresolver, hreplica⟩ := answer_fence crc32 hw n d
    generalize hr : Cluster.deliverFence s n d = r at h hreply hreplica
    cases h
    have hresolve : answer crc32 .delivered w (.resolve n) = (w, .ok ()) := by
      change (w, if n ∈ w.resolver then _ else _) = _
      rw [if_pos (hres m n todo lacs rfl)]
    refine ⟨_, [.delivered, d], (answer crc32 d w (.fenceLedger n s.ledger)).1,
      Table.get_put_self _ _ _, ⟨hstore.trans hw.store, fun n' => ?_⟩, hresolver, ?_⟩
    · rw [hreplica]
      exact (Cluster.replica_put s n n' _ _ _ _).symm
    · refine run_call.trans ?_
      rw [hresolve]
      refine run_call.trans ?_
      rw [hreply]
      obtain ⟨replica, e | lac⟩ := r
      · rfl
      · exact congrArg (fun p => some (_, p)) (fencing_cons s.ledger lac m todo lacs)
  case h_5 d m lacs acked' hget =>
    rw [hc] at hget
    cases hget
    generalize hr : d.send (s.store.putLedger (sealedMetadata m lacs)) s.store = r at h
    cases h
    have hans : answer crc32 d w (.putLedger (sealedMetadata m lacs)) =
        ({ w with store := r.1 }, r.2) := by
      rw [answer_store rfl, hw.store, hr]
    refine ⟨_, [d], { w with store := r.1 }, Table.get_put_self _ _ _, ⟨rfl, hw.replica⟩, rfl, ?_⟩
    have hpos : position s.ledger (.fencing m [] lacs) = putLedger (sealedMetadata m lacs) := by
      change putLedger (sealedMetadata m (lacs ++ [])) = _
      rw [List.append_nil]
    rw [hpos]
    refine run_call.trans ?_
    rw [hans]
    rfl
  case h_6 => cases h

end Simulation
end Folio.FencerProgram
