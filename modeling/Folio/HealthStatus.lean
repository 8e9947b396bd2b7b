import Folio.NodeRegistry

/-! What becomes of the status of a full node on its way to the registry. -/
namespace Folio.HealthStatus
open KeyedTable Protocol TransitionSystem LeaseStore NodeRegistry
open Cluster (Delivery)
variable {n : NodeId} {s t : State}

theorem currentStatus_full {h : HealthMonitor} (hfull : h.maxJournalBytes ≤ h.bytesWritten) :
    h.currentStatus = .ReadOnly :=
  if_pos hfull

/-- No other process registers the node, and no counter of bytes wraps around. -/
def Undisturbed (n : NodeId) (s : State) : Act → Prop
  | .boot _ info _ _ _ _ _ => info.nodeId ≠ n
  | .record pid _ bytes => ∀ p ∈ s.processes.get pid, p.health.bytesWritten + bytes < 2 ^ 64
  | _ => True

instance (n : NodeId) (s : State) (a : Act) : Decidable (Undisturbed n s a) := by
  unfold Undisturbed
  split <;> infer_instance

def Told (p : Process) : Prop :=
  (∃ lease, p.phase = .running lease .ReadOnly) ∧
    p.health.maxJournalBytes ≤ p.health.bytesWritten

/-- Whoever runs the node believes that it is listed as read-only, and it is not. -/
structure Stale (n : NodeId) (s : State) : Prop where
  told : ∀ pid p, s.processes.get pid = some p → p.info.nodeId = n → Told p
  listed : ∀ i, s.etcd.items.get n = some i → i.value.status = .ReadWrite

structure Kept (n : NodeId) (s u : State) : Prop where
  processes : u.processes = s.processes
  items : ∀ i, u.etcd.items.get n = some i → s.etcd.items.get n = some i

theorem Kept.refl (n : NodeId) (s : State) : Kept n s s := ⟨rfl, fun _ hi => hi⟩

theorem Stale.of_kept {u : State} (h : Stale n s) (hu : Kept n s u) : Stale n u :=
  ⟨fun pid p hp => h.told pid p (hu.processes ▸ hp), fun i hi => h.listed i (hu.items i hi)⟩

theorem Stale.set {pid : Nat} {p : Process} (h : Stale n s) (hp : p.info.nodeId = n → Told p) :
    Stale n (s.set pid p) where
  told q b hb hn := by
    change (s.processes.put pid p).get q = some b at hb
    rw [Table.get_put] at hb
    split_ifs at hb
    · cases hb
      exact hp hn
    · exact h.told q b hb hn
  listed := h.listed

theorem Stale.exit (h : Stale n s) (pid : Nat) : Stale n (s.exit pid) where
  told q b hb hn := by
    change (s.processes.del pid).get q = some b at hb
    rw [Table.get_del] at hb
    split_ifs at hb
    exact h.told q b hb hn
  listed := h.listed

theorem kept_send {α : Type} {call : State × Except FolioError α} (d : Delivery)
    (h : Kept n s call.1) : Kept n s (d.send call s).1 := by
  cases d with
  | delivered => exact h
  | lostRequest e => exact .refl n s
  | lostReply e => exact h

theorem kept_put {info : NodeInfo} {lease : Option Nat} {u : State} (hne : info.nodeId ≠ n)
    (hput : s.etcd.put info.nodeId info lease = some u.etcd)
    (hprocesses : u.processes = s.processes) : Kept n s u where
  processes := hprocesses
  items i hi := by
    rwa [(s.etcd.put_eq_some hput).2.1, Table.get_put_ne _ _ hne.symm] at hi

theorem kept_putNodeKey {info : NodeInfo} (hne : info.nodeId ≠ n) (lease : Nat) :
    Kept n s (s.putNodeKey info lease).1 := by
  unfold State.putNodeKey
  split
  · rename_i e hput
    exact kept_put hne hput rfl
  · exact .refl n s

theorem kept_putStatus {info : NodeInfo} (hne : info.nodeId ≠ n) :
    Kept n s (s.putStatus info).1 := by
  unfold State.putStatus
  split
  · rename_i e hput
    exact kept_put hne hput rfl
  · exact .refl n s

theorem kept_drop (lease : Nat) : Kept n s { s with etcd := s.etcd.drop lease } where
  processes := rfl
  items i hi := by
    change (s.etcd.drop lease).items.get n = some i at hi
    rw [Leased.get_drop] at hi
    split_ifs at hi
    exact hi

theorem kept_keepAlive (lease ttlSecs : Nat) : Kept n s (s.leaseKeepAlive lease ttlSecs).1 where
  processes := rfl
  items i hi := by
    change (s.etcd.keepAlive lease ttlSecs).items.get n = some i at hi
    unfold Leased.keepAlive at hi
    split_ifs at hi <;> exact hi

theorem kept_revoke (lease : Nat) : Kept n s (s.leaseRevoke lease).1 := by
  unfold State.leaseRevoke
  split
  · exact kept_drop lease
  · exact .refl n s

theorem Told.status {p : Process} (h : Told p) : p.health.currentStatus = .ReadOnly :=
  currentStatus_full h.2

theorem Stale.step {a : Act} (h : Stale n s) (hg : Undisturbed n s a)
    (hst : NodeRegistry.step s a = some t) : Stale n t := by
  cases a with
  | boot pid info ttlSecs maxJournalBytes p99Threshold windowSize d =>
    simp only [NodeRegistry.step] at hst
    split at hst
    · cases hst
    · have hgrant : Kept n s (d.send (s.leaseGrant ttlSecs) s).1 :=
        kept_send d ⟨rfl, fun _ hi => hi⟩
      split at hst <;> cases hst
      · exact (h.of_kept hgrant).set fun hn => absurd hn hg
      · exact h.of_kept hgrant
  | putNodeKey pid d =>
    obtain ⟨p, hp, hst⟩ := Option.bind_eq_some_iff.mp hst
    split at hst
    · cases hst
    · rename_i lease hphase
      -- a process of the node is past its registration
      have hne : p.info.nodeId ≠ n := by
        intro hn
        obtain ⟨⟨lease', hrunning⟩, -⟩ := h.told pid p hp hn
        rw [hphase] at hrunning
        cases hrunning
      have hput : Kept n s (d.send (s.putNodeKey p.info lease) s).1 :=
        kept_send d (kept_putNodeKey hne lease)
      dsimp only at hst
      split at hst <;> cases hst
      · exact (h.of_kept hput).set fun hn => absurd hn hne
      · exact (h.of_kept hput).exit pid
  | record pid elapsed bytes =>
    obtain ⟨p, hp, rfl⟩ := Option.map_eq_some_iff.mp hst
    refine h.set fun hn => ?_
    obtain ⟨hrunning, hfull⟩ := h.told pid p hp hn
    refine ⟨hrunning, ?_⟩
    change p.health.maxJournalBytes ≤ (p.health.bytesWritten + bytes) % 2 ^ 64
    rw [Nat.mod_eq_of_lt (hg p hp)]
    exact hfull.trans (Nat.le_add_right _ _)
  | checkHealth pid d =>
    obtain ⟨p, hp, hst⟩ := Option.bind_eq_some_iff.mp hst
    split at hst
    · cases hst
    · rename_i lease lastStatus hphase
      dsimp only at hst
      split_ifs at hst with hsame
      · cases hst
        exact h
      · have hne : p.info.nodeId ≠ n := by
          intro hn
          have htold := h.told pid p hp hn
          obtain ⟨lease', hrunning⟩ := htold.1
          rw [hphase] at hrunning
          cases hrunning
          exact hsame htold.status
        have hput : Kept n s
            (d.send (s.putStatus { p.info with status := p.health.currentStatus }) s).1 :=
          kept_send d (kept_putStatus hne)
        cases hst
        exact (h.of_kept hput).set fun hn => absurd hn hne
  | keepAlive pid d =>
    obtain ⟨p, hp, hst⟩ := Option.bind_eq_some_iff.mp hst
    split at hst
    · cases hst
    · cases hst
      exact h.of_kept (kept_send d (kept_keepAlive _ _))
  | deregister pid d =>
    obtain ⟨p, hp, hst⟩ := Option.bind_eq_some_iff.mp hst
    split at hst
    · cases hst
    · cases hst
      exact h.of_kept (kept_send d (kept_revoke _))
  | crash pid =>
    cases hst
    exact h.exit pid
  | second =>
    cases hst
    exact h.of_kept ⟨rfl, fun _ hi => hi⟩
  | expire lease =>
    simp only [NodeRegistry.step] at hst
    split_ifs at hst
    cases hst
    exact h.of_kept (kept_drop lease)

/-- A full node tells the registry once that it is read-only. If that put is lost, the node stays
listed as writable for as long as it is listed. -/
theorem lost_status_never_told {s' : State} {pid lease : Nat} {p : Process} {e : FolioError}
    (hp : s.processes.get pid = some p) (hphase : p.phase = .running lease .ReadWrite)
    (hfull : p.health.maxJournalBytes ≤ p.health.bytesWritten)
    (honly : ∀ q b, s.processes.get q = some b → b.info.nodeId = p.info.nodeId → q = pid)
    (hlisted : ∀ i, s.etcd.items.get p.info.nodeId = some i → i.value.status = .ReadWrite)
    (hlost : NodeRegistry.step s (.checkHealth pid (.lostRequest e)) = some s')
    (h : Reach (guarded (Undisturbed p.info.nodeId) NodeRegistry.step) (· = s') t) :
    ∀ i, t.etcd.items.get p.info.nodeId = some i → i.value.status = .ReadWrite := by
  have hstatus : p.health.currentStatus = .ReadOnly := currentStatus_full hfull
  have hs' : s' = s.set pid { p with phase := .running lease .ReadOnly } := by
    simp only [NodeRegistry.step, hp, Option.bind_some, hphase, hstatus] at hlost
    rw [if_neg (by decide)] at hlost
    exact (Option.some.inj hlost).symm
  have hstale : Stale p.info.nodeId s' := by
    subst hs'
    refine ⟨fun q b hb hn => ?_, hlisted⟩
    change (s.processes.put pid _).get q = some b at hb
    rw [Table.get_put] at hb
    split_ifs at hb with hq
    · cases hb
      exact ⟨⟨lease, rfl⟩, hfull⟩
    · exact absurd (honly q b hb hn) hq
  have hreach : Stale p.info.nodeId t := by
    refine h.invariant (P := Stale p.info.nodeId) ?_ fun u a v hu hst => ?_
    · rintro _ rfl
      exact hstale
    obtain ⟨hg, hst⟩ := (guarded_eq_some (Undisturbed p.info.nodeId)).mp hst
    exact hu.step hg hst
  exact hreach.listed

def fullProcess : Process :=
  ⟨⟨"n0", .ReadWrite⟩, 1, (HealthMonitor.new 100 50 10).record 1 100, .running 0 .ReadWrite⟩

def fullNode : State :=
  (run NodeRegistry.step ⟨.new, .empty, .empty⟩ (start ++ [.record 0 1 100])).getD
    ⟨.new, .empty, .empty⟩

/-- The put is lost, the next ones would get through, and no check makes one. -/
theorem full_node_listed_writable :
    ∃ s' t i, NodeRegistry.step fullNode
        (.checkHealth 0 (.lostRequest (.metadata "timeout"))) = some s' ∧
      Reach (guarded (Undisturbed "n0") NodeRegistry.step) (· = s') t ∧
      (t.processes.get 0).map (·.health.currentStatus) = some .ReadOnly ∧
      t.etcd.items.get "n0" = some i ∧ i.value.status = .ReadWrite := by
  have hlater : (NodeRegistry.step fullNode
      (.checkHealth 0 (.lostRequest (.metadata "timeout")))).map (fun s' =>
        (run (guarded (Undisturbed "n0") NodeRegistry.step) s'
          [.record 0 1 5, .checkHealth 0 .delivered, .second, .keepAlive 0 .delivered,
            .checkHealth 0 .delivered]).map fun t =>
          ((t.processes.get 0).map (·.health.currentStatus),
            (t.etcd.items.get "n0").isSome)) = some (some (some .ReadOnly, true)) := by
    decide +kernel
  obtain ⟨s', hlost, hlater⟩ := Option.map_eq_some_iff.mp hlater
  obtain ⟨t, hrun, hout⟩ := Option.map_eq_some_iff.mp hlater
  obtain ⟨hstatus, hitem⟩ := Prod.mk.inj hout
  obtain ⟨i, hi⟩ := Option.isSome_iff_exists.mp hitem
  have ht : Reach (guarded (Undisturbed "n0") NodeRegistry.step) (· = s') t :=
    reach_of_run _ (.start rfl) hrun
  have hp : fullNode.processes.get 0 = some fullProcess := rfl
  have honly : ∀ q b, fullNode.processes.get q = some b → b.info.nodeId = "n0" → q = 0 := by
    intro q b hb _
    have hmem := (Table.mem_keys_iff _ q).mpr ⟨b, hb⟩
    rw [show fullNode.processes.keys = [0] from rfl] at hmem
    exact List.mem_singleton.mp hmem
  have hlisted : ∀ i, fullNode.etcd.items.get "n0" = some i → i.value.status = .ReadWrite := by
    rintro i ⟨⟩
    rfl
  exact ⟨s', t, i, hlost, ht, hstatus, hi,
    lost_status_never_told hp rfl (by decide) honly hlisted hlost ht i hi⟩

end Folio.HealthStatus
