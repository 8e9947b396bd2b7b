import Folio.Cluster
import Folio.LeaseStore
import Mathlib.Algebra.Group.Nat.Defs

/-! Processes that register a node under a lease, watch its health, and end; and what is left
of the registration. -/
namespace Folio.NodeRegistry
open KeyedTable Protocol TransitionSystem LeaseStore
open Cluster (Delivery)

structure HealthMonitor where
  maxJournalBytes : Nat
  p99Threshold : Nat
  windowSize : Nat
  bytesWritten : Nat
  latencies : List Nat
  deriving DecidableEq, Repr

namespace HealthMonitor

def new (maxJournalBytes p99Threshold windowSize : Nat) : HealthMonitor :=
  ⟨maxJournalBytes, p99Threshold, windowSize, 0, []⟩

def record (h : HealthMonitor) (elapsed bytes : Nat) : HealthMonitor :=
  { h with
    bytesWritten := (h.bytesWritten + bytes) % 2 ^ 64
    latencies :=
      (if h.windowSize ≤ h.latencies.length then h.latencies.drop 1 else h.latencies) ++ [elapsed] }

/-- The index is `(len as f64 * 0.99) as usize`, which rounds down for every window that fits
in memory. -/
def computeP99 (window : List Nat) : Nat :=
  (window.insertionSort (· ≤ ·)).getD (min (window.length * 99 / 100) (window.length - 1)) 0

def currentStatus (h : HealthMonitor) : NodeStatus :=
  if h.maxJournalBytes ≤ h.bytesWritten then .ReadOnly
  else if 10 ≤ h.latencies.length ∧ h.p99Threshold < computeP99 h.latencies then .ReadOnly
  else .ReadWrite

end HealthMonitor

/-- `register` has its lease, or it has returned and the tasks of the process run. -/
inductive Phase where
  | registering (lease : Nat)
  | running (lease : Nat) (lastStatus : NodeStatus)

structure Process where
  info : NodeInfo
  ttlSecs : Nat
  health : HealthMonitor
  phase : Phase

/-- The lease of the last `register` whose put has reached the key of a node, and whether a put
of its status has reached the key since. -/
structure Registration where
  lease : Nat
  statusPut : Bool
  deriving DecidableEq, Repr

/-- `last` only records what has happened: no process reads it. -/
structure State where
  etcd : Leased NodeId NodeInfo
  processes : Table Nat Process
  last : Table NodeId Registration

namespace State

def leaseGrant (s : State) (ttlSecs : Nat) : State × Except FolioError Nat :=
  ({ s with etcd := s.etcd.grant ttlSecs }, .ok s.etcd.nextLease)

def putNodeKey (s : State) (info : NodeInfo) (lease : Nat) : State × Except FolioError Unit :=
  match s.etcd.put info.nodeId info (some lease) with
  | some e => ({ s with etcd := e, last := s.last.put info.nodeId ⟨lease, false⟩ }, .ok ())
  | none => (s, .error (.metadata "etcd put node key: requested lease not found"))

/-- The put of `HealthMonitor::run`, without a lease. -/
def putStatus (s : State) (info : NodeInfo) : State × Except FolioError Unit :=
  match s.etcd.put info.nodeId info none with
  | some e =>
    ({ s with
        etcd := e
        last := match s.last.get info.nodeId with
          | some r => s.last.put info.nodeId { r with statusPut := true }
          | none => s.last }, .ok ())
  | none => (s, .ok ())

def leaseKeepAlive (s : State) (lease ttlSecs : Nat) : State × Except FolioError Unit :=
  ({ s with etcd := s.etcd.keepAlive lease ttlSecs }, .ok ())

def leaseRevoke (s : State) (lease : Nat) : State × Except FolioError Unit :=
  match s.etcd.alive.get lease with
  | some _ => ({ s with etcd := s.etcd.drop lease }, .ok ())
  | none => (s, .error (.metadata "etcd lease_revoke: requested lease not found"))

def set (s : State) (pid : Nat) (p : Process) : State :=
  { s with processes := s.processes.put pid p }

def exit (s : State) (pid : Nat) : State := { s with processes := s.processes.del pid }

end State

inductive Act where
  | boot (pid : Nat) (info : NodeInfo) (ttlSecs maxJournalBytes p99Threshold windowSize : Nat)
      (d : Delivery)
  | putNodeKey (pid : Nat) (d : Delivery)
  | record (pid elapsed bytes : Nat)
  | checkHealth (pid : Nat) (d : Delivery)
  | keepAlive (pid : Nat) (d : Delivery)
  | deregister (pid : Nat) (d : Delivery)
  | crash (pid : Nat)
  | second
  | expire (lease : Nat)

def step (s : State) : Act → Option State
  | .boot pid info ttlSecs maxJournalBytes p99Threshold windowSize d =>
    match s.processes.get pid with
    | some _ => none
    | none =>
      let r := d.send (s.leaseGrant ttlSecs) s
      match r.2 with
      | .ok lease => some (r.1.set pid ⟨info, ttlSecs,
          .new maxJournalBytes p99Threshold windowSize, .registering lease⟩)
      | .error _ => some r.1
  | .putNodeKey pid d =>
    (s.processes.get pid).bind fun p =>
      match p.phase with
      | .running _ _ => none
      | .registering lease =>
        let r := d.send (s.putNodeKey p.info lease) s
        match r.2 with
        | .ok () => some (r.1.set pid { p with phase := .running lease .ReadWrite })
        -- `register` fails, and the process does not start
        | .error _ => some (r.1.exit pid)
  | .record pid elapsed bytes =>
    (s.processes.get pid).map fun p => s.set pid { p with health := p.health.record elapsed bytes }
  | .checkHealth pid d =>
    (s.processes.get pid).bind fun p =>
      match p.phase with
      | .registering _ => none
      | .running lease lastStatus =>
        let status := p.health.currentStatus
        if status = lastStatus then some s
        else
          let r := d.send (s.putStatus { p.info with status }) s
          -- the status counts as told even if the put has failed
          some (r.1.set pid { p with phase := .running lease status })
  | .keepAlive pid d =>
    (s.processes.get pid).bind fun p =>
      match p.phase with
      | .registering _ => none
      | .running lease _ => some (d.send (s.leaseKeepAlive lease p.ttlSecs) s).1
  | .deregister pid d =>
    (s.processes.get pid).bind fun p =>
      match p.phase with
      | .registering _ => none
      | .running lease _ => some (d.send (s.leaseRevoke lease) s).1
  | .crash pid => some (s.exit pid)
  | .second => some { s with etcd := s.etcd.pass }
  | .expire lease =>
    if s.etcd.alive.get lease = some 0 then some { s with etcd := s.etcd.drop lease } else none

def Init (s : State) : Prop := s = ⟨.new, .empty, .empty⟩

def watchNodeEvents (events : List (Event NodeId NodeInfo)) : List NodeId :=
  events.filterMap fun
    | .delete n => some n
    | .put _ _ => none

/-- The key is gone, and the last that the auditor is told of it is that it was deleted. -/
def Gone (e : Leased NodeId NodeInfo) (n : NodeId) : Prop :=
  e.items.get n = none ∧ lastEvent n e.events = some (.delete n)

theorem Gone.watched {e : Leased NodeId NodeInfo} {n : NodeId} (h : Gone e n) :
    n ∈ watchNodeEvents e.events := by
  have hmem := List.mem_of_getLast? h.2
  exact List.mem_filterMap.mpr ⟨_, (List.mem_filter.mp hmem).1, rfl⟩

section Invariant
variable {info : NodeInfo}

/-- What the key holds after a registration, by what has reached it since. -/
structure Keyed (e : Leased NodeId NodeInfo) (n : NodeId) (r : Registration) : Prop where
  lease_lt : r.lease < e.nextLease
  loose : r.statusPut = true → ∃ i, e.items.get n = some i ∧ i.lease = none
  held : r.statusPut = false → (∃ i, e.items.get n = some i ∧ i.lease = some r.lease) ∨
    Gone e n ∧ e.alive.get r.lease = none

variable {e e' : Leased NodeId NodeInfo} {n : NodeId} {r : Registration}

theorem Keyed.of_same (h : Keyed e n r) (hitems : e'.items = e.items)
    (hevents : e'.events = e.events) (hnext : e.nextLease ≤ e'.nextLease)
    (halive : e.alive.get r.lease = none → e'.alive.get r.lease = none) : Keyed e' n r where
  lease_lt := h.lease_lt.trans_le hnext
  loose := by
    rw [hitems]
    exact h.loose
  held := by
    intro hput
    unfold Gone
    rw [hitems, hevents]
    exact (h.held hput).imp_right fun ⟨hgone, hdead⟩ => ⟨hgone, halive hdead⟩

theorem Keyed.grant (h : Keyed e n r) (ttl : Nat) : Keyed (e.grant ttl) n r := by
  refine h.of_same rfl rfl (Nat.le_succ _) fun hdead => ?_
  exact (Table.get_put_ne _ _ h.lease_lt.ne).trans hdead

theorem Keyed.pass (h : Keyed e n r) : Keyed e.pass n r := by
  refine h.of_same rfl rfl le_rfl fun hdead => ?_
  exact (Table.get_map _ _ _).trans (by rw [hdead]; rfl)

theorem Keyed.keepAlive (h : Keyed e n r) (l ttl : Nat) : Keyed (e.keepAlive l ttl) n r := by
  unfold Leased.keepAlive
  split_ifs with halive
  · refine h.of_same rfl rfl le_rfl fun hdead => ?_
    have hne : r.lease ≠ l := by
      rintro rfl
      simp [hdead] at halive
    exact (Table.get_put_ne _ _ hne).trans hdead
  · exact h

theorem Keyed.drop (h : Keyed e n r) (l : Nat) : Keyed (e.drop l) n r where
  lease_lt := h.lease_lt
  loose := by
    intro hput
    obtain ⟨i, hi, hloose⟩ := h.loose hput
    have hmem : n ∉ e.attachedKeys l := by
      simp [e.mem_attachedKeys, hi, hloose]
    rw [e.get_drop, if_neg hmem]
    exact ⟨i, hi, hloose⟩
  held := by
    intro hput
    unfold Gone
    rw [e.get_drop, e.lastEvent_drop]
    rcases h.held hput with ⟨i, hi, hlease⟩ | ⟨hgone, hdead⟩
    · by_cases hl : r.lease = l
      · have hmem : n ∈ e.attachedKeys l := e.mem_attachedKeys.mpr ⟨i, hi, hl ▸ hlease⟩
        rw [if_pos hmem, if_pos hmem]
        exact .inr ⟨⟨rfl, rfl⟩, hl ▸ Table.get_del_self _ _⟩
      · have hmem : n ∉ e.attachedKeys l := by
          simp [e.mem_attachedKeys, hi, hlease, hl]
        rw [if_neg hmem]
        exact .inl ⟨i, hi, hlease⟩
    · have hmem : n ∉ e.attachedKeys l := by
        simp [e.mem_attachedKeys, hgone.1]
      rw [if_neg hmem, if_neg hmem]
      refine .inr ⟨hgone, ?_⟩
      change (e.alive.del l).get r.lease = none
      rw [Table.get_del, hdead, ite_self]

theorem Keyed.put_ne (h : Keyed e n r) {lease : Option Nat}
    (hput : e.put info.nodeId info lease = some e') (hne : n ≠ info.nodeId) : Keyed e' n r := by
  obtain ⟨-, hitems, halive, hnext, hevents⟩ := e.put_eq_some hput
  have hget : e'.items.get n = e.items.get n := by
    rw [hitems, Table.get_put_ne _ _ hne]
  have hlast : lastEvent n e'.events = lastEvent n e.events := by
    rw [hevents, lastEvent_put, if_neg (Ne.symm hne)]
  constructor
  · rw [hnext]
    exact h.lease_lt
  · rw [hget]
    exact h.loose
  · unfold Gone
    rw [hget, hlast, halive]
    exact h.held

theorem Keyed.register {lease : Nat} (hput : e.put info.nodeId info (some lease) = some e') :
    Keyed e' info.nodeId ⟨lease, false⟩ := by
  obtain ⟨halive, hitems, -, hnext, -⟩ := e.put_eq_some hput
  refine ⟨?_, fun h => (by cases h), fun _ => .inl ⟨⟨info, some lease⟩, ?_, rfl⟩⟩
  · rw [hnext]
    exact e.alive_lt lease (halive lease rfl)
  · rw [hitems, Table.get_put_self]

theorem Keyed.status (h : Keyed e n r) (hn : info.nodeId = n)
    (hput : e.put info.nodeId info none = some e') : Keyed e' n { r with statusPut := true } := by
  obtain ⟨-, hitems, -, hnext, -⟩ := e.put_eq_some hput
  refine ⟨?_, fun _ => ⟨⟨info, none⟩, ?_, rfl⟩, fun h => (by cases h)⟩
  · rw [hnext]
    exact h.lease_lt
  · rw [hitems, hn, Table.get_put_self]

theorem Keyed.gone_iff (h : Keyed e n r) (hdead : e.alive.get r.lease = none) :
    Gone e n ↔ r.statusPut = false := by
  constructor
  · intro hgone
    by_contra hput
    obtain ⟨i, hi, -⟩ := h.loose (by simpa using hput)
    rw [hgone.1] at hi
    cases hi
  · intro hput
    rcases h.held hput with ⟨i, hi, hlease⟩ | ⟨hgone, -⟩
    · have halive := e.attached_alive n i r.lease hi hlease
      simp [hdead] at halive
    · exact hgone

def Inv (s : State) : Prop := ∀ n r, s.last.get n = some r → Keyed s.etcd n r

variable {s t : State}

theorem Inv.send {α : Type} {call : State × Except FolioError α} (d : Delivery) (h : Inv s)
    (hcall : Inv call.1) : Inv (d.send call s).1 := by
  cases d with
  | delivered => exact hcall
  | lostRequest e => exact h
  | lostReply e => exact hcall

theorem Inv.putNodeKey (h : Inv s) (info : NodeInfo) (lease : Nat) :
    Inv (s.putNodeKey info lease).1 := by
  unfold State.putNodeKey
  split
  · rename_i e hput
    intro n r hr
    change (s.last.put info.nodeId ⟨lease, false⟩).get n = some r at hr
    rw [Table.get_put] at hr
    split_ifs at hr with hn
    · cases hr
      rw [hn]
      exact .register hput
    · exact (h n r hr).put_ne hput hn
  · exact h

theorem Inv.putStatus (h : Inv s) (info : NodeInfo) : Inv (s.putStatus info).1 := by
  unfold State.putStatus
  split
  · rename_i e hput
    intro n r hr
    dsimp only at hr
    split at hr
    · rename_i r₀ hr₀
      rw [Table.get_put] at hr
      split_ifs at hr with hn
      · cases hr
        exact (h n r₀ (hn ▸ hr₀)).status hn.symm hput
      · exact (h n r hr).put_ne hput hn
    · rename_i hnone
      have hn : n ≠ info.nodeId := by
        rintro rfl
        rw [hnone] at hr
        cases hr
      exact (h n r hr).put_ne hput hn
  · exact h

theorem Inv.leaseRevoke (h : Inv s) (lease : Nat) : Inv (s.leaseRevoke lease).1 := by
  unfold State.leaseRevoke
  split
  · exact fun n r hr => (h n r hr).drop lease
  · exact h

theorem inv_step (a : Act) (h : Inv s) (hst : step s a = some t) : Inv t := by
  cases a with
  | boot pid info ttlSecs maxJournalBytes p99Threshold windowSize d =>
    have hsent : Inv (d.send (s.leaseGrant ttlSecs) s).1 :=
      h.send d fun n r hr => (h n r hr).grant ttlSecs
    simp only [step] at hst
    split at hst
    · cases hst
    · split at hst
      · cases hst
        exact hsent
      · cases hst
        exact hsent
  | putNodeKey pid d =>
    obtain ⟨p, -, hst⟩ := Option.bind_eq_some_iff.mp hst
    split at hst
    · cases hst
    · rename_i lease _
      have hsent : Inv (d.send (s.putNodeKey p.info lease) s).1 := h.send d (h.putNodeKey _ _)
      dsimp only at hst
      split at hst
      · cases hst
        exact hsent
      · cases hst
        exact hsent
  | record pid elapsed bytes =>
    obtain ⟨p, -, rfl⟩ := Option.map_eq_some_iff.mp hst
    exact h
  | checkHealth pid d =>
    obtain ⟨p, -, hst⟩ := Option.bind_eq_some_iff.mp hst
    split at hst
    · cases hst
    · dsimp only at hst
      split_ifs at hst
      · cases hst
        exact h
      · cases hst
        exact Inv.send d h (h.putStatus _)
  | keepAlive pid d =>
    obtain ⟨p, -, hst⟩ := Option.bind_eq_some_iff.mp hst
    split at hst
    · cases hst
    · cases hst
      exact h.send d fun n r hr => (h n r hr).keepAlive _ _
  | deregister pid d =>
    obtain ⟨p, -, hst⟩ := Option.bind_eq_some_iff.mp hst
    split at hst
    · cases hst
    · cases hst
      exact h.send d (h.leaseRevoke _)
  | crash pid =>
    cases hst
    exact h
  | second =>
    cases hst
    exact fun n r hr => (h n r hr).pass
  | expire lease =>
    simp only [step] at hst
    split_ifs at hst
    cases hst
    exact fun n r hr => (h n r hr).drop lease

theorem inv_reach (h : Reach step Init s) : Inv s := by
  refine h.invariant ?_ fun _ a _ => inv_step a
  rintro _ rfl n r hr
  cases hr

end Invariant

/-- The lease of the last registration is revoked by `deregister`, or expires when the process
has crashed. -/
theorem registration_gone_iff {s : State} (h : Reach step Init s) {n : NodeId} {r : Registration}
    (hlast : s.last.get n = some r) (hended : s.etcd.alive.get r.lease = none) :
    (Gone s.etcd n ∧ n ∈ watchNodeEvents s.etcd.events) ↔ r.statusPut = false := by
  rw [← (inv_reach h n r hlast).gone_iff hended]
  exact ⟨And.left, fun hgone => ⟨hgone, hgone.watched⟩⟩

def start : List Act :=
  [.boot 0 ⟨"n0", .ReadWrite⟩ 1 100 50 10 .delivered, .putNodeKey 0 .delivered]

def crashed : List Act := [.crash 0, .second, .expire 0]

theorem crashed_node_gone :
    ∃ s, Reach step Init s ∧ Gone s.etcd "n0" ∧ "n0" ∈ watchNodeEvents s.etcd.events := by
  have hstart : Init ⟨.new, .empty, .empty⟩ := rfl
  obtain ⟨s, hreach, hlast, hended⟩ := reach_check step hstart
    (fun s => s.last.get "n0" = some ⟨0, false⟩ ∧ s.etcd.alive.get 0 = none)
    (start ++ [.record 0 1 60, .checkHealth 0 .delivered, .second, .keepAlive 0 .delivered] ++
      crashed)
    (by decide +kernel)
  exact ⟨s, hreach, (registration_gone_iff hreach hlast hended).mpr rfl⟩

def staysReadOnly (s : State) : Bool :=
  decide ((s.etcd.alive.get 0).isNone ∧
    (s.etcd.items.get "n0").map Item.value = some ⟨"n0", .ReadOnly⟩ ∧
    watchNodeEvents s.etcd.events = [])

/-- The journal is full once, and the put of the status takes the key off its lease: the key
stays when the node crashes, and when it deregisters. -/
theorem full_node_stays :
    (∃ s, run step ⟨.new, .empty, .empty⟩
      (start ++ [.record 0 1 100, .checkHealth 0 .delivered] ++ crashed) = some s ∧
      staysReadOnly s = true) ∧
    ∃ s, run step ⟨.new, .empty, .empty⟩
      (start ++ [.record 0 1 100, .checkHealth 0 .delivered, .deregister 0 .delivered]) = some s ∧
      staysReadOnly s = true :=
  ⟨run_check step _ _ _ (by decide +kernel), run_check step _ _ _ (by decide +kernel)⟩

end Folio.NodeRegistry
