import Folio.RestoreReplication

/-! What `restore_replication` leaves behind when it returns `Ok`, and for which closed ledgers
of a cluster it does. -/
namespace Folio.RestoreOutcome
open KeyedTable Protocol LedgerClient TransitionSystem Recovery RecoveryWorker RestoreReplication
open Cluster (appendActs changeActs sealActs)
variable {crc32 : Bytes → UInt32} {net : Net} {s t : Clocked} {m : LedgerMetadata} {failed : NodeId}

section Nodes
variable {s t : Cluster.State}

def ServedNodes (crc32 : Bytes → UInt32) (s : Cluster.State) : Prop :=
  ∀ n, Served crc32 (s.replica n)

def worldOf (s : Cluster.State) (resolver : List NodeId) : World := ⟨s.store, s.replicas, resolver⟩

theorem ServedNodes.put (h : ServedNodes crc32 s) {n : NodeId} {r : Replica}
    (hr : Served crc32 r) (ht : t.replicas = s.replicas.put n r) : ServedNodes crc32 t := by
  intro n'
  unfold Cluster.State.replica
  rw [ht, Table.get_put]
  split_ifs
  · exact hr
  · exact h n'

theorem servedNodes_step (a : Cluster.Act) (h : ServedNodes crc32 s)
    (hst : Cluster.step crc32 s a = some t) : ServedNodes crc32 t := by
  have hsame {t : Cluster.State} (ht : t.replicas = s.replicas) : ServedNodes crc32 t := by
    intro n
    unfold Cluster.State.replica
    rw [ht]
    exact h n
  cases a with
  | writer a =>
    cases Cluster.stepWriter_cases crc32 hst with
    | deliver i d a n hpc hslot =>
      refine h.put ?_ rfl
      cases d with
      | delivered => exact (h n).add n a.entry
      | lostRequest e => exact h n
      | lostReply e => exact (h n).add n a.entry
    | _ => exact hsame rfl
  | fencer c a =>
    replace hst : Cluster.stepFencer s c a = some t := hst
    unfold Cluster.stepFencer at hst
    split at hst <;> cases hst
    case h_4 d m n todo lacs acked hc =>
      refine h.put ?_ rfl
      cases d with
      | delivered => exact (h n).fence _
      | lostRequest e => exact h n
      | lostReply e => exact (h n).fence _
    all_goals exact hsame rfl
  | register n =>
    cases hst
    exact hsame rfl
  | expire n =>
    cases hst
    exact hsame rfl

def clusterOf (ensemble : List NodeId) (ackQuorum : Nat) (registered : List NodeId) :
    Cluster.State :=
  Cluster.newCluster (Cluster.newLedger ensemble ensemble.length ackQuorum)
    (registered.foldl (fun nodes n => nodes.put n .ReadWrite) .empty)

theorem clusterOf_served (ensemble : List NodeId) (ackQuorum : Nat) (registered : List NodeId) :
    ServedNodes crc32 (clusterOf ensemble ackQuorum registered) := fun _ => .new

def allNodes : List NodeId := ["n0", "n1", "n2", "n3"]

def sealedBy (s : Cluster.State) (finalLac : Nat) : Clocked :=
  (runAlone Crc32.crc32 allUp (sealLedger 1 finalLac) (0, worldOf s allNodes)).1

end Nodes

section Completeness
variable {fromId : Nat} {f : Fragment} {src tgt : NodeId}

def fragmentEnd (m : LedgerMetadata) (f : Fragment) : Nat :=
  ((m.fragments.map Fragment.firstEntryId).filter fun i => decide (f.firstEntryId < i)).min?.getD
    ((m.lastEntryId.map (· + 1)).getD 0)

/-- The target holds the entries of the fragment from `fromId` on, each with the data of the
source. -/
def Complete (w w' : World) (m : LedgerMetadata) (f : Fragment) (fromId : Nat)
    (src tgt : NodeId) : Prop :=
  ∀ i, fromId ≤ i → i < fragmentEnd m f → ∃ e', (w'.replica tgt).entries.get (m.id, i) = some e' ∧
    ∀ e, (w.replica src).entries.get (m.id, i) = some e → e'.data = e.data

/-- What the target holds of the fragment beforehand agrees with the source, and it has the last
entry already if no fragment starts later. -/
structure Prepared (w : World) (m : LedgerMetadata) (f : Fragment) (fromId : Nat)
    (src tgt : NodeId) : Prop where
  agrees : ∀ i, fromId ≤ i → i < fragmentEnd m f → ∀ e e',
    (w.replica src).entries.get (m.id, i) = some e →
    (w.replica tgt).entries.get (m.id, i) = some e' → e'.data = e.data
  last : (∀ g ∈ m.fragments, g.firstEntryId ≤ f.firstEntryId) → fromId ≤ m.lastAddConfirmed →
    ((w.replica tgt).entries.get (m.id, m.lastAddConfirmed)).isSome

theorem range_ends (hlast : m.lastEntryId = some m.lastAddConfirmed) (f : Fragment) :
    (∃ g ∈ m.fragments, f.firstEntryId < g.firstEntryId) ∧ fragmentEnd m f ≤ endEntryId m f ∨
      (∀ g ∈ m.fragments, g.firstEntryId ≤ f.firstEntryId) ∧
        endEntryId m f = m.lastAddConfirmed ∧ fragmentEnd m f = m.lastAddConfirmed + 1 := by
  unfold endEntryId
  cases hnext : m.fragments.find? fun g => decide (g.firstEntryId > f.firstEntryId) with
  | some g =>
    have hg := List.mem_of_find?_eq_some hnext
    have hlater : f.firstEntryId < g.firstEntryId := by
      simpa using List.find?_some hnext
    have hmem : g.firstEntryId ∈
        (m.fragments.map Fragment.firstEntryId).filter fun i => decide (f.firstEntryId < i) :=
      List.mem_filter.mpr ⟨List.mem_map_of_mem hg, decide_eq_true hlater⟩
    refine .inl ⟨⟨g, hg, hlater⟩, ?_⟩
    unfold fragmentEnd
    cases hmin : ((m.fragments.map Fragment.firstEntryId).filter
        fun i => decide (f.firstEntryId < i)).min? with
    | none =>
      rw [List.min?_eq_none_iff.mp hmin] at hmem
      cases hmem
    | some least => exact (List.min?_eq_some_iff.mp hmin).2 _ hmem
  | none =>
    have hall : ∀ g ∈ m.fragments, g.firstEntryId ≤ f.firstEntryId := by
      simpa using List.find?_eq_none.mp hnext
    have hnil : (m.fragments.map Fragment.firstEntryId).filter
        (fun i => decide (f.firstEntryId < i)) = [] := by
      simpa using hall
    refine .inr ⟨hall, rfl, ?_⟩
    rw [fragmentEnd, hnil, hlast]
    rfl

theorem complete_iff_of_copied {w w' : World} (hlast : m.lastEntryId = some m.lastAddConfirmed)
    (h : Copied w w' m.id src tgt (copyRange m f fromId))
    (hheld : ∀ i ∈ copyRange m f fromId, ((w.replica src).entries.get (m.id, i)).isSome) :
    Complete w w' m f fromId src tgt ↔ Prepared w m f fromId src tgt := by
  have hget (i : Nat) : (w'.replica tgt).entries.get (m.id, i) =
      ((w.replica tgt).entries.get (m.id, i)).or
        (if fromId ≤ i ∧ i < endEntryId m f then (w.replica src).entries.get (m.id, i)
          else none) := by
    rw [h.entries]
    simp [mem_copyRange]
  constructor
  · intro hcomplete
    refine ⟨fun i hfrom hend e e' he he' => ?_, fun hall hfrom => ?_⟩
    · obtain ⟨e'', he'', hdata⟩ := hcomplete i hfrom hend
      rw [hget, he'] at he''
      cases he''
      exact hdata e he
    · rcases range_ends hlast f with ⟨⟨g, hg, hlater⟩, -⟩ | ⟨-, hend, hfend⟩
      · exact absurd (hall g hg) (Nat.not_le.mpr hlater)
      · obtain ⟨e', he', -⟩ := hcomplete m.lastAddConfirmed hfrom (by omega)
        rw [hget, hend] at he'
        simp at he'
        simp [he']
  · intro hprep i hfrom hend
    -- an id past the copied range is the last one, and the target has it
    have hcopied : i < endEntryId m f ∨ ((w.replica tgt).entries.get (m.id, i)).isSome := by
      rcases range_ends hlast f with ⟨-, hle⟩ | ⟨hall, hcend, hfend⟩
      · exact .inl (by omega)
      · by_cases hlt : i < m.lastAddConfirmed
        · exact .inl (by omega)
        · obtain rfl : i = m.lastAddConfirmed := by omega
          exact .inr (hprep.last hall hfrom)
    rw [hget]
    cases hold : (w.replica tgt).entries.get (m.id, i) with
    | some e' => exact ⟨e', rfl, fun e he => hprep.agrees i hfrom hend e e' he hold⟩
    | none =>
      have hlt : i < endEntryId m f := by
        rw [hold] at hcopied
        simpa using hcopied
      obtain ⟨e, he⟩ := Option.isSome_iff_exists.mp (hheld i (mem_copyRange.mpr ⟨hfrom, hlt⟩))
      rw [if_pos ⟨hfrom, hlt⟩, he]
      exact ⟨e, rfl, fun e₂ he₂ => by cases he₂; rfl⟩

/-- The entry `last_add_confirmed` belongs to the last fragment and is not copied. -/
theorem restored_complete_iff (hgrpc : Grpc net) (hserved : ∀ n, Served crc32 (s.2.replica n))
    (hlast : m.lastEntryId = some m.lastAddConfirmed)
    (h : runAlone crc32 net (restoreReplication m failed fromId) s = (t, .ok ())) :
    ∃ f src tgt, Chosen s.2 m failed fromId f src tgt ∧
      (Complete s.2 t.2 m f fromId src tgt ↔ Prepared s.2 m f fromId src tgt) := by
  obtain ⟨f, src, tgt, w, hchosen, hcopied, hheld, -, -, ht⟩ := restore_effect hgrpc hserved h
  refine ⟨f, src, tgt, hchosen, ?_⟩
  rw [← complete_iff_of_copied hlast hcopied hheld, ht]
  rfl

/-- Two fragments of a closed ledger; entry 0 is on `n1`. -/
def twoFragments : LedgerMetadata :=
  ⟨1, .Closed, [⟨0, ["n0", "n1"], 1, 1⟩, ⟨1, ["n1", "n2"], 1, 1⟩], some 1, 1, 3⟩

def twoFragmentWorld : World where
  store := ⟨1, Table.empty.put 1 twoFragments,
    (Table.empty.put "n1" .ReadWrite).put "n2" .ReadWrite⟩
  replicas := Table.empty.put "n1"
    (Replica.empty.addEntry Crc32.crc32 "n1" (Entry.new Crc32.crc32 1 0 0 [7])).1
  resolver := ["n0", "n1", "n2"]

theorem twoFragmentWorld_served (n : NodeId) : Served Crc32.crc32 (twoFragmentWorld.replica n) := by
  unfold World.replica twoFragmentWorld
  rw [Table.get_put]
  split_ifs
  · exact .add _ _ .new
  · exact .new

theorem twoFragmentWorld_restored : ∃ t, runAlone Crc32.crc32 (without "n0")
    (restoreReplication twoFragments "n0" 0) (0, twoFragmentWorld) = (t, .ok ()) :=
  ⟨_, Prod.ext rfl (by decide +kernel)⟩

theorem twoFragmentWorld_chosen
    (h : Chosen twoFragmentWorld twoFragments "n0" 0 f src tgt) :
    ⟨0, ["n0", "n1"], 1, 1⟩ = f ∧ "n1" = src ∧ "n2" = tgt := by
  obtain rfl : ⟨0, ["n0", "n1"], 1, 1⟩ = f := Option.some.inj (Eq.trans (by decide) h.owner)
  exact ⟨rfl, Option.some.inj (Eq.trans (by decide) h.source),
    Option.some.inj (Eq.trans (by decide) h.target)⟩

theorem earlier_fragment_complete :
    ∃ t, runAlone Crc32.crc32 (without "n0") (restoreReplication twoFragments "n0" 0)
        (0, twoFragmentWorld) = (t, .ok ()) ∧
      Complete twoFragmentWorld t.2 twoFragments ⟨0, ["n0", "n1"], 1, 1⟩ 0 "n1" "n2" := by
  obtain ⟨t, ht⟩ := twoFragmentWorld_restored
  obtain ⟨f, src, tgt, hchosen, hiff⟩ := restored_complete_iff (without_static "n0").grpc
    twoFragmentWorld_served rfl ht
  obtain ⟨rfl, rfl, rfl⟩ := twoFragmentWorld_chosen hchosen
  refine ⟨t, ht, hiff.mpr ⟨fun i _ _ e e' _ he' => ?_, fun hall => ?_⟩⟩
  · cases he'
  · exact absurd hall (by decide)

def sealedPair : LedgerMetadata := ⟨1, .Closed, [⟨0, ["n0", "n1"], 2, 2⟩], some 1, 1, 2⟩

/-- The ledger has the entries 0 and 1, and a client has sealed it: the node that replaces `n0`
gets entry 0 only. -/
theorem last_entry_not_copied :
    ∃ s, Reach (Cluster.step Crc32.crc32) (ServedNodes Crc32.crc32) s ∧
      row (sealedBy s 1) 1 = some sealedPair ∧
      (runAlone Crc32.crc32 (without "n0") (restoreReplication sealedPair "n0" 0)
        (sealedBy s 1)).2 = .ok () ∧
      (((sealedBy s 1).2.replica "n1").entries.get (1, 1)).isSome ∧
      ((runAlone Crc32.crc32 (without "n0") (restoreReplication sealedPair "n0" 0)
        (sealedBy s 1)).1.2.replica "n2").entries.keys = [(1, 0)] :=
  reach_check _ (clusterOf_served ["n0", "n1"] 2 ["n1", "n2"]) _
    (appendActs [1] [.delivered, .delivered] ++ appendActs [2] [.delivered, .delivered])
    (by decide +kernel)

end Completeness

section Rewriting
variable {failed tgt : NodeId} {fromId : Nat} {f : Fragment} {front back : List Fragment}

def swapped (failed tgt : NodeId) (f : Fragment) : Fragment :=
  { f with ensemble := (f.ensemble.filter fun n => decide (n ≠ failed)) ++ [tgt] }

/-- The last fragment that starts at `fromId` or before has the failed node replaced, and
nothing else has changed but the version. -/
def Rewritten (m stored : LedgerMetadata) (failed tgt : NodeId) (fromId : Nat) : Prop :=
  ∃ front f back, m.fragments = front ++ f :: back ∧ f.firstEntryId ≤ fromId ∧
    (∀ g ∈ back, fromId < g.firstEntryId) ∧ failed ∈ f.ensemble ∧
    (swapped failed tgt f).ensemble.Nodup ∧
    stored = { m with fragments := front ++ swapped failed tgt f :: back, version := m.version + 1 }

/-- The fragment that owns `fromId` has the failed node, no other one starts where it does, and
no other member is listed twice. -/
structure OwnsAlone (m : LedgerMetadata) (failed : NodeId) (fromId : Nat) (f : Fragment) :
    Prop where
  owner : LedgerHandle.owner m.fragments fromId = some f
  member : failed ∈ f.ensemble
  alone : m.fragments.countP (fun g => decide (g.firstEntryId = f.firstEntryId)) = 1
  distinct : (f.ensemble.filter fun n => decide (n ≠ failed)).Nodup

theorem owner_split {fs : List Fragment} (h : LedgerHandle.owner fs fromId = some f) :
    ∃ front back, fs = front ++ f :: back ∧ f.firstEntryId ≤ fromId ∧
      ∀ g ∈ back, fromId < g.firstEntryId := by
  obtain ⟨hle, later, earlier, hsplit, hlater⟩ := List.find?_eq_some_iff_append.mp h
  refine ⟨earlier.reverse, later.reverse, ?_, of_decide_eq_true hle, fun g hg => ?_⟩
  · have := congrArg List.reverse hsplit
    simpa using this
  · simpa using hlater g (List.mem_reverse.mp hg)

theorem owner_of_split (hle : f.firstEntryId ≤ fromId)
    (hback : ∀ g ∈ back, fromId < g.firstEntryId) :
    LedgerHandle.owner (front ++ f :: back) fromId = some f := by
  refine List.find?_eq_some_iff_append.mpr ⟨decide_eq_true hle, back.reverse, front.reverse, ?_, ?_⟩
  · simp
  · intro g hg
    simpa using hback g (List.mem_reverse.mp hg)

theorem replaceMember_append (failed tgt : NodeId) (first : Nat) (front back : List Fragment) :
    replaceMember failed tgt first (front ++ back) =
      if front.any (fun g => decide (g.firstEntryId = first)) then
        replaceMember failed tgt first front ++ back
      else front ++ replaceMember failed tgt first back := by
  induction front with
  | nil => rfl
  | cons g front ih =>
    by_cases hg : g.firstEntryId = first
    · simp [replaceMember, hg]
    · simp only [List.cons_append, replaceMember, hg, if_false, ih, List.any_cons, decide_false,
        Bool.false_or]
      split_ifs <;> rfl

theorem replaceMember_length (failed tgt : NodeId) (first : Nat) (fs : List Fragment) :
    (replaceMember failed tgt first fs).length = fs.length := by
  induction fs with
  | nil => rfl
  | cons g fs ih =>
    unfold replaceMember
    split_ifs <;> simp [ih]

theorem alone_iff (hle : f.firstEntryId ≤ fromId) (hback : ∀ g ∈ back, fromId < g.firstEntryId) :
    (front ++ f :: back).countP (fun g => decide (g.firstEntryId = f.firstEntryId)) = 1 ↔
      front.any (fun g => decide (g.firstEntryId = f.firstEntryId)) = false := by
  have hzero : back.countP (fun g => decide (g.firstEntryId = f.firstEntryId)) = 0 := by
    refine List.countP_eq_zero.mpr fun g hg => ?_
    have := hback g hg
    simp
    omega
  rw [List.countP_append, List.countP_cons, hzero]
  simp

theorem rewritten_iff (htgt : tgt ∉ f.ensemble)
    (howner : LedgerHandle.owner m.fragments fromId = some f) :
    Rewritten m { restoredMetadata m failed tgt f with version := m.version + 1 } failed tgt
      fromId ↔ OwnsAlone m failed fromId f := by
  constructor
  · rintro ⟨front, f', back, hfs, hle, hback, hmember, hnodup, hstored⟩
    have hf : f' = f := by
      rw [hfs, owner_of_split hle hback] at howner
      exact Option.some.inj howner
    subst hf
    refine ⟨howner, hmember, ?_, (List.nodup_append.mp hnodup).1⟩
    rw [hfs, alone_iff hle hback]
    by_contra hearlier
    -- the forward search has changed a fragment before the owner
    have hfragments : replaceMember failed tgt f'.firstEntryId m.fragments =
        front ++ swapped failed tgt f' :: back := congrArg LedgerMetadata.fragments hstored
    rw [hfs, replaceMember_append, if_pos (by simpa using hearlier)] at hfragments
    have howned := (List.append_inj hfragments (replaceMember_length _ _ _ _)).2
    have hensemble := congrArg Fragment.ensemble (List.cons.inj howned).1
    rw [hensemble] at htgt
    exact htgt (List.mem_append_right _ (List.mem_singleton_self tgt))
  · intro h
    obtain ⟨front, back, hfs, hle, hback⟩ := owner_split howner
    have halone := h.alone
    rw [hfs, alone_iff hle hback] at halone
    refine ⟨front, f, back, hfs, hle, hback, h.member, ?_, ?_⟩
    · refine List.nodup_append.mpr ⟨h.distinct, List.nodup_singleton _, ?_⟩
      intro n hn n' hn' heq
      rw [heq, List.mem_singleton.mp hn'] at hn
      exact htgt (List.mem_filter.mp hn).1
    · have hfragments : replaceMember failed tgt f.firstEntryId m.fragments =
          front ++ swapped failed tgt f :: back := by
        rw [hfs, replaceMember_append, halone]
        simp [replaceMember, swapped]
      simp [restoredMetadata, hfragments]

/-- The entries are copied for the last fragment with the start, and the members are changed in
the first. -/
theorem restored_rewrites_iff (hgrpc : Grpc net) (hserved : ∀ n, Served crc32 (s.2.replica n))
    (h : runAlone crc32 net (restoreReplication m failed fromId) s = (t, .ok ())) :
    ∃ f src tgt stored, Chosen s.2 m failed fromId f src tgt ∧ row t m.id = some stored ∧
      (Rewritten m stored failed tgt fromId ↔ OwnsAlone m failed fromId f) := by
  obtain ⟨f, src, tgt, w, hchosen, -, -, -, -, ht⟩ := restore_effect hgrpc hserved h
  refine ⟨f, src, tgt, _, hchosen, ?_, rewritten_iff hchosen.ne_failed.2.2.1 hchosen.owner⟩
  unfold row
  rw [ht]
  exact Table.get_put_self _ _ _

theorem first_fragment_rewritten :
    ∃ t stored, runAlone Crc32.crc32 (without "n0") (restoreReplication twoFragments "n0" 0)
        (0, twoFragmentWorld) = (t, .ok ()) ∧ row t 1 = some stored ∧
      Rewritten twoFragments stored "n0" "n2" 0 := by
  obtain ⟨t, ht⟩ := twoFragmentWorld_restored
  obtain ⟨f, src, tgt, stored, hchosen, hrow, hiff⟩ :=
    restored_rewrites_iff (without_static "n0").grpc twoFragmentWorld_served ht
  obtain ⟨rfl, rfl, rfl⟩ := twoFragmentWorld_chosen hchosen
  exact ⟨t, stored, ht, hrow, hiff.mpr ⟨by decide, by decide, by decide, by decide⟩⟩

def retriedPair : LedgerMetadata :=
  ⟨1, .Closed, [⟨0, ["n0", "n1"], 2, 2⟩, ⟨0, ["n1", "n2"], 2, 2⟩], some 0, 0, 3⟩

/-- The first append has failed on `n0` and was tried again on a new fragment with the same
start. When `n1` is replaced, the old fragment is changed, and lists `n0` twice. -/
theorem wrong_fragment_rewritten :
    ∃ s, Reach (Cluster.step Crc32.crc32) (ServedNodes Crc32.crc32) s ∧
      row (sealedBy s 0) 1 = some retriedPair ∧
      (runAlone Crc32.crc32 (without "n1") (restoreReplication retriedPair "n1" 0)
        (sealedBy s 0)).2 = .ok () ∧
      row (runAlone Crc32.crc32 (without "n1") (restoreReplication retriedPair "n1" 0)
        (sealedBy s 0)).1 1 = some
          ⟨1, .Closed, [⟨0, ["n0", "n0"], 2, 2⟩, ⟨0, ["n1", "n2"], 2, 2⟩], some 0, 0, 4⟩ :=
  reach_check _ (clusterOf_served ["n0", "n1"] 2 ["n0", "n1", "n2"]) _
    (appendActs [1] [Cluster.unreachable, .delivered] ++ changeActs ++
      [.writer (.deliver 0 .delivered), .writer (.deliver 1 .delivered), .writer .decide])
    (by decide +kernel)

end Rewriting

section Success
variable {up : NodeId → Prop}

/-- One surviving member may hold what another one misses, but only the first is asked; and the
first outside node is taken even if it is fenced. -/
theorem restore_succeeds_iff {s : Cluster.State}
    (h : Reach (Cluster.step crc32) (ServedNodes crc32) s) (hnet : Static net up)
    (hm : s.store.ledgers.get m.id = some m) (f : Fragment) (resolver : List NodeId) (n : Nat) :
    (runAlone crc32 net (restoreReplication m failed f.firstEntryId)
      (n, worldOf s resolver)).2 = .ok () ↔
      CanRestore up (worldOf s resolver) m failed f.firstEntryId := by
  have hserved : ServedNodes crc32 s := h.invariant (fun _ hs => hs) fun _ a _ => servedNodes_step a
  rw [restore_ok_iff (s := (n, worldOf s resolver)) hnet hserved]
  refine and_iff_left ?_
  change (s.store.ledgers.get m.id).map LedgerMetadata.version = _
  rw [hm]
  rfl

def fencedPair : LedgerMetadata := ⟨1, .Closed, [⟨0, ["n0", "n1"], 2, 2⟩], some 0, 1, 3⟩

theorem pair_restored :
    ∃ s, Reach (Cluster.step Crc32.crc32) (ServedNodes Crc32.crc32) s ∧
      s.store.ledgers.get 1 = some fencedPair ∧
      CanRestore (· ≠ "n0") (worldOf s allNodes) fencedPair "n0" 0 := by
  obtain ⟨s, hreach, hstored, hok⟩ := reach_check (Cluster.step Crc32.crc32)
    (clusterOf_served ["n0", "n1"] 2 ["n1", "n2"])
    (fun s => s.store.ledgers.get 1 = some fencedPair ∧
      (runAlone Crc32.crc32 (without "n0") (restoreReplication fencedPair "n0" 0)
        (0, worldOf s allNodes)).2 = .ok ())
    (appendActs [1] [.delivered, .delivered] ++ appendActs [2] [.delivered, .delivered] ++
      sealActs 2)
    (by decide +kernel)
  exact ⟨s, hreach, hstored, (restore_succeeds_iff hreach (without_static "n0") hstored
    ⟨0, ["n0", "n1"], 2, 2⟩ allNodes 0).mp hok⟩

/-- Every entry of the range is on a surviving member that is up, and a registered node outside
the fragment is up. -/
def Survives (up : NodeId → Prop) (w : World) (m : LedgerMetadata) (failed : NodeId)
    (f : Fragment) : Prop :=
  (∀ i ∈ copyRange m f f.firstEntryId, ∃ n ∈ f.ensemble, n ≠ failed ∧ up n ∧ n ∈ w.resolver ∧
    ((w.replica n).entries.get (m.id, i)).isSome) ∧
  ∃ info ∈ w.store.listNodes, info.nodeId ≠ failed ∧ info.nodeId ∉ f.ensemble ∧
    up info.nodeId ∧ info.nodeId ∈ w.resolver

instance [DecidablePred up] (w : World) (f : Fragment) : Decidable (Survives up w m failed f) := by
  unfold Survives
  infer_instance

def missedByFirst : LedgerMetadata :=
  ⟨1, .Closed, [⟨0, ["n0", "n1", "n2"], 3, 1⟩], some 0, 1, 3⟩

def fencedTarget : LedgerMetadata :=
  ⟨1, .Closed, [⟨0, ["n0", "n1"], 2, 1⟩, ⟨2, ["n1", "n2"], 2, 1⟩], some 0, 1, 4⟩

/-- The first survivor `n0` has missed entry 0, which `n1` has; and the only outside node `n2`
was fenced as a member of the last fragment. -/
theorem survivors_not_used :
    (∃ s, Reach (Cluster.step Crc32.crc32) (ServedNodes Crc32.crc32) s ∧
      s.store.ledgers.get 1 = some missedByFirst ∧
      Survives (· ≠ "n2") (worldOf s allNodes) missedByFirst "n2"
        ⟨0, ["n0", "n1", "n2"], 3, 1⟩ ∧
      (runAlone Crc32.crc32 (without "n2") (restoreReplication missedByFirst "n2" 0)
        (0, worldOf s allNodes)).2 = .error (.entryNotFound 1 0)) ∧
    ∃ s, Reach (Cluster.step Crc32.crc32) (ServedNodes Crc32.crc32) s ∧
      s.store.ledgers.get 1 = some fencedTarget ∧
      Survives (· ≠ "n0") (worldOf s allNodes) fencedTarget "n0"
        ⟨0, ["n0", "n1"], 2, 1⟩ ∧
      (runAlone Crc32.crc32 (without "n0") (restoreReplication fencedTarget "n0" 0)
        (0, worldOf s allNodes)).2 = .error (.ledgerFenced 1) := by
  constructor
  · exact reach_check _ (clusterOf_served ["n0", "n1", "n2"] 1 ["n0", "n1", "n2"]) _
      (appendActs [1] [Cluster.unreachable, .delivered, .delivered] ++
        [.writer (.listNodes .delivered)] ++
        appendActs [2] [Cluster.unreachable, .delivered, .delivered] ++
        [.writer (.listNodes .delivered), .register ⟨"n3", .ReadWrite⟩] ++ sealActs 3)
      (by decide +kernel)
  · exact reach_check _ (clusterOf_served ["n0", "n1"] 1 ["n0", "n1", "n2"]) _
      (appendActs [1] [.delivered, .delivered] ++
        appendActs [2] [Cluster.unreachable, .delivered] ++ changeActs ++ sealActs 2)
      (by decide +kernel)

end Success
end Folio.RestoreOutcome
