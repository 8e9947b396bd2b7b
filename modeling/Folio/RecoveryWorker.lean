import Folio.ClusterSteps
import Folio.Crc32
import Folio.Recovery

/-! The worker with nobody else at work while it processes a task; every request may fail. -/
namespace Folio.RecoveryWorker
open KeyedTable Protocol Metadata LedgerClient RemoteProgram TransitionSystem Recovery
open Cluster (Delivery sealedMetadata putLedger_send transitionState_send)

abbrev Net := Nat → Op → Delivery

variable {crc32 : Bytes → UInt32} {net : Net}

abbrev Clocked := Nat × World

section Runs
variable (crc32 : Bytes → UInt32) (net : Net)

def answerAt (s : Clocked) (o : Op) : Clocked × Except FolioError o.Reply :=
  let r := answer crc32 (net s.1 o) s.2 o
  ((s.1 + 1, r.1), r.2)

def runAlone {α : Type} (p : Remote α) (s : Clocked) : Clocked × Except FolioError α :=
  Prog.run (I := Service) (answerAt crc32 net) p s

def step (s : Clocked) (task : ReReplicationTask) : Option Clocked :=
  some (runAlone crc32 net (process task) s).1

theorem run_tasks (tasks : List ReReplicationTask) (s : Clocked) :
    run (step crc32 net) s tasks = some (runAlone crc32 net (runTasks tasks) s).1 := by
  induction tasks generalizing s with
  | nil => rfl
  | cons task tasks ih =>
    have hcaught : runAlone crc32 net (tryCatch (process task) fun _ => pure ()) s =
        ((runAlone crc32 net (process task) s).1, .ok ()) := by
      unfold runAlone
      rw [Prog.run_handle]
      split
      · rfl
      · rfl
    have hrest : runAlone crc32 net (runTasks (task :: tasks)) s =
        runAlone crc32 net (runTasks tasks) (runAlone crc32 net (process task) s).1 := by
      unfold runAlone at hcaught ⊢
      rw [runTasks, Prog.run_bind, hcaught]
    rw [hrest]
    exact run_cons rfl (ih _)

abbrev Yields {α : Type} (p : Remote α) (s : Clocked)
    (post : Clocked → Except FolioError α → Prop) : Prop :=
  Prog.Yields (I := Service) (answerAt crc32 net) p s post

end Runs

def row (s : Clocked) (id : Nat) : Option LedgerMetadata := s.2.store.ledgers.get id

def openOrClosed (s : Clocked) (task : ReReplicationTask) : Prop :=
  ∀ m ∈ row s task.ledgerId, m.state = .Open ∨ m.state = .Closed

instance (s : Clocked) (task : ReReplicationTask) : Decidable (openOrClosed s task) := by
  unfold openOrClosed
  infer_instance

def Keyed (s : Clocked) : Prop := s.2.store.WellKeyed

section Requests

theorem answerAt_quiet (s : Clocked) (o : Op) (h : Quiet o) :
    (answerAt crc32 net s o).1.2.store = s.2.store := by
  unfold answerAt answer
  cases net s.1 o with
  | delivered => exact perform_quiet crc32 s.2 h
  | lostRequest e => rfl
  | lostReply e => exact perform_quiet crc32 s.2 h

theorem quiet_yields {α : Type} {p : Remote α} (h : p.Uses Quiet) (s : Clocked) :
    Yields crc32 net p s fun t _ => t.2.store = s.2.store :=
  h.yields (fun s : Clocked => s.2.store) answerAt_quiet s

def Written (s t : Clocked) (key : Nat) (m cur : LedgerMetadata) : Prop :=
  row s key = some cur ∧ t.2.store = (s.2.store.writeLedger key m).1

theorem store_yields {o : Op} {s : Clocked} {r : Store × Except FolioError o.Reply}
    {post : Clocked → Except FolioError o.Reply → Prop}
    (h : perform crc32 s.2 o = withStore s.2 r)
    (hpost : ∀ t : Clocked, t.2.store = ((net s.1 o).send r s.2.store).1 →
      post t ((net s.1 o).send r s.2.store).2) :
    Yields crc32 net (ask o) s post := by
  have hans : answer crc32 (net s.1 o) s.2 o = _ := answer_store h
  change post (s.1 + 1, (answer crc32 (net s.1 o) s.2 o).1) (answer crc32 (net s.1 o) s.2 o).2
  rw [hans]
  exact hpost _ rfl

theorem putLedger_yields (m : LedgerMetadata) (s : Clocked) :
    Yields crc32 net (putLedger m) s fun t r =>
      (t.2.store = s.2.store ∧ ∀ m', r ≠ .ok m') ∨
      ∃ cur, Written s t m.id m cur ∧ cur.version = m.version ∧
        ∀ m', r = .ok m' → m' = { m with version := m.version + 1 } := by
  refine store_yields rfl fun t ht => ?_
  rcases putLedger_send (net s.1 (.putLedger m)) s.2.store m with
    ⟨hsame, hno⟩ | ⟨cur, hcur, hv, hwrite, hret⟩
  · exact .inl ⟨ht.trans hsame, hno⟩
  · exact .inr ⟨cur, ⟨hcur, ht.trans hwrite⟩, hv, hret⟩

theorem initiateRecovery_yields (id : Nat) (s : Clocked) :
    Yields crc32 net (initiateRecovery id) s fun t r =>
      (t.2.store = s.2.store ∧ ∀ m', r ≠ .ok m') ∨
      ∃ cur, Written s t id { cur with state := .InRecovery } cur ∧
        ∀ m', r = .ok m' → m' = { cur with state := .InRecovery, version := cur.version + 1 } := by
  refine store_yields rfl fun t ht => ?_
  rcases transitionState_send (net s.1 (.transitionState id .Open .InRecovery)) s.2.store id .Open
    .InRecovery with ⟨hsame, hno⟩ | ⟨cur, hcur, hwrite, hret⟩
  · exact .inl ⟨ht.trans hsame, hno⟩
  · exact .inr ⟨cur, ⟨hcur, ht.trans hwrite⟩, hret⟩

theorem getLedger_yields (id : Nat) (s : Clocked) :
    Yields crc32 net (getLedger id) s fun t r =>
      t.2.store = s.2.store ∧ ∀ m, r = .ok m → row t id = some m := by
  have hstore : (answerAt crc32 net s (.getLedger id)).1.2.store = s.2.store :=
    answerAt_quiet s _ trivial
  refine ⟨hstore, fun m hm => ?_⟩
  change ((net s.1 (.getLedger id)).send (perform crc32 s.2 (.getLedger id)) s.2).2 = .ok m at hm
  rw [Delivery.delivered_of_ok hm] at hm
  have hrow : s.2.store.ledgers.get id = some m := Store.getLedger_ok hm
  exact (congrArg (fun st : Store => st.ledgers.get id) hstore).trans hrow

end Requests

section Programs
variable {s t u : Clocked} {m cur : LedgerMetadata} {state : LedgerState} {key : Nat}
  {task : ReReplicationTask}

structure SameFragments (s t : Clocked) : Prop where
  fragments : ∀ id, (row t id).map LedgerMetadata.fragments =
    (row s id).map LedgerMetadata.fragments
  keyed : Keyed s → Keyed t

theorem SameFragments.trans (h : SameFragments s t) (h' : SameFragments t u) :
    SameFragments s u :=
  ⟨fun id => (h'.fragments id).trans (h.fragments id), h'.keyed ∘ h.keyed⟩

theorem sameFragments_of_store (h : t.2.store = s.2.store) : SameFragments s t := by
  refine ⟨fun id => ?_, fun hs => ?_⟩
  · unfold row
    rw [h]
  · unfold Keyed
    rw [h]
    exact hs

theorem Written.row_eq (h : Written s t key m cur) (id : Nat) :
    row t id = if id = key then some { m with version := m.version + 1 } else row s id := by
  unfold row
  rw [h.2]
  exact Table.get_put _ _ _ _

theorem Written.keyed (h : Written s t key m cur) (hs : Keyed s) (hm : m.id = key) : Keyed t := by
  unfold Keyed
  rw [h.2]
  exact hs.writeLedger hm

theorem Written.sameFragments (h : Written s t key m cur)
    (hfrag : m.fragments = cur.fragments) (hid : Keyed s → m.id = key) : SameFragments s t := by
  refine ⟨fun id => ?_, fun hs => h.keyed hs (hid hs)⟩
  rw [h.row_eq]
  split_ifs with heq
  · rw [heq, h.1]
    exact congrArg some hfrag
  · rfl

theorem startRecovery_yields (id : Nat) (s : Clocked) :
    Yields crc32 net (tryCatch (initiateRecovery id) fun _ => getLedger id) s fun t r =>
      SameFragments s t ∧ ∀ m, r = .ok m → row t id = some m := by
  have hfirst : Yields crc32 net (initiateRecovery id) s fun t r =>
      SameFragments s t ∧ ∀ m, r = .ok m → row t id = some m := by
    refine (initiateRecovery_yields id s).mono fun t r h => ?_
    rcases h with ⟨hsame, hno⟩ | ⟨cur, hwrite, hret⟩
    · exact ⟨sameFragments_of_store hsame, fun m hm => absurd hm (hno m)⟩
    · refine ⟨hwrite.sameFragments rfl fun hs => hs id cur hwrite.1, fun m hm => ?_⟩
      rw [hwrite.row_eq, if_pos rfl, hret m hm]
  refine hfirst.handle (fun t m h => h) fun t e h => ?_
  refine (getLedger_yields id t).mono fun u r hget => ?_
  exact ⟨h.1.trans (sameFragments_of_store hget.1), hget.2⟩

theorem fenceAndSeal_yields (id : Nat) (hs : Keyed s) :
    Yields crc32 net (fenceAndSeal id) s fun t r =>
      SameFragments s t ∧ ∀ m, r = .ok m → m.state = .Closed ∧ row t id = some m := by
  refine (startRecovery_yields id s).bind (fun t m h => ?_) fun t e h => ⟨h.1, nofun⟩
  obtain ⟨hfrag, hrow⟩ := h
  have hm : row t id = some m := hrow m rfl
  have hid : m.id = id := hfrag.keyed hs id m hm
  have hlast : Yields crc32 net (.okOr (.invalidFragment id) m.fragments.getLast?) t
      fun u _ => u = t :=
    Prog.yields_okOr (fun _ _ => rfl) rfl
  refine hlast.bind (fun u fragment hu => ?_) fun u e hu => ⟨hu ▸ hfrag, nofun⟩
  subst hu
  refine (quiet_yields (fenceAll_quiet id fragment.ensemble) u).bind (fun v lacs hv => ?_)
    fun v e hv => ⟨hfrag.trans (sameFragments_of_store hv), nofun⟩
  refine (putLedger_yields (sealedMetadata m lacs) v).mono fun x r h => ?_
  have hfrag' := hfrag.trans (sameFragments_of_store hv)
  rcases h with ⟨hsame, hno⟩ | ⟨cur, hwrite, -, hret⟩
  · exact ⟨hfrag'.trans (sameFragments_of_store hsame), fun m' hm' => absurd hm' (hno m')⟩
  · -- nobody else has written the row since it was read
    have hcur : row v id = some cur := by
      rw [← hid]
      exact hwrite.1
    have hsame : cur = m := by
      have : row v id = row u id := congrArg (fun st : Store => st.ledgers.get id) hv
      rw [this, hm] at hcur
      exact (Option.some.inj hcur).symm
    refine ⟨hfrag'.trans (hwrite.sameFragments (by rw [hsame]; rfl) fun _ => rfl),
      fun m' hm' => ?_⟩
    rw [hret m' hm']
    refine ⟨rfl, ?_⟩
    rw [hwrite.row_eq]
    exact if_pos hid.symm

structure WritesIn (state : LedgerState) (s t : Clocked) : Prop where
  rows : ∀ id, row t id ≠ row s id → (row t id).map LedgerMetadata.state = some state
  keyed : Keyed s → Keyed t

theorem writesIn_of_store (h : t.2.store = s.2.store) : WritesIn state s t :=
  ⟨fun id hne => absurd (congrArg (fun st : Store => st.ledgers.get id) h) hne,
    (sameFragments_of_store h).keyed⟩

theorem Written.writesIn
    (h : Written s t m.id m cur) (hm : m.state = state) : WritesIn state s t := by
  refine ⟨fun id hne => ?_, fun hs => h.keyed hs rfl⟩
  rw [h.row_eq] at hne ⊢
  split_ifs at hne ⊢
  · exact congrArg some hm
  · exact absurd rfl hne

theorem restoreReplication_yields (m : LedgerMetadata) (failed : NodeId) (fromId : Nat)
    (s : Clocked) :
    Yields crc32 net (restoreReplication m failed fromId) s fun t _ => WritesIn m.state s t := by
  rw [restoreReplication_eq]
  refine (quiet_yields (restorePlan_quiet ..) s).bind (fun t plan ht => ?_)
    fun t e ht => writesIn_of_store ht
  suffices hput : Yields crc32 net (putLedger _) t fun u _ => WritesIn m.state s u from
    hput.bind (fun _ _ h => h) fun _ _ h => h
  refine (putLedger_yields _ t).mono fun u r h => ?_
  rcases h with ⟨hsame, -⟩ | ⟨cur, hwrite, -, -⟩
  · exact writesIn_of_store (hsame.trans ht)
  · have hput : WritesIn m.state t u := hwrite.writesIn rfl
    refine ⟨fun id hne => hput.rows id ?_,
      fun hs => hput.keyed ((sameFragments_of_store ht).keyed hs)⟩
    rwa [show row t id = row s id from congrArg (fun st : Store => st.ledgers.get id) ht]

theorem metadataFor_yields (hs : Keyed s) (hg : openOrClosed s task) :
    Yields crc32 net (metadataFor task) s fun t r =>
      SameFragments s t ∧ ∀ m, r = .ok m → m.state = .Closed := by
  refine (getLedger_yields task.ledgerId s).bind (fun t m h => ?_)
    fun t e h => ⟨sameFragments_of_store h.1, nofun⟩
  obtain ⟨hst, hrow⟩ := h
  have hfrag := sameFragments_of_store hst
  have hm : row s task.ledgerId = some m :=
    (congrArg (fun st : Store => st.ledgers.get task.ledgerId) hst).symm.trans (hrow m rfl)
  split_ifs with hopen
  · refine (fenceAndSeal_yields task.ledgerId (hfrag.keyed hs)).mono fun u r h => ?_
    exact ⟨hfrag.trans h.1, fun m' hm' => (h.2 m' hm').1⟩
  · refine ⟨hfrag, fun m' hm' => ?_⟩
    cases hm'
    exact (hg m hm).resolve_left hopen

theorem process_yields (hs : Keyed s) (hg : openOrClosed s task) :
    Yields crc32 net (process task) s fun t _ => (Keyed t) ∧
      ∀ id, (row t id).map LedgerMetadata.fragments ≠ (row s id).map LedgerMetadata.fragments →
        (row t id).map LedgerMetadata.state = some .Closed := by
  refine (metadataFor_yields hs hg).bind (fun t m h => ?_)
    fun t e h => ⟨h.1.keyed hs, fun id hne => absurd (h.1.fragments id) hne⟩
  obtain ⟨hfrag, hclosed⟩ := h
  refine (restoreReplication_yields m task.failedNodeId task.fromEntryId t).mono fun u r hw => ?_
  refine ⟨hw.keyed (hfrag.keyed hs), fun id hne => ?_⟩
  rw [hclosed m rfl] at hw
  refine hw.rows id fun hrow => hne ?_
  rw [hrow]
  exact hfrag.fragments id

end Programs

section SealedOnly
variable {s : Clocked}

/-- If the worker finds every ledger open or closed, `restore_replication` is called with
closed metadata only, and no fragment changes but in a closed ledger. -/
theorem worker_copies_sealed_ledgers
    (h : Reach (guarded openOrClosed (step crc32 net)) Keyed s) (task : ReReplicationTask)
    (hg : openOrClosed s task) :
    (∀ m, (runAlone crc32 net (metadataFor task) s).2 = .ok m → m.state = .Closed) ∧
      ∀ id, (row (runAlone crc32 net (process task) s).1 id).map LedgerMetadata.fragments ≠
          (row s id).map LedgerMetadata.fragments →
        (row (runAlone crc32 net (process task) s).1 id).map LedgerMetadata.state =
          some .Closed := by
  have hkeyed : Keyed s := by
    refine Reach.invariant (P := Keyed) (fun _ hs => hs) (fun s task t hs hst => ?_) h
    obtain ⟨hg, hst⟩ := (guarded_eq_some openOrClosed).mp hst
    cases hst
    exact (process_yields hs hg).1
  exact ⟨(metadataFor_yields hkeyed hg).2, (process_yields hkeyed hg).2⟩

def nodeOf : Op → Option NodeId
  | .fenceLedger n _ | .readEntry n _ _ | .addEntry n _ => some n
  | _ => none

def without (failed : NodeId) : Net := fun _ o =>
  if nodeOf o = some failed then Cluster.unreachable else .delivered

def allUp : Net := fun _ _ => .delivered

/-- Ledger 1 on `n0` and `n1`, with a spare; `n1` holds entry 0, which the stored metadata
does not know of. -/
def pairWorld : World where
  store := ⟨1, Table.empty.put 1 (Cluster.newLedger ["n0", "n1"] 2 1),
    (Table.empty.put "n1" .ReadWrite).put "n2" .ReadWrite⟩
  replicas := Table.empty.put "n1"
    ⟨Table.empty.put (1, 0) (Entry.new Crc32.crc32 1 0 0 []), [], .empty⟩
  resolver := ["n0", "n1", "n2"]

theorem pairWorld_keyed (n : Nat) : Keyed (n, pairWorld) := by
  intro id m hm
  change (Table.empty.put 1 _).get id = some m at hm
  obtain ⟨rfl, rfl⟩ : id = 1 ∧ _ = m := by simpa [Table.get_put] using hm
  rfl

def pairTask : ReReplicationTask := ⟨1, "n0", 0⟩

theorem open_ledger_sealed_first :
    ∃ m, (runAlone Crc32.crc32 allUp (metadataFor pairTask) (0, pairWorld)).2 = .ok m ∧
      m.state = .Closed ∧
      (runAlone Crc32.crc32 allUp (process pairTask) (0, pairWorld)).2 = .ok () := by
  have hg : openOrClosed (0, pairWorld) pairTask := by decide
  have hreach : Reach (guarded openOrClosed (step Crc32.crc32 allUp)) Keyed (0, pairWorld) :=
    .start (pairWorld_keyed 0)
  have hok : (runAlone Crc32.crc32 allUp (metadataFor pairTask) (0, pairWorld)).2.isOk := by
    decide +kernel
  obtain ⟨m, hm⟩ : ∃ m,
      (runAlone Crc32.crc32 allUp (metadataFor pairTask) (0, pairWorld)).2 = .ok m := by
    cases hr : (runAlone Crc32.crc32 allUp (metadataFor pairTask) (0, pairWorld)).2 with
    | ok m => exact ⟨m, rfl⟩
    | error e =>
      rw [hr] at hok
      cases hok
  exact ⟨m, hm, (worker_copies_sealed_ledgers hreach pairTask hg).1 m hm, by decide +kernel⟩

/-- The first task leaves the ledger in recovery; the second one replaces the dead node and
copies nothing. -/
theorem unsealed_ledger_copied :
    ∃ s m, Reach (step Crc32.crc32 (without "n0")) Keyed s ∧
      (runAlone Crc32.crc32 (without "n0") (metadataFor pairTask) s).2 = .ok m ∧
      m.state = .InRecovery ∧
      (runAlone Crc32.crc32 (without "n0") (process pairTask) s).2 = .ok () ∧
      (row (runAlone Crc32.crc32 (without "n0") (process pairTask) s).1 1).map
        (fun m => (m.state, m.fragments.map Fragment.ensemble)) =
          some (.InRecovery, [["n1", "n2"]]) ∧
      ((runAlone Crc32.crc32 (without "n0") (process pairTask) s).1.2.replica "n2").entries.get
        (1, 0) = none := by
  obtain ⟨s, hreach, hm, hrest⟩ := reach_check (step Crc32.crc32 (without "n0"))
    (pairWorld_keyed 0)
    (fun s =>
      (runAlone Crc32.crc32 (without "n0") (metadataFor pairTask) s).2 =
        .ok { Cluster.newLedger ["n0", "n1"] 2 1 with state := .InRecovery, version := 2 } ∧
      (runAlone Crc32.crc32 (without "n0") (process pairTask) s).2 = .ok () ∧
      (row (runAlone Crc32.crc32 (without "n0") (process pairTask) s).1 1).map
        (fun m => (m.state, m.fragments.map Fragment.ensemble)) =
          some (.InRecovery, [["n1", "n2"]]) ∧
      ((runAlone Crc32.crc32 (without "n0") (process pairTask) s).1.2.replica "n2").entries.get
        (1, 0) = none)
    [pairTask] (by decide +kernel)
  exact ⟨s, _, hreach, hm, rfl, hrest⟩

end SealedOnly

section DeadNode
variable {s : Clocked} {failed : NodeId} {m : LedgerMetadata} {f : Fragment} {o : Op}

/-- An open ledger whose last fragment has one dead member; everything else is there that a
repair could need. -/
structure OneDeadNode (net : Net) (s : Clocked) (failed : NodeId) (m : LedgerMetadata)
    (f : Fragment) : Prop where
  stored : row s m.id = some m
  isOpen : m.state = .Open
  last : m.fragments.getLast? = some f
  member : failed ∈ f.ensemble
  dead : ∀ n o, nodeOf o = some failed → net n o ≠ .delivered
  answers : ∀ n o, nodeOf o ≠ some failed → net n o = .delivered
  resolved : ∀ n ∈ f.ensemble, n ≠ failed → n ∈ s.2.resolver
  held : ∀ id n, f.firstEntryId ≤ id → n ∈ f.ensemble →
    ((s.2.replica n).entries.get (m.id, id)).isSome → ∀ n' ∈ f.ensemble, n' ≠ failed →
      ((s.2.replica n').entries.get (m.id, id)).isSome
  spare : ∃ info ∈ s.2.store.listNodes, info.nodeId ≠ failed ∧ info.nodeId ∉ f.ensemble ∧
    info.nodeId ∈ s.2.resolver

theorem OneDeadNode.store_answers (h : OneDeadNode net s failed m f) (ho : nodeOf o = none)
    (n : Nat) : net n o = .delivered :=
  h.answers n o (by rw [ho]; simp)

theorem OneDeadNode.enqueued (h : OneDeadNode net s failed m f) :
    ⟨m.id, failed, f.firstEntryId⟩ ∈ tasksFor failed s.2.store.listNodes m := by
  obtain ⟨info, hinfo, hne, hout, -⟩ := h.spare
  refine List.mem_map.mpr ⟨f, List.mem_filter.mpr ⟨List.mem_of_getLast? h.last, ?_⟩, rfl⟩
  have htarget : (targetNode f failed s.2.store.listNodes).isSome :=
    List.find?_isSome.mpr ⟨info, hinfo, decide_eq_true ⟨hne, hout⟩⟩
  simp [h.member, htarget]

theorem ask_delivered (h : net s.1 o = .delivered)
    {post : Clocked → Except FolioError o.Reply → Prop}
    (hpost : post (s.1 + 1, (perform crc32 s.2 o).1) (perform crc32 s.2 o).2) :
    Yields crc32 net (ask o) s post := by
  have hans : answerAt crc32 net s o =
      ((s.1 + 1, (perform crc32 s.2 o).1), (perform crc32 s.2 o).2) := by
    rw [answerAt, answer, h]
    rfl
  change post (answerAt crc32 net s o).1 (answerAt crc32 net s o).2
  rw [hans]
  exact hpost

theorem ask_lost (h : net s.1 o ≠ .delivered) :
    Yields crc32 net (ask o) s fun _ r => ∃ e, r = .error e := by
  change ∃ e, (answerAt crc32 net s o).2 = .error e
  unfold answerAt answer
  cases hd : net s.1 o with
  | delivered => exact absurd hd h
  | lostRequest e => exact ⟨e, rfl⟩
  | lostReply e => exact ⟨e, rfl⟩

theorem fenceAll_dead (hdead : ∀ n o, nodeOf o = some failed → net n o ≠ .delivered)
    (id : Nat) {ns : List NodeId} (hmem : failed ∈ ns) (s : Clocked) :
    Yields crc32 net (fenceAll id ns) s fun _ r => ∃ e, r = .error e := by
  induction ns generalizing s with
  | nil => cases hmem
  | cons n ns ih =>
    have hany : ∀ {α : Type} (p : Remote α) (t : Clocked),
        Yields crc32 net p t fun _ _ => True := fun _ _ => trivial
    refine (hany (resolve n) s).bind (fun t _ _ => ?_) fun _ e _ => ⟨e, rfl⟩
    by_cases hn : n = failed
    · have hlost : Yields crc32 net (ask (.fenceLedger n id)) t fun _ r => ∃ e, r = .error e :=
        ask_lost (hdead t.1 _ (congrArg some hn))
      refine hlost.bind (fun u lac hu => ?_) fun _ e _ => ⟨e, rfl⟩
      obtain ⟨e, he⟩ := hu
      cases he
    · have hrest : failed ∈ ns := (List.mem_cons.mp hmem).resolve_left (Ne.symm hn)
      refine (hany (ask (.fenceLedger n id)) t).bind (fun u lac _ => ?_) fun _ e _ => ⟨e, rfl⟩
      refine (ih hrest u).bind (fun v lacs hv => ?_) fun _ e _ => ⟨e, rfl⟩
      obtain ⟨e, he⟩ := hv
      cases he

theorem OneDeadNode.fenceAndSeal
    (h : OneDeadNode net s failed m f) {t : Clocked} (ht : t.2.store = s.2.store) :
    Yields crc32 net (fenceAndSeal m.id) t fun u r => (∃ e, r = .error e) ∧
      row u m.id = some { m with state := .InRecovery, version := m.version + 1 } := by
  let begun : LedgerMetadata := { m with state := .InRecovery, version := m.version + 1 }
  have hrow : t.2.store.ledgers.get m.id = some m := by
    rw [ht]
    exact h.stored
  have htransition : t.2.store.transitionState m.id .Open .InRecovery =
      ((t.2.store.writeLedger m.id { m with state := .InRecovery }).1, .ok begun) := by
    rw [Store.transitionState, hrow]
    exact if_neg (not_not.mpr h.isOpen)
  have hstart : Yields crc32 net (initiateRecovery m.id) t fun u r =>
      r = .ok begun ∧ row u m.id = some begun := by
    refine ask_delivered (h.store_answers rfl _) ⟨congrArg Prod.snd htransition, ?_⟩
    change (t.2.store.transitionState m.id .Open .InRecovery).1.ledgers.get m.id = _
    rw [htransition]
    exact Table.get_put_self _ _ _
  have hbegin : Yields crc32 net (tryCatch (initiateRecovery m.id) fun _ => getLedger m.id) t
      fun u r => r = .ok begun ∧ row u m.id = some begun := by
    refine hstart.handle (fun _ _ h => h) ?_
    rintro u e ⟨he, -⟩
    cases he
  refine hbegin.bind (fun u m' hu => ?_) ?_
  · obtain ⟨hm', hbegun⟩ := hu
    cases hm'
    rw [show begun.fragments.getLast? = some f from h.last]
    have hlast : Yields crc32 net (.okOr (.invalidFragment m.id) (some f)) u
        fun v r => v = u ∧ r = .ok f := ⟨rfl, rfl⟩
    refine hlast.bind (fun v g hv => ?_) ?_
    · obtain ⟨rfl, hg⟩ := hv
      cases hg
      have hboth : Yields crc32 net (fenceAll m.id f.ensemble) v fun x r =>
          x.2.store = v.2.store ∧ ∃ e, r = .error e :=
        ⟨quiet_yields (fenceAll_quiet m.id f.ensemble) v, fenceAll_dead h.dead m.id h.member v⟩
      refine hboth.bind (fun x lacs hx => ?_) fun x e hx => ⟨⟨e, rfl⟩, ?_⟩
      · obtain ⟨-, e, he⟩ := hx
        cases he
      · exact (congrArg (fun st : Store => st.ledgers.get m.id) hx.1).trans hbegun
    · rintro v e ⟨-, he⟩
      cases he
  · rintro u e ⟨he, -⟩
    cases he

/-- The task of a dead node ends with an error and leaves the ledger in recovery, with all its
fragments as they were. -/
theorem dead_node_never_replaced {m : LedgerMetadata} {f : Fragment}
    (h : OneDeadNode net s failed m f) :
    (∃ e, (runAlone crc32 net (process ⟨m.id, failed, f.firstEntryId⟩) s).2 = .error e) ∧
      row (runAlone crc32 net (process ⟨m.id, failed, f.firstEntryId⟩) s).1 m.id =
        some { m with state := .InRecovery, version := m.version + 1 } := by
  change Yields crc32 net (process ⟨m.id, failed, f.firstEntryId⟩) s fun t r =>
    (∃ e, r = .error e) ∧
      row t m.id = some { m with state := .InRecovery, version := m.version + 1 }
  have hget : Yields crc32 net (getLedger m.id) s fun t r =>
      t.2.store = s.2.store ∧ r = .ok m := by
    refine ask_delivered (h.store_answers rfl _) ⟨rfl, ?_⟩
    change s.2.store.getLedger m.id = _
    rw [Store.getLedger, show s.2.store.ledgers.get m.id = some m from h.stored]
  have hmeta : Yields crc32 net (metadataFor ⟨m.id, failed, f.firstEntryId⟩) s fun t r =>
      (∃ e, r = .error e) ∧
        row t m.id = some { m with state := .InRecovery, version := m.version + 1 } := by
    refine hget.bind (fun t m' ht => ?_) ?_
    · obtain ⟨hst, hm'⟩ := ht
      cases hm'
      rw [if_pos h.isOpen]
      exact h.fenceAndSeal hst
    · rintro t e ⟨-, he⟩
      cases he
  refine hmeta.bind (fun t m' ht => ?_) fun t e ht => ⟨⟨e, rfl⟩, ht.2⟩
  obtain ⟨⟨e, he⟩, -⟩ := ht
  cases he

theorem pairWorld_oneDeadNode : OneDeadNode (without "n0") (0, pairWorld) "n0"
    (Cluster.newLedger ["n0", "n1"] 2 1) ⟨0, ["n0", "n1"], 2, 1⟩ where
  stored := rfl
  isOpen := rfl
  last := rfl
  member := by decide
  dead := by
    intro n o ho
    rw [without, if_pos ho]
    decide
  answers := fun n o ho => if_neg ho
  resolved := by decide
  held := by
    intro id n _ hn hheld n' hn' hne
    obtain rfl : n' = "n1" := by simpa [hne] using hn'
    rcases List.mem_cons.mp hn with rfl | hn
    · exact absurd hheld (by simp [World.replica, pairWorld, Table.get_put, Replica.empty])
    · obtain rfl := List.mem_singleton.mp hn
      exact hheld
  spare := ⟨⟨"n2", .ReadWrite⟩, by decide, by decide, by decide, by decide⟩

theorem pairWorld_never_repaired :
    OneDeadNode (without "n0") (0, pairWorld) "n0" (Cluster.newLedger ["n0", "n1"] 2 1)
        ⟨0, ["n0", "n1"], 2, 1⟩ ∧
      (∃ e, (runAlone Crc32.crc32 (without "n0") (process pairTask) (0, pairWorld)).2 =
        .error e) ∧
      (row (runAlone Crc32.crc32 (without "n0") (process pairTask) (0, pairWorld)).1 1).map
        LedgerMetadata.state = some .InRecovery := by
  obtain ⟨herr, hrow⟩ := @dead_node_never_replaced Crc32.crc32 _ _ _ _ _ pairWorld_oneDeadNode
  exact ⟨pairWorld_oneDeadNode, herr, congrArg (Option.map LedgerMetadata.state) hrow⟩

/-- The error is the one of the call to the dead node, and the node is still a member. -/
theorem dead_node_blocks_repair :
    OneDeadNode (without "n0") (0, pairWorld) "n0" (Cluster.newLedger ["n0", "n1"] 2 1)
        ⟨0, ["n0", "n1"], 2, 1⟩ ∧
      (runAlone Crc32.crc32 (without "n0") (process pairTask) (0, pairWorld)).2 =
        .error (.storage "gRPC unavailable") ∧
      (row (runAlone Crc32.crc32 (without "n0") (process pairTask) (0, pairWorld)).1 1).map
        (fun m => (m.state, m.fragments.map Fragment.ensemble)) =
          some (.InRecovery, [["n0", "n1"]]) :=
  ⟨pairWorld_oneDeadNode, by decide +kernel, by decide +kernel⟩

end DeadNode

end Folio.RecoveryWorker
