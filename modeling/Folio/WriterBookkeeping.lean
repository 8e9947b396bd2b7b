import Folio.ClusterSteps
import Folio.Crc32

/-! The handle's own account of its ledger: entry ids, confirmed mark and fragments, over the
whole life of the handle. -/
namespace Folio.WriterBookkeeping
open KeyedTable Protocol Metadata LedgerClient TransitionSystem Cluster
variable {crc32 : Bytes → UInt32} {mark : Nat → NodeId → Option Nat}

structure Commit where
  id : Nat
  fragment : Fragment
  nodes : List NodeId
  deriving DecidableEq

variable {commits : List Commit}

def ackedBy (a : Attempt) : List NodeId :=
  a.slots.filterMap fun s => (s.2.bind Except.toOption).map fun _ => s.1

def completed (a : Attempt) : List Commit :=
  if ¬a.fenced ∧ a.fragment.ackQuorum ≤ a.acks.length then
    [⟨a.entry.entryId, a.fragment, ackedBy a⟩]
  else []

def commitOf (s : State) : Act → List Commit
  | .writer .decide =>
    match s.writer.pc with
    | .sending a => completed a
    | _ => []
  | _ => []

/-- The cluster with a record of the completed appends, latest first. -/
structure Tracked where
  cluster : State
  commits : List Commit

def step (crc32 : Bytes → UInt32) (s : Tracked) (a : Act) : Option Tracked :=
  (Cluster.step crc32 s.cluster a).map fun t => ⟨t, commitOf s.cluster a ++ s.commits⟩

def ackedIds (w : Writer) : List Nat := (w.replies.filterMap Reply.ackedId).reverse

/-- The fragment `read` takes for the id is the one whose members acknowledged it. -/
structure Owned (fragments : List Fragment) (c : Commit) : Prop where
  owner : LedgerHandle.owner fragments c.id = some c.fragment
  members : ∀ n ∈ c.nodes, n ∈ c.fragment.ensemble
  quorum : c.fragment.ackQuorum ≤ c.nodes.length

structure Bookkeeping (w : Writer) (commits : List Commit) : Prop where
  ids : ackedIds w <+: List.range w.handle.nextEntryId
  idsIdle : w.pc = .idle → ackedIds w = List.range w.handle.nextEntryId
  next : w.handle.nextEntryId = (w.handle.metadata.lastEntryId.map (· + 1)).getD 0
  lac : ∀ last, w.handle.metadata.lastEntryId = some last →
    w.handle.lac = last ∧ w.handle.metadata.lastAddConfirmed = last
  firsts : (w.handle.metadata.fragments.map Fragment.firstEntryId).Pairwise (· ≤ ·)
  lastFirst : ∀ f, w.handle.metadata.fragments.getLast? = some f →
    f.firstEntryId ≤ w.handle.nextEntryId
  owners : ∀ id ∈ ackedIds w, ∃ c ∈ commits, c.id = id ∧ (∀ c' ∈ commits, c'.id = id → c' = c) ∧
    Owned w.handle.metadata.fragments c

structure Fresh (s : Tracked) : Prop where
  created : ∃ st o ensemble m, Store.createLedger st o ensemble = (s.cluster.store, .ok m) ∧
    s.cluster.writer = ⟨.new m, .idle, false, []⟩
  marks : ∀ n, (s.cluster.replica n).lac.get s.cluster.ledger = none
  commits : s.commits = []

section Invariant
variable (mark : Nat → NodeId → Option Nat)

/-- `mark` is the confirmed mark a node has for a ledger. -/
structure Base (w : Writer) (commits : List Commit) : Prop where
  firsts : (w.handle.metadata.fragments.map Fragment.firstEntryId).Pairwise (· ≤ ·)
  bound : ∀ f ∈ w.handle.metadata.fragments, f.firstEntryId ≤ w.handle.nextEntryId
  next : w.handle.nextEntryId = (w.handle.metadata.lastEntryId.map (· + 1)).getD 0
  lac : w.handle.lac = w.handle.metadata.lastEntryId.getD 0
  confirmed : w.handle.metadata.lastAddConfirmed = w.handle.lac
  marks : ∀ n v, mark w.handle.metadata.id n = some v → v ≤ w.handle.lac
  ids : commits.map Commit.id = (List.range w.handle.nextEntryId).reverse
  owned : ∀ c ∈ commits, Owned w.handle.metadata.fragments c

structure Sending (h : LedgerHandle) (a : Attempt) : Prop where
  ledger : a.entry.ledgerId = h.metadata.id
  id : a.entry.entryId = h.nextEntryId
  lac : a.entry.lac = h.lac
  last : h.metadata.fragments.getLast? = some a.fragment
  nodes : ∀ slot ∈ a.slots, slot.1 ∈ a.fragment.ensemble
  reported : ∀ ack ∈ a.acks, ack.localLac ≤ h.lac

/-- The append that a `change_fragment` interrupts has returned nothing yet. -/
def ChangeInv (w : Writer) (a : Attempt) : AfterChange → Prop
  | .retry => ackedIds w = List.range w.handle.nextEntryId
  | .done => ackedIds w = List.range a.entry.entryId ∧
      w.handle.nextEntryId = a.entry.entryId + 1

def PcInv (w : Writer) : WriterPc → Prop
  | .idle => ackedIds w = List.range w.handle.nextEntryId
  | .sending a => ackedIds w = List.range w.handle.nextEntryId ∧ Sending w.handle a
  | .listing a after | .putting a after => ChangeInv w a after

structure WriterInv (w : Writer) (commits : List Commit) : Prop extends Base mark w commits where
  pc : PcInv w w.pc

end Invariant

section Handle
variable {w : Writer} {a : Attempt} {after : AfterChange}

theorem Base.lac_le_next (h : Base mark w commits) : w.handle.lac ≤ w.handle.nextEntryId := by
  rw [h.lac, h.next]
  cases w.handle.metadata.lastEntryId with
  | none => exact Nat.le_refl 0
  | some last => exact Nat.le_succ last

theorem Base.of_handle {w' : Writer} (h : Base mark w commits) (hw : w'.handle = w.handle) :
    Base mark w' commits := by
  obtain ⟨handle, pc, afterSeal, replies⟩ := w'
  dsimp only at hw
  subst hw
  exact ⟨h.firsts, h.bound, h.next, h.lac, h.confirmed, h.marks, h.ids, h.owned⟩

theorem Base.reply_error (h : Base mark w commits)
    (hids : ackedIds w = List.range w.handle.nextEntryId) (data : Bytes) (e : FolioError) :
    WriterInv mark (reply w data (.error e)) commits :=
  ⟨h.of_handle rfl, hids⟩

theorem Base.reply_ok (h : Base mark w commits) {id : Nat} (hids : ackedIds w = List.range id)
    (hnext : w.handle.nextEntryId = id + 1) (data : Bytes) :
    WriterInv mark (reply w data (.ok id)) commits := by
  refine ⟨h.of_handle rfl, ?_⟩
  change (id :: w.replies.filterMap Reply.ackedId).reverse = List.range w.handle.nextEntryId
  rw [List.reverse_cons, hnext, List.range_succ, ← hids]
  rfl

theorem Base.startAttempt (h : Base mark w commits)
    (hids : ackedIds w = List.range w.handle.nextEntryId) (number : Nat) (data : Bytes) :
    WriterInv mark (startAttempt crc32 w number data) commits := by
  unfold Cluster.startAttempt
  split
  · exact h.reply_error hids _ _
  · rename_i fragment hlast
    refine ⟨h.of_handle rfl, hids, rfl, rfl, rfl, hlast, fun slot hslot => ?_, fun ack hack => ?_⟩
    · obtain ⟨n, hn, rfl⟩ := List.mem_map.mp hslot
      exact List.mem_of_mem_take hn
    · obtain ⟨slot, hslot, hack⟩ := List.mem_filterMap.mp hack
      obtain ⟨n, -, rfl⟩ := List.mem_map.mp hslot
      cases hack

theorem ackedBy_length (a : Attempt) : (ackedBy a).length = a.acks.length := by
  unfold ackedBy Attempt.acks
  induction a.slots with
  | nil => rfl
  | cons slot slots ih =>
    simp only [List.filterMap_cons]
    cases slot.2.bind Except.toOption with
    | none => exact ih
    | some ack => exact congrArg (· + 1) ih

theorem Sending.members {h : LedgerHandle} (hs : Sending h a) :
    ∀ n ∈ ackedBy a, n ∈ a.fragment.ensemble := by
  intro n hn
  obtain ⟨slot, hslot, hack⟩ := List.mem_filterMap.mp hn
  obtain ⟨ack, -, rfl⟩ := Option.map_eq_some_iff.mp hack
  exact hs.nodes slot hslot

theorem Sending.advance (h : Base mark w commits) (hs : Sending w.handle a) :
    LedgerHandle.advanceLac w.handle.lac a.acks a.entry.entryId = a.entry.entryId := by
  have hlac : w.handle.lac ≤ a.entry.entryId := by
    rw [hs.id]
    exact h.lac_le_next
  have hmax : (a.acks.map AppendAck.localLac).max?.getD 0 ≤ a.entry.entryId := by
    cases hm : (a.acks.map AppendAck.localLac).max? with
    | none => exact Nat.zero_le _
    | some top =>
      obtain ⟨ack, hack, rfl⟩ := List.mem_map.mp (List.max?_eq_some_iff.mp hm).1
      exact Nat.le_trans (hs.reported ack hack) hlac
  unfold LedgerHandle.advanceLac
  omega

theorem Base.commit (h : Base mark w commits) (hs : Sending w.handle a)
    (hq : a.fragment.ackQuorum ≤ a.acks.length) :
    Base mark { w with handle := w.handle.commit a.acks a.entry.entryId }
      (⟨a.entry.entryId, a.fragment, ackedBy a⟩ :: commits) where
  firsts := h.firsts
  bound := fun f hf => Nat.le_succ_of_le (h.bound f hf)
  next := congrArg (· + 1) hs.id.symm
  lac := Sending.advance h hs
  confirmed := rfl
  marks := by
    intro n v hv
    have hold := h.marks n v hv
    have hnew : (w.handle.commit a.acks a.entry.entryId).lac = a.entry.entryId :=
      Sending.advance h hs
    dsimp only
    rw [hnew, hs.id]
    exact Nat.le_trans hold h.lac_le_next
  ids := by
    change a.entry.entryId :: commits.map Commit.id =
      (List.range (w.handle.nextEntryId + 1)).reverse
    rw [h.ids, List.range_succ, List.reverse_append, hs.id]
    rfl
  owned := by
    intro c hc
    rcases List.mem_cons.mp hc with rfl | hc
    · refine ⟨owner_of_last hs.last ?_, hs.members, ?_⟩
      · dsimp only
        rw [hs.id]
        exact h.bound _ (List.mem_of_getLast? hs.last)
      · dsimp only
        rw [ackedBy_length]
        exact hq
    · exact h.owned c hc

theorem Base.decide (h : Base mark w commits)
    (hids : ackedIds w = List.range w.handle.nextEntryId) (hs : Sending w.handle a) :
    WriterInv mark (decideAttempt w a) (completed a ++ commits) := by
  by_cases hfenced : a.fenced
  · have hnone : completed a = [] := if_neg fun hc => hc.1 hfenced
    rw [decideAttempt, if_pos hfenced, hnone]
    exact h.reply_error hids _ _
  rw [decideAttempt, if_neg hfenced]
  by_cases hq : a.fragment.ackQuorum ≤ a.acks.length
  · have hone : completed a = [⟨a.entry.entryId, a.fragment, ackedBy a⟩] := if_pos ⟨hfenced, hq⟩
    have hbase := h.commit hs hq
    have hnext : w.handle.nextEntryId + 1 = a.entry.entryId + 1 := by rw [hs.id]
    rw [← hs.id] at hids
    rw [if_pos hq, hone]
    dsimp only
    split
    · exact ⟨hbase.of_handle rfl, hids, hnext⟩
    · exact hbase.reply_ok hids hnext _
  · have hnone : completed a = [] := if_neg fun hc => hq hc.2
    rw [if_neg hq, hnone]
    split
    · exact ⟨h.of_handle rfl, hids⟩
    · exact h.reply_error hids _ _

theorem Base.endChange (h : Base mark w commits) (hc : ChangeInv w a after)
    (ok : Bool) : WriterInv mark (endChange crc32 w a after ok) commits := by
  unfold Cluster.endChange
  split
  · exact h.reply_ok hc.1 hc.2 _
  · exact h.startAttempt hc _ _
  · exact h.reply_error hc _ _

theorem Base.push (h : Base mark w commits) {f : Fragment}
    (hf : f.firstEntryId = w.handle.nextEntryId) :
    Base mark (withMetadata w { w.handle.metadata with
      fragments := w.handle.metadata.fragments ++ [f] }) commits where
  firsts := by
    simp only [withMetadata, List.map_append, List.map_cons, List.map_nil]
    refine List.pairwise_append.mpr ⟨h.firsts, List.pairwise_singleton .., ?_⟩
    intro first hfirst first' hlast
    obtain ⟨g, hg, rfl⟩ := List.mem_map.mp hfirst
    obtain rfl := List.mem_singleton.mp hlast
    rw [hf]
    exact h.bound g hg
  bound := by
    intro g hg
    rcases List.mem_append.mp hg with hg | hg
    · exact h.bound g hg
    · obtain rfl := List.mem_singleton.mp hg
      exact Nat.le_of_eq hf
  next := h.next
  lac := h.lac
  confirmed := h.confirmed
  marks := h.marks
  ids := h.ids
  owned := by
    intro c hc
    have hpast : c.id < w.handle.nextEntryId := by
      have hmem := List.mem_map_of_mem (f := Commit.id) hc
      rwa [h.ids, List.mem_reverse, List.mem_range] at hmem
    obtain ⟨howner, hmembers, hquorum⟩ := h.owned c hc
    refine ⟨?_, hmembers, hquorum⟩
    rw [← howner]
    exact owner_append_of_lt (by rw [hf]; exact hpast)

theorem Base.pushFragment (h : Base mark w commits)
    (hc : ChangeInv w a after) (nodes : Except FolioError (List NodeInfo)) :
    WriterInv mark (pushFragment crc32 w a after nodes) commits := by
  unfold Cluster.pushFragment
  split
  · exact h.endChange hc false
  · rename_i f hf
    obtain ⟨ns, -, hnew⟩ : ∃ ns, nodes = .ok ns ∧
        newFragment w.handle.metadata a.failed ns w.handle.nextEntryId = .ok f := by
      cases nodes with
      | error e => cases hf
      | ok ns => exact ⟨ns, rfl, hf⟩
    have hpush := h.push (newFragment_ok hnew).1
    refine ⟨hpush.of_handle rfl, ?_⟩
    cases after <;> exact hc

end Handle

section Runs
variable {s t : State}

def markAt (s : State) (ledger : Nat) (n : NodeId) : Option Nat := (s.replica n).lac.get ledger

def Inv (s : State) (commits : List Commit) : Prop := WriterInv (markAt s) s.writer commits

theorem Sending.fill {h : LedgerHandle} {a : Attempt} (hs : Sending h a) {i : Nat} {n : NodeId}
    {r : Except FolioError AppendAck} (hslot : a.slots[i]? = some (n, none))
    (hr : ∀ ack, r = .ok ack → ack.localLac ≤ h.lac) : Sending h (a.fill i n r) where
  ledger := hs.ledger
  id := hs.id
  lac := hs.lac
  last := hs.last
  nodes := by
    intro slot hmem
    rcases List.mem_or_eq_of_mem_set hmem with hold | rfl
    · exact hs.nodes slot hold
    · exact hs.nodes (n, none) (List.mem_of_getElem? hslot)
  reported := by
    intro ack hack
    obtain ⟨slot, hmem, hack⟩ := List.mem_filterMap.mp hack
    rcases List.mem_or_eq_of_mem_set hmem with hold | rfl
    · exact hs.reported ack (List.mem_filterMap.mpr ⟨slot, hold, hack⟩)
    · cases r with
      | error e => cases hack
      | ok ack' =>
        cases hack
        exact hr ack rfl

theorem Inv.deliver {i : Nat} {d : Delivery} {a : Attempt} {n : NodeId} (h : Inv s commits)
    (hpc : s.writer.pc = .sending a) (hslot : a.slots[i]? = some (n, none)) :
    Inv (afterDeliver crc32 s n a.entry d { s.writer with
      pc := .sending (a.fill i n (deliverAdd crc32 s n a.entry d).2) }) commits := by
  obtain ⟨hbase, hpcinv⟩ := h
  rw [hpc] at hpcinv
  obtain ⟨hids, hs⟩ := hpcinv
  have hold : ∀ v, (s.replica n).lac.get a.entry.ledgerId = some v → v ≤ s.writer.handle.lac := by
    rw [hs.ledger]
    exact hbase.marks n
  obtain ⟨hmark, hreply⟩ :=
    deliverAdd_lac crc32 s n a.entry d hold (Nat.le_of_eq hs.lac)
  refine ⟨{ hbase with marks := ?_ }, hids, hs.fill hslot hreply⟩
  intro n' v hv
  unfold markAt at hv
  rw [afterDeliver_replica] at hv
  split_ifs at hv
  · refine hmark v ?_
    rw [hs.ledger]
    exact hv
  · exact hbase.marks n' v hv

theorem Inv.writer {a : WriterAct} (h : Inv s commits) (hst : WriterStep crc32 s a t) :
    Inv t (commitOf s (.writer a) ++ commits) := by
  obtain ⟨hbase, hpcinv⟩ := h
  cases hst with
  | append data hpc =>
    rw [hpc] at hpcinv
    have hbase' : Base (markAt s)
        { s.writer with afterSeal := s.fencers.values.any isSealed } commits :=
      hbase.of_handle rfl
    change WriterInv (markAt s) (startAppend _ _ _ _) commits
    unfold startAppend
    dsimp only
    split
    · exact hbase'.reply_error hpcinv _ _
    · exact hbase'.startAttempt hpcinv 0 data
  | deliver i d a n hpc hslot => exact Inv.deliver ⟨hbase, hpcinv⟩ hpc hslot
  | decide a hpc hover =>
    rw [hpc] at hpcinv
    simp only [commitOf, hpc]
    exact hbase.decide hpcinv.1 hpcinv.2
  | listNodes d a after nodes hpc hnodes =>
    rw [hpc] at hpcinv
    exact hbase.pushFragment hpcinv nodes
  | putOk d a after store m hpc hput =>
    rw [hpc] at hpcinv
    obtain ⟨-, rfl⟩ := putLedger_accepted hput
    have hbase' : Base (markAt s) (withMetadata s.writer
        (s.store.writeLedger s.writer.handle.metadata.id s.writer.handle.metadata).2) commits :=
      ⟨hbase.firsts, hbase.bound, hbase.next, hbase.lac, hbase.confirmed, hbase.marks, hbase.ids,
        hbase.owned⟩
    refine hbase'.endChange ?_ true
    cases after <;> exact hpcinv
  | putErr d a after store e hpc hput =>
    rw [hpc] at hpcinv
    exact hbase.endChange hpcinv false

theorem inv_step {a : Act} (h : Inv s commits) (hst : Cluster.step crc32 s a = some t) :
    Inv t (commitOf s a ++ commits) := by
  cases a with
  | writer a => exact h.writer (stepWriter_cases crc32 hst)
  | fencer c a =>
    obtain ⟨hw, hframe⟩ := stepFencer_frame hst
    have hmark : markAt t = markAt s := by
      funext ledger n
      unfold markAt
      rw [(hframe n).2]
    unfold Inv
    rw [hw, hmark]
    exact h
  | register n =>
    cases hst
    exact h
  | expire n =>
    cases hst
    exact h

theorem inv_fresh {s : Tracked} (h : Fresh s) : Inv s.cluster s.commits := by
  obtain ⟨⟨st, o, ensemble, m, hcreate, hw⟩, hmarks, hcommits⟩ := h
  have hnone : ∀ n, markAt s.cluster s.cluster.writer.handle.metadata.id n = none := hmarks
  unfold Inv
  rw [hcommits]
  rw [hw] at hnone ⊢
  obtain ⟨-, rfl, -⟩ := Store.createLedger_ok hcreate
  refine ⟨⟨List.pairwise_singleton .., fun f hf => ?_, rfl, rfl, rfl, fun n v hv => ?_, rfl,
    fun c hc => by cases hc⟩, rfl⟩
  · obtain rfl := List.mem_singleton.mp hf
    exact Nat.le_refl 0
  · rw [hnone] at hv
    cases hv

theorem WriterInv.ackedIds {w : Writer}
    (h : WriterInv mark w commits) : ackedIds w <+: List.range w.handle.nextEntryId := by
  have hpc := h.pc
  have hall : WriterBookkeeping.ackedIds w = List.range w.handle.nextEntryId →
      WriterBookkeeping.ackedIds w <+: List.range w.handle.nextEntryId :=
    fun heq => heq ▸ List.prefix_refl _
  have hchange : ∀ {a after}, ChangeInv w a after →
      WriterBookkeeping.ackedIds w <+: List.range w.handle.nextEntryId := by
    intro a after hc
    cases after with
    | retry => exact hall hc
    | done =>
      rw [hc.1, hc.2, List.range_succ]
      exact List.prefix_append _ _
  cases hcase : w.pc with
  | idle =>
    rw [hcase] at hpc
    exact hall hpc
  | sending a =>
    rw [hcase] at hpc
    exact hall hpc.1
  | listing a after =>
    rw [hcase] at hpc
    exact hchange hpc
  | putting a after =>
    rw [hcase] at hpc
    exact hchange hpc

theorem WriterInv.bookkeeping {w : Writer}
    (h : WriterInv mark w commits) : Bookkeeping w commits where
  ids := h.ackedIds
  idsIdle := by
    intro hidle
    have hpc := h.pc
    rw [hidle] at hpc
    exact hpc
  next := h.next
  lac := by
    intro last hlast
    have hlac : w.handle.lac = last := by rw [h.lac, hlast]; rfl
    exact ⟨hlac, h.confirmed.trans hlac⟩
  firsts := h.firsts
  lastFirst := fun f hf => h.bound f (List.mem_of_getLast? hf)
  owners := by
    intro id hid
    have hmem : id ∈ commits.map Commit.id := by
      rw [h.ids, List.mem_reverse]
      exact h.ackedIds.subset hid
    have hnodup : (commits.map Commit.id).Nodup := by
      rw [h.ids, List.nodup_reverse]
      exact List.nodup_range
    obtain ⟨c, hc, rfl⟩ := List.mem_map.mp hmem
    exact ⟨c, hc, rfl, fun c' hc' heq => List.inj_on_of_nodup_map hnodup hc' hc heq, h.owned c hc⟩

/-- In every state a handle reaches, whatever its nodes, its store and other clients do. -/
theorem writer_bookkeeping {s : Tracked} (h : Reach (step crc32) Fresh s) :
    Bookkeeping s.cluster.writer s.commits := by
  have hinv : Inv s.cluster s.commits := by
    refine Reach.invariant (P := fun s : Tracked => Inv s.cluster s.commits)
      (fun s hs => inv_fresh hs) (fun s a t hs hst => ?_) h
    obtain ⟨u, hu, rfl⟩ := Option.map_eq_some_iff.mp hst
    exact inv_step hs hu
  exact WriterInv.bookkeeping hinv

theorem oneNode_fresh (nodes : Table NodeId NodeStatus) : Fresh ⟨newCluster oneNode nodes, []⟩ where
  created := ⟨⟨0, .empty, nodes⟩, ⟨1, 1, 1⟩, ["n0"], oneNode, rfl, rfl⟩
  marks := fun _ => rfl
  commits := rfl

/-- The only node is down and `put_ledger` fails: the handle goes on with a second fragment
that starts where the first one does. -/
theorem append_after_failed_change :
    ∃ s, Reach (step Crc32.crc32) Fresh s ∧
      s.cluster.writer.handle.metadata.fragments.map Fragment.firstEntryId = [0, 0] ∧
      ackedIds s.cluster.writer = [0, 1] ∧ Bookkeeping s.cluster.writer s.commits := by
  obtain ⟨s, hreach, hfirsts, hids⟩ := reach_check (step Crc32.crc32)
    (oneNode_fresh (Table.empty.put "n1" .ReadWrite))
    (fun s => s.cluster.writer.handle.metadata.fragments.map Fragment.firstEntryId = [0, 0] ∧
      ackedIds s.cluster.writer = [0, 1])
    (appendActs [1] [unreachable] ++
      [.writer (.listNodes .delivered), .writer (.putLedger unreachable)] ++
      appendActs [2] [.delivered] ++ appendActs [3] [.delivered])
    (by decide +kernel)
  exact ⟨s, hreach, hfirsts, hids, writer_bookkeeping hreach⟩

end Runs

end Folio.WriterBookkeeping
