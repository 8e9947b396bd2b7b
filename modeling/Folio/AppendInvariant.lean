import Folio.ClusterSteps

/-! What an acknowledged append has left on the nodes, for the whole life of its handle. -/
namespace Folio.AppendIntegrity
open Protocol Metadata LedgerClient Cluster

def dataAt (replica : NodeId → Replica) (ledger : Nat) (n : NodeId) (id : Nat) : Option Bytes :=
  ((replica n).entries.get (ledger, id)).map Entry.data

def holders (held : Nat → NodeId → Nat → Option Bytes) (ledger id : Nat) (data : Bytes)
    (f : Fragment) : List NodeId :=
  f.ensemble.filter fun n => decide (held ledger n id = some data)

/-- A quorum of the owning fragment holds the data, none of its nodes holds other data, and
no read returns other data. -/
def Intact (s : State) (id : Nat) (data : Bytes) : Prop :=
  (∃ f, LedgerHandle.owner s.writer.handle.metadata.fragments id = some f ∧ f.ensemble.Nodup ∧
    f.ackQuorum ≤ (holders (dataAt s.replica) s.ledger id data f).length ∧
    ∀ n ∈ f.ensemble, ∀ d, dataAt s.replica s.ledger n id = some d → d = data) ∧
  ∀ n d, s.writer.handle.read s.replica id n = .ok d → d = data

/-- No node holds other data under the id an append is about to use. -/
def freshId (s : State) (a : Act) : Prop :=
  match a with
  | .writer (.append data) =>
    ∀ r ∈ s.replicas.values, ∀ e ∈ r.entries.get (s.ledger, s.writer.handle.nextEntryId),
      e.data = data
  | _ => True

instance (s : State) (a : Act) : Decidable (freshId s a) := by
  unfold freshId
  split <;> infer_instance

/-- A handle fresh from `create_ledger` on distinct nodes; nothing has been called yet, and
the nodes may hold anything. -/
structure Created (s : State) : Prop where
  created : ∃ st o ensemble m, Store.createLedger st o ensemble = (s.store, .ok m) ∧
    ensemble.Nodup ∧ s.writer = ⟨.new m, .idle, false, []⟩
  fencers : s.fencers = .empty

section Invariant
variable (held : Nat → NodeId → Nat → Option Bytes)

structure Committed (h : LedgerHandle) (id : Nat) (data : Bytes) : Prop where
  past : id < h.nextEntryId
  same : ∀ n d, held h.metadata.id n id = some d → d = data
  quorum : ∃ f, LedgerHandle.owner h.metadata.fragments id = some f ∧ f.ensemble.Nodup ∧
    f.ackQuorum ≤ (holders held h.metadata.id id data f).length

/-- The data of the append under way is the only one under its id. -/
structure Current (h : LedgerHandle) (data : Bytes) : Prop where
  same : ∀ n d, held h.metadata.id n h.nextEntryId = some d → d = data

structure Sending (h : LedgerHandle) (a : Attempt) : Prop where
  current : Current held h a.entry.data
  key : a.entry.key = (h.metadata.id, h.nextEntryId)
  last : h.metadata.fragments.getLast? = some a.fragment
  nodes : a.slots.map Prod.fst = a.fragment.ensemble.take a.fragment.writeQuorum
  acked : ∀ n ack, (n, some (.ok ack)) ∈ a.slots →
    held h.metadata.id n h.nextEntryId = some a.entry.data

def PcInv (h : LedgerHandle) : WriterPc → Prop
  | .idle => True
  | .sending a => Sending held h a
  | .listing a .retry | .putting a .retry => Current held h a.entry.data
  | .listing a .done | .putting a .done => Committed held h a.entry.entryId a.entry.data

structure Base (w : Writer) : Prop where
  fragments : ∀ f ∈ w.handle.metadata.fragments,
    f.firstEntryId ≤ w.handle.nextEntryId ∧ f.ensemble.Nodup
  replies : ∀ r ∈ w.replies, ∀ id, r.result = .ok id → Committed held w.handle id r.data

structure WriterInv (w : Writer) : Prop extends Base held w where
  pc : PcInv held w.handle w.pc

end Invariant

section Handle
variable {crc32 : Bytes → UInt32} {held : Nat → NodeId → Nat → Option Bytes} {w : Writer}
  {a : Attempt} {data : Bytes} {h : LedgerHandle} {after : AfterChange}

theorem Base.reply_error (h : Base held w) (data : Bytes) (e : FolioError) :
    WriterInv held (reply w data (.error e)) where
  fragments := h.fragments
  replies := by
    intro r hr id hid
    rcases List.mem_cons.mp hr with rfl | hr
    · cases hid
    · exact h.replies r hr id hid
  pc := trivial

theorem Base.reply_ok (h : Base held w) {id : Nat}
    (hc : Committed held w.handle id data) : WriterInv held (reply w data (.ok id)) where
  fragments := h.fragments
  replies := by
    intro r hr id' hid
    rcases List.mem_cons.mp hr with rfl | hr
    · cases hid
      exact hc
    · exact h.replies r hr id' hid
  pc := trivial

theorem Base.startAttempt (h : Base held w) (hc : Current held w.handle data) (number : Nat) :
    WriterInv held (startAttempt crc32 w number data) := by
  unfold Cluster.startAttempt
  split
  · exact h.reply_error _ _
  · rename_i fragment hlast
    refine ⟨⟨h.fragments, h.replies⟩, ⟨hc, rfl, hlast, ?_, fun n ack hmem => ?_⟩⟩
    · simp [Function.comp_def]
    · obtain ⟨n', -, heq⟩ := List.mem_map.mp hmem
      cases heq

theorem acks_le_count (slots : List (NodeId × Option (Except FolioError AppendAck)))
    (p : NodeId → Bool) (h : ∀ n ack, (n, some (.ok ack)) ∈ slots → p n = true) :
    (slots.filterMap fun s => s.2.bind Except.toOption).length ≤
      ((slots.map Prod.fst).filter p).length := by
  induction slots with
  | nil => exact Nat.le_refl 0
  | cons slot slots ih =>
    have hrest := ih fun n ack hmem => h n ack (List.mem_cons_of_mem _ hmem)
    have hmono : ((slots.map Prod.fst).filter p).length ≤
        (((slot :: slots).map Prod.fst).filter p).length :=
      ((List.sublist_cons_self _ _).filter p).length_le
    obtain ⟨n, outcome⟩ := slot
    match outcome with
    | none | some (.error _) => exact Nat.le_trans hrest hmono
    | some (.ok ack) =>
      have hp := h n ack List.mem_cons_self
      change (ack :: slots.filterMap fun s => s.2.bind Except.toOption).length ≤ _
      simpa [hp] using hrest

theorem Sending.count (hs : Sending held h a) :
    a.acks.length ≤
      (holders held h.metadata.id h.nextEntryId a.entry.data a.fragment).length := by
  have hslots := acks_le_count a.slots
    (fun n => decide (held h.metadata.id n h.nextEntryId = some a.entry.data))
    fun n ack hmem => decide_eq_true (hs.acked n ack hmem)
  rw [hs.nodes] at hslots
  exact Nat.le_trans hslots ((List.take_sublist _ _).filter _).length_le

theorem Committed.commit {id : Nat} (hc : Committed held h id data) (acks : List AppendAck)
    (entryId : Nat) : Committed held (h.commit acks entryId) id data :=
  ⟨Nat.lt_succ_of_lt hc.past, hc.same, hc.quorum⟩

theorem Sending.committed (hs : Sending held h a)
    (hfrags : ∀ f ∈ h.metadata.fragments, f.firstEntryId ≤ h.nextEntryId ∧ f.ensemble.Nodup)
    (hq : a.fragment.ackQuorum ≤ a.acks.length) :
    Committed held (h.commit a.acks a.entry.entryId) a.entry.entryId a.entry.data := by
  have hid : a.entry.entryId = h.nextEntryId := congrArg Prod.snd hs.key
  obtain ⟨hfirst, hnodup⟩ := hfrags a.fragment (List.mem_of_getLast? hs.last)
  refine ⟨?_, ?_, a.fragment, ?_, hnodup, ?_⟩
  · rw [hid]
    exact Nat.lt_succ_self _
  · rw [hid]
    exact hs.current.same
  · exact owner_of_last hs.last (by rw [hid]; exact hfirst)
  · rw [hid]
    exact Nat.le_trans hq hs.count

theorem Base.commit (h : Base held w) (acks : List AppendAck) (entryId : Nat) :
    Base held { w with handle := w.handle.commit acks entryId } where
  fragments f hf := ⟨Nat.le_succ_of_le (h.fragments f hf).1, (h.fragments f hf).2⟩
  replies r hr id hid := (h.replies r hr id hid).commit acks entryId

theorem Base.decide (h : Base held w) (hs : Sending held w.handle a) :
    WriterInv held (decideAttempt w a) := by
  unfold decideAttempt
  split
  · exact h.reply_error _ _
  split
  · rename_i hq
    have hbase := h.commit a.acks a.entry.entryId
    have hc := hs.committed h.fragments hq
    dsimp only
    split
    · exact ⟨⟨hbase.fragments, hbase.replies⟩, hc⟩
    · exact hbase.reply_ok hc
  split
  · exact ⟨⟨h.fragments, h.replies⟩, hs.current⟩
  · exact h.reply_error _ _

theorem Base.withMetadata {m : LedgerMetadata} (h : Base held w)
    (hid : m.id = w.handle.metadata.id)
    (hfrags : ∀ f ∈ m.fragments, f.firstEntryId ≤ w.handle.nextEntryId ∧ f.ensemble.Nodup)
    (howner : ∀ id < w.handle.nextEntryId,
      LedgerHandle.owner m.fragments id = LedgerHandle.owner w.handle.metadata.fragments id) :
    Base held (Cluster.withMetadata w m) ∧
      ∀ id data, Committed held w.handle id data →
        Committed held (Cluster.withMetadata w m).handle id data := by
  have hkeep : ∀ id data, Committed held w.handle id data →
      Committed held (Cluster.withMetadata w m).handle id data := by
    rintro id data ⟨hpast, hsame, hquorum⟩
    refine ⟨hpast, ?_, ?_⟩
    · exact hid.symm ▸ hsame
    · change ∃ f, LedgerHandle.owner m.fragments id = some f ∧ f.ensemble.Nodup ∧
        f.ackQuorum ≤ (holders held m.id id data f).length
      rw [hid, howner id hpast]
      exact hquorum
  exact ⟨⟨hfrags, fun r hr id hres => hkeep id r.data (h.replies r hr id hres)⟩, hkeep⟩

def ChangeInv (held : Nat → NodeId → Nat → Option Bytes) (h : LedgerHandle) (a : Attempt) :
    AfterChange → Prop
  | .retry => Current held h a.entry.data
  | .done => Committed held h a.entry.entryId a.entry.data

theorem Base.endChange (h : Base held w) (hc : ChangeInv held w.handle a after) (ok : Bool) :
    WriterInv held (endChange crc32 w a after ok) := by
  unfold Cluster.endChange
  split
  · exact h.reply_ok hc
  · exact h.startAttempt hc _
  · exact h.reply_error _ _

theorem Base.pushFragment (h : Base held w)
    (hc : ChangeInv held w.handle a after) {nodes : Except FolioError (List NodeInfo)}
    (hnodes : ∀ ns, nodes = .ok ns → (ns.map NodeInfo.nodeId).Nodup) :
    WriterInv held (pushFragment crc32 w a after nodes) := by
  unfold Cluster.pushFragment
  split
  · exact h.endChange hc false
  · rename_i f hf
    obtain ⟨ns, hns, hnew⟩ : ∃ ns, nodes = .ok ns ∧
        newFragment w.handle.metadata a.failed ns w.handle.nextEntryId = .ok f := by
      cases nodes with
      | error e => cases hf
      | ok ns => exact ⟨ns, rfl, hf⟩
    obtain ⟨hfirst, current, hcur, -, hnodup⟩ := newFragment_ok hnew
    have hmember := h.fragments current (List.mem_of_getLast? hcur)
    have hfrags : ∀ g ∈ w.handle.metadata.fragments ++ [f],
        g.firstEntryId ≤ w.handle.nextEntryId ∧ g.ensemble.Nodup := by
      intro g hg
      rcases List.mem_append.mp hg with hg | hg
      · exact h.fragments g hg
      · obtain rfl := List.mem_singleton.mp hg
        exact ⟨Nat.le_of_eq hfirst, hnodup (hnodes ns hns) hmember.2⟩
    -- the new fragment starts at the next id, past everything committed
    have howner : ∀ id < w.handle.nextEntryId,
        LedgerHandle.owner (w.handle.metadata.fragments ++ [f]) id =
          LedgerHandle.owner w.handle.metadata.fragments id :=
      fun id hid => owner_append_of_lt (by rw [hfirst]; exact hid)
    obtain ⟨hbase, hkeep⟩ := h.withMetadata (m := { w.handle.metadata with
      fragments := w.handle.metadata.fragments ++ [f] }) rfl hfrags howner
    refine ⟨⟨hbase.fragments, hbase.replies⟩, ?_⟩
    cases after with
    | retry => exact ⟨hc.same⟩
    | done => exact hkeep _ _ hc

end Handle

section Nodes
variable {crc32 : Bytes → UInt32} {held held' : Nat → NodeId → Nat → Option Bytes} {w : Writer}

structure SamePast (held held' : Nat → NodeId → Nat → Option Bytes) (h : LedgerHandle) : Prop where
  past : ∀ n id, id < h.nextEntryId →
    held' h.metadata.id n id = held h.metadata.id n id

theorem Committed.samePast {h : LedgerHandle} {id : Nat} {data : Bytes}
    (hc : Committed held h id data) (hs : SamePast held held' h) :
    Committed held' h id data := by
  have hsame : ∀ n, held' h.metadata.id n id = held h.metadata.id n id :=
    fun n => hs.past n id hc.past
  obtain ⟨hpast, heq, f, hf⟩ := hc
  refine ⟨hpast, fun n d hd => heq n d (by rw [← hsame, hd]), f, ?_⟩
  unfold holders
  simp only [hsame]
  exact hf

theorem Base.samePast (h : Base held w) (hs : SamePast held held' w.handle) :
    Base held' w :=
  ⟨h.fragments, fun r hr id hid => (h.replies r hr id hid).samePast hs⟩

end Nodes

end Folio.AppendIntegrity
