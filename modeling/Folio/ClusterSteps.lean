import Folio.Cluster

/-! What the steps of the cluster can do, once for all invariants. -/
namespace Folio.Cluster
open KeyedTable Protocol Metadata LedgerClient

section Inversion
variable (crc32 : Bytes → UInt32) {d : Delivery}

inductive WriterStep (s : State) : WriterAct → State → Prop
  | append (data : Bytes) : s.writer.pc = .idle →
      WriterStep s (.append data)
        { s with writer := startAppend crc32 s.writer data (s.fencers.values.any isSealed) }
  | deliver (i : Nat) (d : Delivery) (a : Attempt) (n : NodeId) : s.writer.pc = .sending a →
      a.slots[i]? = some (n, none) →
      WriterStep s (.deliver i d)
        (afterDeliver crc32 s n a.entry d { s.writer with
          pc := .sending (a.fill i n (deliverAdd crc32 s n a.entry d).2) })
  | decide (a : Attempt) : s.writer.pc = .sending a → a.isOver →
      WriterStep s .decide { s with writer := decideAttempt s.writer a }
  | listNodes (d : Delivery) (a : Attempt) (after : AfterChange)
      (nodes : Except FolioError (List NodeInfo)) : s.writer.pc = .listing a after →
      (∀ ns, nodes = .ok ns → ns = s.store.listNodes) →
      WriterStep s (.listNodes d) { s with writer := pushFragment crc32 s.writer a after nodes }
  | putOk (d : Delivery) (a : Attempt) (after : AfterChange) (store : Store)
      (m : LedgerMetadata) : s.writer.pc = .putting a after →
      d.send (s.store.putLedger s.writer.handle.metadata) s.store = (store, .ok m) →
      WriterStep s (.putLedger d)
        { s with store, writer := endChange crc32 (withMetadata s.writer m) a after true }
  | putErr (d : Delivery) (a : Attempt) (after : AfterChange) (store : Store)
      (e : FolioError) : s.writer.pc = .putting a after →
      d.send (s.store.putLedger s.writer.handle.metadata) s.store = (store, .error e) →
      WriterStep s (.putLedger d)
        { s with store, writer := endChange crc32 s.writer a after false }

theorem stepWriter_cases {s t : State} {a : WriterAct} (h : stepWriter crc32 s a = some t) :
    WriterStep crc32 s a t := by
  unfold stepWriter at h
  split at h
  · cases h
    exact .append _ ‹_›
  · split at h <;> cases h
    exact .deliver _ _ _ _ ‹_› ‹_›
  · split at h <;> cases h
    exact .decide _ ‹_› ‹_›
  · rename_i d a after hpc
    cases h
    refine .listNodes d a after _ hpc fun ns hns => ?_
    cases d <;> cases hns
    rfl
  · rename_i d a after hpc
    dsimp only at h
    split at h <;> cases h
    · exact .putOk d a after _ _ hpc (Prod.ext rfl ‹_›)
    · exact .putErr d a after _ _ hpc (Prod.ext rfl ‹_›)
  · cases h

theorem deliverAdd_cases (s : State) (n : NodeId) (e : Entry) (d : Delivery) :
    ((deliverAdd crc32 s n e d).1 = s.replica n ∧
      ∀ ack, (deliverAdd crc32 s n e d).2 = .ok ack →
        e.ledgerId ∉ (s.replica n).fences ∧ ∃ old, (s.replica n).entries.get e.key = some old) ∨
    (e.ledgerId ∉ (s.replica n).fences ∧ (s.replica n).entries.get e.key = none ∧
      (deliverAdd crc32 s n e d).1.entries = (s.replica n).entries.put e.key e ∧
      (deliverAdd crc32 s n e d).1.fences = (s.replica n).fences) := by
  unfold deliverAdd
  cases d with
  | lostRequest err => exact .inl ⟨rfl, fun ack h => by cases h⟩
  | delivered =>
    simp only [Delivery.send, Replica.addEntry]
    split_ifs with hdigest hfence
    · exact .inl ⟨rfl, fun ack h => by cases h⟩
    · exact .inl ⟨rfl, fun ack h => by cases h⟩
    · split
      · exact .inl ⟨rfl, fun _ _ => ⟨hfence, _, ‹_›⟩⟩
      · exact .inr ⟨hfence, ‹_›, rfl, rfl⟩
  | lostReply err =>
    simp only [Delivery.send, Replica.addEntry]
    split_ifs with hdigest hfence
    · exact .inl ⟨rfl, fun ack h => by cases h⟩
    · exact .inl ⟨rfl, fun ack h => by cases h⟩
    · split
      · exact .inl ⟨rfl, fun ack h => by cases h⟩
      · exact .inr ⟨hfence, ‹_›, rfl, rfl⟩

theorem deliverAdd_lac (s : State) (n : NodeId) (e : Entry) (d : Delivery) {bound : Nat}
    (hold : ∀ v, (s.replica n).lac.get e.ledgerId = some v → v ≤ bound) (he : e.lac ≤ bound) :
    (∀ v, (deliverAdd crc32 s n e d).1.lac.get e.ledgerId = some v → v ≤ bound) ∧
      ∀ ack, (deliverAdd crc32 s n e d).2 = .ok ack → ack.localLac ≤ bound := by
  have hget : ((s.replica n).lac.get e.ledgerId).getD 0 ≤ bound := by
    cases hv : (s.replica n).lac.get e.ledgerId with
    | none => exact Nat.zero_le _
    | some v => exact hold v hv
  have hmax : (((s.replica n).lac.get e.ledgerId).map (max e.lac)).getD e.lac ≤ bound := by
    cases hv : (s.replica n).lac.get e.ledgerId with
    | none => exact he
    | some v => exact Nat.max_le.mpr ⟨he, hold v hv⟩
  have hadd : (∀ v, ((s.replica n).addEntry crc32 n e).1.lac.get e.ledgerId = some v →
        v ≤ bound) ∧
      ∀ ack, ((s.replica n).addEntry crc32 n e).2 = .ok ack → ack.localLac ≤ bound := by
    unfold Replica.addEntry
    split_ifs
    · exact ⟨hold, fun ack h => by cases h⟩
    · exact ⟨hold, fun ack h => by cases h⟩
    · split
      · refine ⟨hold, fun ack h => ?_⟩
        cases h
        exact hget
      · refine ⟨fun v hv => ?_, fun ack h => ?_⟩
        · dsimp only at hv
          rw [Table.get_put_self] at hv
          cases hv
          exact hmax
        · cases h
          exact hmax
  cases d with
  | lostRequest err => exact ⟨hold, fun ack h => by cases h⟩
  | delivered => exact hadd
  | lostReply err => exact ⟨hadd.1, fun ack h => by cases h⟩

theorem replica_put (s : State) (n n' : NodeId) (r : Replica) (w : Writer)
    (fencers : Table Nat Fencer) (st : Store) :
    State.replica ⟨st, s.replicas.put n r, w, fencers⟩ n' = if n' = n then r else s.replica n' := by
  unfold State.replica
  dsimp only
  rw [Table.get_put]
  split_ifs <;> rfl

theorem afterDeliver_replica (s : State) (n n' : NodeId) (e : Entry) (d : Delivery)
    (w : Writer) :
    (afterDeliver crc32 s n e d w).replica n' =
      if n' = n then (deliverAdd crc32 s n e d).1 else s.replica n' :=
  replica_put s n n' _ w s.fencers s.store

theorem putLedger_send (d : Delivery) (st : Store) (m : LedgerMetadata) :
    ((d.send (st.putLedger m) st).1 = st ∧ ∀ m', (d.send (st.putLedger m) st).2 ≠ .ok m') ∨
    ∃ cur, st.ledgers.get m.id = some cur ∧ cur.version = m.version ∧
      (d.send (st.putLedger m) st).1 = (st.writeLedger m.id m).1 ∧
      ∀ m', (d.send (st.putLedger m) st).2 = .ok m' → m' = (st.writeLedger m.id m).2 := by
  rcases st.putLedger_cases m with ⟨cur, hget, hv, hput⟩ | ⟨e, hput⟩
  · rw [hput]
    cases d with
    | lostRequest e => exact .inl ⟨rfl, nofun⟩
    | delivered => exact .inr ⟨cur, hget, hv, rfl, fun _ h => (Except.ok.inj h).symm⟩
    | lostReply e => exact .inr ⟨cur, hget, hv, rfl, nofun⟩
  · rw [hput]
    cases d <;> exact .inl ⟨rfl, nofun⟩

theorem putLedger_accepted {st store : Store} {m w : LedgerMetadata}
    (hput : d.send (st.putLedger w) st = (store, .ok m)) :
    store = (st.writeLedger w.id w).1 ∧ m = (st.writeLedger w.id w).2 := by
  rcases putLedger_send d st w with ⟨-, hno⟩ | ⟨-, -, -, hst, hm⟩
  · exact absurd (congrArg Prod.snd hput) (hno m)
  · exact ⟨(congrArg Prod.fst hput).symm.trans hst, hm m (congrArg Prod.snd hput)⟩

theorem transitionState_send (d : Delivery) (st : Store) (ledger : Nat)
    (expected next : LedgerState) :
    ((d.send (st.transitionState ledger expected next) st).1 = st ∧
      ∀ m, (d.send (st.transitionState ledger expected next) st).2 ≠ .ok m) ∨
    ∃ cur, st.ledgers.get ledger = some cur ∧
      (d.send (st.transitionState ledger expected next) st).1 =
        (st.writeLedger ledger { cur with state := next }).1 ∧
      ∀ m, (d.send (st.transitionState ledger expected next) st).2 = .ok m →
        m = (st.writeLedger ledger { cur with state := next }).2 := by
  rcases st.transitionState_cases ledger expected next with ⟨cur, hget, htr⟩ | ⟨e, htr⟩
  · rw [htr]
    cases d with
    | lostRequest e => exact .inl ⟨rfl, nofun⟩
    | delivered => exact .inr ⟨cur, hget, rfl, fun _ h => (Except.ok.inj h).symm⟩
    | lostReply e => exact .inr ⟨cur, hget, rfl, nofun⟩
  · rw [htr]
    cases d <;> exact .inl ⟨rfl, nofun⟩

theorem deliverFence_frame (s : State) (n : NodeId) (d : Delivery) :
    (deliverFence s n d).1.entries = (s.replica n).entries ∧
      (deliverFence s n d).1.lac = (s.replica n).lac := by
  cases d <;> exact ⟨rfl, rfl⟩

theorem stepFencer_frame {s t : State} {c : Nat} {a : FencerAct} (h : stepFencer s c a = some t) :
    t.writer = s.writer ∧ ∀ n, (t.replica n).entries = (s.replica n).entries ∧
      (t.replica n).lac = (s.replica n).lac := by
  unfold stepFencer at h
  split at h
  all_goals cases h
  case h_4 m n todo lacs acked hget =>
    refine ⟨rfl, fun n' => ?_⟩
    rw [replica_put]
    split_ifs with hn
    · rw [hn]
      exact deliverFence_frame s n _
    · exact ⟨rfl, rfl⟩
  all_goals exact ⟨rfl, fun _ => ⟨rfl, rfl⟩⟩

theorem deliver_fencedIn {s : State} {n : NodeId} {e : Entry} (n' : NodeId) (h : fencedIn s n') :
    fencedIn { s with replicas := s.replicas.put n (deliverAdd crc32 s n e d).1 } n' := by
  unfold fencedIn at h ⊢
  rw [replica_put]
  split_ifs with hn
  · subst hn
    rcases deliverAdd_cases crc32 s n' e d with ⟨hsame, -⟩ | ⟨-, -, -, hsame⟩
    · rw [hsame]
      exact h
    · rw [hsame]
      exact h
  · exact h

theorem deliverFence_fencedIn {s : State} {n : NodeId} (n' : NodeId) (h : fencedIn s n') :
    fencedIn { s with replicas := s.replicas.put n (deliverFence s n d).1 } n' := by
  unfold fencedIn at h ⊢
  rw [replica_put]
  split_ifs with heq
  · subst heq
    cases d with
    | lostRequest e => exact h
    | delivered => exact List.mem_cons_of_mem _ h
    | lostReply e => exact List.mem_cons_of_mem _ h
  · exact h

end Inversion

section LocalSteps

structure SameTerm (w w' : Writer) : Prop where
  id : w'.handle.metadata.id = w.handle.metadata.id
  version : w'.handle.metadata.version = w.handle.metadata.version
  afterSeal : w'.afterSeal = w.afterSeal
  state : w'.handle.metadata.state = w.handle.metadata.state

theorem startAttempt_sameTerm (crc32 : Bytes → UInt32) (w : Writer) (number : Nat)
    (data : Bytes) : SameTerm w (startAttempt crc32 w number data) := by
  unfold startAttempt
  split <;> exact ⟨rfl, rfl, rfl, rfl⟩

theorem decideAttempt_sameTerm (w : Writer) (a : Attempt) : SameTerm w (decideAttempt w a) := by
  unfold decideAttempt
  repeat' split
  all_goals exact ⟨rfl, rfl, rfl, rfl⟩

theorem endChange_sameTerm (crc32 : Bytes → UInt32) (w : Writer) (a : Attempt)
    (after : AfterChange) (ok : Bool) : SameTerm w (endChange crc32 w a after ok) := by
  unfold endChange
  split
  · exact ⟨rfl, rfl, rfl, rfl⟩
  · exact startAttempt_sameTerm crc32 w _ _
  · exact ⟨rfl, rfl, rfl, rfl⟩

theorem pushFragment_sameTerm (crc32 : Bytes → UInt32) (w : Writer) (a : Attempt)
    (after : AfterChange) (nodes : Except FolioError (List NodeInfo)) :
    SameTerm w (pushFragment crc32 w a after nodes) := by
  unfold pushFragment
  split
  · exact endChange_sameTerm crc32 w a after false
  · exact ⟨rfl, rfl, rfl, rfl⟩

end LocalSteps

end Folio.Cluster
