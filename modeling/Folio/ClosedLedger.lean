import Folio.ClusterSteps
import Folio.Crc32
import Folio.Recovery

/-! Any number of `seal_ledger`, `fence_and_seal`, `restore_replication` and
`handle_node_failure` calls and of writers on one metadata store, interleaved at every
request. -/
namespace Folio.ClosedLedger
open KeyedTable Protocol Metadata RemoteProgram TransitionSystem Recovery
open Cluster (Delivery Writer WriterAct WriterStep stepWriter_cases)
variable {crc32 : Bytes → UInt32} {w : World}

inductive Operation where
  | sealLedger (ledgerId finalLac : Nat)
  | fenceAndSeal (ledgerId : Nat)
  | restoreReplication (ledgerId : Nat) (failed : NodeId) (fromEntryId : Nat)
  | handleNodeFailure (failed : NodeId)
  deriving DecidableEq

def Operation.body : Operation → Remote Unit
  | .sealLedger ledgerId finalLac => Recovery.sealLedger ledgerId finalLac
  | .fenceAndSeal ledgerId => do let _ ← Recovery.fenceAndSeal ledgerId
  | .restoreReplication ledgerId failed fromEntryId => do
    let metadata ← getLedger ledgerId
    Recovery.restoreReplication metadata failed fromEntryId
  | .handleNodeFailure failed => do let _ ← Recovery.handleNodeFailure failed

structure Thread where
  operation : Operation
  rest : Remote Unit

structure State where
  world : World
  threads : Table Nat Thread
  writers : Table Nat Writer

def focus (w : World) (writer : Writer) : Cluster.State := ⟨w.store, w.replicas, writer, .empty⟩

inductive Act where
  | invoke (c : Nat) (o : Operation)
  | request (c : Nat) (d : Delivery)
  | openLedger (c ledgerId : Nat)
  | writer (c : Nat) (a : WriterAct)
  | register (n : NodeInfo)
  | expire (n : NodeId)
  | resolver (nodes : List NodeId)

def step (crc32 : Bytes → UInt32) (s : State) : Act → Option State
  | .invoke c o =>
    match s.threads.get c with
    | none => some { s with threads := s.threads.put c ⟨o, o.body⟩ }
    | some _ => none
  | .request c d => do
    let thread ← s.threads.get c
    let (world, rest) ← thread.rest.advance (answer crc32) d s.world
    some { s with world, threads := s.threads.put c { thread with rest } }
  | .openLedger c ledgerId =>
    match s.writers.get c, s.world.store.getLedger ledgerId with
    | none, .ok m => some { s with writers := s.writers.put c ⟨.new m, .idle, false, []⟩ }
    | _, _ => none
  | .writer c a => do
    let writer ← s.writers.get c
    let t ← Cluster.stepWriter crc32 (focus s.world writer) a
    some { s with
      world := { s.world with store := t.store, replicas := t.replicas }
      writers := s.writers.put c t.writer }
  | .register n => some { s with world := { s.world with store := s.world.store.registerNode n } }
  | .expire n => some { s with world := { s.world with store := s.world.store.expireNode n } }
  | .resolver nodes => some { s with world := { s.world with resolver := nodes } }

def row (w : World) (id : Nat) : Option LedgerMetadata := w.store.ledgers.get id

/-- The `get_ledger` after a failed transition does not find the ledger closed. -/
def allowed (o : Operation) (w : World) (req : Op) : Prop :=
  match o, req with
  | .fenceAndSeal _, .getLedger id => ∀ m ∈ row w id, m.state ≠ .Closed
  | _, _ => True

instance (o : Operation) (w : World) (req : Op) : Decidable (allowed o w req) := by
  unfold allowed
  split <;> infer_instance

def fallbackOpen (s : State) (a : Act) : Prop :=
  match a with
  | .request c _ =>
    match s.threads.get c with
    | some ⟨o, .call req _⟩ => allowed o s.world req
    | _ => True
  | _ => True

instance (s : State) (a : Act) : Decidable (fallbackOpen s a) := by
  unfold fallbackOpen
  split
  · split <;> infer_instance
  · infer_instance

structure Started (s : State) : Prop where
  keyed : s.world.store.WellKeyed
  threads : s.threads = .empty
  writers : s.writers = .empty

section Rows
variable {w w' w'' : World} {m cur cur' : LedgerMetadata}

structure Later (cur cur' : LedgerMetadata) : Prop where
  version : cur.version ≤ cur'.version
  same : cur.version = cur'.version → cur' = cur
  closed : cur.state = .Closed → cur'.state = .Closed ∧
    cur'.lastEntryId = cur.lastEntryId ∧ cur'.lastAddConfirmed = cur.lastAddConfirmed

theorem Later.refl (cur : LedgerMetadata) : Later cur cur :=
  ⟨Nat.le_refl _, fun _ => rfl, fun h => ⟨h, rfl, rfl⟩⟩

theorem Later.trans {a b c : LedgerMetadata} (h : Later a b) (h' : Later b c) : Later a c where
  version := Nat.le_trans h.version h'.version
  same := by
    intro heq
    have hab : a.version = b.version :=
      Nat.le_antisymm h.version (heq ▸ h'.version)
    rw [h'.same (hab.symm.trans heq), h.same hab]
  closed := by
    intro ha
    obtain ⟨hb, hlast, hlac⟩ := h.closed ha
    obtain ⟨hc, hlast', hlac'⟩ := h'.closed hb
    exact ⟨hc, hlast'.trans hlast, hlac'.trans hlac⟩

structure Evolves (w w' : World) : Prop where
  rows : ∀ id cur, row w id = some cur → ∃ cur', row w' id = some cur' ∧ Later cur cur'
  keyed : w.store.WellKeyed → w'.store.WellKeyed

theorem evolves_of_ledgers (h : w'.store.ledgers = w.store.ledgers) : Evolves w w' := by
  refine ⟨fun id cur hcur => ⟨cur, ?_, .refl cur⟩, fun hk id m hm => ?_⟩
  · unfold row
    rw [h]
    exact hcur
  · rw [h] at hm
    exact hk id m hm

theorem Evolves.refl (w : World) : Evolves w w := evolves_of_ledgers rfl

theorem Evolves.trans (h : Evolves w w') (h' : Evolves w' w'') : Evolves w w'' := by
  refine ⟨fun id cur hcur => ?_, h'.keyed ∘ h.keyed⟩
  obtain ⟨cur', hcur', hlater⟩ := h.rows id cur hcur
  obtain ⟨cur'', hcur'', hlater'⟩ := h'.rows id cur' hcur'
  exact ⟨cur'', hcur'', hlater.trans hlater'⟩

theorem evolves_write {key : Nat} (hcur : row w key = some cur)
    (hid : w.store.WellKeyed → m.id = key)
    (hv : m.version = cur.version) (hclosed : cur.state = .Closed → m.state = .Closed ∧
      m.lastEntryId = cur.lastEntryId ∧ m.lastAddConfirmed = cur.lastAddConfirmed)
    (h : w'.store = (w.store.writeLedger key m).1) : Evolves w w' := by
  have hrow : ∀ id, row w' id =
      if id = key then some { m with version := m.version + 1 } else row w id := by
    intro id
    unfold row
    rw [h]
    exact Table.get_put _ _ _ _
  refine ⟨fun id old hold => ?_, fun hk => ?_⟩
  · rw [hrow]
    split_ifs with heq
    · rw [heq, hcur] at hold
      cases hold
      refine ⟨_, rfl, ?_, fun hsame => ?_, hclosed⟩
      · dsimp only
        omega
      · dsimp only at hsame
        omega
    · exact ⟨old, hold, .refl old⟩
  · rw [h]
    exact hk.writeLedger (hid hk)

structure Seen (m : LedgerMetadata) (w : World) : Prop where
  row : ∃ cur, row w m.id = some cur ∧ Later m cur

theorem Seen.evolves (h : Seen m w) (he : Evolves w w') : Seen m w' := by
  obtain ⟨cur, hcur, hlater⟩ := h.row
  obtain ⟨cur', hcur', hlater'⟩ := he.rows m.id cur hcur
  exact ⟨cur', hcur', hlater.trans hlater'⟩

theorem seen_of_row {id : Nat} (hk : w.store.WellKeyed) (h : row w id = some m) : Seen m w :=
  ⟨m, by rw [hk id m h]; exact h, .refl m⟩

end Rows

section Requests
variable {d : Delivery}

theorem answer_evolves {o : Op} (h : Evolves w (perform crc32 w o).1) :
    Evolves w (answer crc32 d w o).1 := by
  unfold answer
  cases d with
  | delivered => exact h
  | lostRequest e => exact .refl w
  | lostReply e => exact h

theorem put_evolves {m m' : LedgerMetadata} (hseen : Seen m w) (hid : m'.id = m.id)
    (hv : m'.version = m.version) (hclosed : m.state = .Closed → m'.state = .Closed ∧
      m'.lastEntryId = m.lastEntryId ∧ m'.lastAddConfirmed = m.lastAddConfirmed) :
    Evolves w (perform crc32 w (.putLedger m')).1 := by
  rcases w.store.putLedger_cases m' with ⟨cur, hcur, hver, hput⟩ | ⟨e, hput⟩
  · obtain ⟨cur', hcur', hlater⟩ := hseen.row
    rw [← hid] at hcur'
    obtain rfl : cur = cur' := Option.some.inj (hcur.symm.trans hcur')
    obtain rfl : cur = m := hlater.same (hv.symm.trans hver.symm)
    refine evolves_write (m := m') hcur (fun _ => rfl) hver.symm hclosed ?_
    change (w.store.putLedger m').1 = _
    rw [hput]
  · refine evolves_of_ledgers ?_
    change (w.store.putLedger m').1.ledgers = _
    rw [hput]

theorem transition_evolves (id : Nat) :
    Evolves w (perform crc32 w (.transitionState id .Open .InRecovery)).1 := by
  change Evolves w { w with store := (w.store.transitionState id .Open .InRecovery).1 }
  unfold Store.transitionState
  split
  · exact evolves_of_ledgers rfl
  · rename_i cur hcur
    split_ifs with hne
    · exact evolves_of_ledgers rfl
    · refine evolves_write (m := { cur with state := .InRecovery }) hcur (fun hk => hk id cur hcur)
        rfl (fun hclosed => ?_) rfl
      rw [not_not.mp hne] at hclosed
      cases hclosed

end Requests

section Programs
variable {o : Operation} {α β : Type} {m : LedgerMetadata}

abbrev Safe (crc32 : Bytes → UInt32) (o : Operation) (p : Remote α) (w : World)
    (post : Except FolioError α → World → Prop) : Prop :=
  Prog.Keeps (I := Service) (answer crc32) Evolves (allowed o) post p w

theorem quiet_safe {p : Remote α} (hp : p.Uses Quiet) (w : World) :
    Safe crc32 o p w fun _ _ => True := by
  induction p generalizing w with
  | done r => trivial
  | call req k ih =>
    intro t _ _ d
    have hreq : Evolves t (perform crc32 t req).1 :=
      evolves_of_ledgers (congrArg Store.ledgers (perform_quiet crc32 t hp.1))
    exact ⟨answer_evolves hreq, ih _ (hp.2 _) _⟩

theorem Safe.next {p : Remote α} {f : α → Remote β} (hp : Safe crc32 o p w fun _ _ => True)
    (hf : ∀ a t, Evolves w t → Safe crc32 o (f a) t fun _ _ => True) :
    Safe crc32 o (p >>= f) w fun _ _ => True :=
  Prog.Keeps.bind (Prog.Keeps.track (fun h => h.trans) hp (.refl w))
    (fun a t ht => hf a t ht.2) fun _ _ _ => trivial

theorem put_safe {m m' : LedgerMetadata} (hseen : Seen m w) (hid : m'.id = m.id)
    (hv : m'.version = m.version) (hclosed : m.state = .Closed → m'.state = .Closed ∧
      m'.lastEntryId = m.lastEntryId ∧ m'.lastAddConfirmed = m.lastAddConfirmed) :
    Safe crc32 o (putLedger m') w fun _ _ => True := fun _ ht _ _ =>
  ⟨answer_evolves (put_evolves (hseen.evolves ht) hid hv hclosed), trivial⟩

theorem getLedger_safe (id : Nat) (hk : w.store.WellKeyed) :
    Safe crc32 o (getLedger id) w fun r t => ∀ m, r = .ok m → Seen m t ∧
      ∀ l, o = .fenceAndSeal l → m.state ≠ .Closed := by
  intro t ht hallowed d
  refine ⟨answer_evolves (evolves_of_ledgers rfl), fun m hm => ?_⟩
  obtain rfl := Delivery.delivered_of_ok hm
  have hrow : row t id = some m := Store.getLedger_ok hm
  refine ⟨seen_of_row (ht.keyed hk) hrow, ?_⟩
  rintro l rfl
  exact hallowed m hrow

theorem initiateRecovery_safe (id : Nat) (hk : w.store.WellKeyed) :
    Safe crc32 o (initiateRecovery id) w fun r t =>
      t.store.WellKeyed ∧ ∀ m, r = .ok m → Seen m t ∧ m.state ≠ .Closed := by
  intro t ht _ d
  have hev : Evolves t (answer crc32 d t (.transitionState id .Open .InRecovery)).1 :=
    answer_evolves (transition_evolves id)
  refine ⟨hev, hev.keyed (ht.keyed hk), fun m hm => ?_⟩
  obtain rfl := Delivery.delivered_of_ok hm
  have hans : answer crc32 .delivered t (.transitionState id .Open .InRecovery) =
      withStore t (t.store.transitionState id .Open .InRecovery) := rfl
  rw [hans] at hm hev ⊢
  rcases t.store.transitionState_cases id .Open .InRecovery with ⟨cur, hcur, htr⟩ | ⟨e, htr⟩
  · rw [htr] at hm hev ⊢
    cases hm
    exact ⟨seen_of_row (hev.keyed (ht.keyed hk)) (Table.get_put_self _ id _),
      by simp [Store.writeLedger]⟩
  · rw [htr] at hm
    cases hm

theorem sealLedger_safe (id lac : Nat) (hk : w.store.WellKeyed) :
    Safe crc32 o (Recovery.sealLedger id lac) w fun _ _ => True := by
  refine (getLedger_safe id hk).bind (fun m t h => ?_) fun _ _ _ => trivial
  obtain ⟨hseen, -⟩ := h m rfl
  split_ifs with hclosed
  · trivial
  · exact Safe.next (put_safe hseen rfl rfl fun h => absurd h hclosed) fun _ _ _ => trivial

theorem fenceAndSeal_safe (id : Nat) (hk : w.store.WellKeyed) :
    Safe crc32 (.fenceAndSeal id) (Recovery.fenceAndSeal id) w fun _ _ => True := by
  have hstart : Safe crc32 (.fenceAndSeal id)
      (tryCatch (initiateRecovery id) fun _ => getLedger id) w fun r t =>
        ∀ m, r = .ok m → Seen m t ∧ m.state ≠ .Closed := by
    refine (initiateRecovery_safe id hk).handle (fun m t h => h.2) fun e t h => ?_
    refine (getLedger_safe id h.1).mono fun r t h' m hm => ?_
    exact ⟨(h' m hm).1, (h' m hm).2 id rfl⟩
  refine hstart.bind (fun m t h => ?_) fun _ _ _ => trivial
  obtain ⟨hseen, hopen⟩ := h m rfl
  refine Safe.next (quiet_safe (Prog.uses_okOr _ _) t) fun fragment t' ht' => ?_
  refine Safe.next (quiet_safe (fenceAll_quiet _ _) t') fun lacs t'' ht'' => ?_
  exact put_safe ((hseen.evolves ht').evolves ht'') rfl rfl fun h => absurd h hopen

theorem restoreReplication_safe (hseen : Seen m w) (failed : NodeId) (fromId : Nat) :
    Safe crc32 o (Recovery.restoreReplication m failed fromId) w fun _ _ => True := by
  rw [restoreReplication_eq]
  refine Safe.next (quiet_safe (restorePlan_quiet ..) _) fun plan t ht => ?_
  exact Safe.next (put_safe (hseen.evolves ht) rfl rfl fun h => ⟨h, rfl, rfl⟩)
    fun _ _ _ => trivial

theorem restoreFragments_safe (failed : NodeId) (fs : List Fragment)
    (hseen : Seen m w) : Safe crc32 o (restoreFragments m failed fs) w fun _ _ => True := by
  induction fs generalizing w with
  | nil => trivial
  | cons f fs ih =>
    unfold restoreFragments
    split_ifs
    · exact Safe.next (restoreReplication_safe hseen failed _) fun _ t ht =>
        ih (hseen.evolves ht)
    · exact ih hseen

theorem restoreLedgers_safe (failed : NodeId) (ms : List LedgerMetadata)
    (hseen : ∀ m ∈ ms, Seen m w) :
    Safe crc32 o (restoreLedgers failed ms) w fun _ _ => True := by
  induction ms generalizing w with
  | nil => trivial
  | cons m ms ih =>
    refine Safe.next (restoreFragments_safe failed _ (hseen m (by simp))) fun _ t ht => ?_
    exact ih fun m' hm' => (hseen m' (by simp [hm'])).evolves ht

theorem listLedgers_safe (hk : w.store.WellKeyed) :
    Safe crc32 o listLedgers w fun r t => ∀ ms, r = .ok ms → ∀ m ∈ ms, Seen m t := by
  intro t ht _ d
  refine ⟨answer_evolves (evolves_of_ledgers rfl), fun ms hms m hm => ?_⟩
  obtain rfl := Delivery.delivered_of_ok hms
  cases hms
  obtain ⟨id, hid⟩ := (t.store.mem_listLedgers m).mp hm
  exact seen_of_row (ht.keyed hk) hid

theorem handleNodeFailure_safe (failed : NodeId) (hk : w.store.WellKeyed) :
    Safe crc32 o (Recovery.handleNodeFailure failed) w fun _ _ => True := by
  refine (listLedgers_safe hk).bind (fun ms t h => ?_) fun _ _ _ => trivial
  refine Safe.next (restoreLedgers_safe failed _ fun m hm => ?_) fun _ _ _ => trivial
  exact h ms rfl m (List.mem_filter.mp hm).1

theorem body_safe (o : Operation) (hk : w.store.WellKeyed) :
    Safe crc32 o o.body w fun _ _ => True := by
  cases o with
  | sealLedger id lac => exact sealLedger_safe id lac hk
  | fenceAndSeal id => exact Safe.next (fenceAndSeal_safe id hk) fun _ _ _ => trivial
  | restoreReplication id failed fromId =>
    refine (getLedger_safe id hk).bind (fun m t h => ?_) fun _ _ _ => trivial
    exact restoreReplication_safe (h m rfl).1 failed fromId
  | handleNodeFailure failed =>
    exact Safe.next (handleNodeFailure_safe failed hk) fun _ _ _ => trivial

end Programs

section Writers
variable {writer : Writer}

structure Linked (w : World) (writer : Writer) : Prop where
  row : ∃ cur, row w writer.handle.metadata.id = some cur ∧
    writer.handle.metadata.version ≤ cur.version ∧
    (writer.handle.metadata.version = cur.version → cur.state = writer.handle.metadata.state)
  busy : writer.pc ≠ .idle → writer.handle.metadata.state = .Open

theorem Linked.evolves {w' : World} (h : Linked w writer) (he : Evolves w w') :
    Linked w' writer := by
  obtain ⟨cur, hcur, hle, hsame⟩ := h.row
  obtain ⟨cur', hcur', hlater⟩ := he.rows _ cur hcur
  refine ⟨⟨cur', hcur', Nat.le_trans hle hlater.version, fun heq => ?_⟩, h.busy⟩
  have hv : cur.version = cur'.version :=
    Nat.le_antisymm hlater.version (heq ▸ hle)
  rw [hlater.same hv]
  exact hsame (heq.trans hv.symm)

theorem Linked.local_step {writer' : Writer} (h : Linked w writer)
    (hsame : Cluster.SameTerm writer writer')
    (hbusy : writer'.pc ≠ .idle → writer.handle.metadata.state = .Open) :
    Linked w writer' := by
  obtain ⟨cur, hcur, hle, hst⟩ := h.row
  refine ⟨⟨cur, ?_, ?_, ?_⟩, fun hpc => hsame.state.trans (hbusy hpc)⟩
  · rw [hsame.id]
    exact hcur
  · rw [hsame.version]
    exact hle
  · rw [hsame.version, hsame.state]
    exact hst

theorem Linked.put {d : Delivery} (h : Linked w writer)
    (hopen : writer.handle.metadata.state = .Open) :
    Evolves w { w with
      store := (d.send (w.store.putLedger writer.handle.metadata) w.store).1 } := by
  obtain ⟨cur, hcur, -, hst⟩ := h.row
  rcases Cluster.putLedger_send d w.store writer.handle.metadata with
    ⟨hsame, -⟩ | ⟨cur', hcur', hv, hwrite, -⟩
  · exact evolves_of_ledgers (congrArg Store.ledgers hsame)
  · obtain rfl : cur = cur' := Option.some.inj (hcur.symm.trans hcur')
    refine evolves_write hcur (fun _ => rfl) hv.symm (fun hclosed => ?_) hwrite
    rw [hst hv.symm, hopen] at hclosed
    cases hclosed

theorem linked_new {id : Nat} {m : LedgerMetadata} (hk : w.store.WellKeyed)
    (h : row w id = some m) : Linked w ⟨.new m, .idle, false, []⟩ :=
  ⟨⟨m, by change row w m.id = _; rw [hk id m h]; exact h, Nat.le_refl _, fun _ => rfl⟩,
    fun hpc => absurd rfl hpc⟩

def after (w : World) (t : Cluster.State) : World :=
  { w with store := t.store, replicas := t.replicas }

theorem linked_step {a : WriterAct} {t : Cluster.State} (h : Linked w writer)
    (hst : WriterStep crc32 (focus w writer) a t) :
    Evolves w (after w t) ∧ Linked (after w t) t.writer := by
  cases hst with
  | append data hpc =>
    refine ⟨.refl w, ?_⟩
    change Linked w (Cluster.startAppend _ _ _ _)
    have hseal : Linked w { writer with
        afterSeal := (focus w writer).fencers.values.any Cluster.isSealed } := ⟨h.row, h.busy⟩
    unfold Cluster.startAppend
    dsimp only
    split
    · exact hseal.local_step ⟨rfl, rfl, rfl, rfl⟩ fun hpc => absurd rfl hpc
    · rename_i hopen
      exact hseal.local_step (Cluster.startAttempt_sameTerm _ _ _ _) fun _ => not_not.mp hopen
  | deliver i d a n hpc hslot =>
    have hopen := h.busy (by rw [show writer.pc = .sending a from hpc]; simp)
    have hev : Evolves w (after w (Cluster.afterDeliver crc32 (focus w writer) n a.entry d
        { writer with
          pc := .sending
            (a.fill i n (Cluster.deliverAdd crc32 (focus w writer) n a.entry d).2) })) :=
      evolves_of_ledgers rfl
    exact ⟨hev, (h.evolves hev).local_step ⟨rfl, rfl, rfl, rfl⟩ fun _ => hopen⟩
  | decide a hpc hover =>
    have hopen := h.busy (by rw [show writer.pc = .sending a from hpc]; simp)
    exact ⟨.refl w, h.local_step (Cluster.decideAttempt_sameTerm _ _) fun _ => hopen⟩
  | listNodes d a after nodes hpc hnodes =>
    have hopen := h.busy (by rw [show writer.pc = .listing a after from hpc]; simp)
    exact ⟨.refl w, h.local_step (Cluster.pushFragment_sameTerm _ _ _ _ _) fun _ => hopen⟩
  | putOk d a after' store m hpc hput =>
    have hopen := h.busy (by rw [show writer.pc = .putting a after' from hpc]; simp)
    have hev := h.put (d := d) hopen
    obtain ⟨hstore, hm⟩ := Cluster.putLedger_accepted hput
    have hput' : (d.send (w.store.putLedger writer.handle.metadata) w.store).1 = store :=
      congrArg Prod.fst hput
    rw [hput'] at hev
    refine ⟨hev, ?_⟩
    -- the handle takes over the row just written
    have hnew : Linked { w with store } (Cluster.withMetadata writer m) := by
      refine ⟨⟨m, ?_, Nat.le_refl _, fun _ => rfl⟩, fun _ => ?_⟩
      · change store.ledgers.get m.id = some m
        rw [hstore, hm]
        exact Table.get_put_self _ _ _
      · change m.state = .Open
        rw [hm]
        exact hopen
    exact hnew.local_step (Cluster.endChange_sameTerm _ _ _ _ _) fun _ => by
      change m.state = .Open
      rw [hm]
      exact hopen
  | putErr d a after' store e hpc hput =>
    have hopen := h.busy (by rw [show writer.pc = .putting a after' from hpc]; simp)
    have hev := h.put (d := d) hopen
    have hput' : (d.send (w.store.putLedger writer.handle.metadata) w.store).1 = store :=
      congrArg Prod.fst hput
    rw [hput'] at hev
    exact ⟨hev, (h.local_step (Cluster.endChange_sameTerm _ _ _ _ _) fun _ => hopen).evolves hev⟩

end Writers

section Runs
variable {s t : State}

structure Inv (crc32 : Bytes → UInt32) (s : State) : Prop where
  keyed : s.world.store.WellKeyed
  threads : ∀ c thread, s.threads.get c = some thread →
    Safe crc32 thread.operation thread.rest s.world fun _ _ => True
  writers : ∀ c writer, s.writers.get c = some writer → Linked s.world writer

theorem Inv.evolves (h : Inv crc32 s) (he : Evolves s.world w) :
    Inv crc32 { s with world := w } where
  keyed := he.keyed h.keyed
  threads := fun c thread hc =>
    (h.threads c thread hc).interfere (fun h => h.trans) (fun _ _ _ _ _ => trivial) he
  writers := fun c writer hc => (h.writers c writer hc).evolves he

theorem Inv.putThread {c : Nat} {thread : Thread} (h : Inv crc32 s)
    (hnew : Safe crc32 thread.operation thread.rest s.world fun _ _ => True) :
    Inv crc32 { s with threads := s.threads.put c thread } where
  keyed := h.keyed
  threads := by
    intro c' thread' hc
    dsimp only at hc
    rw [Table.get_put] at hc
    split_ifs at hc
    · cases hc
      exact hnew
    · exact h.threads c' thread' hc
  writers := h.writers

theorem Inv.putWriter {c : Nat} {writer : Writer} (h : Inv crc32 s)
    (hnew : Linked s.world writer) : Inv crc32 { s with writers := s.writers.put c writer } where
  keyed := h.keyed
  threads := h.threads
  writers := by
    intro c' writer' hc
    dsimp only at hc
    rw [Table.get_put] at hc
    split_ifs at hc
    · cases hc
      exact hnew
    · exact h.writers c' writer' hc

theorem inv_step {a : Act} (h : Inv crc32 s) (hg : fallbackOpen s a)
    (hst : step crc32 s a = some t) : Evolves s.world t.world ∧ Inv crc32 t := by
  cases a with
  | invoke c o =>
    simp only [step] at hst
    split at hst
    · cases hst
      exact ⟨.refl _, h.putThread (body_safe o h.keyed)⟩
    · cases hst
  | request c d =>
    simp only [step, Option.bind_eq_bind, Option.bind_eq_some_iff] at hst
    obtain ⟨thread, hc, ⟨world, rest⟩, hadv, hst⟩ := hst
    cases hst
    have hallowed : ∀ req k, thread.rest = .call req k → allowed thread.operation s.world req := by
      intro req k hreq
      obtain ⟨o, rest'⟩ := thread
      dsimp only at hreq
      subst hreq
      simpa [fallbackOpen, hc] using hg
    obtain ⟨hev, hrest⟩ := (h.threads c thread hc).advance Evolves.refl hadv hallowed
    exact ⟨hev, (h.evolves hev).putThread hrest⟩
  | openLedger c ledgerId =>
    simp only [step] at hst
    split at hst
    · rename_i m hw hget
      cases hst
      refine ⟨.refl _, h.putWriter ?_⟩
      exact linked_new h.keyed (Store.getLedger_ok hget)
    · cases hst
  | writer c a =>
    simp only [step, Option.bind_eq_bind, Option.bind_eq_some_iff] at hst
    obtain ⟨writer, hw, u, hu, hst⟩ := hst
    cases hst
    obtain ⟨hev, hlinked⟩ := linked_step (h.writers c writer hw) (stepWriter_cases crc32 hu)
    exact ⟨hev, (h.evolves hev).putWriter hlinked⟩
  | register n =>
    cases hst
    have hev : Evolves s.world { s.world with store := s.world.store.registerNode n } :=
      evolves_of_ledgers rfl
    exact ⟨hev, h.evolves hev⟩
  | expire n =>
    cases hst
    have hev : Evolves s.world { s.world with store := s.world.store.expireNode n } :=
      evolves_of_ledgers rfl
    exact ⟨hev, h.evolves hev⟩
  | resolver nodes =>
    cases hst
    have hev : Evolves s.world { s.world with resolver := nodes } := evolves_of_ledgers rfl
    exact ⟨hev, h.evolves hev⟩

theorem inv_started (h : Started s) : Inv crc32 s where
  keyed := h.keyed
  threads := by
    intro c thread hc
    rw [h.threads] at hc
    cases hc
  writers := by
    intro c writer hc
    rw [h.writers] at hc
    cases hc

/-- If no `fence_and_seal` falls back to a closed ledger, a closed ledger stays closed with
the end it was sealed with. -/
theorem sealed_ledger_final (h : Reach (guarded fallbackOpen (step crc32)) Started s)
    (acts : List Act) (hrun : run (guarded fallbackOpen (step crc32)) s acts = some t) (id : Nat)
    (cur : LedgerMetadata) (hcur : row s.world id = some cur) (hclosed : cur.state = .Closed) :
    ∃ cur', row t.world id = some cur' ∧ cur'.state = .Closed ∧
      cur'.lastEntryId = cur.lastEntryId ∧ cur'.lastAddConfirmed = cur.lastAddConfirmed := by
  have hinv : Inv crc32 s := by
    refine Reach.invariant (P := Inv crc32) (fun _ => inv_started) (fun s a t hs hst => ?_) h
    obtain ⟨hg, hst⟩ := (guarded_eq_some fallbackOpen).mp hst
    exact (inv_step hs hg hst).2
  have hafter : Inv crc32 t ∧ Evolves s.world t.world := by
    refine run_invariant (P := fun u => Inv crc32 u ∧ Evolves s.world u.world)
      (fun u a v hu hst => ?_) acts ⟨hinv, .refl _⟩ hrun
    obtain ⟨hg, hst⟩ := (guarded_eq_some fallbackOpen).mp hst
    obtain ⟨hev, hv⟩ := inv_step hu.1 hg hst
    exact ⟨hv, hu.2.trans hev⟩
  obtain ⟨cur', hcur', hlater⟩ := hafter.2.rows id cur hcur
  exact ⟨cur', hcur', hlater.closed hclosed⟩

def idle (w : World) : State := ⟨w, .empty, .empty⟩

def twoNodeWorld : World where
  store := ⟨1, Table.empty.put 1 (Cluster.newLedger ["n0", "n1"] 1 1),
    (Table.empty.put "n1" .ReadWrite).put "n2" .ReadWrite⟩
  replicas := .empty
  resolver := ["n0", "n1", "n2"]

theorem twoNodeWorld_started : Started (idle twoNodeWorld) where
  keyed := by
    intro id m hm
    change (Table.empty.put 1 _).get id = some m at hm
    obtain ⟨rfl, rfl⟩ : id = 1 ∧ _ = m := by simpa [Table.get_put] using hm
    rfl
  threads := rfl
  writers := rfl

def callActs (c : Nat) (o : Operation) (n : Nat) : List Act :=
  .invoke c o :: List.replicate n (.request c .delivered)

/-- After the seal, a restore of the ledger and a `change_fragment` of an older handle. -/
def afterSeal : List Act :=
  callActs 1 (.handleNodeFailure "n0") 5 ++
    [.writer 0 (.append [1]), .writer 0 (.deliver 0 Cluster.unreachable), .writer 0 .decide,
      .writer 0 (.listNodes .delivered), .writer 0 (.putLedger .delivered)]

theorem seal_kept_by_restore :
    ∃ s t cur, Reach (guarded fallbackOpen (step Crc32.crc32)) Started s ∧
      run (guarded fallbackOpen (step Crc32.crc32)) s afterSeal = some t ∧
      row s.world 1 = some cur ∧ cur.state = .Closed ∧
      (row t.world 1).map (fun m => m.fragments.map Fragment.ensemble) = some [["n1", "n2"]] ∧
      ∃ cur', row t.world 1 = some cur' ∧ cur'.state = .Closed ∧
        cur'.lastEntryId = cur.lastEntryId ∧ cur'.lastAddConfirmed = cur.lastAddConfirmed := by
  obtain ⟨s, hreach, hrow, hrun⟩ := reach_check (guarded fallbackOpen (step Crc32.crc32))
    twoNodeWorld_started
    (fun s => (row s.world 1).map LedgerMetadata.state = some .Closed ∧
      (run (guarded fallbackOpen (step Crc32.crc32)) s afterSeal).map (fun t =>
        (row t.world 1).map (fun m => m.fragments.map Fragment.ensemble)) =
        some (some [["n1", "n2"]]))
    (.openLedger 0 1 :: callActs 0 (.sealLedger 1 0) 2) (by decide +kernel)
  obtain ⟨t, ht, hensemble⟩ := Option.map_eq_some_iff.mp hrun
  obtain ⟨cur, hcur, hclosed⟩ := Option.map_eq_some_iff.mp hrow
  exact ⟨s, t, cur, hreach, ht, hcur, hclosed, hensemble,
    sealed_ledger_final hreach _ ht 1 cur hcur hclosed⟩

/-- A `fence_and_seal` after the seal falls back to the closed ledger and seals it again. -/
theorem sealed_ledger_resealed :
    ∃ s t, Reach (step Crc32.crc32) Started s ∧
      run (step Crc32.crc32) s (callActs 1 (.fenceAndSeal 1) 7) = some t ∧
      (row s.world 1).map (fun m => (m.state, m.lastEntryId, m.lastAddConfirmed)) =
        some (.Closed, some 5, 5) ∧
      (row t.world 1).map (fun m => (m.state, m.lastEntryId, m.lastAddConfirmed)) =
        some (.Closed, none, 0) := by
  obtain ⟨s, hreach, hrow, hrun⟩ := reach_check (step Crc32.crc32) twoNodeWorld_started
    (fun s =>
      (row s.world 1).map (fun m => (m.state, m.lastEntryId, m.lastAddConfirmed)) =
        some (.Closed, some 5, 5) ∧
      (run (step Crc32.crc32) s (callActs 1 (.fenceAndSeal 1) 7)).map (fun t =>
        (row t.world 1).map (fun m => (m.state, m.lastEntryId, m.lastAddConfirmed))) =
        some (some (.Closed, none, 0)))
    (callActs 0 (.sealLedger 1 5) 2) (by decide +kernel)
  obtain ⟨t, ht, hval⟩ := Option.map_eq_some_iff.mp hrun
  exact ⟨s, t, hreach, ht, hrow, hval⟩

end Runs

end Folio.ClosedLedger
