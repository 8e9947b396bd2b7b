import Folio.Crc32
import Folio.EtcdStore
import Folio.FencingInvariant

/-! `change_fragment` as one call: the shape of the fragments it adds, and what it leaves of
the caller's metadata when the store does not take them. -/
namespace Folio.ChangeFragment
open KeyedTable Protocol Metadata LedgerClient TransitionSystem Cluster RemoteProgram
open FencingSafety (putAccepted)
variable {failed : List NodeId} {m : LedgerMetadata}

structure Outcome where
  store : Store
  ledger : LedgerMetadata
  result : Except FolioError Unit

/-- The fragment to push. `list_nodes` is called only if there is a last fragment and a node
to replace. -/
def nextFragment (listed : Except FolioError (List NodeInfo)) (ledger : LedgerMetadata)
    (failed : List NodeId) (nextEntryId : Nat) : Except FolioError Fragment :=
  if failed = [] ∨ ledger.fragments = [] then newFragment ledger failed [] nextEntryId
  else listed.bind fun nodes => newFragment ledger failed nodes nextEntryId

def pushed (ledger : LedgerMetadata) (f : Fragment) : LedgerMetadata :=
  { ledger with fragments := ledger.fragments ++ [f] }

/-- `listed` is what `list_nodes` has answered; the `put_ledger` finds the store `st`. -/
def changeFragment (listed : Except FolioError (List NodeInfo)) (st : Store) (d : Delivery)
    (ledger : LedgerMetadata) (failed : List NodeId) (nextEntryId : Nat) : Outcome :=
  match nextFragment listed ledger failed nextEntryId with
  | .error e => ⟨st, ledger, .error e⟩
  | .ok f =>
    let r := d.send (st.putLedger (pushed ledger f)) st
    match r.2 with
    | .ok m => ⟨r.1, m, .ok ()⟩
    -- the caller's copy already has the new fragment
    | .error e => ⟨r.1, pushed ledger f, .error e⟩

section Calls
variable {listed : Except FolioError (List NodeInfo)} {st : Store} {d : Delivery}
  {ledger : LedgerMetadata} {next : Nat} {f : Fragment}

/-- The `put_ledger` of the call is answered, and the store has the version of the caller. -/
def Accepted (st : Store) (d : Delivery) (ledger : LedgerMetadata) : Prop :=
  d = .delivered ∧ (st.ledgers.get ledger.id).map LedgerMetadata.version = some ledger.version

instance (st : Store) (d : Delivery) (ledger : LedgerMetadata) :
    Decidable (Accepted st d ledger) := by
  unfold Accepted
  infer_instance

theorem put_of_accepted (h : Accepted st d ledger) :
    d.send (st.putLedger ledger) st =
      ((st.writeLedger ledger.id ledger).1, .ok (st.writeLedger ledger.id ledger).2) := by
  obtain ⟨rfl, hv⟩ := h
  obtain ⟨cur, hcur, hver⟩ := Option.map_eq_some_iff.mp hv
  simp [Delivery.send, Store.putLedger, hcur, hver]

theorem put_of_not_accepted (h : ¬Accepted st d ledger) :
    ∃ e, (d.send (st.putLedger ledger) st).2 = .error e := by
  cases d with
  | lostRequest e => exact ⟨e, rfl⟩
  | lostReply e => exact ⟨e, rfl⟩
  | delivered =>
    rcases st.putLedger_cases ledger with ⟨cur, hcur, hver, -⟩ | ⟨e, hput⟩
    · exact absurd ⟨rfl, by rw [hcur, Option.map_some, hver]⟩ h
    · exact ⟨e, congrArg Prod.snd hput⟩

theorem changeFragment_of_accepted (hf : nextFragment listed ledger failed next = .ok f)
    (h : Accepted st d ledger) :
    changeFragment listed st d ledger failed next =
      ⟨(st.writeLedger ledger.id (pushed ledger f)).1,
        (st.writeLedger ledger.id (pushed ledger f)).2, .ok ()⟩ := by
  have hput : Accepted st d (pushed ledger f) := h
  rw [changeFragment, hf]
  dsimp only
  rw [put_of_accepted hput]
  rfl

theorem changeFragment_of_not_accepted (hf : nextFragment listed ledger failed next = .ok f)
    (h : ¬Accepted st d ledger) :
    ∃ e, (changeFragment listed st d ledger failed next).result = .error e ∧
      (changeFragment listed st d ledger failed next).ledger = pushed ledger f := by
  have hput : ¬Accepted st d (pushed ledger f) := h
  obtain ⟨e, he⟩ := put_of_not_accepted hput
  refine ⟨e, ?_⟩
  simp [changeFragment, hf, he]

/-- A call that fails changes nothing for its caller, and one that succeeds leaves the caller
with what is stored. -/
structure Atomic (before : LedgerMetadata) (o : Outcome) : Prop where
  failed : ∀ e, o.result = .error e → o.ledger = before
  done : o.result = .ok () → o.store.ledgers.get before.id = some o.ledger

theorem atomic_iff (listed : Except FolioError (List NodeInfo)) (st : Store) (d : Delivery)
    (ledger : LedgerMetadata) (failed : List NodeId) (next : Nat) :
    Atomic ledger (changeFragment listed st d ledger failed next) ↔
      ∀ f, nextFragment listed ledger failed next = .ok f → Accepted st d ledger := by
  cases hf : nextFragment listed ledger failed next with
  | error e =>
    have hout : changeFragment listed st d ledger failed next = ⟨st, ledger, .error e⟩ := by
      simp [changeFragment, hf]
    rw [hout]
    refine ⟨fun _ f h => ?_, fun _ => ⟨fun _ _ => rfl, fun h => ?_⟩⟩
    · cases h
    · cases h
  | ok f =>
    by_cases h : Accepted st d ledger
    · rw [changeFragment_of_accepted hf h]
      refine ⟨fun _ _ _ => h, fun _ => ⟨fun e he => (by cases he), fun _ => ?_⟩⟩
      exact Table.get_put_self _ _ _
    · obtain ⟨e, hresult, hledger⟩ := changeFragment_of_not_accepted hf h
      constructor
      · intro hatomic
        have hsame := hatomic.failed e hresult
        rw [hledger] at hsame
        have hlen := congrArg (fun m : LedgerMetadata => m.fragments.length) hsame
        simp [pushed] at hlen
      · intro hall
        exact absurd (hall f rfl) h

end Calls

section Shape
variable {o : LedgerOptions} {ensemble : List NodeId} {nodes : List NodeInfo}

/-- The quorums that were asked for, and members enough, none of them twice. -/
structure WellFormed (o : LedgerOptions) (f : Fragment) : Prop where
  writeQuorum : f.writeQuorum = o.writeQuorum
  ackQuorum : f.ackQuorum = o.ackQuorum
  ack_pos : 1 ≤ f.ackQuorum
  ack_le : f.ackQuorum ≤ f.writeQuorum
  write_le : f.writeQuorum ≤ f.ensemble.length
  nodup : f.ensemble.Nodup

/-- What `create_ledger` of one of the two stores returns. The requests of the etcd store may be
answered in any way. -/
inductive CreatedBy (o : LedgerOptions) (ensemble : List NodeId) : LedgerMetadata → Prop
  | inMemory {st st' : Store} {m : LedgerMetadata} :
      st.createLedger o ensemble = (st', .ok m) → CreatedBy o ensemble m
  | etcd {β σ : Type} (codec : EtcdStore.Codec β)
      (answer : σ → (op : EtcdStore.Op β) → σ × Except FolioError op.Reply) {s t : σ}
      {m : EtcdStore.Stamped} :
      Prog.run (I := EtcdStore.Requests β) answer (EtcdStore.createLedger codec o ensemble) s =
        (t, .ok m) →
      CreatedBy o ensemble m.metadata

/-- A call of `change_fragment` over one of the two stores turns `m` into `m'` and returns `Ok`.
The registry has one record of a node. -/
inductive Changed : LedgerMetadata → LedgerMetadata → Prop
  | inMemory (nodes found : Store) (d : Delivery) (m : LedgerMetadata) (failed : List NodeId)
      (next : Nat) :
      (changeFragment (.ok nodes.listNodes) found d m failed next).result = .ok () →
      Changed m (changeFragment (.ok nodes.listNodes) found d m failed next).ledger
  | etcd {β σ : Type} (codec : EtcdStore.Codec β)
      (answer : σ → (op : EtcdStore.Op β) → σ × Except FolioError op.Reply) {s t : σ}
      {m m' : EtcdStore.Stamped} (nodes : List NodeInfo) (failed : List NodeId) (next : Nat)
      {f : Fragment} :
      (nodes.map NodeInfo.nodeId).Nodup →
      nextFragment (.ok nodes) m.metadata failed next = .ok f →
      Prog.run (I := EtcdStore.Requests β) answer
        (EtcdStore.putLedger codec { m with metadata := pushed m.metadata f }) s = (t, .ok m') →
      Changed m.metadata m'.metadata

theorem validate_ok (o : LedgerOptions) :
    o.validate = .ok () ↔ 1 ≤ o.ackQuorum ∧ o.ackQuorum ≤ o.writeQuorum ∧
      o.writeQuorum ≤ o.ensembleSize := by
  unfold LedgerOptions.validate
  split_ifs <;> simp <;> omega

theorem CreatedBy.fragments (h : CreatedBy o ensemble m) : o.validate = .ok () ∧
      m.fragments = [⟨0, ensemble, o.writeQuorum % 256, o.ackQuorum % 256⟩] := by
  cases h with
  | inMemory h =>
    obtain ⟨hvalid, rfl, -⟩ := Store.createLedger_ok h
    exact ⟨hvalid, rfl⟩
  | etcd codec answer h =>
    unfold EtcdStore.createLedger at h
    obtain ⟨_, ⟨⟩, hvalid, h⟩ := Prog.run_bind_ok (I := EtcdStore.Requests _) answer h
    obtain ⟨_, ledgerId, -, h⟩ := Prog.run_bind_ok (I := EtcdStore.Requests _) answer h
    obtain ⟨_, now, -, h⟩ := Prog.run_bind_ok (I := EtcdStore.Requests _) answer h
    obtain ⟨_, succeeded, -, h⟩ := Prog.run_bind_ok (I := EtcdStore.Requests _) answer h
    refine ⟨congrArg Prod.snd hvalid, ?_⟩
    cases succeeded with
    | false => cases h
    | true =>
      cases h
      rfl

theorem nextFragment_ok (nodes : List NodeInfo) (m : LedgerMetadata) (failed : List NodeId)
    (next : Nat) : nextFragment (.ok nodes) m failed next = newFragment m failed nodes next := by
  by_cases hnone : failed = [] ∨ m.fragments = []
  · rw [nextFragment, if_pos hnone]
    obtain rfl | hfs := hnone
    · simp [newFragment]
    · simp [newFragment, hfs]
  · rw [nextFragment, if_neg hnone]
    rfl

theorem Changed.fragments {m m' : LedgerMetadata} (h : Changed m m') :
    ∃ nodes failed next f, (nodes.map NodeInfo.nodeId).Nodup ∧
      newFragment m failed nodes next = .ok f ∧ m'.fragments = m.fragments ++ [f] := by
  cases h with
  | inMemory nodes found d _ failed next hok =>
    cases hf : nextFragment (.ok nodes.listNodes) m failed next with
    | error e => simp [changeFragment, hf] at hok
    | ok f =>
      refine ⟨nodes.listNodes, failed, next, f, nodes.listNodes_nodup,
        (nextFragment_ok _ _ _ _).symm.trans hf, ?_⟩
      by_cases hput : Accepted found d m
      · rw [changeFragment_of_accepted hf hput]
        rfl
      · obtain ⟨e, herr, -⟩ := changeFragment_of_not_accepted hf hput
        rw [herr] at hok
        cases hok
  | etcd codec answer nodes failed next hnodes hf h =>
    refine ⟨nodes, failed, next, _, hnodes, (nextFragment_ok _ _ _ _).symm.trans hf, ?_⟩
    unfold EtcdStore.putLedger at h
    obtain ⟨_, current, -, h⟩ := Prog.run_bind_ok (I := EtcdStore.Requests _) answer h
    split at h
    · cases h
    · unfold EtcdStore.replaceLedger at h
      obtain ⟨_, now, -, h⟩ := Prog.run_bind_ok (I := EtcdStore.Requests _) answer h
      obtain ⟨_, succeeded, -, h⟩ := Prog.run_bind_ok (I := EtcdStore.Requests _) answer h
      cases succeeded with
      | false => cases h
      | true =>
        cases h
        rfl

theorem newFragment_shape
    {next : Nat} {f : Fragment} (h : newFragment m failed nodes next = .ok f) :
    ∃ current, m.fragments.getLast? = some current ∧ f.writeQuorum = current.writeQuorum ∧
      (current.writeQuorum ≤ current.ensemble.length → f.writeQuorum ≤ f.ensemble.length) := by
  unfold newFragment at h
  split at h
  · cases h
  · rename_i current hcur
    dsimp only at h
    split_ifs at h with hnone hfew
    · cases h
      subst hnone
      refine ⟨current, hcur, rfl, fun henough => ?_⟩
      simpa using henough
    · cases h
      refine ⟨current, hcur, rfl, fun _ => ?_⟩
      simpa using hfew

theorem WellFormed.next {next : Nat} {f : Fragment}
    (hm : ∀ g ∈ m.fragments, WellFormed o g) (hnodes : (nodes.map NodeInfo.nodeId).Nodup)
    (h : newFragment m failed nodes next = .ok f) : WellFormed o f := by
  obtain ⟨current, hcur, hwrite, henough⟩ := newFragment_shape h
  obtain ⟨-, current', hcur', hack, hnodup⟩ := newFragment_ok h
  cases hcur.symm.trans hcur'
  have hg := hm current (List.mem_of_getLast? hcur)
  exact {
    writeQuorum := hwrite.trans hg.writeQuorum
    ackQuorum := hack.trans hg.ackQuorum
    ack_pos := hack ▸ hg.ack_pos
    ack_le := by rw [hack, hwrite]; exact hg.ack_le
    write_le := henough hg.write_le
    nodup := hnodup hnodes hg.nodup }

/-- One byte holds the write quorum, and the ensemble has that many members, none twice. -/
def Fits (o : LedgerOptions) (ensemble : List NodeId) : Prop :=
  o.writeQuorum < 256 ∧ o.writeQuorum ≤ ensemble.length ∧ ensemble.Nodup

instance (o : LedgerOptions) (ensemble : List NodeId) : Decidable (Fits o ensemble) := by
  unfold Fits
  infer_instance

theorem wellFormed_first_iff (h : o.validate = .ok ()) :
    WellFormed o ⟨0, ensemble, o.writeQuorum % 256, o.ackQuorum % 256⟩ ↔ Fits o ensemble := by
  obtain ⟨hpos, hle, -⟩ := (validate_ok o).mp h
  constructor
  · intro hf
    have hwrite : o.writeQuorum % 256 = o.writeQuorum := hf.writeQuorum
    have henough : o.writeQuorum % 256 ≤ ensemble.length := hf.write_le
    exact ⟨by omega, by omega, hf.nodup⟩
  · intro ⟨hbyte, henough, hnodup⟩
    have hwrite : o.writeQuorum % 256 = o.writeQuorum := Nat.mod_eq_of_lt hbyte
    have hack : o.ackQuorum % 256 = o.ackQuorum := Nat.mod_eq_of_lt (by omega)
    rw [hwrite, hack]
    exact ⟨rfl, rfl, hpos, hle, henough, hnodup⟩

theorem fragments_well_formed_iff {o : LedgerOptions} {ensemble : List NodeId}
    {m : LedgerMetadata} (h : CreatedBy o ensemble m) :
    (∀ m', Relation.ReflTransGen Changed m m' → ∀ f ∈ m'.fragments, WellFormed o f) ↔
      Fits o ensemble := by
  obtain ⟨hvalid, hfs⟩ := h.fragments
  rw [← wellFormed_first_iff hvalid]
  constructor
  · intro hall
    exact hall m .refl _ (hfs ▸ List.mem_singleton_self _)
  · intro hfirst m' hchain
    -- by induction over the calls: each pushes a fragment with the shape of the last one
    induction hchain with
    | refl => simpa [hfs] using hfirst
    | tail _ hstep ih =>
      obtain ⟨nodes, failed, next, f, hnodes, hnew, hfs'⟩ := hstep.fragments
      rw [hfs']
      simpa [or_imp, forall_and] using And.intro ih (WellFormed.next ih hnodes hnew)

def firstLedger (o : LedgerOptions) (ensemble : List NodeId) : LedgerMetadata :=
  ⟨1, .Open, [⟨0, ensemble, o.writeQuorum % 256, o.ackQuorum % 256⟩], none, 0, 1⟩

theorem firstLedger_created (h : o.validate = .ok ())
    (ensemble : List NodeId) : CreatedBy o ensemble (firstLedger o ensemble) :=
  @CreatedBy.inMemory _ _ ⟨0, .empty, .empty⟩ _ _ (by rw [Store.createLedger, h]; rfl)

theorem three_members_well_formed :
    CreatedBy ⟨3, 3, 2⟩ ["n0", "n1", "n2"] (firstLedger ⟨3, 3, 2⟩ ["n0", "n1", "n2"]) ∧
      ∀ m, Relation.ReflTransGen Changed (firstLedger ⟨3, 3, 2⟩ ["n0", "n1", "n2"]) m →
        ∀ f ∈ m.fragments, WellFormed ⟨3, 3, 2⟩ f := by
  have hcreated : CreatedBy ⟨3, 3, 2⟩ ["n0", "n1", "n2"] (firstLedger ⟨3, 3, 2⟩ _) :=
    firstLedger_created (by decide) _
  exact ⟨hcreated, (fragments_well_formed_iff hcreated).mpr (by decide)⟩

/-- A quorum of 256 is stored as zero; an ensemble may be short, or name a node twice. -/
theorem misfits_accepted :
    (CreatedBy ⟨256, 256, 1⟩ ["n0"] (firstLedger ⟨256, 256, 1⟩ ["n0"]) ∧
      (firstLedger ⟨256, 256, 1⟩ ["n0"]).fragments = [⟨0, ["n0"], 0, 1⟩] ∧
      ¬WellFormed ⟨256, 256, 1⟩ ⟨0, ["n0"], 0, 1⟩) ∧
    (CreatedBy ⟨3, 3, 2⟩ ["n0"] (firstLedger ⟨3, 3, 2⟩ ["n0"]) ∧
      (firstLedger ⟨3, 3, 2⟩ ["n0"]).fragments = [⟨0, ["n0"], 3, 2⟩] ∧
      ¬WellFormed ⟨3, 3, 2⟩ ⟨0, ["n0"], 3, 2⟩) ∧
    CreatedBy ⟨2, 2, 2⟩ ["n0", "n0"] (firstLedger ⟨2, 2, 2⟩ ["n0", "n0"]) ∧
      (firstLedger ⟨2, 2, 2⟩ ["n0", "n0"]).fragments = [⟨0, ["n0", "n0"], 2, 2⟩] ∧
      ¬WellFormed ⟨2, 2, 2⟩ ⟨0, ["n0", "n0"], 2, 2⟩ := by
  refine ⟨⟨firstLedger_created (by decide) _, rfl, fun h => ?_⟩,
    ⟨firstLedger_created (by decide) _, rfl, fun h => ?_⟩,
    firstLedger_created (by decide) _, rfl, fun h => ?_⟩
  · exact absurd h.writeQuorum (by decide)
  · exact absurd h.write_le (by decide)
  · exact absurd h.nodup (by decide)

end Shape

section Runs
variable {crc32 : Bytes → UInt32} {s t : State} {listed : Except FolioError (List NodeInfo)}
  {after : AfterChange} {a : Attempt} {w : Writer}

def settled (w : Writer) : List Fragment :=
  match w.pc with
  | .putting _ _ => w.handle.metadata.fragments.dropLast
  | _ => w.handle.metadata.fragments

/-- A handle fresh from `create_ledger`; nobody fences its ledger yet. -/
structure Created (s : State) : Prop where
  created : ∃ st o ensemble m, Store.createLedger st o ensemble = (s.store, .ok m) ∧
    s.writer = ⟨.new m, .idle, false, []⟩
  fencers : s.fencers = .empty

def FencerOk (fs : List Fragment) (id version : Nat) : FencerPc → Prop
  | .fencing m _ _ => m.id = id ∧ m.version ≤ version ∧ (m.version = version → m.fragments = fs)
  | _ => True

/-- The stored ledger has the fragments `fs`, and no `fence_and_seal` is about to change them. -/
structure Mirrored (fs : List Fragment) (ledger : Nat) (st : Store)
    (threads : Table Nat Fencer) (cur : LedgerMetadata) : Prop where
  stored : st.ledgers.get ledger = some cur
  id : cur.id = ledger
  fragments : cur.fragments = fs
  fencers : ∀ c f, threads.get c = some f → FencerOk fs ledger cur.version f.pc

theorem startAttempt_settled (w : Writer) (number : Nat) (data : Bytes) :
    settled (startAttempt crc32 w number data) = w.handle.metadata.fragments := by
  unfold startAttempt
  split <;> rfl

theorem startAppend_settled (w : Writer) (data : Bytes) (afterSeal : Bool) :
    settled (startAppend crc32 w data afterSeal) = w.handle.metadata.fragments := by
  unfold startAppend
  dsimp only
  split
  · rfl
  · exact startAttempt_settled _ _ _

theorem decideAttempt_settled (w : Writer) (a : Attempt) :
    settled (decideAttempt w a) = w.handle.metadata.fragments := by
  unfold decideAttempt
  repeat' split
  all_goals rfl

theorem endChange_settled (w : Writer) (a : Attempt) (after : AfterChange) (ok : Bool) :
    settled (endChange crc32 w a after ok) = w.handle.metadata.fragments := by
  unfold endChange
  split
  · rfl
  · exact startAttempt_settled _ _ _
  · rfl

theorem pushFragment_settled (w : Writer) (a : Attempt) (after : AfterChange)
    (nodes : Except FolioError (List NodeInfo)) :
    settled (pushFragment crc32 w a after nodes) = w.handle.metadata.fragments := by
  unfold pushFragment
  split
  · exact endChange_settled _ _ _ _
  · exact List.dropLast_concat

theorem startAppend_id (w : Writer) (data : Bytes) (afterSeal : Bool) :
    (startAppend crc32 w data afterSeal).handle.metadata.id = w.handle.metadata.id := by
  unfold startAppend
  dsimp only
  split
  · rfl
  · exact (startAttempt_sameTerm crc32 _ _ _).id

theorem FencerOk.old {fs fs' : List Fragment} {id version version' : Nat} {pc : FencerPc}
    (h : FencerOk fs id version pc) (hv : version < version') : FencerOk fs' id version' pc := by
  cases pc with
  | fencing m todo lacs =>
    obtain ⟨hid, hle, -⟩ := h
    exact ⟨hid, by omega, fun heq => by omega⟩
  | started => trivial
  | fallback => trivial
  | returned result => trivial

theorem startFencing_ok {fs : List Fragment} {id version : Nat}
    (hid : m.id = id) (hv : m.version ≤ version) (hf : m.fragments = fs) :
    FencerOk fs id version (startFencing m) := by
  unfold startFencing
  split
  · trivial
  · exact ⟨hid, hv, fun _ => hf⟩

section Rows
variable {fs : List Fragment} {id : Nat} {st : Store} {fencers : Table Nat Fencer}
  {cur : LedgerMetadata}

theorem Mirrored.write (h : Mirrored fs id st fencers cur) {fs' : List Fragment} (hid : m.id = id)
    (hv : m.version = cur.version) (hf : m.fragments = fs') :
    Mirrored fs' id (st.writeLedger id m).1 fencers (st.writeLedger id m).2 where
  stored := Table.get_put_self _ _ _
  id := hid
  fragments := hf
  fencers := fun c f hc => (h.fencers c f hc).old (by simp [Store.writeLedger, hv])

theorem Mirrored.setFencer (h : Mirrored fs id st fencers cur) (c : Nat) {f : Fencer}
    (hf : FencerOk fs id cur.version f.pc) : Mirrored fs id st (fencers.put c f) cur where
  stored := h.stored
  id := h.id
  fragments := h.fragments
  fencers := by
    intro c' f' hc
    rw [Table.get_put] at hc
    split_ifs at hc
    · cases hc
      exact hf
    · exact h.fencers c' f' hc

theorem Mirrored.transition (h : Mirrored fs id st fencers cur) (d : Delivery) (c : Nat)
    (acked : List Nat) :
    ∃ cur', Mirrored fs id (d.send (st.transitionState id .Open .InRecovery) st).1
      (fencers.put c ⟨match (d.send (st.transitionState id .Open .InRecovery) st).2 with
        | .ok m => startFencing m
        | .error _ => .fallback, acked⟩) cur' := by
  rcases transitionState_send d st id .Open .InRecovery with
    ⟨hsame, hno⟩ | ⟨cur', hcur', hwrite, hret⟩
  · refine ⟨cur, ?_⟩
    rw [hsame]
    refine h.setFencer c ?_
    split
    · exact absurd ‹_› (hno _)
    · trivial
  · obtain rfl : cur = cur' := Option.some.inj (h.stored.symm.trans hcur')
    let begun : LedgerMetadata := { cur with state := .InRecovery }
    have hnew : Mirrored fs id (st.writeLedger id begun).1 fencers (st.writeLedger id begun).2 :=
      h.write h.id rfl h.fragments
    refine ⟨(st.writeLedger id begun).2, ?_⟩
    rw [hwrite]
    refine hnew.setFencer c ?_
    dsimp only
    split
    · rename_i m hm
      rw [hret m hm]
      exact startFencing_ok h.id (Nat.le_refl _) h.fragments
    · trivial

theorem Mirrored.fallback (h : Mirrored fs id st fencers cur) (d : Delivery) (c : Nat)
    (acked : List Nat) :
    Mirrored fs id st
      (fencers.put c ⟨match (d.send (st, st.getLedger id) st).2 with
        | .ok m => startFencing m
        | .error e => .returned (.error e), acked⟩) cur := by
  refine h.setFencer c ?_
  dsimp only
  split
  · rename_i m hm
    obtain rfl := Delivery.delivered_of_ok hm
    obtain rfl : cur = m := Option.some.inj (h.stored.symm.trans (Store.getLedger_ok hm))
    exact startFencing_ok h.id (Nat.le_refl _) h.fragments
  · trivial

theorem Mirrored.seal (h : Mirrored fs id st fencers cur) (d : Delivery) {c : Nat}
    {lacs acked : List Nat} (hc : fencers.get c = some ⟨.fencing m [] lacs, acked⟩) :
    ∃ cur', Mirrored fs id (d.send (st.putLedger (sealedMetadata m lacs)) st).1
      (fencers.put c ⟨.returned (d.send (st.putLedger (sealedMetadata m lacs)) st).2, acked⟩)
      cur' := by
  obtain ⟨hid, -, hfrag⟩ := h.fencers c _ hc
  rcases putLedger_send d st (sealedMetadata m lacs) with ⟨hsame, -⟩ | ⟨cur', hcur', hv, hwrite, -⟩
  · rw [hsame]
    exact ⟨cur, h.setFencer c trivial⟩
  · rw [show (sealedMetadata m lacs).id = id from hid] at hcur' hwrite
    obtain rfl : cur = cur' := Option.some.inj (h.stored.symm.trans hcur')
    let final := sealedMetadata m lacs
    have hnew : Mirrored fs id (st.writeLedger id final).1 fencers (st.writeLedger id final).2 :=
      h.write hid hv.symm (hfrag hv.symm)
    rw [hwrite]
    exact ⟨_, hnew.setFencer c trivial⟩

end Rows

def Inv (s : State) : Prop :=
  ∃ cur, Mirrored (settled s.writer) s.ledger s.store s.fencers cur

theorem inv_created (h : Created s) : Inv s := by
  obtain ⟨st, o, ensemble, m, hcreate, hwriter⟩ := h.created
  have hfrag : settled s.writer = m.fragments := by
    rw [hwriter]
    rfl
  have hid : s.ledger = m.id := congrArg (fun w : Writer => w.handle.metadata.id) hwriter
  refine ⟨m, ?_, hid.symm, hfrag.symm, fun c f hc => ?_⟩
  · rw [hid]
    exact (Store.createLedger_ok hcreate).2.2
  · rw [h.fencers] at hc
    cases hc

theorem inv_writer {a : WriterAct} (h : Inv s) (hg : putAccepted s (.writer a))
    (hst : WriterStep crc32 s a t) : Inv t := by
  obtain ⟨cur, hcur⟩ := h
  cases hst with
  | append data hpc =>
    have hfs : settled s.writer = s.writer.handle.metadata.fragments := by simp [settled, hpc]
    rw [hfs] at hcur
    refine ⟨cur, ?_⟩
    dsimp only [State.ledger]
    rw [startAppend_settled, startAppend_id]
    exact hcur
  | deliver i d a n hpc hslot =>
    have hfs : settled s.writer = s.writer.handle.metadata.fragments := by simp [settled, hpc]
    rw [hfs] at hcur
    exact ⟨cur, hcur⟩
  | decide a hpc hover =>
    have hfs : settled s.writer = s.writer.handle.metadata.fragments := by simp [settled, hpc]
    rw [hfs] at hcur
    refine ⟨cur, ?_⟩
    dsimp only [State.ledger]
    rw [decideAttempt_settled, (decideAttempt_sameTerm s.writer a).id]
    exact hcur
  | listNodes d a after nodes hpc hnodes =>
    have hfs : settled s.writer = s.writer.handle.metadata.fragments := by simp [settled, hpc]
    rw [hfs] at hcur
    refine ⟨cur, ?_⟩
    dsimp only [State.ledger]
    rw [pushFragment_settled, (pushFragment_sameTerm crc32 s.writer a after nodes).id]
    exact hcur
  | putOk d a after store m hpc hput =>
    obtain ⟨hstore, hm⟩ := putLedger_accepted hput
    have hacc : Accepted s.store d s.writer.handle.metadata := hg
    have hv : s.writer.handle.metadata.version = cur.version := by
      have := hacc.2
      rw [show s.store.ledgers.get s.writer.handle.metadata.id = some cur from hcur.stored] at this
      exact (Option.some.inj this).symm
    refine ⟨m, ?_⟩
    dsimp only [State.ledger]
    rw [endChange_settled, (endChange_sameTerm crc32 _ a after true).id, hstore, hm]
    exact hcur.write rfl hv rfl
  | putErr d a after store e hpc hput =>
    have hacc : Accepted s.store d s.writer.handle.metadata := hg
    rw [put_of_accepted hacc] at hput
    cases hput

theorem inv_fencer {c : Nat} {a : FencerAct} (h : Inv s) (hst : stepFencer s c a = some t) :
    Inv t := by
  obtain ⟨cur, hcur⟩ := h
  unfold stepFencer at hst
  split at hst <;> cases hst
  case h_1 => exact ⟨cur, hcur.setFencer c trivial⟩
  case h_2 d acked hc => exact hcur.transition d c acked
  case h_3 d acked hc => exact ⟨cur, hcur.fallback d c acked⟩
  case h_4 d m n todo lacs acked hc =>
    have hm := hcur.fencers c _ hc
    refine ⟨cur, hcur.setFencer c ?_⟩
    dsimp only
    split
    · exact hm
    · trivial
  case h_5 d m lacs acked hc => exact hcur.seal d hc

theorem inv_step {a : Act} (h : Inv s) (hg : putAccepted s a) (hst : step crc32 s a = some t) :
    Inv t := by
  cases a with
  | writer a => exact inv_writer h hg (stepWriter_cases crc32 hst)
  | fencer c a => exact inv_fencer h hst
  | register n =>
    cases hst
    obtain ⟨cur, hcur⟩ := h
    exact ⟨cur, hcur.stored, hcur.id, hcur.fragments, hcur.fencers⟩
  | expire n =>
    cases hst
    obtain ⟨cur, hcur⟩ := h
    exact ⟨cur, hcur.stored, hcur.id, hcur.fragments, hcur.fencers⟩

theorem nextFragment_eq {next : Nat} {f : Fragment} (hfailed : failed ≠ []) :
    nextFragment listed m failed next = .ok f ↔
      (listed.bind fun nodes => newFragment m failed nodes next) = .ok f := by
  by_cases hfs : m.fragments = []
  · have hnone (nodes : List NodeInfo) :
        newFragment m failed nodes next = .error (.invalidFragment m.id) := by
      simp [newFragment, hfs]
    cases listed <;> simp [nextFragment, hfs, hnone, Except.bind]
  · simp [nextFragment, hfailed, hfs]

theorem pushFragment_of_ok {f : Fragment} (hfailed : a.failed ≠ [])
    (hf : nextFragment listed w.handle.metadata a.failed w.handle.nextEntryId = .ok f) :
    pushFragment crc32 w a after listed =
      { withMetadata w (pushed w.handle.metadata f) with pc := .putting a after } := by
  rw [pushFragment, (nextFragment_eq hfailed).mp hf]
  rfl

theorem pushFragment_of_error {e : FolioError} (hfailed : a.failed ≠ [])
    (hf : nextFragment listed w.handle.metadata a.failed w.handle.nextEntryId = .error e) :
    pushFragment crc32 w a after listed = endChange crc32 w a after false := by
  unfold pushFragment
  split
  · rfl
  · rename_i f hok
    rw [(nextFragment_eq hfailed).mpr hok] at hf
    cases hf

theorem endChange_pc (w : Writer) (pc : WriterPc) (a : Attempt) (after : AfterChange)
    (ok : Bool) : endChange crc32 { w with pc } a after ok = endChange crc32 w a after ok := by
  cases after with
  | done => rfl
  | retry =>
    cases ok with
    | false => rfl
    | true =>
      simp only [endChange, startAttempt]
      split <;> rfl

theorem writer_calls_changeFragment (d d' : Delivery)
    (hpc : s.writer.pc = .listing a after) (hfailed : a.failed ≠ []) :
    ∃ acts o, o = changeFragment (d.send (s.store, .ok s.store.listNodes) s.store).2 s.store d'
        s.writer.handle.metadata a.failed s.writer.handle.nextEntryId ∧
      run (step crc32) s acts = some { s with
        store := o.store
        writer := endChange crc32 (withMetadata s.writer o.ledger) a after o.result.isOk } := by
  have hlist : step crc32 s (.writer (.listNodes d)) = some { s with
      writer := pushFragment crc32 s.writer a after
        (d.send (s.store, .ok s.store.listNodes) s.store).2 } := by
    simp [step, stepWriter, hpc]
  generalize (d.send (s.store, .ok s.store.listNodes) s.store).2 = listed at hlist ⊢
  cases hf : nextFragment listed s.writer.handle.metadata a.failed s.writer.handle.nextEntryId with
  | error e =>
    -- the call ends before its `put_ledger`
    refine ⟨[.writer (.listNodes d)], _, rfl, ?_⟩
    rw [run, hlist]
    simp [run, changeFragment, hf, pushFragment_of_error hfailed hf]
    rfl
  | ok f =>
    refine ⟨[.writer (.listNodes d), .writer (.putLedger d')], _, rfl, ?_⟩
    rw [run, hlist, pushFragment_of_ok hfailed hf]
    simp only [Option.bind_some, run, step, stepWriter, changeFragment, hf]
    rw [show (withMetadata s.writer (pushed s.writer.handle.metadata f)).handle.metadata =
      pushed s.writer.handle.metadata f from rfl]
    generalize d'.send (s.store.putLedger (pushed s.writer.handle.metadata f)) s.store = r
    obtain ⟨st, result⟩ := r
    have hend (m : LedgerMetadata) (ok : Bool) :=
      @endChange_pc crc32 (withMetadata s.writer m) (.putting a after) a after ok
    cases result with
    | error e =>
      exact congrArg (fun w => some { s with store := st, writer := w })
        (hend (pushed s.writer.handle.metadata f) false)
    | ok m => exact congrArg (fun w => some { s with store := st, writer := w }) (hend m true)

/-- A call is atomic exactly if its `put_ledger` is accepted or not reached. In runs whose
calls are all accepted, the store has every fragment of the handle. -/
theorem change_fragment_atomic (crc32 : Bytes → UInt32) :
    (∀ listed st d ledger failed next,
      Atomic ledger (changeFragment listed st d ledger failed next) ↔
        ∀ f, nextFragment listed ledger failed next = .ok f → Accepted st d ledger) ∧
    ∀ s, Reach (guarded putAccepted (step crc32)) Created s →
      (∀ a after, s.writer.pc ≠ .putting a after) →
      ∃ cur, s.store.ledgers.get s.ledger = some cur ∧
        ∀ f ∈ s.writer.handle.metadata.fragments, f ∈ cur.fragments := by
  refine ⟨atomic_iff, fun s hs hpc => ?_⟩
  have hinv : Inv s := by
    refine Reach.invariant (P := Inv) (fun _ => inv_created) (fun s a t hs hst => ?_) hs
    obtain ⟨hg, hst⟩ := (guarded_eq_some putAccepted).mp hst
    exact inv_step hs hg hst
  obtain ⟨cur, hcur⟩ := hinv
  have hfs : settled s.writer = s.writer.handle.metadata.fragments := by
    unfold settled
    split
    · exact absurd ‹_› (hpc _ _)
    · rfl
  refine ⟨cur, hcur.stored, fun f hf => ?_⟩
  rw [hcur.fragments, hfs]
  exact hf

def isIdle (w : Writer) : Bool :=
  match w.pc with
  | .idle => true
  | _ => false

theorem idle_of_isIdle (h : isIdle w = true) : w.pc = .idle := by
  unfold isIdle at h
  split at h
  · assumption
  · cases h

theorem oneNode_created (nodes : Table NodeId NodeStatus) : Created (newCluster oneNode nodes) where
  created := ⟨⟨0, .empty, nodes⟩, ⟨1, 1, 1⟩, ["n0"], oneNode, rfl, rfl⟩
  fencers := rfl

/-- The only node is down, and the change to the spare goes through. -/
theorem accepted_change_stored :
    ∃ s cur, Reach (guarded putAccepted (step Crc32.crc32)) Created s ∧
      s.writer.handle.metadata.fragments.map Fragment.ensemble = [["n0"], ["n1"]] ∧
      s.store.ledgers.get s.ledger = some cur ∧
      ∀ f ∈ s.writer.handle.metadata.fragments, f ∈ cur.fragments := by
  obtain ⟨s, hreach, hfrag, hidle⟩ := reach_check (guarded putAccepted (step Crc32.crc32))
    (oneNode_created (Table.empty.put "n1" .ReadWrite))
    (fun s => s.writer.handle.metadata.fragments.map Fragment.ensemble = [["n0"], ["n1"]] ∧
      isIdle s.writer = true)
    (appendActs [1] [unreachable] ++
      [.writer (.listNodes .delivered), .writer (.putLedger .delivered),
        .writer (.deliver 0 .delivered), .writer .decide])
    (by decide +kernel)
  obtain ⟨cur, hcur, hall⟩ := (change_fragment_atomic Crc32.crc32).2 s hreach fun a after hpc => by
    rw [idle_of_isIdle hidle] at hpc
    cases hpc
  exact ⟨s, cur, hreach, hfrag, hcur, hall⟩

/-- The `put_ledger` finds a newer version, or its request is lost: the caller keeps the
fragment it has pushed, and the handle goes on with it. -/
theorem refused_change_kept :
    ((changeFragment (.ok [⟨"n1", .ReadWrite⟩])
        ⟨1, Table.empty.put 1 { oneNode with version := 2 }, .empty⟩ .delivered oneNode
        ["n0"] 0).result = .error .casConflict ∧
      (changeFragment (.ok [⟨"n1", .ReadWrite⟩])
        ⟨1, Table.empty.put 1 { oneNode with version := 2 }, .empty⟩ .delivered oneNode
        ["n0"] 0).ledger.fragments.map Fragment.ensemble = [["n0"], ["n1"]]) ∧
    ∃ s, Reach (step Crc32.crc32) Created s ∧ s.writer.pc = .idle ∧
      s.writer.handle.metadata.fragments.map Fragment.ensemble = [["n0"], ["n1"]] ∧
      (s.store.ledgers.get s.ledger).map (fun m => m.fragments.map Fragment.ensemble) =
        some [["n0"]] := by
  refine ⟨⟨by decide +kernel, by decide +kernel⟩, ?_⟩
  obtain ⟨s, hreach, hidle, hfrag⟩ := reach_check (step Crc32.crc32)
    (oneNode_created (Table.empty.put "n1" .ReadWrite))
    (fun s => isIdle s.writer = true ∧
      s.writer.handle.metadata.fragments.map Fragment.ensemble = [["n0"], ["n1"]] ∧
      (s.store.ledgers.get s.ledger).map (fun m => m.fragments.map Fragment.ensemble) =
        some [["n0"]])
    (appendActs [1] [unreachable] ++
      [.writer (.listNodes .delivered), .writer (.putLedger unreachable)])
    (by decide +kernel)
  exact ⟨s, hreach, idle_of_isIdle hidle, hfrag⟩

end Runs
end Folio.ChangeFragment
