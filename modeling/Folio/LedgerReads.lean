import Folio.AppendIntegrity
import Folio.HedgedRead

/-! `LedgerHandle::read` with its hedged calls, on the handle that has written the ledger. -/
namespace Folio.LedgerReads
open KeyedTable Protocol LedgerClient TransitionSystem Cluster AppendIntegrity HedgedRead

section Reads

def clientsOf (resolves : NodeId → Bool) (fragment : Fragment) : List NodeId :=
  fragment.ensemble.filter resolves

def answersOf (clients : List NodeId) (answers : NodeId → Option (Except FolioError Entry)) :
    Answers Entry :=
  fun i => clients[i]?.bind answers

/-- What `read` can return, where `answers` is what each node answers, if it answers at all. -/
inductive ReadReturns (select : SelectOk Entry) (h : LedgerHandle) (resolves : NodeId → Bool)
    (answers : NodeId → Option (Except FolioError Entry)) (hedgeDelay entryId : Nat) :
    Except FolioError Bytes → Prop
  | empty (hlast : h.metadata.lastEntryId = none) :
      ReadReturns select h resolves answers hedgeDelay entryId
        (.error (.entryNotFound h.metadata.id entryId))
  | unconfirmed {last : Nat} (hlast : h.metadata.lastEntryId = some last)
      (hpast : entryId > last ∨ entryId > h.lac) :
      ReadReturns select h resolves answers hedgeDelay entryId
        (.error (.entryNotFound h.metadata.id entryId))
  | noFragment {last : Nat} (hlast : h.metadata.lastEntryId = some last)
      (hconfirmed : ¬(entryId > last ∨ entryId > h.lac))
      (howner : LedgerHandle.owner h.metadata.fragments entryId = none) :
      ReadReturns select h resolves answers hedgeDelay entryId
        (.error (.invalidFragment h.metadata.id))
  | asked {last : Nat} {fragment : Fragment} {r : Except FolioError Entry}
      (hlast : h.metadata.lastEntryId = some last)
      (hconfirmed : ¬(entryId > last ∨ entryId > h.lac))
      (howner : LedgerHandle.owner h.metadata.fragments entryId = some fragment)
      (hread : Returns select h.metadata.id entryId (clientsOf resolves fragment).length hedgeDelay
        (answersOf (clientsOf resolves fragment) answers) r) :
      ReadReturns select h resolves answers hedgeDelay entryId (r.map Entry.data)

/-- An answer is what the node has, or an error on the way; a node may also give none. -/
def Truthful (s : State) (entryId : Nat)
    (answers : NodeId → Option (Except FolioError Entry)) : Prop :=
  ∀ n e, answers n = some (.ok e) → (s.replica n).readEntry s.ledger entryId = .ok e

def Answering (s : State) (entryId : Nat) (resolves : NodeId → Bool)
    (answers : NodeId → Option (Except FolioError Entry)) (n : NodeId) : Prop :=
  resolves n = true ∧ answers n = some ((s.replica n).readEntry s.ledger entryId)

end Reads

section Confirmed
variable {crc32 : Bytes → UInt32} {s t : State} {w : Writer}

structure Confirmed (h : LedgerHandle) : Prop where
  last : ∀ id < h.nextEntryId, ∃ last, h.metadata.lastEntryId = some last ∧ id ≤ last ∧ id ≤ h.lac

theorem confirmed_commit (h : LedgerHandle) (acks : List AppendAck) :
    Confirmed (h.commit acks h.nextEntryId) where
  last id hid := by
    have hle : id ≤ h.nextEntryId := Nat.le_of_lt_succ hid
    exact ⟨h.nextEntryId, rfl, hle, hle.trans (Nat.le_max_right _ _)⟩

theorem Confirmed.of_eq {h h' : LedgerHandle} (hc : Confirmed h)
    (hnext : h'.nextEntryId = h.nextEntryId) (hlac : h'.lac = h.lac)
    (hlast : h'.metadata.lastEntryId = h.metadata.lastEntryId) : Confirmed h' where
  last id hid := by
    rw [hlast, hlac]
    exact hc.last id (hnext ▸ hid)

theorem Confirmed.startAttempt (h : Confirmed w.handle) (number : Nat)
    (data : Bytes) : Confirmed (startAttempt crc32 w number data).handle := by
  unfold Cluster.startAttempt
  split <;> exact h

theorem Confirmed.endChange (h : Confirmed w.handle) (a : Attempt)
    (after : AfterChange) (ok : Bool) : Confirmed (endChange crc32 w a after ok).handle := by
  unfold Cluster.endChange
  split
  · exact h
  · exact h.startAttempt _ _
  · exact h

theorem Confirmed.pushFragment (h : Confirmed w.handle) (a : Attempt)
    (after : AfterChange) (nodes : Except FolioError (List NodeInfo)) :
    Confirmed (pushFragment crc32 w a after nodes).handle := by
  unfold Cluster.pushFragment
  split
  · exact h.endChange _ _ _
  · exact h.of_eq rfl rfl rfl

theorem Confirmed.decideAttempt {a : Attempt} (h : Confirmed w.handle)
    (hid : a.entry.entryId = w.handle.nextEntryId) : Confirmed (decideAttempt w a).handle := by
  have hcommit := confirmed_commit w.handle a.acks
  rw [← hid] at hcommit
  unfold Cluster.decideAttempt
  split_ifs
  · exact h
  · exact hcommit
  · exact hcommit
  · exact h
  · exact h

theorem Confirmed.writer {a : WriterAct} (h : Confirmed s.writer.handle) (hinv : Inv s)
    (hst : WriterStep crc32 s a t) : Confirmed t.writer.handle := by
  cases hst with
  | append data hpc =>
    change Confirmed (startAppend _ _ _ _).handle
    unfold startAppend
    dsimp only
    split
    · exact h
    · refine Confirmed.startAttempt ?_ 0 data
      exact h
  | deliver i d a n hpc hslot => exact h
  | decide a hpc hover =>
    have hsending : PcInv (dataAt s.replica) s.writer.handle s.writer.pc := hinv.pc
    rw [hpc] at hsending
    exact h.decideAttempt (congrArg Prod.snd hsending.key)
  | listNodes d a after nodes hpc hnodes => exact h.pushFragment _ _ _
  | putOk d a after store m hpc hput =>
    obtain ⟨-, rfl⟩ := putLedger_accepted hput
    refine Confirmed.endChange ?_ a after true
    exact h.of_eq rfl rfl rfl
  | putErr d a after store e hpc hput => exact h.endChange _ _ _

theorem confirmed_created (h : Created s) : Confirmed s.writer.handle := by
  obtain ⟨⟨st, o, ensemble, m, hcreate, -, hw⟩, -⟩ := h
  rw [hw]
  obtain ⟨-, rfl, -⟩ := Metadata.Store.createLedger_ok hcreate
  exact ⟨fun id hid => absurd hid (Nat.not_lt_zero id)⟩

theorem inv_confirmed (h : Reach (guarded freshId (step crc32)) Created s) :
    Inv s ∧ Confirmed s.writer.handle := by
  refine Reach.invariant (P := fun s => Inv s ∧ Confirmed s.writer.handle)
    (fun _ hc => ⟨inv_created hc, confirmed_created hc⟩) (fun s a t hs hst => ?_) h
  obtain ⟨hg, hst⟩ := (guarded_eq_some freshId).mp hst
  refine ⟨inv_step hs.1 hg hst, ?_⟩
  cases a with
  | writer a => exact hs.2.writer hs.1 (stepWriter_cases crc32 hst)
  | fencer c a => exact (stepFencer_frame hst).1 ▸ hs.2
  | register n =>
    cases hst
    exact hs.2
  | expire n =>
    cases hst
    exact hs.2

end Confirmed

section Quorum
variable {s : State} {id : Nat} {data : Bytes} {f : Fragment} {resolves : NodeId → Bool}
  {answers : NodeId → Option (Except FolioError Entry)} {hedgeDelay : Nat} {n : NodeId}

theorem readEntry_of_dataAt (h : dataAt s.replica s.ledger n id = some data) :
    ∃ e, (s.replica n).readEntry s.ledger id = .ok e ∧ e.data = data := by
  obtain ⟨e, he, rfl⟩ := Option.map_eq_some_iff.mp h
  refine ⟨e, ?_, rfl⟩
  unfold Replica.readEntry
  rw [he]

theorem dataAt_of_readEntry {e : Entry} (h : (s.replica n).readEntry s.ledger id = .ok e) :
    dataAt s.replica s.ledger n id = some e.data := by
  unfold Replica.readEntry at h
  unfold dataAt
  split at h
  · rename_i e' he
    cases h
    rw [he]
    rfl
  · cases h

theorem holder_outside {down : List NodeId} (hnodup : f.ensemble.Nodup)
    (hquorum : f.ackQuorum ≤ (holders (dataAt s.replica) s.ledger id data f).length)
    (hfew : down.length < f.ackQuorum) :
    ∃ n ∈ f.ensemble, n ∉ down ∧ dataAt s.replica s.ledger n id = some data := by
  by_contra hnone
  have hsub : holders (dataAt s.replica) s.ledger id data f ⊆ down := by
    intro n hn
    obtain ⟨hmem, hheld⟩ := List.mem_filter.mp hn
    by_contra hout
    exact hnone ⟨n, hmem, hout, of_decide_eq_true hheld⟩
  have hle : (holders (dataAt s.replica) s.ledger id data f).length ≤ down.length :=
    (hnodup.filter _).length_le_of_subset hsub
  exact absurd (hquorum.trans hle) (Nat.not_le.mpr hfew)

theorem client_answers (hn : n ∈ f.ensemble) (hanswer : Answering s id resolves answers n)
    (hheld : dataAt s.replica s.ledger n id = some data) :
    ∃ i < (clientsOf resolves f).length, ∃ e,
      answersOf (clientsOf resolves f) answers i = some (.ok e) := by
  obtain ⟨e, he, -⟩ := readEntry_of_dataAt hheld
  obtain ⟨i, hi⟩ := List.mem_iff_getElem?.mp (List.mem_filter.mpr ⟨hn, hanswer.1⟩)
  refine ⟨i, (List.getElem?_eq_some_iff.mp hi).1, e, ?_⟩
  unfold answersOf clientsOf
  rw [hi, ← he]
  exact hanswer.2

theorem answersOf_ok {i : Nat} {e : Entry} {clients : List NodeId}
    (h : answersOf clients answers i = some (.ok e)) :
    ∃ n ∈ clients, answers n = some (.ok e) := by
  obtain ⟨n, hn, ha⟩ := Option.bind_eq_some_iff.mp h
  exact ⟨n, List.mem_of_getElem? hn, ha⟩

end Quorum

section Results
variable {crc32 : Bytes → UInt32} {s : State} {select : SelectOk Entry}

theorem read_of_quorum {h : LedgerHandle} {id : Nat} {data : Bytes} {f : Fragment}
    (hconfirmed : ∃ last, h.metadata.lastEntryId = some last ∧ id ≤ last ∧ id ≤ h.lac)
    (howner : LedgerHandle.owner h.metadata.fragments id = some f) (hnodup : f.ensemble.Nodup)
    (hquorum : f.ackQuorum ≤ (holders (dataAt s.replica) s.ledger id data f).length)
    (hsame : ∀ n d, dataAt s.replica s.ledger n id = some d → d = data)
    {resolves : NodeId → Bool} {answers : NodeId → Option (Except FolioError Entry)}
    (htruth : Truthful s id answers)
    (hup : ∃ down : List NodeId, down.length < f.ackQuorum ∧
      ∀ n ∈ f.ensemble, n ∈ down ∨ Answering s id resolves answers n) (hedgeDelay : Nat) :
    (∀ result, ReadReturns select h resolves answers hedgeDelay id result → result = .ok data) ∧
    (0 < hedgeDelay → ReadReturns select h resolves answers hedgeDelay id (.ok data)) := by
  obtain ⟨last, hlast, hle, hlac⟩ := hconfirmed
  have hbounds : ¬(id > last ∨ id > h.lac) := by omega
  obtain ⟨down, hfew, hanswering⟩ := hup
  obtain ⟨n, hn, hout, hheld⟩ := holder_outside hnodup hquorum hfew
  have hanswers := (hanswering n hn).resolve_left hout
  obtain ⟨i, hi, e, he⟩ := client_answers hn hanswers hheld
  -- any answer that counts is that of a truthful node, and no node holds other data
  have hdata : ∀ r, Returns select h.metadata.id id (clientsOf resolves f).length hedgeDelay
      (answersOf (clientsOf resolves f) answers) r → r.map Entry.data = .ok data := by
    intro r hread
    obtain ⟨hok, herror⟩ := returns_exact hread
    cases r with
    | ok e' =>
      obtain ⟨j, -, hj⟩ := hok e' rfl
      obtain ⟨m, -, hm⟩ := answersOf_ok hj
      exact congrArg Except.ok (hsame m e'.data (dataAt_of_readEntry (htruth m e' hm)))
    | error err =>
      obtain ⟨err', herr⟩ := herror err rfl i hi
      rw [he] at herr
      cases herr
  constructor
  · intro result hread
    cases hread with
    | empty hnone => rw [hlast] at hnone; cases hnone
    | unconfirmed hlast' hpast =>
      rw [hlast] at hlast'
      cases hlast'
      exact absurd hpast hbounds
    | noFragment _ _ hnone => rw [howner] at hnone; cases hnone
    | asked _ _ howner' hread =>
      rw [howner] at howner'
      cases howner'
      exact hdata _ hread
  · intro hdelay
    obtain ⟨b, hb⟩ : ∃ b, Returns select h.metadata.id id (clientsOf resolves f).length hedgeDelay
        (answersOf (clientsOf resolves f) answers) (.ok b) := returns_of_ok hdelay hi he
    have hreturn := ReadReturns.asked hlast hbounds howner hb
    rwa [hdata _ hb] at hreturn

/-- Whatever an append of the handle has been acknowledged for can be read through it while less
than an ack quorum of the members of its fragment are down: no read returns anything else, and
with a hedge delay no member that hangs keeps it from returning. -/
theorem acknowledged_append_readable (h : Reach (guarded freshId (step crc32)) Created s)
    {r : Reply} (hr : r ∈ s.writer.replies) {id : Nat} (hid : r.result = .ok id)
    {resolves : NodeId → Bool} {answers : NodeId → Option (Except FolioError Entry)}
    (htruth : Truthful s id answers)
    (hup : ∀ f, LedgerHandle.owner s.writer.handle.metadata.fragments id = some f →
      ∃ down : List NodeId, down.length < f.ackQuorum ∧
        ∀ n ∈ f.ensemble, n ∈ down ∨ Answering s id resolves answers n) (hedgeDelay : Nat) :
    (∀ result, ReadReturns select s.writer.handle resolves answers hedgeDelay id result →
      result = .ok r.data) ∧
    (0 < hedgeDelay →
      ReadReturns select s.writer.handle resolves answers hedgeDelay id (.ok r.data)) := by
  obtain ⟨hinv, hconf⟩ := inv_confirmed h
  have hcommitted := hinv.replies r hr id hid
  obtain ⟨f, howner, hnodup, hquorum⟩ := hcommitted.quorum
  exact read_of_quorum (hconf.last id hcommitted.past) howner hnodup hquorum hcommitted.same
    htruth (hup f howner) hedgeDelay

def allBut (s : State) (down : NodeId) (id : Nat) (n : NodeId) : Option (Except FolioError Entry) :=
  if n = down then none else some ((s.replica n).readEntry s.ledger id)

theorem allBut_truthful (s : State) (down : NodeId) (id : Nat) :
    Truthful s id (allBut s down id) := by
  intro n e he
  unfold allBut at he
  split_ifs at he
  exact Option.some.inj he

theorem allBut_answering (s : State) (down : NodeId) (id : Nat) (n : NodeId) :
    n ∈ [down] ∨ Answering s id (fun _ => true) (allBut s down id) n := by
  by_cases hn : n = down
  · exact .inl (List.mem_singleton.mpr hn)
  · exact .inr ⟨rfl, if_neg hn⟩

/-- One of three nodes has missed the append and one of the other two hangs. -/
theorem append_read_past_hanging_node :
    ∃ s, Reach (guarded freshId (step Crc32.crc32)) Created s ∧
      ⟨[1], false, .ok 0⟩ ∈ s.writer.replies ∧
      ReadReturns (inOrder Entry) s.writer.handle (fun _ => true) (allBut s "n0" 0) 5 0
        (.ok [1]) := by
  obtain ⟨s, hreach, hmem, hquorum⟩ := reach_check (guarded freshId (step Crc32.crc32))
    (threeNodes_created (Table.empty.put "n3" .ReadWrite))
    (fun s => ⟨[1], false, .ok 0⟩ ∈ s.writer.replies ∧
      (LedgerHandle.owner s.writer.handle.metadata.fragments 0).map Fragment.ackQuorum = some 2)
    [.writer (.append [1]), .writer (.deliver 1 .delivered), .writer (.deliver 2 unreachable),
      .writer (.deliver 0 .delivered), .writer .decide, .writer (.listNodes .delivered),
      .writer (.putLedger .delivered)]
    (by decide +kernel)
  refine ⟨s, hreach, hmem, ?_⟩
  refine (acknowledged_append_readable hreach hmem rfl (allBut_truthful s "n0" 0) ?_ 5).2
    (by decide)
  intro f hf
  rw [hf] at hquorum
  refine ⟨["n0"], ?_, fun n _ => allBut_answering s "n0" 0 n⟩
  rw [Option.some.inj hquorum]
  decide

end Results
end Folio.LedgerReads
