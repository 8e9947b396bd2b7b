import Folio.AppendAvailability
import Folio.LedgerReads
import Folio.Recovery

/-! A ledger that passes from a writer to readers through a `seal_ledger`: they find everything
that the writer has been acknowledged for. -/
namespace Folio.Handoff
open KeyedTable Protocol Metadata LedgerClient TransitionSystem Cluster AppendIntegrity LedgerReads
open RemoteProgram
open FencingSafety (putAccepted)
open HedgedRead (SelectOk inOrder)
open Recovery (World perform sealLedger)

section Later
variable {crc32 : Bytes → UInt32} {s t : State}

structure Later (s t : State) : Prop where
  ledger : t.ledger = s.ledger
  held : ∀ n id d, dataAt s.replica s.ledger n id = some d →
    dataAt t.replica s.ledger n id = some d
  replies : ∀ r ∈ s.writer.replies, r ∈ t.writer.replies

theorem Later.refl (s : State) : Later s s := ⟨rfl, fun _ _ _ h => h, fun _ h => h⟩

theorem Later.trans {u : State} (h : Later s t) (h' : Later t u) : Later s u where
  ledger := h'.ledger.trans h.ledger
  held n id d hd := by
    have ht := h.held n id d hd
    rw [← h.ledger] at ht ⊢
    exact h'.held n id d ht
  replies r hr := h'.replies r (h.replies r hr)

theorem later_of_same (hl : t.ledger = s.ledger) (hr : ∀ n, (t.replica n).entries =
    (s.replica n).entries) (hreplies : ∀ r ∈ s.writer.replies, r ∈ t.writer.replies) :
    Later s t where
  ledger := hl
  held n id d hd := by
    unfold dataAt at hd ⊢
    rw [hr]
    exact hd
  replies := hreplies

theorem startAttempt_replies (w : Writer) (number : Nat) (data : Bytes) :
    w.replies <:+ (startAttempt crc32 w number data).replies := by
  unfold startAttempt
  split
  · exact List.suffix_cons _ _
  · exact List.suffix_rfl

theorem endChange_replies (w : Writer) (a : Attempt) (after : AfterChange) (ok : Bool) :
    w.replies <:+ (endChange crc32 w a after ok).replies := by
  unfold endChange
  split
  · exact List.suffix_cons _ _
  · exact startAttempt_replies w _ _
  · exact List.suffix_cons _ _

theorem pushFragment_replies (w : Writer) (a : Attempt) (after : AfterChange)
    (nodes : Except FolioError (List NodeInfo)) :
    w.replies <:+ (pushFragment crc32 w a after nodes).replies := by
  unfold pushFragment
  split
  · exact endChange_replies w a after false
  · exact List.suffix_rfl

theorem decideAttempt_replies (w : Writer) (a : Attempt) :
    w.replies <:+ (decideAttempt w a).replies := by
  unfold decideAttempt
  split_ifs
  · exact List.suffix_cons _ _
  · exact List.suffix_rfl
  · exact List.suffix_cons _ _
  · exact List.suffix_rfl
  · exact List.suffix_cons _ _

theorem startAppend_replies (w : Writer) (data : Bytes) (afterSeal : Bool) :
    w.replies <:+ (startAppend crc32 w data afterSeal).replies := by
  unfold startAppend
  dsimp only
  split_ifs
  · exact List.suffix_cons _ _
  · exact startAttempt_replies { w with afterSeal } 0 data

theorem writer_later {a : WriterAct} (hst : WriterStep crc32 s a t) : Later s t := by
  have hsame {w : Writer} (hterm : SameTerm s.writer w) (hreplies : s.writer.replies <:+ w.replies)
      (st : Store) : Later s { s with store := st, writer := w } :=
    later_of_same hterm.id (fun _ => rfl) fun r hr => hreplies.subset hr
  cases hst with
  | append data hpc =>
    exact later_of_same (AppendAnswers.startAppend_sameTerm s.writer data _).id (fun _ => rfl)
      fun r hr => (startAppend_replies s.writer data _).subset hr
  | deliver i d a n hpc hslot =>
    refine ⟨rfl, fun n' id b hb => ?_, fun r hr => hr⟩
    rcases deliver_dataAt crc32 s n n' a.entry d _ (s.ledger, id) with hkeep | ⟨-, hnone, -⟩
    · exact hkeep.trans hb
    · rw [hb] at hnone
      cases hnone
  | decide a hpc hover => exact hsame (decideAttempt_sameTerm _ a) (decideAttempt_replies _ a) _
  | listNodes d a after nodes hpc hnodes =>
    exact hsame (pushFragment_sameTerm crc32 _ a after nodes)
      (pushFragment_replies _ a after nodes) _
  | putOk d a after store m hpc hput =>
    obtain ⟨-, rfl⟩ := putLedger_accepted hput
    refine later_of_same ?_ (fun _ => rfl) fun r hr => ?_
    · exact (endChange_sameTerm crc32 (withMetadata s.writer _) a after true).id
    · exact (endChange_replies (withMetadata s.writer _) a after true).subset hr
  | putErr d a after store e hpc hput =>
    exact hsame (endChange_sameTerm crc32 _ a after false) (endChange_replies _ a after false) _

theorem step_later {a : Act} (hst : step crc32 s a = some t) : Later s t := by
  cases a with
  | writer a => exact writer_later (stepWriter_cases crc32 hst)
  | fencer c a =>
    obtain ⟨hw, hframe⟩ := stepFencer_frame hst
    refine later_of_same ?_ (fun n => (hframe n).1) ?_
    · unfold State.ledger
      rw [hw]
    · rw [hw]
      exact fun r hr => hr
  | register n =>
    cases hst
    exact later_of_same rfl (fun _ => rfl) fun _ hr => hr
  | expire n =>
    cases hst
    exact later_of_same rfl (fun _ => rfl) fun _ hr => hr

end Later

section Sealed
variable {crc32 : Bytes → UInt32} {s t : State}

/-- No append meets other data under its id, and every `put_ledger` of the handle is accepted. -/
def Orderly (s : State) (a : Act) : Prop := freshId s a ∧ putAccepted s a

instance (s : State) (a : Act) : Decidable (Orderly s a) :=
  inferInstanceAs (Decidable (freshId s a ∧ putAccepted s a))

/-- Every read of the id returns the data while less than an ack quorum of the members of its
fragment are down, and with a hedge delay it does return. -/
def Readable (s : State) (h : LedgerHandle) (id : Nat) (data : Bytes) : Prop :=
  ∀ (select : SelectOk Entry) (resolves : NodeId → Bool)
    (answers : NodeId → Option (Except FolioError Entry)), Truthful s id answers →
    (∀ f, LedgerHandle.owner h.metadata.fragments id = some f →
      ∃ down : List NodeId, down.length < f.ackQuorum ∧
        ∀ n ∈ f.ensemble, n ∈ down ∨ Answering s id resolves answers n) →
    ∀ hedgeDelay,
      (∀ result, ReadReturns select h resolves answers hedgeDelay id result →
        result = .ok data) ∧
      (0 < hedgeDelay → ReadReturns select h resolves answers hedgeDelay id (.ok data))

theorem readable_later {h : LedgerHandle} {id : Nat} {data : Bytes} (hlater : Later s t)
    (hthen : Committed (dataAt s.replica) s.writer.handle id data)
    (hnow : Committed (dataAt t.replica) t.writer.handle id data)
    (hfragments : h.metadata.fragments = s.writer.handle.metadata.fragments)
    (hconfirmed : ∃ last, h.metadata.lastEntryId = some last ∧ id ≤ last ∧ id ≤ h.lac) :
    Readable t h id data := by
  intro select resolves answers htruth hup hedgeDelay
  obtain ⟨f, howner, hnodup, hquorum⟩ := hthen.quorum
  rw [← hfragments] at howner
  refine read_of_quorum hconfirmed howner hnodup (hquorum.trans ?_) hnow.same htruth
    (hup f howner) hedgeDelay
  -- a holder of the earlier state still holds it
  refine (List.monotone_filter_right f.ensemble fun n hn => ?_).length_le
  have hheld := hlater.held n id data (of_decide_eq_true hn)
  rw [← hlater.ledger] at hheld
  exact decide_eq_true hheld

theorem invs_of_reach (h : Reach (guarded Orderly (step crc32)) Created s) :
    AppendIntegrity.Inv s ∧ ChangeFragment.Inv s := by
  refine Reach.invariant (P := fun s => AppendIntegrity.Inv s ∧ ChangeFragment.Inv s)
    (fun s hs => ⟨inv_created hs, ChangeFragment.inv_created ?_⟩) (fun s a t hs hst => ?_) h
  · obtain ⟨⟨st, o, ensemble, m, hcreate, -, hw⟩, hfencers⟩ := hs
    exact ⟨⟨st, o, ensemble, m, hcreate, hw⟩, hfencers⟩
  · obtain ⟨⟨hfresh, hput⟩, hst⟩ := (guarded_eq_some Orderly).mp hst
    exact ⟨inv_step hs.1 hfresh hst, ChangeFragment.inv_step hs.2 hput hst⟩

theorem reach_later (h : Reach (guarded freshId (step crc32)) (· = s) t)
    (hinv : AppendIntegrity.Inv s) : AppendIntegrity.Inv t ∧ Later s t := by
  refine Reach.invariant (P := fun t => AppendIntegrity.Inv t ∧ Later s t) (fun t ht => ?_)
    (fun t a u ht hst => ?_) h
  · rw [ht]
    exact ⟨hinv, .refl s⟩
  · obtain ⟨hg, hst⟩ := (guarded_eq_some freshId).mp hst
    exact ⟨inv_step ht.1 hg hst, ht.2.trans (step_later hst)⟩

def closed (m : LedgerMetadata) (finalLac : Nat) : LedgerMetadata :=
  { m with state := .Closed, lastAddConfirmed := finalLac, lastEntryId := some finalLac }

theorem sealLedger_run {w : World} {cur : LedgerMetadata}
    (hget : w.store.ledgers.get cur.id = some cur) (hopen : cur.state ≠ .Closed)
    (finalLac : Nat) :
    Prog.run (I := Recovery.Service) (perform crc32) (sealLedger cur.id finalLac) w =
      ({ w with store := (w.store.writeLedger cur.id (closed cur finalLac)).1 }, .ok ()) := by
  have hread : Prog.run (I := Recovery.Service) (perform crc32) (Recovery.getLedger cur.id) w =
      (w, .ok cur) := by
    change (w, w.store.getLedger cur.id) = (w, .ok cur)
    unfold Store.getLedger
    rw [hget]
  have hput : Prog.run (I := Recovery.Service) (perform crc32)
      (Recovery.putLedger (closed cur finalLac)) w =
      ({ w with store := (w.store.writeLedger cur.id (closed cur finalLac)).1 },
        .ok (w.store.writeLedger cur.id (closed cur finalLac)).2) := by
    change Recovery.withStore w (w.store.putLedger (closed cur finalLac)) = _
    have hrow : w.store.ledgers.get (closed cur finalLac).id = some cur := hget
    unfold Store.putLedger
    rw [hrow]
    dsimp only
    rw [if_neg fun hv => hv rfl]
    rfl
  unfold sealLedger
  rw [Prog.run_bind_of_ok (I := Recovery.Service) _ hread, if_neg hopen]
  exact Prog.run_bind_of_ok (I := Recovery.Service) _ hput

def sealedStore (s : State) : Store :=
  (Prog.run (I := Recovery.Service) (perform Crc32.crc32) (sealLedger s.ledger 0)
    ⟨s.store, s.replicas, []⟩).1.store

end Sealed

end Folio.Handoff
