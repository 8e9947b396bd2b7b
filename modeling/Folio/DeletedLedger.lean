import Folio.EtcdLinearized

/-! A ledger that has been deleted from etcd stays deleted, whatever the clients still have in
flight: no id is allocated twice, so no ledger is inserted twice, and an update finds nothing. -/
namespace Folio.DeletedLedger
open KeyedTable Protocol Metadata RevisionStore Linearization TransitionSystem EtcdStore

def inserted? : MemOp → Option Nat
  | .insertLedger m => some m.id
  | _ => none

def written? : MemOp → Option Nat
  | .putLedger m => some m.id
  | .transitionState ledgerId _ _ => some ledgerId
  | op => inserted? op

section InMemory
variable {st fin : Store} {op : MemOp} {v : MemValue} {log : List (Nat × MemOp)}
  {hist : List (Nat × MemOp × MemValue)} {n : Nat}

theorem writeLedger_elsewhere {id : Nat} {cur : LedgerMetadata} (m : LedgerMetadata)
    (hcur : st.ledgers.get id = some cur) (hnone : st.ledgers.get n = none) :
    (st.writeLedger id m).1.ledgers.get n = none ∧ some id ≠ some n := by
  have hne : n ≠ id := by
    intro heq
    rw [heq, hcur] at hnone
    cases hnone
  exact ⟨(Table.get_put_ne _ _ hne).trans hnone, fun heq => hne (Option.some.inj heq).symm⟩

theorem accepted_absent (h : op.accepted st = some (fin, v)) (hnone : st.ledgers.get n = none)
    (hop : inserted? op ≠ some n) : fin.ledgers.get n = none ∧ written? op ≠ some n := by
  have happly := accepted_eq h
  cases op with
  | nextLedgerId =>
    cases happly
    exact ⟨hnone, hop⟩
  | insertLedger m =>
    cases happly
    have hne : n ≠ m.id := fun heq => hop (congrArg some heq.symm)
    exact ⟨(Table.get_put_ne _ _ hne).trans hnone, hop⟩
  | putLedger m =>
    rcases st.putLedger_cases m with ⟨cur, hcur, -, hput⟩ | ⟨err, hput⟩
    · simp only [MemOp.apply, hput] at happly
      cases happly
      exact writeLedger_elsewhere m hcur hnone
    · simp [MemOp.apply, hput, Except.map] at happly
  | transitionState id expected next =>
    rcases st.transitionState_cases id expected next with ⟨cur, hcur, htrans⟩ | ⟨err, htrans⟩
    · simp only [MemOp.apply, htrans] at happly
      cases happly
      exact writeLedger_elsewhere _ hcur hnone
    · simp [MemOp.apply, htrans, Except.map] at happly
  | deleteLedger id =>
    cases happly
    refine ⟨?_, hop⟩
    rw [Store.deleteLedger, Table.get_del, hnone, ite_self]

theorem replay_origin (h : replay MemOp.accepted st log = some (fin, hist))
    (hthere : fin.ledgers.get n ≠ none) :
    st.ledgers.get n ≠ none ∨ ∃ x ∈ hist, inserted? x.2.1 = some n := by
  induction log generalizing st hist with
  | nil =>
    cases h
    exact .inl hthere
  | cons x xs ih =>
    obtain ⟨mid, b, rest, hop, hrest, rfl⟩ := replay_cons h
    rcases ih hrest with hmid | ⟨y, hy, hins⟩
    · by_cases hins : inserted? x.2 = some n
      · exact .inr ⟨(x.1, x.2, b), List.mem_cons_self, hins⟩
      · exact .inl fun hnone => hmid (accepted_absent hop hnone hins).1
    · exact .inr ⟨y, List.mem_cons_of_mem _ hy, hins⟩

end InMemory

section Calls
variable {es front : List (MemOp × MemValue)} {op : MemOp} {v : MemValue} {n : Nat}

theorem Matches.insertion {call : Call} {r : Except FolioError Value} (h : Matches call r es)
    (hes : front ++ [(op, v)] <+: es) (hop : inserted? op = some n) :
    front = [(.nextLedgerId, .id n)] := by
  have hmem : (op, v) ∈ es := hes.subset (by simp)
  cases r with
  | error err =>
    have hnext : ∀ x ∈ es, x.1 = MemOp.nextLedgerId := by cases call <;> exact h
    rw [show op = .nextLedgerId from hnext _ hmem] at hop
    cases hop
  | ok value =>
    cases call with
    | createLedger o ensemble =>
      obtain ⟨-, id, m, -, hm, rfl⟩ := h
      have hid : m.metadata.id = id := congrArg LedgerMetadata.id hm
      rcases front with _ | ⟨x, _ | ⟨y, rest⟩⟩
      · obtain ⟨⟨⟩, -⟩ := List.cons_prefix_cons.mp hes
        cases hop
      · obtain ⟨rfl, hlast⟩ := List.cons_prefix_cons.mp hes
        obtain ⟨⟨⟩, -⟩ := List.cons_prefix_cons.mp hlast
        rw [← hid, show m.metadata.id = n from Option.some.inj hop]
      · have hlen := hes.length_le
        simp at hlen
    | nextLedgerId =>
      obtain ⟨id, -, rfl⟩ := h
      cases List.mem_singleton.mp hmem
      cases hop
    | putLedger m =>
      obtain ⟨_, -, rfl⟩ := h
      cases List.mem_singleton.mp hmem
      cases hop
    | transitionState id expected next =>
      obtain ⟨_, -, rfl⟩ := h
      cases List.mem_singleton.mp hmem
      cases hop
    | deleteLedger id =>
      obtain ⟨-, rfl⟩ := h
      cases List.mem_singleton.mp hmem
      cases hop

end Calls

section Runs
variable {β : Type} [DecidableEq β] {codec : Codec β} {st₀ st st' : Store}
  {hist : List (Nat × MemOp × MemValue)} {s t u : State β} {n : Nat}
  {a : Linearization.Act Nat Call}

abbrev Follows (codec : Codec β) (st₀ st : Store) (hist : List (Nat × MemOp × MemValue))
    (s : State β) : Prop :=
  System.Inv (clients codec) MemOp.accepted RevStore.Later (Represents codec) Matches st₀ st hist s

theorem follows_of_reach
    (h : Reach (clients codec).step (System.Start (Represents codec) st₀) s) :
    ∃ st hist, Follows codec st₀ st hist s :=
  System.linearizable RevStore.Later.refl RevStore.Later.trans (fun call _ => body_linear call) h

theorem Follows.step (h : Follows codec st₀ st hist s)
    (hst : (clients codec).step s a = some t) : ∃ st' hist', Follows codec st₀ st' hist' t :=
  (h.next RevStore.Later.refl RevStore.Later.trans (fun call _ => body_linear call) hst).1

theorem Follows.allocated_before (h : Follows codec st₀ st hist s) {id : Nat} {op : MemOp}
    {v : MemValue} {front rest : List (MemOp × MemValue)}
    (hown : own id hist = front ++ (op, v) :: rest) (hop : inserted? op = some n) :
    front = [(.nextLedgerId, .id n)] := by
  have hne : own id hist ≠ [] := by simp [hown]
  obtain ⟨call, r, es, hes, hr⟩ := h.own_completes RevStore.Later.refl hne
  rw [hown, List.append_cons] at hes
  exact Matches.insertion hr ((List.prefix_append _ rest).trans hes) hop

theorem Follows.insertion_new {id : Nat} {op : MemOp} {v : MemValue}
    (h : Follows codec st₀ st (hist ++ [(id, op, v)]) s) (hop : inserted? op = some n) :
    st₀.lastId < n ∧ ∀ x ∈ hist, inserted? x.2.1 ≠ some n := by
  have hown : own id hist = [(.nextLedgerId, .id n)] :=
    h.allocated_before (own_snoc_self id op v) hop
  have halloc : (id, MemOp.nextLedgerId, MemValue.id n) ∈ hist :=
    mem_own.mp (by rw [hown]; exact List.mem_singleton.mpr rfl)
  obtain ⟨hlast, hdistinct⟩ := replay_ids h.replayed
  refine ⟨hlast _ (List.mem_append_left _ halloc) n rfl, ?_⟩
  rintro ⟨id', op', v'⟩ hx hop'
  have hx' : (op', v') ∈ own id' hist := mem_own.mpr hx
  by_cases hid : id' = id
  · rw [hid, hown] at hx'
    cases List.mem_singleton.mp hx'
    cases hop'
  · obtain ⟨front, rest, hsplit⟩ := List.append_of_mem hx'
    have hown' : own id' (hist ++ [(id, op, v)]) = front ++ (op', v') :: rest :=
      (own_snoc_ne (Ne.symm hid) op v).trans hsplit
    have halloc' : (id', MemOp.nextLedgerId, MemValue.id n) ∈ hist := by
      refine mem_own.mp ?_
      rw [hsplit, h.allocated_before hown' hop']
      exact List.mem_cons_self
    have hne : (id', MemOp.nextLedgerId, MemValue.id n) ≠ (id, .nextLedgerId, .id n) :=
      fun heq => hid (congrArg Prod.fst heq)
    exact hdistinct.forall (List.mem_append_left _ halloc') (List.mem_append_left _ halloc)
      hne n rfl rfl

def Spent (st₀ : Store) (hist : List (Nat × MemOp × MemValue)) (n : Nat) : Prop :=
  n ≤ st₀.lastId ∨ ∃ x ∈ hist, inserted? x.2.1 = some n

/-- The ledger is not there, its insertion is over, and nothing has written it since `log`. -/
structure Gone (codec : Codec β) (st₀ : Store) (n : Nat) (log : List (Nat × MemOp))
    (s : State β) : Prop where
  absent : ledgerAt codec s.shared n = none
  unwritten : ∃ later, s.log = log ++ later ∧ ∀ x ∈ later, written? x.2 ≠ some n
  spent : ∃ st hist, Follows codec st₀ st hist s ∧ Spent st₀ hist n

theorem Gone.step {log : List (Nat × MemOp)} (h : Gone codec st₀ n log s)
    (hst : (clients codec).step s a = some t) : Gone codec st₀ n log t := by
  obtain ⟨habsent, ⟨later, hlog, hlater⟩, st, hist, hs, hspent⟩ := h
  obtain ⟨st', hist', ht⟩ := hs.step hst
  rw [← hs.stands.ledgers] at habsent
  rcases hs.logged ht hst with ⟨hsame, rfl, rfl⟩ | ⟨id, op, v, hnew, hop, rfl⟩
  · refine ⟨?_, ⟨later, hsame.trans hlog, hlater⟩, st', hist', ht, hspent⟩
    rw [← ht.stands.ledgers]
    exact habsent
  · have hins : inserted? op ≠ some n := by
      intro hins
      obtain ⟨hfresh, honce⟩ := ht.insertion_new hins
      rcases hspent with hold | ⟨x, hx, hins'⟩
      · exact absurd hold (Nat.not_le.mpr hfresh)
      · exact honce x hx hins'
    obtain ⟨hgone, hwritten⟩ := accepted_absent hop habsent hins
    refine ⟨?_, ⟨later ++ [(id, op)], ?_, ?_⟩, st', _, ht, ?_⟩
    · rw [← ht.stands.ledgers]
      exact hgone
    · rw [hnew, hlog, List.append_assoc]
    · intro x hx
      rcases List.mem_append.mp hx with hx | hx
      · exact hlater x hx
      · rw [List.mem_singleton.mp hx]
        exact hwritten
    · exact hspent.imp_right fun ⟨x, hx, hins'⟩ => ⟨x, List.mem_append_left _ hx, hins'⟩

theorem Follows.spent (h : Follows codec st₀ st hist s)
    (hids : ∀ id m, st₀.ledgers.get id = some m → id ≤ st₀.lastId) {m : LedgerMetadata}
    (hthere : ledgerAt codec s.shared n = some m) : Spent st₀ hist n := by
  have hst : st.ledgers.get n ≠ none := by
    rw [h.stands.ledgers, hthere]
    exact Option.some_ne_none m
  rcases replay_origin h.replayed hst with hold | hins
  · obtain ⟨m₀, hm₀⟩ := Option.ne_none_iff_exists'.mp hold
    exact .inl (hids n m₀ hm₀)
  · exact .inr hins

/-- Once a ledger that was there is gone, it stays gone for every client in every
interleaving: nothing writes it again, neither a creation nor an update that was already
under way. -/
theorem deleted_ledger_never_returns {a : Linearization.Act Nat Call} {m : LedgerMetadata}
    (hs : Reach (clients codec).step (System.Start (Represents codec) st₀) s)
    (hids : ∀ id m, st₀.ledgers.get id = some m → id ≤ st₀.lastId)
    (hthere : ledgerAt codec s.shared n = some m)
    (hst : (clients codec).step s a = some t) (hgone : ledgerAt codec t.shared n = none)
    (hu : Reach (clients codec).step (· = t) u) :
    ledgerAt codec u.shared n = none ∧
      ∃ later, u.log = t.log ++ later ∧ ∀ x ∈ later, written? x.2 ≠ some n := by
  obtain ⟨st, hist, hfollows⟩ := follows_of_reach hs
  obtain ⟨st', hist', hfollows'⟩ := hfollows.step hst
  have hspent : Spent st₀ hist' n := by
    have hbefore := hfollows.spent hids hthere
    rcases hfollows.logged hfollows' hst with ⟨-, -, rfl⟩ | ⟨id, op, v, -, -, rfl⟩
    · exact hbefore
    · exact hbefore.imp_right fun ⟨x, hx, hins⟩ => ⟨x, List.mem_append_left _ hx, hins⟩
  have hstart : Gone codec st₀ n t.log t :=
    ⟨hgone, ⟨[], (List.append_nil _).symm, fun x hx => absurd hx List.not_mem_nil⟩,
      st', hist', hfollows', hspent⟩
  have hfin : Gone codec st₀ n t.log u := by
    refine hu.invariant (P := Gone codec st₀ n t.log) ?_ fun _ _ _ h hstep => h.step hstep
    rintro _ rfl
    exact hstart
  exact ⟨hfin.absent, hfin.unwritten⟩

def readBeforeDelete : List (Linearization.Act Nat Call) :=
  [.invoke 0 (.createLedger single ["n0"]), .request 0 5, .request 0 5, .request 0 5, .request 0 5,
    .invoke 1 (.putLedger ⟨newMetadata 1 single ["n0"], 5, 5⟩), .request 1 6,
    .invoke 2 (.deleteLedger 1)]

/-- The update is written too late, and the next ledger gets another id. -/
def updateAfterDelete : List (Linearization.Act Nat Call) :=
  [.request 1 7, .request 1 7, .invoke 3 (.createLedger single ["n0"]), .request 3 8,
    .request 3 8, .request 3 8, .request 3 8]

theorem late_update_finds_nothing :
    ∃ s t u, Reach (clients plainCodec).step (System.Start (Represents plainCodec) emptyStore) s ∧
      ledgerAt plainCodec s.shared 1 = some (newMetadata 1 single ["n0"]) ∧
      (clients plainCodec).step s (.request 2 6) = some t ∧
      run (clients plainCodec).step t updateAfterDelete = some u ∧
      (System.returned u 1).map Prod.snd = some (.error .casConflict) ∧
      ledgerAt plainCodec u.shared 2 = some (newMetadata 2 single ["n0"]) ∧
      ledgerAt plainCodec u.shared 1 = none := by
  obtain ⟨s, hs, hthere, hrest⟩ := reach_check (clients plainCodec).step noClients_start
    (fun s => ledgerAt plainCodec s.shared 1 = some (newMetadata 1 single ["n0"]) ∧
      ((clients plainCodec).step s (.request 2 6)).bind (fun t =>
        (run (clients plainCodec).step t updateAfterDelete).map fun u =>
          decide (ledgerAt plainCodec t.shared 1 = none ∧
            (System.returned u 1).map Prod.snd = some (.error .casConflict) ∧
            ledgerAt plainCodec u.shared 2 = some (newMetadata 2 single ["n0"]))) = some true)
    readBeforeDelete (by decide +kernel)
  obtain ⟨t, hst, hrest⟩ := Option.bind_eq_some_iff.mp hrest
  obtain ⟨u, hrun, hchk⟩ := Option.map_eq_some_iff.mp hrest
  obtain ⟨hgone, hconflict, hnext⟩ := of_decide_eq_true hchk
  have hids : ∀ id m, emptyStore.ledgers.get id = some m → id ≤ emptyStore.lastId := by
    rintro id m ⟨⟩
  have hu : Reach (clients plainCodec).step (· = t) u :=
    reach_of_run updateAfterDelete (.start rfl) hrun
  exact ⟨s, t, u, hs, hthere, hst, hrun, hconflict, hnext,
    (deleted_ledger_never_returns hs hids hthere hst hgone hu).1⟩

end Runs
end Folio.DeletedLedger
