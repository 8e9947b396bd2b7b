import Folio.EtcdStore
import Mathlib.Data.List.Pairwise

/-! Every call on etcd acts as the in-memory store does, at the one request that writes. -/
namespace Folio.EtcdStore
open KeyedTable Protocol Metadata RevisionStore RemoteProgram Linearization TransitionSystem
variable {β : Type}

section Represents
variable (codec : Codec β)

def lastId (e : Etcd β) : Nat :=
  match e.rows.get .idGen with
  | some row => (codec.parse row.value).toOption.getD 0
  | none => 0

def ledgerAt (e : Etcd β) (id : Nat) : Option LedgerMetadata :=
  (e.rows.get (.ledger id)).bind fun row => (codec.decode row.value).toOption.map Stamped.metadata

/-- The same last id and the same ledgers, time stamps aside. -/
structure Represents (e : Etcd β) (st : Store) : Prop where
  lastId : st.lastId = lastId codec e
  ledgers : ∀ id, st.ledgers.get id = ledgerAt codec e id

variable {codec} {e : Etcd β} {st : Store}

theorem Represents.nextLedgerId (h : Represents codec e st) (hid : st.lastId + 1 < UInt64.size) :
    Represents codec (e.put .idGen (codec.print (st.lastId + 1))) st.nextLedgerId.1 where
  lastId := by
    simp [EtcdStore.lastId, RevStore.put, Store.nextLedgerId, codec.parse_print _ hid,
      Except.toOption]
  ledgers := by
    intro id
    simp only [ledgerAt, RevStore.put, Table.get_put, reduceCtorEq, if_false]
    exact h.ledgers id

theorem Represents.putLedger (h : Represents codec e st) (id : Nat) (m : Stamped) :
    Represents codec (e.put (.ledger id) (codec.encode m))
      { st with ledgers := st.ledgers.put id m.metadata } where
  lastId := by
    simp only [EtcdStore.lastId, RevStore.put, Table.get_put, reduceCtorEq, if_false]
    exact h.lastId
  ledgers := by
    intro id'
    simp only [ledgerAt, RevStore.put, Table.get_put, Key.ledger.injEq]
    by_cases heq : id' = id
    · simp [heq, codec.decode_encode, Except.toOption]
    · rw [if_neg heq, if_neg heq]
      exact h.ledgers id'

theorem Represents.deleteLedger (h : Represents codec e st) (id : Nat) :
    Represents codec (e.delete (.ledger id)) (st.deleteLedger id) where
  lastId := by
    simp only [EtcdStore.lastId, RevStore.delete, Table.get_del, reduceCtorEq, if_false]
    exact h.lastId
  ledgers := by
    intro id'
    simp only [ledgerAt, RevStore.delete, Store.deleteLedger, Table.get_del, Key.ledger.injEq]
    by_cases heq : id' = id
    · simp [heq]
    · rw [if_neg heq, if_neg heq]
      exact h.ledgers id'

def Readable (codec : Codec β) (e : Etcd β) : Prop :=
  ∀ id row, e.rows.get (.ledger id) = some row → ∃ m, codec.decode row.value = .ok m

theorem Represents.ledger_cases (h : Represents codec e st) (hread : Readable codec e) (id : Nat) :
    (st.ledgers.get id = none ∧
      decodeLedger codec id (e.rows.get (.ledger id)) = .error (.ledgerNotFound id)) ∨
    ∃ row current, st.ledgers.get id = some current.metadata ∧
      e.rows.get (.ledger id) = some row ∧ codec.decode row.value = .ok current := by
  have hst := h.ledgers id
  unfold ledgerAt at hst
  cases hrow : e.rows.get (.ledger id) with
  | none =>
    rw [hrow] at hst
    exact .inl ⟨hst, rfl⟩
  | some row =>
    obtain ⟨current, hcurrent⟩ := hread id row hrow
    rw [hrow] at hst
    simp only [hcurrent, Except.toOption, Option.bind_some, Option.map_some] at hst
    exact .inr ⟨row, current, hst, rfl, hcurrent⟩

end Represents

section Guards
variable {codec : Codec β} {t u : Etcd β}

theorem nextId_current {n : Nat} {c : Compare Key β}
    (h : nextId codec (t.rows.get .idGen) = .ok (n, c)) (hlater : RevStore.Later t u)
    (hc : u.holds c) : n = lastId codec u + 1 ∧ n < UInt64.size := by
  unfold lastId
  cases hrow : t.rows.get .idGen with
  | none =>
    rw [hrow] at h
    cases h
    rw [(u.created_eq_zero .idGen).mp hc]
    exact ⟨rfl, by decide⟩
  | some kv =>
    rw [hrow] at h
    simp only [nextId] at h
    cases hparse : codec.parse kv.value with
    | error err =>
      rw [hparse] at h
      cases h
    | ok current =>
      simp only [hparse, Except.bind] at h
      split_ifs at h with hid
      cases h
      have hsame : u.rows.get .idGen = some kv := hlater.same_row hrow hc
      exact ⟨by simp [hsame, hparse, Except.toOption], hid⟩

theorem ledgerAt_of_value {id : Nat} {current : Stamped}
    (h : u.holds (.value (.ledger id) (codec.encode current))) :
    ledgerAt codec u id = some current.metadata := by
  obtain ⟨row, hrow, hval⟩ := Option.map_eq_some_iff.mp h
  simp [ledgerAt, hrow, hval, codec.decode_encode, Except.toOption]

end Guards

section Requests
variable {β α : Type} [DecidableEq β] (codec : Codec β) (call : Call)

def Linear (post : Except FolioError α → List (MemOp × MemValue) → Prop) (p : Client β α)
    (e : Etcd β) (es : List (MemOp × MemValue)) : Prop :=
  Linearization.Linear (I := Requests β) answer MemOp.accepted RevStore.Later (Represents codec)
    (emit call) post p e es

variable {codec call} {post : Except FolioError α → List (MemOp × MemValue) → Prop}
  {e : Etcd β} {es : List (MemOp × MemValue)}

theorem get_linear {k : Key} {f : Option (Row β) → Client β α}
    (h : ∀ t, Linear codec call post (f (t.rows.get k)) t es) :
    Linear codec call post (ask (.get k) >>= f) e es :=
  fun t _ _ => ⟨.refl t, rfl, h t⟩

theorem now_linear {f : Nat → Client β α} (h : ∀ now t, Linear codec call post (f now) t es) :
    Linear codec call post (ask .now >>= f) e es :=
  fun t _ clock => ⟨.refl t, rfl, h clock t⟩

theorem txn_linear {c : Compare Key β} {k : Key} {v : β} {f : Bool → Client β α} {op : MemOp}
    (hop : written call k = some op) (hfail : ∀ t, Linear codec call post (f false) t es)
    (hok : ∀ t st, RevStore.Later e t → t.holds c → Represents codec t st →
      ∃ st' b, op.accepted st = some (st', b) ∧ Represents codec (t.put k v) st' ∧
        Linear codec call post (f true) (t.put k v) (es ++ [(op, b)])) :
    Linear codec call post (ask (.txn c k v) >>= f) e es := by
  intro t ht clock
  have hans : answer clock t (.txn c k v) = ((t.txn c k v).1, .ok (t.txn c k v).2) := rfl
  rcases t.txn_cases c k v with ⟨hc, htxn⟩ | htxn
  · rw [hans, htxn]
    refine ⟨t.later_put k v, ?_⟩
    rw [show emit call (.txn c k v) (.ok true) = some op from hop]
    exact fun st hst => hok t st ht hc hst
  · rw [hans, htxn]
    exact ⟨.refl t, rfl, hfail t⟩

end Requests

section Methods
variable [DecidableEq β] {codec : Codec β} {call : Call} {e : Etcd β} {es : List (MemOp × MemValue)}

def Allocates (es : List (MemOp × MemValue)) :
    Except FolioError Nat → List (MemOp × MemValue) → Prop
  | .ok n, es' => es' = es ++ [(.nextLedgerId, .id n)]
  | .error _, es' => es' = es

theorem nextLedgerIdLoop_linear (retries : Nat) :
    Linear codec call (Allocates es) (nextLedgerIdLoop codec retries) e es := by
  induction retries generalizing e with
  | zero => exact rfl
  | succ retries ih =>
    refine get_linear fun t => ?_
    cases hnext : nextId codec (t.rows.get .idGen) with
    | error err => exact rfl
    | ok next =>
      obtain ⟨n, c⟩ := next
      have hop : written call .idGen = some .nextLedgerId := by cases call <;> rfl
      refine txn_linear hop (fun u => ih) ?_
      intro u st hlater hc hst
      obtain ⟨hn, hid⟩ := nextId_current hnext hlater hc
      rw [← hst.lastId] at hn
      refine ⟨st.nextLedgerId.1, .id n, ?_, ?_, rfl⟩
      · rw [hn]
        rfl
      · rw [hn] at hid ⊢
        exact hst.nextLedgerId hid

theorem getLedger_linear (id : Nat) :
    Linear codec call (fun _ es' => es' = es) (getLedger codec id) e es := by
  refine get_linear fun t => ?_
  exact rfl

def Makes (op : MemOp) : Except FolioError Stamped → List (MemOp × MemValue) → Prop
  | .ok m, es => es = [(op, .ledger m.metadata)]
  | .error _, es => es = []

theorem replaceLedger_linear {id : Nat} {current m : Stamped} {op : MemOp}
    (hop : written call (.ledger id) = some op)
    (hwrite : ∀ st : Store, st.ledgers.get id = some current.metadata →
      op.accepted st = some ((st.writeLedger id m.metadata).1,
        .ledger (st.writeLedger id m.metadata).2)) :
    Linear codec call (Makes op) (replaceLedger codec id current m) e [] := by
  refine now_linear fun now t => ?_
  refine txn_linear hop (fun u => rfl) ?_
  intro u st _ hc hst
  have hcurrent : st.ledgers.get id = some current.metadata := by
    rw [hst.ledgers]
    exact ledgerAt_of_value hc
  exact ⟨_, _, hwrite st hcurrent, hst.putLedger id _, rfl⟩

theorem putLedger_linear (m : Stamped) :
    Linear codec (.putLedger m) (Makes (.putLedger m.metadata)) (putLedger codec m) e [] := by
  refine (getLedger_linear m.metadata.id).bind (fun current t es' hes => ?_) fun _ _ hes => hes
  subst hes
  by_cases hver : current.metadata.version = m.metadata.version
  · rw [if_neg (not_not.mpr hver)]
    refine replaceLedger_linear rfl fun st hst => ?_
    have hput : st.putLedger m.metadata = ((st.writeLedger m.metadata.id m.metadata).1,
        .ok (st.writeLedger m.metadata.id m.metadata).2) := by
      rw [Store.putLedger, hst]
      exact if_neg (not_not.mpr hver)
    simp [MemOp.accepted, MemOp.apply, hput, Except.map]
  · rw [if_pos hver]
    exact rfl

theorem transitionState_linear (id : Nat) (expected next : LedgerState) :
    Linear codec (.transitionState id expected next) (Makes (.transitionState id expected next))
      (transitionState codec id expected next) e [] := by
  refine (getLedger_linear id).bind (fun current t es' hes => ?_) fun _ _ hes => hes
  subst hes
  by_cases hstate : current.metadata.state = expected
  · rw [if_neg (not_not.mpr hstate)]
    refine replaceLedger_linear rfl fun st hst => ?_
    have htrans : st.transitionState id expected next =
        ((st.writeLedger id { current.metadata with state := next }).1,
          .ok (st.writeLedger id { current.metadata with state := next }).2) := by
      rw [Store.transitionState, hst]
      exact if_neg (not_not.mpr hstate)
    simp [MemOp.accepted, MemOp.apply, htrans, Except.map]
  · rw [if_pos hstate]
    exact rfl

def Creates (o : LedgerOptions) (ensemble : List NodeId) :
    Except FolioError Stamped → List (MemOp × MemValue) → Prop
  | .ok m, es => o.validate = .ok () ∧ ∃ id, m.metadata = newMetadata id o ensemble ∧
      es = [(.nextLedgerId, .id id), (.insertLedger m.metadata, .ledger m.metadata)]
  | .error _, es => ∀ x ∈ es, x.1 = .nextLedgerId

theorem createLedger_linear (o : LedgerOptions) (ensemble : List NodeId) :
    Linear codec (.createLedger o ensemble) (Creates o ensemble) (createLedger codec o ensemble)
      e [] := by
  unfold createLedger
  cases hvalid : o.validate with
  | error err => exact fun x hx => absurd hx List.not_mem_nil
  | ok _ =>
    refine (nextLedgerIdLoop_linear idGenCasRetries).bind (fun id t es hes => ?_) ?_
    · subst hes
      refine now_linear fun now u => ?_
      refine txn_linear rfl (fun v => ?_) ?_
      · exact fun x hx => congrArg Prod.fst (List.mem_singleton.mp hx)
      · intro v st _ _ hst
        exact ⟨_, _, rfl, hst.putLedger id ⟨newMetadata id o ensemble, now, now⟩,
          hvalid, id, rfl, rfl⟩
    · intro err es hes
      rw [show es = [] from hes]
      exact fun x hx => absurd hx List.not_mem_nil

theorem deleteLedger_linear (id : Nat) :
    Linear codec (.deleteLedger id) (fun r es => r = .ok () ∧ es = [(.deleteLedger id, .unit)])
      (deleteLedger id) e [] :=
  fun t _ _ => ⟨t.later_delete _, fun st hst =>
    ⟨st.deleteLedger id, .unit, rfl, hst.deleteLedger id, rfl, rfl⟩⟩

def Matches : Call → Except FolioError Value → List (MemOp × MemValue) → Prop
  | .nextLedgerId, .ok v, es => ∃ n, v = .id n ∧ es = [(.nextLedgerId, .id n)]
  | .createLedger o ensemble, .ok v, es => o.validate = .ok () ∧ ∃ id m, v = .ledger m ∧
      m.metadata = newMetadata id o ensemble ∧
      es = [(.nextLedgerId, .id id), (.insertLedger m.metadata, .ledger m.metadata)]
  | .putLedger m, .ok v, es => ∃ r, v = .ledger r ∧
      es = [(.putLedger m.metadata, .ledger r.metadata)]
  | .transitionState id expected next, .ok v, es => ∃ r, v = .ledger r ∧
      es = [(.transitionState id expected next, .ledger r.metadata)]
  | .deleteLedger id, .ok v, es => v = .unit ∧ es = [(.deleteLedger id, .unit)]
  | _, .error _, es => ∀ x ∈ es, x.1 = .nextLedgerId

theorem makes_none (h : es = []) : ∀ x ∈ es, x.1 = MemOp.nextLedgerId := by
  intro x hx
  rw [h] at hx
  cases hx

theorem body_linear (call : Call) : Linear codec call (Matches call) (call.body codec) e [] := by
  cases call with
  | nextLedgerId =>
    exact (nextLedgerIdLoop_linear idGenCasRetries).bind (fun n t es hes => ⟨n, rfl, hes⟩)
      fun _ _ hes => makes_none hes
  | createLedger o ensemble =>
    refine (createLedger_linear o ensemble).bind (fun m t es hes => ?_) fun _ _ hes => hes
    obtain ⟨hvalid, id, hm, hes⟩ := hes
    exact ⟨hvalid, id, m, rfl, hm, hes⟩
  | putLedger m =>
    exact (putLedger_linear m).bind (fun r t es hes => ⟨r, rfl, hes⟩)
      fun _ _ hes => makes_none hes
  | transitionState id expected next =>
    exact (transitionState_linear id expected next).bind (fun r t es hes => ⟨r, rfl, hes⟩)
      fun _ _ hes => makes_none hes
  | deleteLedger id =>
    refine (deleteLedger_linear id).bind (fun v t es hes => ⟨rfl, hes.2⟩) fun err es hes => ?_
    obtain ⟨herr, -⟩ := hes
    cases herr

end Methods

section InMemory
variable {st fin : Store} {op : MemOp} {v : MemValue} {log : List (Nat × MemOp)}
  {hist : List (Nat × MemOp × MemValue)}

theorem accepted_eq (h : op.accepted st = some (fin, v)) : op.apply st = (fin, .ok v) := by
  unfold MemOp.accepted at h
  cases hr : (op.apply st).2 with
  | error err =>
    rw [hr] at h
    cases h
  | ok w =>
    rw [hr] at h
    cases h
    exact Prod.ext rfl hr

theorem apply_lastId (hop : op ≠ .nextLedgerId) : (op.apply st).1.lastId = st.lastId := by
  cases op with
  | nextLedgerId => exact absurd rfl hop
  | insertLedger m => rfl
  | putLedger m =>
    rcases st.putLedger_cases m with ⟨cur, -, -, hput⟩ | ⟨err, hput⟩
    · simp only [MemOp.apply, hput]
      rfl
    · simp only [MemOp.apply, hput]
  | transitionState id expected next =>
    rcases st.transitionState_cases id expected next with ⟨cur, -, htrans⟩ | ⟨err, htrans⟩
    · simp only [MemOp.apply, htrans]
      rfl
    · simp only [MemOp.apply, htrans]
  | deleteLedger id => rfl

def allocated (x : Nat × MemOp × MemValue) : Option Nat :=
  match x.2 with
  | (.nextLedgerId, .id n) => some n
  | _ => none

theorem allocated_eq {x : Nat × MemOp × MemValue} {n : Nat} (h : allocated x = some n) :
    x.2 = (.nextLedgerId, .id n) := by
  unfold allocated at h
  split at h
  · rename_i n' hx
    cases h
    exact hx
  · cases h

theorem accepted_lastId (h : op.accepted st = some (fin, v)) :
    st.lastId ≤ fin.lastId ∧
      ∀ n, (op, v) = (.nextLedgerId, .id n) → st.lastId < n ∧ fin.lastId = n := by
  have happly := accepted_eq h
  by_cases hop : op = .nextLedgerId
  · rw [hop] at happly
    cases happly
    refine ⟨Nat.le_succ _, fun n hn => ?_⟩
    cases hn
    exact ⟨Nat.lt_succ_self _, rfl⟩
  · refine ⟨?_, fun n hn => absurd (congrArg Prod.fst hn) hop⟩
    rw [← apply_lastId hop, happly]

def Distinct (x y : Nat × MemOp × MemValue) : Prop :=
  ∀ n, allocated x = some n → allocated y ≠ some n

instance : Std.Symm Distinct := ⟨fun _ _ h n hy hx => h n hx hy⟩

theorem replay_ids (h : replay MemOp.accepted st log = some (fin, hist)) :
    (∀ x ∈ hist, ∀ n, allocated x = some n → st.lastId < n) ∧ hist.Pairwise Distinct := by
  induction log generalizing st hist with
  | nil =>
    cases h
    exact ⟨fun x hx => absurd hx List.not_mem_nil, .nil⟩
  | cons x xs ih =>
    obtain ⟨mid, b, rest, happly, hrest, rfl⟩ := replay_cons h
    obtain ⟨hlater, hdistinct⟩ := ih hrest
    obtain ⟨hle, hnew⟩ := accepted_lastId happly
    constructor
    · intro y hy n hn
      rcases List.mem_cons.mp hy with rfl | hy
      · exact (hnew n (allocated_eq hn)).1
      · exact hle.trans_lt (hlater y hy n hn)
    · refine List.pairwise_cons.mpr ⟨fun y hy n hn hn' => ?_, hdistinct⟩
      have hlt := hlater y hy n hn'
      rw [(hnew n (allocated_eq hn)).2] at hlt
      exact lt_irrefl n hlt

def MemOp.Updates (before after : Store) : MemOp → Prop
  | .putLedger m => ∃ cur, before.ledgers.get m.id = some cur ∧ m.version = cur.version ∧
      after.ledgers.get m.id = some { m with version := cur.version + 1 }
  | .transitionState id expected next => ∃ cur, before.ledgers.get id = some cur ∧
      cur.state = expected ∧
      after.ledgers.get id = some { cur with state := next, version := cur.version + 1 }
  | _ => True

theorem accepted_updates (h : op.accepted st = some (fin, v)) : op.Updates st fin := by
  have happly := accepted_eq h
  cases op with
  | putLedger m =>
    rcases st.putLedger_cases m with ⟨cur, hcur, hver, hput⟩ | ⟨err, hput⟩
    · simp only [MemOp.apply, hput] at happly
      cases happly
      refine ⟨cur, hcur, hver.symm, ?_⟩
      rw [hver]
      exact Table.get_put_self _ _ _
    · simp [MemOp.apply, hput, Except.map] at happly
  | transitionState id expected next =>
    simp only [MemOp.apply, Store.transitionState] at happly
    cases hcur : st.ledgers.get id with
    | none => simp [hcur, Except.map] at happly
    | some cur =>
      by_cases hstate : cur.state = expected
      · simp only [hcur, hstate, ne_eq, not_true_eq_false, if_false] at happly
        cases happly
        exact ⟨cur, hcur, hstate, Table.get_put_self _ _ _⟩
      · simp [hcur, hstate, Except.map] at happly
  | nextLedgerId => trivial
  | insertLedger m => trivial
  | deleteLedger id => trivial

end InMemory

section Calls
variable [DecidableEq β]

def newId : Call → Value → Option Nat
  | .nextLedgerId, .id n => some n
  | .createLedger _ _, .ledger m => some m.metadata.id
  | _, _ => none

theorem newId_allocated {call : Call} {v : Value} {es : List (MemOp × MemValue)} {n : Nat}
    (h : Matches call (.ok v) es) (hn : newId call v = some n) :
    (MemOp.nextLedgerId, MemValue.id n) ∈ es := by
  cases call with
  | nextLedgerId =>
    obtain ⟨n', rfl, rfl⟩ := h
    cases hn
    exact List.mem_singleton.mpr rfl
  | createLedger o ensemble =>
    obtain ⟨-, id, m, rfl, hm, rfl⟩ := h
    have hid : m.metadata.id = id := congrArg LedgerMetadata.id hm
    have hn' : m.metadata.id = n := Option.some.inj hn
    rw [← hn', hid]
    exact List.mem_cons_self
  | putLedger m => cases v <;> cases hn
  | transitionState id expected next => cases v <;> cases hn
  | deleteLedger id => cases v <;> cases hn

/-- `hist` is what the in-memory store answers to the operations in the log, from `st₀`, and
`st` is what it then holds. -/
structure Linearized (codec : Codec β) (st₀ st : Store) (hist : List (Nat × MemOp × MemValue))
    (s : State β) : Prop where
  replayed : replay MemOp.accepted st₀ s.log = some (st, hist)
  stands : Represents codec s.shared st
  results : ∀ id call r, System.returned s id = some (call, r) → Matches call r (own id hist)
  unlogged : ∀ a t, (clients codec).step s a = some t → t.log = s.log → t.shared = s.shared
  ids : ∀ i j ci vi cj vj n, i ≠ j → System.returned s i = some (ci, .ok vi) →
    System.returned s j = some (cj, .ok vj) → newId ci vi = some n → newId cj vj ≠ some n
  updates : ∀ xs id op ys, s.log = xs ++ (id, op) :: ys →
    ∃ before front after v, replay MemOp.accepted st₀ xs = some (before, front) ∧
      op.accepted before = some (after, v) ∧ op.Updates before after

/-- Any number of clients, in any interleaving of their requests, act on etcd as the
operations in the log act on the in-memory store, one after the other. -/
theorem etcd_linearizes {codec : Codec β} {st₀ : Store} {s : State β}
    (h : Reach (clients codec).step (System.Start (Represents codec) st₀) s) :
    ∃ st hist, Linearized codec st₀ st hist s := by
  have hbody : ∀ call e, Linear codec call (Matches call) (call.body codec) e [] :=
    fun call e => body_linear call
  obtain ⟨st, hist, hinv⟩ :=
    System.linearizable RevStore.Later.refl RevStore.Later.trans hbody h
  have hresults : ∀ id call r, System.returned s id = some (call, r) →
      Matches call r (own id hist) := fun id call r hr =>
    hinv.threads id call _ (System.returned_eq_some.mp hr)
  refine ⟨st, hist, hinv.replayed, hinv.stands, hresults, ?_, ?_, ?_⟩
  · intro a t hst
    exact (hinv.next RevStore.Later.refl RevStore.Later.trans hbody hst).2
  · intro i j ci vi cj vj n hne hi hj hni hnj
    have hmi := mem_own.mp (newId_allocated (hresults i ci _ hi) hni)
    have hmj := mem_own.mp (newId_allocated (hresults j cj _ hj) hnj)
    have hij : (i, MemOp.nextLedgerId, MemValue.id n) ≠ (j, .nextLedgerId, .id n) :=
      fun heq => hne (congrArg Prod.fst heq)
    exact (replay_ids hinv.replayed).2.forall hmi hmj hij n rfl rfl
  · intro xs id op ys hlog
    have hreplay := hinv.replayed
    rw [hlog] at hreplay
    obtain ⟨before, front, after, v, hfront, hop⟩ := replay_split hreplay
    exact ⟨before, front, after, v, hfront, hop, accepted_updates hop⟩

end Calls

section Race

def plainCodec : Codec (Nat ⊕ Stamped) where
  encode := .inr
  decode
    | .inr m => .ok m
    | .inl _ => .error (.serialization "not a ledger")
  print := .inl
  parse
    | .inl n => .ok n
    | .inr _ => .error (.metadata "not a number")
  decode_encode := fun _ => rfl
  encode_decode := by
    intro b m h
    cases b with
    | inl n => cases h
    | inr m' =>
      cases h
      rfl
  parse_print := fun _ _ => rfl

def noClients : State (Nat ⊕ Stamped) where
  shared := ⟨1, .empty, fun _ _ h => by cases h⟩
  threads := .empty
  log := []

def emptyStore : Store := ⟨0, .empty, .empty⟩

theorem noClients_start : System.Start (Represents plainCodec) emptyStore noClients :=
  ⟨⟨rfl, fun _ => rfl⟩, rfl, rfl⟩

def single : LedgerOptions := ⟨1, 1, 1⟩

/-- Client 0 loses the first id to client 1 and creates ledger 2, which clients 2 and 3 then
read before either writes. -/
def race : List (Linearization.Act Nat Call) :=
  [.invoke 0 (.createLedger single ["n0"]), .invoke 1 .nextLedgerId,
    .request 0 5, .request 1 5, .request 1 5, .request 0 6, .request 0 6, .request 0 6,
    .request 0 7, .request 0 7,
    .invoke 2 (.putLedger ⟨newMetadata 2 single ["n0"], 7, 7⟩),
    .invoke 3 (.transitionState 2 .Open .Closed),
    .request 2 8, .request 3 8, .request 3 9, .request 3 9, .request 2 9, .request 2 9]

theorem race_linearized :
    ∃ s, run (clients plainCodec).step noClients race = some s ∧
      s.log = [(1, .nextLedgerId), (0, .nextLedgerId),
        (0, .insertLedger (newMetadata 2 single ["n0"])), (3, .transitionState 2 .Open .Closed)] ∧
      (System.returned s 1).map Prod.snd = some (.ok (.id 1)) ∧
      (System.returned s 2).map Prod.snd = some (.error .casConflict) ∧
      ∃ st hist, Linearized plainCodec emptyStore st hist s := by
  obtain ⟨s, hrun, hchk⟩ := run_check (clients plainCodec).step noClients
    (fun s => decide (s.log = [(1, .nextLedgerId), (0, .nextLedgerId),
        (0, .insertLedger (newMetadata 2 single ["n0"])), (3, .transitionState 2 .Open .Closed)] ∧
      (System.returned s 1).map Prod.snd = some (.ok (.id 1)) ∧
      (System.returned s 2).map Prod.snd = some (.error .casConflict)))
    race (by decide +kernel)
  obtain ⟨hlog, hid, hconflict⟩ := of_decide_eq_true hchk
  exact ⟨s, hrun, hlog, hid, hconflict,
    etcd_linearizes (reach_of_run race (.start noClients_start) hrun)⟩

end Race

section Alone
variable [DecidableEq β] {codec : Codec β} {clock : Nat} {e : Etcd β} {st : Store}

def runAlone {α : Type} (clock : Nat) (p : Client β α) (e : Etcd β) :
    Etcd β × Except FolioError α :=
  Prog.run (I := Requests β) (answer clock) p e

/-- What was decoded encodes to what is stored, so the guard holds. -/
theorem replaceLedger_alone {id : Nat} {row : Row β} {current : Stamped} (m : Stamped)
    (hrow : e.rows.get (.ledger id) = some row) (hdec : codec.decode row.value = .ok current) :
    (runAlone clock (replaceLedger codec id current m) e).2 =
      .ok ⟨{ m.metadata with version := m.metadata.version + 1 }, m.createdAtMs, clock⟩ := by
  let updated : Stamped :=
    ⟨{ m.metadata with version := m.metadata.version + 1 }, m.createdAtMs, clock⟩
  have hholds : e.holds (.value (.ledger id) (codec.encode current)) := by
    rw [codec.encode_decode row.value current hdec]
    exact congrArg (Option.map Row.value) hrow
  have htxn : e.txn (.value (.ledger id) (codec.encode current)) (.ledger id)
      (codec.encode updated) = (e.put (.ledger id) (codec.encode updated), true) :=
    if_pos hholds
  change (runAlone clock (if (!(e.txn (.value (.ledger id) (codec.encode current))
    (.ledger id) (codec.encode updated)).2) = true then _ else _) _).2 = _
  rw [htxn]
  rfl

theorem getLedger_alone {α : Type} {id : Nat} {r : Except FolioError Stamped}
    (h : decodeLedger codec id (e.rows.get (.ledger id)) = r) (f : Stamped → Client β α) :
    runAlone clock (getLedger codec id >>= f) e = runAlone clock (Prog.bind (.done r) f) e := by
  rw [← h]
  rfl

theorem putLedger_alone (h : Represents codec e st) (hread : Readable codec e) (m : Stamped) :
    (runAlone clock (putLedger codec m) e).2.map Stamped.metadata =
      (st.putLedger m.metadata).2 := by
  unfold putLedger Store.putLedger
  rcases h.ledger_cases hread m.metadata.id with ⟨hst, hnone⟩ | ⟨row, current, hst, hrow, hdec⟩
  · rw [getLedger_alone hnone, hst]
    rfl
  · have hcurrent : decodeLedger codec m.metadata.id (e.rows.get (.ledger m.metadata.id)) =
        .ok current := by
      rw [hrow]
      exact hdec
    rw [getLedger_alone hcurrent, hst]
    by_cases hver : current.metadata.version = m.metadata.version
    · simp only [Prog.bind, hver, ne_eq, not_true_eq_false, if_false]
      rw [replaceLedger_alone m hrow hdec]
      rfl
    · simp only [Prog.bind, hver, ne_eq, not_false_eq_true, if_true]
      rfl

theorem transitionState_alone (h : Represents codec e st) (hread : Readable codec e) (id : Nat)
    (expected next : LedgerState) :
    (runAlone clock (transitionState codec id expected next) e).2.map Stamped.metadata =
      (st.transitionState id expected next).2 := by
  unfold transitionState Store.transitionState
  rcases h.ledger_cases hread id with ⟨hst, hnone⟩ | ⟨row, current, hst, hrow, hdec⟩
  · rw [getLedger_alone hnone, hst]
    rfl
  · have hcurrent : decodeLedger codec id (e.rows.get (.ledger id)) = .ok current := by
      rw [hrow]
      exact hdec
    rw [getLedger_alone hcurrent, hst]
    by_cases hstate : current.metadata.state = expected
    · simp only [Prog.bind, hstate, ne_eq, not_true_eq_false, if_false]
      rw [replaceLedger_alone _ hrow hdec]
      rfl
    · simp only [Prog.bind, hstate, ne_eq, not_false_eq_true, if_true]
      rfl

end Alone
end Folio.EtcdStore
