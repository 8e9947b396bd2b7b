import Folio.LedgerClient
import Folio.NodeMarks

/-! A `Replica` is what a node looks like to a client whose request runs undisturbed: the
node's requests, run step by step, answer and act as the replica's do. -/
namespace Folio.NodeReplica
open KeyedTable Protocol Fjall TransitionSystem Node NodeFence NodeMarks LedgerClient

/-- The ids held, the fences and the client-reported marks agree. -/
structure Represents (s : State) (r : Replica) : Prop where
  entries : ∀ k, (r.entries.get k).isSome ↔ Held s k
  fences : ∀ l, l ∈ r.fences ↔ l ∈ s.fences
  lac : ∀ l, r.lac.get l = s.lac.get l

section Fence
variable {env : Env} {s : State} {r : Replica} {ledger f : Nat}

theorem highMark_eq (h : Represents s r) (hm : MarkInv s) (hs : Settled s ledger) :
    Node.highMark s ledger = r.highMark ledger := by
  obtain ⟨hle, hheld⟩ := highMark_spec hm hs
  refine Nat.le_antisymm ?_ ?_
  · by_cases hzero : Node.highMark s ledger = 0
    · rw [hzero]
      exact Nat.zero_le _
    · exact le_highMark ((h.entries _).mpr (hheld hzero))
  · by_cases hsome : ∃ id, (r.entries.get (ledger, id)).isSome
    · obtain ⟨id, hid⟩ := hsome
      exact hle _ ((h.entries _).mp (highMark_held hid))
    · rw [highMark_eq_zero fun id hid => hsome ⟨id, hid⟩]
      exact Nat.zero_le _

theorem fence_simulates (h : Represents s r) (hm : MarkInv s) (hs : Settled s ledger)
    (hf : s.fenceReqs.get f = none) :
    ∃ t, run (step env) s (fenceActs f ledger) = some t ∧
      Represents t (r.fenceLedger ledger).1 ∧
      t.fenceReqs.get f = some ⟨ledger, .returned (r.highMark ledger)⟩ := by
  obtain ⟨reqs, hrun, hret⟩ := run_fenceRequest ledger hf
  refine ⟨_, (run_map (step env) _ s _).trans hrun, ⟨h.entries, fun l => ?_, h.lac⟩, ?_⟩
  · change l ∈ ledger :: r.fences ↔ l ∈ ledger :: s.fences
    rw [List.mem_cons, List.mem_cons, h.fences]
  · rw [← highMark_eq h hm hs]
    exact hret

end Fence

section Add
variable {env : Env} {s : State} {r : Replica} {c : Nat} {e : Entry}

def replyOf : AddReply → Except FolioError AppendAck
  | .duplicate ack | .written ack => .ok ack
  | .failed err => .error err

theorem registerLedger_ok (env : Env) (s : State) (hkey : e.masterKey = none)
    (hhmac : e.hmac = none) : (registerLedger env s e).2 = .ok () := by
  have hrecord : ∃ t, recordLedger s e = .ok t := by
    unfold recordLedger
    rw [hkey]
    obtain ⟨y, hy⟩ := s.entryIndex.ensureLedgerKnown_no_key e.ledgerId
    rw [hy]
    split
    · exact ⟨_, rfl⟩
    · exact ⟨s, rfl⟩
  obtain ⟨t, ht⟩ := hrecord
  unfold registerLedger
  rw [ht]
  unfold verifyHmac
  rw [hhmac]

theorem stepAdd_register (hget : s.adds.get c = some ⟨e, .checked⟩) (hkey : e.masterKey = none)
    (hhmac : e.hmac = none) :
    stepAdd env s c .register =
      some (setAdd (registerLedger env s e).1 c ⟨e, .checked⟩ .registered) := by
  have hok := registerLedger_ok env s hkey hhmac
  simp only [stepAdd, hget]
  split
  · rename_i t hreg
    rw [hreg]
  · rename_i t err hreg
    rw [hreg] at hok
    cases hok

def checkedState (env : Env) (s : State) (c : Nat) (e : Entry) : State :=
  setAdd { s with adds := s.adds.put c ⟨e, .started⟩ } c ⟨e, .started⟩ (fenceCheck env s e)

theorem run_checked {as : List Act} {t : State} (hc : s.adds.get c = none)
    (h : run (step env) (checkedState env s c e) as = some t) :
    run (step env) s (.add c (.invoke e) :: .add c .fenceCheck :: as) = some t := by
  have h₁ : step env s (.add c (.invoke e)) =
      some { s with adds := s.adds.put c ⟨e, .started⟩ } := by
    simp only [step, stepAdd, hc]
  refine run_cons h₁ (run_cons ?_ h)
  simp only [step, stepAdd, Table.get_put_self]
  rfl

def registeredState (env : Env) (s : State) (c : Nat) (e : Entry) : State :=
  setAdd (registerLedger env (checkedState env s c e) e).1 c ⟨e, .checked⟩ .registered

theorem run_registered {as : List Act} {t : State} (hc : s.adds.get c = none)
    (hcheck : fenceCheck env s e = .checked) (hkey : e.masterKey = none) (hhmac : e.hmac = none)
    (h : run (step env) (registeredState env s c e) as = some t) :
    run (step env) s (.add c (.invoke e) :: .add c .fenceCheck :: .add c .register :: as) =
      some t := by
  refine run_checked hc (run_cons (stepAdd_register ?_ hkey hhmac) h)
  rw [← hcheck]
  exact Table.get_put_self _ _ _

theorem registered_get : (registeredState env s c e).adds.get c = some ⟨e, .registered⟩ :=
  Table.get_put_self _ _ _

theorem represents_registered (env : Env) (c : Nat) (e : Entry) (h : Represents s r) :
    Represents (registeredState env s c e) r ∧
      (registeredState env s c e).sealing = s.sealing ∧
      (registeredState env s c e).nodeId = s.nodeId := by
  obtain ⟨hstate, hloc⟩ := registerLedger_frame env (checkedState env s c e) e
  unfold registeredState
  rw [hstate]
  refine ⟨⟨fun k => ?_, h.fences, h.lac⟩, rfl, rfl⟩
  rw [h.entries, held_iff, held_iff]
  unfold Indexed FjallIndex.getLocation
  dsimp only [setAdd]
  rw [hloc]
  rfl

structure Answers (s t : State) (r : Replica) (env : Env) (c : Nat) (e : Entry) : Prop where
  represents : Represents t (r.addEntry env.crc32 s.nodeId e).1
  reply : ∃ reply, t.adds.get c = some ⟨e, .returned reply⟩ ∧
    replyOf reply = (r.addEntry env.crc32 s.nodeId e).2

theorem refused_answers (h : Represents s r) {err : FolioError}
    (hcheck : fenceCheck env s e = .returned (.failed err)) :
    Answers s (checkedState env s c e) r env c e := by
  have hget : (checkedState env s c e).adds.get c = some ⟨e, .returned (.failed err)⟩ := by
    rw [← hcheck]
    exact Table.get_put_self _ _ _
  have hadd : r.addEntry env.crc32 s.nodeId e = (r, .error err) := by
    unfold fenceCheck at hcheck
    unfold Replica.addEntry
    simp only [h.fences]
    split_ifs at hcheck ⊢ <;> cases hcheck <;> rfl
  constructor
  · rw [hadd]
    exact ⟨h.entries, h.fences, h.lac⟩
  · rw [hadd]
    exact ⟨_, hget, rfl⟩

theorem addEntry_checked (h : Represents s r) (hcheck : fenceCheck env s e = .checked) :
    r.addEntry env.crc32 s.nodeId e =
      match r.entries.get e.key with
      | some _ => (r, .ok (ackOf s e ((r.lac.get e.ledgerId).getD 0)))
      | none =>
        ({ r with
          entries := r.entries.put e.key e
          lac := r.lac.put e.ledgerId (((r.lac.get e.ledgerId).map (max e.lac)).getD e.lac) },
         .ok (ackOf s e (((r.lac.get e.ledgerId).map (max e.lac)).getD e.lac))) := by
  unfold fenceCheck at hcheck
  unfold Replica.addEntry
  simp only [h.fences]
  split_ifs at hcheck ⊢
  cases r.entries.get e.key <;> rfl

theorem duplicate_answers (h : Represents s r) (hcheck : fenceCheck env s e = .checked)
    (hdup : Held s e.key) :
    Answers s (setAdd (registeredState env s c e) c ⟨e, .registered⟩
      (dupCheck (registeredState env s c e) e)) r env c e := by
  obtain ⟨hr, -, hnode⟩ := represents_registered env c e h
  have hheld : Held (registeredState env s c e) e.key :=
    (hr.entries _).mp ((h.entries _).mpr hdup)
  obtain ⟨old, hold⟩ := Option.isSome_iff_exists.mp ((h.entries _).mpr hdup)
  have hpc : dupCheck (registeredState env s c e) e =
      .returned (.duplicate (ackOf s e ((r.lac.get e.ledgerId).getD 0))) := by
    unfold dupCheck
    rw [if_pos (show isDuplicate _ _ = true from hheld), ← hr.lac]
    unfold ackOf
    rw [hnode]
  have hadd := addEntry_checked h hcheck
  rw [hold] at hadd
  rw [hpc]
  constructor
  · rw [hadd]
    exact ⟨hr.entries, hr.fences, hr.lac⟩
  · rw [hadd]
    exact ⟨_, Table.get_put_self _ _ _, rfl⟩

theorem written_answers {u : State} (h : Represents s r) (hu : Represents u r)
    (hnode : u.nodeId = s.nodeId) (hcheck : fenceCheck env s e = .checked)
    (hnew : ¬Held s e.key) :
    Answers s (setAdd (cacheEntry env u e).1 c ⟨e, .marked⟩ (.returned (cacheEntry env u e).2))
      r env c e := by
  have hnone : r.entries.get e.key = none :=
    Option.not_isSome_iff_eq_none.mp fun hs => hnew ((h.entries _).mp hs)
  have hadd := addEntry_checked h hcheck
  rw [hnone] at hadd
  constructor
  · rw [hadd]
    refine ⟨fun k => ?_, hu.fences, fun l => ?_⟩
    · have hcached := u.cache.insert_cached e.key k (env.serialize e)
      have hold := hu.entries k
      rw [held_iff] at hold ⊢
      dsimp only
      rw [Table.get_put]
      change _ ↔ (u.cache.insert e.key (env.serialize e)).contains k = true ∨ Indexed u k
      rw [hcached, or_assoc]
      by_cases hk : k = e.key
      · simp [hk]
      · simpa [hk, Cached] using hold
    · change (r.lac.put _ _).get l = (raise u.lac e.ledgerId e.lac).get l
      unfold raise
      rw [Table.get_put, Table.get_put, hu.lac, hu.lac]
  · rw [hadd]
    refine ⟨_, Table.get_put_self _ _ _, ?_⟩
    unfold cacheEntry raise ackOf
    dsimp only [replyOf]
    rw [Table.get_put_self, hnode, hu.lac]
    rfl

theorem add_simulates (h : Represents s r) (hc : s.adds.get c = none) (hopen : s.sealing = .open)
    (hkey : e.masterKey = none) (hhmac : e.hmac = none) :
    ∃ t n, run (step env) s ((addActs c e).take n) = some t ∧ Answers s t r env c e := by
  obtain ⟨hr, hseal, hnode⟩ := represents_registered env c e h
  by_cases hcheck : fenceCheck env s e = .checked
  · let u := registeredState env s c e
    have hdup : step env u (.add c .dupCheck) =
        some (setAdd u c ⟨e, .registered⟩ (dupCheck u e)) := by
      simp only [step, stepAdd, u, registered_get]
    by_cases hheld : Held s e.key
    · exact ⟨_, 4, run_registered hc hcheck hkey hhmac (run_cons hdup rfl),
        duplicate_answers h hcheck hheld⟩
    · have hsent : dupCheck u e = .sent := by
        unfold dupCheck
        exact if_neg fun hd => hheld ((h.entries _).mp ((hr.entries _).mpr hd))
      rw [hsent] at hdup
      let u₁ := setAdd u c ⟨e, .registered⟩ .sent
      let u₂ := setAdd (logRecord u₁ e.key) c ⟨e, .sent⟩ .logged
      let u₃ := setAdd { u₂ with hiEntry := raise u₂.hiEntry e.ledgerId e.entryId } c
        ⟨e, .logged⟩ .marked
      have hget : ∀ (v : State) (req : AddReq) (pc : AddPc),
          (setAdd v c req pc).adds.get c = some { req with pc } :=
        fun v req pc => Table.get_put_self _ _ _
      have hopen' : u₁.sealing = .open := hseal.trans hopen
      have h₂ : step env u₁ (.add c (.journal .ok)) = some u₂ := by
        simp only [step, stepAdd, hget, u₁, u₂]
        exact if_neg fun hne => hne hopen'
      have h₃ : step env u₂ (.add c .mark) = some u₃ := by
        simp only [step, stepAdd, hget, u₂, u₃]
      have h₄ : step env u₃ (.add c .cache) = some (setAdd (cacheEntry env u₃ e).1 c
          ⟨e, .marked⟩ (.returned (cacheEntry env u₃ e).2)) := by
        simp only [step, stepAdd, hget, u₃]
      have hu₃ : Represents u₃ r := ⟨hr.entries, hr.fences, hr.lac⟩
      exact ⟨_, 7, run_registered hc hcheck hkey hhmac
        (run_cons hdup (run_cons h₂ (run_cons h₃ (run_cons h₄ rfl)))),
        written_answers h hu₃ hnode hcheck hheld⟩
  · obtain ⟨err, herr⟩ : ∃ err, fenceCheck env s e = .returned (.failed err) := by
      unfold fenceCheck at hcheck ⊢
      split_ifs at hcheck ⊢
      · exact ⟨_, rfl⟩
      · exact ⟨_, rfl⟩
      · exact absurd rfl hcheck
    exact ⟨_, 2, run_checked hc rfl, refused_answers h herr⟩

end Add
end Folio.NodeReplica
