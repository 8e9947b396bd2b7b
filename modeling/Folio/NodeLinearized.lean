import Folio.NodeReplica

/-! Requests that run at the same time on one node, with the flush loop, the seals and the
collector between their steps, and the replica that serves them one after the other. -/
namespace Folio.NodeLinearized
open KeyedTable Protocol Fjall EntryCache TransitionSystem Node NodeFence NodeMarks NodeReplica
open LedgerClient
variable {env : Env} {s t : State} {c : Nat} {a : AddAct}

inductive Request where
  | add (e : Entry)
  | fence (ledger : Nat)

inductive Answer where
  | added (r : Except FolioError AppendAck)
  | fenced (mark : Except FolioError Nat)

section Replica
variable (crc32 : Bytes → UInt32) (nodeId : NodeId)

def serve (r : Replica) : Request → Replica × Answer
  | .add e => ((r.addEntry crc32 nodeId e).1, .added (r.addEntry crc32 nodeId e).2)
  | .fence ledger => ((r.fenceLedger ledger).1, .fenced (r.fenceLedger ledger).2)

def serveAll (r : Replica) : List Request → Replica × List Answer
  | [] => (r, [])
  | q :: qs =>
    let rest := serveAll (serve crc32 nodeId r q).1 qs
    (rest.1, (serve crc32 nodeId r q).2 :: rest.2)

end Replica

inductive Caller where
  | add (c : Nat)
  | fence (f : Nat)
  deriving DecidableEq

structure Event where
  caller : Caller
  request : Request
  answer : Answer

variable {o : Option Event} {hist : List Event}

def answered (c : Nat) (e : Entry) (reply : AddReply) : Event :=
  ⟨.add c, .add e, .added (replyOf reply)⟩

def fenced (f ledger mark : Nat) : Event := ⟨.fence f, .fence ledger, .fenced (.ok mark)⟩

section Order

def eventOf (c : Nat) (e : Entry) : AddPc → Option Event
  | .returned reply => some (answered c e reply)
  | _ => none

/-- The one step of a request at which it takes effect. A request that the registration or the
journal fails has none. -/
def event (env : Env) (s : State) : Act → Option Event
  | .add c .fenceCheck =>
    match s.adds.get c with
    | some ⟨e, .started⟩ => eventOf c e (fenceCheck env s e)
    | _ => none
  | .add c .dupCheck =>
    match s.adds.get c with
    | some ⟨e, .registered⟩ => eventOf c e (dupCheck s e)
    | _ => none
  | .add c .cache =>
    match s.adds.get c with
    | some ⟨e, .marked⟩ => some (answered c e (cacheEntry env s e).2)
    | _ => none
  | .fence f .inSet =>
    match s.fenceReqs.get f with
    | some ⟨ledger, .durable⟩ => some (fenced f ledger (highMark s ledger))
    | _ => none
  | _ => none

def history (env : Env) : State → List Act → List Event
  | _, [] => []
  | s, a :: as => (event env s a).toList ++ ((step env s a).map (history env · as)).getD []

def Writing : AddPc → Prop
  | .sent | .logged | .marked => True
  | _ => False

instance : DecidablePred Writing
  | .sent | .logged | .marked => inferInstanceAs (Decidable True)
  | .started | .checked | .registered | .kept _ | .returned _ => inferInstanceAs (Decidable False)

def Passed : AddPc → Prop
  | .checked | .registered | .sent | .logged | .marked => True
  | _ => False

instance : DecidablePred Passed
  | .checked | .registered | .sent | .logged | .marked => inferInstanceAs (Decidable True)
  | .started | .kept _ | .returned _ => inferInstanceAs (Decidable False)

def Between : FencePc → Prop
  | .readEntry _ _ => True
  | _ => False

instance : DecidablePred Between
  | .readEntry _ _ => inferInstanceAs (Decidable True)
  | .started | .durable | .inSet | .readHi _ | .returned _ => inferInstanceAs (Decidable False)

/-- No two requests write the same id at the same time, no fence enters the set while a write of
its ledger is past its check, the flush loop takes no entry out of `wal_index` while a fence of
its ledger is between its two reads, and no id is the last `u64`. -/
def exclusive (s : State) : Act → Prop
  | .add _ (.invoke e) => e.entryId + 1 < 2 ^ 64
  | .add c .dupCheck => ∀ req ∈ s.adds.get c, ∀ other ∈ s.adds.values,
      other.entry.key = req.entry.key → ¬Writing other.pc
  | .fence f .inSet => ∀ fence ∈ s.fenceReqs.get f, ∀ req ∈ s.adds.values,
      req.entry.ledgerId = fence.ledger → ¬Passed req.pc
  | .flush .unlink => ∀ row ∈ s.flush.pending.head?, ∀ fence ∈ s.fenceReqs.values,
      fence.ledger = row.1.1 → ¬Between fence.pc
  | _ => True

instance (s : State) : (a : Act) → Decidable (exclusive s a)
  | .add _ (.invoke e) => inferInstanceAs (Decidable (e.entryId + 1 < 2 ^ 64))
  | .add c .dupCheck => inferInstanceAs (Decidable (∀ req ∈ s.adds.get c,
      ∀ other ∈ s.adds.values, other.entry.key = req.entry.key → ¬Writing other.pc))
  | .fence f .inSet => inferInstanceAs (Decidable (∀ fence ∈ s.fenceReqs.get f,
      ∀ req ∈ s.adds.values, req.entry.ledgerId = fence.ledger → ¬Passed req.pc))
  | .flush .unlink => inferInstanceAs (Decidable (∀ row ∈ s.flush.pending.head?,
      ∀ fence ∈ s.fenceReqs.values, fence.ledger = row.1.1 → ¬Between fence.pc))
  | .add _ .fenceCheck | .add _ .register | .add _ (.journal _) | .add _ .mark | .add _ .cache
  | .fence _ (.invoke _) | .fence _ .durable | .fence _ .readHi | .fence _ .readEntryIndex
  | .fence _ .readWalIndex | .sealWal _ | .flush (.drain _) | .flush .write
  | .flush .evict | .flush (.index _ _ _) | .flush .stop | .gc _ => inferInstanceAs (Decidable True)

end Order

section Steps

inductive Added (env : Env) (s : State) (c : Nat) : AddAct → Option Event → State → Prop
  | invoke (e : Entry) : s.adds.get c = none →
      Added env s c (.invoke e) none { s with adds := s.adds.put c ⟨e, .started⟩ }
  | passed (e : Entry) : s.adds.get c = some ⟨e, .started⟩ → fenceCheck env s e = .checked →
      Added env s c .fenceCheck none (setAdd s c ⟨e, .started⟩ .checked)
  | refused (e : Entry) (err : FolioError) : s.adds.get c = some ⟨e, .started⟩ →
      fenceCheck env s e = .returned (.failed err) →
      Added env s c .fenceCheck (some (answered c e (.failed err)))
        (setAdd s c ⟨e, .started⟩ (.returned (.failed err)))
  | registered (e : Entry) : s.adds.get c = some ⟨e, .checked⟩ →
      Added env s c .register none
        (setAdd (registerLedger env s e).1 c ⟨e, .checked⟩ .registered)
  | rejected (e : Entry) (err : FolioError) : s.adds.get c = some ⟨e, .checked⟩ →
      Added env s c .register none
        (setAdd (registerLedger env s e).1 c ⟨e, .checked⟩ (.returned (.failed err)))
  | duplicate (e : Entry) (ack : AppendAck) : s.adds.get c = some ⟨e, .registered⟩ →
      Held s e.key → ack = ackOf s e ((s.lac.get e.ledgerId).getD 0) →
      Added env s c .dupCheck (some (answered c e (.duplicate ack)))
        (setAdd s c ⟨e, .registered⟩ (.returned (.duplicate ack)))
  | fresh (e : Entry) : s.adds.get c = some ⟨e, .registered⟩ → ¬Held s e.key →
      Added env s c .dupCheck none (setAdd s c ⟨e, .registered⟩ .sent)
  | journal (e : Entry) (out : WriteOutcome) (pc : AddPc) (files : Table SegPath (List Key)) :
      s.adds.get c = some ⟨e, .sent⟩ → (pc = .logged ∨ (∃ err, pc = .kept err) ∨
        ∃ err, pc = .returned (.failed err)) →
      Added env s c (.journal out) none (setAdd { s with walFiles := files } c ⟨e, .sent⟩ pc)
  | mark (e : Entry) : s.adds.get c = some ⟨e, .logged⟩ →
      Added env s c .mark none
        (setAdd { s with hiEntry := raise s.hiEntry e.ledgerId e.entryId } c ⟨e, .logged⟩ .marked)
  | cache (e : Entry) : s.adds.get c = some ⟨e, .marked⟩ →
      Added env s c .cache (some (answered c e (cacheEntry env s e).2))
        (setAdd (cacheEntry env s e).1 c ⟨e, .marked⟩ (.returned (cacheEntry env s e).2))

theorem fenceCheck_cases (env : Env) (s : State) (e : Entry) :
    fenceCheck env s e = .checked ∨ ∃ err, fenceCheck env s e = .returned (.failed err) := by
  unfold fenceCheck
  split_ifs
  · exact .inr ⟨_, rfl⟩
  · exact .inr ⟨_, rfl⟩
  · exact .inl rfl

theorem stepAdd_added (h : stepAdd env s c a = some t) :
    Added env s c a (event env s (.add c a)) t := by
  unfold stepAdd at h
  split at h
  · cases h
    exact .invoke _ ‹_›
  · rename_i e hget
    cases h
    simp only [event, hget]
    rcases fenceCheck_cases env s e with hcheck | ⟨err, hcheck⟩
    · rw [hcheck]
      exact .passed e hget hcheck
    · rw [hcheck]
      exact .refused e err hget hcheck
  · rename_i e hget
    split at h
    · rename_i u hreg
      cases h
      have hok : Added env s c .register none _ := .registered e hget
      rwa [hreg] at hok
    · rename_i u err hreg
      cases h
      have herr : Added env s c .register none _ := .rejected e err hget
      rwa [hreg] at herr
  · rename_i e hget
    cases h
    simp only [event, hget]
    unfold dupCheck
    split_ifs with hdup
    · exact .duplicate e _ hget hdup rfl
    · exact .fresh e hget hdup
  · rename_i out e hget
    split_ifs at h
    split at h <;> cases h
    · exact .journal e _ _ _ hget (.inl rfl)
    · exact .journal e _ _ _ hget (.inr (.inl ⟨_, rfl⟩))
    · exact .journal e _ _ s.walFiles hget (.inr (.inr ⟨_, rfl⟩))
  · rename_i e hget
    cases h
    exact .mark e hget
  · rename_i e hget
    cases h
    simp only [event, hget]
    exact .cache e hget
  · cases h

end Steps

section Held
variable {k : Key}

structure Base (s : State) : Prop where
  marks : MarkInv s
  records : WalGc.Inv s
  head : HeadIndexed s
  pending : ∀ k, WalGc.Pending s k → Held s k

theorem Base.flush (h : Base s) (hst : FlushStep s t) : Held t k ↔ Held s k :=
  held_flushStep h.records.warm h.head h.pending hst

theorem added_held (hst : Added env s c a o t) (ha : a ≠ .cache) : Held t k ↔ Held s k := by
  cases hst with
  | registered e hget =>
    obtain ⟨hs, hloc⟩ := registerLedger_frame env s e
    rw [hs]
    exact held_same rfl hloc rfl
  | rejected e err hget =>
    obtain ⟨hs, hloc⟩ := registerLedger_frame env s e
    rw [hs]
    exact held_same rfl hloc rfl
  | cache e hget => exact absurd rfl ha
  | _ => exact held_same rfl rfl rfl

structure Beside (s t : State) : Prop where
  fences : t.fences = s.fences
  fenceReqs : t.fenceReqs = s.fenceReqs
  walIndex : t.walIndex = s.walIndex
  flush : t.flush = s.flush
  nodeId : t.nodeId = s.nodeId

theorem Added.beside (hst : Added env s c a o t) : Beside s t := by
  cases hst with
  | registered e hget =>
    obtain ⟨hs, -⟩ := registerLedger_frame env s e
    rw [hs]
    exact ⟨rfl, rfl, rfl, rfl, rfl⟩
  | rejected e err hget =>
    obtain ⟨hs, -⟩ := registerLedger_frame env s e
    rw [hs]
    exact ⟨rfl, rfl, rfl, rfl, rfl⟩
  | _ => exact ⟨rfl, rfl, rfl, rfl, rfl⟩

theorem base_step {a : Act} (h : Base s) (hst : step env s a = some t) : Base t := by
  obtain ⟨hmarks, hrecords, hhead⟩ := marked_step ⟨h.marks, h.records, h.head⟩ hst
  refine ⟨hmarks, hrecords, hhead, fun k hk => ?_⟩
  rcases step_cases hst with ⟨c, hadd⟩ | ⟨-, hflush⟩ | haside
  · rw [WalGc.Pending, hadd.flush] at hk
    exact (held_addStep hadd k).mpr (.inl (h.pending k hk))
  · exact (h.flush hflush).mpr (pending_flushStep h.pending hflush hk)
  · rw [haside.state] at hk
    refine (held_same ?_ haside.locations ?_).mpr (h.pending k hk) <;> rw [haside.state]

end Held

section Requests

structure Apart (env : Env) (s : State) : Prop where
  bound : ∀ c req, s.adds.get c = some req → req.entry.entryId + 1 < 2 ^ 64
  passed : ∀ c req, s.adds.get c = some req → Passed req.pc →
    fenceCheck env s req.entry = .checked
  fresh : ∀ c req, s.adds.get c = some req → Writing req.pc → ¬Held s req.entry.key
  alone : ∀ c c' req req', s.adds.get c = some req → s.adds.get c' = some req' →
    Writing req.pc → Writing req'.pc → req.entry.key = req'.entry.key → c = c'

theorem fenceCheck_congr (hf : t.fences = s.fences) (e : Entry) :
    fenceCheck env t e = fenceCheck env s e := by
  unfold fenceCheck
  rw [hf]

theorem Apart.move {req : AddReq} (h : Apart env s) (hadds : t.adds = s.adds.put c req)
    (hf : t.fences = s.fences) (hbound : req.entry.entryId + 1 < 2 ^ 64)
    (hpassed : Passed req.pc → fenceCheck env s req.entry = .checked)
    (hothers : ∀ c' req', c' ≠ c → s.adds.get c' = some req' → Writing req'.pc →
      ¬Held t req'.entry.key)
    (hown : Writing req.pc → ¬Held t req.entry.key ∧ ∀ c' req', c' ≠ c →
      s.adds.get c' = some req' → Writing req'.pc → req'.entry.key ≠ req.entry.key) :
    Apart env t where
  bound := by
    intro c' req' hget
    rw [hadds, Table.get_put] at hget
    split_ifs at hget
    · cases hget
      exact hbound
    · exact h.bound c' req' hget
  passed := by
    intro c' req' hget hpc
    rw [fenceCheck_congr hf]
    rw [hadds, Table.get_put] at hget
    split_ifs at hget
    · cases hget
      exact hpassed hpc
    · exact h.passed c' req' hget hpc
  fresh := by
    intro c' req' hget hpc
    rw [hadds, Table.get_put] at hget
    split_ifs at hget with hc
    · cases hget
      exact (hown hpc).1
    · exact hothers c' req' hc hget hpc
  alone := by
    intro c₁ c₂ req₁ req₂ h₁ h₂ hw₁ hw₂ hkey
    rw [hadds, Table.get_put] at h₁ h₂
    split_ifs at h₁ h₂ with hc₁ hc₂ hc₂
    · rw [hc₁, hc₂]
    · cases h₁
      exact absurd hkey.symm ((hown hw₁).2 c₂ req₂ hc₂ h₂ hw₂)
    · cases h₂
      exact absurd hkey ((hown hw₂).2 c₁ req₁ hc₁ h₁ hw₁)
    · exact h.alone c₁ c₂ req₁ req₂ h₁ h₂ hw₁ hw₂ hkey

theorem Apart.own {e : Entry} {pc : AddPc} (h : Apart env s) (hget : s.adds.get c = some ⟨e, pc⟩)
    (hpc : Writing pc) : ¬Held s e.key ∧ ∀ c' req', c' ≠ c → s.adds.get c' = some req' →
      Writing req'.pc → req'.entry.key ≠ e.key := by
  have hfresh := h.fresh c _ hget hpc
  refine ⟨hfresh, fun c' req' hc hget' hpc' hkey => hc ?_⟩
  exact h.alone c' c req' _ hget' hget hpc' hpc hkey

theorem register_adds (s : State) (e : Entry) (req : AddReq) (pc : AddPc) :
    (setAdd (registerLedger env s e).1 c req pc).adds = s.adds.put c { req with pc } := by
  rw [(registerLedger_frame env s e).state]
  rfl

theorem Apart.added (h : Apart env s)
    (hg : exclusive s (.add c a)) (hst : Added env s c a o t) : Apart env t := by
  have hbound : ∀ {e pc}, s.adds.get c = some ⟨e, pc⟩ → e.entryId + 1 < 2 ^ 64 :=
    fun hget => h.bound c _ hget
  have hpassed : ∀ {e pc}, s.adds.get c = some ⟨e, pc⟩ → Passed pc →
      fenceCheck env s e = .checked := fun hget => h.passed c _ hget
  have hfences := hst.beside.fences
  have hquiet : a ≠ .cache → ∀ c' req', c' ≠ c → s.adds.get c' = some req' → Writing req'.pc →
      ¬Held t req'.entry.key := fun ha c' req' _ hget hpc hk =>
    h.fresh c' req' hget hpc ((added_held hst ha).mp hk)
  cases hst with
  | invoke e hget => exact h.move rfl rfl hg False.elim (hquiet nofun) False.elim
  | passed e hget hcheck =>
    exact h.move rfl rfl (hbound hget) (fun _ => hcheck) (hquiet nofun) False.elim
  | refused e err hget hcheck =>
    exact h.move rfl rfl (hbound hget) False.elim (hquiet nofun) False.elim
  | registered e hget =>
    exact h.move (register_adds s e _ _) hfences (hbound hget) (fun _ => hpassed hget trivial)
      (hquiet nofun) False.elim
  | rejected e err hget =>
    exact h.move (register_adds s e _ _) hfences (hbound hget) False.elim (hquiet nofun) False.elim
  | duplicate e ack hget hheld hack =>
    exact h.move rfl rfl (hbound hget) False.elim (hquiet nofun) False.elim
  | fresh e hget hnew =>
    refine h.move rfl rfl (hbound hget) (fun _ => hpassed hget trivial) (hquiet nofun)
      fun _ => ⟨hnew, fun c' req' _ hget' hpc' hkey => ?_⟩
    exact hg _ hget req' ((Table.mem_values_iff _ _).mpr ⟨c', hget'⟩) hkey hpc'
  | journal e out pc files hget hpc =>
    exact h.move rfl rfl (hbound hget) (fun _ => hpassed hget trivial) (hquiet nofun)
      fun _ => h.own hget trivial
  | mark e hget =>
    exact h.move rfl rfl (hbound hget) (fun _ => hpassed hget trivial) (hquiet nofun)
      fun _ => h.own hget trivial
  | cache e hget =>
    refine h.move rfl rfl (hbound hget) False.elim (fun c' req' hc hget' hpc' hk => ?_) False.elim
    rcases (held_cache e _ _).mp hk with hk | hk
    · exact (h.own hget trivial).2 c' req' hc hget' hpc' hk
    · exact h.fresh c' req' hget' hpc' hk

end Requests

section Answers
variable {r r' : Replica} {c f : Nat} {a : AddAct} {q : Option AddReq}

def Silent (hist : List Event) (caller : Caller) : Prop := ∀ ev ∈ hist, ev.caller ≠ caller

theorem silent_nil (caller : Caller) : Silent [] caller :=
  fun _ hev => absurd hev List.not_mem_nil

theorem Silent.append {caller : Caller} (h : Silent hist caller)
    (ho : ∀ ev ∈ o, ev.caller ≠ caller) : Silent (hist ++ o.toList) caller := by
  intro ev hev
  rcases List.mem_append.mp hev with hev | hev
  · exact h ev hev
  · exact ho ev (Option.mem_toList.mp hev)

def AddTold (hist : List Event) (c : Nat) : Option AddReq → Prop
  | some ⟨e, .returned reply⟩ => answered c e reply ∈ hist ∨
      (∃ err, reply = .failed err) ∧ Silent hist (.add c)
  | _ => Silent hist (.add c)

def Finds (s : State) (mark ledger : Nat) : FencePc → Prop
  | .readHi memHi => memHi = memMark s ledger
  | .readEntry memHi hiEntry => max memHi (max hiEntry (walMark s ledger)) = mark
  | _ => True

structure FenceSeen (hist : List Event) (s : State) (r : Replica) (f ledger : Nat)
    (pc : FencePc) : Prop where
  mem : ledger ∈ s.fences
  finds : Finds s (r.highMark ledger) ledger pc
  told : fenced f ledger (r.highMark ledger) ∈ hist

def FenceTold (hist : List Event) (s : State) (r : Replica) (f : Nat) : Option FenceReq → Prop
  | some ⟨ledger, .returned mark⟩ => fenced f ledger mark ∈ hist
  | some ⟨ledger, .inSet⟩ => FenceSeen hist s r f ledger .inSet
  | some ⟨ledger, .readHi memHi⟩ => FenceSeen hist s r f ledger (.readHi memHi)
  | some ⟨ledger, .readEntry memHi hiEntry⟩ =>
    FenceSeen hist s r f ledger (.readEntry memHi hiEntry)
  | _ => Silent hist (.fence f)

theorem Finds.same {mark ledger : Nat} {pc : FencePc} (h : Finds s mark ledger pc)
    (hmem : memMark t ledger = memMark s ledger)
    (hwal : Between pc → walMark t ledger = walMark s ledger) : Finds t mark ledger pc := by
  cases pc with
  | readHi memHi => exact h.trans hmem.symm
  | readEntry memHi hiEntry =>
    unfold Finds
    rw [hwal trivial]
    exact h
  | _ => trivial

theorem AddTold.append (h : AddTold hist c q)
    (ho : ∀ ev ∈ o, ev.caller ≠ .add c) : AddTold (hist ++ o.toList) c q := by
  unfold AddTold at h ⊢
  split at h
  · exact h.imp (List.mem_append_left _) fun hf => ⟨hf.1, hf.2.append ho⟩
  · exact Silent.append h ho

theorem AddTold.silent (h : AddTold hist c q)
    (hq : ∀ e reply, q ≠ some ⟨e, .returned reply⟩) : Silent hist (.add c) := by
  unfold AddTold at h
  split at h
  · exact absurd rfl (hq _ _)
  · exact h

theorem FenceTold.append {q : Option FenceReq} (h : FenceTold hist s r f q)
    (ho : ∀ ev ∈ o, ev.caller ≠ .fence f) (hfences : ∀ l ∈ s.fences, l ∈ t.fences)
    (hmark : ∀ l ∈ s.fences, r'.highMark l = r.highMark l)
    (hmem : ∀ l ∈ s.fences, memMark t l = memMark s l)
    (hwal : ∀ fence ∈ q, Between fence.pc → walMark t fence.ledger = walMark s fence.ledger) :
    FenceTold (hist ++ o.toList) t r' f q := by
  have hseen {ledger : Nat} {pc : FencePc} (h : FenceSeen hist s r f ledger pc)
      (hq : q = some ⟨ledger, pc⟩) : FenceSeen (hist ++ o.toList) t r' f ledger pc := by
    refine ⟨hfences _ h.mem, ?_, ?_⟩
    · rw [hmark _ h.mem]
      exact h.finds.same (hmem _ h.mem) (hwal _ hq)
    · rw [hmark _ h.mem]
      exact List.mem_append_left _ h.told
  unfold FenceTold at h ⊢
  split at h
  · exact List.mem_append_left _ h
  · exact hseen h rfl
  · exact hseen h rfl
  · exact hseen h rfl
  · exact Silent.append h ho

structure Told (hist : List Event) (s : State) (r : Replica) : Prop where
  adds : ∀ c, AddTold hist c (s.adds.get c)
  fences : ∀ f, FenceTold hist s r f (s.fenceReqs.get f)
  once : (hist.map Event.caller).Nodup

theorem nodup_append (h : (hist.map Event.caller).Nodup)
    (ho : ∀ ev ∈ o, Silent hist ev.caller) : ((hist ++ o.toList).map Event.caller).Nodup := by
  cases o with
  | none => simpa using h
  | some ev =>
    rw [Option.toList_some, List.map_append, List.map_singleton, List.nodup_append_comm]
    refine List.nodup_cons.mpr ⟨fun hmem => ?_, h⟩
    obtain ⟨ev', hev', heq⟩ := List.mem_map.mp hmem
    exact ho ev rfl ev' hev' heq

theorem Added.caller (hst : Added env s c a o t) : ∀ ev ∈ o, ev.caller = .add c := by
  intro ev hev
  cases hst <;> cases hev <;> rfl

theorem Added.unanswered (hst : Added env s c a o t)
    (h : AddTold hist c (s.adds.get c)) : Silent hist (.add c) := by
  refine h.silent fun e reply hq => ?_
  cases hst <;> simp_all

theorem Added.request (hst : Added env s c a o t) (hsilent : Silent hist (.add c)) :
    ∃ req, t.adds = s.adds.put c req ∧ AddTold (hist ++ o.toList) c (some req) := by
  have hquiet : Silent (hist ++ (none : Option Event).toList) (.add c) :=
    hsilent.append fun ev hev => absurd hev (Option.not_mem_none ev)
  have hlast (ev : Event) : ev ∈ hist ++ (some ev).toList :=
    List.mem_append_right _ (List.mem_singleton.mpr rfl)
  cases hst with
  | invoke e hget => exact ⟨_, rfl, hquiet⟩
  | passed e hget hcheck => exact ⟨_, rfl, hquiet⟩
  | refused e err hget hcheck => exact ⟨_, rfl, .inl (hlast _)⟩
  | registered e hget => exact ⟨_, register_adds s e _ _, hquiet⟩
  | rejected e err hget => exact ⟨_, register_adds s e _ _, .inr ⟨⟨err, rfl⟩, hquiet⟩⟩
  | duplicate e ack hget hheld hack => exact ⟨_, rfl, .inl (hlast _)⟩
  | fresh e hget hnew => exact ⟨_, rfl, hquiet⟩
  | journal e out pc files hget hpc =>
    refine ⟨_, rfl, ?_⟩
    rcases hpc with rfl | ⟨err, rfl⟩ | ⟨err, rfl⟩
    · exact hquiet
    · exact hquiet
    · exact .inr ⟨⟨err, rfl⟩, hquiet⟩
  | mark e hget => exact ⟨_, rfl, hquiet⟩
  | cache e hget => exact ⟨_, rfl, .inl (hlast _)⟩

theorem Told.add (h : Told hist s r) (hst : Added env s c a o t)
    (hmark : ∀ l ∈ s.fences, r'.highMark l = r.highMark l)
    (hmem : ∀ l ∈ s.fences, memMark t l = memMark s l) : Told (hist ++ o.toList) t r' := by
  have hsilent := hst.unanswered (h.adds c)
  have hcaller := hst.caller
  obtain ⟨req, hadds, hown⟩ := hst.request hsilent
  refine ⟨fun c' => ?_, fun f => ?_, nodup_append h.once fun ev hev => ?_⟩
  · rw [hadds, Table.get_put]
    split_ifs with hc
    · rw [hc]
      exact hown
    · refine (h.adds c').append fun ev hev heq => hc ?_
      exact (Caller.add.inj ((hcaller ev hev).symm.trans heq)).symm
  · rw [hst.beside.fenceReqs]
    refine (h.fences f).append (fun ev hev heq => ?_) (fun l hl => ?_) hmark hmem fun _ _ _ => ?_
    · cases (hcaller ev hev).symm.trans heq
    · rw [hst.beside.fences]
      exact hl
    · rw [walMark, walMark, hst.beside.walIndex]
  · rw [hcaller ev hev]
    exact hsilent

theorem Told.fence {q : FenceReq} (h : Told hist s r) (hadds : t.adds = s.adds)
    (hhi : t.hiEntry = s.hiEntry) (hwal : t.walIndex = s.walIndex)
    (hreqs : t.fenceReqs = s.fenceReqs.put f q) (hfences : ∀ l ∈ s.fences, l ∈ t.fences)
    (hmark : ∀ l, r'.highMark l = r.highMark l)
    (ho : ∀ ev ∈ o, ev.caller = .fence f ∧ Silent hist (.fence f))
    (hown : FenceTold (hist ++ o.toList) t r' f (some q)) : Told (hist ++ o.toList) t r' := by
  refine ⟨fun c => ?_, fun f' => ?_, nodup_append h.once fun ev hev => ?_⟩
  · rw [hadds]
    refine (h.adds c).append fun ev hev heq => ?_
    cases (ho ev hev).1.symm.trans heq
  · rw [hreqs, Table.get_put]
    split_ifs with hf
    · rw [hf]
      exact hown
    · refine (h.fences f').append (fun ev hev heq => hf ?_) hfences (fun l _ => hmark l)
        (fun _ _ => by rw [memMark, memMark, hhi]) fun _ _ _ => by rw [walMark, walMark, hwal]
      exact (Caller.fence.inj ((ho ev hev).1.symm.trans heq)).symm
  · rw [(ho ev hev).1]
    exact (ho ev hev).2

end Answers

section Simulation
variable {node : NodeId} {r r₀ : Replica} {c f : Nat} {a : FenceAct} {ledger : Nat}

def Effect (env : Env) (node : NodeId) (r r' : Replica) : Option Event → Prop
  | none => r' = r
  | some ev => serve env.crc32 node r ev.request = (r', ev.answer)

theorem addEntry_refused {e : Entry} {err : FolioError} (h : Represents s r)
    (hcheck : fenceCheck env s e = .returned (.failed err)) :
    r.addEntry env.crc32 s.nodeId e = (r, .error err) := by
  unfold fenceCheck at hcheck
  unfold Replica.addEntry
  simp only [h.fences]
  split_ifs at hcheck ⊢ <;> cases hcheck <;> rfl

theorem addEntry_highMark (crc32 : Bytes → UInt32) (node : NodeId) (r : Replica) (e : Entry)
    {l : Nat} (hl : e.ledgerId ≠ l) :
    (r.addEntry crc32 node e).1.highMark l = r.highMark l := by
  refine highMark_congr fun id => ?_
  unfold Replica.addEntry
  split_ifs
  · rfl
  · rfl
  · split
    · rfl
    · exact Table.get_put_ne _ _ fun hkey => hl (congrArg Prod.fst hkey).symm

theorem Added.lac {a : AddAct} (hst : Added env s c a o t) (ha : a ≠ .cache) :
    t.lac = s.lac := by
  cases hst with
  | registered e hget => rw [(registerLedger_frame env s e).state]; rfl
  | rejected e err hget => rw [(registerLedger_frame env s e).state]; rfl
  | cache e hget => exact absurd rfl ha
  | _ => rfl

/-- A fenced ledger has no write past its check, so its mark in memory stays. -/
theorem Added.memMark {a : AddAct} (hst : Added env s c a o t) (hap : Apart env s) {l : Nat}
    (hl : l ∈ s.fences) : memMark t l = memMark s l := by
  cases hst with
  | registered e hget => rw [(registerLedger_frame env s e).state]; rfl
  | rejected e err hget => rw [(registerLedger_frame env s e).state]; rfl
  | mark e hget =>
    have hcheck := hap.passed c _ hget trivial
    have hopen := (fenceCheck_outcome env s e).2 (by rw [hcheck]; trivial)
    have hne : l ≠ e.ledgerId := fun heq => hopen (heq ▸ hl)
    exact (memMark_raise s e.ledgerId e.entryId l).trans (if_neg hne)
  | _ => rfl

theorem Added.represents {a : AddAct} (hst : Added env s c a o t) (ha : a ≠ .cache)
    (h : Represents s r) : Represents t r where
  entries k := (h.entries k).trans (added_held hst ha).symm
  fences l := by rw [hst.beside.fences, h.fences]
  lac l := by rw [hst.lac ha, h.lac]

theorem Added.effect {a : AddAct} (hst : Added env s c a o t) (h : Represents s r)
    (hap : Apart env s) :
    ∃ r', Represents t r' ∧ (∀ l ∈ s.fences, r'.highMark l = r.highMark l) ∧
      Effect env s.nodeId r r' o := by
  by_cases ha : a = .cache
  · subst ha
    cases hst with
    | cache e hget =>
      have hcheck := hap.passed c _ hget trivial
      have hfresh := hap.fresh c _ hget trivial
      have hans : Answers s _ r env c e := written_answers h h rfl hcheck hfresh
      refine ⟨_, hans.represents, fun l hl => ?_, ?_⟩
      · have hopen := (fenceCheck_outcome env s e).2 (by rw [hcheck]; trivial)
        exact addEntry_highMark _ _ r e fun heq => hopen (heq ▸ hl)
      · obtain ⟨reply, hreply, hanswer⟩ := hans.reply
        cases (Table.get_put_self _ _ _).symm.trans hreply
        exact Prod.ext rfl (congrArg Answer.added hanswer.symm)
  · have hr := hst.represents ha h
    refine ⟨r, hr, fun _ _ => rfl, ?_⟩
    cases hst with
    | refused e err hget hcheck =>
      change (_, _) = (_, _)
      rw [addEntry_refused h hcheck]
      rfl
    | duplicate e ack hget hheld hack =>
      obtain ⟨old, hold⟩ := Option.isSome_iff_exists.mp ((h.entries _).mpr hheld)
      have hadd := addEntry_checked h (hap.passed c _ hget trivial)
      rw [hold, h.lac, ← hack] at hadd
      change (_, _) = (_, _)
      rw [hadd]
      rfl
    | cache e hget => exact absurd rfl ha
    | _ => rfl

theorem serveAll_append (crc32 : Bytes → UInt32) (r : Replica) (qs qs' : List Request) :
    serveAll crc32 node r (qs ++ qs') =
      let first := serveAll crc32 node r qs
      let rest := serveAll crc32 node first.1 qs'
      (rest.1, first.2 ++ rest.2) := by
  induction qs generalizing r with
  | nil => rfl
  | cons q qs ih => simp only [List.cons_append, serveAll, ih]

structure Sim (env : Env) (node : NodeId) (r₀ : Replica) (hist : List Event) (s : State)
    (r : Replica) : Prop where
  represents : Represents s r
  base : Base s
  apart : Apart env s
  told : Told hist s r
  bound : ∀ k, Held s k → k.2 + 1 < 2 ^ 64
  nodeId : s.nodeId = node
  replayed : serveAll env.crc32 node r₀ (hist.map Event.request) = (r, hist.map Event.answer)

theorem Sim.replay {r' : Replica} (h : Sim env node r₀ hist s r) (he : Effect env node r r' o) :
    serveAll env.crc32 node r₀ ((hist ++ o.toList).map Event.request) =
      (r', (hist ++ o.toList).map Event.answer) := by
  cases o with
  | none =>
    obtain rfl : r' = r := he
    simpa using h.replayed
  | some ev =>
    have hserve : serve env.crc32 node r ev.request = (r', ev.answer) := he
    rw [Option.toList_some, List.map_append, List.map_append, serveAll_append, h.replayed]
    simp only [List.map_singleton, serveAll, hserve]

theorem Added.bound {a : AddAct} (hst : Added env s c a o t) (hap : Apart env s)
    (h : ∀ k, Held s k → k.2 + 1 < 2 ^ 64) : ∀ k, Held t k → k.2 + 1 < 2 ^ 64 := by
  intro k hk
  by_cases ha : a = .cache
  · subst ha
    cases hst with
    | cache e hget =>
      rcases (held_cache e _ _).mp hk with rfl | hk
      · exact hap.bound c _ hget
      · exact h k hk
  · exact h k ((added_held hst ha).mp hk)

theorem Sim.added {a : AddAct} (h : Sim env node r₀ hist s r) (hg : exclusive s (.add c a))
    (hst : step env s (.add c a) = some t) :
    ∃ r', Sim env node r₀ (hist ++ (event env s (.add c a)).toList) t r' := by
  have hadd := stepAdd_added hst
  obtain ⟨r', hr, hmark, heffect⟩ := hadd.effect h.represents h.apart
  rw [h.nodeId] at heffect
  exact ⟨r', hr, base_step h.base hst, h.apart.added hg hadd,
    h.told.add hadd hmark fun _ => hadd.memMark h.apart, hadd.bound h.apart h.bound,
    hadd.beside.nodeId.trans h.nodeId, h.replay heffect⟩

/-- No write of a fenced ledger is on its way, so the mark is the replica's. -/
theorem Sim.highMark (h : Sim env node r₀ hist s r)
    (hnone : ∀ c req, s.adds.get c = some req → req.entry.ledgerId = ledger → ¬Passed req.pc) :
    highMark s ledger = r.highMark ledger := by
  refine highMark_eq h.represents h.base.marks ⟨fun c e hget hl => ?_, fun id hid => ?_⟩
  · exact hnone c _ hget hl trivial
  · exact h.bound (ledger, id) ((held_iff s _).mpr (.inr hid))

theorem Sim.fenced_settled (h : Sim env node r₀ hist s r) (hl : ledger ∈ s.fences) :
    ∀ c req, s.adds.get c = some req → req.entry.ledgerId = ledger → ¬Passed req.pc := by
  intro c req hget hledger hpc
  have hcheck := h.apart.passed c req hget hpc
  exact (fenceCheck_outcome env s req.entry).2 (by rw [hcheck]; trivial) (hledger ▸ hl)

structure Still (s t : State) : Prop where
  adds : t.adds = s.adds
  held : ∀ k, Held t k ↔ Held s k
  lac : t.lac = s.lac
  nodeId : t.nodeId = s.nodeId

theorem Apart.still (h : Apart env s) (hst : Still s t)
    (hcheck : ∀ c req, s.adds.get c = some req → Passed req.pc →
      fenceCheck env t req.entry = .checked) : Apart env t where
  bound := by
    rw [hst.adds]
    exact h.bound
  passed := by
    rw [hst.adds]
    exact hcheck
  fresh := by
    rw [hst.adds]
    intro c req hget hpc hk
    exact h.fresh c req hget hpc ((hst.held _).mp hk)
  alone := by
    rw [hst.adds]
    exact h.alone

theorem Sim.still (h : Sim env node r₀ hist s r) (hbase : Base t) (hst : Still s t)
    (hfences : t.fences = s.fences) (htold : Told hist t r) : Sim env node r₀ hist t r where
  represents := ⟨fun k => (h.represents.entries k).trans (hst.held k).symm,
    fun l => by rw [hfences, h.represents.fences], fun l => by rw [hst.lac, h.represents.lac]⟩
  base := hbase
  apart := h.apart.still hst fun c req hget hpc => by
    rw [fenceCheck_congr hfences]
    exact h.apart.passed c req hget hpc
  told := htold
  bound k hk := h.bound k ((hst.held k).mp hk)
  nodeId := hst.nodeId.trans h.nodeId
  replayed := h.replayed

theorem Sim.background (h : Sim env node r₀ hist s r) (hbase : Base t) (hst : Still s t)
    (hfences : t.fences = s.fences) (hreqs : t.fenceReqs = s.fenceReqs)
    (hhi : t.hiEntry = s.hiEntry) (hwal : ∀ fence ∈ s.fenceReqs.values, Between fence.pc →
      walMark t fence.ledger = walMark s fence.ledger) : Sim env node r₀ hist t r := by
  refine h.still hbase hst hfences ⟨?_, fun f => ?_, h.told.once⟩
  · rw [hst.adds]
    exact h.told.adds
  · have hold : FenceTold (hist ++ (none : Option Event).toList) t r f (s.fenceReqs.get f) :=
      (h.told.fences f).append (by simp) (fun l hl => hfences ▸ hl) (fun _ _ => rfl)
        (fun l _ => by rw [memMark, memMark, hhi]) fun fence hget =>
          hwal fence ((Table.mem_values_iff _ _).mpr ⟨f, hget⟩)
    rw [hreqs]
    simpa using hold

theorem Sim.inSet (h : Sim env node r₀ hist s r)
    (hget : s.fenceReqs.get f = some ⟨ledger, .durable⟩) (hg : exclusive s (.fence f .inSet))
    (hbase : Base (setFence { s with fences := ledger :: s.fences } f ⟨ledger, .durable⟩ .inSet)) :
    Sim env node r₀ (hist ++ [fenced f ledger (Node.highMark s ledger)])
      (setFence { s with fences := ledger :: s.fences } f ⟨ledger, .durable⟩ .inSet)
      (r.fenceLedger ledger).1 := by
  have hnone : ∀ c req, s.adds.get c = some req → req.entry.ledgerId = ledger →
      ¬Passed req.pc := fun c req hreq =>
    hg _ hget req ((Table.mem_values_iff _ _).mpr ⟨c, hreq⟩)
  have hmark := h.highMark hnone
  have hsame : ∀ l, (r.fenceLedger ledger).1.highMark l = r.highMark l :=
    fun l => highMark_congr fun _ => rfl
  have hstill : Still s (setFence { s with fences := ledger :: s.fences } f ⟨ledger, .durable⟩
      .inSet) := ⟨rfl, fun _ => Iff.rfl, rfl, rfl⟩
  have hsilent : Silent hist (.fence f) := by
    have htold := h.told.fences f
    rw [hget] at htold
    exact htold
  refine ⟨⟨h.represents.entries, fun l => ?_, h.represents.lac⟩, hbase,
    h.apart.still hstill fun c req hreq hpc => ?_, ?_, h.bound, h.nodeId, ?_⟩
  · change l ∈ ledger :: r.fences ↔ l ∈ ledger :: s.fences
    rw [List.mem_cons, List.mem_cons, h.represents.fences]
  · have hcheck := h.apart.passed c req hreq hpc
    have hne : req.entry.ledgerId ≠ ledger := fun hl => hnone c req hreq hl hpc
    unfold fenceCheck at hcheck ⊢
    simpa [setFence, hne] using hcheck
  · refine h.told.fence (o := some (fenced f ledger (Node.highMark s ledger))) rfl rfl rfl rfl
      (fun l hl => List.mem_cons_of_mem _ hl) hsame (fun ev hev => ?_)
      ⟨List.mem_cons_self, trivial, ?_⟩
    · cases hev
      exact ⟨rfl, hsilent⟩
    · rw [hsame, hmark]
      exact List.mem_append_right _ (List.mem_singleton.mpr rfl)
  · refine h.replay (o := some (fenced f ledger (Node.highMark s ledger))) ?_
    rw [hmark]
    rfl

theorem Sim.fence (h : Sim env node r₀ hist s r) (hg : exclusive s (.fence f a))
    (hst : step env s (.fence f a) = some t) :
    ∃ r', Sim env node r₀ (hist ++ (event env s (.fence f a)).toList) t r' := by
  have hbase := base_step h.base hst
  have hcases := stepFence_cases hst
  have hquiet {q : FenceReq} (u : State) (hu : Still s u) (hf : u.fences = s.fences)
      (hhi : u.hiEntry = s.hiEntry) (hwal : u.walIndex = s.walIndex)
      (hreqs : u.fenceReqs = s.fenceReqs.put f q) (hb : Base u)
      (hown : FenceTold hist u r f (some q)) : Sim env node r₀ (hist ++ []) u r := by
    rw [List.append_nil]
    refine h.still hb hu hf ?_
    have htold := h.told.fence (o := none) hu.adds hhi hwal hreqs (fun l hl => hf ▸ hl)
      (fun _ => rfl) (fun ev hev => absurd hev (Option.not_mem_none ev)) (by simpa using hown)
    simpa using htold
  have hold := h.told.fences f
  cases hcases with
  | invoke ledger hget =>
    rw [hget] at hold
    exact ⟨r, hquiet _ ⟨rfl, fun _ => Iff.rfl, rfl, rfl⟩ rfl rfl rfl rfl hbase hold⟩
  | durable ledger hget =>
    rw [hget] at hold
    exact ⟨r, hquiet _ ⟨rfl, fun _ => held_same rfl rfl rfl, rfl, rfl⟩ rfl rfl rfl rfl hbase
      hold⟩
  | inSet ledger hget =>
    simp only [event, hget]
    exact ⟨_, h.inSet hget hg hbase⟩
  | readHi ledger hget =>
    rw [hget] at hold
    exact ⟨r, hquiet _ ⟨rfl, fun _ => Iff.rfl, rfl, rfl⟩ rfl rfl rfl rfl hbase
      ⟨hold.mem, rfl, hold.told⟩⟩
  | readEntryIndex ledger memHi hget =>
    rw [hget] at hold
    -- the three marks of this state are those of the event, and two of them are read by now
    have hmark : max memHi (max (entryMark s ledger) (walMark s ledger)) = r.highMark ledger := by
      rw [show memHi = memMark s ledger from hold.finds]
      exact h.highMark (h.fenced_settled hold.mem)
    exact ⟨r, hquiet _ ⟨rfl, fun _ => Iff.rfl, rfl, rfl⟩ rfl rfl rfl rfl hbase
      ⟨hold.mem, hmark, hold.told⟩⟩
  | readWalIndex ledger memHi hiEntry hget =>
    rw [hget] at hold
    have hmark : max memHi (max hiEntry (walMark s ledger)) = r.highMark ledger := hold.finds
    have htold := hold.told
    rw [← hmark] at htold
    exact ⟨r, hquiet _ ⟨rfl, fun _ => Iff.rfl, rfl, rfl⟩ rfl rfl rfl rfl hbase htold⟩

/-- Only `unlink` writes `wal_index`, and only the head entry's row. -/
theorem stepFlush_walIndex {b : FlushAct} (hst : stepFlush s b = some t) :
    t.walIndex = s.walIndex ∨ b = .unlink ∧
      ∃ row ∈ s.flush.pending.head?, t.walIndex = s.walIndex.deleteLocation row.1 := by
  unfold stepFlush at hst
  split at hst
  · cases hst
  split at hst
  case h_4 k _ rest hpend =>
    split_ifs at hst
    cases hst
    exact .inr ⟨rfl, _, by rw [hpend]; rfl, rfl⟩
  all_goals
    try split_ifs at hst
    all_goals
      cases hst
      try exact .inl rfl

theorem walMark_flush {b : FlushAct} (hg : exclusive s (.flush b)) (hst : stepFlush s b = some t)
    {fence : FenceReq} (hmem : fence ∈ s.fenceReqs.values) (hbetween : Between fence.pc) :
    walMark t fence.ledger = walMark s fence.ledger := by
  rcases stepFlush_walIndex hst with hsame | ⟨rfl, row, hrow, hdel⟩
  · rw [walMark, walMark, hsame]
  · have hne : fence.ledger ≠ row.1.1 := fun hl => hg row hrow fence hmem hl hbetween
    rw [walMark, walMark, hdel]
    refine congrArg (· - 1) (FjallIndex.getNextEntryId_congr fun id => ?_)
    rw [FjallIndex.getLocation_delete, if_neg fun heq => hne (congrArg Prod.fst heq)]

theorem sim_step {a : Act} (h : Sim env node r₀ hist s r) (hg : exclusive s a)
    (hst : step env s a = some t) :
    ∃ r', Sim env node r₀ (hist ++ (event env s a).toList) t r' := by
  have hbase := base_step h.base hst
  cases a with
  | add c a => exact h.added hg hst
  | fence f a => exact h.fence hg hst
  | sealWal a =>
    change ∃ r', Sim env node r₀ (hist ++ []) t r'
    rw [List.append_nil]
    rw [(stepSeal_wal hst).state] at hbase ⊢
    exact ⟨r, h.background hbase ⟨rfl, fun _ => held_same rfl rfl rfl, rfl, rfl⟩ rfl rfl rfl
      fun _ _ _ => rfl⟩
  | flush a =>
    change ∃ r', Sim env node r₀ (hist ++ []) t r'
    rw [List.append_nil]
    obtain ⟨-, hflush⟩ := stepFlush_cases hst
    have hheld : ∀ k, Held t k ↔ Held s k := fun k => h.base.flush hflush
    have hwal : ∀ fence ∈ s.fenceReqs.values, Between fence.pc →
        walMark t fence.ledger = walMark s fence.ledger := fun _ => walMark_flush hg hst
    cases hflush <;> exact ⟨r, h.background hbase ⟨rfl, hheld, rfl, rfl⟩ rfl rfl rfl hwal⟩
  | gc a =>
    change ∃ r', Sim env node r₀ (hist ++ []) t r'
    rw [List.append_nil]
    rw [(stepGc_wal hst).state] at hbase ⊢
    exact ⟨r, h.background hbase ⟨rfl, fun _ => held_same rfl rfl rfl, rfl, rfl⟩ rfl rfl rfl
      fun _ _ _ => rfl⟩

theorem sim_run (as : List Act) (h : Sim env node r₀ hist s r)
    (hrun : run (guarded exclusive (step env)) s as = some t) :
    ∃ r', Sim env node r₀ (hist ++ history env s as) t r' := by
  induction as generalizing s hist r with
  | nil =>
    cases hrun
    exact ⟨r, by rw [history, List.append_nil]; exact h⟩
  | cons a as ih =>
    obtain ⟨u, hu, hrest⟩ := Option.bind_eq_some_iff.mp hrun
    obtain ⟨hg, hstep⟩ := (guarded_eq_some exclusive).mp hu
    obtain ⟨r', hsim⟩ := sim_step h hg hstep
    rw [history, hstep, Option.map_some, Option.getD_some, ← List.append_assoc]
    exact ih hsim hrest

end Simulation

section Theorem
variable {s₀ t : State} {r₀ : Replica}

structure Idle (s : State) : Prop extends Restarted s where
  fenceReqs : s.fenceReqs = .empty
  bound : ∀ k, Held s k → k.2 + 1 < 2 ^ 64

theorem Idle.sim (h : Idle s₀) (hr : Represents s₀ r₀) : Sim env s₀.nodeId r₀ [] s₀ r₀ where
  represents := hr
  base := by
    have hstart : Reach (step env) Restarted s₀ := .start h.toRestarted
    obtain ⟨hmarks, hrecords, hhead⟩ := reach_markInv hstart
    exact ⟨hmarks, hrecords, hhead, fun k hk => absurd hk (WalGc.not_pending_of_nil h.pending)⟩
  apart := by
    constructor <;> rw [h.adds]
    · rintro c req ⟨⟩
    · rintro c req ⟨⟩
    · rintro c req ⟨⟩
    · rintro c c' req req' ⟨⟩
  told := by
    refine ⟨fun c => ?_, fun f => ?_, .nil⟩
    · rw [h.adds]
      exact silent_nil (.add c)
    · rw [h.fenceReqs]
      exact silent_nil (.fence f)
  bound := h.bound
  nodeId := rfl
  replayed := rfl

/-- The events are what a replica answers that serves their requests one after the other, and
the answers that the requests have got are those of their events. -/
structure Linearized (env : Env) (s₀ : State) (r₀ : Replica) (hist : List Event) (t : State) :
    Prop where
  replayed : ∃ r, serveAll env.crc32 s₀.nodeId r₀ (hist.map Event.request) =
    (r, hist.map Event.answer) ∧ Represents t r
  once : (hist.map Event.caller).Nodup
  adds : ∀ c, AddTold hist c (t.adds.get c)
  fences : ∀ f ledger mark, t.fenceReqs.get f = some ⟨ledger, .returned mark⟩ →
    fenced f ledger mark ∈ hist

theorem newNode_held (k : Key) : ¬Held newNode k := by
  simp [Held, isDuplicate, newNode, EntrySegmentCache.contains, EntrySegmentCache.new,
    FjallIndex.getLocation, FjallIndex.empty, Table.get_empty]

theorem newNode_idle : Idle newNode := by
  refine ⟨⟨WalGc.newNode_booted, rfl, fun k hk => ?_⟩, rfl, fun k hk => ?_⟩
  · exact absurd ((held_iff _ _).mpr (.inl hk)) (newNode_held k)
  · exact absurd hk (newNode_held k)

theorem newNode_represents : Represents newNode .empty :=
  ⟨fun k => iff_of_false (by simp [Replica.empty, Table.get_empty]) (newNode_held k),
    fun _ => Iff.rfl, fun _ => rfl⟩

def exclusiveActs : List Act :=
  [.add 0 (.invoke (emptyEntry 5)), .add 1 (.invoke (emptyEntry 4)), .add 0 .fenceCheck,
    .add 1 .fenceCheck, .add 1 .register, .add 0 .register, .add 0 .dupCheck, .add 1 .dupCheck,
    .add 1 (.journal .ok), .add 0 (.journal .ok), .add 0 .mark, .sealWal .rename, .add 0 .cache,
    .fence 0 (.invoke 1), .fence 0 .durable, .add 1 .mark, .sealWal .upsert, .add 1 .cache,
    .fence 0 .inSet, .add 2 (.invoke (emptyEntry 6)), .fence 0 .readHi, .add 2 .fenceCheck,
    .fence 0 .readEntryIndex, .fence 0 .readWalIndex]

/-- Entry 5 of ledger 1 as a replay leaves it: cached and in `wal_index`, with no mark in
memory. -/
def replayedNode : State :=
  { newNode with
    walIndex := newNode.walIndex.insertLocation (1, 5) 0 0 24
    cache := newNode.cache.insert (1, 5) []
    walFiles := Table.empty.put .activeSeg [(1, 5)] }

theorem replayedNode_idle : Idle replayedNode := by
  have hcached (k : Key) : Cached replayedNode k ↔ k = (1, 5) := by
    refine (newNode.cache.insert_cached (1, 5) k []).trans (or_iff_left fun hk => ?_)
    exact newNode_held k ((held_iff _ _).mpr (.inl hk))
  have hindexed (k : Key) : Indexed replayedNode k ↔ k = (1, 5) := by
    unfold Indexed replayedNode
    rw [FjallIndex.getLocation_insert]
    simp [newNode, FjallIndex.getLocation, FjallIndex.empty, Table.get_empty]
  refine ⟨⟨⟨rfl, rfl, rfl, fun p keys hkeys k hk => ?_⟩, rfl, fun k hk => ?_⟩, rfl, fun k hk => ?_⟩
  · dsimp only [replayedNode] at hkeys
    rw [Table.get_put] at hkeys
    split_ifs at hkeys <;> cases hkeys
    rw [List.mem_singleton.mp hk]
    exact .inr (by decide)
  · exact (hindexed k).mpr ((hcached k).mp hk)
  · rcases (held_iff _ _).mp hk with hk | hk
    · rw [(hcached k).mp hk]
      decide
    · rw [(hindexed k).mp hk]
      decide

def missedActs : List Act :=
  [.fence 0 (.invoke 1), .fence 0 .durable, .fence 0 .inSet, .fence 0 .readHi,
    .fence 0 .readEntryIndex, .flush (.drain [((1, 5), [])]), .flush .write, .flush (.index 7 0 24),
    .flush .unlink, .fence 0 .readWalIndex]

/-- Without the condition on the flush loop a fence can miss an entry that the node holds
throughout: each index is read while the entry is in the other. -/
theorem mark_missed_between_reads :
    ∃ t, run (step plainEnv) replayedNode missedActs = some t ∧ Held t (1, 5) ∧
      t.fenceReqs.get 0 = some ⟨1, .returned 0⟩ ∧
      ∀ r₀, ¬Linearized plainEnv replayedNode r₀ (history plainEnv replayedNode missedActs) t := by
  obtain ⟨t, hrun, hchk⟩ := run_check (step plainEnv) replayedNode
    (fun t => decide (isDuplicate t (1, 5) = true ∧
      t.fenceReqs.get 0 = some ⟨1, .returned 0⟩)) missedActs (by decide +kernel)
  obtain ⟨hheld, hfence⟩ := of_decide_eq_true hchk
  refine ⟨t, hrun, hheld, hfence, fun r₀ hlin => ?_⟩
  have htold : fenced 0 1 0 ∈ [fenced 0 1 5] := hlin.fences 0 1 0 hfence
  simp [fenced] at htold

end Theorem
end Folio.NodeLinearized
