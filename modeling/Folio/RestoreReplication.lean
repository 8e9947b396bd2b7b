import Folio.RecoveryWorker

/-! `restore_replication` with nobody else at work: when it returns `Ok`, what it has copied
and what it has written. -/
namespace Folio.RestoreReplication
open KeyedTable Protocol Metadata LedgerClient RemoteProgram Recovery RecoveryWorker
open Cluster (Delivery)

section Replicas
variable {crc32 : Bytes → UInt32} {r : Replica} {e : Entry}

/-- A node that has served `add_entry` and `fence_ledger` calls only. -/
inductive Served (crc32 : Bytes → UInt32) : Replica → Prop
  | new : Served crc32 .empty
  | add {r : Replica} (n : NodeId) (e : Entry) :
      Served crc32 r → Served crc32 (r.addEntry crc32 n e).1
  | fence {r : Replica} (ledgerId : Nat) : Served crc32 r → Served crc32 (r.fenceLedger ledgerId).1

theorem addEntry_refused (n : NodeId)
    (h : ¬(e.validateDigest crc32 = true ∧ e.ledgerId ∉ r.fences)) :
    ∃ err, r.addEntry crc32 n e = (r, .error err) ∧ ∀ a b, err ≠ .invalidEntryId a b := by
  unfold Replica.addEntry
  split_ifs with hdigest hfence
  · exact ⟨_, rfl, by simp⟩
  · exact ⟨_, rfl, by simp⟩
  · exact absurd ⟨by simpa using hdigest, hfence⟩ h

theorem addEntry_taken (n : NodeId) (hdigest : e.validateDigest crc32 = true)
    (hfence : e.ledgerId ∉ r.fences) :
    (∃ ack, (r.addEntry crc32 n e).2 = .ok ack) ∧ (r.addEntry crc32 n e).1.fences = r.fences ∧
      ∀ k, (r.addEntry crc32 n e).1.entries.get k =
        (r.entries.get k).or (if k = e.key then some e else none) := by
  simp only [Replica.addEntry, hdigest, Bool.not_true, Bool.false_eq_true, if_false, hfence]
  cases hold : r.entries.get e.key with
  | some old =>
    refine ⟨⟨_, rfl⟩, rfl, fun k => ?_⟩
    by_cases hk : k = e.key
    · simp [hk, hold]
    · simp [hk]
  | none =>
    refine ⟨⟨_, rfl⟩, rfl, fun k => ?_⟩
    rw [Table.get_put]
    by_cases hk : k = e.key
    · simp [hk, hold]
    · simp [hk]

theorem Served.entry (h : Served crc32 r) {k : Nat × Nat} (hk : r.entries.get k = some e) :
    e.key = k ∧ e.validateDigest crc32 = true := by
  induction h generalizing k e with
  | new => cases hk
  | @add r n e' _ ih =>
    by_cases hok : e'.validateDigest crc32 = true ∧ e'.ledgerId ∉ r.fences
    · rw [(addEntry_taken n hok.1 hok.2).2.2 k, Option.or_eq_some_iff] at hk
      rcases hk with hold | ⟨-, hnew⟩
      · exact ih hold
      · split_ifs at hnew with heq
        cases hnew
        exact ⟨heq.symm, hok.1⟩
    · obtain ⟨err, herr, -⟩ := addEntry_refused n hok
      rw [herr] at hk
      exact ih hk
  | fence _ _ ih => exact ih hk

end Replicas

section Requests
variable {crc32 : Bytes → UInt32} {net : Net} {up : NodeId → Prop} {s t : Clocked} {o : Op}

/-- `grpc_err` has no `InvalidEntryId`, and no node returns it. -/
def Grpc (net : Net) : Prop :=
  ∀ n o e, net n o = .lostRequest e ∨ net n o = .lostReply e → ∀ a b, e ≠ .invalidEntryId a b

/-- Nodes are up or down while the call runs, and the metadata store answers. -/
structure Static (net : Net) (up : NodeId → Prop) : Prop where
  answers : ∀ n o, (∀ x, nodeOf o = some x → up x) → net n o = .delivered
  down : ∀ n o x, nodeOf o = some x → ¬up x → net n o ≠ .delivered
  grpc : Grpc net

theorem Static.up_of_delivered (h : Static net up) {n : Nat} {x : NodeId}
    (ho : nodeOf o = some x) (hd : net n o = .delivered) : up x := by
  by_contra hdown
  exact h.down n o x ho hdown hd

theorem Static.node (h : Static net up) {x : NodeId} (ho : nodeOf o = some x) (hx : up x)
    (n : Nat) : net n o = .delivered := by
  refine h.answers n o fun y hy => ?_
  rw [ho] at hy
  cases hy
  exact hx

theorem without_static (failed : NodeId) : Static (without failed) (· ≠ failed) where
  answers n o h := by
    refine if_neg fun ho => ?_
    exact h failed ho rfl
  down n o x ho hx := by
    rw [without, if_pos (by rw [ho, not_not.mp hx])]
    decide
  grpc n o e he a b := by
    unfold without at he
    split_ifs at he
    · rcases he with he | he
      · cases he
        simp
      · cases he
    · rcases he with he | he <;> cases he

theorem runAlone_ask (o : Op) : runAlone crc32 net (ask o) s = answerAt crc32 net s o := rfl

theorem ask_run (h : net s.1 o = .delivered) : runAlone crc32 net (ask o) s =
    ((s.1 + 1, (perform crc32 s.2 o).1), (perform crc32 s.2 o).2) := by
  rw [runAlone_ask, answerAt, answer, h]
  rfl

theorem ask_ok {a : o.Reply} (h : runAlone crc32 net (ask o) s = (t, .ok a)) :
    net s.1 o = .delivered ∧ t = (s.1 + 1, (perform crc32 s.2 o).1) ∧
      (perform crc32 s.2 o).2 = .ok a := by
  have hsent : ((net s.1 o).send (perform crc32 s.2 o) s.2).2 = .ok a := congrArg Prod.snd h
  have hd := Delivery.delivered_of_ok hsent
  rw [ask_run hd] at h
  obtain ⟨ht, ha⟩ := Prod.mk.inj h
  exact ⟨hd, ht.symm, ha⟩

theorem replica_setReplica (w : World) (n n' : NodeId) (r : Replica) :
    (w.setReplica n r).replica n' = if n' = n then r else w.replica n' := by
  unfold World.replica World.setReplica
  rw [Table.get_put]
  split_ifs <;> rfl

end Requests

section Copying
variable {crc32 : Bytes → UInt32} {net : Net} {s t : Clocked} {id : Nat} {src tgt : NodeId}
  {e : Entry} {i : Nat}

structure Copied (w w' : World) (id : Nat) (src tgt : NodeId) (ids : List Nat) : Prop where
  store : w'.store = w.store
  resolver : w'.resolver = w.resolver
  others : ∀ n, n ≠ tgt → w'.replica n = w.replica n
  fences : (w'.replica tgt).fences = (w.replica tgt).fences
  entries : ∀ k, (w'.replica tgt).entries.get k = ((w.replica tgt).entries.get k).or
    (if k.1 = id ∧ k.2 ∈ ids then (w.replica src).entries.get k else none)

theorem Copied.nil (w : World) : Copied w w id src tgt [] where
  store := rfl
  resolver := rfl
  others _ _ := rfl
  fences := rfl
  entries k := by simp

theorem Copied.append {w w' w'' : World} {ids ids' : List Nat} (hne : src ≠ tgt)
    (h : Copied w w' id src tgt ids) (h' : Copied w' w'' id src tgt ids') :
    Copied w w'' id src tgt (ids ++ ids') where
  store := h'.store.trans h.store
  resolver := h'.resolver.trans h.resolver
  others n hn := (h'.others n hn).trans (h.others n hn)
  fences := h'.fences.trans h.fences
  entries k := by
    rw [h'.entries, h.entries, h.others src hne, Option.or_assoc]
    by_cases hid : k.1 = id
    · by_cases hmem : k.2 ∈ ids
      · cases (w.replica src).entries.get k <;> simp [hid, hmem]
      · simp [hid, hmem]
    · simp [hid]

/-- The entry that is read is added: it has passed the checksum before, so only a fence is in
the way. -/
theorem copied_one {w : World} (hserved : Served crc32 (w.replica src))
    (he : (w.replica src).entries.get (id, i) = some e) (hfence : id ∉ (w.replica tgt).fences) :
    (∃ ack, (perform crc32 w (.addEntry tgt e)).2 = .ok ack) ∧
      Copied w (perform crc32 w (.addEntry tgt e)).1 id src tgt [i] := by
  obtain ⟨hkey, hdigest⟩ := hserved.entry he
  have hfence' : e.ledgerId ∉ (w.replica tgt).fences := by
    rwa [show e.ledgerId = id from congrArg Prod.fst hkey]
  obtain ⟨hack, hfences, hentries⟩ := addEntry_taken tgt hdigest hfence'
  have hself : (perform crc32 w (.addEntry tgt e)).1.replica tgt =
      ((w.replica tgt).addEntry crc32 tgt e).1 :=
    (replica_setReplica w tgt tgt _).trans (if_pos rfl)
  refine ⟨hack, rfl, rfl, fun n hn => ?_, ?_, fun k => ?_⟩
  · exact (replica_setReplica w tgt n _).trans (if_neg hn)
  · rw [hself, hfences]
  · rw [hself, hentries, hkey]
    congr 1
    by_cases hk : k = (id, i)
    · simp [hk, he]
    · have : ¬(k.1 = id ∧ k.2 = i) := fun ⟨h₁, h₂⟩ => hk (Prod.ext h₁ h₂)
      simp [hk, this]

structure CanCopy (net : Net) (s : Clocked) (id : Nat) (src tgt : NodeId) (i : Nat) (e : Entry) :
    Prop where
  held : (s.2.replica src).entries.get (id, i) = some e
  read : net s.1 (.readEntry src id i) = .delivered
  added : net (s.1 + 1) (.addEntry tgt e) = .delivered
  unfenced : id ∉ (s.2.replica tgt).fences

theorem copyEntry_run (hserved : Served crc32 (s.2.replica src))
    (h : CanCopy net s id src tgt i e) :
    ∃ w, runAlone crc32 net (copyEntry id src tgt i) s = ((s.1 + 2, w), .ok ()) ∧
      Copied s.2 w id src tgt [i] := by
  obtain ⟨⟨ack, hack⟩, hcopied⟩ := copied_one hserved h.held h.unfenced
  refine ⟨_, ?_, hcopied⟩
  have hread : runAlone crc32 net (ask (.readEntry src id i)) s = ((s.1 + 1, s.2), .ok e) := by
    rw [ask_run h.read]
    simp [perform, Replica.readEntry, h.held]
  have hadd : runAlone crc32 net (do let _ ← ask (.addEntry tgt e)) (s.1 + 1, s.2) =
      ((s.1 + 2, (perform crc32 s.2 (.addEntry tgt e)).1), .ok ()) := by
    refine (Prog.run_bind_of_ok (I := Service) _ (a := ack) ?_).trans rfl
    exact (ask_run h.added).trans (by rw [hack])
  refine (Prog.run_bind_of_ok (I := Service) _ hread).trans ?_
  refine (Prog.run_handle (I := Service) _ _ _ _).trans ?_
  have hrun : Prog.run (I := Service) (answerAt crc32 net) _ _ = _ := hadd
  rw [hrun]

theorem addEntry_error_ne (hgrpc : Grpc net) {err : FolioError}
    (h : (runAlone crc32 net (do let _ ← ask (.addEntry tgt e)) s).2 = .error err) (a b : Nat) :
    err ≠ .invalidEntryId a b := by
  have hsent : ((net s.1 (.addEntry tgt e)).send (perform crc32 s.2 (.addEntry tgt e)) s.2).2 =
      .error err := by
    cases hr : runAlone crc32 net (ask (.addEntry tgt e)) s with
    | mk u r =>
      cases r with
      | ok ack =>
        rw [runAlone, Prog.run_bind_of_ok (I := Service) _ hr] at h
        cases h
      | error err' =>
        rw [runAlone, Prog.run_bind_of_error (I := Service) _ hr] at h
        cases h
        exact congrArg Prod.snd hr
  cases hd : net s.1 (.addEntry tgt e) with
  | lostRequest e' =>
    rw [hd] at hsent
    cases hsent
    exact hgrpc _ _ _ (.inl hd) a b
  | lostReply e' =>
    rw [hd] at hsent
    cases hsent
    exact hgrpc _ _ _ (.inr hd) a b
  | delivered =>
    rw [hd] at hsent
    change ((s.2.replica tgt).addEntry crc32 tgt e).2 = .error err at hsent
    by_cases hok : e.validateDigest crc32 = true ∧ e.ledgerId ∉ (s.2.replica tgt).fences
    · obtain ⟨⟨ack, hack⟩, -⟩ := addEntry_taken tgt hok.1 hok.2
      rw [hack] at hsent
      cases hsent
    · obtain ⟨err', herr', hne⟩ := addEntry_refused tgt hok
      rw [herr'] at hsent
      cases hsent
      exact hne a b

theorem copyEntry_ok (hgrpc : Grpc net) (hserved : Served crc32 (s.2.replica src))
    (h : runAlone crc32 net (copyEntry id src tgt i) s = (t, .ok ())) :
    ∃ e, CanCopy net s id src tgt i e := by
  obtain ⟨u, e, hread, h⟩ := Prog.run_bind_ok (I := Service) _ h
  obtain ⟨hdelivered, rfl, hheld⟩ := ask_ok hread
  have hheld' : (s.2.replica src).entries.get (id, i) = some e := by
    change (s.2.replica src).readEntry id i = .ok e at hheld
    unfold Replica.readEntry at hheld
    split at hheld
    · cases hheld
      assumption
    · cases hheld
  have hadd : ∃ u, runAlone crc32 net (do let _ ← ask (.addEntry tgt e)) (s.1 + 1, s.2) =
      (u, .ok ()) := by
    rcases Prog.run_handle_ok (I := Service) _ h with hok | ⟨u, err, herr, hthrow⟩
    · exact ⟨_, hok⟩
    · have hne := addEntry_error_ne hgrpc (congrArg Prod.snd herr)
      split at hthrow
      · exact absurd rfl (hne _ _)
      · cases hthrow
  obtain ⟨v, hadd⟩ := hadd
  obtain ⟨x, ack, hask, -⟩ := Prog.run_bind_ok (I := Service) _ hadd
  obtain ⟨hadded, -, hack⟩ := ask_ok hask
  refine ⟨e, hheld', hdelivered, hadded, fun hfence => ?_⟩
  have hrefused : ¬(e.validateDigest crc32 = true ∧ e.ledgerId ∉ (s.2.replica tgt).fences) := by
    rw [show e.ledgerId = id from congrArg Prod.fst (hserved.entry hheld').1]
    exact fun hok => hok.2 hfence
  obtain ⟨err, herr, -⟩ := addEntry_refused tgt hrefused
  change ((s.2.replica tgt).addEntry crc32 tgt e).2 = .ok ack at hack
  rw [herr] at hack
  cases hack

/-- By induction over the ids: the source is not the target, so it stays as it is. -/
theorem copyEntries_ok {ids : List Nat} (hgrpc : Grpc net) (hne : src ≠ tgt)
    (hserved : Served crc32 (s.2.replica src))
    (h : runAlone crc32 net (copyEntries id src tgt ids) s = (t, .ok ())) :
    Copied s.2 t.2 id src tgt ids ∧ (∀ i ∈ ids, ((s.2.replica src).entries.get (id, i)).isSome) ∧
      (ids ≠ [] → id ∉ (s.2.replica tgt).fences ∧
        (∃ n i, net n (.readEntry src id i) = .delivered) ∧
        ∃ n e, net n (.addEntry tgt e) = .delivered) := by
  induction ids generalizing s with
  | nil =>
    cases h
    exact ⟨.nil _, by simp, fun hnil => absurd rfl hnil⟩
  | cons i ids ih =>
    obtain ⟨u, ⟨⟩, hone, h⟩ := Prog.run_bind_ok (I := Service) _ h
    obtain ⟨e, hcan⟩ := copyEntry_ok hgrpc hserved hone
    obtain ⟨w, hrun, hcopied⟩ := copyEntry_run hserved hcan
    cases hrun.symm.trans hone
    have hsrc : w.replica src = s.2.replica src := hcopied.others src hne
    obtain ⟨hrest, hheld, -⟩ := ih (hsrc ▸ hserved) h
    refine ⟨hcopied.append hne hrest, ?_, fun _ => ⟨hcan.unfenced, ⟨_, _, hcan.read⟩, _, _,
      hcan.added⟩⟩
    rw [hsrc] at hheld
    simpa [hcan.held] using hheld

theorem copyEntries_run {ids : List Nat} (hne : src ≠ tgt)
    (hserved : Served crc32 (s.2.replica src))
    (hheld : ∀ i ∈ ids, ((s.2.replica src).entries.get (id, i)).isSome)
    (hcan : ids ≠ [] → id ∉ (s.2.replica tgt).fences ∧
      (∀ n i, net n (.readEntry src id i) = .delivered) ∧
      ∀ n e, net n (.addEntry tgt e) = .delivered) :
    ∃ t, runAlone crc32 net (copyEntries id src tgt ids) s = (t, .ok ()) := by
  induction ids generalizing s with
  | nil => exact ⟨s, rfl⟩
  | cons i ids ih =>
    obtain ⟨hfence, hread, hadd⟩ := hcan (List.cons_ne_nil _ _)
    obtain ⟨e, he⟩ := Option.isSome_iff_exists.mp (hheld i List.mem_cons_self)
    obtain ⟨w, hrun, hcopied⟩ := copyEntry_run hserved ⟨he, hread _ _, hadd _ _, hfence⟩
    have hsrc : w.replica src = s.2.replica src := hcopied.others src hne
    obtain ⟨t, ht⟩ := @ih (s.1 + 2, w) (hsrc ▸ hserved)
      (fun j hj => hsrc ▸ hheld j (List.mem_cons_of_mem _ hj))
      (fun _ => ⟨hcopied.fences ▸ hfence, hread, hadd⟩)
    exact ⟨t, (Prog.run_bind_of_ok (I := Service) _ hrun).trans ht⟩

end Copying

section Restoring
variable {crc32 : Bytes → UInt32} {net : Net} {s t : Clocked} {m : LedgerMetadata}
  {failed : NodeId} {fromId : Nat}

structure Chosen (w : World) (m : LedgerMetadata) (failed : NodeId) (fromId : Nat) (f : Fragment)
    (src tgt : NodeId) : Prop where
  owner : LedgerHandle.owner m.fragments fromId = some f
  source : sourceNode f failed = some src
  target : (targetNode f failed w.store.listNodes).map NodeInfo.nodeId = some tgt
  source_known : src ∈ w.resolver
  target_known : tgt ∈ w.resolver

def copyRange (m : LedgerMetadata) (f : Fragment) (fromId : Nat) : List Nat :=
  List.range' fromId (endEntryId m f - fromId)

theorem mem_copyRange {f : Fragment} {i : Nat} :
    i ∈ copyRange m f fromId ↔ fromId ≤ i ∧ i < endEntryId m f := by
  rw [copyRange, List.mem_range'_1]
  omega

variable {f : Fragment} {src tgt : NodeId}

theorem Chosen.ne_failed (h : Chosen s.2 m failed fromId f src tgt) :
    src ∈ f.ensemble ∧ src ≠ failed ∧ tgt ∉ f.ensemble ∧ tgt ≠ failed := by
  obtain ⟨info, hinfo, rfl⟩ := Option.map_eq_some_iff.mp h.target
  have hsrc := List.find?_some h.source
  have htgt := List.find?_some hinfo
  exact ⟨List.mem_of_find?_eq_some h.source, of_decide_eq_true hsrc, (of_decide_eq_true htgt).2,
    (of_decide_eq_true htgt).1⟩

theorem Chosen.ne (h : Chosen s.2 m failed fromId f src tgt) : src ≠ tgt := by
  rintro rfl
  exact h.ne_failed.2.2.1 h.ne_failed.1

theorem resolve_ok {n : NodeId} (h : runAlone crc32 net (resolve n) s = (t, .ok ())) :
    n ∈ s.2.resolver ∧ t = (s.1 + 1, s.2) := by
  obtain ⟨-, ht, hok⟩ := ask_ok h
  change (if n ∈ s.2.resolver then Except.ok () else _) = _ at hok
  split_ifs at hok with hmem
  exact ⟨hmem, ht⟩

theorem restore_ok (h : runAlone crc32 net (restoreReplication m failed fromId) s = (t, .ok ())) :
    ∃ f src tgt u, Chosen s.2 m failed fromId f src tgt ∧
      runAlone crc32 net (copyEntries m.id src tgt (copyRange m f fromId)) (s.1 + 3, s.2) =
        (u, .ok ()) ∧
      (u.2.store.ledgers.get m.id).map LedgerMetadata.version = some m.version ∧
      t.2 = { u.2 with store := (u.2.store.writeLedger m.id
        (restoredMetadata m failed tgt f)).1 } := by
  obtain ⟨s₁, f, hrun₁, h₁⟩ := Prog.run_bind_ok (I := Service) _ h
  obtain ⟨hf, rfl⟩ := Prog.run_okOr_ok (I := Service) _ hrun₁
  obtain ⟨s₂, src, hrun₂, h₂⟩ := Prog.run_bind_ok (I := Service) _ h₁
  obtain ⟨hsrc, rfl⟩ := Prog.run_okOr_ok (I := Service) _ hrun₂
  obtain ⟨s₃, nodes, hrun₃, h₃⟩ := Prog.run_bind_ok (I := Service) _ h₂
  obtain ⟨-, rfl, hnodes⟩ := ask_ok hrun₃
  cases hnodes
  obtain ⟨s₄, info, hrun₄, h₄⟩ := Prog.run_bind_ok (I := Service) _ h₃
  obtain ⟨hinfo, rfl⟩ := Prog.run_okOr_ok (I := Service) _ hrun₄
  obtain ⟨s₅, ⟨⟩, hrun₅, h₅⟩ := Prog.run_bind_ok (I := Service) _ h₄
  obtain ⟨hsrcKnown, rfl⟩ := resolve_ok hrun₅
  obtain ⟨s₆, ⟨⟩, hrun₆, h₆⟩ := Prog.run_bind_ok (I := Service) _ h₅
  obtain ⟨htgtKnown, rfl⟩ := resolve_ok hrun₆
  obtain ⟨u, ⟨⟩, hcopy, h₇⟩ := Prog.run_bind_ok (I := Service) _ h₆
  obtain ⟨v, m', hrun₈, h₈⟩ := Prog.run_bind_ok (I := Service) _ h₇
  cases h₈
  obtain ⟨-, rfl, hput⟩ := ask_ok hrun₈
  refine ⟨f, src, info.nodeId, u, ⟨hf, hsrc, congrArg (Option.map _) hinfo, hsrcKnown, htgtKnown⟩,
    hcopy, ?_⟩
  change (u.2.store.putLedger (restoredMetadata m failed info.nodeId f)).2 = .ok m' at hput
  rcases u.2.store.putLedger_cases (restoredMetadata m failed info.nodeId f) with
    ⟨cur, hcur, hversion, hwrite⟩ | ⟨e, herr⟩
  · refine ⟨(congrArg (Option.map _) hcur).trans (congrArg some hversion), ?_⟩
    change (withStore u.2 (u.2.store.putLedger _)).1 = _
    rw [hwrite]
    rfl
  · rw [herr] at hput
    cases hput

theorem restore_run {u : Clocked} (hchosen : Chosen s.2 m failed fromId f src tgt)
    (hstore : ∀ n o, nodeOf o = none → net n o = .delivered)
    (hcopy : runAlone crc32 net (copyEntries m.id src tgt (copyRange m f fromId))
      (s.1 + 3, s.2) = (u, .ok ()))
    (hversion : (u.2.store.ledgers.get m.id).map LedgerMetadata.version = some m.version) :
    (runAlone crc32 net (restoreReplication m failed fromId) s).2 = .ok () := by
  obtain ⟨info, hinfo, rfl⟩ := Option.map_eq_some_iff.mp hchosen.target
  obtain ⟨cur, hcur, hcurVersion⟩ := Option.map_eq_some_iff.mp hversion
  have hok {α : Type} (e : FolioError) {o : Option α} {a : α} (ho : o = some a) (v : Clocked) :
      runAlone crc32 net (.okOr e o) v = (v, .ok a) := by
    rw [ho]
    rfl
  have hlist : runAlone crc32 net listNodes s = ((s.1 + 1, s.2), .ok s.2.store.listNodes) :=
    ask_run (hstore _ _ rfl)
  have hresolve {n : NodeId} (hn : n ∈ s.2.resolver) (k : Nat) :
      runAlone crc32 net (resolve n) (k, s.2) = ((k + 1, s.2), .ok ()) := by
    refine (ask_run (hstore _ _ rfl)).trans ?_
    simp [perform, hn]
  have hput : runAlone crc32 net (putLedger (restoredMetadata m failed info.nodeId f)) u =
      ((u.1 + 1, { u.2 with store := (u.2.store.writeLedger m.id
        (restoredMetadata m failed info.nodeId f)).1 }),
        .ok (u.2.store.writeLedger m.id (restoredMetadata m failed info.nodeId f)).2) := by
    refine (ask_run (hstore _ _ rfl)).trans ?_
    have hwrite : u.2.store.putLedger (restoredMetadata m failed info.nodeId f) =
        ((u.2.store.writeLedger m.id (restoredMetadata m failed info.nodeId f)).1,
          .ok (u.2.store.writeLedger m.id (restoredMetadata m failed info.nodeId f)).2) := by
      simp [Store.putLedger, restoredMetadata, hcur, hcurVersion]
    simp only [perform, hwrite]
    rfl
  suffices hall : runAlone crc32 net (restoreReplication m failed fromId) s =
      ((u.1 + 1, { u.2 with store := (u.2.store.writeLedger m.id
        (restoredMetadata m failed info.nodeId f)).1 }), .ok ()) from congrArg Prod.snd hall
  refine (Prog.run_bind_of_ok (I := Service) _ (hok _ hchosen.owner s)).trans ?_
  refine (Prog.run_bind_of_ok (I := Service) _ (hok _ hchosen.source s)).trans ?_
  refine (Prog.run_bind_of_ok (I := Service) _ hlist).trans ?_
  refine (Prog.run_bind_of_ok (I := Service) _ (hok _ hinfo _)).trans ?_
  refine (Prog.run_bind_of_ok (I := Service) _ (hresolve hchosen.source_known _)).trans ?_
  refine (Prog.run_bind_of_ok (I := Service) _ (hresolve hchosen.target_known _)).trans ?_
  refine (Prog.run_bind_of_ok (I := Service) _ hcopy).trans ?_
  exact Prog.run_bind_of_ok (I := Service) _ hput

theorem restore_effect (hgrpc : Grpc net) (hserved : ∀ n, Served crc32 (s.2.replica n))
    (h : runAlone crc32 net (restoreReplication m failed fromId) s = (t, .ok ())) :
    ∃ f src tgt w, Chosen s.2 m failed fromId f src tgt ∧
      Copied s.2 w m.id src tgt (copyRange m f fromId) ∧
      (∀ i ∈ copyRange m f fromId, ((s.2.replica src).entries.get (m.id, i)).isSome) ∧
      (copyRange m f fromId ≠ [] → m.id ∉ (s.2.replica tgt).fences ∧
        (∃ n i, net n (.readEntry src m.id i) = .delivered) ∧
        ∃ n e, net n (.addEntry tgt e) = .delivered) ∧
      (s.2.store.ledgers.get m.id).map LedgerMetadata.version = some m.version ∧
      t.2 = { w with store := (s.2.store.writeLedger m.id
        (restoredMetadata m failed tgt f)).1 } := by
  obtain ⟨f, src, tgt, u, hchosen, hcopy, hversion, ht⟩ := restore_ok h
  obtain ⟨hcopied, hheld, hcan⟩ :=
    copyEntries_ok (s := (s.1 + 3, s.2)) hgrpc hchosen.ne (hserved src) hcopy
  have hst : u.2.store = s.2.store := hcopied.store
  rw [hst] at hversion ht
  exact ⟨f, src, tgt, u.2, hchosen, hcopied, hheld, hcan, hversion, ht⟩

end Restoring

section Success
variable {crc32 : Bytes → UInt32} {net : Net} {up : NodeId → Prop} {s : Clocked}
  {m : LedgerMetadata} {failed : NodeId} {fromId : Nat}

/-- The first surviving member holds all entries of the range, and the first outside node takes
them. -/
def CanRestore (up : NodeId → Prop) (w : World) (m : LedgerMetadata) (failed : NodeId)
    (fromId : Nat) : Prop :=
  ∃ f src tgt, Chosen w m failed fromId f src tgt ∧
    (copyRange m f fromId = [] ∨ up src ∧ up tgt ∧ m.id ∉ (w.replica tgt).fences ∧
      ∀ i ∈ copyRange m f fromId, ((w.replica src).entries.get (m.id, i)).isSome)

theorem restore_ok_iff (hnet : Static net up) (hserved : ∀ n, Served crc32 (s.2.replica n)) :
    (runAlone crc32 net (restoreReplication m failed fromId) s).2 = .ok () ↔
      CanRestore up s.2 m failed fromId ∧
        (s.2.store.ledgers.get m.id).map LedgerMetadata.version = some m.version := by
  constructor
  · intro hok
    obtain ⟨f, src, tgt, w, hchosen, hcopied, hheld, hcan, hversion, -⟩ :=
      restore_effect hnet.grpc hserved (Prod.ext rfl hok :
        runAlone crc32 net (restoreReplication m failed fromId) s = (_, .ok ()))
    refine ⟨⟨f, src, tgt, hchosen, ?_⟩, hversion⟩
    by_cases hempty : copyRange m f fromId = []
    · exact .inl hempty
    · obtain ⟨hfence, ⟨n, i, hread⟩, n', e, hadd⟩ := hcan hempty
      exact .inr ⟨hnet.up_of_delivered rfl hread, hnet.up_of_delivered rfl hadd, hfence, hheld⟩
  · rintro ⟨⟨f, src, tgt, hchosen, hcan⟩, hversion⟩
    have hstore (n : Nat) (o : Op) (ho : nodeOf o = none) : net n o = .delivered :=
      hnet.answers n o fun x hx => by rw [ho] at hx; cases hx
    have hheld : ∀ i ∈ copyRange m f fromId, ((s.2.replica src).entries.get (m.id, i)).isSome := by
      rcases hcan with hempty | ⟨-, -, -, hheld⟩
      · simp [hempty]
      · exact hheld
    obtain ⟨u, hu⟩ := @copyEntries_run crc32 net (s.1 + 3, s.2) m.id src tgt (copyRange m f fromId)
      hchosen.ne (hserved src) hheld fun hne => by
        obtain ⟨hsrc, htgt, hfence, -⟩ := hcan.resolve_left hne
        exact ⟨hfence, fun n i => hnet.node rfl hsrc n, fun n e => hnet.node rfl htgt n⟩
    have hcopied := (copyEntries_ok (s := (s.1 + 3, s.2)) hnet.grpc hchosen.ne (hserved src) hu).1
    refine restore_run hchosen hstore hu ?_
    rw [hcopied.store]
    exact hversion

end Success
end Folio.RestoreReplication
