import Folio.AppendInvariant
import Folio.Crc32

/-! The steps of the cluster keep the invariant of acknowledged appends. -/
namespace Folio.AppendIntegrity
open KeyedTable Protocol Metadata LedgerClient TransitionSystem Cluster

section Runs
variable {crc32 : Bytes → UInt32} {s t : State} {n : NodeId} {a : Attempt}

def Inv (s : State) : Prop := WriterInv (dataAt s.replica) s.writer

theorem deliver_dataAt (crc32 : Bytes → UInt32) (s : State) (n n' : NodeId) (e : Entry)
    (d : Delivery) (w : Writer) (k : Nat × Nat) :
    dataAt (afterDeliver crc32 s n e d w).replica k.1 n' k.2 = dataAt s.replica k.1 n' k.2 ∨
      k = e.key ∧ dataAt s.replica k.1 n' k.2 = none ∧
      dataAt (afterDeliver crc32 s n e d w).replica k.1 n' k.2 = some e.data := by
  unfold dataAt
  rw [afterDeliver_replica]
  split_ifs with hn
  · subst hn
    rcases deliverAdd_cases crc32 s n' e d with ⟨hsame, -⟩ | ⟨-, hnone, hput, -⟩
    · left
      rw [hsame]
    · rw [hput, Table.get_put]
      split_ifs with hk
      · right
        rw [← hk] at hnone
        exact ⟨hk, by rw [hnone]; rfl, rfl⟩
      · exact .inl rfl
  · exact .inl rfl

theorem deliver_held (crc32 : Bytes → UInt32) {e : Entry} {d : Delivery}
    {ack : AppendAck} (w : Writer) (h : (deliverAdd crc32 s n e d).2 = .ok ack) :
    ∃ b, dataAt (afterDeliver crc32 s n e d w).replica e.key.1 n e.key.2 = some b := by
  unfold dataAt
  rw [afterDeliver_replica, if_pos rfl]
  rcases deliverAdd_cases crc32 s n e d with ⟨hsame, hok⟩ | ⟨-, -, hput, -⟩
  · obtain ⟨-, old, hold⟩ := hok ack h
    rw [hsame]
    exact ⟨old.data, congrArg (Option.map Entry.data) hold⟩
  · rw [hput]
    exact ⟨e.data, congrArg (Option.map Entry.data) (Table.get_put_self _ _ _)⟩

theorem fill_nodes {i : Nat} (hslot : a.slots[i]? = some (n, none))
    (r : Except FolioError AppendAck) :
    (a.fill i n r).slots.map Prod.fst = a.slots.map Prod.fst := by
  have hget : (a.slots.map Prod.fst)[i]? = some n := by simp [hslot]
  obtain ⟨hi, hget⟩ := List.getElem?_eq_some_iff.mp hget
  unfold Attempt.fill
  rw [List.map_set, ← hget]
  exact List.set_getElem_self hi

theorem Inv.deliver {i : Nat} {d : Delivery} (h : Inv s)
    (hpc : s.writer.pc = .sending a) (hslot : a.slots[i]? = some (n, none)) :
    Inv (afterDeliver crc32 s n a.entry d { s.writer with
      pc := .sending (a.fill i n (deliverAdd crc32 s n a.entry d).2) }) := by
  obtain ⟨hbase, hs⟩ := h
  rw [hpc] at hs
  generalize hw : ({ s.writer with
    pc := .sending (a.fill i n (deliverAdd crc32 s n a.entry d).2) } : Writer) = w
  have hdata := fun n' => deliver_dataAt crc32 s n n' a.entry d w
  have hpast : SamePast (dataAt s.replica) (dataAt (afterDeliver crc32 s n a.entry d w).replica)
      s.writer.handle := by
    refine ⟨fun n' id hid => ?_⟩
    rcases hdata n' (s.writer.handle.metadata.id, id) with hsame | ⟨hkey, -⟩
    · exact hsame
    · rw [hs.key] at hkey
      exact absurd (congrArg Prod.snd hkey) (Nat.ne_of_lt hid)
  have hcur : ∀ n' b, dataAt (afterDeliver crc32 s n a.entry d w).replica
      s.writer.handle.metadata.id n' s.writer.handle.nextEntryId = some b → b = a.entry.data := by
    intro n' b hb
    rcases hdata n' (s.writer.handle.metadata.id, s.writer.handle.nextEntryId) with
      hsame | ⟨-, -, hnew⟩
    · exact hs.current.same n' b (hsame.symm.trans hb)
    · exact Option.some.inj (hb.symm.trans hnew)
  have hbase' := hbase.samePast hpast
  subst hw
  refine ⟨⟨hbase'.fragments, hbase'.replies⟩, ⟨⟨hcur⟩, hs.key, hs.last, ?_, ?_⟩⟩
  · exact (fill_nodes hslot _).trans hs.nodes
  · intro n' ack hmem
    rcases List.mem_or_eq_of_mem_set hmem with hold | hnew
    · have hheld := hs.acked n' ack hold
      rcases hdata n' (s.writer.handle.metadata.id, s.writer.handle.nextEntryId) with
        hsame | ⟨-, hnone, -⟩
      · exact hsame.trans hheld
      · rw [hheld] at hnone
        cases hnone
    · obtain ⟨rfl, hreply⟩ := Prod.mk.inj hnew
      obtain ⟨b, hb⟩ := deliver_held crc32 { s.writer with
        pc := .sending (a.fill i n' (deliverAdd crc32 s n' a.entry d).2) }
        (Option.some.inj hreply).symm
      rw [hs.key] at hb
      rw [hcur n' b hb] at hb
      exact hb

theorem freshId_current {data : Bytes} (hg : freshId s (.writer (.append data))) :
    Current (dataAt s.replica) s.writer.handle data := by
  refine ⟨fun n d hd => ?_⟩
  obtain ⟨e, he, rfl⟩ := Option.map_eq_some_iff.mp hd
  unfold State.replica at he
  cases hr : s.replicas.get n with
  | none =>
    rw [hr] at he
    cases he
  | some r =>
    rw [hr] at he
    exact hg r ((Table.mem_values_iff _ _).mpr ⟨n, hr⟩) e he

theorem changeInv_of_pc {held : Nat → NodeId → Nat → Option Bytes} {h : LedgerHandle}
    {after : AfterChange}
    (hpc : PcInv held h (.listing a after) ∨ PcInv held h (.putting a after)) :
    ChangeInv held h a after := by
  cases after <;> exact hpc.elim id id

theorem Inv.writer {a : WriterAct} (h : Inv s) (hg : freshId s (.writer a))
    (hst : WriterStep crc32 s a t) : Inv t := by
  obtain ⟨hbase, hpcinv⟩ := h
  cases hst with
  | append data hpc =>
    have hbase' : Base (dataAt s.replica)
        { s.writer with afterSeal := s.fencers.values.any isSealed } :=
      ⟨hbase.fragments, hbase.replies⟩
    change WriterInv (dataAt s.replica) (startAppend _ _ _ _)
    unfold startAppend
    dsimp only
    split
    · exact hbase'.reply_error _ _
    · exact hbase'.startAttempt (freshId_current hg) 0
  | deliver i d a n hpc hslot => exact Inv.deliver ⟨hbase, hpcinv⟩ hpc hslot
  | decide a hpc hover =>
    rw [hpc] at hpcinv
    exact hbase.decide hpcinv
  | listNodes d a after nodes hpc hnodes =>
    rw [hpc] at hpcinv
    refine hbase.pushFragment (changeInv_of_pc (.inl hpcinv)) fun ns hns => ?_
    rw [hnodes ns hns]
    exact s.store.listNodes_nodup
  | putOk d a after store m hpc hput =>
    rw [hpc] at hpcinv
    obtain ⟨-, rfl⟩ := putLedger_accepted hput
    obtain ⟨hbase', hkeep⟩ := hbase.withMetadata
      (m := { s.writer.handle.metadata with version := s.writer.handle.metadata.version + 1 })
      rfl hbase.fragments fun _ _ => rfl
    refine hbase'.endChange ?_ true
    have hchange := changeInv_of_pc (.inr hpcinv)
    cases after with
    | retry => exact ⟨hchange.same⟩
    | done => exact hkeep _ _ hchange
  | putErr d a after store e hpc hput =>
    rw [hpc] at hpcinv
    exact hbase.endChange (changeInv_of_pc (.inr hpcinv)) false

theorem inv_step {a : Act} (h : Inv s) (hg : freshId s a) (hst : step crc32 s a = some t) :
    Inv t := by
  cases a with
  | writer a => exact h.writer hg (stepWriter_cases crc32 hst)
  | fencer c a =>
    obtain ⟨hw, hframe⟩ := stepFencer_frame hst
    have hdata : dataAt t.replica = dataAt s.replica := by
      funext ledger n id
      unfold dataAt
      rw [(hframe n).1]
    unfold Inv
    rw [hw, hdata]
    exact h
  | register n =>
    cases hst
    exact h
  | expire n =>
    cases hst
    exact h

theorem inv_created (h : Created s) : Inv s := by
  obtain ⟨⟨st, o, ensemble, m, hcreate, hnodup, hw⟩, -⟩ := h
  unfold Inv
  rw [hw]
  obtain ⟨-, rfl, -⟩ := Store.createLedger_ok hcreate
  refine ⟨⟨fun f hf => ?_, nofun⟩, trivial⟩
  obtain rfl := List.mem_singleton.mp hf
  exact ⟨Nat.le_refl 0, hnodup⟩

theorem Committed.intact {id : Nat} {data : Bytes}
    (h : Committed (dataAt s.replica) s.writer.handle id data) : Intact s id data := by
  obtain ⟨f, howner, hnodup, hcount⟩ := h.quorum
  refine ⟨⟨f, howner, hnodup, hcount, fun n _ => h.same n⟩, fun n d hread => ?_⟩
  unfold LedgerHandle.read at hread
  split at hread
  · cases hread
  split at hread
  · cases hread
  rw [howner] at hread
  dsimp only at hread
  split at hread
  · refine h.same n d ?_
    unfold Replica.readEntry at hread
    unfold dataAt
    split at hread
    · rename_i e he
      cases hread
      rw [he]
      rfl
    · cases hread
  · cases hread

/-- If no append starts with other data under its id on some node, whatever an append has
been acknowledged for stays intact. -/
theorem acknowledged_appends_intact (h : Reach (guarded freshId (step crc32)) Created s) :
    ∀ r ∈ s.writer.replies, ∀ id, r.result = .ok id → Intact s id r.data := by
  have hinv : Inv s := by
    refine Reach.invariant (P := Inv) (fun _ => inv_created) (fun s a t hs hst => ?_) h
    obtain ⟨hg, hst⟩ := (guarded_eq_some freshId).mp hst
    exact inv_step hs hg hst
  intro r hr id hid
  exact (hinv.replies r hr id hid).intact

def threeNodes : LedgerMetadata := newLedger ["n0", "n1", "n2"] 3 2

theorem threeNodes_created (nodes : Table NodeId NodeStatus) :
    Created (newCluster threeNodes nodes) :=
  ⟨⟨⟨0, .empty, nodes⟩, ⟨3, 3, 2⟩, ["n0", "n1", "n2"], threeNodes, rfl, by decide, rfl⟩, rfl⟩

/-- One of three nodes is down, and a spare takes its place after the append. -/
theorem append_with_spare_intact :
    ∃ s, Reach (guarded freshId (step Crc32.crc32)) Created s ∧
      ⟨[1], false, .ok 0⟩ ∈ s.writer.replies ∧
      s.writer.handle.metadata.fragments.length = 2 ∧ Intact s 0 [1] := by
  obtain ⟨s, hreach, hmem, hlen⟩ := reach_check (guarded freshId (step Crc32.crc32))
    (threeNodes_created (Table.empty.put "n3" .ReadWrite))
    (fun s => ⟨[1], false, .ok 0⟩ ∈ s.writer.replies ∧
      s.writer.handle.metadata.fragments.length = 2)
    [.writer (.append [1]), .writer (.deliver 1 .delivered), .writer (.deliver 2 unreachable),
      .writer (.deliver 0 .delivered), .writer .decide, .writer (.listNodes .delivered),
      .writer (.putLedger .delivered)]
    (by decide +kernel)
  exact ⟨s, hreach, hmem, hlen, acknowledged_appends_intact hreach _ hmem 0 rfl⟩

/-- The first append reaches one node and fails; the second uses the same id, and that node
acknowledges it without storing it. -/
theorem failed_append_shadows_next :
    ∃ s, Reach (step Crc32.crc32) Created s ∧ ⟨[2], false, .ok 0⟩ ∈ s.writer.replies ∧
      s.writer.handle.read s.replica 0 "n0" = .ok [1] ∧ ¬Intact s 0 [2] := by
  obtain ⟨s, hreach, hmem, hread⟩ := reach_check (step Crc32.crc32) (threeNodes_created .empty)
    (fun s => ⟨[2], false, .ok 0⟩ ∈ s.writer.replies ∧
      s.writer.handle.read s.replica 0 "n0" = .ok [1])
    (appendActs [1] [.delivered, unreachable, unreachable] ++ [.writer (.listNodes .delivered)] ++
      appendActs [2] (List.replicate 3 .delivered))
    (by decide +kernel)
  refine ⟨s, hreach, hmem, hread, fun hintact => ?_⟩
  exact absurd (hintact.2 "n0" [1] hread) (by decide)

end Runs
end Folio.AppendIntegrity
