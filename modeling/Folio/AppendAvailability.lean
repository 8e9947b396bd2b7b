import Folio.AppendAnswers
import Mathlib.Data.List.Dedup

/-! Which appends are acknowledged: a writer whose spares are up gets every append through, and
one whose first spares are down gets none. -/
namespace Folio.AppendAvailability
open KeyedTable Protocol LedgerClient TransitionSystem Cluster AppendAnswers
variable {crc32 : Bytes → UInt32} {up : NodeId → Prop} {nodes : List NodeInfo}

section Starvation
variable {ledger : Nat} {p : Position} {f : Fragment} {ack : Nat} {A B : List NodeId}

def outside (nodes : List NodeInfo) (ensemble : List NodeId) : List NodeId :=
  (((nodes.filter fun n => decide (n.status = .ReadWrite)).filter fun n =>
    decide (n.nodeId ∉ ensemble)).take ensemble.length).map NodeInfo.nodeId

structure Dead (up : NodeId → Prop) (ack : Nat) (ensemble : List NodeId) (f : Fragment) :
    Prop where
  members : f.ensemble = ensemble
  writeQuorum : f.writeQuorum = ensemble.length
  ackQuorum : f.ackQuorum = ack
  nodup : ensemble.Nodup
  down : ∀ n ∈ ensemble, ¬up n

theorem Dead.asked_eq (h : Dead up ack A f) : asked f = A := by
  rw [asked, h.members, h.writeQuorum, List.take_length]

variable [DecidablePred up]

theorem Dead.ups_eq (h : Dead up ack A f) : ups up f = 0 := by
  unfold ups
  rw [h.asked_eq, List.countP_eq_zero]
  simpa using h.down

theorem Dead.downs_eq (h : Dead up ack A f) : downs up f = A := by
  unfold downs
  rw [h.asked_eq, List.filter_eq_self]
  simpa using h.down

theorem Dead.replacement_eq {fs : List Fragment} (h : Dead up ack A f)
    (hlast : fs.getLast? = some f) (hne : A ≠ []) (hlen : (outside nodes A).length = A.length)
    (first : Nat) : replacement up nodes fs first =
      some { f with firstEntryId := first, ensemble := outside nodes A } := by
  unfold replacement
  rw [hlast, Option.bind_some, h.downs_eq, if_neg hne]
  unfold newFragment
  have hsurvivors : A.filter (fun n => decide (n ∉ A)) = [] := by
    rw [List.filter_eq_nil_iff]
    simp
  have hspares : spares f A nodes = outside nodes A := by
    unfold spares outside
    rw [h.members, List.dedup_eq_self.mpr h.nodup]
  simp only [hlast, if_neg hne, h.members, hsurvivors, hspares, List.length_nil, Nat.zero_add,
    List.nil_append, h.writeQuorum, hlen, lt_irrefl, if_false]
  rfl

/-- The spares of a dead fragment are dead, and its members are the spares of theirs. -/
structure Stuck (up : NodeId → Prop) (nodes : List NodeInfo) (A B : List NodeId) : Prop where
  next : outside nodes A = B
  length : B.length = A.length
  nonempty : A ≠ []
  nodup : B.Nodup
  down : ∀ n ∈ B, ¬up n

theorem Dead.append (h : Dead up ack A f) (hstuck : Stuck up nodes A B) (hack : 0 < ack)
    (hlast : p.fragments.getLast? = some f) (ledger : Nat) :
    (p.append up nodes ledger).1 = .error (.quorumNotMet ack 0) ∧
      ∃ g, (p.append up nodes ledger).2.fragments.getLast? = some g ∧ Dead up ack B g := by
  obtain ⟨g, hnew, hg⟩ : ∃ g, replacement up nodes p.fragments p.next = some g ∧
      Dead up ack B g :=
    ⟨_, h.replacement_eq hlast hstuck.nonempty (hstuck.next ▸ hstuck.length) p.next, hstuck.next,
      h.writeQuorum.trans hstuck.length.symm, h.ackQuorum, hstuck.nodup, hstuck.down⟩
  have hno {f : Fragment} {A : List NodeId} (h : Dead up ack A f) : ¬Quorum up f := by
    unfold Quorum
    rw [h.ups_eq, h.ackQuorum]
    omega
  have hanswer := (Trying.second hlast (hno h) hnew).exhausted ledger List.getLast?_concat (hno hg)
    (.inl Nat.one_ne_zero)
  rw [hg.ups_eq, hg.ackQuorum] at hanswer
  rw [hanswer]
  exact ⟨rfl, _, List.getLast?_concat, hg⟩

/-- By induction over the appends: they go back and forth between the two ensembles. -/
theorem Dead.appends (h : Dead up ack A f) (hAB : Stuck up nodes A B) (hBA : Stuck up nodes B A)
    (hack : 0 < ack) (hlast : p.fragments.getLast? = some f) (ledger k : Nat) :
    (∀ r ∈ (p.appends up nodes ledger k).1, r = .error (.quorumNotMet ack 0)) ∧
      ∃ g, (p.appends up nodes ledger k).2.fragments.getLast? = some g ∧
        (Dead up ack A g ∨ Dead up ack B g) := by
  induction k with
  | zero => exact ⟨by simp [Position.appends], f, hlast, .inl h⟩
  | succ k ih =>
    obtain ⟨herrors, g, hg, hdead⟩ := ih
    unfold Position.appends
    rcases hdead with hdead | hdead
    · obtain ⟨herror, g', hg', hdead'⟩ := hdead.append hAB hack hg ledger
      refine ⟨fun r hr => ?_, g', hg', .inr hdead'⟩
      rcases List.mem_append.mp hr with hr | hr
      · exact herrors r hr
      · exact (List.mem_singleton.mp hr).trans herror
    · obtain ⟨herror, g', hg', hdead'⟩ := hdead.append hBA hack hg ledger
      refine ⟨fun r hr => ?_, g', hg', .inl hdead'⟩
      rcases List.mem_append.mp hr with hr | hr
      · exact herrors r hr
      · exact (List.mem_singleton.mp hr).trans herror

variable {s₀ s : State}

/-- Where the nodes that the store lists first are down, no append is acknowledged, whichever
others are up: each one replaces the dead members by the dead spares, or the other way round. -/
theorem dead_spares_starve_writer (hidle : s₀.writer.pc = .idle)
    (hcur : Current up s₀.store.listNodes s₀.ledger s₀)
    (hlast : s₀.writer.handle.metadata.fragments.getLast? = some f) (hdead : Dead up ack A f)
    (hAB : Stuck up s₀.store.listNodes A B) (hBA : Stuck up s₀.store.listNodes B A)
    (hack : 0 < ack) (h : Reach (guarded (calm up) (step crc32)) (· = s₀) s) :
    ∃ news, s.writer.replies = news ++ s₀.writer.replies ∧
      ∀ r ∈ news, r.result = .error (.quorumNotMet ack 0) := by
  obtain ⟨news, hnews, hresults, -⟩ := (reach_inv hidle hcur h).replies
  have herrors := (hdead.appends (p := position s₀.writer.handle) hAB hBA hack hlast s₀.ledger
    news.length).1
  refine ⟨news, hnews, fun r hr => herrors _ ?_⟩
  rw [← hresults, List.mem_reverse]
  exact List.mem_map_of_mem hr

def deadStart : State :=
  newCluster (newLedger ["n0"] 1 1)
    (((Table.empty.put "n2" .ReadWrite).put "n1" .ReadWrite).put "n0" .ReadWrite)

def againUnreachable : List Act := [.writer (.deliver 0 unreachable), .writer .decide]

/-- Two of three nodes are down, and two appends never try the third. -/
theorem up_node_never_tried :
    ∃ s news, Reach (guarded (calm (· = "n2")) (step Crc32.crc32)) (· = deadStart) s ∧
      s.writer.replies.length = 2 ∧ s.writer.replies = news ++ [] ∧
      ∀ r ∈ news, r.result = .error (.quorumNotMet 1 0) := by
  obtain ⟨s, hreach, hlen⟩ :=
    reach_check_from (guarded (calm (· = "n2")) (step Crc32.crc32)) deadStart
      (fun s => s.writer.replies.length = 2)
      (appendActs [1] [unreachable] ++ changeActs ++ againUnreachable ++
        appendActs [2] [unreachable] ++ changeActs ++ againUnreachable)
      (by decide +kernel)
  have hdead : Dead (· = "n2") 1 ["n0"] ⟨0, ["n0"], 1, 1⟩ :=
    ⟨rfl, rfl, rfl, by decide, by decide⟩
  have hnodes : Stuck (· = "n2") deadStart.store.listNodes ["n0"] ["n1"] :=
    ⟨by decide, rfl, by decide, by decide, by decide⟩
  have hback : Stuck (· = "n2") deadStart.store.listNodes ["n1"] ["n0"] :=
    ⟨by decide, rfl, by decide, by decide, by decide⟩
  obtain ⟨news, hnews, herrors⟩ := dead_spares_starve_writer rfl (newCluster_current rfl _) rfl
    hdead hnodes hback Nat.one_pos hreach
  exact ⟨s, news, hreach, hlen, hnews, herrors⟩

end Starvation

section Available
variable [DecidablePred up] {p q : Position} {f : Fragment}

structure Whole (up : NodeId → Prop) (f : Fragment) : Prop where
  ackQuorum : f.ackQuorum ≤ f.writeQuorum
  writeQuorum : f.writeQuorum ≤ f.ensemble.length
  members : ∀ n ∈ f.ensemble, up n

def candidates (nodes : List NodeInfo) (f : Fragment) : List NodeInfo :=
  (nodes.filter fun n => decide (n.status = .ReadWrite)).filter fun n =>
    decide (n.nodeId ∉ f.ensemble)

/-- A fragment with members that are down; the spares that are listed first, one for each of
them, are up. -/
structure Spared (up : NodeId → Prop) [DecidablePred up] (nodes : List NodeInfo) (f : Fragment) :
    Prop where
  nodup : f.ensemble.Nodup
  ackQuorum : f.ackQuorum ≤ f.writeQuorum
  writeQuorum : f.writeQuorum ≤ f.ensemble.length
  rest : ∀ n ∈ f.ensemble.drop f.writeQuorum, up n
  ready : ∀ n ∈ (candidates nodes f).take (downs up f).length, up n.nodeId
  enough : (downs up f).length ≤ (candidates nodes f).length

theorem Whole.downs_eq (h : Whole up f) : downs up f = [] := by
  unfold downs
  rw [List.filter_eq_nil_iff]
  intro n hn
  simpa using h.members n (List.mem_of_mem_take hn)

theorem Whole.quorum (h : Whole up f) : Quorum up f := by
  have hups : ups up f = (asked f).length := by
    unfold ups
    rw [List.countP_eq_length]
    intro n hn
    simpa using h.members n (List.mem_of_mem_take hn)
  unfold Quorum
  rw [hups, asked, List.length_take]
  have := h.ackQuorum
  have := h.writeQuorum
  omega

theorem Whole.append (h : Whole up f) (hlast : p.fragments.getLast? = some f) (ledger : Nat) :
    p.append up nodes ledger = (.ok p.next, ⟨p.next + 1, p.fragments⟩) := by
  rw [Trying.first.committed ledger hlast h.quorum, grown,
    grown_of_none_down hlast h.downs_eq, Option.toList_none, List.append_nil]

theorem Spared.downs_eq (h : Spared up nodes f) :
    downs up f = f.ensemble.filter fun n => decide ¬up n := by
  have hrest : (f.ensemble.drop f.writeQuorum).filter (fun n => decide ¬up n) = [] := by
    rw [List.filter_eq_nil_iff]
    simpa using h.rest
  conv_rhs => rw [← List.take_append_drop f.writeQuorum f.ensemble, List.filter_append, hrest]
  exact (List.append_nil _).symm

theorem Spared.survivors (h : Spared up nodes f) :
    (f.ensemble.filter fun n => decide (n ∉ downs up f)) =
      f.ensemble.filter fun n => decide (up n) := by
  refine List.filter_congr fun n hn => ?_
  rw [h.downs_eq]
  simp [hn]

theorem Spared.replaced (h : Spared up nodes f) :
    spares f (downs up f) nodes =
      ((candidates nodes f).take (downs up f).length).map NodeInfo.nodeId := by
  have hnodup : (downs up f).Nodup := h.downs_eq ▸ h.nodup.filter _
  unfold spares candidates
  rw [List.dedup_eq_self.mpr hnodup]

theorem Spared.length (h : Spared up nodes f) :
    (f.ensemble.filter fun n => decide (up n)).length +
      (spares f (downs up f) nodes).length = f.ensemble.length := by
  rw [h.replaced, List.length_map, List.length_take, Nat.min_eq_left h.enough, h.downs_eq]
  have hsplit := List.length_eq_length_filter_add (l := f.ensemble) fun n => decide (up n)
  simpa [Bool.not_eq_true] using hsplit.symm

theorem Spared.exists_replacement (h : Spared up nodes f) (hlast : p.fragments.getLast? = some f)
    (hdown : downs up f ≠ []) (first : Nat) :
    ∃ g, replacement up nodes p.fragments first = some g ∧ Whole up g := by
  let members := (f.ensemble.filter fun n => decide (up n)) ++ spares f (downs up f) nodes
  refine ⟨{ f with firstEntryId := first, ensemble := members }, ?_, h.ackQuorum, ?_, ?_⟩
  · unfold replacement
    rw [hlast, Option.bind_some, if_neg hdown]
    unfold newFragment
    simp only [hlast, if_neg hdown, h.survivors]
    rw [if_neg (by rw [h.length]; exact Nat.not_lt.mpr h.writeQuorum)]
    rfl
  · have hlen : members.length = f.ensemble.length := List.length_append.trans h.length
    exact h.writeQuorum.trans hlen.ge
  · intro n hn
    rcases List.mem_append.mp hn with hn | hn
    · simpa using (List.mem_filter.mp hn).2
    · rw [h.replaced] at hn
      obtain ⟨i, hi, rfl⟩ := List.mem_map.mp hn
      exact h.ready i hi

theorem Spared.append (h : Spared up nodes f) (hlast : p.fragments.getLast? = some f)
    (hdown : downs up f ≠ []) (ledger : Nat) :
    ∃ g, p.append up nodes ledger = (.ok p.next, ⟨p.next + 1, p.fragments ++ [g]⟩) ∧
      Whole up g := by
  by_cases hq : Quorum up f
  · obtain ⟨g, hnew, hg⟩ := h.exists_replacement hlast hdown (p.next + 1)
    refine ⟨g, ?_, hg⟩
    rw [Trying.first.committed ledger hlast hq, grown, hnew]
    rfl
  · obtain ⟨g, hnew, hg⟩ := h.exists_replacement hlast hdown p.next
    refine ⟨g, ?_, hg⟩
    rw [(Trying.second hlast hq hnew).committed ledger List.getLast?_concat hg.quorum, grown,
      grown_of_none_down List.getLast?_concat hg.downs_eq, Option.toList_none, List.append_nil]

theorem Spared.whole (h : Spared up nodes f) (hnone : downs up f = []) : Whole up f where
  ackQuorum := h.ackQuorum
  writeQuorum := h.writeQuorum
  members n hn := by
    rw [h.downs_eq, List.filter_eq_nil_iff] at hnone
    simpa using hnone n hn

def Served (up : NodeId → Prop) (p q : Position) : Prop :=
  q.fragments = p.fragments ∨ ∃ g, q.fragments = p.fragments ++ [g] ∧ Whole up g

theorem Served.append (h : Spared up nodes f) (hlast : p.fragments.getLast? = some f)
    (hq : Served up p q) (ledger : Nat) :
    ∃ fs, q.append up nodes ledger = (.ok q.next, ⟨q.next + 1, fs⟩) ∧
      Served up p ⟨q.next + 1, fs⟩ := by
  rcases hq with hsame | ⟨g, hfs, hg⟩
  · rw [← hsame] at hlast
    by_cases hdown : downs up f = []
    · exact ⟨_, (h.whole hdown).append hlast ledger, .inl hsame⟩
    · obtain ⟨g, happend, hg⟩ := h.append hlast hdown ledger
      exact ⟨_, happend, .inr ⟨g, congrArg (· ++ [g]) hsame, hg⟩⟩
  · exact ⟨_, hg.append (hfs ▸ List.getLast?_concat) ledger, .inr ⟨g, hfs, hg⟩⟩

theorem Spared.appends (h : Spared up nodes f) (hlast : p.fragments.getLast? = some f)
    (ledger k : Nat) :
    (p.appends up nodes ledger k).1 = (List.range k).map (fun i => .ok (p.next + i)) ∧
      (p.appends up nodes ledger k).2.next = p.next + k ∧
      Served up p (p.appends up nodes ledger k).2 := by
  induction k with
  | zero => exact ⟨rfl, rfl, .inl rfl⟩
  | succ k ih =>
    obtain ⟨hresults, hnext, hserved⟩ := ih
    obtain ⟨fs, happend, hserved⟩ := hserved.append h hlast ledger
    unfold Position.appends
    dsimp only
    rw [happend, hnext, hresults, List.range_succ, List.map_append]
    rw [hnext] at hserved
    exact ⟨rfl, rfl, hserved⟩

variable {s₀ s : State}

/-- A writer whose spares are up gets every append through, whatever the order in which the nodes
answer, and replaces its ensemble at most once. -/
theorem spared_appends_acknowledged (hidle : s₀.writer.pc = .idle)
    (hcur : Current up s₀.store.listNodes s₀.ledger s₀)
    (hlast : s₀.writer.handle.metadata.fragments.getLast? = some f)
    (hspared : Spared up s₀.store.listNodes f)
    (h : Reach (guarded (calm up) (step crc32)) (· = s₀) s) :
    (∃ as t, (∀ a ∈ as, ¬isAppend a) ∧ run (guarded (calm up) (step crc32)) s as = some t ∧
      t.writer.pc = .idle) ∧
    (∃ news, s.writer.replies = news ++ s₀.writer.replies ∧
      (news.map Reply.result).reverse =
        (List.range news.length).map fun i => .ok (s₀.writer.handle.nextEntryId + i)) ∧
    (s.writer.pc = .idle →
      Served up (position s₀.writer.handle) (position s.writer.handle)) := by
  have hinv := reach_inv hidle hcur h
  obtain ⟨news, hnews, hresults, hphase⟩ := hinv.replies
  obtain ⟨hok, -, hserved⟩ := hspared.appends (p := position s₀.writer.handle) hlast s₀.ledger
    news.length
  refine ⟨hinv.comes_to_rest, ⟨news, hnews, hresults.trans hok⟩, fun hrest => ?_⟩
  rw [hrest] at hphase
  exact (show _ = position s.writer.handle from hphase) ▸ hserved

def twoSpares : State :=
  newCluster (newLedger ["n0", "n1"] 2 1)
    (((Table.empty.put "n4" .ReadWrite).put "n3" .ReadWrite).put "n2" .ReadWrite)

/-- Both members are down, and so is a spare that is not needed. -/
theorem both_members_replaced :
    ∃ s, Reach (guarded (calm (· ∈ ["n2", "n3"])) (step Crc32.crc32))
        (· = twoSpares) s ∧
      s.writer.replies.length = 1 ∧ (s.writer.replies.map Reply.result).reverse = [.ok 0] := by
  obtain ⟨s, hreach, hlen⟩ :=
    reach_check_from (guarded (calm (· ∈ ["n2", "n3"])) (step Crc32.crc32)) twoSpares
      (fun s => s.writer.replies.length = 1)
      [.writer (.append [1]), .writer (.deliver 1 unreachable), .writer (.deliver 0 unreachable),
        .writer .decide, .writer (.listNodes .delivered), .writer (.putLedger .delivered),
        .writer (.deliver 0 .delivered), .writer (.deliver 1 .delivered), .writer .decide]
      (by decide +kernel)
  have hspared : Spared (· ∈ ["n2", "n3"]) twoSpares.store.listNodes
      ⟨0, ["n0", "n1"], 2, 1⟩ :=
    ⟨by decide, by decide, by decide, by decide, by decide, by decide⟩
  obtain ⟨-, ⟨news, hnews, hresults⟩, -⟩ := spared_appends_acknowledged rfl
    (newCluster_current rfl _) rfl hspared hreach
  obtain rfl : news = s.writer.replies := (hnews.trans (List.append_nil news)).symm
  exact ⟨s, hreach, hlen, by rw [hresults, hlen]; rfl⟩

end Available
end Folio.AppendAvailability
