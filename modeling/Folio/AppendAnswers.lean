import Folio.AppendIntegrity
import Folio.ChangeFragment
import Folio.RestoreReplication

/-! When appends return `Ok`: with no other client at work, the answers of a handle are a function
of which nodes are up. -/
namespace Folio.AppendAnswers
open KeyedTable Protocol Metadata LedgerClient TransitionSystem Cluster
variable {up : NodeId → Prop} {crc32 : Bytes → UInt32} {nodes : List NodeInfo}
  {ledger : Nat} {old : List Reply} {number : Nat} {data : Bytes} {a : Attempt} {n : NodeId}

section Answers
variable (up : NodeId → Prop) [DecidablePred up] (nodes : List NodeInfo)

def asked (f : Fragment) : List NodeId := f.ensemble.take f.writeQuorum

def ups (f : Fragment) : Nat := (asked f).countP fun n => decide (up n)

def downs (f : Fragment) : List NodeId := (asked f).filter fun n => decide ¬up n

def Quorum (f : Fragment) : Prop := f.ackQuorum ≤ ups up f

instance (f : Fragment) : Decidable (Quorum up f) := by
  unfold Quorum
  infer_instance

structure Position where
  next : Nat
  fragments : List Fragment

/-- The fragment that `change_fragment` pushes when the nodes that are down have failed. -/
def replacement (fs : List Fragment) (first : Nat) : Option Fragment :=
  fs.getLast?.bind fun f =>
    if downs up f = [] then none
    else (newFragment ⟨0, .Open, fs, none, 0, 0⟩ (downs up f) nodes first).toOption

def grown (fs : List Fragment) (first : Nat) : List Fragment :=
  fs ++ (replacement up nodes fs first).toList

def Position.append (ledger : Nat) (p : Position) : Except FolioError Nat × Position :=
  match p.fragments.getLast? with
  | none => (.error (.invalidFragment ledger), p)
  | some f =>
    if Quorum up f then
      (.ok p.next, ⟨p.next + 1, grown up nodes p.fragments (p.next + 1)⟩)
    else
      match replacement up nodes p.fragments p.next with
      | none => (.error (.quorumNotMet f.ackQuorum (ups up f)), p)
      | some g =>
        let fs := p.fragments ++ [g]
        if Quorum up g then (.ok p.next, ⟨p.next + 1, grown up nodes fs (p.next + 1)⟩)
        else (.error (.quorumNotMet g.ackQuorum (ups up g)), ⟨p.next, fs⟩)

def Position.appends (ledger : Nat) (p : Position) : Nat → List (Except FolioError Nat) × Position
  | 0 => ([], p)
  | k + 1 =>
    let q := p.appends ledger k
    let r := q.2.append up nodes ledger
    (q.1 ++ [r.1], r.2)

end Answers

variable {p : Position}

section Calls
variable (up : NodeId → Prop) [DecidablePred up]

def notFenced : FolioError → Bool
  | .ledgerFenced _ => false
  | _ => true

def reached (n : NodeId) : Delivery → Prop
  | .delivered => up n
  | .lostRequest e | .lostReply e => ¬up n ∧ notFenced e = true

instance (n : NodeId) : (d : Delivery) → Decidable (reached up n d)
  | .delivered => inferInstanceAs (Decidable (up n))
  | .lostRequest e => inferInstanceAs (Decidable (¬up n ∧ notFenced e = true))
  | .lostReply e => inferInstanceAs (Decidable (¬up n ∧ notFenced e = true))

abbrev Slot := NodeId × Option (Except FolioError AppendAck)

def slotsOf : WriterPc → List Slot
  | .sending a => a.slots
  | _ => []

/-- The writer is the only client, the metadata store answers, and no node comes or goes. -/
def calm (s : State) : Act → Prop
  | .writer (.append _) | .writer .decide => True
  | .writer (.deliver i d) => ∀ slot ∈ (slotsOf s.writer.pc)[i]?, reached up slot.1 d
  | .writer (.listNodes d) | .writer (.putLedger d) => d = .delivered
  | _ => False

instance (s : State) : (a : Act) → Decidable (calm up s a)
  | .writer (.append _) | .writer .decide => inferInstanceAs (Decidable True)
  | .writer (.deliver i d) =>
    inferInstanceAs (Decidable (∀ slot ∈ (slotsOf s.writer.pc)[i]?, reached up slot.1 d))
  | .writer (.listNodes d) | .writer (.putLedger d) => inferInstanceAs (Decidable (d = .delivered))
  | .fencer _ _ | .register _ | .expire _ => inferInstanceAs (Decidable False)

end Calls

section Attempts
variable [DecidablePred up] {slots : List Slot} {fs : List Fragment}

def Told (up : NodeId → Prop) (n : NodeId) : Except FolioError AppendAck → Prop
  | .ok _ => up n
  | .error e => ¬up n ∧ notFenced e = true

theorem acks_length (h : ∀ s ∈ slots, ∃ r, s.2 = some r ∧ Told up s.1 r) :
    (slots.filterMap fun s => s.2.bind Except.toOption).length =
      (slots.map Prod.fst).countP fun n => decide (up n) := by
  induction slots with
  | nil => rfl
  | cons s slots ih =>
    obtain ⟨⟨r, hr, htold⟩, h⟩ := List.forall_mem_cons.mp h
    have hrest := ih h
    cases r with
    | ok ack =>
      have hup : up s.1 := htold
      simp [hr, Except.toOption, hup, hrest]
    | error e =>
      have hdown : ¬up s.1 := htold.1
      simp [hr, Except.toOption, hdown, hrest]

theorem failed_eq (h : ∀ s ∈ slots, ∃ r, s.2 = some r ∧ Told up s.1 r) :
    (slots.filter Attempt.isFailed).map Prod.fst =
      (slots.map Prod.fst).filter fun n => decide ¬up n := by
  induction slots with
  | nil => rfl
  | cons s slots ih =>
    obtain ⟨⟨r, hr, htold⟩, h⟩ := List.forall_mem_cons.mp h
    have hrest := ih h
    cases r with
    | ok ack =>
      have hup : up s.1 := htold
      have hok : Attempt.isFailed s = false := by simp [Attempt.isFailed, hr]
      simp [hok, hup, hrest]
    | error e =>
      have hdown : ¬up s.1 := htold.1
      have hfail : Attempt.isFailed s = true := by simp [Attempt.isFailed, hr]
      simp [hfail, hdown, hrest]

omit [DecidablePred up] in
theorem not_fenced (h : ∀ s ∈ slots, ∃ r, s.2 = some r ∧ Told up s.1 r) :
    slots.any Attempt.isFenced = false := by
  rw [List.any_eq_false]
  intro s hs
  obtain ⟨r, hr, htold⟩ := h s hs
  unfold Attempt.isFenced
  rw [hr]
  cases r with
  | ok ack => simp
  | error e =>
    obtain ⟨-, hne⟩ := htold
    cases e <;> simp_all [notFenced]

variable {h : LedgerHandle} {a : Attempt}

/-- The fragments that attempt `number` of an append from `p` works on. -/
inductive Trying (up : NodeId → Prop) [DecidablePred up] (nodes : List NodeInfo) (p : Position) :
    Nat → List Fragment → Prop
  | first : Trying up nodes p 0 p.fragments
  | second {f g : Fragment} : p.fragments.getLast? = some f → ¬Quorum up f →
      replacement up nodes p.fragments p.next = some g → Trying up nodes p 1 (p.fragments ++ [g])

structure Sent (crc32 : Bytes → UInt32) (up : NodeId → Prop) [DecidablePred up]
    (nodes : List NodeInfo) (p : Position) (h : LedgerHandle) (a : Attempt) : Prop where
  trying : Trying up nodes p a.number h.metadata.fragments
  next : h.nextEntryId = p.next
  last : h.metadata.fragments.getLast? = some a.fragment
  asked : a.slots.map Prod.fst = asked a.fragment
  told : ∀ s ∈ a.slots, ∀ r, s.2 = some r → Told up s.1 r
  ledger : a.entry.ledgerId = h.metadata.id
  entryId : a.entry.entryId = p.next
  digest : a.entry.validateDigest crc32 = true

theorem Sent.all_told (hs : Sent crc32 up nodes p h a) (hover : a.isOver = true) :
    ∀ s ∈ a.slots, ∃ r, s.2 = some r ∧ Told up s.1 r := by
  intro s hmem
  obtain ⟨r, hr⟩ := Option.isSome_iff_exists.mp (List.all_eq_true.mp hover s hmem)
  exact ⟨r, hr, hs.told s hmem r hr⟩

theorem Sent.acks (hs : Sent crc32 up nodes p h a) (hover : a.isOver = true) :
    a.acks.length = ups up a.fragment := by
  unfold Attempt.acks ups
  rw [acks_length (hs.all_told hover), hs.asked]

theorem Sent.failed (hs : Sent crc32 up nodes p h a) (hover : a.isOver = true) :
    a.failed = downs up a.fragment := by
  unfold Attempt.failed downs
  rw [failed_eq (hs.all_told hover), hs.asked]

theorem Sent.fill (hs : Sent crc32 up nodes p h a) {i : Nat}
    {r : Except FolioError AppendAck} (hslot : a.slots[i]? = some (n, none)) (hr : Told up n r) :
    Sent crc32 up nodes p h (a.fill i n r) := by
  refine { hs with asked := (AppendIntegrity.fill_nodes hslot r).trans hs.asked, told := ?_ }
  intro s hmem r' hr'
  rcases List.mem_or_eq_of_mem_set hmem with hold | rfl
  · exact hs.told s hold r' hr'
  · cases hr'
    exact hr

theorem Trying.unchanged (ht : Trying up nodes p 0 fs) : fs = p.fragments := by
  cases ht
  rfl

theorem Trying.committed {f : Fragment} (ledger : Nat)
    (ht : Trying up nodes p number fs) (hlast : fs.getLast? = some f) (hq : Quorum up f) :
    p.append up nodes ledger = (.ok p.next, ⟨p.next + 1, grown up nodes fs (p.next + 1)⟩) := by
  unfold Position.append
  cases ht with
  | first => simp only [hlast, if_pos hq]
  | @second f₀ g hf₀ hno hg =>
    rw [List.getLast?_concat] at hlast
    cases hlast
    simp only [hf₀, if_neg hno, hg, if_pos hq]

theorem Trying.exhausted {f : Fragment} (ledger : Nat)
    (ht : Trying up nodes p number fs) (hlast : fs.getLast? = some f) (hno : ¬Quorum up f)
    (hend : number ≠ 0 ∨ replacement up nodes fs p.next = none) :
    p.append up nodes ledger = (.error (.quorumNotMet f.ackQuorum (ups up f)), ⟨p.next, fs⟩) := by
  unfold Position.append
  cases ht with
  | first =>
    have hnone := hend.resolve_left (fun h => h rfl)
    simp only [hlast, if_neg hno, hnone]
  | @second f₀ g hf₀ hno₀ hg =>
    rw [List.getLast?_concat] at hlast
    cases hlast
    simp only [hf₀, if_neg hno₀, hg, if_neg hno]

omit [DecidablePred up] in
theorem told_deliver {s : State} {e : Entry} {d : Delivery} (hd : reached up n d)
    (hdigest : e.validateDigest crc32 = true) (hfence : up n → e.ledgerId ∉ (s.replica n).fences) :
    Told up n (deliverAdd crc32 s n e d).2 := by
  cases d with
  | delivered =>
    obtain ⟨⟨ack, hack⟩, -⟩ := RestoreReplication.addEntry_taken n hdigest (hfence hd)
    change Told up n ((s.replica n).addEntry crc32 n e).2
    rw [hack]
    exact hd
  | lostRequest e => exact hd
  | lostReply e => exact hd

end Attempts

section Writer
variable [DecidablePred up] {w w' : Writer} {a : Attempt} {f : Fragment} {m : LedgerMetadata}
  {after : AfterChange}

structure Replacing (up : NodeId → Prop) [DecidablePred up] (nodes : List NodeInfo)
    (ledger : Nat) (p : Position) (h : LedgerHandle) (a : Attempt) : Prop where
  answer : p.append up nodes ledger =
    (.ok p.next, ⟨p.next + 1, grown up nodes h.metadata.fragments (p.next + 1)⟩)
  next : h.nextEntryId = p.next + 1
  last : h.metadata.fragments.getLast? = some a.fragment
  failed : a.failed = downs up a.fragment
  down : a.failed ≠ []
  entryId : a.entry.entryId = p.next

structure Retrying (crc32 : Bytes → UInt32) (up : NodeId → Prop) [DecidablePred up]
    (nodes : List NodeInfo) (p : Position) (h : LedgerHandle) (a : Attempt) : Prop
    extends Sent crc32 up nodes p h a where
  answered : a.isOver = true
  missed : ¬Quorum up a.fragment
  down : a.failed ≠ []
  number : a.number = 0

def Phase (crc32 : Bytes → UInt32) (up : NodeId → Prop) [DecidablePred up] (nodes : List NodeInfo)
    (ledger : Nat) (p : Position) (h : LedgerHandle) : WriterPc → Prop
  | .idle => p = ⟨h.nextEntryId, h.metadata.fragments⟩
  | .sending a => Sent crc32 up nodes p h a
  | .listing a .done => Replacing up nodes ledger p h a
  | .putting a .done =>
    p.append up nodes ledger = (.ok p.next, ⟨p.next + 1, h.metadata.fragments⟩) ∧
      h.nextEntryId = p.next + 1 ∧ a.entry.entryId = p.next
  | .listing a .retry => Retrying crc32 up nodes p h a
  | .putting a .retry => Trying up nodes p 1 h.metadata.fragments ∧ h.nextEntryId = p.next ∧
      a.number = 0 ∧ ∃ g, h.metadata.fragments.getLast? = some g ∧
        g.writeQuorum = a.fragment.writeQuorum

def Onward (crc32 : Bytes → UInt32) (up : NodeId → Prop) [DecidablePred up] (nodes : List NodeInfo)
    (ledger : Nat) (p : Position) (w w' : Writer) : Prop :=
  w'.replies = w.replies ∧ Phase crc32 up nodes ledger p w'.handle w'.pc ∨
  ∃ r, w'.replies = r :: w.replies ∧ w'.pc = .idle ∧
    p.append up nodes ledger =
      (r.result, ⟨w'.handle.nextEntryId, w'.handle.metadata.fragments⟩)

theorem onward_reply {result : Except FolioError Nat}
    (h : p.append up nodes ledger =
      (result, ⟨w.handle.nextEntryId, w.handle.metadata.fragments⟩)) :
    Onward crc32 up nodes ledger p w (reply w data result) :=
  .inr ⟨_, rfl, rfl, h⟩

theorem replacement_eq (nodes : List NodeInfo)
    (hlast : m.fragments.getLast? = some f) (hdown : downs up f ≠ []) (first : Nat) :
    replacement up nodes m.fragments first =
      (newFragment m (downs up f) nodes first).toOption := by
  unfold replacement newFragment
  simp only [hlast, Option.bind_some, if_neg hdown]

theorem grown_of_none_down {fs : List Fragment} (hlast : fs.getLast? = some f)
    (hdown : downs up f = []) (first : Nat) : replacement up nodes fs first = none := by
  simp [replacement, hlast, hdown]

theorem onward_start (ht : Trying up nodes p number w.handle.metadata.fragments)
    (hnext : w.handle.nextEntryId = p.next) (hid : w.handle.metadata.id = ledger) :
    Onward crc32 up nodes ledger p w (startAttempt crc32 w number data) := by
  unfold startAttempt
  split
  · rename_i hnone
    refine onward_reply ?_
    generalize hfs : w.handle.metadata.fragments = fs at ht hnone
    cases ht with
    | first =>
      unfold Position.append
      simp only [hnone, hid, hnext]
    | second _ _ _ => simp at hnone
  · rename_i f hlast
    refine .inl ⟨rfl, ?_⟩
    exact {
      trying := ht
      next := hnext
      last := hlast
      asked := by simp [asked, Function.comp_def]
      told := by
        intro s hs r hr
        obtain ⟨n, -, rfl⟩ := List.mem_map.mp hs
        cases hr
      ledger := rfl
      entryId := hnext
      digest := by simp [Entry.new, Entry.validateDigest] }

theorem onward_decide (hs : Sent crc32 up nodes p w.handle a) (hover : a.isOver = true) :
    Onward crc32 up nodes ledger p w (decideAttempt w a) := by
  have hfailed := hs.failed hover
  unfold decideAttempt
  rw [if_neg (by simp [Attempt.fenced, not_fenced (hs.all_told hover)]), hs.acks hover]
  by_cases hq : Quorum up a.fragment
  · rw [if_pos (show a.fragment.ackQuorum ≤ ups up a.fragment from hq)]
    have hanswer := hs.trying.committed ledger hs.last hq
    dsimp only
    split_ifs with hdown
    · refine .inl ⟨rfl, hanswer, congrArg (· + 1) hs.next, hs.last, hfailed, hdown, hs.entryId⟩
    · rw [not_not, hfailed] at hdown
      rw [grown, grown_of_none_down hs.last hdown] at hanswer
      refine .inr ⟨_, rfl, rfl, ?_⟩
      simpa [reply, LedgerHandle.commit, hs.entryId, hs.next] using hanswer
  · rw [if_neg (show ¬a.fragment.ackQuorum ≤ ups up a.fragment from hq)]
    split_ifs with hdown
    · refine .inl ⟨rfl, { hs with answered := hover, missed := hq, down := ?_, number := ?_ }⟩
      · exact hdown.1
      · exact hdown.2
    · refine onward_reply ?_
      rw [hs.next]
      refine hs.trying.exhausted ledger hs.last hq ?_
      by_cases hnum : a.number = 0
      · refine .inr (grown_of_none_down hs.last ?_ _)
        rw [← hfailed]
        by_contra hne
        exact hdown ⟨hne, hnum⟩
      · exact .inl hnum

theorem pushFragment_error (after : AfterChange) {e : FolioError}
    (h : newFragment w.handle.metadata a.failed nodes w.handle.nextEntryId = .error e) :
    pushFragment crc32 w a after (.ok nodes) = endChange crc32 w a after false := by
  unfold pushFragment
  rw [Except.bind, h]

theorem pushFragment_ok (after : AfterChange)
    (h : newFragment w.handle.metadata a.failed nodes w.handle.nextEntryId = .ok f) :
    pushFragment crc32 w a after (.ok nodes) =
      { withMetadata w { w.handle.metadata with fragments := w.handle.metadata.fragments ++ [f] }
        with pc := .putting a after } := by
  unfold pushFragment
  rw [Except.bind, h]

theorem onward_push (h : Phase crc32 up nodes ledger p w.handle (.listing a after)) :
    Onward crc32 up nodes ledger p w (pushFragment crc32 w a after (.ok nodes)) := by
  cases after with
  | done =>
    have hnew := replacement_eq nodes h.last (h.failed ▸ h.down) w.handle.nextEntryId
    have hanswer := h.answer
    rw [grown, ← h.next, hnew, ← h.failed] at hanswer
    cases hf : newFragment w.handle.metadata a.failed nodes w.handle.nextEntryId with
    | error e =>
      rw [hf] at hanswer
      rw [pushFragment_error .done hf]
      refine .inr ⟨_, rfl, rfl, ?_⟩
      simpa [endChange, reply, h.entryId, Except.toOption] using hanswer
    | ok f =>
      rw [hf] at hanswer
      rw [pushFragment_ok .done hf]
      refine .inl ⟨rfl, ?_, h.next, h.entryId⟩
      rw [← h.next]
      exact hanswer
  | retry =>
    have hfailed := h.failed h.answered
    have hnew := replacement_eq nodes h.last (hfailed ▸ h.down) w.handle.nextEntryId
    rw [← hfailed] at hnew
    cases hf : newFragment w.handle.metadata a.failed nodes w.handle.nextEntryId with
    | error e =>
      rw [hf, h.next] at hnew
      rw [pushFragment_error .retry hf]
      refine onward_reply ?_
      rw [h.acks h.answered, h.next]
      exact h.trying.exhausted ledger h.last h.missed (.inr hnew)
    | ok g =>
      rw [hf, h.next] at hnew
      rw [pushFragment_ok .retry hf]
      have hfs : w.handle.metadata.fragments = p.fragments := (h.number ▸ h.trying).unchanged
      obtain ⟨current, hcur, hwq, -⟩ := ChangeFragment.newFragment_shape hf
      cases h.last.symm.trans hcur
      refine .inl ⟨rfl, ?_, h.next, h.number, g, List.getLast?_concat, hwq⟩
      change Trying up nodes p 1 (w.handle.metadata.fragments ++ [g])
      rw [hfs] at hnew ⊢
      exact .second (hfs ▸ h.last) h.missed hnew

theorem onward_put (h : Phase crc32 up nodes ledger p w.handle (.putting a after))
    (hm : m.fragments = w.handle.metadata.fragments) (hid : m.id = ledger) :
    Onward crc32 up nodes ledger p w (endChange crc32 (withMetadata w m) a after true) := by
  cases after with
  | done =>
    obtain ⟨hanswer, hnext, hentry⟩ := h
    refine .inr ⟨_, rfl, rfl, ?_⟩
    change p.append up nodes ledger = (.ok a.entry.entryId, ⟨w.handle.nextEntryId, m.fragments⟩)
    rw [hm, hnext, hentry]
    exact hanswer
  | retry =>
    obtain ⟨ht, hnext, hnumber, -⟩ := h
    change Onward _ _ _ _ _ _ (startAttempt crc32 (withMetadata w m) (a.number + 1) a.entry.data)
    rw [hnumber]
    exact onward_start (w := withMetadata w m) (hm ▸ ht) hnext hid

end Writer

section Handle
variable {s t : State}

structure Current (up : NodeId → Prop) (nodes : List NodeInfo) (ledger : Nat) (s : State) :
    Prop where
  listed : s.store.listNodes = nodes
  id : s.writer.handle.metadata.id = ledger
  isOpen : s.writer.handle.metadata.state = .Open
  stored : (s.store.ledgers.get ledger).map LedgerMetadata.version =
    some s.writer.handle.metadata.version
  unfenced : ∀ n, up n → ledger ∉ (s.replica n).fences

theorem startAttempt_handle (w : Writer) (number : Nat) (data : Bytes) :
    (startAttempt crc32 w number data).handle = w.handle := by
  unfold startAttempt
  split <;> rfl

theorem startAppend_sameTerm (w : Writer) (data : Bytes) (afterSeal : Bool) :
    SameTerm { w with afterSeal } (startAppend crc32 w data afterSeal) := by
  unfold startAppend
  dsimp only
  split_ifs
  · exact ⟨rfl, rfl, rfl, rfl⟩
  · exact startAttempt_sameTerm crc32 _ 0 data

theorem endChange_handle (w : Writer) (a : Attempt) (after : AfterChange) (ok : Bool) :
    (endChange crc32 w a after ok).handle = w.handle := by
  cases after <;> cases ok
  case retry.true => exact startAttempt_handle w _ _
  all_goals rfl

theorem Current.next {w : Writer} (h : Current up nodes ledger s) (hsame : SameTerm w t.writer)
    (hw : w.handle = s.writer.handle) (hstore : t.store = s.store)
    (hfences : ∀ n, (t.replica n).fences = (s.replica n).fences) : Current up nodes ledger t where
  listed := hstore ▸ h.listed
  id := by rw [hsame.id, hw, h.id]
  isOpen := by rw [hsame.state, hw, h.isOpen]
  stored := by rw [hstore, hsame.version, hw, h.stored]
  unfenced n hn := hfences n ▸ h.unfenced n hn

theorem deliver_fences (s : State) (n n' : NodeId) (e : Entry) (d : Delivery) (w : Writer) :
    ((afterDeliver crc32 s n e d w).replica n').fences = (s.replica n').fences := by
  rw [afterDeliver_replica]
  split_ifs with hn
  · rw [hn]
    rcases deliverAdd_cases crc32 s n e d with ⟨hsame, -⟩ | ⟨-, -, -, hsame⟩
    · rw [hsame]
    · exact hsame
  · rfl

/-- The version of the handle is the stored one, so the write is accepted. -/
theorem Current.put (h : Current up nodes ledger s) :
    s.store.putLedger s.writer.handle.metadata =
      ((s.store.writeLedger ledger s.writer.handle.metadata).1,
        .ok (s.store.writeLedger ledger s.writer.handle.metadata).2) := by
  obtain ⟨cur, hcur, hversion⟩ := Option.map_eq_some_iff.mp h.stored
  unfold Store.putLedger
  simp [h.id, hcur, hversion]

end Handle

section Runs
variable [DecidablePred up] {s t : State}

structure Inv (crc32 : Bytes → UInt32) (up : NodeId → Prop) [DecidablePred up]
    (nodes : List NodeInfo) (ledger : Nat) (p : Position) (old : List Reply) (s : State) : Prop
    extends Current up nodes ledger s where
  replies : ∃ news, s.writer.replies = news ++ old ∧
    (news.map Reply.result).reverse = (p.appends up nodes ledger news.length).1 ∧
    Phase crc32 up nodes ledger (p.appends up nodes ledger news.length).2 s.writer.handle
      s.writer.pc

theorem Inv.onward (h : Inv crc32 up nodes ledger p old s)
    (hcur : Current up nodes ledger t)
    (hon : ∀ q, Phase crc32 up nodes ledger q s.writer.handle s.writer.pc →
      Onward crc32 up nodes ledger q s.writer t.writer) : Inv crc32 up nodes ledger p old t := by
  obtain ⟨news, hold, hresults, hphase⟩ := h.replies
  refine { hcur with replies := ?_ }
  rcases hon _ hphase with ⟨hsame, hnext⟩ | ⟨r, hnew, hidle, hanswer⟩
  · exact ⟨news, hsame.trans hold, hresults, hnext⟩
  · refine ⟨r :: news, by rw [hnew, hold]; rfl, ?_, ?_⟩
    · simp only [List.map_cons, List.reverse_cons, List.length_cons, Position.appends, hresults,
        hanswer]
    · rw [hidle]
      simp only [List.length_cons, Position.appends, hanswer]
      rfl

theorem Inv.append (h : Inv crc32 up nodes ledger p old s)
    (hpc : s.writer.pc = .idle) : Inv crc32 up nodes ledger p old
      { s with writer := startAppend crc32 s.writer data (s.fencers.values.any isSealed) } := by
  refine h.onward (h.next (startAppend_sameTerm _ _ _) rfl rfl fun _ => rfl) fun q hq => ?_
  rw [hpc] at hq
  unfold startAppend
  rw [if_neg (by simp [h.isOpen])]
  refine onward_start (w := { s.writer with afterSeal := _ }) ?_ ?_ h.id
  · rw [show s.writer.handle.metadata.fragments = q.fragments from
      (congrArg Position.fragments hq).symm]
    exact .first
  · exact (congrArg Position.next hq).symm

theorem Inv.put {d : Delivery} {after : AfterChange} (h : Inv crc32 up nodes ledger p old s)
    (hd : d = .delivered) (hpc : s.writer.pc = .putting a after)
    (hst : stepWriter crc32 s (.putLedger d) = some t) : Inv crc32 up nodes ledger p old t := by
  subst hd
  have ht : t = { s with
      store := (s.store.writeLedger ledger s.writer.handle.metadata).1
      writer := endChange crc32 (withMetadata s.writer
        (s.store.writeLedger ledger s.writer.handle.metadata).2) a after true } := by
    simp only [stepWriter, hpc, Delivery.send, h.toCurrent.put] at hst
    exact (Option.some.inj hst).symm
  subst ht
  have hhandle : (endChange crc32 (withMetadata s.writer
      (s.store.writeLedger ledger s.writer.handle.metadata).2) a after true).handle = _ :=
    endChange_handle _ _ _ _
  refine h.onward ⟨h.listed, ?_, ?_, ?_, h.unfenced⟩ fun q hq => ?_
  · exact (congrArg (·.metadata.id) hhandle).trans h.id
  · exact (congrArg (·.metadata.state) hhandle).trans h.isOpen
  · dsimp only
    rw [hhandle]
    exact congrArg (Option.map _) (Table.get_put_self _ _ _)
  · rw [hpc] at hq
    exact onward_put hq rfl h.id

theorem inv_step {a : Act} (h : Inv crc32 up nodes ledger p old s) (hg : calm up s a)
    (hst : step crc32 s a = some t) : Inv crc32 up nodes ledger p old t := by
  cases a with
  | fencer c a => exact hg.elim
  | register n => exact hg.elim
  | expire n => exact hg.elim
  | writer a =>
    have hcases : WriterStep crc32 s a t := stepWriter_cases crc32 hst
    cases hcases with
    | append data hpc => exact h.append hpc
    | deliver i d a n hpc hslot =>
      have hsame : SameTerm s.writer { s.writer with
          pc := .sending (a.fill i n (deliverAdd crc32 s n a.entry d).2) } := ⟨rfl, rfl, rfl, rfl⟩
      refine h.onward (h.next hsame rfl rfl (deliver_fences s n · a.entry d _)) fun q hq => ?_
      rw [hpc] at hq
      have hd : reached up n d := hg (n, none) (by rw [hpc]; exact hslot)
      refine .inl ⟨rfl, Sent.fill hq hslot (told_deliver hd hq.digest fun hn => ?_)⟩
      rw [hq.ledger, h.id]
      exact h.unfenced n hn
    | decide a hpc hover =>
      refine h.onward (h.next (decideAttempt_sameTerm _ a) rfl rfl fun _ => rfl) fun q hq => ?_
      rw [hpc] at hq
      exact onward_decide hq hover
    | listNodes d a after ns hpc hns =>
      obtain rfl : d = .delivered := hg
      have ht : pushFragment crc32 s.writer a after ns =
          pushFragment crc32 s.writer a after (.ok s.store.listNodes) := by
        simp only [step, stepWriter, hpc, Delivery.send] at hst
        exact (congrArg State.writer (Option.some.inj hst)).symm
      rw [ht]
      have hsame := pushFragment_sameTerm crc32 s.writer a after (.ok s.store.listNodes)
      refine h.onward (h.next hsame rfl rfl fun _ => rfl) fun q hq => ?_
      rw [hpc] at hq
      rw [h.listed]
      exact onward_push hq
    | putOk d a after store m hpc hput => exact h.put hg hpc hst
    | putErr d a after store e hpc hput => exact h.put hg hpc hst

end Runs

section Progress
variable [DecidablePred up] {s : State}

def isAppend : Act → Prop
  | .writer (.append _) => True
  | _ => False

def unanswered (a : Attempt) : Nat := a.slots.countP fun s => s.2.isNone

def work : WriterPc → Nat
  | .idle => 0
  | .putting _ .done => 1
  | .listing _ .done => 2
  | .sending a => unanswered a + 3 + if a.number = 0 then a.fragment.writeQuorum + 3 else 0
  | .putting a .retry => a.fragment.writeQuorum + 4
  | .listing a .retry => a.fragment.writeQuorum + 5

theorem unanswered_fill {i : Nat} (r : Except FolioError AppendAck)
    (hslot : a.slots[i]? = some (n, none)) : unanswered (a.fill i n r) < unanswered a := by
  obtain ⟨hi, hget⟩ := List.getElem?_eq_some_iff.mp hslot
  have hpos : 0 < unanswered a :=
    List.countP_pos_iff.mpr ⟨_, List.getElem_mem hi, by rw [hget]; rfl⟩
  unfold unanswered at hpos ⊢
  change (a.slots.set i (n, some r)).countP _ < _
  rw [List.countP_set hi, hget]
  exact Nat.sub_lt hpos Nat.one_pos

theorem work_reply (w : Writer) (data : Bytes) (result : Except FolioError Nat) :
    work (reply w data result).pc = 0 := rfl

theorem work_decide (w : Writer) (a : Attempt) :
    work (decideAttempt w a).pc < work (.sending a) := by
  have hbusy : 2 < work (.sending a) := by
    simp only [work]
    omega
  unfold decideAttempt
  dsimp only
  split_ifs with _ _ _ hretry
  · rw [work_reply]
    omega
  · exact hbusy
  · rw [work_reply]
    omega
  · simp only [work, hretry.2, if_true]
    omega
  · rw [work_reply]
    omega

theorem work_push (w : Writer) (a : Attempt) (after : AfterChange)
    (ns : Except FolioError (List NodeInfo)) :
    work (pushFragment crc32 w a after ns).pc < work (.listing a after) := by
  unfold pushFragment
  cases after with
  | done =>
    split
    · exact Nat.zero_lt_two
    · exact Nat.one_lt_two
  | retry =>
    split
    · exact Nat.succ_pos _
    · exact Nat.lt_succ_self _

theorem work_put (w : Writer) (a : Attempt) (after : AfterChange)
    (h : after = .retry → ∃ g, w.handle.metadata.fragments.getLast? = some g ∧
      g.writeQuorum = a.fragment.writeQuorum) :
    work (endChange crc32 w a after true).pc < work (.putting a after) := by
  cases after with
  | done => exact Nat.one_pos
  | retry =>
    obtain ⟨g, hlast, hwq⟩ := h rfl
    change work (startAttempt crc32 w (a.number + 1) a.entry.data).pc < _
    unfold startAttempt
    rw [hlast]
    have hcount : (asked g).length ≤ a.fragment.writeQuorum := by
      rw [← hwq]
      exact List.length_take_le _ _
    have hle : unanswered ⟨a.number + 1, Entry.new crc32 w.handle.metadata.id w.handle.nextEntryId
        w.handle.lac a.entry.data, g, (asked g).map fun n => (n, none)⟩ ≤ (asked g).length := by
      refine List.countP_le_length.trans ?_
      simp
    simp only [work, Nat.add_one_ne_zero, if_false]
    change unanswered _ + 3 + 0 < _
    exact Nat.lt_of_le_of_lt (Nat.add_le_add_right (hle.trans hcount) 3) (by omega)

theorem calm_step {a : Act} {t : State} (hg : calm up s a) (hst : step crc32 s a = some t) :
    guarded (calm up) (step crc32) s a = some t :=
  (guarded_eq_some (calm up)).mpr ⟨hg, hst⟩

theorem deliver_goes_on (hpc : s.writer.pc = .sending a) (hwait : a.isOver = false) :
    ∃ i d t, guarded (calm up) (step crc32) s (.writer (.deliver i d)) = some t ∧
      work t.writer.pc < work (.sending a) := by
  obtain ⟨⟨n, r⟩, hslot, rfl⟩ : ∃ s ∈ a.slots, s.2 = none := by
    simpa [Attempt.isOver] using hwait
  obtain ⟨i, hi⟩ := List.mem_iff_getElem?.mp hslot
  obtain ⟨d, hd⟩ : ∃ d, reached up n d := by
    by_cases hn : up n
    · exact ⟨.delivered, hn⟩
    · exact ⟨unreachable, hn, rfl⟩
  let r := (deliverAdd crc32 s n a.entry d).2
  let w := { s.writer with pc := WriterPc.sending (a.fill i n r) }
  refine ⟨i, d, afterDeliver crc32 s n a.entry d w, calm_step ?_ ?_, ?_⟩
  · intro slot hmem
    rw [hpc] at hmem
    cases hi.symm.trans hmem
    exact hd
  · simp only [step, stepWriter, hpc, hi]
    rfl
  · have hless := unanswered_fill r hi
    exact Nat.add_lt_add_right (Nat.add_lt_add_right hless 3) _

theorem Inv.goes_on (h : Inv crc32 up nodes ledger p old s) (hbusy : s.writer.pc ≠ .idle) :
    ∃ a t, ¬isAppend a ∧ guarded (calm up) (step crc32) s a = some t ∧
      work t.writer.pc < work s.writer.pc := by
  obtain ⟨news, -, -, hphase⟩ := h.replies
  cases hpc : s.writer.pc with
  | idle => exact absurd hpc hbusy
  | sending a =>
    cases hover : a.isOver with
    | false =>
      have hgo : ∃ i d t, guarded (calm up) (step crc32) s (.writer (.deliver i d)) = some t ∧
          work t.writer.pc < work (.sending a) := deliver_goes_on hpc hover
      obtain ⟨i, d, t, hst, hless⟩ := hgo
      exact ⟨_, t, id, hst, hless⟩
    | true =>
      refine ⟨.writer .decide, { s with writer := decideAttempt s.writer a }, id,
        calm_step trivial ?_, work_decide s.writer a⟩
      simp only [step, stepWriter, hpc, hover, if_true]
  | listing a after =>
    let w := pushFragment crc32 s.writer a after (.ok s.store.listNodes)
    refine ⟨.writer (.listNodes .delivered), { s with writer := w }, id, calm_step rfl ?_,
      work_push s.writer a after _⟩
    simp only [step, stepWriter, hpc, Delivery.send, w]
  | putting a after =>
    rw [hpc] at hphase
    let r := s.store.writeLedger ledger s.writer.handle.metadata
    let w := endChange crc32 (withMetadata s.writer r.2) a after true
    refine ⟨.writer (.putLedger .delivered), { s with store := r.1, writer := w }, id,
      calm_step rfl ?_, ?_⟩
    · simp only [step, stepWriter, hpc, Delivery.send, h.toCurrent.put, r, w]
    · refine work_put (withMetadata s.writer r.2) a after fun hretry => ?_
      subst hretry
      exact hphase.2.2.2

theorem Inv.comes_to_rest (h : Inv crc32 up nodes ledger p old s) :
    ∃ as t, (∀ a ∈ as, ¬isAppend a) ∧
      run (guarded (calm up) (step crc32)) s as = some t ∧ t.writer.pc = .idle := by
  refine run_to_rest (P := Inv crc32 up nodes ledger p old) (fun t => work t.writer.pc)
    (fun s hs hbusy => ?_) h
  obtain ⟨a, t, ha, hst, hless⟩ := hs.goes_on hbusy
  obtain ⟨hg, hstep⟩ := (guarded_eq_some (calm up)).mp hst
  exact ⟨a, t, ha, hst, inv_step hs hg hstep, hless⟩

end Progress

section Theorems
variable [DecidablePred up] {s₀ s : State}

def position (h : LedgerHandle) : Position := ⟨h.nextEntryId, h.metadata.fragments⟩

theorem reach_inv (hidle : s₀.writer.pc = .idle)
    (hcur : Current up s₀.store.listNodes s₀.ledger s₀)
    (h : Reach (guarded (calm up) (step crc32)) (· = s₀) s) :
    Inv crc32 up s₀.store.listNodes s₀.ledger (position s₀.writer.handle) s₀.writer.replies s := by
  refine h.invariant ?_ fun s a t hs hst => ?_
  · rintro _ rfl
    refine { hcur with replies := ⟨[], rfl, rfl, ?_⟩ }
    rw [hidle]
    rfl
  · obtain ⟨hg, hst⟩ := (guarded_eq_some (calm up)).mp hst
    exact inv_step hs hg hst

/-- Every append can be brought to its answer, and the answers of any run are those that follow
from which nodes are up. -/
theorem appends_follow_reachability (hidle : s₀.writer.pc = .idle)
    (hcur : Current up s₀.store.listNodes s₀.ledger s₀)
    (h : Reach (guarded (calm up) (step crc32)) (· = s₀) s) :
    (∃ as t, (∀ a ∈ as, ¬isAppend a) ∧ run (guarded (calm up) (step crc32)) s as = some t ∧
      t.writer.pc = .idle) ∧
    (s.writer.pc = .idle → ∃ news, s.writer.replies = news ++ s₀.writer.replies ∧
      (position s₀.writer.handle).appends up s₀.store.listNodes s₀.ledger news.length =
        ((news.map Reply.result).reverse, position s.writer.handle)) := by
  have hinv := reach_inv hidle hcur h
  refine ⟨hinv.comes_to_rest, fun hrest => ?_⟩
  obtain ⟨news, hnews, hresults, hphase⟩ := hinv.replies
  rw [hrest] at hphase
  exact ⟨news, hnews, Prod.ext hresults.symm hphase⟩

omit [DecidablePred up] in
theorem newCluster_current {m : LedgerMetadata} (hopen : m.state = .Open)
    (nodes : Table NodeId NodeStatus) :
    Current up (newCluster m nodes).store.listNodes m.id (newCluster m nodes) where
  listed := rfl
  id := rfl
  isOpen := hopen
  stored := congrArg (Option.map _) (Table.get_put_self _ _ _)
  unfenced n _ := by
    change m.id ∉ (Replica.empty).fences
    simp [Replica.empty]

def spareStart : State :=
  newCluster (newLedger ["n0", "n1"] 2 1) (Table.empty.put "n2" .ReadWrite)

/-- The second of two members is down, and a spare takes its place after the first append. -/
theorem member_down_answers :
    ∃ s news, Reach (guarded (calm (· ≠ "n1")) (step Crc32.crc32)) (· = spareStart) s ∧
      s.writer.replies.map Reply.result = [.ok 1, .ok 0] ∧ s.writer.replies = news ++ [] ∧
      (Position.appends (· ≠ "n1") [⟨"n2", .ReadWrite⟩] 1
        ⟨0, [⟨0, ["n0", "n1"], 2, 1⟩]⟩ news.length).1 = (news.map Reply.result).reverse := by
  obtain ⟨s, hreach, hresults, hidle⟩ :=
    reach_check_from (guarded (calm (· ≠ "n1")) (step Crc32.crc32)) spareStart
      (fun s => s.writer.replies.map Reply.result = [.ok 1, .ok 0] ∧
        ChangeFragment.isIdle s.writer = true)
      [.writer (.append [1]), .writer (.deliver 1 unreachable), .writer (.deliver 0 .delivered),
        .writer .decide, .writer (.listNodes .delivered), .writer (.putLedger .delivered),
        .writer (.append [2]), .writer (.deliver 0 .delivered), .writer (.deliver 1 .delivered),
        .writer .decide]
      (by decide +kernel)
  obtain ⟨news, hnews, happends⟩ := (appends_follow_reachability rfl (newCluster_current rfl _)
    hreach).2 (ChangeFragment.idle_of_isIdle hidle)
  exact ⟨s, news, hreach, hresults, hnews, congrArg Prod.fst happends⟩

end Theorems
end Folio.AppendAnswers
