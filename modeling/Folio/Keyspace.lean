import Folio.Bincode
import Folio.LedgerRanges

/-! The partitions of an index as the bytes that are in them. The calls give the answers that the
keyed tables give which stand for indices elsewhere. -/
namespace Folio.Keyspace
open ByteCodec KeyedTable Fjall Bincode EncodedTable LocationIndex LedgerRanges
open Protocol hiding LedgerState

section Formats

/-- What bincode makes of a `LedgerState`. -/
abbrev StateFormat (ε : Type) := RowFormat ε fun _ : LedgerState => True

def key32 : Codec Key32 := Codec.bytes 32

def ledgerState : Codec LedgerState :=
  (Codec.bool.pair (Codec.option key32)).iso (fun r => ⟨r.1, r.2⟩)
    (fun s => (s.isFenced, s.masterKey)) (fun _ => rfl) (fun _ => rfl)

def bincodeState : StateFormat DecodeError :=
  ledgerState.rowFormat fun _ _ => ⟨trivial, fun _ _ => trivial⟩

/-- `ledger_key` and `id_key`: the eight bytes of `to_be_bytes`. -/
def idKey : KeyFormat Nat where
  Fits n := n < 256 ^ 8
  enc n := beBytes 8 n
  dec b := beNat (b.take 8)
  dec_enc n hn := by
    rw [List.take_of_length_le (beBytes_length 8 n).le, beNat_beBytes, Nat.mod_eq_of_lt hn]
  enc_lt _ _ := beBytes_lt_beBytes_iff

theorem idKey_fits (n : UInt64) : idKey.Fits n.toNat := toNat_lt_pow n

/-- The value of a checkpoint, not written by bincode. The error is the panic of `b[..8]`. -/
def be64 : RowFormat Unit (· < 256 ^ 8) where
  enc n := beBytes 8 n
  read b := if b.length < 8 then .error () else .ok (beNat (b.take 8))
  read_enc n hn := by
    rw [beBytes_length, if_neg (Nat.lt_irrefl 8), List.take_of_length_le (beBytes_length 8 n).le,
      beNat_beBytes, Nat.mod_eq_of_lt hn]

end Formats

section Model
variable {ε : Type} (describe : ε → String) (bincode : StateFormat ε)

structure IndexBytes where
  locations : Locations
  checkpoints : Partition
  ledgers : Partition

def IndexBytes.empty : IndexBytes := ⟨.empty, .empty, .empty⟩

/-- `map_err(|e| FolioError::Serialization(e.to_string()))`. -/
def decoded {α : Type} (x : Except ε α) : Except FolioError α :=
  x.mapError fun e => .serialization (describe e)

def getCheckpoint (x : IndexBytes) (segmentId : Nat) : Option Nat :=
  match x.checkpoints.get (idKey.enc segmentId) with
  | none => some 0
  | some b => (be64.read b).toOption

/-- `get_next_entry_id`; `none` is the panic of `eid + 1` on overflow. -/
def getNextEntryId (x : IndexBytes) (ledgerId : UInt64) : Option (Except FolioError UInt64) :=
  match (ledgerRange x.locations ledgerId).getLast? with
  | none => some (.ok 0)
  | some (k, _) =>
    match decodeKey k with
    | .error e => some (.error e)
    | .ok (_, eid) => if eid = u64Max then none else some (.ok (eid + 1))

def setCheckpoint (x : IndexBytes) (segmentId offset : Nat) : IndexBytes :=
  { x with checkpoints := x.checkpoints.put (idKey.enc segmentId) (be64.enc offset) }

def getLedgerState (x : IndexBytes) (ledgerId : Nat) : Except FolioError (Option LedgerState) :=
  decoded describe (readRow bincode x.ledgers (idKey.enc ledgerId))

def writeLedgerState (x : IndexBytes) (ledgerId : Nat) (state : LedgerState) : IndexBytes :=
  { x with ledgers := x.ledgers.put (idKey.enc ledgerId) (bincode.enc state) }

def fenceLedger (x : IndexBytes) (ledgerId : Nat) : Except FolioError IndexBytes :=
  (getLedgerState describe bincode x ledgerId).map fun seen =>
    writeLedgerState bincode x ledgerId (FjallIndex.fencedState seen)

def fencedId (r : Bytes × Bytes) : Except FolioError (Option Nat) :=
  let (k, v) := r
  (decoded describe (bincode.read v)).bind fun state =>
    if state.isFenced then
      if k.length < 8 then
        .error (.storage s!"corrupt ledger key: expected 8 bytes, got {k.length}")
      else .ok (some (idKey.dec k))
    else .ok none

def loadFencedLedgers (x : IndexBytes) : Except FolioError (List Nat) :=
  collect (fencedId describe bincode) x.ledgers.ascending

def knownId (r : Bytes × Bytes) : Option Nat :=
  if 8 ≤ r.1.length then some (idKey.dec r.1) else none

def listKnownLedgerIds (x : IndexBytes) : List Nat := x.ledgers.ascending.filterMap knownId

def getLedgerMasterKey (x : IndexBytes) (ledgerId : Nat) : Except FolioError (Option Key32) :=
  (getLedgerState describe bincode x ledgerId).map fun seen => seen.bind LedgerState.masterKey

def ensureLedgerKnown (x : IndexBytes) (ledgerId : Nat) (masterKey : Option Key32) :
    Except FolioError (IndexBytes × Bool) :=
  (getLedgerState describe bincode x ledgerId).bind fun seen =>
    match FjallIndex.ensureVerdict ledgerId seen masterKey with
    | .write state => .ok (writeLedgerState bincode x ledgerId state, true)
    | .reject e => .error e
    | .keep => .ok (x, false)

end Model

section Calls
variable {ε : Type} (describe : ε → String) (bincode : StateFormat ε)

inductive IndexCall where
  | insertLocation (ledgerId entryId segmentId offset : UInt64) (length : UInt32)
  | deleteLocation (ledgerId entryId : UInt64)
  | deleteLocationsInSegmentTail (segmentId minOffset : UInt64)
  | getLocation (ledgerId entryId : UInt64)
  | scanLedgerLocations (ledgerId : UInt64)
  | getNextEntryId (ledgerId : UInt64)
  | referencedSegmentIds
  | getCheckpoint (segmentId : UInt64)
  | setCheckpoint (segmentId offset : UInt64)
  | fenceLedger (ledgerId : UInt64)
  | loadFencedLedgers
  | listKnownLedgerIds
  | getLedgerMasterKey (ledgerId : UInt64)
  | ensureLedgerKnown (ledgerId : UInt64) (masterKey : Option Key32)

inductive IndexAnswer where
  | done
  | value (v : Option IndexValue)
  | number (n : Nat)
  | rows (l : List (Nat × IndexValue))
  | ids (l : List Nat)
  | keys (l : List Key)
  | masterKey (k : Option Key32)
  | written (new : Bool)

abbrev Result := Except FolioError IndexAnswer

def update {α σ : Type} (x : σ) (r : Except FolioError (σ × α)) (answer : α → IndexAnswer) :
    σ × Result :=
  match r with
  | .ok (x', a) => (x', .ok (answer a))
  | .error e => (x, .error e)

/-- A call on the bytes; `none` is a panic. -/
def perform (x : IndexBytes) : IndexCall → Option (IndexBytes × Result)
  | .insertLocation ledgerId entryId segmentId offset length =>
    let p := LocationIndex.insertLocation x.locations ledgerId entryId segmentId offset length
    some ({ x with locations := p }, .ok .done)
  | .deleteLocation ledgerId entryId =>
    some ({ x with locations := LocationIndex.deleteLocation x.locations ledgerId entryId },
      .ok .done)
  | .deleteLocationsInSegmentTail segmentId minOffset =>
    some (update x ((LocationIndex.deleteLocationsInSegmentTail x.locations segmentId
      minOffset).map fun r => ({ x with locations := r.1 }, r.2)) fun ids =>
        .keys (ids.map fun k => (k.1.toNat, k.2.toNat)))
  | .getLocation ledgerId entryId =>
    some (x, (LocationIndex.getLocation x.locations ledgerId entryId).map .value)
  | .scanLedgerLocations ledgerId =>
    some (x, (LocationIndex.scanLedgerLocations x.locations ledgerId).map fun rows =>
      .rows (rows.map fun r => (r.1.toNat, r.2)))
  | .getNextEntryId ledgerId =>
    (getNextEntryId x ledgerId).map fun r => (x, r.map fun n => .number n.toNat)
  | .referencedSegmentIds =>
    some (x, (LocationIndex.referencedSegmentIds x.locations).map .ids)
  | .getCheckpoint segmentId =>
    (getCheckpoint x segmentId.toNat).map fun n => (x, .ok (.number n))
  | .setCheckpoint segmentId offset =>
    some (setCheckpoint x segmentId.toNat offset.toNat, .ok .done)
  | .fenceLedger ledgerId =>
    some (update x ((Keyspace.fenceLedger describe bincode x ledgerId.toNat).map fun x' =>
      (x', ())) fun _ => .done)
  | .loadFencedLedgers => some (x, (loadFencedLedgers describe bincode x).map .ids)
  | .listKnownLedgerIds => some (x, .ok (.ids (listKnownLedgerIds x)))
  | .getLedgerMasterKey ledgerId =>
    some (x, (getLedgerMasterKey describe bincode x ledgerId.toNat).map .masterKey)
  | .ensureLedgerKnown ledgerId masterKey =>
    some (update x (ensureLedgerKnown describe bincode x ledgerId.toNat masterKey) .written)

def serve (y : FjallIndex) : IndexCall → Option (FjallIndex × Result)
  | .insertLocation ledgerId entryId segmentId offset length =>
    some (y.insertLocation (ledgerId.toNat, entryId.toNat) segmentId.toNat offset.toNat
      length.toNat, .ok .done)
  | .deleteLocation ledgerId entryId =>
    some (y.deleteLocation (ledgerId.toNat, entryId.toNat), .ok .done)
  | .deleteLocationsInSegmentTail segmentId minOffset =>
    let r := y.deleteLocationsInSegmentTail segmentId.toNat minOffset.toNat
    some (r.1, .ok (.keys r.2))
  | .getLocation ledgerId entryId =>
    some (y, .ok (.value (y.getLocation (ledgerId.toNat, entryId.toNat))))
  | .scanLedgerLocations ledgerId => some (y, .ok (.rows (y.scanLedgerLocations ledgerId.toNat)))
  | .getNextEntryId ledgerId =>
    if (y.getLocation (ledgerId.toNat, 2 ^ 64 - 1)).isSome then none
    else some (y, .ok (.number (y.getNextEntryId ledgerId.toNat)))
  | .referencedSegmentIds => some (y, .ok (.ids y.referencedSegmentIds))
  | .getCheckpoint segmentId => some (y, .ok (.number (y.getCheckpoint segmentId.toNat)))
  | .setCheckpoint segmentId offset =>
    some (y.setCheckpoint segmentId.toNat offset.toNat, .ok .done)
  | .fenceLedger ledgerId => some (y.fenceLedger ledgerId.toNat, .ok .done)
  | .loadFencedLedgers => some (y, .ok (.ids y.loadFencedLedgers))
  | .listKnownLedgerIds => some (y, .ok (.ids y.listKnownLedgerIds))
  | .getLedgerMasterKey ledgerId =>
    some (y, .ok (.masterKey (y.getLedgerMasterKey ledgerId.toNat)))
  | .ensureLedgerKnown ledgerId masterKey =>
    some (update y (y.ensureLedgerKnown ledgerId.toNat masterKey) .written)

def callAll {σ : Type} (call : σ → IndexCall → Option (σ × Result)) (x : σ) :
    List IndexCall → Option (σ × List Result)
  | [] => some (x, [])
  | c :: calls => (call x c).bind fun r =>
      (callAll call r.1 calls).map fun q => (q.1, r.2 :: q.2)

def performAll (x : IndexBytes) (calls : List IndexCall) : Option (IndexBytes × List Result) :=
  callAll (perform describe bincode) x calls

def serveAll (y : FjallIndex) (calls : List IndexCall) : Option (FjallIndex × List Result) :=
  callAll serve y calls

def IndexCall.idFits : IndexCall → Prop
  | .insertLocation _ entryId _ _ _ => entryId ≠ u64Max
  | _ => True

inductive SameAnswer : IndexAnswer → IndexAnswer → Prop
  | same (a : IndexAnswer) : SameAnswer a a
  | ids {l l' : List Nat} (h : ∀ n, n ∈ l ↔ n ∈ l') : SameAnswer (.ids l) (.ids l')
  | keys {l l' : List Key} (h : ∀ k, k ∈ l ↔ k ∈ l') : SameAnswer (.keys l) (.keys l')
  | rows {l l' : List (Nat × IndexValue)} (hsorted : l.Pairwise fun a b => a.1 < b.1)
      (h : l.Perm l') : SameAnswer (.rows l) (.rows l')

inductive SameResult : Result → Result → Prop
  | ok {a b : IndexAnswer} (h : SameAnswer a b) : SameResult (.ok a) (.ok b)
  | error (e : FolioError) : SameResult (.error e) (.error e)

end Calls

section Refinement
variable {ε : Type} {describe : ε → String} {bincode : StateFormat ε} {x : IndexBytes}
  {y : FjallIndex}

structure Holds (bincode : StateFormat ε) (x : IndexBytes) (y : FjallIndex) : Prop where
  locations : Represents x.locations y
  checkpoints : EncodedTable.Encodes idKey be64 x.checkpoints y.checkpoints
  ledgers : EncodedTable.Encodes idKey bincode x.ledgers y.ledgers

theorem holds_empty : Holds bincode .empty .empty where
  locations := ⟨LedgerRanges.encodes_empty, fun _ h => by cases h⟩
  checkpoints := EncodedTable.encodes_empty
  ledgers := EncodedTable.encodes_empty

theorem Holds.withLocations (h : Holds bincode x y) {p : Locations} {z : FjallIndex}
    (hp : Represents p z) (hc : z.checkpoints = y.checkpoints) (hl : z.ledgers = y.ledgers) :
    Holds bincode { x with locations := p } z where
  locations := hp
  checkpoints := hc ▸ h.checkpoints
  ledgers := hl ▸ h.ledgers

theorem Holds.getLedgerState (h : Holds bincode x y) (id : UInt64) :
    getLedgerState describe bincode x id.toNat = .ok (y.getLedgerState id.toNat) := by
  rw [Keyspace.getLedgerState, h.ledgers.readRow (idKey_fits id)]
  rfl

theorem Holds.writeLedgerState (h : Holds bincode x y) (id : UInt64) (state : LedgerState) :
    Holds bincode (writeLedgerState bincode x id.toNat state)
      { y with ledgers := y.ledgers.put id.toNat state } where
  locations := ⟨h.locations.encodes, h.locations.bounded⟩
  checkpoints := h.checkpoints
  ledgers := h.ledgers.put (idKey_fits id) trivial

theorem Holds.setCheckpoint (h : Holds bincode x y) (id offset : UInt64) :
    Holds bincode (setCheckpoint x id.toNat offset.toNat)
      (y.setCheckpoint id.toNat offset.toNat) where
  locations := ⟨h.locations.encodes, h.locations.bounded⟩
  checkpoints := h.checkpoints.put (idKey_fits id) (toNat_lt_pow offset)
  ledgers := h.ledgers

theorem Holds.getCheckpoint (h : Holds bincode x y) (id : UInt64) :
    getCheckpoint x id.toNat = some (y.getCheckpoint id.toNat) := by
  unfold Keyspace.getCheckpoint FjallIndex.getCheckpoint
  rw [h.checkpoints.get (idKey_fits id)]
  cases hget : y.checkpoints.get id.toNat with
  | none => rfl
  | some n =>
    change (be64.read (be64.enc n)).toOption = some n
    rw [be64.read_enc n (h.checkpoints.row _ n hget).2.1]
    rfl

theorem fencedId_row {k : Nat} {s : LedgerState} (hk : idKey.Fits k) :
    fencedId describe bincode (idKey.enc k, bincode.enc s) =
      .ok (if s.isFenced then some k else none) := by
  have hlen : ¬(idKey.enc k).length < 8 := by
    rw [show (idKey.enc k).length = 8 from beBytes_length 8 k]
    exact Nat.lt_irrefl 8
  change (decoded describe (bincode.read (bincode.enc s))).bind _ = _
  rw [bincode.read_enc s trivial]
  change (if s.isFenced then _ else _) = _
  rw [if_neg hlen, idKey.dec_enc k hk]
  split_ifs <;> rfl

theorem Holds.loadFencedLedgers (h : Holds bincode x y) :
    ∃ ids, loadFencedLedgers describe bincode x = .ok ids ∧
      ∀ n, n ∈ ids ↔ n ∈ y.loadFencedLedgers := by
  have hrow : ∀ r ∈ x.ledgers.ascending, fencedId describe bincode r =
      .ok ((fencedId describe bincode r).toOption.bind id) := by
    intro r hr
    obtain ⟨k, s, hget, rfl⟩ := h.ledgers.mem_ascending.mp hr
    rw [fencedId_row (h.ledgers.row k s hget).1]
    rfl
  refine ⟨_, collect_ok hrow, fun n => ?_⟩
  rw [FjallIndex.mem_loadFencedLedgers, List.mem_filterMap]
  constructor
  · rintro ⟨r, hr, hn⟩
    obtain ⟨k, s, hget, rfl⟩ := h.ledgers.mem_ascending.mp hr
    rw [fencedId_row (h.ledgers.row k s hget).1] at hn
    obtain ⟨hfenced, heq⟩ := Option.ite_none_right_eq_some.mp hn
    cases heq
    exact ⟨s, hget, hfenced⟩
  · rintro ⟨s, hget, hfenced⟩
    refine ⟨_, h.ledgers.mem_ascending.mpr ⟨n, s, hget, rfl⟩, ?_⟩
    rw [fencedId_row (h.ledgers.row n s hget).1, if_pos hfenced]
    rfl

theorem Holds.mem_listKnownLedgerIds (h : Holds bincode x y) (n : Nat) :
    n ∈ listKnownLedgerIds x ↔ n ∈ y.listKnownLedgerIds := by
  have hid {k : Nat} (hk : idKey.Fits k) (v : Bytes) : knownId (idKey.enc k, v) = some k := by
    have hlen : 8 ≤ (idKey.enc k).length := (beBytes_length 8 k).ge
    rw [knownId, if_pos hlen, idKey.dec_enc k hk]
  rw [listKnownLedgerIds, List.mem_filterMap, FjallIndex.listKnownLedgerIds, Table.mem_keys_iff]
  constructor
  · rintro ⟨r, hr, hn⟩
    obtain ⟨k, s, hget, rfl⟩ := h.ledgers.mem_ascending.mp hr
    rw [hid (h.ledgers.row k s hget).1] at hn
    cases hn
    exact ⟨s, hget⟩
  · rintro ⟨s, hget⟩
    exact ⟨_, h.ledgers.mem_ascending.mpr ⟨n, s, hget, rfl⟩, hid (h.ledgers.row n s hget).1 _⟩

/-- Two runs panic both, or give the same answers from states that hold the same. -/
def SameRun {α β : Type} (bincode : StateFormat ε) (same : α → β → Prop) :
    Option (IndexBytes × α) → Option (FjallIndex × β) → Prop :=
  Option.Rel fun r q => Holds bincode r.1 q.1 ∧ same r.2 q.2

def Simulates (describe : ε → String) (bincode : StateFormat ε) (x : IndexBytes)
    (y : FjallIndex) (call : IndexCall) : Prop :=
  SameRun bincode SameResult (perform describe bincode x call) (serve y call)

theorem foldl_deleteLocation_ledgers (ks : List Key) (y : FjallIndex) :
    (ks.foldl FjallIndex.deleteLocation y).ledgers = y.ledgers := by
  induction ks generalizing y with
  | nil => rfl
  | cons k ks ih => exact ih (y.deleteLocation k)

theorem Holds.locationOps (h : Holds bincode x y) (op : LocationOp) :
    ∃ p, LedgerRanges.perform x.locations op = .ok p ∧
      Holds bincode { x with locations := p } (indexAfter y op) := by
  obtain ⟨p, hp, hrep⟩ := h.locations.perform op
  refine ⟨p, hp, h.withLocations hrep ?_ ?_⟩
  · cases op with
    | insert => rfl
    | delete => rfl
    | deleteTail seg min => exact FjallIndex.foldl_deleteLocation_checkpoints _ _
  · cases op with
    | insert => rfl
    | delete => rfl
    | deleteTail seg min => exact foldl_deleteLocation_ledgers _ _

theorem Holds.deleteTail (h : Holds bincode x y) (seg min : UInt64) :
    Simulates describe bincode x y (.deleteLocationsInSegmentTail seg min) := by
  obtain ⟨p, hp, hholds⟩ := h.locationOps (.deleteTail seg min)
  obtain ⟨p', keys, hok, hkeys⟩ := h.locations.tail seg min
  rw [LedgerRanges.perform, hok] at hp
  cases hp
  rw [Simulates, perform, hok]
  refine .some ⟨hholds, .ok (.keys fun k => ?_)⟩
  rw [hkeys, List.mem_map]
  constructor
  · rintro ⟨ids, hids, heq⟩
    exact ⟨ids, hids, heq.symm⟩
  · rintro ⟨ids, hids, heq⟩
    exact ⟨ids, hids, heq.symm⟩

theorem Holds.ensureLedgerKnown (h : Holds bincode x y) (id : UInt64) (key : Option Key32) :
    Simulates describe bincode x y (.ensureLedgerKnown id key) := by
  rw [Simulates, perform, serve, Keyspace.ensureLedgerKnown, FjallIndex.ensureLedgerKnown,
    h.getLedgerState id, Except.bind]
  cases FjallIndex.ensureVerdict id.toNat (y.getLedgerState id.toNat) key with
  | write state => exact .some ⟨h.writeLedgerState id state, .ok (.same _)⟩
  | reject e => exact .some ⟨h, .error e⟩
  | keep => exact .some ⟨h, .ok (.same _)⟩

theorem u64Max_toNat : u64Max.toNat = 2 ^ 64 - 1 := by decide

theorem le_u64Max (e : UInt64) : e ≤ u64Max := by
  rw [UInt64.le_iff_toNat_le, u64Max_toNat]
  exact Nat.le_of_lt_succ e.toNat_lt

theorem Holds.getNextEntryId (h : Holds bincode x y) (l : UInt64) :
    getNextEntryId x l = if (y.getLocation (l.toNat, 2 ^ 64 - 1)).isSome then none
      else some (LocationIndex.getNextEntryId x.locations l) := by
  have henc := h.locations.encodes
  rw [henc.next_eq, Keyspace.getNextEntryId]
  have hlast := henc.last_spec l
  rw [ledgerRows, List.getLast?_map] at hlast ⊢
  change _ = if (view y (l, u64Max)).isSome then none else _
  cases hrow : (ledgerRange x.locations l).getLast? with
  | none =>
    rw [hrow] at hlast
    rcases hlast with ⟨-, hnone⟩ | ⟨e, iv, heq, -⟩
    · rw [hnone]
      rfl
    · cases heq
  | some r =>
    obtain ⟨hget, e, hk⟩ := (henc.mem_ledgerRange l r.1 r.2).mp (List.mem_of_getLast? hrow)
    rw [hrow] at hlast
    rcases hlast with ⟨heq, -⟩ | ⟨e', iv, heq, hlive, hmax⟩
    · cases heq
    · cases heq
      dsimp only [Option.map_some, Option.elim_some]
      rw [(henc.decodes hget).1]
      dsimp only
      by_cases htop : (keyOf r.1).2 = u64Max
      · rw [if_pos htop, if_pos (htop ▸ hlive)]
      · have hnot : ¬(view y (l, u64Max)).isSome := fun hsome =>
          htop (Std.le_antisymm (le_u64Max _) (hmax u64Max hsome))
        rw [if_neg htop, if_neg hnot]

theorem getNextEntryId_lt (y : FjallIndex) (l : Nat) : y.getNextEntryId l < 2 ^ 64 := by
  unfold FjallIndex.getNextEntryId
  split
  · decide
  · exact Nat.mod_lt _ (by decide)

theorem Holds.next (h : Holds bincode x y) (l : UInt64) :
    Simulates describe bincode x y (.getNextEntryId l) := by
  rw [Simulates, perform, serve, h.getNextEntryId, h.locations.next]
  split_ifs
  · exact .none
  · refine .some ⟨h, ?_⟩
    change SameResult (.ok (.number (UInt64.ofNat (y.getNextEntryId l.toNat)).toNat)) _
    rw [UInt64.toNat_ofNat_of_lt' (getNextEntryId_lt y l.toNat)]
    exact .ok (.same _)

theorem Holds.perform (describe : ε → String) (h : Holds bincode x y) (call : IndexCall) :
    Simulates describe bincode x y call := by
  cases call with
  | insertLocation l e seg off len =>
    obtain ⟨p, hp, hholds⟩ := h.locationOps (.insert l e seg off len)
    cases hp
    exact .some ⟨hholds, .ok (.same _)⟩
  | deleteLocation l e =>
    obtain ⟨p, hp, hholds⟩ := h.locationOps (.delete l e)
    cases hp
    exact .some ⟨hholds, .ok (.same _)⟩
  | deleteLocationsInSegmentTail seg min => exact h.deleteTail seg min
  | getLocation l e =>
    refine .some ⟨h, ?_⟩
    rw [h.locations.encodes.getLocation]
    exact .ok (.same _)
  | scanLedgerLocations l =>
    obtain ⟨rows, hok, hsorted, hperm⟩ := h.locations.scan l
    refine .some ⟨h, ?_⟩
    rw [hok]
    exact .ok (.rows hsorted hperm)
  | getNextEntryId l => exact h.next l
  | referencedSegmentIds =>
    obtain ⟨ids, hok, hids⟩ := h.locations.referenced
    refine .some ⟨h, ?_⟩
    rw [hok]
    exact .ok (.ids hids)
  | getCheckpoint id =>
    rw [Simulates, Keyspace.perform, h.getCheckpoint]
    exact .some ⟨h, .ok (.same _)⟩
  | setCheckpoint id offset => exact .some ⟨h.setCheckpoint id offset, .ok (.same _)⟩
  | fenceLedger id =>
    rw [Simulates, Keyspace.perform, Keyspace.fenceLedger, h.getLedgerState id]
    exact .some ⟨h.writeLedgerState id _, .ok (.same .done)⟩
  | loadFencedLedgers =>
    obtain ⟨ids, hok, hids⟩ := h.loadFencedLedgers
    refine .some ⟨h, ?_⟩
    rw [hok]
    exact .ok (.ids hids)
  | listKnownLedgerIds => exact .some ⟨h, .ok (.ids h.mem_listKnownLedgerIds)⟩
  | getLedgerMasterKey id =>
    refine .some ⟨h, ?_⟩
    rw [Keyspace.getLedgerMasterKey, h.getLedgerState id]
    exact .ok (.same _)
  | ensureLedgerKnown id key => exact h.ensureLedgerKnown id key

theorem Holds.performAll (describe : ε → String) (h : Holds bincode x y)
    (calls : List IndexCall) :
    SameRun bincode (List.Forall₂ SameResult) (performAll describe bincode x calls)
      (serveAll y calls) := by
  induction calls generalizing x y with
  | nil => exact .some ⟨h, .nil⟩
  | cons call calls ih =>
    have hcall := h.perform describe call
    rw [Keyspace.performAll, serveAll, callAll, callAll]
    unfold Simulates at hcall
    generalize Keyspace.perform describe bincode x call = r at hcall
    generalize serve y call = q at hcall
    cases hcall with
    | none => exact .none
    | some hrun =>
      have hrest := ih hrun.1
      dsimp only [Option.bind_some]
      rw [Keyspace.performAll, serveAll] at hrest
      generalize callAll (Keyspace.perform describe bincode) _ calls = r at hrest
      generalize callAll serve _ calls = q at hrest
      cases hrest with
      | none => exact .none
      | some hrest => exact .some ⟨hrest.1, .cons hrun.2 hrest.2⟩

theorem serve_isSome {call : IndexCall} (hfits : call.idFits)
    (hids : ∀ l, y.getLocation (l, 2 ^ 64 - 1) = none) :
    ∃ z r, serve y call = some (z, r) ∧ ∀ l, z.getLocation (l, 2 ^ 64 - 1) = none := by
  cases call with
  | insertLocation l e seg off len =>
    refine ⟨_, _, rfl, fun l' => ?_⟩
    have hne : (l', 2 ^ 64 - 1) ≠ (l.toNat, e.toNat) := fun heq =>
      hfits (UInt64.toNat_inj.mp ((Prod.ext_iff.mp heq).2.symm.trans u64Max_toNat.symm))
    rw [FjallIndex.getLocation_insert, if_neg hne]
    exact hids l'
  | deleteLocation l e =>
    refine ⟨_, _, rfl, fun l' => ?_⟩
    rw [FjallIndex.getLocation_delete, hids l']
    split_ifs <;> rfl
  | deleteLocationsInSegmentTail seg min =>
    refine ⟨_, _, rfl, fun l' => ?_⟩
    rw [FjallIndex.getLocation_deleteTail, hids l']
    rfl
  | getNextEntryId l =>
    rw [serve, hids]
    exact ⟨_, _, rfl, hids⟩
  | ensureLedgerKnown l key =>
    refine ⟨_, _, rfl, ?_⟩
    rw [FjallIndex.ensureLedgerKnown]
    cases FjallIndex.ensureVerdict l.toNat (y.getLedgerState l.toNat) key <;> exact hids
  | _ => exact ⟨_, _, rfl, hids⟩

theorem serveAll_isSome {calls : List IndexCall} (hfits : ∀ call ∈ calls, call.idFits)
    (hids : ∀ l, y.getLocation (l, 2 ^ 64 - 1) = none) : (serveAll y calls).isSome := by
  induction calls generalizing y with
  | nil => rfl
  | cons call calls ih =>
    obtain ⟨z, r, hserve, hids'⟩ := serve_isSome (hfits call List.mem_cons_self) hids
    have hrest := ih (fun c hc => hfits c (List.mem_cons_of_mem call hc)) hids'
    rw [serveAll, callAll, hserve, Option.bind_some, Option.isSome_map]
    exact hrest

/-- From an empty keyspace a history of calls meets no row that it cannot decode, every answer is
that of the tables, and it panics where the sum of the tables does not fit. -/
theorem index_bytes_refine_tables (describe : ε → String) (bincode : StateFormat ε)
    (calls : List IndexCall) :
    SameRun bincode (List.Forall₂ SameResult) (performAll describe bincode .empty calls)
      (serveAll .empty calls) ∧
    ((∀ call ∈ calls, call.idFits) → (serveAll .empty calls).isSome) :=
  ⟨holds_empty.performAll describe calls, fun hfits => serveAll_isSome hfits fun _ => rfl⟩

def twoInserts : List IndexCall :=
  [.insertLocation 1 5 0 4096 30, .insertLocation 1 2 0 0 30, .scanLedgerLocations 1,
    .getNextEntryId 1]

theorem two_inserts_scanned :
    ∃ x rs, performAll (fun _ => "decode error") bincodeState .empty twoInserts = some (x, rs) ∧
      List.Forall₂ SameResult rs [.ok .done, .ok .done,
        .ok (.rows [(2, ⟨0, 0, 30⟩), (5, ⟨0, 4096, 30⟩)]), .ok (.number 6)] := by
  obtain ⟨hrun, hsome⟩ :=
    index_bytes_refine_tables (fun _ => "decode error") bincodeState twoInserts
  have hfits : ∀ call ∈ twoInserts, call.idFits := by
    intro call hcall
    simp only [twoInserts, List.mem_cons, List.not_mem_nil, or_false] at hcall
    rcases hcall with rfl | rfl | rfl | rfl <;> simp [IndexCall.idFits] <;> decide
  obtain ⟨⟨y, qs⟩, hserve⟩ := Option.isSome_iff_exists.mp (hsome hfits)
  have hqs : (serveAll .empty twoInserts).map Prod.snd = some [.ok .done, .ok .done,
      .ok (.rows [(2, ⟨0, 0, 30⟩), (5, ⟨0, 4096, 30⟩)]), .ok (.number 6)] := rfl
  rw [hserve] at hrun hqs
  cases hqs
  generalize performAll (fun _ => "decode error") bincodeState .empty twoInserts = r at hrun
  cases hrun with
  | some hrun => exact ⟨_, _, rfl, hrun.2⟩

end Refinement
end Folio.Keyspace
