import Folio.NodeSteps

/-! The validation of `add_entry` in one piece, and what a request that it refuses has already
written by then. -/
namespace Folio.AddValidation
open KeyedTable Protocol Fjall Node TransitionSystem
variable (env : Env)

/-- Everything in front of the duplicate check; no await point lies within it. -/
def validate (s : State) (e : Entry) : State × Except FolioError Unit :=
  match fenceCheck env s e with
  | .returned (.failed err) => (s, .error err)
  | _ => registerLedger env s e

/-- Ledger manifest, fences, master keys, locations, cache and marks are as before. -/
structure SameNode (s t : State) : Prop where
  ledgers : ∀ l, t.entryIndex.getLedgerState l = s.entryIndex.getLedgerState l
  known : ∀ l, l ∈ t.knownLedgers ↔ l ∈ s.knownLedgers
  fences : t.fences = s.fences
  entryLocations : ∀ k, t.entryIndex.getLocation k = s.entryIndex.getLocation k
  walLocations : ∀ k, t.walIndex.getLocation k = s.walIndex.getLocation k
  cache : t.cache = s.cache
  hiEntry : t.hiEntry = s.hiEntry
  lac : t.lac = s.lac

theorem SameNode.refl (s : State) : SameNode s s :=
  ⟨fun _ => rfl, fun _ => Iff.rfl, rfl, fun _ => rfl, fun _ => rfl, rfl, rfl, rfl⟩

section Conditions
variable (s : State) (e : Entry)

def KeyMismatch : Prop :=
  ∃ given stored, e.masterKey = some given ∧
    s.entryIndex.getLedgerMasterKey e.ledgerId = some stored ∧ stored ≠ given

/-- Registration has something to write: the ledger is new to this process, or the key is the
first one for it. -/
def Registers : Prop :=
  e.ledgerId ∉ s.knownLedgers ∨
    e.masterKey.isSome ∧ s.entryIndex.getLedgerMasterKey e.ledgerId = none

def LeavesNothing : Prop :=
  e.validateDigest env.crc32 = false ∨ e.ledgerId ∈ s.fences ∨ KeyMismatch s e ∨ ¬ Registers s e

end Conditions

section Registration
variable {s t : State} {e : Entry} {err : FolioError}

theorem masterKey_of_state {x : FjallIndex} {l : Nat} {st : Fjall.LedgerState}
    (h : x.getLedgerState l = some st) : x.getLedgerMasterKey l = st.masterKey := by
  simp [FjallIndex.getLedgerMasterKey, h]

theorem ensureLedgerKnown_cases (x : FjallIndex) (l : Nat) (key : Option Key32) :
    ((∃ err, x.ensureLedgerKnown l key = .error err) ∧
        ∃ given stored, key = some given ∧ x.getLedgerMasterKey l = some stored ∧ stored ≠ given) ∨
    (x.ensureLedgerKnown l key = .ok (x, false) ∧
      ∀ given, key = some given → x.getLedgerMasterKey l = some given) ∨
    ∃ st, x.ensureLedgerKnown l key = .ok ({ x with ledgers := x.ledgers.put l st }, true) ∧
      x.getLedgerMasterKey l = none ∧ st.masterKey = key := by
  unfold FjallIndex.ensureLedgerKnown
  cases hv : FjallIndex.ensureVerdict l (x.getLedgerState l) key with
  | reject err =>
    refine .inl ⟨⟨err, rfl⟩, ?_⟩
    cases hseen : x.getLedgerState l with
    | none => simp [hseen, FjallIndex.ensureVerdict] at hv
    | some old =>
      rw [hseen] at hv
      obtain ⟨fenced, stored⟩ := old
      cases stored <;> cases key <;> simp only [FjallIndex.ensureVerdict] at hv
      case some.some stored given =>
        split_ifs at hv with hne
        exact ⟨given, stored, rfl, masterKey_of_state hseen, hne⟩
      all_goals cases hv
  | keep =>
    obtain ⟨old, hseen, hkey⟩ := FjallIndex.ensureVerdict_keep hv
    exact .inr (.inl ⟨rfl, fun given hg => (masterKey_of_state hseen).trans (hkey given hg)⟩)
  | write st =>
    refine .inr (.inr ⟨st, rfl, ?_⟩)
    rcases FjallIndex.ensureVerdict_write hv with ⟨hnone, rfl⟩ | ⟨old, k, hseen, hold, rfl, rfl⟩
    · exact ⟨by simp [FjallIndex.getLedgerMasterKey, hnone], rfl⟩
    · exact ⟨(masterKey_of_state hseen).trans hold, rfl⟩

theorem recordLedger_error_iff :
    (∃ err, recordLedger s e = .error err) ↔ KeyMismatch s e := by
  have hmap (f : FjallIndex × Bool → State) :
      (∃ err, (s.entryIndex.ensureLedgerKnown e.ledgerId e.masterKey).map f = .error err) ↔
        KeyMismatch s e := by
    rcases ensureLedgerKnown_cases s.entryIndex e.ledgerId e.masterKey with
      ⟨⟨err, herr⟩, hmis⟩ | ⟨hok, hsame⟩ | ⟨st, hok, hnone, -⟩
    · exact ⟨fun _ => hmis, fun _ => ⟨err, by rw [herr]; rfl⟩⟩
    · constructor
      · rintro ⟨err, herr⟩
        rw [hok] at herr
        cases herr
      · rintro ⟨given, stored, hg, hs, hne⟩
        rw [hsame given hg, Option.some.injEq] at hs
        exact absurd hs.symm hne
    · constructor
      · rintro ⟨err, herr⟩
        rw [hok] at herr
        cases herr
      · rintro ⟨given, stored, -, hs, -⟩
        rw [hnone] at hs
        cases hs
  unfold recordLedger
  by_cases hknown : e.ledgerId ∉ s.knownLedgers
  · rw [if_pos hknown]
    exact hmap _
  rw [if_neg hknown]
  by_cases hkey : e.masterKey.isSome = true
  · rw [if_pos hkey]
    exact hmap _
  · rw [if_neg hkey]
    constructor
    · rintro ⟨err, herr⟩
      cases herr
    · rintro ⟨given, stored, hg, -⟩
      rw [hg] at hkey
      exact absurd rfl hkey

theorem recordLedger_same (h : recordLedger s e = .ok t) (hr : ¬ Registers s e) : t = s := by
  have hknown : e.ledgerId ∈ s.knownLedgers := not_not.mp fun hn => hr (.inl hn)
  unfold recordLedger at h
  rw [if_neg (not_not.mpr hknown)] at h
  split_ifs at h with hkey
  · rcases ensureLedgerKnown_cases s.entryIndex e.ledgerId e.masterKey with
      ⟨⟨err, herr⟩, -⟩ | ⟨hok, -⟩ | ⟨st, -, hnone, -⟩
    · rw [herr] at h
      cases h
    · rw [hok] at h
      cases h
      rfl
    · exact absurd (.inr ⟨hkey, hnone⟩) hr
  · cases h
    rfl

theorem recordLedger_changed (h : recordLedger s e = .ok t) (hr : Registers s e) :
    ¬ SameNode s t := by
  intro hsame
  unfold recordLedger at h
  by_cases hknown : e.ledgerId ∈ s.knownLedgers
  · obtain ⟨hkey, hnone⟩ := hr.resolve_left (not_not.mpr hknown)
    rw [if_neg (not_not.mpr hknown), if_pos hkey] at h
    obtain ⟨given, hgiven⟩ := Option.isSome_iff_exists.mp hkey
    rcases ensureLedgerKnown_cases s.entryIndex e.ledgerId e.masterKey with
      ⟨⟨err, herr⟩, -⟩ | ⟨-, hstored⟩ | ⟨st, hok, -, hst⟩
    · rw [herr] at h
      cases h
    · rw [hstored given hgiven] at hnone
      cases hnone
    · rw [hok] at h
      cases h
      have hrow : s.entryIndex.getLedgerState e.ledgerId = some st :=
        (hsame.ledgers e.ledgerId).symm.trans (Table.get_put_self _ _ _)
      rw [masterKey_of_state hrow, hst, hgiven] at hnone
      cases hnone
  · rw [if_pos hknown] at h
    obtain ⟨r, -, rfl⟩ : ∃ r, s.entryIndex.ensureLedgerKnown e.ledgerId e.masterKey = .ok r ∧
        { s with entryIndex := r.1, knownLedgers := e.ledgerId :: s.knownLedgers } = t := by
      cases hen : s.entryIndex.ensureLedgerKnown e.ledgerId e.masterKey with
      | error err =>
        rw [hen] at h
        cases h
      | ok r =>
        rw [hen] at h
        cases h
        exact ⟨r, rfl, rfl⟩
    exact hknown ((hsame.known e.ledgerId).mp List.mem_cons_self)

end Registration

section Rejections
variable {env} {s : State} {e : Entry} {err : FolioError}

theorem fenceCheck_cases (env : Env) (s : State) (e : Entry) :
    ((∃ err, fenceCheck env s e = .returned (.failed err)) ∧
        (e.validateDigest env.crc32 = false ∨ e.ledgerId ∈ s.fences)) ∨
      fenceCheck env s e = .checked ∧ e.validateDigest env.crc32 = true ∧
        e.ledgerId ∉ s.fences := by
  unfold fenceCheck
  by_cases hdigest : e.validateDigest env.crc32 = true
  · by_cases hfence : e.ledgerId ∈ s.fences
    · exact .inl ⟨⟨.ledgerFenced e.ledgerId, by simp [hdigest, hfence]⟩, .inr hfence⟩
    · exact .inr ⟨by simp [hdigest, hfence], hdigest, hfence⟩
  · rw [Bool.not_eq_true] at hdigest
    exact .inl
      ⟨⟨.serialization "entry checksum validation failed", by simp [hdigest]⟩, .inl hdigest⟩

/-- A refused request leaves the node as it was exactly if it is refused before registration or
registration had nothing to write, and then no later request is judged differently. -/
theorem rejected_append_changes_nothing_iff (h : (validate env s e).2 = .error err) :
    (SameNode s (validate env s e).1 ↔ LeavesNothing env s e) ∧
      (LeavesNothing env s e → ∀ later,
        (validate env (validate env s e).1 later).2 = (validate env s later).2) := by
  suffices hstate : SameNode s (validate env s e).1 ∧ LeavesNothing env s e ∧
      (validate env s e).1 = s ∨ ¬ SameNode s (validate env s e).1 ∧ ¬ LeavesNothing env s e by
    rcases hstate with ⟨hsame, hleaves, heq⟩ | ⟨hsame, hleaves⟩
    · exact ⟨iff_of_true hsame hleaves, fun _ later => by rw [heq]⟩
    · exact ⟨iff_of_false hsame hleaves, fun hl => absurd hl hleaves⟩
  rcases fenceCheck_cases env s e with ⟨⟨err', hcheck⟩, hearly⟩ | ⟨hcheck, hdigest, hfence⟩
  · have hv : validate env s e = (s, .error err') := by rw [validate, hcheck]
    rw [hv]
    exact .inl ⟨.refl s, hearly.imp_right .inl, rfl⟩
  · have hv : validate env s e = registerLedger env s e := by rw [validate, hcheck]
    rw [hv]
    cases hrec : recordLedger s e with
    | error err' =>
      have hmis : KeyMismatch s e := recordLedger_error_iff.mp ⟨err', hrec⟩
      simp only [registerLedger, hrec]
      exact .inl ⟨.refl s, .inr (.inr (.inl hmis)), trivial⟩
    | ok t =>
      have hmis : ¬ KeyMismatch s e := fun hm => by
        obtain ⟨err', herr⟩ := recordLedger_error_iff.mpr hm
        rw [hrec] at herr
        cases herr
      simp only [registerLedger, hrec]
      by_cases hr : Registers s e
      · refine .inr ⟨recordLedger_changed hrec hr, ?_⟩
        rintro (hd | hf | hm | hn)
        · rw [hdigest] at hd
          cases hd
        · exact hfence hf
        · exact hmis hm
        · exact hn hr
      · have heq := recordLedger_same hrec hr
        subst heq
        exact .inl ⟨.refl t, .inr (.inr (.inr hr)), rfl⟩

end Rejections

section Steps
variable {env} {s : State} {e : Entry} {err : FolioError} {c : Nat}

theorem registerLedger_adds (adds : Table Nat AddReq) :
    registerLedger env { s with adds } e =
      ({ (registerLedger env s e).1 with adds }, (registerLedger env s e).2) := by
  unfold registerLedger recordLedger
  split_ifs
  · cases s.entryIndex.ensureLedgerKnown e.ledgerId e.masterKey <;> rfl
  · rfl
  · cases s.entryIndex.ensureLedgerKnown e.ledgerId e.masterKey <;> rfl

theorem refused_by_steps (hc : s.adds.get c = none) (h : (validate env s e).2 = .error err) :
    ∃ acts t, run (step env) s acts = some t ∧
      t.adds.get c = some ⟨e, .returned (.failed err)⟩ ∧
      { t with adds := s.adds } = (validate env s e).1 := by
  let started : Table Nat AddReq := s.adds.put c ⟨e, .started⟩
  let judged : AddPc → Table Nat AddReq := fun pc => started.put c ⟨e, pc⟩
  have hinvoke : step env s (.add c (.invoke e)) = some { s with adds := started } := by
    simp [step, stepAdd, hc, started]
  have hfence : step env { s with adds := started } (.add c .fenceCheck) =
      some { s with adds := judged (fenceCheck env s e) } := by
    simp only [step, stepAdd, started, Table.get_put_self]
    rfl
  rcases fenceCheck_cases env s e with ⟨⟨err', hcheck⟩, -⟩ | ⟨hcheck, -, -⟩
  · have hv : validate env s e = (s, .error err') := by rw [validate, hcheck]
    rw [hv] at h ⊢
    cases h
    rw [hcheck] at hfence
    exact ⟨[.add c (.invoke e), .add c .fenceCheck], _, run_cons hinvoke (run_cons hfence rfl),
      Table.get_put_self _ _ _, rfl⟩
  · have hv : validate env s e = registerLedger env s e := by rw [validate, hcheck]
    rw [hv] at h ⊢
    rw [hcheck] at hfence
    have hreg := @registerLedger_adds env s e (judged .checked)
    rw [h] at hreg
    have hregister : step env { s with adds := judged .checked } (.add c .register) =
        some (setAdd { (registerLedger env s e).1 with adds := judged .checked } c ⟨e, .checked⟩
          (.returned (.failed err))) := by
      simp only [step, stepAdd, judged, Table.get_put_self]
      simp only [judged] at hreg
      simp only [hreg]
    refine ⟨[.add c (.invoke e), .add c .fenceCheck, .add c .register], _,
      run_cons hinvoke (run_cons hfence (run_cons hregister rfl)), Table.get_put_self _ _ _, ?_⟩
    rw [setAdd, (registerLedger_frame env s e).state]

end Steps

section Runs
variable {key : UInt8}

def keyOf (b : UInt8) : Key32 := ⟨List.replicate 32 b, List.length_replicate⟩

def taggedEntry (key : UInt8) (tag : Key32) : Entry :=
  { emptyEntry 0 with masterKey := some (keyOf key), hmac := some tag }

/-- Any HMAC, with a tag that it accepts for the owner's entry and one that it refuses for an
entry sent with `key`. -/
structure TagCheck (key : UInt8) where
  validateHmac : Entry → Key32 → Bool
  ownTag : Key32
  wrongTag : Key32
  accepts : validateHmac (taggedEntry 1 ownTag) (keyOf 1) = true
  refuses : validateHmac (taggedEntry key wrongTag) (keyOf key) = false

namespace TagCheck
variable (c : TagCheck key)

def node : Env := ⟨Crc32.crc32, c.validateHmac, Entry.data⟩

def owner : Entry := taggedEntry 1 c.ownTag

def wrong : Entry := taggedEntry key c.wrongTag

theorem inhabited (key : UInt8) : Nonempty (TagCheck key) :=
  ⟨⟨fun e _ => decide (e.hmac = some (keyOf 1)), keyOf 1, keyOf 2, by decide, by
    change decide (some (keyOf 2) = some (keyOf 1)) = false
    decide⟩⟩

end TagCheck

def keyed (key : UInt8) : State :=
  { newNode with
    knownLedgers := [1]
    entryIndex := { newNode.entryIndex with
      ledgers := newNode.entryIndex.ledgers.put 1 ⟨false, some (keyOf key)⟩ } }

theorem validate_tagged (c : TagCheck key) (s : State) (k : UInt8) (tag : Key32)
    (hf : s.fences = []) :
    validate c.node s (taggedEntry k tag) = registerLedger c.node s (taggedEntry k tag) := by
  have hdigest : (taggedEntry k tag).validateDigest Crc32.crc32 = true :=
    (by decide +kernel : (emptyEntry 0).validateDigest Crc32.crc32 = true)
  simp [validate, fenceCheck, TagCheck.node, hdigest, hf]

theorem recordLedger_keyed (stored k : UInt8) (tag : Key32) :
    recordLedger newNode (taggedEntry stored tag) = .ok (keyed stored) ∧
      recordLedger (keyed stored) (taggedEntry k tag) =
        if keyOf stored = keyOf k then .ok (keyed stored)
        else .error (.serialization "ledger 1: master key mismatch — rejecting write") := by
  refine ⟨rfl, ?_⟩
  have hmsg : s!"ledger {1}: master key mismatch — rejecting write" =
      "ledger 1: master key mismatch — rejecting write" := by decide +kernel
  have hverdict : FjallIndex.ensureVerdict 1 ((keyed stored).entryIndex.getLedgerState 1)
      (some (keyOf k)) = if keyOf stored ≠ keyOf k then .reject (.serialization
        s!"ledger {1}: master key mismatch — rejecting write") else .keep := rfl
  have hrecord : recordLedger (keyed stored) (taggedEntry k tag) =
      ((keyed stored).entryIndex.ensureLedgerKnown 1 (some (keyOf k))).map fun r =>
        { keyed stored with entryIndex := r.1 } := rfl
  rw [hrecord, FjallIndex.ensureLedgerKnown, hverdict, hmsg]
  split_ifs <;> first | rfl | contradiction

theorem verifyHmac_keyed (c : TagCheck key) (k : UInt8) (tag : Key32) :
    verifyHmac c.node (keyed k) (taggedEntry k tag) =
      if c.validateHmac (taggedEntry k tag) (keyOf k) then .ok ()
        else .error (.serialization "ledger 1 entry 0: HMAC verification failed") := by
  have hmsg : s!"ledger {1} entry {0}: HMAC verification failed" =
      "ledger 1 entry 0: HMAC verification failed" := by decide +kernel
  rw [← hmsg]
  rfl

theorem owner_accepted (c : TagCheck key) :
    validate c.node newNode c.owner = (keyed 1, .ok ()) := by
  rw [TagCheck.owner, validate_tagged c newNode 1 c.ownTag rfl, registerLedger,
    (recordLedger_keyed 1 1 _).1]
  dsimp only
  rw [verifyHmac_keyed, c.accepts, if_pos rfl]

theorem wrong_refused (c : TagCheck key) {s : State} (hf : s.fences = [])
    (hs : recordLedger s c.wrong = .ok (keyed key)) : validate c.node s c.wrong =
      (keyed key, .error (.serialization "ledger 1 entry 0: HMAC verification failed")) := by
  rw [TagCheck.wrong] at hs ⊢
  rw [validate_tagged c s key c.wrongTag hf, registerLedger, hs]
  dsimp only
  rw [verifyHmac_keyed, c.refuses]
  rfl

/-- A ledger that is known with its key: a wrong tag is refused and nothing is left behind. -/
theorem wrong_tag_leaves_nothing :
    Nonempty (TagCheck 1) ∧ ∀ c : TagCheck 1, ∃ s e err,
      (validate c.node s e).2 = .error err ∧ e.masterKey.isSome ∧
        SameNode s (validate c.node s e).1 := by
  refine ⟨TagCheck.inhabited 1, fun c => ?_⟩
  have hrefused := congrArg Prod.snd
    (wrong_refused c (s := keyed 1) rfl (recordLedger_keyed 1 1 _).2)
  refine ⟨keyed 1, c.wrong, _, hrefused, rfl, ?_⟩
  refine (rejected_append_changes_nothing_iff hrefused).1.mpr (.inr (.inr (.inr ?_)))
  rintro (hknown | ⟨-, hnone⟩)
  · exact hknown List.mem_cons_self
  · cases hnone

/-- A request with a key of its own and a wrong tag is refused, but its key stays: the ledger's
owner, who would have been accepted before, is refused from then on. -/
theorem refused_key_locks_out_owner :
    Nonempty (TagCheck 9) ∧ ∀ c : TagCheck 9,
      (validate c.node newNode c.wrong).2 =
        .error (.serialization "ledger 1 entry 0: HMAC verification failed") ∧
      ¬ SameNode newNode (validate c.node newNode c.wrong).1 ∧
      (validate c.node newNode c.owner).2 = .ok () ∧
      (validate c.node (validate c.node newNode c.wrong).1 c.owner).2 =
        .error (.serialization "ledger 1: master key mismatch — rejecting write") := by
  refine ⟨TagCheck.inhabited 9, fun c => ?_⟩
  have hrefused := wrong_refused c (s := newNode) rfl (recordLedger_keyed 9 9 _).1
  rw [hrefused, owner_accepted]
  refine ⟨rfl, fun hsame => ?_, rfl, ?_⟩
  · cases hsame.ledgers 1
  · rw [TagCheck.owner, validate_tagged c (keyed 9) 1 c.ownTag rfl, registerLedger,
      (recordLedger_keyed 9 1 _).2, if_neg (by decide)]

end Runs
end Folio.AddValidation
