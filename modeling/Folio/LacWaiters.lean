import Folio.NodeMarks
import Mathlib.Data.Nat.SuccPred
import Mathlib.Order.Bounds.Basic

/-! `get_lac` against the end of `add_entry` on one node: the last add confirmed is raised, the
notifier of the ledger is looked up or made, and those who wait on it are woken. -/
namespace Folio.LacWaiters
open KeyedTable Protocol TransitionSystem
open Node (raise)
open NodeMarks (raise_get)

/-- `tokio::sync::Notify` with notifiers `N` and tickets `T`: whoever has called `notified` is
woken by the next `notify_waiters`, and by nothing else. -/
structure Notify (N T : Type) where
  new : N
  notifyWaiters : N → N
  notified : N → T
  woken : N → T → Bool
  sleeps : ∀ n, woken n (notified n) = false
  wakes : ∀ n k, woken (notifyWaiters^[k + 1] n) (notified n) = true

/-- Nothing but `notify_waiters` has been called in between. -/
def Notify.Later {N T : Type} (notify : Notify N T) (n n' : N) : Prop :=
  ∃ k, n' = notify.notifyWaiters^[k] n

section Model
variable {N T : Type}

inductive AddPc where
  | stored
  | raised (localLac : Nat)
  | fetched (localLac : Nat)
  | returned (localLac : Nat)
  | duplicate (localLac : Nat)
  deriving DecidableEq

/-- `since` is the LAC at the time of the call; the code does not keep it. -/
structure Add where
  ledger : Nat
  lac : Nat
  since : Nat
  pc : AddPc
  deriving DecidableEq

inductive GetPc (T : Type) where
  | started
  | sawZero
  | fetched
  | waiting (ticket : T)
  | woken
  | returned (r : Except FolioError Nat)

/-- `since` is the LAC at the time of the call, and `missed` says that waiters were woken after
this one had read the LAC and before it waited; the code has neither. -/
structure Get (T : Type) where
  ledger : Nat
  wait : Option Nat
  since : Nat
  missed : Bool
  pc : GetPc T

structure State (N T : Type) where
  lac : Table Nat Nat
  notifiers : Table Nat N
  adds : Table Nat Add
  gets : Table Nat (Get T)

namespace State
variable (s : State N T)

def lacOf (ledger : Nat) : Nat := (s.lac.get ledger).getD 0
def notifier (notify : Notify N T) (ledger : Nat) : N := (s.notifiers.get ledger).getD notify.new
def setAdd (c : Nat) (a : Add) : State N T := { s with adds := s.adds.put c a }
def setGet (c : Nat) (g : Get T) : State N T := { s with gets := s.gets.put c g }

end State

def remoteWait (wait : Option Nat) : Option Nat :=
  let ms := (wait.map fun t => t / 10 ^ 6 % 2 ^ 64).getD 0
  if ms = 0 then none else some (ms * 10 ^ 6)

def Get.isBefore (g : Get T) (ledger : Nat) : Bool :=
  g.ledger == ledger && match g.pc with
    | .sawZero | .fetched => true
    | _ => false

def Get.miss (ledger : Nat) (g : Get T) : Get T :=
  if g.isBefore ledger then { g with missed := true } else g

inductive Act where
  | addEntry (c ledger lac : Nat)
  | raiseLac (c : Nat)
  | answerDuplicate (c : Nat)
  | fetchNotifier (c : Nat)
  | notifyWaiters (c : Nat)
  | getLac (c ledger : Nat) (wait : Option Nat)
  | remoteGetLac (c ledger : Nat) (wait : Option Nat)
  | readLac (c : Nat)
  | findNotifier (c : Nat)
  | notified (c : Nat)
  | wake (c : Nat)
  | timeout (c : Nat)
  | rereadLac (c : Nat)

def stepAdd (notify : Notify N T) (s : State N T) (c : Nat) (a : Add) (act : Act) :
    Option (State N T) :=
  match act, a.pc with
  | .raiseLac _, .stored =>
    let lac := raise s.lac a.ledger a.lac
    some ({ s with lac }.setAdd c { a with pc := .raised ((lac.get a.ledger).getD 0) })
  | .answerDuplicate _, .stored =>
    some (s.setAdd c { a with pc := .duplicate (s.lacOf a.ledger) })
  | .fetchNotifier _, .raised n =>
    some ({ s with notifiers := s.notifiers.put a.ledger (s.notifier notify a.ledger) }.setAdd c
      { a with pc := .fetched n })
  | .notifyWaiters _, .fetched n =>
    some ({ s with
      notifiers := s.notifiers.put a.ledger (notify.notifyWaiters (s.notifier notify a.ledger))
      gets := s.gets.map (Get.miss a.ledger) }.setAdd c { a with pc := .returned n })
  | _, _ => none

def stepGet (notify : Notify N T) (s : State N T) (c : Nat) (g : Get T) (act : Act) :
    Option (State N T) :=
  match act, g.pc with
  | .readLac _, .started =>
    if 0 < s.lacOf g.ledger ∨ g.wait = none then
      some (s.setGet c { g with pc := .returned (.ok (s.lacOf g.ledger)) })
    else some (s.setGet c { g with pc := .sawZero })
  | .findNotifier _, .sawZero =>
    if (s.notifiers.get g.ledger).isSome then some (s.setGet c { g with pc := .fetched })
    else some (s.setGet c { g with pc := .returned (.ok 0) })
  | .notified _, .fetched =>
    some (s.setGet c { g with pc := .waiting (notify.notified (s.notifier notify g.ledger)) })
  | .wake _, .waiting ticket =>
    if notify.woken (s.notifier notify g.ledger) ticket then
      some (s.setGet c { g with pc := .woken })
    else none
  | .timeout _, .waiting ticket =>
    if notify.woken (s.notifier notify g.ledger) ticket then none
    else some (s.setGet c { g with pc := .returned (.error .lacTimeout) })
  | .rereadLac _, .woken =>
    some (s.setGet c { g with pc := .returned (.ok (s.lacOf g.ledger)) })
  | _, _ => none

def invoke (s : State N T) (c ledger : Nat) (wait : Option Nat) : Option (State N T) :=
  match s.gets.get c with
  | none => some (s.setGet c ⟨ledger, wait, s.lacOf ledger, false, .started⟩)
  | some _ => none

def step (notify : Notify N T) (s : State N T) (act : Act) : Option (State N T) :=
  match act with
  | .addEntry c ledger lac =>
    match s.adds.get c with
    | none => some (s.setAdd c ⟨ledger, lac, s.lacOf ledger, .stored⟩)
    | some _ => none
  | .raiseLac c | .answerDuplicate c | .fetchNotifier c | .notifyWaiters c =>
    (s.adds.get c).bind fun a => stepAdd notify s c a act
  | .getLac c ledger wait => invoke s c ledger wait
  | .remoteGetLac c ledger wait => invoke s c ledger (remoteWait wait)
  | .readLac c | .findNotifier c | .notified c | .wake c | .timeout c | .rereadLac c =>
    (s.gets.get c).bind fun g => stepGet notify s c g act

def fresh : State N T := ⟨.empty, .empty, .empty, .empty⟩

end Model

section Invariant
variable {N T : Type}

def AddPc.counts : AddPc → Bool
  | .raised _ | .fetched _ | .returned _ => true
  | .stored | .duplicate _ => false

def AddPc.owesWake : AddPc → Bool
  | .raised _ | .fetched _ => true
  | _ => false

def AddPc.reply : AddPc → Option Nat
  | .raised n | .fetched n | .returned n | .duplicate n => some n
  | .stored => none

def Owed (s : State N T) (ledger : Nat) : Prop :=
  ∃ c a, s.adds.get c = some a ∧ a.ledger = ledger ∧ a.pc.owesWake = true

def Quiet (notify : Notify N T) (s : State N T) (g : Get T) : Prop :=
  match g.pc with
  | .sawZero | .fetched => True
  | .waiting ticket => notify.woken (s.notifier notify g.ledger) ticket = false
  | _ => False

structure AddOk (s : State N T) (a : Add) : Prop where
  since : a.since ≤ s.lacOf a.ledger
  counted : a.pc.counts = true → a.lac ≤ s.lacOf a.ledger
  reply : ∀ n, a.pc.reply = some n →
    a.since ≤ n ∧ n ≤ s.lacOf a.ledger ∧ (a.pc.counts = true → a.lac ≤ n)

structure AddInv (s : State N T) : Prop where
  ok : ∀ c a, s.adds.get c = some a → AddOk s a
  source : ∀ ledger n, s.lac.get ledger = some n →
    ∃ c a, s.adds.get c = some a ∧ a.ledger = ledger ∧ a.lac = n ∧ a.pc.counts = true

structure GetOk (notify : Notify N T) (s : State N T) (g : Get T) : Prop where
  since : g.since ≤ s.lacOf g.ledger
  reply : ∀ n, g.pc = .returned (.ok n) → g.since ≤ n ∧ n ≤ s.lacOf g.ledger
  zero : g.pc = .sawZero → g.since = 0
  heard : ∀ ticket, g.pc = .waiting ticket →
    ∃ n, ticket = notify.notified n ∧ notify.Later n (s.notifier notify g.ledger)
  quiet : Quiet notify s g → s.lacOf g.ledger = 0 ∨ Owed s g.ledger ∨ g.missed = true

def GetInv (notify : Notify N T) (s : State N T) : Prop :=
  ∀ c g, s.gets.get c = some g → GetOk notify s g

inductive AddTrans (notify : Notify N T) (s : State N T) (c : Nat) (a : Add) : State N T → Prop
  | raised (hpc : a.pc = .stored) :
      AddTrans notify s c a ({ s with lac := raise s.lac a.ledger a.lac }.setAdd c
        { a with pc := .raised (((raise s.lac a.ledger a.lac).get a.ledger).getD 0) })
  | duplicate (hpc : a.pc = .stored) :
      AddTrans notify s c a (s.setAdd c { a with pc := .duplicate (s.lacOf a.ledger) })
  | fetched (n : Nat) (hpc : a.pc = .raised n) :
      AddTrans notify s c a ({ s with
        notifiers := s.notifiers.put a.ledger (s.notifier notify a.ledger) }.setAdd c
        { a with pc := .fetched n })
  | returned (n : Nat) (hpc : a.pc = .fetched n) :
      AddTrans notify s c a ({ s with
        notifiers := s.notifiers.put a.ledger (notify.notifyWaiters (s.notifier notify a.ledger))
        gets := s.gets.map (Get.miss a.ledger) }.setAdd c { a with pc := .returned n })

variable {notify : Notify N T} {s t : State N T} {c : Nat} {a : Add} {g : Get T} {act : Act}

theorem stepAdd_trans (h : stepAdd notify s c a act = some t) : AddTrans notify s c a t := by
  unfold stepAdd at h
  split at h
  · rename_i hpc
    cases h
    exact .raised hpc
  · rename_i hpc
    cases h
    exact .duplicate hpc
  · rename_i n hpc
    cases h
    exact .fetched n hpc
  · rename_i n hpc
    cases h
    exact .returned n hpc
  · cases h

theorem stepGet_trans (h : stepGet notify s c g act = some t) :
    ∃ pc, t = s.setGet c { g with pc } ∧
      ((pc = .returned (.ok (s.lacOf g.ledger))) ∨
        (pc = .sawZero ∧ s.lacOf g.ledger = 0) ∨
        (g.pc = .sawZero ∧ (pc = .fetched ∨ pc = .returned (.ok 0))) ∨
        (g.pc = .fetched ∧
          pc = .waiting (notify.notified (s.notifier notify g.ledger))) ∨
        pc = .woken ∨ pc = .returned (.error .lacTimeout)) := by
  unfold stepGet at h
  split at h
  · split_ifs at h with hread
    · cases h
      exact ⟨_, rfl, .inl rfl⟩
    · cases h
      exact ⟨_, rfl, .inr (.inl ⟨rfl, by omega⟩)⟩
  · rename_i hpc
    split_ifs at h
    · cases h
      exact ⟨_, rfl, .inr (.inr (.inl ⟨hpc, .inl rfl⟩))⟩
    · cases h
      exact ⟨_, rfl, .inr (.inr (.inl ⟨hpc, .inr rfl⟩))⟩
  · rename_i hpc
    cases h
    exact ⟨_, rfl, .inr (.inr (.inr (.inl ⟨hpc, rfl⟩)))⟩
  · split_ifs at h
    cases h
    exact ⟨_, rfl, .inr (.inr (.inr (.inr (.inl rfl))))⟩
  · split_ifs at h
    cases h
    exact ⟨_, rfl, .inr (.inr (.inr (.inr (.inr rfl))))⟩
  · cases h
    exact ⟨_, rfl, .inl rfl⟩
  · cases h

theorem lacOf_raise (s : State N T) (ledger n l : Nat) :
    State.lacOf { s with lac := raise s.lac ledger n } l =
      if l = ledger then max n (s.lacOf l) else s.lacOf l := by
  unfold State.lacOf raise
  dsimp only
  rw [Table.get_put]
  split_ifs with hl
  · subst hl
    cases s.lac.get l <;> simp
  · rfl

end Invariant

section AddSide
variable {N T : Type} {notify : Notify N T} {s t : State N T} {c : Nat} {a : Add}

theorem AddOk.later (h : AddOk s a) (hlac : ∀ l, s.lacOf l ≤ t.lacOf l) : AddOk t a where
  since := h.since.trans (hlac _)
  counted hc := (h.counted hc).trans (hlac _)
  reply n hn :=
    have hreply := h.reply n hn
    ⟨hreply.1, hreply.2.1.trans (hlac _), hreply.2.2⟩

theorem AddInv.put {b : Add} (h : AddInv s) (hadds : t.adds = s.adds.put c b)
    (hlac : ∀ l, s.lacOf l ≤ t.lacOf l) (hb : AddOk t b)
    (hold : ∀ a, s.adds.get c = some a → a.pc.counts = true →
      b.ledger = a.ledger ∧ b.lac = a.lac ∧ b.pc.counts = true)
    (hsource : ∀ ledger n, t.lac.get ledger = some n →
      s.lac.get ledger = some n ∨ b.ledger = ledger ∧ b.lac = n ∧ b.pc.counts = true) :
    AddInv t where
  ok c' a ha := by
    rw [hadds, Table.get_put] at ha
    split_ifs at ha
    · cases ha
      exact hb
    · exact (h.ok c' a ha).later hlac
  source ledger n hn := by
    rcases hsource ledger n hn with hn | hnew
    · obtain ⟨c', a, ha, rfl, rfl, hc⟩ := h.source ledger n hn
      by_cases heq : c' = c
      · subst heq
        exact ⟨c', b, by rw [hadds, Table.get_put_self], hold a ha hc⟩
      · exact ⟨c', a, by rw [hadds, Table.get_put_ne _ _ heq, ha], rfl, rfl, hc⟩
    · exact ⟨c, b, by rw [hadds, Table.get_put_self], hnew⟩

theorem AddInv.move (h : AddInv s) (hget : s.adds.get c = some a) (pc : AddPc)
    (hcounts : pc.counts = a.pc.counts) (hreply : ∀ n, pc.reply = some n →
      a.pc.reply = some n ∨ (n = s.lacOf a.ledger ∧ pc.counts = false))
    (hadds : t.adds = s.adds.put c { a with pc }) (hlacs : t.lac = s.lac) : AddInv t := by
  have hof (l : Nat) : t.lacOf l = s.lacOf l := by
    unfold State.lacOf
    rw [hlacs]
  have hok := h.ok c a hget
  refine h.put hadds (fun l => (hof l).ge) ⟨?_, fun hc => ?_, fun n hn => ?_⟩ (fun b hb hc => ?_)
    fun ledger n hn => .inl (hlacs ▸ hn)
  · rw [hof]
    exact hok.since
  · rw [hof]
    exact hok.counted (hcounts ▸ hc)
  · rw [hof]
    rcases hreply n hn with hn | ⟨rfl, hno⟩
    · obtain ⟨hsince, hle, hlac⟩ := hok.reply n hn
      exact ⟨hsince, hle, fun hc => hlac (hcounts ▸ hc)⟩
    · exact ⟨hok.since, le_rfl, fun hc => by rw [hno] at hc; cases hc⟩
  · cases hget.symm.trans hb
    exact ⟨rfl, rfl, hcounts.trans hc⟩

theorem AddInv.raised (h : AddInv s) (hget : s.adds.get c = some a) (hpc : a.pc = .stored) :
    AddInv ({ s with lac := raise s.lac a.ledger a.lac }.setAdd c
      { a with pc := .raised (((raise s.lac a.ledger a.lac).get a.ledger).getD 0) }) := by
  have hof := lacOf_raise s a.ledger a.lac
  have hmono (l : Nat) :
      s.lacOf l ≤ State.lacOf { s with lac := raise s.lac a.ledger a.lac } l := by
    rw [hof]
    split_ifs <;> omega
  have hown : a.lac ≤ State.lacOf { s with lac := raise s.lac a.ledger a.lac } a.ledger := by
    rw [hof, if_pos rfl]
    omega
  have hsince := (h.ok c a hget).since.trans (hmono a.ledger)
  refine h.put rfl hmono ⟨hsince, fun _ => hown, ?_⟩ (fun b hb hc => ?_) fun ledger n hn => ?_
  · rintro n ⟨⟩
    exact ⟨hsince, le_rfl, fun _ => hown⟩
  · cases hget.symm.trans hb
    rw [hpc] at hc
    cases hc
  · -- either the entry is the largest, or the LAC stays what it was
    obtain hold | ⟨rfl, rfl⟩ := raise_get hn
    · exact .inl hold
    · exact .inr ⟨rfl, rfl, rfl⟩

theorem AddInv.invoke (h : AddInv s) (hget : s.adds.get c = none) (ledger lac : Nat) :
    AddInv (s.setAdd c ⟨ledger, lac, s.lacOf ledger, .stored⟩) := by
  refine h.put rfl (fun _ => le_rfl) ⟨le_rfl, Bool.noConfusion, fun n hn => ?_⟩
    (fun b hb => ?_) fun ledger n hn => .inl hn
  · cases hn
  · rw [hget] at hb
    cases hb

theorem AddInv.trans (h : AddInv s) (hget : s.adds.get c = some a)
    (hst : AddTrans notify s c a t) : AddInv t := by
  cases hst with
  | raised hpc => exact h.raised hget hpc
  | duplicate hpc =>
    refine h.move hget _ (by rw [hpc]; rfl) (fun n hn => .inr ?_) rfl rfl
    cases hn
    exact ⟨rfl, rfl⟩
  | fetched n hpc =>
    exact h.move hget (.fetched n) (by rw [hpc]; rfl) (fun m hm => .inl (by rw [hpc]; exact hm))
      rfl rfl
  | returned n hpc =>
    exact h.move hget (.returned n) (by rw [hpc]; rfl) (fun m hm => .inl (by rw [hpc]; exact hm))
      rfl rfl

end AddSide

section GetSide
variable {N T : Type} {notify : Notify N T} {s t : State N T} {c : Nat} {a : Add} {g : Get T}

theorem Notify.Later.refl (n : N) : notify.Later n n := ⟨0, rfl⟩

theorem Notify.Later.next {n n' : N} (h : notify.Later n n') :
    notify.Later n (notify.notifyWaiters n') := by
  obtain ⟨k, rfl⟩ := h
  exact ⟨k + 1, (Function.iterate_succ_apply' _ _ _).symm⟩

theorem Notify.Later.trans {n n' n'' : N} (h : notify.Later n n') (h' : notify.Later n' n'') :
    notify.Later n n'' := by
  obtain ⟨k, rfl⟩ := h
  obtain ⟨k', rfl⟩ := h'
  exact ⟨k' + k, (Function.iterate_add_apply _ _ _ _).symm⟩

theorem Notify.Later.woken {n n' : N} (h : notify.Later n n') :
    notify.woken (notify.notifyWaiters n') (notify.notified n) = true := by
  obtain ⟨k, rfl⟩ := h
  rw [← Function.iterate_succ_apply' notify.notifyWaiters k n]
  exact notify.wakes n k

theorem Owed.put {l : Nat} (h : Owed s l) (hget : s.adds.get c = some a) (pc : AddPc)
    (howes : a.pc.owesWake = true → pc.owesWake = true)
    (hadds : t.adds = s.adds.put c { a with pc }) : Owed t l := by
  obtain ⟨c', b, hb, hl, hw⟩ := h
  by_cases heq : c' = c
  · subst heq
    cases hget.symm.trans hb
    exact ⟨c', { a with pc }, by rw [hadds, Table.get_put_self], hl, howes hw⟩
  · exact ⟨c', b, by rw [hadds, Table.get_put_ne _ _ heq, hb], hl, hw⟩

theorem GetOk.later (h : GetOk notify s g) (hlac : ∀ l, s.lacOf l ≤ t.lacOf l)
    (hnotifier : ∀ l, notify.Later (s.notifier notify l) (t.notifier notify l))
    (hquiet : Quiet notify t g → t.lacOf g.ledger = 0 ∨ Owed t g.ledger ∨ g.missed = true) :
    GetOk notify t g where
  since := h.since.trans (hlac _)
  reply n hn := ⟨(h.reply n hn).1, (h.reply n hn).2.trans (hlac _)⟩
  zero := h.zero
  heard ticket ht := by
    obtain ⟨n, rfl, hn⟩ := h.heard ticket ht
    exact ⟨n, rfl, hn.trans (hnotifier _)⟩
  quiet := hquiet

theorem Quiet.congr (hnotifier : t.notifier notify g.ledger = s.notifier notify g.ledger)
    (h : Quiet notify t g) : Quiet notify s g := by
  unfold Quiet at h ⊢
  split at h
  · trivial
  · trivial
  · rwa [← hnotifier]
  · exact h

theorem notifier_put (notify : Notify N T) (s : State N T) (ledger : Nat) (n : N) (l : Nat) :
    State.notifier { s with notifiers := s.notifiers.put ledger n } notify l =
      if l = ledger then n else s.notifier notify l := by
  unfold State.notifier
  dsimp only
  rw [Table.get_put]
  split_ifs <;> rfl

theorem GetInv.raised (h : GetInv notify s) (hget : s.adds.get c = some a)
    (hpc : a.pc = .stored) :
    GetInv notify ({ s with lac := raise s.lac a.ledger a.lac }.setAdd c
      { a with pc := .raised (((raise s.lac a.ledger a.lac).get a.ledger).getD 0) }) := by
  intro d g hg
  have hof := lacOf_raise s a.ledger a.lac
  refine (h d g hg).later (fun l => ?_) (fun l => .refl _) fun hq => ?_
  · change s.lacOf l ≤ State.lacOf { s with lac := raise s.lac a.ledger a.lac } l
    rw [hof]
    split_ifs <;> omega
  · by_cases hl : a.ledger = g.ledger
    · exact .inr (.inl ⟨c, _, Table.get_put_self _ _ _, hl, rfl⟩)
    · refine ((h d g hg).quiet (hq.congr rfl)).imp (fun hzero => ?_)
        (Or.imp_left fun howed => howed.put hget _ (by rw [hpc]; exact Bool.noConfusion) rfl)
      change State.lacOf { s with lac := raise s.lac a.ledger a.lac } g.ledger = 0
      rw [hof, if_neg (Ne.symm hl), hzero]

theorem get_miss {ledger : Nat} {gets : Table Nat (Get T)} {d : Nat}
    (h : (gets.map (Get.miss ledger)).get d = some g) :
    ∃ g₀, gets.get d = some g₀ ∧ g = g₀.miss ledger := by
  rw [Table.get_map] at h
  obtain ⟨g₀, hg₀, rfl⟩ := Option.map_eq_some_iff.mp h
  exact ⟨g₀, hg₀, rfl⟩

theorem GetOk.not_quiet (h : GetOk notify s g) (hbefore : ¬g.isBefore g.ledger = true)
    (ht : t.notifier notify g.ledger = notify.notifyWaiters (s.notifier notify g.ledger)) :
    ¬Quiet notify t g := by
  intro hq
  unfold Quiet at hq
  split at hq
  · rename_i hpc
    simp [Get.isBefore, hpc] at hbefore
  · rename_i hpc
    simp [Get.isBefore, hpc] at hbefore
  · rename_i ticket hpc
    obtain ⟨n, rfl, hn⟩ := h.heard ticket hpc
    rw [ht, hn.woken] at hq
    cases hq
  · exact hq

theorem GetInv.returned (h : GetInv notify s) (hget : s.adds.get c = some a) (n : Nat) :
    GetInv notify ({ s with
      notifiers := s.notifiers.put a.ledger (notify.notifyWaiters (s.notifier notify a.ledger))
      gets := s.gets.map (Get.miss a.ledger) }.setAdd c { a with pc := .returned n }) := by
  intro d g hg
  obtain ⟨g₀, hg₀, rfl⟩ := get_miss hg
  have hok := h d g₀ hg₀
  have hput := notifier_put notify s a.ledger (notify.notifyWaiters (s.notifier notify a.ledger))
  have hlater (l : Nat) : notify.Later (s.notifier notify l)
      (if l = a.ledger then notify.notifyWaiters (s.notifier notify a.ledger)
        else s.notifier notify l) := by
    split_ifs with hl
    · subst hl
      exact Notify.Later.next (.refl _)
    · exact .refl _
  unfold Get.miss
  split_ifs with hbefore
  · have hg : GetOk notify s { g₀ with missed := true } :=
      ⟨hok.since, hok.reply, hok.zero, hok.heard, fun _ => .inr (.inr rfl)⟩
    exact hg.later (fun _ => le_rfl) (fun l => (hput l).symm ▸ hlater l) fun _ => .inr (.inr rfl)
  · refine hok.later (fun _ => le_rfl) (fun l => (hput l).symm ▸ hlater l) fun hq => ?_
    by_cases hl : g₀.ledger = a.ledger
    · refine absurd hq (hok.not_quiet (hl ▸ hbefore) ?_)
      exact (hput _).trans (by rw [if_pos hl, hl])
    · refine (hok.quiet (hq.congr ((hput _).trans (if_neg hl)))).imp_right (Or.imp_left ?_)
      rintro ⟨c', b, hb, hbl, hw⟩
      refine ⟨c', b, (Table.get_put_ne _ _ ?_).trans hb, hbl, hw⟩
      rintro rfl
      cases hget.symm.trans hb
      exact hl hbl.symm

theorem GetInv.trans (h : GetInv notify s) (hget : s.adds.get c = some a)
    (hst : AddTrans notify s c a t) : GetInv notify t := by
  cases hst with
  | raised hpc => exact h.raised hget hpc
  | duplicate hpc =>
    refine fun d g hg => (h d g hg).later (fun _ => le_rfl) (fun _ => .refl _) fun hq => ?_
    exact ((h d g hg).quiet (hq.congr rfl)).imp_right (Or.imp_left fun howed =>
      howed.put hget _ (by rw [hpc]; exact Bool.noConfusion) rfl)
  | fetched n hpc =>
    have hsame (l : Nat) : State.notifier { s with
        notifiers := s.notifiers.put a.ledger (s.notifier notify a.ledger) } notify l =
        s.notifier notify l := by
      rw [notifier_put]
      split_ifs with hl
      · rw [hl]
      · rfl
    refine fun d g hg => (h d g hg).later (fun _ => le_rfl) (fun l => ⟨0, hsame l⟩) fun hq => ?_
    exact ((h d g hg).quiet (hq.congr (hsame _))).imp_right (Or.imp_left fun howed =>
      howed.put hget _ (fun _ => rfl) rfl)
  | returned n hpc => exact h.returned hget n

theorem GetInv.setGet (h : GetInv notify s) (hg : GetOk notify s g) :
    GetInv notify (s.setGet c g) := by
  intro d g' hg'
  change (s.gets.put c g).get d = some g' at hg'
  rw [Table.get_put] at hg'
  split_ifs at hg' with heq
  · cases hg'
    exact hg.later (fun _ => le_rfl) (fun _ => .refl _) hg.quiet
  · have hok := h d g' hg'
    exact hok.later (fun _ => le_rfl) (fun _ => .refl _) hok.quiet

theorem GetOk.move (h : GetOk notify s g) {act : Act} (hst : stepGet notify s c g act = some t) :
    ∃ pc, t = s.setGet c { g with pc } ∧ GetOk notify s { g with pc } := by
  obtain ⟨pc, rfl, hpc⟩ := stepGet_trans hst
  refine ⟨pc, rfl, ?_⟩
  obtain rfl | ⟨rfl, hzero⟩ | ⟨hold, rfl | rfl⟩ | ⟨hold, rfl⟩ | rfl | rfl := hpc
  · refine ⟨h.since, ?_, nofun, nofun, False.elim⟩
    rintro n hn
    cases hn
    exact ⟨h.since, le_rfl⟩
  · refine ⟨h.since, nofun, fun _ => ?_, nofun,
      fun _ => .inl hzero⟩
    have := h.since
    exact Nat.le_zero.mp (hzero ▸ this)
  · refine ⟨h.since, nofun, nofun, nofun,
      fun _ => h.quiet ?_⟩
    unfold Quiet
    rw [hold]
    trivial
  · refine ⟨h.since, ?_, nofun, nofun, False.elim⟩
    rintro n hn
    cases hn
    exact ⟨(h.zero hold).le, Nat.zero_le _⟩
  · refine ⟨h.since, nofun, nofun, ?_, fun _ => h.quiet ?_⟩
    · rintro ticket ⟨⟩
      exact ⟨_, rfl, .refl _⟩
    · unfold Quiet
      rw [hold]
      trivial
  · exact ⟨h.since, nofun, nofun, nofun,
      False.elim⟩
  · refine ⟨h.since, ?_, nofun, nofun, False.elim⟩
    rintro n hn
    cases hn

end GetSide

section Runs
variable {N T : Type} {notify : Notify N T} {s t : State N T} {c : Nat} {act : Act}

structure Inv (notify : Notify N T) (s : State N T) : Prop where
  adds : AddInv s
  gets : GetInv notify s

theorem AddInv.setGet {g : Get T} (h : AddInv s) : AddInv (s.setGet c g) :=
  ⟨fun c a ha => ⟨(h.ok c a ha).since, (h.ok c a ha).counted, (h.ok c a ha).reply⟩, h.source⟩

theorem Inv.invoke (h : Inv notify s) {ledger : Nat} {wait : Option Nat}
    (hst : invoke s c ledger wait = some t) : Inv notify t := by
  unfold LacWaiters.invoke at hst
  split at hst
  · cases hst
    refine ⟨h.adds.setGet, h.gets.setGet ⟨le_rfl, nofun, nofun,
      nofun, False.elim⟩⟩
  · cases hst

theorem Inv.addMove (h : Inv notify s)
    (hst : ((s.adds.get c).bind fun a => stepAdd notify s c a act) = some t) : Inv notify t := by
  obtain ⟨a, ha, hmove⟩ := Option.bind_eq_some_iff.mp hst
  have htrans := stepAdd_trans hmove
  exact ⟨h.adds.trans ha htrans, h.gets.trans ha htrans⟩

theorem Inv.getMove (h : Inv notify s)
    (hst : ((s.gets.get c).bind fun g => stepGet notify s c g act) = some t) : Inv notify t := by
  obtain ⟨g, hg, hmove⟩ := Option.bind_eq_some_iff.mp hst
  obtain ⟨pc, rfl, hok⟩ := (h.gets c g hg).move hmove
  exact ⟨h.adds.setGet, h.gets.setGet hok⟩

theorem Inv.step (h : Inv notify s) (hst : step notify s act = some t) : Inv notify t := by
  cases act with
  | addEntry c ledger lac =>
    simp only [LacWaiters.step] at hst
    split at hst
    · rename_i hnone
      cases hst
      refine ⟨h.adds.invoke hnone ledger lac, fun d g hg => ?_⟩
      refine (h.gets d g hg).later (fun _ => le_rfl) (fun _ => .refl _) fun hq => ?_
      refine ((h.gets d g hg).quiet (hq.congr rfl)).imp_right (Or.imp_left ?_)
      rintro ⟨c', b, hb, hrest⟩
      refine ⟨c', b, (Table.get_put_ne _ _ ?_).trans hb, hrest⟩
      rintro rfl
      rw [hnone] at hb
      cases hb
    · cases hst
  | raiseLac c | answerDuplicate c | fetchNotifier c | notifyWaiters c => exact h.addMove hst
  | getLac c ledger wait | remoteGetLac c ledger wait => exact h.invoke hst
  | readLac c | findNotifier c | notified c | wake c | timeout c | rereadLac c =>
    exact h.getMove hst

theorem inv_fresh : Inv notify fresh where
  adds := by
    constructor
    · intro c a ha
      cases ha
    · intro ledger n hn
      cases hn
  gets := by
    intro c g hg
    cases hg

theorem inv_reach (h : Reach (LacWaiters.step notify) (· = fresh) s) : Inv notify s := by
  refine h.invariant ?_ fun _ _ _ => Inv.step
  rintro s rfl
  exact inv_fresh

def countedLacs (s : State N T) (ledger : Nat) : Set Nat :=
  {n | ∃ c a, s.adds.get c = some a ∧ a.ledger = ledger ∧ a.lac = n ∧ a.pc.counts = true}

/-- A node's LAC is the largest that an entry it has stored has brought. What it tells writers
and readers is never ahead of it and never behind what it was when they called, and an entry that
it has stored is not answered with less than its own; a duplicate may be. -/
theorem lac_replies_in_bounds (notify : Notify N T)
    (h : Reach (LacWaiters.step notify) (· = fresh) s) :
    (∀ ledger n, s.lac.get ledger = some n → IsGreatest (countedLacs s ledger) n) ∧
    (∀ c a n, s.adds.get c = some a → a.pc.reply = some n →
      a.since ≤ n ∧ n ≤ s.lacOf a.ledger ∧ (a.pc.counts = true → a.lac ≤ n)) ∧
    ∀ c g n, s.gets.get c = some g → g.pc = .returned (.ok n) →
      g.since ≤ n ∧ n ≤ s.lacOf g.ledger := by
  have hinv := inv_reach h
  refine ⟨fun ledger n hn => ⟨hinv.adds.source ledger n hn, ?_⟩,
    fun c a n ha => (hinv.adds.ok c a ha).reply n, fun c g n hg => (hinv.gets c g hg).reply n⟩
  rintro m ⟨c, a, ha, rfl, rfl, hc⟩
  have hle := (hinv.adds.ok c a ha).counted hc
  rwa [State.lacOf, hn] at hle

/-- A reader that runs into its timeout has a reason: the LAC is still 0, or an append has raised
it and is about to wake its waiters, or waiters were woken in between the reader's look at the
LAC and its wait. -/
theorem lac_timeout_explained (notify : Notify N T)
    (h : Reach (LacWaiters.step notify) (· = fresh) s)
    (hst : LacWaiters.step notify s (.timeout c) = some t) :
    ∃ g, s.gets.get c = some g ∧
      (s.lacOf g.ledger = 0 ∨ Owed s g.ledger ∨ g.missed = true) := by
  obtain ⟨g, hg, hmove⟩ := Option.bind_eq_some_iff.mp hst
  refine ⟨g, hg, ((inv_reach h).gets c g hg).quiet ?_⟩
  simp only [stepGet] at hmove
  split at hmove
  all_goals try contradiction
  rename_i ticket hpc
  split_ifs at hmove with hwoken
  unfold Quiet
  rw [hpc]
  exact Bool.eq_false_iff.mpr hwoken

end Runs

section LostWake

def counting : Notify Nat Nat where
  new := 0
  notifyWaiters := Nat.succ
  notified n := n
  woken n ticket := decide (ticket < n)
  sleeps n := by simp
  wakes n k := by
    rw [Nat.succ_iterate]
    exact decide_eq_true (by omega)

/-- A first append makes the notifier. The second one wakes the waiters after the reader has seen
0 and before it waits, and the reader times out. The first one comes again, with a LAC that does
not count. -/
def lostWake : List Act :=
  [.addEntry 0 1 0, .raiseLac 0, .fetchNotifier 0, .notifyWaiters 0,
    .getLac 0 1 (some 1000), .readLac 0, .findNotifier 0,
    .addEntry 1 1 5, .raiseLac 1, .fetchNotifier 1, .notifyWaiters 1, .notified 0,
    .addEntry 2 1 9, .answerDuplicate 2]

theorem lost_wake_times_out :
    ∃ s t, Reach (step counting) (· = fresh) s ∧ step counting s (.timeout 0) = some t ∧
      s.lacOf 1 = 5 ∧ ∃ g, s.gets.get 0 = some g ∧
        (s.lacOf g.ledger = 0 ∨ Owed s g.ledger ∨ g.missed = true) := by
  obtain ⟨s, hrun, hend⟩ := run_check (step counting) fresh
    (fun s => (step counting s (.timeout 0)).isSome && decide (s.lacOf 1 = 5)) lostWake
    (by decide)
  obtain ⟨hstep, hlac⟩ := Bool.and_eq_true_iff.mp hend
  obtain ⟨t, ht⟩ := Option.isSome_iff_exists.mp hstep
  exact ⟨s, t, reach_of_run _ (.start rfl) hrun, ht, of_decide_eq_true hlac,
    lac_timeout_explained counting (reach_of_run _ (.start rfl) hrun) ht⟩

theorem lost_wake_replies :
    ∃ s, Reach (step counting) (· = fresh) s ∧ s.adds.get 2 = some ⟨1, 9, 5, .duplicate 5⟩ ∧
      s.lac.get 1 = some 5 ∧ IsGreatest (countedLacs s 1) 5 := by
  obtain ⟨s, hrun, hend⟩ := run_check (step counting) fresh
    (fun s => decide (s.adds.get 2 = some ⟨1, 9, 5, .duplicate 5⟩) &&
      decide (s.lac.get 1 = some 5)) lostWake (by decide)
  obtain ⟨hdup, hlac⟩ := Bool.and_eq_true_iff.mp hend
  have hlac := of_decide_eq_true hlac
  exact ⟨s, reach_of_run _ (.start rfl) hrun, of_decide_eq_true hdup, hlac,
    (lac_replies_in_bounds counting (reach_of_run _ (.start rfl) hrun)).1 1 5 hlac⟩

end LostWake
end Folio.LacWaiters
