import Mathlib.Data.Option.Basic

/-! Partial labelled steps, the states they reach, runs given as lists of labels, and the
same system with its steps restricted by a guard on the state they start from. -/
namespace Folio.TransitionSystem
variable {σ α : Type*} {step : σ → α → Option σ} {init : σ → Prop} {s t : σ}

inductive Reach (step : σ → α → Option σ) (init : σ → Prop) : σ → Prop
  | start {s : σ} : init s → Reach step init s
  | next {s t : σ} (a : α) : Reach step init s → step s a = some t → Reach step init t

def run (step : σ → α → Option σ) : σ → List α → Option σ
  | s, [] => some s
  | s, a :: as => (step s a).bind fun t => run step t as

theorem Reach.invariant {P : σ → Prop} (hinit : ∀ s, init s → P s)
    (hstep : ∀ s a t, P s → step s a = some t → P t) (h : Reach step init s) : P s := by
  induction h with
  | start hs => exact hinit _ hs
  | next a _ hst ih => exact hstep _ a _ ih hst

theorem run_invariant {P : σ → Prop} (hstep : ∀ s a t, P s → step s a = some t → P t)
    (as : List α) (hs : P s) (h : run step s as = some t) : P t := by
  induction as generalizing s with
  | nil =>
    cases h
    exact hs
  | cons a as ih =>
    obtain ⟨u, hu, hrest⟩ := Option.bind_eq_some_iff.mp h
    exact ih (hstep s a u hs hu) hrest

theorem reach_of_run (as : List α) (hs : Reach step init s) (h : run step s as = some t) :
    Reach step init t :=
  run_invariant (fun _ a _ hs hst => hs.next a hst) as hs h

theorem run_cons {u : σ} {a : α} {as : List α} (hst : step s a = some u)
    (h : run step u as = some t) : run step s (a :: as) = some t := by
  rw [run, hst]
  exact h

theorem run_map {β : Type*} (step : σ → α → Option σ) (g : β → α) (s : σ) (bs : List β) :
    run step s (bs.map g) = run (fun s b => step s (g b)) s bs := by
  induction bs generalizing s with
  | nil => rfl
  | cons b bs ih =>
    rw [List.map_cons, run, run]
    exact Option.bind_congr fun u _ => ih u

theorem run_check (step : σ → α → Option σ) (s : σ) (p : σ → Bool) (as : List α)
    (h : (run step s as).map p = some true) : ∃ t, run step s as = some t ∧ p t = true :=
  Option.map_eq_some_iff.mp h

theorem reach_check (step : σ → α → Option σ) (hs : init s) (P : σ → Prop) [DecidablePred P]
    (as : List α) (h : (run step s as).map (fun t => decide (P t)) = some true) :
    ∃ t, Reach step init t ∧ P t := by
  obtain ⟨t, ht, hP⟩ := run_check step s (fun t => decide (P t)) as h
  exact ⟨t, reach_of_run as (.start hs) ht, of_decide_eq_true hP⟩

theorem reach_check_from (step : σ → α → Option σ) (s : σ) (P : σ → Prop) [DecidablePred P]
    (as : List α) (h : (run step s as).map (fun t => decide (P t)) = some true) :
    ∃ t, Reach step (· = s) t ∧ P t := by
  obtain ⟨t, ht, hP⟩ := run_check step s (fun t => decide (P t)) as h
  exact ⟨t, reach_of_run as (.start rfl) ht, of_decide_eq_true hP⟩

theorem run_to_rest {P rest : σ → Prop} {kind : α → Prop} (work : σ → Nat)
    (hgo : ∀ s, P s → ¬rest s → ∃ a t, kind a ∧ step s a = some t ∧ P t ∧ work t < work s)
    (hs : P s) : ∃ as t, (∀ a ∈ as, kind a) ∧ run step s as = some t ∧ rest t := by
  induction hn : work s using Nat.strongRecOn generalizing s with
  | ind n ih =>
    by_cases hrest : rest s
    · exact ⟨[], s, by simp, rfl, hrest⟩
    · obtain ⟨a, t, ha, hst, ht, hlt⟩ := hgo s hs hrest
      obtain ⟨as, u, has, hrun, hu⟩ := ih (work t) (hn ▸ hlt) ht rfl
      exact ⟨a :: as, u, List.forall_mem_cons.mpr ⟨ha, has⟩, run_cons hst hrun, hu⟩

section Simulation
variable {τ β : Type*} {step' : τ → β → Option τ} {init' : τ → Prop} {R : σ → τ → Prop}

theorem Reach.simulated (hinit : ∀ s, init s → ∃ x, init' x ∧ R s x)
    (hstep : ∀ s x a t, R s x → step s a = some t → ∃ bs y, run step' x bs = some y ∧ R t y)
    (h : Reach step init s) : ∃ x, Reach step' init' x ∧ R s x := by
  induction h with
  | start hs =>
    obtain ⟨x, hx, hR⟩ := hinit _ hs
    exact ⟨x, .start hx, hR⟩
  | next a _ hst ih =>
    obtain ⟨x, hx, hR⟩ := ih
    obtain ⟨bs, y, hrun, hR⟩ := hstep _ x a _ hR hst
    exact ⟨y, reach_of_run bs hx hrun, hR⟩

end Simulation

section Along

/-- `P` holds in every state the run leads through. -/
def Always (step : σ → α → Option σ) (P : σ → Prop) : σ → List α → Prop
  | s, [] => P s
  | s, a :: as => P s ∧ ∀ t, step s a = some t → Always step P t as

/-- Every step of the run is one that `Q` allows. -/
def EachStep (step : σ → α → Option σ) (Q : σ → α → Prop) : σ → List α → Prop
  | _, [] => True
  | s, a :: as => Q s a ∧ ∀ t, step s a = some t → EachStep step Q t as

theorem Always.head {P : σ → Prop} {as : List α} (h : Always step P s as) : P s := by
  cases as with
  | nil => exact h
  | cons a as => exact h.1

theorem always_iff_eachStep {I P : σ → Prop} {Q : σ → α → Prop}
    (hI : ∀ s a t, I s → step s a = some t → I t)
    (hstep : ∀ s a t, I s → P s → step s a = some t → (P t ↔ Q s a)) {as : List α}
    (hs : I s) (hP : P s) (h : run step s as = some t) :
    Always step P s as ↔ EachStep step Q s as := by
  induction as generalizing s with
  | nil => exact ⟨fun _ => trivial, fun _ => hP⟩
  | cons a as ih =>
    obtain ⟨u, hu, hrest⟩ := Option.bind_eq_some_iff.mp h
    have hkeep := hstep s a u hs hP hu
    have htail : P u → (Always step P u as ↔ EachStep step Q u as) :=
      fun hPu => ih (hI s a u hs hu) hPu hrest
    constructor
    · rintro ⟨-, hall⟩
      have hPu := (hall u hu).head
      refine ⟨hkeep.mp hPu, fun v hv => ?_⟩
      cases hu.symm.trans hv
      exact (htail hPu).mp (hall u hu)
    · rintro ⟨hQ, hall⟩
      refine ⟨hP, fun v hv => ?_⟩
      cases hu.symm.trans hv
      exact (htail (hkeep.mpr hQ)).mpr (hall u hu)

end Along

section Guarded
variable (guard : σ → α → Prop) [∀ s a, Decidable (guard s a)]

def guarded (step : σ → α → Option σ) (s : σ) (a : α) : Option σ :=
  if guard s a then step s a else none

theorem guarded_eq_some {a : α} :
    guarded guard step s a = some t ↔ guard s a ∧ step s a = some t := by
  by_cases h : guard s a <;> simp [guarded, h]

theorem Reach.guarded_mono (guard' : σ → α → Prop) [∀ s a, Decidable (guard' s a)]
    (himp : ∀ s a, guard s a → guard' s a) (h : Reach (guarded guard step) init s) :
    Reach (guarded guard' step) init s := by
  induction h with
  | start hs => exact .start hs
  | next a _ hst ih =>
    obtain ⟨hg, hst⟩ := (guarded_eq_some guard).mp hst
    exact ih.next a ((guarded_eq_some guard').mpr ⟨himp _ a hg, hst⟩)

end Guarded
end Folio.TransitionSystem
