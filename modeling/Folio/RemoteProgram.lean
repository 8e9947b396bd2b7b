import Mathlib.Logic.Basic

/-! Programs that act only by requests to an environment. A program runs as a whole against
an environment that answers, or it advances one request at a time among others. -/
namespace Folio.RemoteProgram

structure Interface where
  Op : Type
  Reply : Op → Type

/-- Every request is answered by a value or by an error, and the program goes on from there. -/
inductive Prog (I : Interface) (ε α : Type) where
  | done (r : Except ε α)
  | call (o : I.Op) (k : Except ε (I.Reply o) → Prog I ε α)

namespace Prog
variable {I : Interface} {ε α β : Type}

protected def bind : Prog I ε α → (α → Prog I ε β) → Prog I ε β
  | done (.ok a), f => f a
  | done (.error e), _ => done (.error e)
  | call o k, f => call o fun r => (k r).bind f

protected def handle : Prog I ε α → (ε → Prog I ε α) → Prog I ε α
  | done (.ok a), _ => done (.ok a)
  | done (.error e), f => f e
  | call o k, f => call o fun r => (k r).handle f

instance : Monad (Prog I ε) where
  pure a := done (.ok a)
  bind := Prog.bind

instance : MonadExcept ε (Prog I ε) where
  throw e := done (.error e)
  tryCatch := Prog.handle

theorem bind_assoc {γ : Type} (p : Prog I ε α) (f : α → Prog I ε β) (g : β → Prog I ε γ) :
    p >>= f >>= g = p >>= fun a => f a >>= g := by
  change (p.bind f).bind g = p.bind fun a => (f a).bind g
  induction p with
  | done r => cases r <;> rfl
  | call o k ih => exact congrArg (call o) (funext ih)

def request (o : I.Op) : Prog I ε (I.Reply o) := call o done

/-- `ok_or`. -/
def okOr (e : ε) : Option α → Prog I ε α
  | some a => done (.ok a)
  | none => done (.error e)

def collect (f : α → Prog I ε (List β)) : List α → Prog I ε (List β)
  | [] => pure []
  | a :: as => do
    let bs ← f a
    let rest ← collect f as
    pure (bs ++ rest)

section Requests
variable {P : I.Op → Prop}

def Uses (P : I.Op → Prop) : Prog I ε α → Prop
  | done _ => True
  | call o k => P o ∧ ∀ r, Uses P (k r)

theorem uses_pure (a : α) : Uses P (pure a : Prog I ε α) := trivial

theorem uses_throw (e : ε) : Uses P (throw e : Prog I ε α) := trivial

theorem uses_okOr (e : ε) (o : Option α) : Uses P (okOr e o : Prog I ε α) := by
  cases o <;> trivial

theorem uses_request {o : I.Op} (h : P o) : Uses P (request o : Prog I ε (I.Reply o)) :=
  ⟨h, fun _ => trivial⟩

theorem Uses.bind {p : Prog I ε α} {f : α → Prog I ε β} (hp : Uses P p)
    (hf : ∀ a, Uses P (f a)) : Uses P (p >>= f) := by
  change Uses P (p.bind f)
  induction p with
  | done r =>
    cases r with
    | ok a => exact hf a
    | error e => trivial
  | call o k ih => exact ⟨hp.1, fun r => ih r (hp.2 r)⟩

theorem Uses.handle {p : Prog I ε α} {f : ε → Prog I ε α} (hp : Uses P p)
    (hf : ∀ e, Uses P (f e)) : Uses P (tryCatch p f) := by
  change Uses P (p.handle f)
  induction p with
  | done r =>
    cases r with
    | ok a => trivial
    | error e => exact hf e
  | call o k ih => exact ⟨hp.1, fun r => ih r (hp.2 r)⟩

end Requests

section Run
variable {σ : Type} (answer : σ → (o : I.Op) → σ × Except ε (I.Reply o)) {p : Prog I ε α} {s t : σ}
  {f : α → Prog I ε β} {a : α}

def run : Prog I ε α → σ → σ × Except ε α
  | done r, s => (s, r)
  | call o k, s => run (k (answer s o).2) (answer s o).1

@[simp] theorem run_done (r : Except ε α) (s : σ) :
    run answer (done r : Prog I ε α) s = (s, r) := rfl

@[simp] theorem run_pure (a : α) (s : σ) : run answer (pure a : Prog I ε α) s = (s, .ok a) := rfl

@[simp] theorem run_throw (e : ε) (s : σ) : run answer (throw e : Prog I ε α) s = (s, .error e) :=
  rfl

@[simp] theorem run_request (o : I.Op) (s : σ) : run answer (request o) s = answer s o := rfl

theorem run_bind (p : Prog I ε α) (f : α → Prog I ε β) (s : σ) :
    run answer (p >>= f) s =
      match (run answer p s).2 with
      | .ok a => run answer (f a) (run answer p s).1
      | .error e => ((run answer p s).1, .error e) := by
  change run answer (p.bind f) s = _
  induction p generalizing s with
  | done r => cases r <;> rfl
  | call o k ih => exact ih _ _

theorem run_bind_ok {b : β} (h : run answer (p >>= f) s = (t, .ok b)) :
    ∃ u a, run answer p s = (u, .ok a) ∧ run answer (f a) u = (t, .ok b) := by
  rw [run_bind] at h
  cases hr : run answer p s with
  | mk u r =>
    rw [hr] at h
    cases r with
    | ok a => exact ⟨u, a, rfl, h⟩
    | error e => cases h

theorem run_bind_of_ok {s u : σ}
    (h : run answer p s = (u, .ok a)) : run answer (p >>= f) s = run answer (f a) u := by
  rw [run_bind, h]

theorem run_bind_of_error {s u : σ} {e : ε}
    (h : run answer p s = (u, .error e)) : run answer (p >>= f) s = (u, .error e) := by
  rw [run_bind, h]

theorem run_okOr_ok {e : ε} {o : Option α}
    (h : run answer (okOr e o : Prog I ε α) s = (t, .ok a)) : o = some a ∧ t = s := by
  cases o with
  | none => cases h
  | some b =>
    cases h
    exact ⟨rfl, rfl⟩

theorem run_collect {f : α → Prog I ε (List β)} {g : α → List β} {s : σ}
    (h : ∀ a, run answer (f a) s = (s, .ok (g a))) (as : List α) :
    run answer (collect f as) s = (s, .ok (as.flatMap g)) := by
  induction as with
  | nil => rfl
  | cons a as ih =>
    rw [collect, run_bind_of_ok answer (h a), run_bind_of_ok answer ih]
    rfl

theorem run_handle (p : Prog I ε α) (f : ε → Prog I ε α) (s : σ) :
    run answer (tryCatch p f) s =
      match (run answer p s).2 with
      | .ok a => ((run answer p s).1, .ok a)
      | .error e => run answer (f e) (run answer p s).1 := by
  change run answer (p.handle f) s = _
  induction p generalizing s with
  | done r => cases r <;> rfl
  | call o k ih => exact ih _ _

theorem run_handle_ok {f : ε → Prog I ε α} (h : run answer (tryCatch p f) s = (t, .ok a)) :
    run answer p s = (t, .ok a) ∨
      ∃ u e, run answer p s = (u, .error e) ∧ run answer (f e) u = (t, .ok a) := by
  rw [run_handle] at h
  cases hr : run answer p s with
  | mk u r =>
    rw [hr] at h
    cases r with
    | ok b => exact .inl h
    | error e => exact .inr ⟨u, e, rfl, h⟩

theorem run_handle_of_ok {f : ε → Prog I ε α}
    (h : run answer p s = (t, .ok a)) : run answer (tryCatch p f) s = (t, .ok a) := by
  rw [run_handle, h]

theorem run_keeps {P : σ → Prop} (h : ∀ s o, P s → P (answer s o).1) (p : Prog I ε α) {s : σ}
    (hs : P s) : P (run answer p s).1 := by
  induction p generalizing s with
  | done r => exact hs
  | call o k ih => exact ih _ (h s o hs)

def Yields (p : Prog I ε α) (s : σ) (post : σ → Except ε α → Prop) : Prop :=
  post (run answer p s).1 (run answer p s).2

section Rules
variable {answer} {p : Prog I ε α} {s : σ} {mid : σ → Except ε α → Prop}
  {post : σ → Except ε α → Prop} {P : I.Op → Prop}

theorem Yields.mono (h : Yields answer p s mid)
    (hpost : ∀ t r, mid t r → post t r) : Yields answer p s post :=
  hpost _ _ h

theorem Yields.bind {post : σ → Except ε β → Prop}
    (h : Yields answer p s mid) (hok : ∀ t a, mid t (.ok a) → Yields answer (f a) t post)
    (herr : ∀ t e, mid t (.error e) → post t (.error e)) : Yields answer (p >>= f) s post := by
  unfold Yields at h ⊢
  rw [run_bind]
  cases hr : (run answer p s).2 with
  | ok a =>
    rw [hr] at h
    exact hok _ a h
  | error e =>
    rw [hr] at h
    exact herr _ e h

theorem Yields.handle {f : ε → Prog I ε α}
    (h : Yields answer p s mid) (hok : ∀ t a, mid t (.ok a) → post t (.ok a))
    (herr : ∀ t e, mid t (.error e) → Yields answer (f e) t post) :
    Yields answer (tryCatch p f) s post := by
  unfold Yields at h ⊢
  rw [run_handle]
  cases hr : (run answer p s).2 with
  | ok a =>
    rw [hr] at h
    exact hok _ a h
  | error e =>
    rw [hr] at h
    exact herr _ e h

theorem yields_okOr {e : ε} {o : Option α} (hsome : ∀ a, o = some a → post s (.ok a))
    (hnone : post s (.error e)) : Yields answer (okOr e o) s post := by
  cases o with
  | none => exact hnone
  | some a => exact hsome a rfl

theorem Uses.yields {γ : Type} (hp : Uses P p) (view : σ → γ)
    (hanswer : ∀ s o, P o → view (answer s o).1 = view s) (s : σ) :
    Yields answer p s fun t _ => view t = view s := by
  unfold Yields
  induction p generalizing s with
  | done r => rfl
  | call o k ih => exact (ih _ (hp.2 _) _).trans (hanswer s o hp.1)

theorem Uses.keeps {Q : σ → Prop} (hp : Uses P p)
    (hanswer : ∀ s o, P o → Q s → Q (answer s o).1) (hs : Q s) : Q (run answer p s).1 := by
  induction p generalizing s with
  | done r => exact hs
  | call o k ih => exact ih _ (hp.2 _) (hanswer s o hp.1 hs)

end Rules
end Run

section Interleaving
variable {σ δ : Type} (answer : δ → σ → (o : I.Op) → σ × Except ε (I.Reply o))

def advance (d : δ) (s : σ) : Prog I ε α → Option (σ × Prog I ε α)
  | done _ => none
  | call o k => some ((answer d s o).1, k (answer d s o).2)

def result : Prog I ε α → Option (Except ε α)
  | done r => some r
  | call _ _ => none

variable (rely : σ → σ → Prop) (allowed : σ → I.Op → Prop)

/-- Whatever the others do within `rely` before each request, the request does no more than
`rely` allows, and `post` holds when the program is done. Only requests that are `allowed`
count. -/
def Keeps (post : Except ε α → σ → Prop) : Prog I ε α → σ → Prop
  | done r, s => post r s
  | call o k, s => ∀ t, rely s t → allowed t o → ∀ d,
      rely t (answer d t o).1 ∧ Keeps post (k (answer d t o).2) (answer d t o).1

section Rules
variable {answer rely allowed} {post : Except ε α → σ → Prop} {p : Prog I ε α} {s t : σ}
  {post' : Except ε α → σ → Prop}

theorem Keeps.interfere (htrans : ∀ {s t u}, rely s t → rely t u → rely s u)
    (hpost : ∀ r s t, rely s t → post r s → post r t)
    (h : Keeps answer rely allowed post p s) (hst : rely s t) :
    Keeps answer rely allowed post p t := by
  cases p with
  | done r => exact hpost r s t hst h
  | call o k => exact fun u htu => h u (htrans hst htu)

theorem Keeps.mono (h : Keeps answer rely allowed post p s)
    (hpost : ∀ r t, post r t → post' r t) : Keeps answer rely allowed post' p s := by
  induction p generalizing s with
  | done r => exact hpost r s h
  | call o k ih => exact fun t hst hallowed d =>
      ⟨(h t hst hallowed d).1, ih _ (h t hst hallowed d).2⟩

/-- When the program is done, no more than `rely` has happened since it started. -/
theorem Keeps.track {s₀ : σ} (htrans : ∀ {s t u}, rely s t → rely t u → rely s u)
    (h : Keeps answer rely allowed post p s) (hs : rely s₀ s) :
    Keeps answer rely allowed (fun r t => post r t ∧ rely s₀ t) p s := by
  induction p generalizing s with
  | done r => exact ⟨h, hs⟩
  | call o k ih =>
    intro t hst hallowed d
    obtain ⟨hreq, hrest⟩ := h t hst hallowed d
    exact ⟨hreq, ih _ hrest (htrans (htrans hs hst) hreq)⟩

theorem Keeps.bind {f : α → Prog I ε β} {post' : Except ε β → σ → Prop}
    (h : Keeps answer rely allowed post p s)
    (hok : ∀ a t, post (.ok a) t → Keeps answer rely allowed post' (f a) t)
    (herr : ∀ e t, post (.error e) t → post' (.error e) t) :
    Keeps answer rely allowed post' (p >>= f) s := by
  change Keeps answer rely allowed post' (p.bind f) s
  induction p generalizing s with
  | done r =>
    cases r with
    | ok a => exact hok a s h
    | error e => exact herr e s h
  | call o k ih => exact fun t hst hallowed d =>
      ⟨(h t hst hallowed d).1, ih _ (h t hst hallowed d).2⟩

theorem Keeps.handle {f : ε → Prog I ε α}
    (h : Keeps answer rely allowed post p s) (hok : ∀ a t, post (.ok a) t → post' (.ok a) t)
    (herr : ∀ e t, post (.error e) t → Keeps answer rely allowed post' (f e) t) :
    Keeps answer rely allowed post' (tryCatch p f) s := by
  change Keeps answer rely allowed post' (p.handle f) s
  induction p generalizing s with
  | done r =>
    cases r with
    | ok a => exact hok a s h
    | error e => exact herr e s h
  | call o k ih => exact fun t hst hallowed d =>
      ⟨(h t hst hallowed d).1, ih _ (h t hst hallowed d).2⟩

theorem Keeps.advance {d : δ} {q : Prog I ε α} (hrefl : ∀ s, rely s s)
    (h : Keeps answer rely allowed post p s) (hadv : p.advance answer d s = some (t, q))
    (hallowed : ∀ o k, p = .call o k → allowed s o) :
    rely s t ∧ Keeps answer rely allowed post q t := by
  cases p with
  | done r => cases hadv
  | call o k =>
    cases hadv
    exact h s (hrefl s) (hallowed o k rfl) d

end Rules
end Interleaving
end Prog
end Folio.RemoteProgram
