import Mathlib
/-!
# Programs that can go wrong

A C function is a program over an explicit state that either returns or stops
at a fault. A fault ends the run: nothing is promised about what the machine
does after a dereferenced null pointer. `Run` strings calls together; what a
call preserves, every run preserves (`Run.inv`).
-/

namespace Ulmix.Lib

/-- Why a program does not return. -/
inductive Fault where
  /-- A null pointer was followed. -/
  | nullDeref
  /-- An access outside the object it was meant for. -/
  | outOfBounds
  /-- A lock that is never released was waited for. -/
  | spin
  /-- A loop that never ends. -/
  | diverges
  /-- A failed assertion stopped the machine. -/
  | panic
  deriving DecidableEq, Repr

/-- Programs over the state `σ`. -/
abbrev Exec (σ : Type) := StateT σ (Except Fault)

namespace Exec

variable {σ τ α β : Type}

/-- Stop at `e`. -/
def fault (e : Fault) : Exec σ α := fun _ => .error e

@[simp] theorem pure_apply (a : α) (s : σ) : (pure a : Exec σ α) s = .ok (a, s) := rfl

@[simp] theorem fault_apply (e : Fault) (s : σ) : (fault e : Exec σ α) s = .error e := rfl

@[simp] theorem get_apply (s : σ) : (get : Exec σ σ) s = .ok (s, s) := rfl

@[simp] theorem set_apply (s t : σ) : (set t : Exec σ PUnit) s = .ok (⟨⟩, t) := rfl

@[simp] theorem modify_apply (f : σ → σ) (s : σ) : (modify f : Exec σ PUnit) s = .ok (⟨⟩, f s) := rfl

theorem bind_apply (x : Exec σ α) (f : α → Exec σ β) (s : σ) :
    (x >>= f) s = match x s with
      | .ok (a, s') => f a s'
      | .error e => .error e := by
  show (x s >>= _) = _
  cases x s <;> rfl

/-- A program that returns does so step by step. -/
theorem bind_ok {x : Exec σ α} {f : α → Exec σ β} {s : σ} {r : β × σ} :
    (x >>= f) s = .ok r ↔ ∃ a s', x s = .ok (a, s') ∧ f a s' = .ok r := by
  rw [bind_apply]
  cases h : x s with
  | ok p => obtain ⟨a, s'⟩ := p; simp
  | error e => simp

theorem bind_of_ok {x : Exec σ α} {f : α → Exec σ β} {s s' : σ} {a : α} (h : x s = .ok (a, s')) :
    (x >>= f) s = f a s' := by
  rw [bind_apply, h]

theorem bind_of_error {x : Exec σ α} {f : α → Exec σ β} {s : σ} {e : Fault} (h : x s = .error e) :
    (x >>= f) s = .error e := by
  rw [bind_apply, h]

/-- A program known to return `a` leaves some state. -/
theorem exists_of_map {x : Exec σ α} {s : σ} {a : α} (h : (x s).map Prod.fst = .ok a) : ∃ s', x s = .ok (a, s') := by
  cases hx : x s with
  | ok p =>
    rw [hx] at h
    cases h
    exact ⟨p.2, rfl⟩
  | error e =>
    rw [hx] at h
    cases h

theorem error_of_map {x : Exec σ α} {s : σ} {e : Fault} (h : (x s).map Prod.fst = .error e) : x s = .error e := by
  cases hx : x s with
  | ok p =>
    rw [hx] at h
    cases h
  | error e' =>
    rw [hx] at h
    cases h
    rfl

/-- Run `x` on the part of the state `get` reads and `put` writes back. -/
def zoom (get : σ → τ) (put : τ → σ → σ) (x : Exec τ α) : Exec σ α := fun s =>
  match x (get s) with
  | .ok (a, t) => .ok (a, put t s)
  | .error e => .error e

theorem zoom_of_ok {get : σ → τ} {put : τ → σ → σ} {x : Exec τ α} {s : σ} {a : α} {t : τ}
    (h : x (get s) = .ok (a, t)) : zoom get put x s = .ok (a, put t s) := by
  unfold zoom; rw [h]

theorem zoom_of_error {get : σ → τ} {put : τ → σ → σ} {x : Exec τ α} {s : σ} {e : Fault}
    (h : x (get s) = .error e) : zoom get put x s = .error e := by
  unfold zoom; rw [h]

theorem zoom_ok {get : σ → τ} {put : τ → σ → σ} {x : Exec τ α} {s s' : σ} {a : α} :
    zoom get put x s = .ok (a, s') ↔ ∃ t, x (get s) = .ok (a, t) ∧ put t s = s' := by
  unfold zoom
  cases h : x (get s) with
  | ok p => obtain ⟨b, t⟩ := p; simp [and_assoc]
  | error e => simp

/-- Running on a part step by step, when what is put back is what is then read. -/
theorem zoom_bind {get : σ → τ} {put : τ → σ → σ} (hget : ∀ t s, get (put t s) = t)
    (hput : ∀ t t' s, put t' (put t s) = put t' s) (x : Exec τ α) (f : α → Exec τ β) :
    zoom get put (x >>= f) = zoom get put x >>= fun a => zoom get put (f a) := by
  funext s
  rw [bind_apply]
  unfold zoom
  rw [bind_apply]
  cases x (get s) with
  | error e => rfl
  | ok p =>
    obtain ⟨a, t⟩ := p
    dsimp only
    rw [hget]
    cases f a t with
    | error e => rfl
    | ok q => simp only [hput]

/-! ## Faults a program cannot stop at -/

/-- `x` never stops at `e`. -/
def Never (e : Fault) (x : Exec σ α) : Prop := ∀ s, x s ≠ .error e

namespace Never

variable {e : Fault}

theorem pure (a : α) : Never e (Pure.pure a : Exec σ α) := fun s h => by simp at h

theorem fault {e' : Fault} (h : e' ≠ e) : Never e (Exec.fault e' : Exec σ α) := fun s h' => by simp [h] at h'

theorem get : Never e (MonadState.get : Exec σ σ) := fun s h => by simp at h

theorem modify (f : σ → σ) : Never e (modify f : Exec σ PUnit) := fun s h => by simp at h

theorem bind {x : Exec σ α} {f : α → Exec σ β} (hx : Never e x) (hf : ∀ a, Never e (f a)) :
    Never e (x >>= f) := fun s h => by
  rw [bind_apply] at h
  cases hxs : x s with
  | ok p =>
    rw [hxs] at h
    exact hf p.1 p.2 h
  | error e' =>
    rw [hxs] at h
    cases h
    exact hx s hxs

theorem ite {p : Prop} [Decidable p] {x y : Exec σ α} (hx : Never e x) (hy : Never e y) :
    Never e (if p then x else y) := by
  by_cases hp : p
  · rwa [if_pos hp]
  · rwa [if_neg hp]

end Never

end Exec

/-! ## Runs -/

section Run
variable {σ ι : Type}

/-- The states reached from `s₀` by calls that each make a step. -/
inductive Run (step : σ → ι → σ → Prop) (s₀ : σ) : σ → Prop
  | start : Run step s₀ s₀
  | call {s s' : σ} {i : ι} : Run step s₀ s → step s i s' → Run step s₀ s'

/-- What holds at the start and every step keeps holds in every state reached. -/
theorem Run.inv {step : σ → ι → σ → Prop} {s₀ s : σ} (h : Run step s₀ s) (I : σ → Prop)
    (h0 : I s₀) (hs : ∀ s i s', I s → step s i s' → I s') : I s := by
  induction h with
  | start => exact h0
  | call _ ht ih => exact hs _ _ _ ih ht

/-- A run whose steps satisfy `p` is a run of any relation `p` implies. -/
theorem Run.mono {p q : σ → ι → σ → Prop} (hpq : ∀ s i s', p s i s' → q s i s') {s₀ s : σ}
    (h : Run p s₀ s) : Run q s₀ s := by
  induction h with
  | start => exact .start
  | call _ ht ih => exact .call ih (hpq _ _ _ ht)

/-- Where `next` only makes steps, it makes a run of a list of them. -/
theorem Run.foldlM {step : σ → ι → σ → Prop} {next : σ → ι → Option σ}
    (hnext : ∀ s i s', next s i = some s' → step s i s') (is : List ι) {s₀ s s' : σ} (h : Run step s₀ s)
    (hs : is.foldlM next s = some s') : Run step s₀ s' := by
  induction is generalizing s with
  | nil =>
    cases hs
    exact h
  | cons i is ih =>
    rw [List.foldlM_cons] at hs
    obtain ⟨t, ht, hrest⟩ := Option.bind_eq_some_iff.1 hs
    exact ih (.call h (hnext _ _ _ ht)) hrest

/-- The state at the end of such a run; nothing happens where there is none. -/
theorem Run.getD {step : σ → ι → σ → Prop} {next : σ → ι → Option σ}
    (hnext : ∀ s i s', next s i = some s' → step s i s') (is : List ι) {s₀ s : σ} (h : Run step s₀ s) :
    Run step s₀ ((is.foldlM next s).getD s) := by
  cases hs : is.foldlM next s with
  | none => exact h
  | some s' => exact h.foldlM hnext is hs

end Run

end Ulmix.Lib
