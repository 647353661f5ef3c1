import Ulmix.Lib.Exec
/-!
# Programs that keep their state

Like `Exec`, but what was done before a fault is not lost: a run ends with a
result or a fault, and with a state in both cases.

`Prog.Sat` is the triple of this kind of program: from a state satisfying the
precondition, a run that returns satisfies the first postcondition and a run that
stops satisfies the second.
-/

namespace Ulmix.Lib

/-- Programs over the state `σ` that leave a state also where they stop at a fault. -/
def Prog (σ α : Type) : Type := σ → Except Fault α × σ

namespace Prog

variable {σ α β : Type}

instance : Monad (Prog σ) where
  pure a := fun s => (.ok a, s)
  bind x f := fun s =>
    match x s with
    | (.ok a, t) => f a t
    | (.error e, t) => (.error e, t)

instance : MonadStateOf σ (Prog σ) where
  get := fun s => (.ok s, s)
  set t := fun _ => (.ok ⟨⟩, t)
  modifyGet f := fun s => (.ok (f s).1, (f s).2)

/-- Stop at `e`. -/
def fault (e : Fault) : Prog σ α := fun s => (.error e, s)

theorem pure_apply (a : α) (s : σ) : (pure a : Prog σ α) s = (.ok a, s) := rfl

theorem fault_apply (e : Fault) (s : σ) : (fault e : Prog σ α) s = (.error e, s) := rfl

theorem get_apply (s : σ) : (get : Prog σ σ) s = (.ok s, s) := rfl

theorem modify_apply (f : σ → σ) (s : σ) : (modify f : Prog σ PUnit) s = (.ok ⟨⟩, f s) := rfl

theorem bind_of_ok {x : Prog σ α} {f : α → Prog σ β} {s t : σ} {a : α} (h : x s = (.ok a, t)) :
    (x >>= f) s = f a t := by
  show (match x s with | (.ok a, t) => f a t | (.error e, t) => (.error e, t)) = _
  rw [h]

theorem bind_of_error {x : Prog σ α} {f : α → Prog σ β} {s t : σ} {e : Fault} (h : x s = (.error e, t)) :
    (x >>= f) s = (.error e, t) := by
  show (match x s with | (.ok a, t) => f a t | (.error e, t) => (.error e, t)) = _
  rw [h]

/-- A program that returns does so step by step. -/
theorem bind_ok {x : Prog σ α} {f : α → Prog σ β} {s s' : σ} {b : β} :
    (x >>= f) s = (.ok b, s') ↔ ∃ a t, x s = (.ok a, t) ∧ f a t = (.ok b, s') := by
  constructor
  · intro h
    rcases hx : x s with ⟨e | a, t⟩
    · rw [bind_of_error hx] at h
      cases h
    · exact ⟨a, t, rfl, (bind_of_ok hx).symm.trans h⟩
  · rintro ⟨a, t, hx, hf⟩
    exact (bind_of_ok hx).trans hf

instance : LawfulMonad (Prog σ) := by
  refine LawfulMonad.mk' (Prog σ) ?_ ?_ ?_
  · intro α x
    funext s
    show (match x s with | (.ok a, t) => (.ok a, t) | (.error e, t) => (.error e, t)) = x s
    rcases x s with ⟨e | a, t⟩ <;> rfl
  · intro α β a f
    rfl
  · intro α β γ x f g
    funext s
    rcases hx : x s with ⟨e | a, t⟩
    · rw [bind_of_error (bind_of_error hx), bind_of_error hx]
    · rw [bind_of_ok hx]
      rcases hf : f a t with ⟨e | b, u⟩
      · rw [bind_of_error ((bind_of_ok hx).trans hf), bind_of_error hf]
      · rw [bind_of_ok ((bind_of_ok hx).trans hf), bind_of_ok hf]

theorem ite_bind {p : Prop} [Decidable p] (x y : Prog σ α) (f : α → Prog σ β) :
    (if p then x else y) >>= f = if p then x >>= f else y >>= f := by
  split <;> rfl

/-- A run from what it returns, and the state it leaves. -/
theorem run_eq {x : Prog σ α} {s : σ} {a : α} (h : (x s).1 = .ok a) : x s = (.ok a, (x s).2) := Prod.ext h rfl

/-! ## Triples -/

/-- From a state satisfying `P`, `x` returns into `Q` or stops in `E`. -/
def Sat (P : σ → Prop) (x : Prog σ α) (Q : α → σ → Prop) (E : Fault → σ → Prop) : Prop :=
  ∀ s, P s → (∀ a t, x s = (.ok a, t) → Q a t) ∧ ∀ e t, x s = (.error e, t) → E e t

namespace Sat

variable {P : σ → Prop} {Q : α → σ → Prop} {R : β → σ → Prop} {E : Fault → σ → Prop}

theorem pure {a : α} (h : ∀ s, P s → Q a s) : Sat P (Pure.pure a) Q E := by
  intro s hs
  refine ⟨fun b t hb => ?_, fun e t he => ?_⟩
  · cases hb
    exact h s hs
  · cases he

theorem fault {e : Fault} (h : ∀ s, P s → E e s) : Sat P (Prog.fault e) Q E := by
  intro s hs
  refine ⟨fun b t hb => ?_, fun e' t he => ?_⟩
  · cases hb
  · cases he
    exact h s hs

theorem modify {f : σ → σ} {Q : PUnit → σ → Prop} (h : ∀ s, P s → Q ⟨⟩ (f s)) : Sat P (modify f) Q E := by
  intro s hs
  refine ⟨fun b t hb => ?_, fun e t he => ?_⟩
  · cases hb
    exact h s hs
  · cases he

theorem get {Q : σ → σ → Prop} (h : ∀ s, P s → Q s s) : Sat P (MonadState.get : Prog σ σ) Q E := by
  intro s hs
  refine ⟨fun b t hb => ?_, fun e t he => ?_⟩
  · cases hb
    exact h s hs
  · cases he

theorem bind {x : Prog σ α} {f : α → Prog σ β} (hx : Sat P x Q E) (hf : ∀ a, Sat (Q a) (f a) R E) :
    Sat P (x >>= f) R E := by
  intro s hs
  rcases h : x s with ⟨e | a, t⟩
  · rw [bind_of_error h]
    refine ⟨fun b u hb => ?_, fun e' u he => ?_⟩
    · cases hb
    · cases he
      exact (hx s hs).2 _ _ h
  · rw [bind_of_ok h]
    exact hf a t ((hx s hs).1 _ _ h)

theorem ite {p : Prop} [Decidable p] {x y : Prog σ α} (hx : p → Sat P x Q E) (hy : ¬ p → Sat P y Q E) :
    Sat P (if p then x else y) Q E := by
  by_cases hp : p
  · rw [if_pos hp]
    exact hx hp
  · rw [if_neg hp]
    exact hy hp

theorem mono {P' : σ → Prop} {Q' : α → σ → Prop} {E' : Fault → σ → Prop} {x : Prog σ α} (h : Sat P x Q E)
    (hP : ∀ s, P' s → P s) (hQ : ∀ a s, Q a s → Q' a s) (hE : ∀ e s, E e s → E' e s) : Sat P' x Q' E' :=
  fun s hs => ⟨fun a t ha => hQ a t ((h s (hP s hs)).1 a t ha), fun e t he => hE e t ((h s (hP s hs)).2 e t he)⟩

theorem pre {P' : σ → Prop} {x : Prog σ α} (h : Sat P x Q E) (hP : ∀ s, P' s → P s) : Sat P' x Q E :=
  h.mono hP (fun _ _ h => h) (fun _ _ h => h)

theorem post {Q' : α → σ → Prop} {x : Prog σ α} (h : Sat P x Q E) (hQ : ∀ a s, Q a s → Q' a s) : Sat P x Q' E :=
  h.mono (fun _ h => h) hQ (fun _ _ h => h)

/-- Nothing is said of what `x` does. -/
theorem anything {x : Prog σ α} : Sat P x (fun _ _ => True) (fun _ _ => True) :=
  fun _ _ => ⟨fun _ _ _ => trivial, fun _ _ _ => trivial⟩

/-- What the precondition leaves open. -/
theorem of_exists {ι : Type} {P : ι → σ → Prop} {x : Prog σ α} (h : ∀ i, Sat (P i) x Q E) :
    Sat (fun s => ∃ i, P i s) x Q E := fun s hs => hs.elim fun i hi => h i s hi

/-- A part of the precondition that does not speak of the state. -/
theorem fact {p : Prop} {x : Prog σ α} (h : p → Sat P x Q E) : Sat (fun s => p ∧ P s) x Q E :=
  fun s hs => h hs.1 s hs.2

/-- A run that is known. -/
theorem runs {x : Prog σ α} (h : ∀ s, P s → ∃ a t, x s = (.ok a, t) ∧ Q a t) : Sat P x Q E := by
  intro s hs
  obtain ⟨a, t, hx, hQ⟩ := h s hs
  refine ⟨fun b u hb => ?_, fun e u he => ?_⟩
  · cases hx.symm.trans hb
    exact hQ
  · cases hx.symm.trans he

/-- What a triple says of a run that returned. -/
theorem of_run {s t : σ} {x : Prog σ α} {a : α} (h : Sat (fun s' => s' = s) x Q E) (hx : x s = (.ok a, t)) : Q a t :=
  (h s rfl).1 a t hx

/-- What holds however a run ends holds of the state it leaves. -/
theorem final {R : σ → Prop} {x : Prog σ α} (h : Sat P x (fun _ => R) fun _ => R) {s : σ} (hs : P s) : R (x s).2 := by
  rcases hx : x s with ⟨e | a, t⟩
  · exact (h s hs).2 e t hx
  · exact (h s hs).1 a t hx

theorem of_final {R : σ → Prop} {x : Prog σ α} (h : ∀ s, P s → R (x s).2) : Sat P x (fun _ => R) fun _ => R := by
  intro s hs
  have hR := h s hs
  refine ⟨fun a t ha => ?_, fun e t he => ?_⟩
  · rwa [ha] at hR
  · rwa [he] at hR

end Sat

/-! ## What a program cannot end in -/

/-- No run of `x` ends in the fault `e`. -/
def Never (e : Fault) (x : Prog σ α) : Prop := Sat (fun _ => True) x (fun _ _ => True) (fun e' _ => e' ≠ e)

namespace Never

variable {e : Fault} {P : σ → Prop} {Q : α → σ → Prop} {E : Fault → σ → Prop}

theorem pure (a : α) : Never e (Pure.pure a : Prog σ α) := Sat.pure fun _ _ => trivial

theorem fault {e' : Fault} (h : e' ≠ e) : Never e (Prog.fault e' : Prog σ α) := Sat.fault fun _ _ => h

theorem get : Never e (MonadState.get : Prog σ σ) := Sat.get fun _ _ => trivial

theorem modify (f : σ → σ) : Never e (modify f : Prog σ PUnit) := Sat.modify fun _ _ => trivial

theorem set (s : σ) : Never e (MonadStateOf.set s : Prog σ PUnit) :=
  fun _ _ => ⟨fun _ _ _ => trivial, fun _ _ he => by cases he⟩

theorem bind {x : Prog σ α} {f : α → Prog σ β} (hx : Never e x) (hf : ∀ a, Never e (f a)) : Never e (x >>= f) :=
  Sat.bind hx hf

theorem ite {p : Prop} [Decidable p] {x y : Prog σ α} (hx : Never e x) (hy : Never e y) :
    Never e (if p then x else y) :=
  Sat.ite (fun _ => hx) fun _ => hy

/-- What holds after `x` can be taken from a triple. -/
theorem sat {x : Prog σ α} (h : Never e x) (hx : Sat P x Q E) : Sat P x Q (fun e' _ => e' ≠ e) :=
  fun s hs => ⟨(hx s hs).1, (h s trivial).2⟩

theorem anyway {x : Prog σ α} (h : Never e x) : Sat P x (fun _ _ => True) (fun e' _ => e' ≠ e) :=
  h.pre fun _ _ => trivial

end Never

/-! ## Two runs -/

/-- From related states `x` and `y` come to the same result, and to related states. -/
def InStep (R : σ → σ → Prop) (x y : Prog σ α) : Prop :=
  ∀ s t, R s t → (y t).1 = (x s).1 ∧ R (x s).2 (y t).2

namespace InStep

variable {R : σ → σ → Prop}

theorem pure (a : α) : InStep R (Pure.pure a) (Pure.pure a) := fun _ _ h => ⟨rfl, h⟩

theorem fault (e : Fault) : InStep R (Prog.fault e : Prog σ α) (Prog.fault e) := fun _ _ h => ⟨rfl, h⟩

theorem bind {x y : Prog σ α} {f g : α → Prog σ β} (h : InStep R x y) (hf : ∀ a, InStep R (f a) (g a)) :
    InStep R (x >>= f) (y >>= g) := by
  intro s t hR
  obtain ⟨hres, hst⟩ := h s t hR
  rcases hx : x s with ⟨e | a, s'⟩
  · rcases hy : y t with ⟨e' | b, t'⟩
    · rw [hx, hy] at hres hst
      rw [bind_of_error hx, bind_of_error hy]
      exact ⟨congrArg Except.error (Except.error.inj hres), hst⟩
    · rw [hx, hy] at hres
      cases hres
  · rcases hy : y t with ⟨e' | b, t'⟩
    · rw [hx, hy] at hres
      cases hres
    · rw [hx, hy] at hres hst
      rw [bind_of_ok hx, bind_of_ok hy, Except.ok.inj hres]
      exact hf a s' t' hst

theorem ite {p : Prop} [Decidable p] {x y x' y' : Prog σ α} (h : p → InStep R x x') (h' : ¬ p → InStep R y y') :
    InStep R (if p then x else y) (if p then x' else y') := by
  by_cases hp : p
  · rw [if_pos hp, if_pos hp]
    exact h hp
  · rw [if_neg hp, if_neg hp]
    exact h' hp

theorem ok {x y : Prog σ α} (h : InStep R x y) {s s' t : σ} {a : α} (hx : x s = (.ok a, t)) (hR : R s s') :
    ∃ t', y s' = (.ok a, t') ∧ R t t' := by
  obtain ⟨hres, hst⟩ := h s s' hR
  rw [hx] at hres hst
  exact ⟨(y s').2, Prod.ext hres rfl, hst⟩

end InStep

end Prog

end Ulmix.Lib
