import Mathlib.Logic.Basic

/-!
# Ophelia.Lib.Program

Programs that may raise and may crash. A program runs on a state and ends in one of three
ways: it returns, it raises, or it stops dead in the state it has reached. Handlers and
finalizers see what is raised; nothing runs after a crash, so the state at a crash is the
state the next run starts from.

A triple states a precondition and what holds at each of the three ends. There is one rule
for each way to compose programs.
-/

/-- How a program ends. -/
inductive Program.Outcome (ε α : Type) where
  | returned (a : α)
  | raised (e : ε)
  | crashed
deriving DecidableEq

/-- A program on states `σ` with exceptions `ε`. -/
def Program (σ ε α : Type) : Type :=
  σ → σ × Program.Outcome ε α

namespace Program

variable {σ ε α β : Type}

def ret (a : α) : Program σ ε α := fun s => (s, .returned a)

def raise (e : ε) : Program σ ε α := fun s => (s, .raised e)

/-- Run `f` on what `m` returns. -/
def andThen (m : Program σ ε α) (f : α → Program σ ε β) : Program σ ε β := fun s =>
  match m s with
  | (s₁, .returned a) => f a s₁
  | (s₁, .raised e) => (s₁, .raised e)
  | (s₁, .crashed) => (s₁, .crashed)

instance : Monad (Program σ ε) where
  pure := ret
  bind := andThen

/-- The state. -/
def get : Program σ ε σ := fun s => (s, .returned s)

def modify (f : σ → σ) : Program σ ε Unit := fun s => (f s, .returned ())

def crash : Program σ ε α := fun s => (s, .crashed)

/-- A computation that does not touch the state. -/
def ofExcept : Except ε α → Program σ ε α
  | .ok a => ret a
  | .error e => raise e

/-- `if c: m`. -/
def when (c : Prop) [Decidable c] (m : Program σ ε Unit) : Program σ ε Unit :=
  if c then m else ret ()

/-- `try: m` with a handler for what is raised. -/
def handle {ε' : Type} (m : Program σ ε α) (h : ε → Program σ ε' α) : Program σ ε' α := fun s =>
  match m s with
  | (s₁, .returned a) => (s₁, .returned a)
  | (s₁, .raised e) => h e s₁
  | (s₁, .crashed) => (s₁, .crashed)

/-- `try: m except Exception: f; raise`. What `f` raises replaces the exception. -/
def cleanup (m : Program σ ε α) (f : Program σ ε Unit) : Program σ ε α :=
  handle m fun e => f >>= fun _ => raise e

/-- `try: m finally: f`. What the finalizer raises replaces the result. -/
def finalize (m : Program σ ε α) (f : Program σ ε Unit) : Program σ ε α := fun s =>
  match m s with
  | (s₁, .crashed) => (s₁, .crashed)
  | (s₁, o) =>
      match f s₁ with
      | (s₂, .returned ()) => (s₂, o)
      | (s₂, .raised e) => (s₂, .raised e)
      | (s₂, .crashed) => (s₂, .crashed)

/-- A program on a part of the state. -/
def zoom {τ : Type} (part : σ → τ) (put : τ → σ → σ) (m : Program τ ε α) : Program σ ε α :=
  fun s => (put (m (part s)).1 s, (m (part s)).2)

/-! ### Running -/

@[simp] theorem ret_apply (a : α) (s : σ) : (ret a : Program σ ε α) s = (s, .returned a) := rfl

@[simp] theorem pure_apply (a : α) (s : σ) :
    (pure a : Program σ ε α) s = (s, .returned a) := rfl

@[simp] theorem get_apply (s : σ) : (get : Program σ ε σ) s = (s, .returned s) := rfl

@[simp] theorem modify_apply (f : σ → σ) (s : σ) :
    (modify f : Program σ ε Unit) s = (f s, .returned ()) := rfl

/-- What follows a program that returns. -/
theorem bind_of_returned {m : Program σ ε α} {f : α → Program σ ε β} {s s₁ : σ} {a : α}
    (h : m s = (s₁, .returned a)) : (m >>= f) s = f a s₁ := by
  change andThen m f s = f a s₁
  rw [andThen, h]

@[simp] theorem ret_bind (a : α) (f : α → Program σ ε β) : ret a >>= f = f a := rfl

@[simp] theorem get_bind_apply (f : σ → Program σ ε β) (s : σ) : (get >>= f) s = f s s := rfl

@[simp] theorem ofExcept_ok (a : α) : (ofExcept (.ok a) : Program σ ε α) = ret a := rfl

theorem when_of {c : Prop} [Decidable c] (h : c) (m : Program σ ε Unit) : when c m = m := if_pos h

theorem when_of_not {c : Prop} [Decidable c] (h : ¬ c) (m : Program σ ε Unit) :
    when c m = ret () := if_neg h

/-- From `P`, the program returns in `Q`, raises in `E` or crashes in `C`. -/
def Triple (P : σ → Prop) (m : Program σ ε α) (Q : α → σ → Prop) (E : ε → σ → Prop)
    (C : σ → Prop) : Prop :=
  ∀ s, P s →
    match m s with
    | (s₁, .returned a) => Q a s₁
    | (s₁, .raised e) => E e s₁
    | (s₁, .crashed) => C s₁

namespace Triple

variable {P P' : σ → Prop} {m : Program σ ε α} {Q Q' : α → σ → Prop} {E E' : ε → σ → Prop}
  {C C' : σ → Prop}

theorem ret {a : α} (h : ∀ s, P s → Q a s) : Triple P (Program.ret a) Q E C := h

theorem pure {a : α} (h : ∀ s, P s → Q a s) : Triple P (Pure.pure a) Q E C := h

theorem raise {e : ε} (h : ∀ s, P s → E e s) : Triple P (Program.raise e) Q E C := h

/-- A single run that returns. -/
theorem of_returned {s s₁ : σ} {a : α} (h : m s = (s₁, .returned a)) :
    Triple (fun t => t = s) m (fun a' t => a' = a ∧ t = s₁) E C := by
  intro t ht
  rw [ht, h]
  exact ⟨rfl, rfl⟩

/-- Every end is weakened, the start is strengthened. -/
theorem conseq (h : Triple P m Q E C) (hP : ∀ s, P' s → P s) (hQ : ∀ a s, Q a s → Q' a s)
    (hE : ∀ e s, E e s → E' e s) (hC : ∀ s, C s → C' s) : Triple P' m Q' E' C' := by
  intro s hs
  have hm := h s (hP s hs)
  split
  · rename_i s₁ a heq
    rw [heq] at hm
    exact hQ _ _ hm
  · rename_i s₁ e heq
    rw [heq] at hm
    exact hE _ _ hm
  · rename_i s₁ heq
    rw [heq] at hm
    exact hC _ hm

theorem pre (h : Triple P m Q E C) (hP : ∀ s, P' s → P s) : Triple P' m Q E C :=
  h.conseq hP (fun _ _ h => h) (fun _ _ h => h) fun _ h => h

theorem post (h : Triple P m Q E C) (hQ : ∀ a s, Q a s → Q' a s) : Triple P m Q' E C :=
  h.conseq (fun _ h => h) hQ (fun _ _ h => h) fun _ h => h

/-- Sequence. -/
theorem bind {f : α → Program σ ε β} {R : α → σ → Prop} {Q : β → σ → Prop}
    (hm : Triple P m R E C) (hf : ∀ a, Triple (R a) (f a) Q E C) : Triple P (m >>= f) Q E C := by
  intro s hs
  have h := hm s hs
  change match andThen m f s with
    | (s₁, .returned a) => Q a s₁
    | (s₁, .raised e) => E e s₁
    | (s₁, .crashed) => C s₁
  unfold andThen
  cases hrun : m s with
  | mk s₁ o =>
      rw [hrun] at h
      cases o with
      | returned a => exact hf a s₁ h
      | raised e => exact h
      | crashed => exact h

theorem get {R : σ → σ → Prop} (h : ∀ s, P s → R s s) : Triple P Program.get R E C := h

theorem modify {f : σ → σ} {R : Unit → σ → Prop} (h : ∀ s, P s → R () (f s)) :
    Triple P (Program.modify f) R E C := h

theorem crash (h : ∀ s, P s → C s) : Triple P Program.crash Q E C := h

theorem ofExcept {x : Except ε α} (hQ : ∀ a, x = .ok a → ∀ s, P s → Q a s)
    (hE : ∀ e, x = .error e → ∀ s, P s → E e s) : Triple P (Program.ofExcept x) Q E C := by
  cases x with
  | ok a => exact hQ a rfl
  | error e => exact hE e rfl

theorem ite {c : Prop} [Decidable c] {m' : Program σ ε α} (hm : c → Triple P m Q E C)
    (hm' : ¬ c → Triple P m' Q E C) : Triple P (if c then m else m') Q E C := by
  split
  · rename_i hc
    exact hm hc
  · rename_i hc
    exact hm' hc

theorem when {c : Prop} [Decidable c] {m : Program σ ε Unit} {R : Unit → σ → Prop}
    (hm : c → Triple P m R E C) (hskip : ¬ c → ∀ s, P s → R () s) :
    Triple P (Program.when c m) R E C :=
  ite hm fun hc => ret (hskip hc)

/-- A fact of the precondition that does not speak about the state. -/
theorem assuming {p : Prop} (h : p → Triple P m Q E C) :
    Triple (fun s => p ∧ P s) m Q E C := by
  intro s hs
  exact h hs.1 s hs.2

/-- A triple at one of its states. -/
theorem at_state (h : Triple P m Q E C) {s : σ} (hs : P s) : Triple (fun t => t = s) m Q E C :=
  h.pre fun _ ht => ht ▸ hs

/-- A program that starts with reading the state. -/
theorem bind_get {f : σ → Program σ ε α} (h : ∀ s, P s → Triple (fun t => t = s) (f s) Q E C) :
    Triple P (Program.get >>= f) Q E C :=
  fun s hs => h s hs s rfl

/-- A handler starts where the exception was raised. -/
theorem handle {ε' : Type} {h : ε → Program σ ε' α} {E' : ε' → σ → Prop}
    (hm : Triple P m Q E C) (hh : ∀ e, Triple (E e) (h e) Q E' C) :
    Triple P (Program.handle m h) Q E' C := by
  intro s hs
  have hrun := hm s hs
  unfold Program.handle
  cases hms : m s with
  | mk s₁ o =>
      rw [hms] at hrun
      cases o with
      | returned a => exact hrun
      | raised e => exact hh e s₁ hrun
      | crashed => exact hrun

/-- A cleanup starts where the exception was raised and ends in the exception. -/
theorem cleanup {f : Program σ ε Unit} {E' : ε → σ → Prop} (hm : Triple P m Q E C)
    (hf : ∀ e, Triple (E e) f (fun _ s => E' e s) E' C) :
    Triple P (Program.cleanup m f) Q E' C :=
  handle hm fun e => bind (hf e) fun _ => raise fun _ h => h

/-- A finalizer keeps both results, unless it raises itself. -/
theorem finalize {f : Program σ ε Unit} (hm : Triple P m Q E C)
    (hQ : ∀ a, Triple (Q a) f (fun _ => Q a) E C)
    (hE : ∀ e, Triple (E e) f (fun _ => E e) E C) : Triple P (Program.finalize m f) Q E C := by
  intro s hs
  have hrun := hm s hs
  unfold Program.finalize
  cases hms : m s with
  | mk s₁ o =>
      rw [hms] at hrun
      cases o with
      | crashed => exact hrun
      | returned a =>
          have hf := hQ a s₁ hrun
          cases hfs : f s₁ with
          | mk s₂ o₂ =>
              rw [hfs] at hf
              simp only [hfs]
              cases o₂ with
              | returned u => exact hf
              | raised e => exact hf
              | crashed => exact hf
      | raised e =>
          have hf := hE e s₁ hrun
          cases hfs : f s₁ with
          | mk s₂ o₂ =>
              rw [hfs] at hf
              simp only [hfs]
              cases o₂ with
              | returned u => exact hf
              | raised e' => exact hf
              | crashed => exact hf

/-- Two triples of one program. -/
theorem conj {P' : σ → Prop} {Q' : α → σ → Prop} {E' : ε → σ → Prop} {C' : σ → Prop}
    (h : Triple P m Q E C) (h' : Triple P' m Q' E' C') :
    Triple (fun s => P s ∧ P' s) m (fun a s => Q a s ∧ Q' a s) (fun e s => E e s ∧ E' e s)
      (fun s => C s ∧ C' s) := by
  intro s hs
  have h₁ := h s hs.1
  have h₂ := h' s hs.2
  cases hms : m s with
  | mk s₁ o =>
      rw [hms] at h₁ h₂
      cases o with
      | returned a => exact ⟨h₁, h₂⟩
      | raised e => exact ⟨h₁, h₂⟩
      | crashed => exact ⟨h₁, h₂⟩

/-- What holds at every end holds afterwards. -/
theorem always {I : σ → Prop} (h : Triple P m (fun _ => I) (fun _ => I) I) {s : σ} (hs : P s) :
    I (m s).1 := by
  have hrun := h s hs
  cases hms : m s with
  | mk s₁ o =>
      rw [hms] at hrun
      cases o with
      | returned a => exact hrun
      | raised e => exact hrun
      | crashed => exact hrun

end Triple

/-! ### Invariants -/

/-- What holds at the start holds at every end. -/
def Keeps (I : σ → Prop) (m : Program σ ε α) : Prop :=
  Triple I m (fun _ => I) (fun _ => I) I

namespace Keeps

variable {I : σ → Prop} {m : Program σ ε α}

theorem run (h : Keeps I m) {s : σ} (hs : I s) : I (m s).1 := Triple.always h hs

theorem ret {a : α} : Keeps I (Program.ret a : Program σ ε α) := Triple.ret fun _ h => h

theorem pure {a : α} : Keeps I (Pure.pure a : Program σ ε α) := Triple.pure fun _ h => h

theorem raise {e : ε} : Keeps I (Program.raise e : Program σ ε α) := Triple.raise fun _ h => h

theorem crash : Keeps I (Program.crash : Program σ ε α) := Triple.crash fun _ h => h

theorem get : Keeps I (Program.get : Program σ ε σ) := Triple.get fun _ h => h

theorem ofExcept {x : Except ε α} : Keeps I (Program.ofExcept x) :=
  Triple.ofExcept (fun _ _ _ h => h) fun _ _ _ h => h

theorem modify {f : σ → σ} (h : ∀ s, I s → I (f s)) :
    Keeps I (Program.modify f : Program σ ε Unit) := Triple.modify h

theorem bind {f : α → Program σ ε β} (hm : Keeps I m) (hf : ∀ a, Keeps I (f a)) :
    Keeps I (m >>= f) := Triple.bind hm hf

theorem ite {c : Prop} [Decidable c] {m' : Program σ ε α} (hm : Keeps I m) (hm' : Keeps I m') :
    Keeps I (if c then m else m') := Triple.ite (fun _ => hm) fun _ => hm'

theorem when {c : Prop} [Decidable c] {m : Program σ ε Unit} (hm : Keeps I m) :
    Keeps I (Program.when c m) := ite hm ret

theorem handle {ε' : Type} {h : ε → Program σ ε' α} (hm : Keeps I m) (hh : ∀ e, Keeps I (h e)) :
    Keeps I (Program.handle m h) := Triple.handle hm hh

theorem cleanup {f : Program σ ε Unit} (hm : Keeps I m) (hf : Keeps I f) :
    Keeps I (Program.cleanup m f) := handle hm fun _ => bind hf fun _ => raise

/-- What does not depend on the part holds whatever becomes of it. -/
theorem zoom {τ : Type} {part : σ → τ} {put : τ → σ → σ} {m : Program τ ε α}
    (h : ∀ t s, I s → I (put t s)) : Keeps I (Program.zoom part put m) := by
  intro s hs
  cases hm : m (part s) with
  | mk t o =>
      simp only [Program.zoom, hm]
      cases o with
      | returned a => exact h t s hs
      | raised e => exact h t s hs
      | crashed => exact h t s hs

end Keeps

/-! ### Results -/

/-- From `P`, what the program returns is in `Q`. Nothing is said about the other two ends. -/
def Yields (P : σ → Prop) (m : Program σ ε α) (Q : α → σ → Prop) : Prop :=
  ∀ s, P s → ∀ s₁ a, m s = (s₁, .returned a) → Q a s₁

namespace Yields

variable {P P' : σ → Prop} {m : Program σ ε α} {Q Q' : α → σ → Prop}

theorem ret {a : α} (h : ∀ s, P s → Q a s) : Yields P (Program.ret a : Program σ ε α) Q := by
  intro s hs s₁ a' hrun
  cases hrun
  exact h s hs

theorem pure {a : α} (h : ∀ s, P s → Q a s) : Yields P (Pure.pure a : Program σ ε α) Q := ret h

theorem raise {e : ε} : Yields P (Program.raise e : Program σ ε α) Q := by
  intro s _ s₁ a hrun
  cases hrun

/-- A triple says what is returned. -/
theorem of_triple {E : ε → σ → Prop} {C : σ → Prop} (h : Triple P m Q E C) : Yields P m Q := by
  intro s hs s₁ a hrun
  have hm := h s hs
  rw [hrun] at hm
  exact hm

theorem pre (h : Yields P m Q) (hP : ∀ s, P' s → P s) : Yields P' m Q :=
  fun s hs => h s (hP s hs)

theorem post (h : Yields P m Q) (hQ : ∀ a s, Q a s → Q' a s) : Yields P m Q' :=
  fun s hs s₁ a hrun => hQ a s₁ (h s hs s₁ a hrun)

theorem bind {f : α → Program σ ε β} {R : α → σ → Prop} {Q : β → σ → Prop} (hm : Yields P m R)
    (hf : ∀ a, Yields (R a) (f a) Q) : Yields P (m >>= f) Q := by
  intro s hs s₂ b hrun
  change andThen m f s = (s₂, .returned b) at hrun
  unfold andThen at hrun
  cases hms : m s with
  | mk s₁ o =>
      rw [hms] at hrun
      cases o with
      | returned a => exact hf a s₁ (hm s hs s₁ a hms) s₂ b hrun
      | raised e => cases hrun
      | crashed => cases hrun

theorem bind_get {f : σ → Program σ ε α} (h : ∀ s, P s → Yields (fun t => t = s) (f s) Q) :
    Yields P (Program.get >>= f) Q :=
  fun s hs => h s hs s rfl

theorem modify {f : σ → σ} {R : Unit → σ → Prop} (h : ∀ s, P s → R () (f s)) :
    Yields P (Program.modify f : Program σ ε Unit) R := by
  intro s hs s₁ a hrun
  cases hrun
  exact h s hs

theorem ofExcept {x : Except ε α} (h : ∀ a, x = .ok a → ∀ s, P s → Q a s) :
    Yields P (Program.ofExcept x) Q := by
  cases x with
  | ok a => exact ret (h a rfl)
  | error e => exact raise

theorem ite {c : Prop} [Decidable c] {m' : Program σ ε α} (hm : c → Yields P m Q)
    (hm' : ¬ c → Yields P m' Q) : Yields P (if c then m else m') Q := by
  split
  · rename_i hc
    exact hm hc
  · rename_i hc
    exact hm' hc

theorem zoom {τ : Type} {part : σ → τ} {put : τ → σ → σ} {m : Program τ ε α}
    (h : ∀ s, P s → ∀ t a, m (part s) = (t, .returned a) → Q a (put t s)) :
    Yields P (Program.zoom part put m) Q := by
  intro s hs s₁ a hrun
  unfold Program.zoom at hrun
  cases hm : m (part s) with
  | mk t o =>
      rw [hm] at hrun
      cases hrun
      exact h s hs t a hm

/-- A fact of the precondition that does not speak about the state. -/
theorem assuming {p : Prop} (h : p → Yields P m Q) : Yields (fun s => p ∧ P s) m Q :=
  fun s hs => h hs.1 s hs.2

/-- What is returned through a translation of exceptions was returned by the program. -/
theorem handle_raise {ε' : Type} {g : ε → ε'} (hm : Yields P m Q) :
    Yields P (Program.handle m fun e => Program.raise (g e)) Q := by
  intro s hs s₁ a hrun
  unfold Program.handle at hrun
  cases hms : m s with
  | mk s' o =>
      rw [hms] at hrun
      cases o with
      | returned a' =>
          cases hrun
          exact hm s hs s₁ a hms
      | raised e => cases hrun
      | crashed => cases hrun

/-- What is returned through a cleanup was returned by the program. -/
theorem cleanup {f : Program σ ε Unit} (hm : Yields P m Q) :
    Yields P (Program.cleanup m f) Q := by
  intro s hs s₁ a hrun
  unfold Program.cleanup Program.handle at hrun
  cases hms : m s with
  | mk s' o =>
      rw [hms] at hrun
      cases o with
      | returned a' =>
          cases hrun
          exact hm s hs s₁ a hms
      | raised e =>
          have hraise : Yields (fun _ => True) (f >>= fun _ => Program.raise e) Q :=
            bind (R := fun _ _ => True) (fun _ _ _ _ _ => trivial) fun _ => raise
          exact hraise s' trivial s₁ a hrun
      | crashed => cases hrun

end Yields

end Program
