import Ophelia.Lib.Program

/-!
# Ophelia.Lib.ProgramLoops

Loops in programs that may raise and may crash. A round of the loop goes on with a new value or
ends it with a result. The number of rounds is bounded: a loop that is cut off at the bound
crashes, so a rule speaks about the runs that stay within it.
-/

namespace Program

variable {σ ε α β : Type}

/-- At most so many rounds. -/
def iterate (body : α → Program σ ε (α ⊕ β)) : Nat → α → Program σ ε β
  | 0, _ => crash
  | rounds + 1, a => body a >>= fun next =>
      match next with
      | .inl a' => iterate body rounds a'
      | .inr b => ret b

/-- What each round keeps for the value it goes on with holds at the end of the loop. -/
theorem Triple.iterate {body : α → Program σ ε (α ⊕ β)} {I : α → σ → Prop} {Q : β → σ → Prop}
    {E : ε → σ → Prop} {C : σ → Prop} (hcut : ∀ a s, I a s → C s)
    (hbody : ∀ a, Triple (I a) (body a)
      (fun next s => match next with
        | .inl a' => I a' s
        | .inr b => Q b s) E C) (rounds : Nat) (a : α) :
    Triple (I a) (Program.iterate body rounds a) Q E C := by
  induction rounds generalizing a with
  | zero => exact crash (hcut a)
  | succ rounds ih =>
      refine (hbody a).bind fun next => ?_
      cases next with
      | inl a' => exact ih a'
      | inr b => exact ret fun _ h => h

/-- A finalizer that is run at both ends and whose result is used: `try: m` with the exception
as a value. -/
def attempt (m : Program σ ε Unit) : Program σ ε (Option ε) :=
  handle (m >>= fun _ => ret none) fun e => ret (some e)

theorem Triple.attempt {m : Program σ ε Unit} {P : σ → Prop} {Q : Unit → σ → Prop}
    {E E' : ε → σ → Prop} {C : σ → Prop} (hm : Triple P m Q E C) :
    Triple P (Program.attempt m)
      (fun result s => match result with
        | none => Q () s
        | some e => E e s) E' C :=
  Triple.handle (hm.bind fun _ => ret fun _ h => h) fun _ => ret fun _ h => h

end Program
