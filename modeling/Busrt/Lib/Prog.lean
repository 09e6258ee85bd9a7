/-
# Programs that ask an environment

A program over a set of operations either returns or does an operation and goes
on with the answer it gets. What the operations do is not part of the program:
they are answered by the system it runs in.

`Follows` checks a program against an automaton over its operations: in each
state of the automaton the program only does operations that are allowed
there, whatever the answers were, and returns only where it may. It composes
over `>>=`, also where errors are thrown (`Follows.bind`, `Follows.except`).

Key definitions: `Prog`, `Phases`, `Follows`.
Key theorems: `Follows.bind`, `Follows.except`.
-/
import Mathlib.Tactic

namespace Busrt
namespace Lib

/-- A program with the operations `Op`, each with its type of answers. -/
inductive Prog {Op : Type} (Ans : Op → Type) (α : Type)
  | ret (a : α)
  | op (o : Op) (next : Ans o → Prog Ans α)

namespace Prog

variable {Op : Type} {Ans : Op → Type} {α β ε : Type}

/-- One program after the other. -/
def bind : Prog Ans α → (α → Prog Ans β) → Prog Ans β
  | .ret a, f => f a
  | .op o next, f => .op o fun r => (next r).bind f

instance : Monad (Prog Ans) where
  pure := .ret
  bind := bind

/-- An automaton over operations and their answers. -/
structure Phases (Ans : Op → Type) (Q : Type) where
  allowed : Q → Op → Prop
  next : Q → (o : Op) → Ans o → Q

variable {Q : Type} {A : Phases Ans Q} {q : Q}

/-- From the state `q` on the program does only what is allowed, and returns only
with `fin`. -/
def Follows (A : Phases Ans Q) (fin : Q → α → Prop) : Q → Prog Ans α → Prop
  | q, .ret a => fin q a
  | q, .op o next => A.allowed q o ∧ ∀ r, Follows A fin (A.next q o r) (next r)

theorem Follows.mono {fin fin' : Q → α → Prop} (hf : ∀ q a, fin q a → fin' q a) :
    ∀ {p : Prog Ans α} {q : Q}, Follows A fin q p → Follows A fin' q p
  | .ret _, _, h => hf _ _ h
  | .op _ _, _, h => ⟨h.1, fun r => Follows.mono hf (h.2 r)⟩

theorem Follows.bind {fin : Q → β → Prop} {f : α → Prog Ans β} :
    ∀ {p : Prog Ans α} {q : Q}, Follows A (fun q a => Follows A fin q (f a)) q p →
      Follows A fin q (p.bind f)
  | .ret _, _, h => h
  | .op _ _, _, h => ⟨h.1, fun r => Follows.bind (h.2 r)⟩

/-- A program that may throw, and what comes after it. -/
theorem Follows.except {fin : Q → Except ε β → Prop} {x : ExceptT ε (Prog Ans) α}
    {f : α → ExceptT ε (Prog Ans) β}
    (h : Follows A (fun q r => match r with
      | .ok a => Follows A fin q (f a).run
      | .error e => fin q (.error e)) q x.run) : Follows A fin q (x >>= f).run := by
  refine Follows.bind (h.mono fun q r hr => ?_)
  cases r with
  | ok a => exact hr
  | error e => exact hr

end Prog

end Lib
end Busrt
