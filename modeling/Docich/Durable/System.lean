import Docich.Durable.Program

/-!
# Programs that may take one lock

`Req`, `LockProgram`: the requests of a process that shares data under one lock: take the lock, give it back, ask
whether it is held, or a call.
-/

namespace Durable

/-- What a process asks for: the lock (with the purpose it is taken for), its release, its state, or a call. -/
inductive Req (C Q : Type) : Type where
  | acquire (c : C)
  | release
  | held
  | call (q : Q)

/-- The answers: a lock request may be refused, a call answers what the call answers. -/
abbrev Req.Answer {C Q : Type} (A : Q → Type) : Req C Q → Type
  | .acquire _ => Bool
  | .release => Unit
  | .held => Bool
  | .call q => A q

/-- A program of a process that may take the lock. -/
abbrev LockProgram (C Q : Type) (A : Q → Type) (E α : Type) : Type := Program (Req C Q) (Req.Answer A) E α

end Durable
