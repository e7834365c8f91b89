import Mathlib.Logic.Relation

/-!
# Programs that ask their surroundings

- `Program Q A E α`: a computation that answers a value, raises, or asks one request and goes on with the answer;
- `Program.attempt`: run a body and hand over how it ended (`try … except`).

The requests `Q` and the type `A q` of the answers to a request are parameters. Nothing here says what a request
does: that is the business of a `World`.
-/

namespace Durable

/-- A computation over the requests `Q`: a value, an exception, or a request with what follows its answer. -/
inductive Program (Q : Type) (A : Q → Type) (E α : Type) : Type where
  | ret (a : α)
  | raise (e : E)
  | ask (q : Q) (k : A q → Program Q A E α)

namespace Program

variable {Q : Type} {A : Q → Type} {E α β γ : Type}

/-- Sequencing: an exception skips what follows. -/
protected def bind : Program Q A E α → (α → Program Q A E β) → Program Q A E β
  | ret a, f => f a
  | raise e, _ => raise e
  | ask q k, f => ask q fun x => (k x).bind f

instance : Monad (Program Q A E) where
  pure := ret
  bind := Program.bind

/-- Run the body and hand over its value or its exception. -/
def attempt : Program Q A E α → Program Q A E (Except E α)
  | ret a => ret (.ok a)
  | raise e => ret (.error e)
  | ask q k => ask q fun x => (k x).attempt

/-- Go on with a value, or raise. -/
def ofExcept : Except E α → Program Q A E α
  | .ok a => ret a
  | .error e => raise e

instance : MonadExceptOf E (Program Q A E) where
  throw := raise
  tryCatch p h := p.attempt >>= fun
    | .ok a => ret a
    | .error e => h e

@[simp] theorem ret_bind (a : α) (f : α → Program Q A E β) : (ret a >>= f) = f a := rfl

@[simp] theorem pure_eq (a : α) : (pure a : Program Q A E α) = ret a := rfl

@[simp] theorem throw_eq (e : E) : (throw e : Program Q A E α) = raise e := rfl

@[simp] theorem raise_bind (e : E) (f : α → Program Q A E β) : (raise e >>= f) = raise e := rfl

@[simp] theorem ask_bind (q : Q) (k : A q → Program Q A E α) (f : α → Program Q A E β) :
    (ask q k >>= f) = ask q fun x => k x >>= f := rfl

end Program

end Durable
