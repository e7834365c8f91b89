import Docich.Durable.Locks

/-!
# Calls that tell who makes them

- `LockProgram.label`: a program whose calls carry a label, and `World.asked`: what a world does to the calls of one
  label; `ensures_label` brings the two together.
-/

namespace Durable.Locks

variable {L Q D E K α : Type} {A : Q → Type}

/-- The calls of a program, with the label `k`. -/
def LockProgram.label (k : K) : LockProgram L Q A E α → LockProgram L (K × Q) (fun r => A r.2) E α
  | .ret a => .ret a
  | .raise e => .raise e
  | .ask (.acquire l) f => .ask (.acquire l) fun x => label k (f x)
  | .ask (.release l) f => .ask (.release l) fun x => label k (f x)
  | .ask (.call q) f => .ask (.call (k, q)) fun x => label k (f x)

/-- The world that the calls with the label `k` meet. -/
def World.asked (W : World L (K × Q) (fun r => A r.2) D) (k : K) : World L Q A D where
  perform := fun q => W.perform (k, q)
  tried := W.tried

/-- A labelled program ensures what the program does in the world of its label. -/
theorem ensures_label [DecidableEq L] {W : World L (K × Q) (fun r => A r.2) D} {G : Contract L D} {k : K}
    {x : LockProgram L Q A E α} {h : Held L} {d : D} {R : Except E α → Held L → D → Prop} :
    Ensures W G (x.label k) h d R ↔ Ensures (W.asked k) G x h d R := by
  induction x generalizing h d with
  | ret a => exact Iff.rfl
  | raise e => exact Iff.rfl
  | ask q f ih =>
    cases q with
    | acquire l =>
      exact and_congr Iff.rfl (and_congr (imp_congr_right fun _ => ih _) (forall_congr' fun d₁ =>
        imp_congr_right fun _ => imp_congr_right fun _ => ih _))
    | release l => exact ih _
    | call q =>
      exact forall_congr' fun d₁ => imp_congr_right fun _ => imp_congr_right fun _ => forall_congr' fun y =>
        forall_congr' fun d' => imp_congr_right fun _ => and_congr Iff.rfl (ih y)

end Durable.Locks
