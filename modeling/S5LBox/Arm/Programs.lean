import S5LBox.Lib.StateProgram
import S5LBox.Arm.Bus

/-!
# Running programs over the core and its bus

The equations that run the primitives of `Exec`. Each primitive has one in front of a
continuation, so that what it reads is substituted in the rest of the program.

## Main results

* `run_getCpu`, `run_modifyCpu`, `run_onCpu`, `run_busCall`.
-/

namespace S5LBox

namespace Exec

open StateProgram

variable {σ α β : Type} (s : Sys σ)

@[simp]
theorem run_getCpu (f : ArmCpu → Exec σ α) : (getCpu >>= f) s = f s.cpu s := rfl

@[simp]
theorem run_modifyCpu (g : ArmCpu → ArmCpu) (f : Unit → Exec σ α) :
    (modifyCpu g >>= f) s = f () { s with cpu := g s.cpu } := rfl

@[simp]
theorem run_onCpu (g : ArmCpu → β × ArmCpu) (f : β → Exec σ α) :
    (onCpu g >>= f) s = f (g s.cpu).1 { s with cpu := (g s.cpu).2 } := rfl

@[simp]
theorem run_busCall (g : σ → β × σ) (f : β → Exec σ α) :
    (busCall g >>= f) s =
      f (g s.bus).1 { s with bus := (g s.bus).2, era := (g s.bus).2 :: s.era } := rfl

@[simp]
theorem run_guarded (p : Prop) [Decidable p] (m : Exec σ Unit) :
    guarded p m s = if p then m s else ((), s) := by
  simp only [guarded, run_ite, run_pure]

@[simp]
theorem run_guarded_bind (p : Prop) [Decidable p] (m : Exec σ Unit) (f : Unit → Exec σ α) :
    (guarded p m >>= f) s = f () (guarded p m s).2 := rfl

@[simp]
theorem modifyCpu_apply (g : ArmCpu → ArmCpu) :
    (modifyCpu g : Exec σ Unit) s = ((), { s with cpu := g s.cpu }) := rfl

end Exec

end S5LBox
