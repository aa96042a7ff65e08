import Beep.Controller.Apply

/-!
# `Controller.Correctness.FailedSweep` — a tick whose sweep fails, and the next one

A failed sweep holds back what names a swept pod and nothing else (`planTick_failed`). What is still to be swept is
remembered in three places: a backend that left and one under a new uid in `known`, which keeps its entry, and a row no
longer desired in the map itself, which keeps its row. The next tick finds all of them again (`resweep`), and if its
sweep goes through it asks for everything (`planTick_swept`).
-/

namespace Beep

variable {desired : DesiredEntries} {installed rows : List (Bytes 16)} {known : Table (Bytes 16) (Option String)}
  {orphans orphans' : Option (Finset (Bytes 16))} {evict : Finset (Bytes 16) → Bool} {x : Bytes 16}

/-- The rows of `POD_TARGETS` once a plan is carried out. -/
def TickPlan.Leaves (plan : TickPlan) (installed rows : List (Bytes 16)) : Prop :=
  ∀ x, x ∈ rows ↔ (x ∈ installed ∧ x ∉ plan.deleteRows) ∨ x ∈ plan.podTargets

/-- A pod's address. -/
def podAt (b : UInt8) : Bytes 16 := Vector.replicate 16 b

end Beep
