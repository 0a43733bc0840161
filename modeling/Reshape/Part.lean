/-!
# Actions on a part of a state

An action that keeps its state also when it fails can be carried out on a part of a larger
state; the rest stays as it is, and what the action did to its part before a failure is kept.
-/

namespace Reshape

/-- Carries out an action on the part of the state that `part` shows and `put` replaces. -/
def onPart {ε σ τ α : Type} (part : σ → τ) (put : σ → τ → σ) (action : EStateM ε τ α) :
    EStateM ε σ α := fun s =>
  match action (part s) with
  | .ok a t => .ok a (put s t)
  | .error e t => .error e (put s t)

end Reshape
