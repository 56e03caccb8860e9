import Lox.Proofs.Sequencing

/-!
# Computations side by side

Two computations run in parallel if from related states both succeed, with
related results, or both stop, for related reasons, and end in related states
either way.  What is shown of the parts of two sequences holds of the sequences.
-/

namespace Lox

variable {ε ε' σ σ' α α' β β' : Type}

/-- Two computations have ended in the same way. -/
inductive Ends (states : σ → σ' → Prop) (halts : ε → ε' → Prop) (results : α → α' → Prop) :
    EStateM.Result ε σ α → EStateM.Result ε' σ' α' → Prop where
  | ok {result : α} {result' : α'} {after : σ} {after' : σ'}
    (hresult : results result result') (hstates : states after after') :
    Ends states halts results (.ok result after) (.ok result' after')
  | error {halt : ε} {halt' : ε'} {after : σ} {after' : σ'} (hhalt : halts halt halt')
    (hstates : states after after') :
    Ends states halts results (.error halt after) (.error halt' after')

/-- From related states both computations end in the same way. -/
def Parallel (states : σ → σ' → Prop) (halts : ε → ε' → Prop) (results : α → α' → Prop)
    (left : EStateM ε σ α) (right : EStateM ε' σ' α') : Prop :=
  ∀ before before', states before before' →
    Ends states halts results (left before) (right before')

variable {states : σ → σ' → Prop} {halts : ε → ε' → Prop} {results : α → α' → Prop}
variable {further : β → β' → Prop} {left : EStateM ε σ α} {right : EStateM ε' σ' α'}

namespace Parallel

theorem pure {result : α} {result' : α'} (h : results result result') :
    Parallel states halts results (pure result : EStateM ε σ α)
      (pure result' : EStateM ε' σ' α') :=
  fun _ _ hstates => .ok h hstates

theorem throw {halt : ε} {halt' : ε'} (h : halts halt halt') :
    Parallel states halts results (throw halt : EStateM ε σ α)
      (throw halt' : EStateM ε' σ' α') :=
  fun _ _ hstates => .error h hstates

theorem bind {rest : α → EStateM ε σ β} {rest' : α' → EStateM ε' σ' β'}
    (hpart : Parallel states halts results left right)
    (hrest : ∀ result result', results result result' →
      Parallel states halts further (rest result) (rest' result')) :
    Parallel states halts further (left >>= rest) (right >>= rest') := by
  intro before before' hstates
  have hfirst := hpart before before' hstates
  generalize hleft : left before = first at hfirst
  generalize hright : right before' = first' at hfirst
  cases hfirst with
  | ok hresult hafter =>
      rw [bind_of_ok hleft, bind_of_ok hright]
      exact hrest _ _ hresult _ _ hafter
  | error hhalt hafter =>
      rw [bind_of_error hleft, bind_of_error hright]
      exact .error hhalt hafter

theorem map {f : α → β} {f' : α' → β'} (h : Parallel states halts results left right)
    (himp : ∀ result result', results result result' → further (f result) (f' result')) :
    Parallel states halts further (f <$> left) (f' <$> right) := by
  rw [map_eq_pure_bind, map_eq_pure_bind]
  apply h.bind
  intro result result' hresult
  exact pure (himp result result' hresult)

end Parallel

end Lox
