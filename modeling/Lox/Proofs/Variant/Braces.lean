import Lox.Proofs.Syntax.Braces
import Lox.Proofs.Syntax.LoopTests
import Lox.Proofs.Variant.Replacement

/-!
# Braces and tests in variants

A statement that declares nothing has its block as a variant, and a loop has the one
that makes its test in its body.
-/

namespace Lox

/-- A formed statement that is no declaration declares nothing from inside branches
and loops either. -/
theorem Stmt.declares_eq_nil {good : Token → Prop} : (s : Stmt) → s.Formed good →
    s.declared? = none → s.declares = []
  | .branch _ thenBranch none, h, _ => thenBranch.declares_eq_nil h.2.1 h.2.2
  | .branch _ thenBranch (some elseBranch), h, _ =>
    List.append_eq_nil_iff.2 ⟨thenBranch.declares_eq_nil h.2.1.1 h.2.1.2,
      elseBranch.declares_eq_nil h.2.2.1 h.2.2.2⟩
  | .loop _ body, h, _ => body.declares_eq_nil h.2.1 h.2.2
  | .expression _, _, _ | .print _, _, _ | .block _, _, _ | .leave _, _, _
  | .giveBack _ _, _, _ => rfl
termination_by structural s => s

theorem Variant.replaces_braced {r : Variant} (hpace : r.pace ≠ .same) (good : Token → Prop) :
    r.written.Replaces good Stmt.Braced fun _ _ => False where
  keeps := keeps_plain
  statement := by
    rintro s _ ⟨hplain⟩ hformed -
    have hkept : ∀ distance, Nest.plain.pad.renamed distance = false := fun _ => rfl
    exact .braced hpace (s.varies_self keeps_written hkept
      (.inl (s.declares_eq_nil hformed hplain)) fun _ _ => trivial)
  function := nofun

theorem Variant.replaces_tested {r : Variant} (hpace : r.pace.PaysTests) (good : Token → Prop) :
    r.written.Replaces good Stmt.TestsInside fun _ _ => False where
  keeps := keeps_plain
  statement := by
    rintro _ _ ⟨condition, body, hoperator, -⟩ hformed -
    have hkept : ∀ distance, Nest.plain.pad.renamed distance = false := fun _ => rfl
    have hnone := Stmt.declares_eq_nil _ hformed rfl
    exact .tested _ _ hpace hoperator
      (Stmt.varies_self keeps_written _ hkept (.inl hnone) fun _ _ => trivial)
  function := nofun

end Lox
