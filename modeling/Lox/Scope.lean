import Std.Data.TreeMap

/-!
# Scopes

The names that a block, a function or a class body declares, and how far an
occurrence of a name is from the scope that declares it.  Distances count the
scopes in between, so at run time the value lies that many frames further out.
-/

namespace Lox

/-- The names declared in one scope, each with whether its declaration is
complete; that of a variable is not until its initializer has been passed. -/
abbrev Scope := Std.TreeMap String Bool

namespace Scope

/-- The number of scopes inside the innermost one that declares the name.  The
scopes are listed from the inside out; global names are in none of them. -/
def distance? (name : String) : List Scope → Option Nat
  | [] => none
  | scope :: outer => if scope.contains name then some 0 else (distance? name outer).map (· + 1)

end Scope

/-- The distance of every numbered occurrence of a name that is not global. -/
abbrev Distances := Std.TreeMap Nat Nat

end Lox
