import Lox.Syntax.Parser

/-!
# Occurrences and form of syntax trees

The numbers of the name occurrences in a tree, in the order in which scope
analysis meets them, and the form in which trees are read: every operator is
one of the grammar's, only identifiers name things, and a declaration is never
the branch of a condition or the body of a loop.
-/

namespace Lox

/-- The operators of the levels that evaluate both operands. -/
def Level.strict : List Symbol :=
  (Level.all.filter (!·.isLogical)).flatMap Level.operators

/-- The operators of the levels that may leave their right operand out. -/
def Level.lazy : List Symbol :=
  (Level.all.filter (·.isLogical)).flatMap Level.operators

/-- The operators in front of an operand. -/
def Parser.negations : List Symbol :=
  [.bang, .minus]

theorem Level.isAny_flatMap {level : Level} {levels : List Level} {operator : Token}
    (hlevel : level ∈ levels) (hany : operator.isAny level.operators) :
    operator.isAny (levels.flatMap Level.operators) := by
  obtain ⟨symbol, hsymbol, his⟩ := List.any_eq_true.1 hany
  exact List.any_eq_true.2 ⟨symbol, List.mem_flatMap.2 ⟨level, hlevel, hsymbol⟩, his⟩

mutual

/-- The numbers of the name occurrences in an expression. -/
def Expr.ids : Expr → List Nat
  | .literal _ => []
  | .grouping inner => inner.ids
  | .unary _ operand => operand.ids
  | .binary left _ right => left.ids ++ right.ids
  | .logical left _ right => left.ids ++ right.ids
  | .reference id _ => [id]
  | .assign id _ value => value.ids ++ [id]
  | .receiver id _ => [id]
  | .get object _ => object.ids
  | .set object _ value => value.ids ++ object.ids
  | .call callee _ arguments => callee.ids ++ Expr.idsAll arguments
  | .list _ elements => Expr.idsAll elements
termination_by structural e => e

def Expr.idsAll : List Expr → List Nat
  | [] => []
  | e :: es => e.ids ++ Expr.idsAll es
termination_by structural es => es

end

mutual

def Stmt.ids : Stmt → List Nat
  | .expression value => value.ids
  | .print value => value.ids
  | .declare _ none => []
  | .declare _ (some initializer) => initializer.ids
  | .block body => Stmt.idsAll body
  | .branch condition thenBranch none => condition.ids ++ thenBranch.ids
  | .branch condition thenBranch (some elseBranch) =>
    condition.ids ++ thenBranch.ids ++ elseBranch.ids
  | .loop condition body => condition.ids ++ body.ids
  | .leave _ => []
  | .function declaration => declaration.ids
  | .giveBack _ none => []
  | .giveBack _ (some value) => value.ids
  | .classDecl _ methods => FunctionDecl.idsAll methods
termination_by structural s => s

def Stmt.idsAll : List Stmt → List Nat
  | [] => []
  | s :: ss => s.ids ++ Stmt.idsAll ss
termination_by structural ss => ss

def FunctionDecl.ids : FunctionDecl → List Nat
  | .mk _ _ body => Stmt.idsAll body
termination_by structural declaration => declaration

def FunctionDecl.idsAll : List FunctionDecl → List Nat
  | [] => []
  | d :: ds => d.ids ++ FunctionDecl.idsAll ds
termination_by structural ds => ds

end

/-- The name that a statement declares in the scope it stands in. -/
def Stmt.declared? : Stmt → Option Token
  | .declare name _ => some name
  | .function declaration => some declaration.name
  | .classDecl name _ => some name
  | _ => none

/-- The token is a name, read from tokens that satisfy `spelled`. -/
abbrev Token.Names (spelled : Token → Prop) (token : Token) : Prop :=
  spelled token ∧ token.is .identifier

mutual

/-- Every operator is one of the grammar's, names are names, and a receiver is
the word for it. -/
def Expr.Formed (spelled : Token → Prop) : Expr → Prop
  | .literal _ => True
  | .grouping inner => inner.Formed spelled
  | .unary operator operand => operator.isAny Parser.negations ∧ operand.Formed spelled
  | .binary left operator right =>
    operator.isAny Level.strict ∧ left.Formed spelled ∧ right.Formed spelled
  | .logical left _ right => left.Formed spelled ∧ right.Formed spelled
  | .reference _ name => name.Names spelled
  | .assign _ name value => name.Names spelled ∧ value.Formed spelled
  | .receiver _ keyword => spelled keyword ∧ keyword.is .thisWord
  | .get object name => object.Formed spelled ∧ name.Names spelled
  | .set object name value => object.Formed spelled ∧ name.Names spelled ∧ value.Formed spelled
  | .call callee _ arguments => callee.Formed spelled ∧ Expr.FormedAll spelled arguments
  | .list _ elements => Expr.FormedAll spelled elements
termination_by structural e => e

def Expr.FormedAll (spelled : Token → Prop) : List Expr → Prop
  | [] => True
  | e :: es => e.Formed spelled ∧ Expr.FormedAll spelled es
termination_by structural es => es

end

mutual

/-- Its expressions are formed, what it declares are names, and branches and
bodies of loops are not declarations. -/
def Stmt.Formed (spelled : Token → Prop) : Stmt → Prop
  | .expression value => value.Formed spelled
  | .print value => value.Formed spelled
  | .declare name none => name.Names spelled
  | .declare name (some initializer) => name.Names spelled ∧ initializer.Formed spelled
  | .block body => Stmt.FormedAll spelled body
  | .branch condition thenBranch none =>
    condition.Formed spelled ∧ thenBranch.Formed spelled ∧ thenBranch.declared? = none
  | .branch condition thenBranch (some elseBranch) =>
    condition.Formed spelled ∧ (thenBranch.Formed spelled ∧ thenBranch.declared? = none) ∧
      elseBranch.Formed spelled ∧ elseBranch.declared? = none
  | .loop condition body =>
    condition.Formed spelled ∧ body.Formed spelled ∧ body.declared? = none
  | .leave _ => True
  | .function declaration => declaration.Formed spelled
  | .giveBack _ none => True
  | .giveBack _ (some value) => value.Formed spelled
  | .classDecl name methods => name.Names spelled ∧ FunctionDecl.FormedAll spelled methods
termination_by structural s => s

def Stmt.FormedAll (spelled : Token → Prop) : List Stmt → Prop
  | [] => True
  | s :: ss => s.Formed spelled ∧ Stmt.FormedAll spelled ss
termination_by structural ss => ss

def FunctionDecl.Formed (spelled : Token → Prop) : FunctionDecl → Prop
  | .mk name parameters body =>
    name.Names spelled ∧ (∀ parameter ∈ parameters, parameter.Names spelled) ∧
      Stmt.FormedAll spelled body
termination_by structural declaration => declaration

def FunctionDecl.FormedAll (spelled : Token → Prop) : List FunctionDecl → Prop
  | [] => True
  | d :: ds => d.Formed spelled ∧ FunctionDecl.FormedAll spelled ds
termination_by structural ds => ds

end

section Both

variable {good good' : Token → Prop}

theorem Token.Names.both {token : Token} (h : token.Names good) (h' : token.Names good') :
    token.Names fun token => good token ∧ good' token :=
  ⟨⟨h.1, h'.1⟩, h.2⟩

mutual

/-- What is formed in two senses is so in both at once. -/
theorem Expr.formed_both : (e : Expr) → e.Formed good → e.Formed good' →
    e.Formed fun token => good token ∧ good' token
  | .literal _, _, _ => trivial
  | .grouping inner, h, h' => inner.formed_both h h'
  | .unary _ operand, h, h' => ⟨h.1, operand.formed_both h.2 h'.2⟩
  | .binary left _ right, h, h' =>
    ⟨h.1, left.formed_both h.2.1 h'.2.1, right.formed_both h.2.2 h'.2.2⟩
  | .logical left _ right, h, h' => ⟨left.formed_both h.1 h'.1, right.formed_both h.2 h'.2⟩
  | .reference _ _, h, h' => Token.Names.both h h'
  | .assign _ _ value, h, h' => ⟨h.1.both h'.1, value.formed_both h.2 h'.2⟩
  | .receiver _ _, h, h' => ⟨⟨h.1, h'.1⟩, h.2⟩
  | .get object _, h, h' => ⟨object.formed_both h.1 h'.1, h.2.both h'.2⟩
  | .set object _ value, h, h' =>
    ⟨object.formed_both h.1 h'.1, h.2.1.both h'.2.1, value.formed_both h.2.2 h'.2.2⟩
  | .call callee _ arguments, h, h' =>
    ⟨callee.formed_both h.1 h'.1, Expr.formedAll_both arguments h.2 h'.2⟩
  | .list _ elements, h, h' => Expr.formedAll_both elements h h'
termination_by structural e => e

theorem Expr.formedAll_both : (es : List Expr) → Expr.FormedAll good es →
    Expr.FormedAll good' es → Expr.FormedAll (fun token => good token ∧ good' token) es
  | [], _, _ => trivial
  | e :: es, h, h' => ⟨e.formed_both h.1 h'.1, Expr.formedAll_both es h.2 h'.2⟩
termination_by structural es => es

end

mutual

theorem Stmt.formed_both : (s : Stmt) → s.Formed good → s.Formed good' →
    s.Formed fun token => good token ∧ good' token
  | .expression value, h, h' => value.formed_both h h'
  | .print value, h, h' => value.formed_both h h'
  | .declare _ none, h, h' => Token.Names.both h h'
  | .declare _ (some initializer), h, h' => ⟨h.1.both h'.1, initializer.formed_both h.2 h'.2⟩
  | .block body, h, h' => Stmt.formedAll_both body h h'
  | .branch condition thenBranch none, h, h' =>
    ⟨condition.formed_both h.1 h'.1, thenBranch.formed_both h.2.1 h'.2.1, h.2.2⟩
  | .branch condition thenBranch (some elseBranch), h, h' =>
    ⟨condition.formed_both h.1 h'.1, ⟨thenBranch.formed_both h.2.1.1 h'.2.1.1, h.2.1.2⟩,
      elseBranch.formed_both h.2.2.1 h'.2.2.1, h.2.2.2⟩
  | .loop condition body, h, h' =>
    ⟨condition.formed_both h.1 h'.1, body.formed_both h.2.1 h'.2.1, h.2.2⟩
  | .leave _, _, _ => trivial
  | .function declaration, h, h' => declaration.formed_both h h'
  | .giveBack _ none, _, _ => trivial
  | .giveBack _ (some value), h, h' => value.formed_both h h'
  | .classDecl _ methods, h, h' => ⟨h.1.both h'.1, FunctionDecl.formedAll_both methods h.2 h'.2⟩
termination_by structural s => s

theorem Stmt.formedAll_both : (ss : List Stmt) → Stmt.FormedAll good ss →
    Stmt.FormedAll good' ss → Stmt.FormedAll (fun token => good token ∧ good' token) ss
  | [], _, _ => trivial
  | s :: ss, h, h' => ⟨s.formed_both h.1 h'.1, Stmt.formedAll_both ss h.2 h'.2⟩
termination_by structural ss => ss

theorem FunctionDecl.formed_both : (d : FunctionDecl) → d.Formed good → d.Formed good' →
    d.Formed fun token => good token ∧ good' token
  | .mk _ _ body, h, h' =>
    ⟨h.1.both h'.1, fun parameter hparameter =>
      (h.2.1 parameter hparameter).both (h'.2.1 parameter hparameter),
      Stmt.formedAll_both body h.2.2 h'.2.2⟩
termination_by structural d => d

theorem FunctionDecl.formedAll_both : (ds : List FunctionDecl) → FunctionDecl.FormedAll good ds →
    FunctionDecl.FormedAll good' ds →
      FunctionDecl.FormedAll (fun token => good token ∧ good' token) ds
  | [], _, _ => trivial
  | d :: ds, h, h' => ⟨d.formed_both h.1 h'.1, FunctionDecl.formedAll_both ds h.2 h'.2⟩
termination_by structural ds => ds

end

end Both

end Lox
