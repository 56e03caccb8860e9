import Lox.Proofs.Matching.Store

/-!
# More correspondences

Whatever matches under some correspondences of numbers and lines matches under
more of them.
-/

namespace Lox

/-- What corresponds under `c` corresponds under `d`. -/
structure Correspondence.Within (c d : Correspondence) : Prop where
  ids (id id' : Nat) : c.ids id id' → d.ids id id'
  lines (line line' : Nat) : c.lines line line' → d.lines line line'

variable {c d : Correspondence}

theorem Token.Matches.weaken (hwithin : c.Within d) {token token' : Token}
    (h : token.Matches c token') : token.Matches d token' :=
  ⟨h.kind, h.lexeme, hwithin.lines _ _ h.line⟩

/-! ## Trees -/

mutual

theorem Expr.matches_weaken (hwithin : c.Within d) :
    (e : Expr) → {e' : Expr} → e.Matches c e' → e.Matches d e'
  | .literal _, _, .literal value => .literal value
  | .grouping inner, _, .grouping hinner => .grouping (inner.matches_weaken hwithin hinner)
  | .unary _ operand, _, .unary hoperator hoperand =>
    .unary (hoperator.weaken hwithin) (operand.matches_weaken hwithin hoperand)
  | .binary left _ right, _, .binary hleft hoperator hright =>
    .binary (left.matches_weaken hwithin hleft) (hoperator.weaken hwithin)
      (right.matches_weaken hwithin hright)
  | .logical left _ right, _, .logical hleft hoperator hright =>
    .logical (left.matches_weaken hwithin hleft) (hoperator.weaken hwithin)
      (right.matches_weaken hwithin hright)
  | .reference _ _, _, .reference hid hname =>
    .reference (hwithin.ids _ _ hid) (hname.weaken hwithin)
  | .assign _ _ value, _, .assign hid hname hvalue =>
    .assign (hwithin.ids _ _ hid) (hname.weaken hwithin) (value.matches_weaken hwithin hvalue)
  | .receiver _ _, _, .receiver hid hkeyword =>
    .receiver (hwithin.ids _ _ hid) (hkeyword.weaken hwithin)
  | .get object _, _, .get hobject hname =>
    .get (object.matches_weaken hwithin hobject) (hname.weaken hwithin)
  | .set object _ value, _, .set hobject hname hvalue =>
    .set (object.matches_weaken hwithin hobject) (hname.weaken hwithin)
      (value.matches_weaken hwithin hvalue)
  | .call callee _ arguments, _, .call hcallee hclosing harguments =>
    .call (callee.matches_weaken hwithin hcallee) (hclosing.weaken hwithin)
      (Expr.matchesAll_weaken hwithin arguments harguments)
  | .list _ elements, _, .list hclosing helements =>
    .list (hclosing.weaken hwithin) (Expr.matchesAll_weaken hwithin elements helements)
termination_by structural e => e

theorem Expr.matchesAll_weaken (hwithin : c.Within d) :
    (es : List Expr) → {es' : List Expr} → List.Forall₂ (Expr.Matches c) es es' →
      List.Forall₂ (Expr.Matches d) es es'
  | [], _, .nil => .nil
  | e :: es, _, .cons he hes =>
    .cons (e.matches_weaken hwithin he) (Expr.matchesAll_weaken hwithin es hes)
termination_by structural es => es

end

mutual

theorem Stmt.matches_weaken (hwithin : c.Within d) :
    (s : Stmt) → {s' : Stmt} → s.Matches c s' → s.Matches d s'
  | .expression value, _, .expression hvalue => .expression (value.matches_weaken hwithin hvalue)
  | .print value, _, .print hvalue => .print (value.matches_weaken hwithin hvalue)
  | .declare _ none, _, .declare hname .none => .declare (hname.weaken hwithin) .none
  | .declare _ (some initializer), _, .declare hname (.some hinitializer) =>
    .declare (hname.weaken hwithin) (.some (initializer.matches_weaken hwithin hinitializer))
  | .block body, _, .block hbody => .block (Stmt.matchesAll_weaken hwithin body hbody)
  | .branch condition thenBranch none, _, .branch hcondition hthen .none =>
    .branch (condition.matches_weaken hwithin hcondition)
      (thenBranch.matches_weaken hwithin hthen) .none
  | .branch condition thenBranch (some elseBranch), _, .branch hcondition hthen (.some helse) =>
    .branch (condition.matches_weaken hwithin hcondition)
      (thenBranch.matches_weaken hwithin hthen) (.some (elseBranch.matches_weaken hwithin helse))
  | .loop condition body, _, .loop hcondition hbody =>
    .loop (condition.matches_weaken hwithin hcondition) (body.matches_weaken hwithin hbody)
  | .leave _, _, .leave hkeyword => .leave (hkeyword.weaken hwithin)
  | .function declaration, _, .function hdeclaration =>
    .function (declaration.matches_weaken hwithin hdeclaration)
  | .giveBack _ none, _, .giveBack hkeyword .none => .giveBack (hkeyword.weaken hwithin) .none
  | .giveBack _ (some value), _, .giveBack hkeyword (.some hvalue) =>
    .giveBack (hkeyword.weaken hwithin) (.some (value.matches_weaken hwithin hvalue))
  | .classDecl _ methods, _, .classDecl hname hmethods =>
    .classDecl (hname.weaken hwithin) (FunctionDecl.matchesAll_weaken hwithin methods hmethods)
termination_by structural s => s

theorem Stmt.matchesAll_weaken (hwithin : c.Within d) :
    (ss : List Stmt) → {ss' : List Stmt} → List.Forall₂ (Stmt.Matches c) ss ss' →
      List.Forall₂ (Stmt.Matches d) ss ss'
  | [], _, .nil => .nil
  | s :: ss, _, .cons hs hss =>
    .cons (s.matches_weaken hwithin hs) (Stmt.matchesAll_weaken hwithin ss hss)
termination_by structural ss => ss

theorem FunctionDecl.matches_weaken (hwithin : c.Within d) :
    (declaration : FunctionDecl) → {declaration' : FunctionDecl} →
      declaration.Matches c declaration' → declaration.Matches d declaration'
  | .mk _ _ body, _, .mk hname hparameters hbody =>
    .mk (hname.weaken hwithin) (hparameters.imp fun _ _ => Token.Matches.weaken hwithin)
      (Stmt.matchesAll_weaken hwithin body hbody)
termination_by structural declaration => declaration

theorem FunctionDecl.matchesAll_weaken (hwithin : c.Within d) :
    (declarations : List FunctionDecl) → {declarations' : List FunctionDecl} →
      List.Forall₂ (FunctionDecl.Matches c) declarations declarations' →
        List.Forall₂ (FunctionDecl.Matches d) declarations declarations'
  | [], _, .nil => .nil
  | declaration :: declarations, _, .cons hfirst hrest =>
    .cons (declaration.matches_weaken hwithin hfirst)
      (FunctionDecl.matchesAll_weaken hwithin declarations hrest)
termination_by structural declarations => declarations

end

/-! ## Values and stores -/

theorem Closure.Matches.weaken (hwithin : c.Within d) {closure closure' : Closure}
    (h : closure.Matches c closure') : closure.Matches d closure' :=
  ⟨h.identity, closure.declaration.matches_weaken hwithin h.declaration, h.frame, h.isInitializer⟩

theorem ClassValue.Matches.weaken (hwithin : c.Within d) {cls cls' : ClassValue}
    (h : cls.Matches c cls') : cls.Matches d cls' :=
  ⟨h.identity, h.name, fun name =>
    rel_weaken (fun _ _ => Closure.Matches.weaken hwithin) (h.methods name)⟩

theorem Correspondence.Within.likeness (hwithin : c.Within d) : c.likeness.Within d.likeness :=
  ⟨.weaken hwithin, .weaken hwithin⟩

theorem Value.Matches.weaken (hwithin : c.Within d) {value value' : Value}
    (h : value.Matches c value') : value.Matches d value' :=
  (h.like.mono hwithin.likeness).matches

theorem Store.Matches.weaken (hwithin : c.Within d) {store store' : Store}
    (h : store.Matches c store') : store.Matches d store' := by
  refine (h.like.mono hwithin.likeness).matches ?_
  exact ⟨h.frames.size, h.frames.enclosing?, fun frame name =>
    rel_weaken (fun _ _ => Value.Matches.weaken hwithin) (h.frames.get? frame name)⟩

end Lox
