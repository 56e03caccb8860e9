import Lox.Proofs.Matching.Scope
import Lox.Proofs.Syntax.Occurrence

/-!
# Trees of one shape

Two trees have the same shape if they differ in nothing but the numbers of name
occurrences and the lines of tokens, whatever these are.  If no number occurs twice
in either, pairing the numbers by their places makes the trees match so that no
number corresponds to two.
-/

namespace Lox

/-- Any numbers and any lines correspond to each other. -/
def Correspondence.shape : Correspondence where
  ids _ _ := True
  lines _ _ := True

/-- The same token, on whatever line. -/
abbrev Token.Alike (token token' : Token) : Prop :=
  token.Matches .shape token'

/-- Numbers correspond as `ids` says, and any lines do. -/
def Correspondence.anyLine (ids : Nat → Nat → Prop) : Correspondence where
  ids := ids
  lines _ _ := True

theorem Token.Matches.anyLine {ids : Nat → Nat → Prop} {token token' : Token}
    (h : token.Alike token') : token.Matches (.anyLine ids) token' :=
  ⟨h.kind, h.lexeme, trivial⟩

/-! ## The numbers in trees that match -/

section Numbers

variable {c : Correspondence}

mutual

theorem Expr.matches_ids :
    (e : Expr) → {e' : Expr} → e.Matches c e' → List.Forall₂ c.ids e.ids e'.ids
  | .literal _, _, .literal _ => .nil
  | .grouping inner, _, .grouping hinner => (inner.matches_ids hinner :)
  | .unary _ operand, _, .unary _ hoperand => (operand.matches_ids hoperand :)
  | .binary left _ right, _, .binary hleft _ hright =>
    List.rel_append (left.matches_ids hleft) (right.matches_ids hright)
  | .logical left _ right, _, .logical hleft _ hright =>
    List.rel_append (left.matches_ids hleft) (right.matches_ids hright)
  | .reference _ _, _, .reference hid _ => .cons hid .nil
  | .assign _ _ value, _, .assign hid _ hvalue =>
    List.rel_append (value.matches_ids hvalue) (.cons hid .nil)
  | .receiver _ _, _, .receiver hid _ => .cons hid .nil
  | .get object _, _, .get hobject _ => (object.matches_ids hobject :)
  | .set object _ value, _, .set hobject _ hvalue =>
    List.rel_append (value.matches_ids hvalue) (object.matches_ids hobject)
  | .call callee _ arguments, _, .call hcallee _ harguments =>
    List.rel_append (callee.matches_ids hcallee) (Expr.matchesAll_ids arguments harguments)
  | .list _ elements, _, .list _ helements => (Expr.matchesAll_ids elements helements :)
termination_by structural e => e

theorem Expr.matchesAll_ids :
    (es : List Expr) → {es' : List Expr} → List.Forall₂ (Expr.Matches c) es es' →
      List.Forall₂ c.ids (Expr.idsAll es) (Expr.idsAll es')
  | [], _, .nil => .nil
  | e :: es, _, .cons he hes =>
    List.rel_append (e.matches_ids he) (Expr.matchesAll_ids es hes)
termination_by structural es => es

end

mutual

theorem Stmt.matches_ids :
    (s : Stmt) → {s' : Stmt} → s.Matches c s' → List.Forall₂ c.ids s.ids s'.ids
  | .expression value, _, .expression hvalue => (value.matches_ids hvalue :)
  | .print value, _, .print hvalue => (value.matches_ids hvalue :)
  | .declare _ none, _, .declare _ .none => .nil
  | .declare _ (some initializer), _, .declare _ (.some hinitializer) =>
    (initializer.matches_ids hinitializer :)
  | .block body, _, .block hbody => (Stmt.matchesAll_ids body hbody :)
  | .branch condition thenBranch none, _, .branch hcondition hthen .none =>
    List.rel_append (condition.matches_ids hcondition) (thenBranch.matches_ids hthen)
  | .branch condition thenBranch (some elseBranch), _, .branch hcondition hthen (.some helse) =>
    List.rel_append
      (List.rel_append (condition.matches_ids hcondition) (thenBranch.matches_ids hthen))
      (elseBranch.matches_ids helse)
  | .loop condition body, _, .loop hcondition hbody =>
    List.rel_append (condition.matches_ids hcondition) (body.matches_ids hbody)
  | .leave _, _, .leave _ => .nil
  | .function declaration, _, .function hdeclaration => (declaration.matches_ids hdeclaration :)
  | .giveBack _ none, _, .giveBack _ .none => .nil
  | .giveBack _ (some value), _, .giveBack _ (.some hvalue) => (value.matches_ids hvalue :)
  | .classDecl _ methods, _, .classDecl _ hmethods =>
    (FunctionDecl.matchesAll_ids methods hmethods :)
termination_by structural s => s

theorem Stmt.matchesAll_ids :
    (ss : List Stmt) → {ss' : List Stmt} → List.Forall₂ (Stmt.Matches c) ss ss' →
      List.Forall₂ c.ids (Stmt.idsAll ss) (Stmt.idsAll ss')
  | [], _, .nil => .nil
  | s :: ss, _, .cons hs hss =>
    List.rel_append (s.matches_ids hs) (Stmt.matchesAll_ids ss hss)
termination_by structural ss => ss

theorem FunctionDecl.matches_ids :
    (d : FunctionDecl) → {d' : FunctionDecl} → d.Matches c d' → List.Forall₂ c.ids d.ids d'.ids
  | .mk _ _ body, _, .mk _ _ hbody => (Stmt.matchesAll_ids body hbody :)
termination_by structural d => d

theorem FunctionDecl.matchesAll_ids :
    (ds : List FunctionDecl) → {ds' : List FunctionDecl} →
      List.Forall₂ (FunctionDecl.Matches c) ds ds' →
        List.Forall₂ c.ids (FunctionDecl.idsAll ds) (FunctionDecl.idsAll ds')
  | [], _, .nil => .nil
  | d :: ds, _, .cons hd hds =>
    List.rel_append (d.matches_ids hd) (FunctionDecl.matchesAll_ids ds hds)
termination_by structural ds => ds

end

end Numbers

/-! ## Trees of one shape -/

section Shape

/-- Lists whose first parts are of one length are related part by part. -/
theorem forall₂_append_split {α β : Type} {q r : α → β → Prop} {first second : List α}
    {first' second' : List β} (hlength : List.Forall₂ q first first')
    (h : List.Forall₂ r (first ++ second) (first' ++ second')) :
    List.Forall₂ r first first' ∧ List.Forall₂ r second second' := by
  induction hlength with
  | nil => exact ⟨.nil, h⟩
  | cons _ _ ih =>
      cases h with
      | cons hhead htail => exact ⟨.cons hhead (ih htail).1, (ih htail).2⟩

variable {r : Nat → Nat → Prop}

mutual

/-- Expressions of one shape match as soon as their numbers correspond in order. -/
theorem Expr.matches_of_ids :
    (e : Expr) → {e' : Expr} → e.Matches .shape e' → List.Forall₂ r e.ids e'.ids →
      e.Matches (.anyLine r) e'
  | .literal _, _, .literal value, _ => .literal value
  | .grouping inner, _, .grouping hinner, h => .grouping (inner.matches_of_ids hinner h)
  | .unary _ operand, _, .unary hoperator hoperand, h =>
    .unary hoperator.anyLine (operand.matches_of_ids hoperand h)
  | .binary left _ right, _, .binary hleft hoperator hright, h =>
    have ⟨hfirst, hsecond⟩ := forall₂_append_split (left.matches_ids hleft) h
    .binary (left.matches_of_ids hleft hfirst) hoperator.anyLine
      (right.matches_of_ids hright hsecond)
  | .logical left _ right, _, .logical hleft hoperator hright, h =>
    have ⟨hfirst, hsecond⟩ := forall₂_append_split (left.matches_ids hleft) h
    .logical (left.matches_of_ids hleft hfirst) hoperator.anyLine
      (right.matches_of_ids hright hsecond)
  | .reference _ _, _, .reference _ hname, .cons hid _ => .reference hid hname.anyLine
  | .assign _ _ value, _, .assign _ hname hvalue, h =>
    have ⟨hfirst, .cons hid _⟩ := forall₂_append_split (value.matches_ids hvalue) h
    .assign hid hname.anyLine (value.matches_of_ids hvalue hfirst)
  | .receiver _ _, _, .receiver _ hkeyword, .cons hid _ => .receiver hid hkeyword.anyLine
  | .get object _, _, .get hobject hname, h =>
    .get (object.matches_of_ids hobject h) hname.anyLine
  | .set object _ value, _, .set hobject hname hvalue, h =>
    have ⟨hfirst, hsecond⟩ := forall₂_append_split (value.matches_ids hvalue) h
    .set (object.matches_of_ids hobject hsecond) hname.anyLine
      (value.matches_of_ids hvalue hfirst)
  | .call callee _ arguments, _, .call hcallee hclosing harguments, h =>
    have ⟨hfirst, hsecond⟩ := forall₂_append_split (callee.matches_ids hcallee) h
    .call (callee.matches_of_ids hcallee hfirst) hclosing.anyLine
      (Expr.matchesAll_of_ids arguments harguments hsecond)
  | .list _ elements, _, .list hclosing helements, h =>
    .list hclosing.anyLine (Expr.matchesAll_of_ids elements helements h)
termination_by structural e => e

theorem Expr.matchesAll_of_ids :
    (es : List Expr) → {es' : List Expr} → List.Forall₂ (Expr.Matches .shape) es es' →
      List.Forall₂ r (Expr.idsAll es) (Expr.idsAll es') →
        List.Forall₂ (Expr.Matches (.anyLine r)) es es'
  | [], _, .nil, _ => .nil
  | e :: es, _, .cons he hes, h =>
    have ⟨hfirst, hsecond⟩ := forall₂_append_split (e.matches_ids he) h
    .cons (e.matches_of_ids he hfirst) (Expr.matchesAll_of_ids es hes hsecond)
termination_by structural es => es

end

mutual

/-- Statements of one shape match as soon as their numbers correspond in order. -/
theorem Stmt.matches_of_ids :
    (s : Stmt) → {s' : Stmt} → s.Matches .shape s' → List.Forall₂ r s.ids s'.ids →
      s.Matches (.anyLine r) s'
  | .expression value, _, .expression hvalue, h => .expression (value.matches_of_ids hvalue h)
  | .print value, _, .print hvalue, h => .print (value.matches_of_ids hvalue h)
  | .declare _ none, _, .declare hname .none, _ => .declare hname.anyLine .none
  | .declare _ (some initializer), _, .declare hname (.some hinitializer), h =>
    .declare hname.anyLine (.some (initializer.matches_of_ids hinitializer h))
  | .block body, _, .block hbody, h => .block (Stmt.matchesAll_of_ids body hbody h)
  | .branch condition thenBranch none, _, .branch hcondition hthen .none, h =>
    have ⟨hfirst, hsecond⟩ := forall₂_append_split (condition.matches_ids hcondition) h
    .branch (condition.matches_of_ids hcondition hfirst)
      (thenBranch.matches_of_ids hthen hsecond) .none
  | .branch condition thenBranch (some elseBranch), _, .branch hcondition hthen (.some helse),
      h =>
    have hboth := List.rel_append (condition.matches_ids hcondition) (thenBranch.matches_ids hthen)
    have ⟨hfront, hthird⟩ := forall₂_append_split hboth h
    have ⟨hfirst, hsecond⟩ := forall₂_append_split (condition.matches_ids hcondition) hfront
    .branch (condition.matches_of_ids hcondition hfirst)
      (thenBranch.matches_of_ids hthen hsecond) (.some (elseBranch.matches_of_ids helse hthird))
  | .loop condition body, _, .loop hcondition hbody, h =>
    have ⟨hfirst, hsecond⟩ := forall₂_append_split (condition.matches_ids hcondition) h
    .loop (condition.matches_of_ids hcondition hfirst) (body.matches_of_ids hbody hsecond)
  | .leave _, _, .leave hkeyword, _ => .leave hkeyword.anyLine
  | .function declaration, _, .function hdeclaration, h =>
    .function (declaration.matches_of_ids hdeclaration h)
  | .giveBack _ none, _, .giveBack hkeyword .none, _ => .giveBack hkeyword.anyLine .none
  | .giveBack _ (some value), _, .giveBack hkeyword (.some hvalue), h =>
    .giveBack hkeyword.anyLine (.some (value.matches_of_ids hvalue h))
  | .classDecl _ methods, _, .classDecl hname hmethods, h =>
    .classDecl hname.anyLine (FunctionDecl.matchesAll_of_ids methods hmethods h)
termination_by structural s => s

theorem Stmt.matchesAll_of_ids :
    (ss : List Stmt) → {ss' : List Stmt} → List.Forall₂ (Stmt.Matches .shape) ss ss' →
      List.Forall₂ r (Stmt.idsAll ss) (Stmt.idsAll ss') →
        List.Forall₂ (Stmt.Matches (.anyLine r)) ss ss'
  | [], _, .nil, _ => .nil
  | s :: ss, _, .cons hs hss, h =>
    have ⟨hfirst, hsecond⟩ := forall₂_append_split (s.matches_ids hs) h
    .cons (s.matches_of_ids hs hfirst) (Stmt.matchesAll_of_ids ss hss hsecond)
termination_by structural ss => ss

theorem FunctionDecl.matches_of_ids :
    (d : FunctionDecl) → {d' : FunctionDecl} → d.Matches .shape d' →
      List.Forall₂ r d.ids d'.ids → d.Matches (.anyLine r) d'
  | .mk _ _ body, _, .mk hname hparameters hbody, h =>
    .mk hname.anyLine (hparameters.imp fun _ _ => Token.Matches.anyLine)
      (Stmt.matchesAll_of_ids body hbody h)
termination_by structural d => d

theorem FunctionDecl.matchesAll_of_ids :
    (ds : List FunctionDecl) → {ds' : List FunctionDecl} →
      List.Forall₂ (FunctionDecl.Matches .shape) ds ds' →
        List.Forall₂ r (FunctionDecl.idsAll ds) (FunctionDecl.idsAll ds') →
          List.Forall₂ (FunctionDecl.Matches (.anyLine r)) ds ds'
  | [], _, .nil, _ => .nil
  | d :: ds, _, .cons hd hds, h =>
    have ⟨hfirst, hsecond⟩ := forall₂_append_split (d.matches_ids hd) h
    .cons (d.matches_of_ids hd hfirst) (FunctionDecl.matchesAll_of_ids ds hds hsecond)
termination_by structural ds => ds

end

end Shape

/-! ## Pairing the numbers -/

/-- The numbers of two lists correspond by their places, and numbers below `next` to
themselves. -/
def Correspondence.paired (ids ids' : List Nat) (next : Nat) : Correspondence :=
  .anyLine fun id id' => (id, id') ∈ ids.zip ids' ∨ id = id' ∧ id < next

theorem Correspondence.paired_unique {ids ids' : List Nat} {next : Nat} (hids : ids.Nodup)
    (hids' : ids'.Nodup) (hnew : ∀ id ∈ ids, next ≤ id) (hnew' : ∀ id ∈ ids', next ≤ id) :
    (paired ids ids' next).Unique := by
  have hzip : ∀ i i' j j', (i, i') ∈ ids.zip ids' → (j, j') ∈ ids.zip ids' →
      (i = j ↔ i' = j') := by
    intro i i' j j' hi hj
    obtain ⟨m, hm, hi⟩ := List.mem_iff_getElem.1 hi
    obtain ⟨n, hn, hj⟩ := List.mem_iff_getElem.1 hj
    rw [List.length_zip] at hm hn
    simp only [List.getElem_zip, Prod.mk.injEq] at hi hj
    obtain ⟨rfl, rfl⟩ := hi
    obtain ⟨rfl, rfl⟩ := hj
    rw [hids.getElem_inj_iff, hids'.getElem_inj_iff]
  rintro i i' j j' (hi | ⟨rfl, hi⟩) (hj | ⟨rfl, hj⟩)
  · exact hzip i i' j j' hi hj
  · have := hnew i (List.of_mem_zip hi).1
    have := hnew' i' (List.of_mem_zip hi).2
    omega
  · have := hnew j (List.of_mem_zip hj).1
    have := hnew' j' (List.of_mem_zip hj).2
    omega
  · rfl

/-- Programs of one shape match by the numbers of their occurrences. -/
theorem Stmt.matchesAll_paired {ss ss' : List Stmt}
    (h : List.Forall₂ (Stmt.Matches .shape) ss ss') (next : Nat) :
    List.Forall₂ (Stmt.Matches (.paired (Stmt.idsAll ss) (Stmt.idsAll ss') next)) ss ss' := by
  apply Stmt.matchesAll_of_ids ss h
  have hlength := (Stmt.matchesAll_ids ss h).length_eq
  rw [List.forall₂_iff_zip]
  exact ⟨hlength, fun hmem => .inl hmem⟩

end Lox
