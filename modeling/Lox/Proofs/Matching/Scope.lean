import Lox.Proofs.Matching.Reading
import Lox.Scope.Analysis

/-!
# Analysing matching trees

Scope analysis finds the same distances and the same errors in matching trees,
if no number of a name occurrence corresponds to two.
-/

namespace Lox

/-- No number corresponds to two, in either direction. -/
def Correspondence.Unique (c : Correspondence) : Prop :=
  ∀ i i' j j', c.ids i i' → c.ids j j' → (i = j ↔ i' = j')

/-- Occurrences that correspond to each other have the same distance. -/
def Distances.Match (c : Correspondence) (distances distances' : Distances) : Prop :=
  ∀ i i', c.ids i i' → distances[i]? = distances'[i']?

/-- The same scopes are open, and what has been found so far matches. -/
structure Analysis.Matches (c : Correspondence) (analysis analysis' : Analysis) : Prop where
  scopes : analysis.scopes = analysis'.scopes
  distances : Distances.Match c analysis.distances analysis'.distances
  diagnostics : Diagnostic.MatchAll c analysis.diagnostics analysis'.diagnostics

namespace Analysis

variable {c : Correspondence} {analysis analysis' : Analysis} {token token' : Token}

theorem Matches.report (h : analysis.Matches c analysis') (htoken : token.Matches c token')
    (error : ScopeError) :
    (analysis.report token error).Matches c (analysis'.report token' error) :=
  ⟨h.scopes, h.distances, h.diagnostics.push (.scoping error htoken)⟩

theorem Matches.reportIf (h : analysis.Matches c analysis') (htoken : token.Matches c token')
    (condition : Bool) (error : ScopeError) :
    (analysis.reportIf condition token error).Matches c
      (analysis'.reportIf condition token' error) := by
  cases condition with
  | true => exact h.report htoken error
  | false => exact h

theorem Matches.isInitializing (h : analysis.Matches c analysis')
    (htoken : token.Matches c token') :
    analysis.isInitializing token = analysis'.isInitializing token' := by
  simp only [Analysis.isInitializing, h.scopes, htoken.lexeme]

theorem Matches.declare (h : analysis.Matches c analysis') (htoken : token.Matches c token') :
    (analysis.declare token).Matches c (analysis'.declare token') := by
  have hreport := h.report htoken .alreadyDeclared
  simp only [Analysis.declare, ← h.scopes, ← htoken.lexeme]
  split
  · exact h
  · split
    · exact hreport
    · exact ⟨rfl, h.distances, h.diagnostics⟩

theorem Matches.define (h : analysis.Matches c analysis') (htoken : token.Matches c token') :
    (analysis.define token).Matches c (analysis'.define token') := by
  simp only [Analysis.define, ← h.scopes, ← htoken.lexeme]
  split
  · exact h
  · exact ⟨rfl, h.distances, h.diagnostics⟩

theorem Matches.resolve {id id' : Nat} (hunique : c.Unique) (h : analysis.Matches c analysis')
    (hid : c.ids id id') (htoken : token.Matches c token') :
    (analysis.resolve id token).Matches c (analysis'.resolve id' token') := by
  simp only [Analysis.resolve, ← h.scopes, ← htoken.lexeme]
  split
  · refine ⟨rfl, ?_, h.diagnostics⟩
    intro i i' hi
    have hsame := hunique id id' i i' hid hi
    simp only [Std.TreeMap.getElem?_insert, Std.LawfulEqCmp.compare_eq_iff_eq, hsame,
      h.distances i i' hi]
  · exact h

theorem Matches.within {scope : Scope} {pass pass' : Analysis → Analysis}
    (hpass : ∀ inside inside' : Analysis, inside.Matches c inside' →
      (pass inside).Matches c (pass' inside'))
    (h : analysis.Matches c analysis') :
    (analysis.within scope pass).Matches c (analysis'.within scope pass') := by
  have hinside := hpass { analysis with scopes := scope :: analysis.scopes }
    { analysis' with scopes := scope :: analysis'.scopes }
    ⟨by rw [h.scopes], h.distances, h.diagnostics⟩
  exact ⟨congrArg List.tail hinside.scopes, hinside.distances, hinside.diagnostics⟩

theorem Matches.parameters {names names' : List Token} (h : analysis.Matches c analysis')
    (hnames : List.Forall₂ (Token.Matches c) names names') :
    (Analysis.parameters names analysis).Matches c (Analysis.parameters names' analysis') := by
  induction hnames generalizing analysis analysis' with
  | nil => exact h
  | cons hname _ ih => exact ih ((h.declare hname).define hname)

end Analysis

variable {c : Correspondence}

open Analysis

mutual

theorem Expr.analyze_matches (hunique : c.Unique) (around : Surroundings) :
    (e : Expr) → {e' : Expr} → e.Matches c e' → {analysis analysis' : Analysis} →
      analysis.Matches c analysis' →
        (e.analyze around analysis).Matches c (e'.analyze around analysis')
  | .literal _, _, .literal _, _, _, h => h
  | .grouping inner, _, .grouping hinner, _, _, h => inner.analyze_matches hunique around hinner h
  | .unary _ operand, _, .unary _ hoperand, _, _, h =>
    operand.analyze_matches hunique around hoperand h
  | .binary left _ right, _, .binary hleft _ hright, _, _, h =>
    right.analyze_matches hunique around hright (left.analyze_matches hunique around hleft h)
  | .logical left _ right, _, .logical hleft _ hright, _, _, h =>
    right.analyze_matches hunique around hright (left.analyze_matches hunique around hleft h)
  | .reference _ _, _, .reference hid hname, analysis, analysis', h => by
    simp only [Expr.analyze, h.isInitializing hname]
    exact (h.reportIf hname _ _).resolve hunique hid hname
  | .assign _ _ value, _, .assign hid hname hvalue, _, _, h =>
    (value.analyze_matches hunique around hvalue h).resolve hunique hid hname
  | .receiver _ _, _, .receiver hid hkeyword, _, _, h => by
    simp only [Expr.analyze]
    split
    · exact h.resolve hunique hid hkeyword
    · exact h.report hkeyword _
  | .get object _, _, .get hobject _, _, _, h => object.analyze_matches hunique around hobject h
  | .set object _ value, _, .set hobject _ hvalue, _, _, h =>
    object.analyze_matches hunique around hobject (value.analyze_matches hunique around hvalue h)
  | .call callee _ arguments, _, .call hcallee _ harguments, _, _, h =>
    Expr.analyzeAll_matches hunique around arguments harguments
      (callee.analyze_matches hunique around hcallee h)
  | .list _ elements, _, .list _ helements, _, _, h =>
    Expr.analyzeAll_matches hunique around elements helements h
termination_by structural e => e

theorem Expr.analyzeAll_matches (hunique : c.Unique) (around : Surroundings) :
    (es : List Expr) → {es' : List Expr} → List.Forall₂ (Expr.Matches c) es es' →
      {analysis analysis' : Analysis} → analysis.Matches c analysis' →
        (Expr.analyzeAll around es analysis).Matches c (Expr.analyzeAll around es' analysis')
  | [], _, .nil, _, _, h => h
  | e :: es, _, .cons he hes, _, _, h =>
    Expr.analyzeAll_matches hunique around es hes (e.analyze_matches hunique around he h)
termination_by structural es => es

end

mutual

theorem Stmt.analyze_matches (hunique : c.Unique) (around : Surroundings) :
    (s : Stmt) → {s' : Stmt} → s.Matches c s' → {analysis analysis' : Analysis} →
      analysis.Matches c analysis' →
        (s.analyze around analysis).Matches c (s'.analyze around analysis')
  | .expression value, _, .expression hvalue, _, _, h =>
    value.analyze_matches hunique around hvalue h
  | .print value, _, .print hvalue, _, _, h => value.analyze_matches hunique around hvalue h
  | .declare _ none, _, .declare hname .none, _, _, h => (h.declare hname).define hname
  | .declare _ (some initializer), _, .declare hname (.some hinitializer), _, _, h =>
    (initializer.analyze_matches hunique around hinitializer (h.declare hname)).define hname
  | .block body, _, .block hbody, _, _, h =>
    h.within fun _ _ hinside => Stmt.analyzeAll_matches hunique around body hbody hinside
  | .branch condition thenBranch none, _, .branch hcondition hthen .none, _, _, h =>
    thenBranch.analyze_matches hunique around hthen
      (condition.analyze_matches hunique around hcondition h)
  | .branch condition thenBranch (some elseBranch), _, .branch hcondition hthen (.some helse),
      _, _, h =>
    elseBranch.analyze_matches hunique around helse (thenBranch.analyze_matches hunique around hthen
      (condition.analyze_matches hunique around hcondition h))
  | .loop condition body, _, .loop hcondition hbody, _, _, h =>
    body.analyze_matches hunique around.loop hbody
      (condition.analyze_matches hunique around hcondition h)
  | .leave _, _, .leave hkeyword, _, _, h => h.reportIf hkeyword _ _
  | .function declaration, _, .function hdeclaration, _, _, h =>
    match declaration, hdeclaration with
    | .mk _ _ body, .mk hname hnames hbody =>
      ((h.declare hname).define hname).within fun _ _ hinside =>
        Stmt.analyzeAll_matches hunique (around.function false) body hbody
          (hinside.parameters hnames)
  | .giveBack _ none, _, .giveBack hkeyword .none, _, _, h => h.reportIf hkeyword _ _
  | .giveBack _ (some value), _, .giveBack hkeyword (.some hvalue), _, _, h =>
    value.analyze_matches hunique around hvalue
      ((h.reportIf hkeyword _ _).reportIf hkeyword _ _)
  | .classDecl _ methods, _, .classDecl hname hmethods, _, _, h =>
    ((h.declare hname).define hname).within fun _ _ hinside =>
      FunctionDecl.analyzeMethods_matches hunique around.classBody methods hmethods hinside
termination_by structural s => s

theorem Stmt.analyzeAll_matches (hunique : c.Unique) (around : Surroundings) :
    (ss : List Stmt) → {ss' : List Stmt} → List.Forall₂ (Stmt.Matches c) ss ss' →
      {analysis analysis' : Analysis} → analysis.Matches c analysis' →
        (Stmt.analyzeAll around ss analysis).Matches c (Stmt.analyzeAll around ss' analysis')
  | [], _, .nil, _, _, h => h
  | s :: ss, _, .cons hs hss, _, _, h =>
    Stmt.analyzeAll_matches hunique around ss hss (s.analyze_matches hunique around hs h)
termination_by structural ss => ss

theorem FunctionDecl.analyze_matches (hunique : c.Unique) (around : Surroundings)
    (isInitializer : Bool) :
    (d : FunctionDecl) → {d' : FunctionDecl} → d.Matches c d' →
      {analysis analysis' : Analysis} → analysis.Matches c analysis' →
        (d.analyze around isInitializer analysis).Matches c
          (d'.analyze around isInitializer analysis')
  | .mk _ _ body, _, .mk _ hnames hbody, _, _, h =>
    h.within fun _ _ hinside =>
      Stmt.analyzeAll_matches hunique (around.function isInitializer) body hbody
        (hinside.parameters hnames)
termination_by structural d => d

theorem FunctionDecl.analyzeMethods_matches (hunique : c.Unique) (around : Surroundings) :
    (ds : List FunctionDecl) → {ds' : List FunctionDecl} →
      List.Forall₂ (FunctionDecl.Matches c) ds ds' → {analysis analysis' : Analysis} →
        analysis.Matches c analysis' →
          (FunctionDecl.analyzeMethods around ds analysis).Matches c
            (FunctionDecl.analyzeMethods around ds' analysis')
  | [], _, .nil, _, _, h => h
  | d :: ds, _, .cons hd hds, _, _, h => by
    have hsame := hd.isInitializer
    have hfirst := d.analyze_matches hunique around d.isInitializer hd h
    simp only [FunctionDecl.analyzeMethods]
    rw [← hsame]
    exact FunctionDecl.analyzeMethods_matches hunique around ds hds hfirst
termination_by structural ds => ds

end

end Lox
