import Lox.Proofs.Sequencing
import Lox.Proofs.Syntax.Occurrence
import Lox.Scope.Analysis

/-!
# What scope analysis changes

The analysis of a part of a program leaves the errors found before in place,
touches only the distances of the part's own name occurrences, and changes no
scope but the innermost, which gains the names that the part declares.
-/

namespace Lox.Analysis

/-- A pass that keeps what was found before, except for the distances of the
given occurrences. -/
structure Touches (ids : List Nat) (pass : Analysis → Analysis) : Prop where
  clean (analysis : Analysis) (h : (pass analysis).diagnostics = #[]) :
    analysis.diagnostics = #[]
  other (analysis : Analysis) (id : Nat) (h : id ∉ ids) :
    (pass analysis).distances[id]? = analysis.distances[id]?
  outer (analysis : Analysis) : (pass analysis).scopes.tail = analysis.scopes.tail

namespace Touches

variable {first second ids : List Nat} {pass next : Analysis → Analysis}

theorem refl : Touches [] id :=
  ⟨fun _ h => h, fun _ _ _ => rfl, fun _ => rfl⟩

theorem comp (hpass : Touches first pass) (hnext : Touches second next) :
    Touches (first ++ second) fun analysis => next (pass analysis) where
  clean analysis h := hpass.clean _ (hnext.clean _ h)
  other analysis id h := by
    rw [List.mem_append, not_or] at h
    rw [hnext.other _ id h.2, hpass.other _ id h.1]
  outer analysis := (hnext.outer _).trans (hpass.outer _)

theorem widen (hpass : Touches first pass) (hsubset : first ⊆ second) : Touches second pass :=
  ⟨hpass.clean, fun analysis id h => hpass.other analysis id fun hid => h (hsubset hid),
    hpass.outer⟩

/-- A pass in a scope of its own leaves the scopes around it as they were. -/
theorem scopes_within (hpass : Touches ids pass) (scope : Scope) (analysis : Analysis) :
    (analysis.within scope pass).scopes = analysis.scopes :=
  hpass.outer _

theorem within (hpass : Touches ids pass) (scope : Scope) :
    Touches ids (Analysis.within scope pass) where
  clean analysis h := hpass.clean { analysis with scopes := scope :: analysis.scopes } h
  other analysis id h := hpass.other { analysis with scopes := scope :: analysis.scopes } id h
  outer analysis := by rw [hpass.scopes_within]

end Touches

/-! ## Single steps -/

theorem touches_report (token : Token) (error : ScopeError) :
    Touches [] (report token error) :=
  ⟨fun _ h => by simp [report] at h, fun _ _ _ => rfl, fun _ => rfl⟩

theorem touches_reportIf (condition : Bool) (token : Token) (error : ScopeError) :
    Touches [] (reportIf condition token error) := by
  cases condition
  · exact .refl
  · exact touches_report token error

theorem touches_declare (name : Token) : Touches [] (declare name) := by
  refine ⟨fun analysis h => ?_, fun analysis id _ => ?_, fun analysis => ?_⟩
  · unfold declare at h
    split at h
    · exact h
    · split at h
      · exact (touches_report _ _).clean _ h
      · exact h
  · rw [declare]
    split
    · rfl
    · split <;> rfl
  · rw [declare]
    split
    · rfl
    · rename_i hscopes
      split <;> simp [report, hscopes]

theorem touches_define (name : Token) : Touches [] (define name) := by
  refine ⟨fun analysis h => ?_, fun analysis id _ => ?_, fun analysis => ?_⟩ <;>
    cases hscopes : analysis.scopes <;> simp_all [define]

theorem touches_resolve (id : Nat) (name : Token) : Touches [id] (resolve id name) := by
  refine ⟨fun analysis h => ?_, fun analysis other hother => ?_, fun analysis => ?_⟩
  · cases hdistance : Scope.distance? name.lexeme analysis.scopes <;>
      simpa [resolve, hdistance] using h
  · have hne : id ≠ other := fun h => hother (by simp [h])
    cases hdistance : Scope.distance? name.lexeme analysis.scopes <;>
      simp [resolve, hdistance, Std.TreeMap.getElem?_insert, hne]
  · cases hdistance : Scope.distance? name.lexeme analysis.scopes <;>
      simp [resolve, hdistance]

theorem scopes_reportIf (condition : Bool) (token : Token) (error : ScopeError)
    (analysis : Analysis) : (analysis.reportIf condition token error).scopes = analysis.scopes := by
  cases condition <;> rfl

theorem scopes_resolve (id : Nat) (name : Token) (analysis : Analysis) :
    (analysis.resolve id name).scopes = analysis.scopes := by
  cases hdistance : Scope.distance? name.lexeme analysis.scopes <;> simp [resolve, hdistance]

/-- Completing a declaration looks at the scopes alone. -/
theorem scopes_define {left right : Analysis} (h : left.scopes = right.scopes) (name : Token) :
    (left.define name).scopes = (right.define name).scopes := by
  cases hscopes : right.scopes <;> simp [define, h, hscopes]

theorem touches_parameters (names : List Token) : Touches [] (parameters names) := by
  induction names with
  | nil => exact .refl
  | cons name names ih =>
      have hname := (touches_declare name).comp (touches_define name)
      exact hname.comp ih

end Lox.Analysis

namespace Lox

open Analysis

/-! ## Trees -/

mutual

theorem Expr.touches (around : Surroundings) : (e : Expr) → Touches e.ids (e.analyze around)
  | .literal _ => .refl
  | .grouping inner => inner.touches around
  | .unary _ operand => operand.touches around
  | .binary left _ right => (left.touches around).comp (right.touches around)
  | .logical left _ right => (left.touches around).comp (right.touches around)
  | .reference id name => by
    have hcheck : Touches [] fun analysis =>
        analysis.reportIf (analysis.isInitializing name) name .ownInitializer :=
      ⟨fun a => (touches_reportIf (a.isInitializing name) _ _).clean a,
        fun a => (touches_reportIf (a.isInitializing name) _ _).other a,
        fun a => (touches_reportIf (a.isInitializing name) _ _).outer a⟩
    exact hcheck.comp (touches_resolve id name)
  | .assign id name value => (value.touches around).comp (touches_resolve id name)
  | .receiver id keyword => by
    change Touches [id] fun analysis =>
      if around.inClass then analysis.resolve id keyword
      else analysis.report keyword .thisOutsideClass
    cases around.inClass
    · exact (touches_report keyword .thisOutsideClass).widen (List.nil_subset _)
    · exact touches_resolve id keyword
  | .get object _ => object.touches around
  | .set object _ value => (value.touches around).comp (object.touches around)
  | .call callee _ arguments => (callee.touches around).comp (Expr.touchesAll around arguments)
  | .list _ elements => Expr.touchesAll around elements
termination_by structural e => e

theorem Expr.touchesAll (around : Surroundings) :
    (es : List Expr) → Touches (Expr.idsAll es) (Expr.analyzeAll around es)
  | [] => .refl
  | e :: es => (e.touches around).comp (Expr.touchesAll around es)
termination_by structural es => es

end

mutual

theorem Stmt.touches (around : Surroundings) : (s : Stmt) → Touches s.ids (s.analyze around)
  | .expression value => value.touches around
  | .print value => value.touches around
  | .declare name none => (touches_declare name).comp (touches_define name)
  | .declare name (some initializer) =>
    ((touches_declare name).comp (initializer.touches around)).comp (touches_define name)
      |>.widen (by simp [Stmt.ids])
  | .block body => (Stmt.touchesAll around body).within ∅
  | .branch condition thenBranch none =>
    (condition.touches around).comp (thenBranch.touches around)
  | .branch condition thenBranch (some elseBranch) =>
    ((condition.touches around).comp (thenBranch.touches around)).comp
      (elseBranch.touches around)
  | .loop condition body => (condition.touches around).comp (body.touches around.loop)
  | .leave keyword => touches_reportIf _ keyword .breakOutsideLoop
  | .function declaration =>
    ((touches_declare declaration.name).comp (touches_define declaration.name)).comp
      (declaration.touches around false)
  | .giveBack keyword none => touches_reportIf _ keyword .returnAtTopLevel
  | .giveBack keyword (some value) =>
    ((touches_reportIf _ keyword .returnAtTopLevel).comp
      (touches_reportIf _ keyword .returnFromInitializer)).comp (value.touches around)
  | .classDecl name methods =>
    ((touches_declare name).comp (touches_define name)).comp
      ((FunctionDecl.touchesAll around.classBody methods).within _)
termination_by structural s => s

theorem Stmt.touchesAll (around : Surroundings) :
    (ss : List Stmt) → Touches (Stmt.idsAll ss) (Stmt.analyzeAll around ss)
  | [] => .refl
  | s :: ss => (s.touches around).comp (Stmt.touchesAll around ss)
termination_by structural ss => ss

theorem FunctionDecl.touches (around : Surroundings) (isInitializer : Bool) :
    (d : FunctionDecl) → Touches d.ids (d.analyze around isInitializer)
  | .mk _ names body =>
    ((touches_parameters names).comp
      (Stmt.touchesAll (around.function isInitializer) body)).within ∅
termination_by structural d => d

theorem FunctionDecl.touchesAll (around : Surroundings) :
    (ds : List FunctionDecl) →
      Touches (FunctionDecl.idsAll ds) (FunctionDecl.analyzeMethods around ds)
  | [] => .refl
  | d :: ds => (d.touches around d.isInitializer).comp (FunctionDecl.touchesAll around ds)
termination_by structural ds => ds

end

/-! ## Scopes -/

mutual

/-- Expressions declare nothing. -/
theorem Expr.scopes_analyze (around : Surroundings) :
    (e : Expr) → (analysis : Analysis) → (e.analyze around analysis).scopes = analysis.scopes
  | .literal _, _ => rfl
  | .grouping inner, analysis => inner.scopes_analyze around analysis
  | .unary _ operand, analysis => operand.scopes_analyze around analysis
  | .binary left _ right, analysis =>
    (right.scopes_analyze around _).trans (left.scopes_analyze around analysis)
  | .logical left _ right, analysis =>
    (right.scopes_analyze around _).trans (left.scopes_analyze around analysis)
  | .reference id name, analysis => by
    simp only [Expr.analyze, scopes_resolve, scopes_reportIf]
  | .assign id name value, analysis =>
    (scopes_resolve id name _).trans (value.scopes_analyze around analysis)
  | .receiver id keyword, analysis => by
    simp only [Expr.analyze]
    split
    · exact scopes_resolve id keyword analysis
    · rfl
  | .get object _, analysis => object.scopes_analyze around analysis
  | .set object _ value, analysis =>
    (object.scopes_analyze around _).trans (value.scopes_analyze around analysis)
  | .call callee _ arguments, analysis =>
    (Expr.scopes_analyzeAll around arguments _).trans (callee.scopes_analyze around analysis)
  | .list _ elements, analysis => Expr.scopes_analyzeAll around elements analysis
termination_by structural e => e

theorem Expr.scopes_analyzeAll (around : Surroundings) :
    (es : List Expr) → (analysis : Analysis) →
      (Expr.analyzeAll around es analysis).scopes = analysis.scopes
  | [], _ => rfl
  | e :: es, analysis =>
    (Expr.scopes_analyzeAll around es _).trans (e.scopes_analyze around analysis)
termination_by structural es => es

end

/-- The scopes after a statement that declares the given name, if any. -/
def Analysis.scopesAfter (declared? : Option Token) (analysis : Analysis) : List Scope :=
  match declared? with
  | some name => ((analysis.declare name).define name).scopes
  | none => analysis.scopes

theorem FunctionDecl.scopes_analyze (around : Surroundings) (isInitializer : Bool)
    (d : FunctionDecl) (analysis : Analysis) :
    (d.analyze around isInitializer analysis).scopes = analysis.scopes := by
  obtain ⟨name, names, body⟩ := d
  exact ((touches_parameters names).comp
    (Stmt.touchesAll (around.function isInitializer) body)).scopes_within ∅ analysis

/-- A formed statement declares its own name and nothing else. -/
theorem Stmt.scopes_analyze {spelled : Token → Prop} (around : Surroundings) :
    (s : Stmt) → s.Formed spelled → (analysis : Analysis) →
      (s.analyze around analysis).scopes = analysis.scopesAfter s.declared?
  | .expression value, _, analysis => value.scopes_analyze around analysis
  | .print value, _, analysis => value.scopes_analyze around analysis
  | .declare name none, _, _ => rfl
  | .declare name (some initializer), _, analysis =>
    scopes_define (initializer.scopes_analyze around (analysis.declare name)) name
  | .block body, _, analysis => (Stmt.touchesAll around body).scopes_within ∅ analysis
  | .branch condition thenBranch none, hformed, analysis => by
    have hthen := thenBranch.scopes_analyze around hformed.2.1 (condition.analyze around analysis)
    rw [hformed.2.2] at hthen
    exact hthen.trans (condition.scopes_analyze around analysis)
  | .branch condition thenBranch (some elseBranch), hformed, analysis => by
    have hthen := thenBranch.scopes_analyze around hformed.2.1.1
      (condition.analyze around analysis)
    have helse := elseBranch.scopes_analyze around hformed.2.2.1
      (thenBranch.analyze around (condition.analyze around analysis))
    rw [hformed.2.1.2] at hthen
    rw [hformed.2.2.2] at helse
    exact helse.trans (hthen.trans (condition.scopes_analyze around analysis))
  | .loop condition body, hformed, analysis => by
    have hbody := body.scopes_analyze around.loop hformed.2.1 (condition.analyze around analysis)
    rw [hformed.2.2] at hbody
    exact hbody.trans (condition.scopes_analyze around analysis)
  | .leave keyword, _, analysis => scopes_reportIf _ _ _ _
  | .function declaration, _, analysis => declaration.scopes_analyze around false _
  | .giveBack keyword none, _, analysis => scopes_reportIf _ _ _ _
  | .giveBack keyword (some value), _, analysis => by
    apply (value.scopes_analyze around _).trans
    simp [scopes_reportIf, Analysis.scopesAfter, Stmt.declared?]
  | .classDecl name methods, _, analysis =>
    (FunctionDecl.touchesAll around.classBody methods).scopes_within _ _
termination_by structural s => s

/-- The innermost scope after a declaration holds the name as complete. -/
theorem Analysis.scopes_declare_define (name : Token) {analysis : Analysis} {scope : Scope}
    {outer : List Scope} (h : analysis.scopes = scope :: outer) :
    ∃ scope' : Scope, ((analysis.declare name).define name).scopes = scope' :: outer ∧
      ∀ other, scope'[other]? = if name.lexeme = other then some true else scope[other]? := by
  by_cases hcontains : scope.contains name.lexeme
  · refine ⟨scope.insert name.lexeme true, ?_, fun other => ?_⟩
    · simp [declare, define, h, hcontains, report]
    · simp [Std.TreeMap.getElem?_insert]
  · refine ⟨(scope.insert name.lexeme false).insert name.lexeme true, ?_, fun other => ?_⟩
    · simp [declare, define, h, hcontains]
    · by_cases hname : name.lexeme = other <;> simp [Std.TreeMap.getElem?_insert, hname]

/-- The innermost scope at a function's body holds all parameters as complete. -/
theorem Analysis.scopes_parameters (names : List Token) {analysis : Analysis} {scope : Scope}
    {outer : List Scope} (h : analysis.scopes = scope :: outer) :
    ∃ scope' : Scope, (parameters names analysis).scopes = scope' :: outer ∧
      ∀ other, scope'[other]? =
        if other ∈ names.map Token.lexeme then some true else scope[other]? := by
  induction names generalizing analysis scope with
  | nil => exact ⟨scope, h, by simp⟩
  | cons name names ih =>
      obtain ⟨middle, hmiddle, hname⟩ := scopes_declare_define name h
      obtain ⟨scope', hscope', hnames⟩ := ih hmiddle
      refine ⟨scope', hscope', fun other => ?_⟩
      rw [hnames, hname]
      by_cases hmem : other ∈ names.map Token.lexeme
      · simp [hmem]
      · by_cases heq : name.lexeme = other
        · simp [heq]
        · simp [heq, Ne.symm heq, hmem]

end Lox
