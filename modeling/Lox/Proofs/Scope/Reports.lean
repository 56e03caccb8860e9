import Lox.Proofs.Scope.Place
import Lox.Proofs.Scope.Settled

/-!
# Errors in scopes are exact

Scope analysis reports what is wrong at the places of a program, place by place,
and nothing else.  Between statements the scopes of the analysis agree with those
of the tree and every declaration in them is complete.  Within the initializer of
a local variable the one declaration that is not complete is that of the variable.
-/

namespace Lox

open Analysis

open Occurrence (declaring)

namespace Analysis

/-- From one state of the analysis to the next, what is wrong at the places has
been reported in their order. -/
def Reports (before after : Analysis) (places : List Place) : Prop :=
  after.diagnostics.toList = before.diagnostics.toList ++ places.filterMap Place.report?

namespace Reports

variable {before middle after : Analysis} {place : Place} {first second : List Place}

theorem of_diagnostics (h : after.diagnostics = before.diagnostics) :
    Reports before after [] := by
  simp [Reports, h]

theorem append (hfirst : Reports before middle first) (hsecond : Reports middle after second) :
    Reports before after (first ++ second) := by
  rw [Reports, hsecond, hfirst, List.filterMap_append, List.append_assoc]

theorem cons (hfirst : Reports before middle [place]) (hsecond : Reports middle after second) :
    Reports before after (place :: second) :=
  hfirst.append hsecond

/-- A step that reports nothing may follow. -/
theorem silent (hfirst : Reports before middle first)
    (h : after.diagnostics = middle.diagnostics) : Reports before after first := by
  rw [Reports, h, hfirst]

/-- A report under the condition that makes the place wrong. -/
theorem reportIf {condition : Bool} {error : ScopeError}
    (h : place.error? = if condition then some error else none) (analysis : Analysis) :
    Reports analysis (analysis.reportIf condition place.token error) [place] := by
  cases condition <;> simp_all [Reports, Analysis.reportIf, Analysis.report, Place.report?]

/-- A keyword that gives back is checked twice and reported at most once, as
initializers are functions. -/
theorem giveBack (keyword : Token) (hasValue : Bool) (enclosing : List Enclosing)
    (scopes : List (List String)) (analysis : Analysis) :
    Reports analysis
      ((analysis.reportIf (!(Surroundings.of enclosing).inFunction) keyword
        .returnAtTopLevel).reportIf (hasValue && (Surroundings.of enclosing).inInitializer) keyword
          .returnFromInitializer)
      [⟨.giveBack hasValue, keyword, enclosing, scopes, none⟩] := by
  let place : Place := ⟨.giveBack hasValue, keyword, enclosing, scopes, none⟩
  cases hfunction : (Surroundings.of enclosing).inFunction with
  | false =>
      have hinitializer : (Surroundings.of enclosing).inInitializer = false := by
        rw [Bool.eq_false_iff]
        intro hinitializer
        rw [Surroundings.inFunction_of_inInitializer hinitializer] at hfunction
        cases hfunction
      have herror : place.error? = if true then some .returnAtTopLevel else none := by
        simp [place, Place.error?, hfunction]
      rw [hinitializer, Bool.and_false]
      exact Reports.reportIf herror analysis
  | true =>
      have herror : place.error? =
          if hasValue && (Surroundings.of enclosing).inInitializer then
            some .returnFromInitializer else none := by
        simp [place, Place.error?, hfunction]
      exact Reports.reportIf herror analysis

end Reports

/-! ## Single steps -/

variable {analysis : Analysis} {scopes : List (List String)}

theorem diagnostics_define (name : Token) (analysis : Analysis) :
    (analysis.define name).diagnostics = analysis.diagnostics := by
  rw [define]
  split <;> rfl

theorem diagnostics_resolve (id : Nat) (name : Token) (analysis : Analysis) :
    (analysis.resolve id name).diagnostics = analysis.diagnostics := by
  rw [resolve]
  split <;> rfl

/-- The scopes of the analysis as they are between statements. -/
structure Between (analysis : Analysis) (scopes : List (List String)) : Prop where
  agrees : analysis.Agrees scopes
  complete : Scope.Complete analysis.scopes

/-- In an expression the analysis takes those names for incomplete that are so in the
tree. -/
def Reading (analysis : Analysis) (scopes : List (List String)) (initialized? : Option String) :
    Prop :=
  ∀ name : Token, analysis.isInitializing name =
    Place.isInitializing scopes initialized? name.lexeme

theorem Reading.of_scopes {after : Analysis} {initialized? : Option String}
    (h : analysis.Reading scopes initialized?) (hscopes : after.scopes = analysis.scopes) :
    after.Reading scopes initialized? := by
  intro name
  rw [← h name, isInitializing, isInitializing, hscopes]

namespace Between

theorem of_scopes {after : Analysis} (h : analysis.Between scopes)
    (hscopes : after.scopes = analysis.scopes) : after.Between scopes :=
  ⟨h.agrees.of_scopes hscopes, hscopes ▸ h.complete⟩

theorem declared (h : analysis.Between scopes) (name : Token) :
    ((analysis.declare name).define name).Between (declaring [name.lexeme] scopes) :=
  ⟨h.agrees.declared name, complete_declared name h.complete⟩

theorem parameters {scope : List String} {outer : List (List String)}
    (h : analysis.Between (scope :: outer)) (names : List Token) :
    (Analysis.parameters names analysis).Between
      ((scope ++ names.map Token.lexeme) :: outer) :=
  ⟨h.agrees.parameters names, complete_parameters names h.complete⟩

theorem inside (h : analysis.Between scopes) {scope : Scope} {names : List String}
    (hnames : ∀ name, scope.contains name ↔ name ∈ names)
    (hcomplete : ∀ name : String, scope[name]? ≠ some false) :
    Between { analysis with scopes := scope :: analysis.scopes } (names :: scopes) :=
  ⟨h.agrees.inside hnames, h.complete.cons hcomplete⟩

/-- There is no scope, for global names, or the innermost ones agree. -/
theorem innermost (h : analysis.Between scopes) :
    (analysis.scopes = [] ∧ scopes = []) ∨
      ∃ (scope : Scope) (inner : List Scope) (names : List String) (outer : List (List String)),
        analysis.scopes = scope :: inner ∧ scopes = names :: outer ∧
          (∀ name, scope.contains name ↔ name ∈ names) ∧
          ∀ name : String, scope[name]? ≠ some false := by
  have hagrees := h.agrees
  rw [Agrees] at hagrees
  cases hscopes : analysis.scopes with
  | nil =>
      rw [hscopes] at hagrees
      cases hagrees
      exact .inl ⟨rfl, rfl⟩
  | cons scope inner =>
      rw [hscopes] at hagrees
      have hcomplete := h.complete scope (hscopes ▸ List.mem_cons_self)
      cases hagrees with
      | cons hnames _ => exact .inr ⟨scope, inner, _, _, rfl, rfl, hnames, hcomplete⟩

/-- Outside initializers nothing is incomplete. -/
theorem reading (h : analysis.Between scopes) : analysis.Reading scopes none := by
  intro name
  obtain ⟨hscopes, rfl⟩ | ⟨scope, inner, names, outer, hscopes, rfl, -, hcomplete⟩ := h.innermost
  · simp [isInitializing, Place.isInitializing, hscopes]
  · simpa [isInitializing, Place.isInitializing, hscopes] using hcomplete name.lexeme

/-- In the initializer of a variable its name alone is incomplete, unless the scope
had it before. -/
theorem reading_declare (h : analysis.Between scopes) (declared : Token) :
    (analysis.declare declared).Reading scopes (some declared.lexeme) := by
  intro name
  obtain ⟨hscopes, rfl⟩ | ⟨scope, inner, names, outer, hscopes, rfl, hnames, hcomplete⟩ :=
    h.innermost
  · simp [declare, isInitializing, Place.isInitializing, hscopes]
  · by_cases hearlier : declared.lexeme ∈ names
    · have hcontains := (hnames declared.lexeme).2 hearlier
      have hscopes' : (analysis.declare declared).scopes = scope :: inner := by
        simp [declare, hscopes, hcontains, report]
      have hincomplete : (scope[name.lexeme]? == some false) = false := by
        simpa using hcomplete name.lexeme
      rw [isInitializing, hscopes']
      refine hincomplete.trans (Eq.symm ?_)
      simpa [Place.isInitializing] using fun hname => hname ▸ hearlier
    · have hcontains : scope.contains declared.lexeme = false := by
        rw [Bool.eq_false_iff, Ne, hnames]
        exact hearlier
      have hscopes' : (analysis.declare declared).scopes =
          scope.insert declared.lexeme false :: inner := by
        rw [declare, hscopes]
        simp [hcontains]
      rw [isInitializing, hscopes']
      by_cases hname : declared.lexeme = name.lexeme
      · simp [Place.isInitializing, ← hname, hearlier]
      · simpa [Place.isInitializing, hname, Std.TreeMap.getElem?_insert] using
          hcomplete name.lexeme

/-- A declaration is reported if the scope holds the name already. -/
theorem reports_declare (h : analysis.Between scopes) (name : Token) (enclosing : List Enclosing) :
    Reports analysis (analysis.declare name) [⟨.declaration, name, enclosing, scopes, none⟩] := by
  obtain ⟨hscopes, rfl⟩ | ⟨scope, inner, names, outer, hscopes, rfl, hnames, -⟩ := h.innermost
  · simp [Reports, declare, hscopes, Place.report?, Place.error?, Place.holds]
  · have hholds : Place.holds (names :: outer) name.lexeme = scope.contains name.lexeme := by
      rw [Bool.eq_iff_iff, hnames]
      simp [Place.holds]
    cases hcontains : scope.contains name.lexeme <;>
      simp [Reports, declare, hscopes, Place.report?, Place.error?, hholds, hcontains, report]

end Between

end Analysis

/-! ## The pass over a tree -/

/-- A statement leaves no declaration incomplete. -/
theorem Stmt.complete_analyze : (s : Stmt) → (around : Surroundings) → (analysis : Analysis) →
    Scope.Complete analysis.scopes → Scope.Complete (s.analyze around analysis).scopes
  | .expression value, around, analysis, h => (value.scopes_analyze around analysis).symm ▸ h
  | .print value, around, analysis, h => (value.scopes_analyze around analysis).symm ▸ h
  | .declare name none, _, _, h => complete_declared name h
  | .declare name (some initializer), around, analysis, h => by
    have hscopes := initializer.scopes_analyze around (analysis.declare name)
    rw [Stmt.analyze, scopes_define hscopes name]
    exact complete_declared name h
  | .block body, around, analysis, h =>
    ((Stmt.touchesAll around body).scopes_within ∅ analysis).symm ▸ h
  | .branch condition thenBranch none, around, analysis, h =>
    thenBranch.complete_analyze around _ ((condition.scopes_analyze around analysis).symm ▸ h)
  | .branch condition thenBranch (some elseBranch), around, analysis, h =>
    elseBranch.complete_analyze around _ (thenBranch.complete_analyze around _
      ((condition.scopes_analyze around analysis).symm ▸ h))
  | .loop condition body, around, analysis, h =>
    body.complete_analyze around.loop _ ((condition.scopes_analyze around analysis).symm ▸ h)
  | .leave keyword, around, analysis, h =>
    (scopes_reportIf (!around.inLoop) keyword .breakOutsideLoop analysis).symm ▸ h
  | .function declaration, around, analysis, h =>
    (declaration.scopes_analyze around false _).symm ▸ complete_declared declaration.name h
  | .giveBack keyword none, around, analysis, h =>
    (scopes_reportIf (!around.inFunction) keyword .returnAtTopLevel analysis).symm ▸ h
  | .giveBack keyword (some value), around, analysis, h => by
    rw [Stmt.analyze, value.scopes_analyze, scopes_reportIf, scopes_reportIf]
    exact h
  | .classDecl name methods, around, analysis, h => by
    have hscopes := (FunctionDecl.touchesAll around.classBody methods).scopes_within
      ((∅ : Scope).insert "this" true) ((analysis.declare name).define name)
    rw [Stmt.analyze, hscopes]
    exact complete_declared name h
termination_by structural s => s

theorem Analysis.Between.after {analysis : Analysis} {scopes : List (List String)}
    (h : analysis.Between scopes) (s : Stmt) (around : Surroundings) :
    (s.analyze around analysis).Between (declaring s.declares scopes) :=
  ⟨s.agrees_analyze around analysis h.agrees, s.complete_analyze around analysis h.complete⟩

section Expressions

variable {scopes : List (List String)} {initialized? : Option String} (enclosing : List Enclosing)

mutual

theorem Expr.reports_analyze : (e : Expr) → (analysis : Analysis) →
    analysis.Reading scopes initialized? →
      Reports analysis (e.analyze (.of enclosing) analysis)
        (e.places enclosing scopes initialized?)
  | .literal _, _, _ => .of_diagnostics rfl
  | .grouping inner, analysis, h => inner.reports_analyze analysis h
  | .unary _ operand, analysis, h => operand.reports_analyze analysis h
  | .binary left _ right, analysis, h =>
    (left.reports_analyze analysis h).append
      (right.reports_analyze _ (h.of_scopes (left.scopes_analyze _ analysis)))
  | .logical left _ right, analysis, h =>
    (left.reports_analyze analysis h).append
      (right.reports_analyze _ (h.of_scopes (left.scopes_analyze _ analysis)))
  | .reference id name, analysis, h =>
    let place : Place := ⟨.reference, name, enclosing, scopes, initialized?⟩
    have herror : place.error? = if analysis.isInitializing name then
        some .ownInitializer else none := by
      rw [h name]
      rfl
    (Reports.reportIf herror analysis).silent (diagnostics_resolve id name _)
  | .assign id name value, analysis, h =>
    (value.reports_analyze analysis h).silent (diagnostics_resolve id name _)
  | .receiver id keyword, analysis, _ => by
    let place : Place := ⟨.receiver, keyword, enclosing, scopes, initialized?⟩
    have herror : place.error? = if !(Surroundings.of enclosing).inClass then
        some .thisOutsideClass else none := by
      cases hclass : (Surroundings.of enclosing).inClass <;> simp [place, Place.error?, hclass]
    have hreported := Reports.reportIf herror analysis
    rw [Expr.analyze]
    cases hclass : (Surroundings.of enclosing).inClass with
    | true =>
        rw [hclass] at hreported
        exact hreported.silent (diagnostics_resolve id keyword analysis)
    | false =>
        rw [hclass] at hreported
        exact hreported
  | .get object _, analysis, h => object.reports_analyze analysis h
  | .set object _ value, analysis, h =>
    (value.reports_analyze analysis h).append
      (object.reports_analyze _ (h.of_scopes (value.scopes_analyze _ analysis)))
  | .call callee _ arguments, analysis, h =>
    (callee.reports_analyze analysis h).append
      (Expr.reports_analyzeAll arguments _ (h.of_scopes (callee.scopes_analyze _ analysis)))
  | .list _ elements, analysis, h => Expr.reports_analyzeAll elements analysis h
termination_by structural e => e

theorem Expr.reports_analyzeAll : (es : List Expr) → (analysis : Analysis) →
    analysis.Reading scopes initialized? →
      Reports analysis (Expr.analyzeAll (.of enclosing) es analysis)
        (Expr.placesAll enclosing scopes initialized? es)
  | [], _, _ => .of_diagnostics rfl
  | e :: es, analysis, h =>
    (e.reports_analyze analysis h).append
      (Expr.reports_analyzeAll es _ (h.of_scopes (e.scopes_analyze _ analysis)))
termination_by structural es => es

end

end Expressions

theorem Analysis.Between.reports_parameters {analysis : Analysis} (enclosing : List Enclosing)
    (names : List Token) {scopes : List (List String)} (h : analysis.Between scopes) :
    Reports analysis (Analysis.parameters names analysis)
      (Place.declarations enclosing scopes names) := by
  induction names generalizing analysis scopes with
  | nil => exact .of_diagnostics rfl
  | cons name names ih =>
      have hname := (h.reports_declare name enclosing).silent (diagnostics_define name _)
      exact hname.cons (ih (h.declared name))

mutual

theorem Stmt.reports_analyze : (s : Stmt) → (enclosing : List Enclosing) →
    (analysis : Analysis) → {scopes : List (List String)} → analysis.Between scopes →
      Reports analysis (s.analyze (.of enclosing) analysis) (s.places enclosing scopes)
  | .expression value, enclosing, analysis, _, h =>
    value.reports_analyze enclosing analysis h.reading
  | .print value, enclosing, analysis, _, h => value.reports_analyze enclosing analysis h.reading
  | .declare name none, enclosing, _, _, h =>
    (h.reports_declare name enclosing).silent (diagnostics_define name _)
  | .declare name (some initializer), enclosing, analysis, _, h =>
    have hvalue := initializer.reports_analyze enclosing (analysis.declare name)
      (h.reading_declare name)
    (h.reports_declare name enclosing).cons (hvalue.silent (diagnostics_define name _))
  | .block body, enclosing, analysis, _, h =>
    Stmt.reports_analyzeAll body enclosing _ (h.inside (by simp) (by simp))
  | .branch condition thenBranch none, enclosing, analysis, _, h =>
    have hcondition := condition.scopes_analyze (.of enclosing) analysis
    (condition.reports_analyze enclosing analysis h.reading).append
      (thenBranch.reports_analyze enclosing _ (h.of_scopes hcondition))
  | .branch condition thenBranch (some elseBranch), enclosing, analysis, _, h =>
    have hcondition := h.of_scopes (condition.scopes_analyze (.of enclosing) analysis)
    ((condition.reports_analyze enclosing analysis h.reading).append
      (thenBranch.reports_analyze enclosing _ hcondition)).append
        (elseBranch.reports_analyze enclosing _ (hcondition.after thenBranch _))
  | .loop condition body, enclosing, analysis, _, h => by
    have hcondition := h.of_scopes (condition.scopes_analyze (.of enclosing) analysis)
    have hbody := body.reports_analyze (.loopBody :: enclosing) _ hcondition
    rw [Surroundings.of_loopBody] at hbody
    exact (condition.reports_analyze enclosing analysis h.reading).append hbody
  | .leave keyword, enclosing, analysis, scopes, _ => by
    let place : Place := ⟨.leave, keyword, enclosing, scopes, none⟩
    have herror : place.error? = if !(Surroundings.of enclosing).inLoop then
        some .breakOutsideLoop else none := by
      cases hloop : (Surroundings.of enclosing).inLoop <;> simp [place, Place.error?, hloop]
    exact Reports.reportIf herror analysis
  | .function declaration, enclosing, analysis, _, h =>
    have hname := (h.reports_declare declaration.name enclosing).silent
      (diagnostics_define declaration.name _)
    hname.cons (declaration.reports_analyze enclosing false _ (h.declared declaration.name))
  | .giveBack keyword none, enclosing, analysis, scopes, _ =>
    Reports.giveBack keyword false enclosing scopes analysis
  | .giveBack keyword (some value), enclosing, analysis, scopes, h =>
    have hreading := h.reading.of_scopes ((scopes_reportIf _ keyword .returnFromInitializer _).trans
      (scopes_reportIf _ keyword .returnAtTopLevel analysis))
    (Reports.giveBack keyword true enclosing scopes analysis).cons
      (value.reports_analyze enclosing _ hreading)
  | .classDecl name methods, enclosing, analysis, _, h => by
    have hname := (h.reports_declare name enclosing).silent (diagnostics_define name _)
    have hcomplete : ∀ other : String, ((∅ : Scope).insert "this" true)[other]? ≠ some false := by
      intro other
      rw [Std.TreeMap.getElem?_insert]
      split <;> simp
    have hmethods := FunctionDecl.reports_analyzeMethods methods (.classBody :: enclosing) _
      ((h.declared name).inside Scope.contains_this hcomplete)
    rw [Surroundings.of_classBody] at hmethods
    exact hname.cons hmethods
termination_by structural s => s

theorem Stmt.reports_analyzeAll : (ss : List Stmt) → (enclosing : List Enclosing) →
    (analysis : Analysis) → {scopes : List (List String)} → analysis.Between scopes →
      Reports analysis (Stmt.analyzeAll (.of enclosing) ss analysis)
        (Stmt.placesAll enclosing scopes ss)
  | [], _, _, _, _ => .of_diagnostics rfl
  | s :: ss, enclosing, analysis, _, h =>
    (s.reports_analyze enclosing analysis h).append
      (Stmt.reports_analyzeAll ss enclosing _ (h.after s _))
termination_by structural ss => ss

theorem FunctionDecl.reports_analyze : (d : FunctionDecl) → (enclosing : List Enclosing) →
    (isMethod : Bool) → (analysis : Analysis) → {scopes : List (List String)} →
      analysis.Between scopes →
      Reports analysis (d.analyze (.of enclosing) (isMethod && d.isInitializer) analysis)
        (d.places enclosing scopes isMethod)
  | .mk name names body, enclosing, isMethod, analysis, _, h => by
    have hinside : Between { analysis with scopes := ∅ :: analysis.scopes } ([] :: _) :=
      h.inside (by simp) (by simp)
    have hbody := Stmt.reports_analyzeAll body (.function name.lexeme isMethod :: enclosing) _
      (hinside.parameters names)
    have hfunction := Surroundings.of_function (.mk name names body) isMethod enclosing
    rw [FunctionDecl.name] at hfunction
    rw [hfunction] at hbody
    exact (hinside.reports_parameters _ names).append hbody
termination_by structural d => d

theorem FunctionDecl.reports_analyzeMethods : (ds : List FunctionDecl) →
    (enclosing : List Enclosing) → (analysis : Analysis) → {scopes : List (List String)} →
      analysis.Between scopes →
      Reports analysis (FunctionDecl.analyzeMethods (.of enclosing) ds analysis)
        (FunctionDecl.placesOfMethods enclosing scopes ds)
  | [], _, _, _, _ => .of_diagnostics rfl
  | d :: ds, enclosing, analysis, _, h =>
    have hmethod := d.reports_analyze enclosing true analysis h
    hmethod.append (FunctionDecl.reports_analyzeMethods ds enclosing _
      (h.of_scopes (d.scopes_analyze _ _ analysis)))
termination_by structural ds => ds

end

/-- Scope analysis reports each thing that is wrong in a program exactly once, in
the order of the places, and nothing else. -/
theorem Analysis.reports_violations (distances : Distances) (statements : List Stmt) :
    (ofProgram distances statements).2 =
        (Stmt.placesAll [] [] statements).filterMap Place.report? ∧
      ∀ place ∈ Stmt.placesAll [] [] statements, ∀ message,
        place.Violates message ↔
          ∃ error, place.report? = some (.scoping place.token error) ∧
            error.message = message := by
  have hstart : Between ⟨[], distances, #[]⟩ [] := ⟨.nil, by simp [Scope.Complete]⟩
  have hreports := Stmt.reports_analyzeAll statements [] _ hstart
  rw [Surroundings.of_nil] at hreports
  exact ⟨hreports, fun place _ message => place.violates_iff_report message⟩

/-- A loop outside the function, a value from an initializer and a variable read in
its own initializer; the second `break` and the receiver are in place. -/
example :
    let source :=
      "while (true) { fun f() { break; } break; } class C { init() { return this; } } {var a = a;}"
    let statements := (Parsed.ofSource source 0).statements
    (Analysis.ofProgram ∅ statements).2.map Diagnostic.message =
      ["Can only break out of loops.", "Can't return a value from an initializer.",
        "Can't read local variable in its own initializer."] := by
  decide +kernel

end Lox
