import Lox.Proofs.Scope.Pass

/-!
# Distances are lexical scope

Every occurrence of a name stands in the scopes that enclose it, and at the
occurrence each of them declares the names whose declarations begin before it.
This is read off the tree alone, for any tree: with errors in it, with numbers
given out in any order, and with declarations where the grammar has none.  The
distances that scope analysis records are those of the innermost scopes that
declare the names.
-/

namespace Lox

/-- An occurrence of a name in its place. -/
structure Occurrence where
  id : Nat
  name : Token
  isReceiver : Bool
  /-- Whether a class encloses it. -/
  inClass : Bool
  /-- What the enclosing scopes declare up to the occurrence, from the inside
  out.  Global names are in none of them. -/
  scopes : List (List String)

namespace Occurrence

/-- The occurrence is bound by a scope with `distance` scopes inside it: that
scope declares the name and none of those inside it does.  A receiver is bound
in classes only. -/
structure Bound (occurrence : Occurrence) (distance : Nat) : Prop where
  inClass : occurrence.isReceiver → occurrence.inClass
  declares : ∃ names, occurrence.scopes[distance]? = some names ∧
    occurrence.name.lexeme ∈ names
  innermost : ∀ closer < distance, ∀ names, occurrence.scopes[closer]? = some names →
    occurrence.name.lexeme ∉ names

/-- The scopes after further names have been declared in the innermost one. -/
def declaring (names : List String) : List (List String) → List (List String)
  | [] => []
  | scope :: outer => (scope ++ names) :: outer

end Occurrence

open Occurrence (declaring)

/-! ## Occurrences in their places -/

/-- The names that a statement declares in the scope it stands in, also from
inside branches and loops. -/
def Stmt.declares : Stmt → List String
  | .declare name _ => [name.lexeme]
  | .function declaration => [declaration.name.lexeme]
  | .classDecl name _ => [name.lexeme]
  | .branch _ thenBranch none => thenBranch.declares
  | .branch _ thenBranch (some elseBranch) => thenBranch.declares ++ elseBranch.declares
  | .loop _ body => body.declares
  | .expression _ | .print _ | .block _ | .leave _ | .giveBack _ _ => []
termination_by structural s => s

section Occurrences

mutual

/-- The occurrences in an expression, which declares nothing. -/
def Expr.occurrences (inClass : Bool) (scopes : List (List String)) : Expr → List Occurrence
  | .literal _ => []
  | .grouping inner => inner.occurrences inClass scopes
  | .unary _ operand => operand.occurrences inClass scopes
  | .binary left _ right => left.occurrences inClass scopes ++ right.occurrences inClass scopes
  | .logical left _ right => left.occurrences inClass scopes ++ right.occurrences inClass scopes
  | .reference id name => [⟨id, name, false, inClass, scopes⟩]
  | .assign id name value =>
    value.occurrences inClass scopes ++ [⟨id, name, false, inClass, scopes⟩]
  | .receiver id keyword => [⟨id, keyword, true, inClass, scopes⟩]
  | .get object _ => object.occurrences inClass scopes
  | .set object _ value => value.occurrences inClass scopes ++ object.occurrences inClass scopes
  | .call callee _ arguments =>
    callee.occurrences inClass scopes ++ Expr.occurrencesAll inClass scopes arguments
  | .list _ elements => Expr.occurrencesAll inClass scopes elements
termination_by structural e => e

def Expr.occurrencesAll (inClass : Bool) (scopes : List (List String)) :
    List Expr → List Occurrence
  | [] => []
  | e :: es => e.occurrences inClass scopes ++ Expr.occurrencesAll inClass scopes es
termination_by structural es => es

end

mutual

/-- The occurrences in a statement.  A name is declared already in its own
initializer or body. -/
def Stmt.occurrences (inClass : Bool) (scopes : List (List String)) : Stmt → List Occurrence
  | .expression value => value.occurrences inClass scopes
  | .print value => value.occurrences inClass scopes
  | .declare _ none => []
  | .declare name (some initializer) =>
    initializer.occurrences inClass (declaring [name.lexeme] scopes)
  | .block body => Stmt.occurrencesAll inClass ([] :: scopes) body
  | .branch condition thenBranch none =>
    condition.occurrences inClass scopes ++ thenBranch.occurrences inClass scopes
  | .branch condition thenBranch (some elseBranch) =>
    condition.occurrences inClass scopes ++ thenBranch.occurrences inClass scopes ++
      elseBranch.occurrences inClass (declaring thenBranch.declares scopes)
  | .loop condition body =>
    condition.occurrences inClass scopes ++ body.occurrences inClass scopes
  | .leave _ => []
  | .function declaration =>
    declaration.occurrences inClass (declaring [declaration.name.lexeme] scopes)
  | .giveBack _ none => []
  | .giveBack _ (some value) => value.occurrences inClass scopes
  | .classDecl name methods =>
    FunctionDecl.occurrencesAll true (["this"] :: declaring [name.lexeme] scopes) methods
termination_by structural s => s

/-- The occurrences in statements of one scope, where each statement sees what
those before it declare. -/
def Stmt.occurrencesAll (inClass : Bool) (scopes : List (List String)) :
    List Stmt → List Occurrence
  | [] => []
  | s :: ss =>
    s.occurrences inClass scopes ++ Stmt.occurrencesAll inClass (declaring s.declares scopes) ss
termination_by structural ss => ss

/-- The parameters and the body of a function share one scope. -/
def FunctionDecl.occurrences (inClass : Bool) (scopes : List (List String)) :
    FunctionDecl → List Occurrence
  | .mk _ parameters body =>
    Stmt.occurrencesAll inClass (parameters.map Token.lexeme :: scopes) body
termination_by structural declaration => declaration

def FunctionDecl.occurrencesAll (inClass : Bool) (scopes : List (List String)) :
    List FunctionDecl → List Occurrence
  | [] => []
  | d :: ds => d.occurrences inClass scopes ++ FunctionDecl.occurrencesAll inClass scopes ds
termination_by structural ds => ds

end

end Occurrences

/-! ## Recording distances -/

namespace Occurrence

/-- The number of scopes inside the innermost one that declares the name. -/
def distance? (occurrence : Occurrence) : Option Nat :=
  if occurrence.isReceiver && !occurrence.inClass then none
  else occurrence.scopes.findIdx? (occurrence.name.lexeme ∈ ·)

theorem distance?_eq_some_iff (occurrence : Occurrence) (distance : Nat) :
    occurrence.distance? = some distance ↔ occurrence.Bound distance := by
  have hclass : (occurrence.isReceiver → occurrence.inClass) ↔
      (occurrence.isReceiver && !occurrence.inClass) = false := by
    cases occurrence.isReceiver <;> cases occurrence.inClass <;> simp
  constructor
  · intro h
    rw [distance?] at h
    split at h
    · cases h
    · rename_i hnot
      obtain ⟨hlt, hmem, hbefore⟩ := List.findIdx?_eq_some_iff_getElem.1 h
      refine ⟨hclass.2 (by simpa using hnot), ⟨_, List.getElem?_eq_getElem hlt, ?_⟩, ?_⟩
      · simpa using hmem
      · intro closer hcloser names hnames
        obtain ⟨hlt', rfl⟩ := List.getElem?_eq_some_iff.1 hnames
        simpa using hbefore closer hcloser
  · intro h
    obtain ⟨names, hnames, hmem⟩ := h.declares
    obtain ⟨hlt, rfl⟩ := List.getElem?_eq_some_iff.1 hnames
    rw [distance?, hclass.1 h.inClass, if_neg (by simp)]
    refine List.findIdx?_eq_some_iff_getElem.2 ⟨hlt, by simpa using hmem, ?_⟩
    intro closer hcloser
    simpa using h.innermost closer hcloser _ (List.getElem?_eq_getElem (hcloser.trans hlt))

def record (distances : Distances) (occurrence : Occurrence) : Distances :=
  match occurrence.distance? with
  | some distance => distances.insert occurrence.id distance
  | none => distances

def recordAll (distances : Distances) (occurrences : List Occurrence) : Distances :=
  occurrences.foldl record distances

theorem recordAll_append (distances : Distances) (left right : List Occurrence) :
    recordAll distances (left ++ right) = recordAll (recordAll distances left) right :=
  List.foldl_append

theorem record_other (distances : Distances) (occurrence : Occurrence) {id : Nat}
    (h : id ≠ occurrence.id) : (record distances occurrence)[id]? = distances[id]? := by
  rw [record]
  split
  · rw [Std.TreeMap.getElem?_insert, if_neg (by simpa using h.symm)]
  · rfl

theorem recordAll_other (distances : Distances) {occurrences : List Occurrence} {id : Nat}
    (h : id ∉ occurrences.map Occurrence.id) :
    (recordAll distances occurrences)[id]? = distances[id]? := by
  induction occurrences generalizing distances with
  | nil => rfl
  | cons occurrence occurrences ih =>
      rw [List.map_cons, List.mem_cons, not_or] at h
      exact (ih (record distances occurrence) h.2).trans (record_other distances occurrence h.1)

/-- Each of several occurrences with numbers of their own gets its distance. -/
theorem recordAll_mem {distances : Distances} {occurrences : List Occurrence}
    (hdistinct : (occurrences.map Occurrence.id).Nodup)
    (hfresh : ∀ id ∈ occurrences.map Occurrence.id, distances[id]? = none)
    {occurrence : Occurrence} (hmem : occurrence ∈ occurrences) :
    (recordAll distances occurrences)[occurrence.id]? = occurrence.distance? := by
  induction occurrences generalizing distances with
  | nil => cases hmem
  | cons first occurrences ih =>
      rw [List.map_cons, List.nodup_cons] at hdistinct
      rw [List.map_cons, List.forall_mem_cons] at hfresh
      rcases List.mem_cons.1 hmem with rfl | hmem
      · have hlater := recordAll_other (record distances occurrence) hdistinct.1
        refine hlater.trans ?_
        rw [record]
        split
        · rename_i distance hdistance
          rw [Std.TreeMap.getElem?_insert_self, hdistance]
        · rename_i hdistance
          rw [hfresh.1, hdistance]
      · change (recordAll (record distances first) occurrences)[occurrence.id]? = _
        refine ih hdistinct.2 (fun id hid => ?_) hmem
        rw [record_other distances first fun heq => hdistinct.1 (heq ▸ hid)]
        exact hfresh.2 id hid

end Occurrence

/-! ## Every occurrence is listed -/

mutual

theorem Expr.ids_occurrences (inClass : Bool) (scopes : List (List String)) :
    (e : Expr) → (e.occurrences inClass scopes).map Occurrence.id = e.ids
  | .literal _ => rfl
  | .grouping inner => inner.ids_occurrences inClass scopes
  | .unary _ operand => operand.ids_occurrences inClass scopes
  | .binary left _ right => by
    rw [Expr.occurrences, List.map_append, left.ids_occurrences, right.ids_occurrences, Expr.ids]
  | .logical left _ right => by
    rw [Expr.occurrences, List.map_append, left.ids_occurrences, right.ids_occurrences, Expr.ids]
  | .reference _ _ => rfl
  | .assign _ _ value => by
    rw [Expr.occurrences, List.map_append, value.ids_occurrences, Expr.ids]
    rfl
  | .receiver _ _ => rfl
  | .get object _ => object.ids_occurrences inClass scopes
  | .set object _ value => by
    rw [Expr.occurrences, List.map_append, value.ids_occurrences, object.ids_occurrences, Expr.ids]
  | .call callee _ arguments => by
    rw [Expr.occurrences, List.map_append, callee.ids_occurrences, Expr.idsAll_occurrences,
      Expr.ids]
  | .list _ elements => Expr.idsAll_occurrences inClass scopes elements
termination_by structural e => e

theorem Expr.idsAll_occurrences (inClass : Bool) (scopes : List (List String)) :
    (es : List Expr) → (Expr.occurrencesAll inClass scopes es).map Occurrence.id = Expr.idsAll es
  | [] => rfl
  | e :: es => by
    rw [Expr.occurrencesAll, List.map_append, e.ids_occurrences, Expr.idsAll_occurrences,
      Expr.idsAll]
termination_by structural es => es

end

mutual

theorem Stmt.ids_occurrences (inClass : Bool) (scopes : List (List String)) :
    (s : Stmt) → (s.occurrences inClass scopes).map Occurrence.id = s.ids
  | .expression value => value.ids_occurrences inClass scopes
  | .print value => value.ids_occurrences inClass scopes
  | .declare _ none => rfl
  | .declare _ (some initializer) => initializer.ids_occurrences inClass _
  | .block body => Stmt.idsAll_occurrences inClass _ body
  | .branch condition thenBranch none => by
    rw [Stmt.occurrences, List.map_append, condition.ids_occurrences, thenBranch.ids_occurrences,
      Stmt.ids]
  | .branch condition thenBranch (some elseBranch) => by
    rw [Stmt.occurrences, List.map_append, List.map_append, condition.ids_occurrences,
      thenBranch.ids_occurrences, elseBranch.ids_occurrences, Stmt.ids]
  | .loop condition body => by
    rw [Stmt.occurrences, List.map_append, condition.ids_occurrences, body.ids_occurrences,
      Stmt.ids]
  | .leave _ => rfl
  | .function declaration => declaration.ids_occurrences inClass _
  | .giveBack _ none => rfl
  | .giveBack _ (some value) => value.ids_occurrences inClass scopes
  | .classDecl _ methods => FunctionDecl.idsAll_occurrences true _ methods
termination_by structural s => s

theorem Stmt.idsAll_occurrences (inClass : Bool) (scopes : List (List String)) :
    (ss : List Stmt) → (Stmt.occurrencesAll inClass scopes ss).map Occurrence.id = Stmt.idsAll ss
  | [] => rfl
  | s :: ss => by
    rw [Stmt.occurrencesAll, List.map_append, s.ids_occurrences, Stmt.idsAll_occurrences,
      Stmt.idsAll]
termination_by structural ss => ss

theorem FunctionDecl.ids_occurrences (inClass : Bool) (scopes : List (List String)) :
    (d : FunctionDecl) → (d.occurrences inClass scopes).map Occurrence.id = d.ids
  | .mk _ _ body => Stmt.idsAll_occurrences inClass _ body
termination_by structural d => d

theorem FunctionDecl.idsAll_occurrences (inClass : Bool) (scopes : List (List String)) :
    (ds : List FunctionDecl) →
      (FunctionDecl.occurrencesAll inClass scopes ds).map Occurrence.id = FunctionDecl.idsAll ds
  | [] => rfl
  | d :: ds => by
    rw [FunctionDecl.occurrencesAll, List.map_append, d.ids_occurrences,
      FunctionDecl.idsAll_occurrences, FunctionDecl.idsAll]
termination_by structural ds => ds

end

/-! ## Distances and scopes during the analysis -/

namespace Analysis

theorem distances_reportIf (condition : Bool) (token : Token) (error : ScopeError)
    (analysis : Analysis) :
    (analysis.reportIf condition token error).distances = analysis.distances := by
  cases condition <;> rfl

theorem distances_declare (name : Token) (analysis : Analysis) :
    (analysis.declare name).distances = analysis.distances := by
  rw [declare]
  split
  · rfl
  · split <;> rfl

theorem distances_define (name : Token) (analysis : Analysis) :
    (analysis.define name).distances = analysis.distances := by
  rw [define]
  split <;> rfl

theorem distances_parameters (names : List Token) (analysis : Analysis) :
    (parameters names analysis).distances = analysis.distances := by
  induction names generalizing analysis with
  | nil => rfl
  | cons name names ih =>
      rw [parameters, ih, distances_define, distances_declare]

end Analysis

/-- The scopes of the analysis hold the names that the scopes of the tree
declare, complete or not. -/
def Analysis.Agrees (analysis : Analysis) (scopes : List (List String)) : Prop :=
  List.Forall₂ (fun (scope : Scope) names => ∀ name, scope.contains name ↔ name ∈ names)
    analysis.scopes scopes

open Occurrence (record recordAll recordAll_append)

namespace Analysis.Agrees

variable {analysis after : Analysis} {scopes : List (List String)}

theorem of_scopes (h : analysis.Agrees scopes) (hscopes : after.scopes = analysis.scopes) :
    after.Agrees scopes := by
  rw [Agrees, hscopes]
  exact h

theorem distance? (h : analysis.Agrees scopes) (name : String) :
    Scope.distance? name analysis.scopes = scopes.findIdx? (name ∈ ·) := by
  rw [Agrees] at h
  generalize analysis.scopes = inside at h
  induction h with
  | nil => rfl
  | cons hscope _ ih =>
      rw [Scope.distance?, List.findIdx?_cons, ih]
      simp [hscope name]

theorem resolve (h : analysis.Agrees scopes) (id : Nat) (name : Token) (inClass isReceiver : Bool)
    (hclass : isReceiver → inClass) :
    (analysis.resolve id name).distances =
      record analysis.distances ⟨id, name, isReceiver, inClass, scopes⟩ := by
  have hdistance : Occurrence.distance? ⟨id, name, isReceiver, inClass, scopes⟩ =
      Scope.distance? name.lexeme analysis.scopes := by
    have hplain : (isReceiver && !inClass) = false := by
      cases isReceiver <;> cases inClass <;> simp_all
    rw [h.distance?, Occurrence.distance?, hplain, if_neg (by simp)]
  rw [Analysis.resolve, record, hdistance]
  cases Scope.distance? name.lexeme analysis.scopes <;> rfl

/-- Beginning a declaration makes the name one of the innermost scope. -/
theorem declare (h : analysis.Agrees scopes) (name : Token) :
    (analysis.declare name).Agrees (declaring [name.lexeme] scopes) := by
  unfold Agrees at h ⊢
  rw [Analysis.declare]
  split
  · rename_i hnil
    rw [hnil] at h
    cases h
    rw [hnil]
    exact .nil
  · rename_i scope outer hscopes
    rw [hscopes] at h
    cases h with
    | cons hscope houter =>
        split
        · rename_i hcontains
          rw [report, hscopes]
          refine .cons (fun other => ?_) houter
          rw [hscope, List.mem_append, List.mem_singleton]
          exact ⟨.inl, fun hother => hother.elim id fun heq => heq ▸ (hscope _).1 hcontains⟩
        · refine .cons (fun other => ?_) houter
          rw [Std.TreeMap.contains_insert, List.mem_append, List.mem_singleton, ← hscope,
            Bool.or_eq_true, beq_iff_eq, Std.LawfulEqOrd.compare_eq_iff_eq, or_comm,
            @eq_comm _ other]

/-- Completing a declaration changes nothing about which names there are. -/
theorem define (h : analysis.Agrees scopes) (name : Token)
    (hdeclared : ∀ scope ∈ scopes.head?, name.lexeme ∈ scope) :
    (analysis.define name).Agrees scopes := by
  unfold Agrees at h ⊢
  rw [Analysis.define]
  split
  · exact h
  · rename_i scope outer hscopes
    rw [hscopes] at h
    cases h with
    | cons hscope houter =>
        refine .cons (fun other => ?_) houter
        rw [Std.TreeMap.contains_insert, ← hscope]
        have hname := (hscope name.lexeme).2 (hdeclared _ rfl)
        simp only [Bool.or_eq_true, beq_iff_eq, or_iff_right_iff_imp]
        rintro hother
        rw [Std.LawfulEqOrd.compare_eq_iff_eq] at hother
        exact hother ▸ hname

theorem mem_declaring (name : String) (names : List String) (hmem : name ∈ names)
    (scopes : List (List String)) : ∀ scope ∈ (declaring names scopes).head?, name ∈ scope := by
  cases scopes with
  | nil => rintro scope ⟨⟩
  | cons scope outer =>
      rintro _ ⟨⟩
      exact List.mem_append_right _ hmem

theorem declared (h : analysis.Agrees scopes) (name : Token) :
    ((analysis.declare name).define name).Agrees (declaring [name.lexeme] scopes) :=
  (h.declare name).define name (mem_declaring _ _ (List.mem_singleton_self _) scopes)

theorem parameters (names : List Token) {scope : List String} {outer : List (List String)}
    (h : analysis.Agrees (scope :: outer)) :
    (Analysis.parameters names analysis).Agrees ((scope ++ names.map Token.lexeme) :: outer) := by
  induction names generalizing analysis scope with
  | nil => simpa [Analysis.parameters] using h
  | cons name names ih =>
      have hnames := ih (h.declared name)
      rwa [List.append_assoc] at hnames

end Analysis.Agrees

/-! ## The pass over a tree -/

open Analysis

section Pass

variable (around : Surroundings) {analysis : Analysis} {scopes : List (List String)}

mutual

theorem Expr.distances_analyze : (e : Expr) → (analysis : Analysis) → analysis.Agrees scopes →
    (e.analyze around analysis).distances =
      recordAll analysis.distances (e.occurrences around.inClass scopes)
  | .literal _, _, _ => rfl
  | .grouping inner, analysis, h => inner.distances_analyze analysis h
  | .unary _ operand, analysis, h => operand.distances_analyze analysis h
  | .binary left _ right, analysis, h => by
    have hright := right.distances_analyze _ (h.of_scopes (left.scopes_analyze around analysis))
    rw [Expr.occurrences, recordAll_append, ← left.distances_analyze analysis h]
    exact hright
  | .logical left _ right, analysis, h => by
    have hright := right.distances_analyze _ (h.of_scopes (left.scopes_analyze around analysis))
    rw [Expr.occurrences, recordAll_append, ← left.distances_analyze analysis h]
    exact hright
  | .reference id name, analysis, h => by
    have hreported : (analysis.reportIf (analysis.isInitializing name) name
        .ownInitializer).distances = analysis.distances := by
      cases analysis.isInitializing name <;> rfl
    have hresolved := (h.of_scopes (scopes_reportIf (analysis.isInitializing name) name
      .ownInitializer analysis)).resolve id name around.inClass false (by simp)
    rw [hreported] at hresolved
    exact hresolved
  | .assign id name value, analysis, h => by
    have hresolved := (h.of_scopes (value.scopes_analyze around analysis)).resolve id name
      around.inClass false (by simp)
    rw [Expr.occurrences, recordAll_append, ← value.distances_analyze analysis h]
    exact hresolved
  | .receiver id keyword, analysis, h => by
    rw [Expr.analyze, Expr.occurrences]
    split
    · rename_i hclass
      exact h.resolve id keyword around.inClass true fun _ => hclass
    · rename_i hclass
      have hnone : Occurrence.distance? ⟨id, keyword, true, around.inClass, scopes⟩ = none := by
        simp [Occurrence.distance?, hclass]
      simp [recordAll, record, hnone, report]
  | .get object _, analysis, h => object.distances_analyze analysis h
  | .set object _ value, analysis, h => by
    have hobject := object.distances_analyze _ (h.of_scopes (value.scopes_analyze around analysis))
    rw [Expr.occurrences, recordAll_append, ← value.distances_analyze analysis h]
    exact hobject
  | .call callee _ arguments, analysis, h => by
    have hmore := Expr.distances_analyzeAll arguments _
      (h.of_scopes (callee.scopes_analyze around analysis))
    rw [Expr.occurrences, recordAll_append, ← callee.distances_analyze analysis h]
    exact hmore
  | .list _ elements, analysis, h => Expr.distances_analyzeAll elements analysis h
termination_by structural e => e

theorem Expr.distances_analyzeAll : (es : List Expr) → (analysis : Analysis) →
    analysis.Agrees scopes →
    (Expr.analyzeAll around es analysis).distances =
      recordAll analysis.distances (Expr.occurrencesAll around.inClass scopes es)
  | [], _, _ => rfl
  | e :: es, analysis, h => by
    have hmore := Expr.distances_analyzeAll es _ (h.of_scopes (e.scopes_analyze around analysis))
    rw [Expr.occurrencesAll, recordAll_append, ← e.distances_analyze analysis h]
    exact hmore
termination_by structural es => es

end

end Pass

/-- A part in a scope of its own leaves the scopes around it in agreement. -/
theorem Analysis.Agrees.within {ids : List Nat} {pass : Analysis → Analysis}
    {analysis : Analysis} {scopes : List (List String)} (hpass : Touches ids pass) (scope : Scope)
    (h : analysis.Agrees scopes) : (analysis.within scope pass).Agrees scopes :=
  h.of_scopes (hpass.scopes_within scope analysis)

theorem Analysis.Agrees.inside {scope : Scope} {names : List String}
    (hscope : ∀ name, scope.contains name ↔ name ∈ names) {analysis : Analysis}
    {scopes : List (List String)} (h : analysis.Agrees scopes) :
    Agrees { analysis with scopes := scope :: analysis.scopes } (names :: scopes) :=
  .cons hscope h

/-- The scope of a class body declares `this` alone. -/
theorem Scope.contains_this (name : String) :
    ((∅ : Scope).insert "this" true).contains name ↔ name ∈ ["this"] := by
  rw [Std.TreeMap.contains_insert, List.mem_singleton, Bool.or_eq_true, beq_iff_eq,
    Std.LawfulEqOrd.compare_eq_iff_eq, @eq_comm _ name]
  simp

theorem declaring_append (names names' : List String) (scopes : List (List String)) :
    declaring (names ++ names') scopes = declaring names' (declaring names scopes) := by
  cases scopes with
  | nil => rfl
  | cons scope outer => simp [declaring]

theorem declaring_nil (scopes : List (List String)) : declaring [] scopes = scopes := by
  cases scopes with
  | nil => rfl
  | cons scope outer => simp [declaring]

/-- A statement leaves the names behind that it declares. -/
theorem Stmt.agrees_analyze : (s : Stmt) → (around : Surroundings) → (analysis : Analysis) →
    {scopes : List (List String)} → analysis.Agrees scopes →
      (s.analyze around analysis).Agrees (declaring s.declares scopes)
  | .expression value, around, analysis, scopes, h => by
    rw [Stmt.declares, declaring_nil]
    exact h.of_scopes (value.scopes_analyze around analysis)
  | .print value, around, analysis, scopes, h => by
    rw [Stmt.declares, declaring_nil]
    exact h.of_scopes (value.scopes_analyze around analysis)
  | .declare name none, _, _, _, h => h.declared name
  | .declare name (some initializer), around, analysis, scopes, h =>
    ((h.declare name).of_scopes (initializer.scopes_analyze around _)).define name
      (Analysis.Agrees.mem_declaring _ _ (List.mem_singleton_self _) scopes)
  | .block body, around, analysis, scopes, h => by
    rw [Stmt.declares, declaring_nil]
    exact h.within (Stmt.touchesAll around body) ∅
  | .branch condition thenBranch none, around, analysis, scopes, h =>
    thenBranch.agrees_analyze around _ (h.of_scopes (condition.scopes_analyze around analysis))
  | .branch condition thenBranch (some elseBranch), around, analysis, scopes, h => by
    rw [Stmt.declares, declaring_append]
    exact elseBranch.agrees_analyze around _
      (thenBranch.agrees_analyze around _ (h.of_scopes (condition.scopes_analyze around analysis)))
  | .loop condition body, around, analysis, scopes, h =>
    body.agrees_analyze around.loop _ (h.of_scopes (condition.scopes_analyze around analysis))
  | .leave keyword, around, analysis, scopes, h => by
    rw [Stmt.declares, declaring_nil]
    exact h.of_scopes (scopes_reportIf _ _ _ _)
  | .function declaration, around, _, _, h =>
    (h.declared declaration.name).of_scopes (declaration.scopes_analyze around false _)
  | .giveBack keyword none, around, analysis, scopes, h => by
    rw [Stmt.declares, declaring_nil]
    exact h.of_scopes (scopes_reportIf _ _ _ _)
  | .giveBack keyword (some value), around, analysis, scopes, h => by
    rw [Stmt.declares, declaring_nil]
    refine h.of_scopes ((value.scopes_analyze around _).trans ?_)
    rw [scopes_reportIf, scopes_reportIf]
  | .classDecl name methods, around, _, _, h =>
    (h.declared name).within (FunctionDecl.touchesAll around.classBody methods) _
termination_by structural s => s

mutual

theorem Stmt.distances_analyze : (s : Stmt) → (around : Surroundings) → (analysis : Analysis) →
    {scopes : List (List String)} → analysis.Agrees scopes →
      (s.analyze around analysis).distances =
        recordAll analysis.distances (s.occurrences around.inClass scopes)
  | .expression value, around, analysis, _, h => value.distances_analyze around analysis h
  | .print value, around, analysis, _, h => value.distances_analyze around analysis h
  | .declare name none, _, analysis, _, _ =>
    (distances_define name _).trans (distances_declare name analysis)
  | .declare name (some initializer), around, analysis, _, h => by
    have hvalue := initializer.distances_analyze around _ (h.declare name)
    rw [distances_declare] at hvalue
    exact (distances_define name _).trans hvalue
  | .block body, around, analysis, _, h =>
    Stmt.distances_analyzeAll body around _ (.inside (by simp) h)
  | .branch condition thenBranch none, around, analysis, _, h => by
    have hthen := thenBranch.distances_analyze around _
      (h.of_scopes (condition.scopes_analyze around analysis))
    rw [Stmt.occurrences, recordAll_append, ← condition.distances_analyze around analysis h]
    exact hthen
  | .branch condition thenBranch (some elseBranch), around, analysis, _, h => by
    have hcondition := h.of_scopes (condition.scopes_analyze around analysis)
    have helse := elseBranch.distances_analyze around _
      (thenBranch.agrees_analyze around _ hcondition)
    rw [Stmt.occurrences, recordAll_append, recordAll_append,
      ← condition.distances_analyze around analysis h,
      ← thenBranch.distances_analyze around _ hcondition]
    exact helse
  | .loop condition body, around, analysis, _, h => by
    have hbody := body.distances_analyze around.loop _
      (h.of_scopes (condition.scopes_analyze around analysis))
    rw [Stmt.occurrences, recordAll_append, ← condition.distances_analyze around analysis h]
    exact hbody
  | .leave keyword, around, analysis, _, _ => distances_reportIf _ _ _ _
  | .function declaration, around, analysis, _, h => by
    have hbody := declaration.distances_analyze around false _ (h.declared declaration.name)
    rw [distances_define, distances_declare] at hbody
    exact hbody
  | .giveBack keyword none, around, analysis, _, _ => distances_reportIf _ _ _ _
  | .giveBack keyword (some value), around, analysis, _, h => by
    have hvalue := value.distances_analyze around _
      (h.of_scopes ((scopes_reportIf around.inInitializer keyword .returnFromInitializer _).trans
        (scopes_reportIf (!around.inFunction) keyword .returnAtTopLevel analysis)))
    rw [distances_reportIf, distances_reportIf] at hvalue
    exact hvalue
  | .classDecl name methods, around, analysis, _, h => by
    have hmethods := FunctionDecl.distances_analyzeMethods methods around.classBody _
      (Analysis.Agrees.inside Scope.contains_this (h.declared name))
    refine hmethods.trans ?_
    dsimp only
    rw [distances_define, distances_declare]
    rfl
termination_by structural s => s

theorem Stmt.distances_analyzeAll : (ss : List Stmt) → (around : Surroundings) →
    (analysis : Analysis) → {scopes : List (List String)} → analysis.Agrees scopes →
      (Stmt.analyzeAll around ss analysis).distances =
        recordAll analysis.distances (Stmt.occurrencesAll around.inClass scopes ss)
  | [], _, _, _, _ => rfl
  | s :: ss, around, analysis, _, h => by
    have hmore := Stmt.distances_analyzeAll ss around _ (s.agrees_analyze around analysis h)
    rw [Stmt.occurrencesAll, recordAll_append, ← s.distances_analyze around analysis h]
    exact hmore
termination_by structural ss => ss

theorem FunctionDecl.distances_analyze : (d : FunctionDecl) → (around : Surroundings) →
    (isInitializer : Bool) → (analysis : Analysis) → {scopes : List (List String)} →
      analysis.Agrees scopes →
      (d.analyze around isInitializer analysis).distances =
        recordAll analysis.distances (d.occurrences around.inClass scopes)
  | .mk _ names body, around, isInitializer, analysis, _, h => by
    have hempty : ∀ name, (∅ : Scope).contains name ↔ name ∈ ([] : List String) := by simp
    have hbody := Stmt.distances_analyzeAll body (around.function isInitializer) _
      ((Analysis.Agrees.inside hempty h).parameters names)
    rw [distances_parameters] at hbody
    exact hbody
termination_by structural d => d

theorem FunctionDecl.distances_analyzeMethods : (ds : List FunctionDecl) →
    (around : Surroundings) → (analysis : Analysis) → {scopes : List (List String)} →
      analysis.Agrees scopes →
      (FunctionDecl.analyzeMethods around ds analysis).distances =
        recordAll analysis.distances (FunctionDecl.occurrencesAll around.inClass scopes ds)
  | [], _, _, _, _ => rfl
  | d :: ds, around, analysis, _, h => by
    have hmore := FunctionDecl.distances_analyzeMethods ds around _
      (h.of_scopes (d.scopes_analyze around d.isInitializer analysis))
    rw [FunctionDecl.occurrencesAll, recordAll_append,
      ← d.distances_analyze around d.isInitializer analysis h]
    exact hmore
termination_by structural ds => ds

end

/-- Scope analysis records lexical scope and nothing else: an occurrence gets the
distance of the innermost scope that declares its name before it, one that no
scope binds gets none, and other numbers keep what they had. -/
theorem Analysis.records_lexical {statements : List Stmt} {distances : Distances}
    (hdistinct : (Stmt.idsAll statements).Nodup)
    (hfresh : ∀ id ∈ Stmt.idsAll statements, distances[id]? = none) :
    (Stmt.occurrencesAll false [] statements).map Occurrence.id = Stmt.idsAll statements ∧
      (∀ occurrence ∈ Stmt.occurrencesAll false [] statements, ∀ distance,
        (ofProgram distances statements).1[occurrence.id]? = some distance ↔
          occurrence.Bound distance) ∧
      ∀ id ∉ Stmt.idsAll statements,
        (ofProgram distances statements).1[id]? = distances[id]? := by
  have hids := Stmt.idsAll_occurrences false [] statements
  have hrecorded : (ofProgram distances statements).1 =
      recordAll distances (Stmt.occurrencesAll false [] statements) :=
    Stmt.distances_analyzeAll statements {} ⟨[], distances, #[]⟩ .nil
  rw [← hids] at hdistinct hfresh
  refine ⟨hids, fun occurrence hmem distance => ?_, fun id hid => ?_⟩
  · rw [hrecorded, Occurrence.recordAll_mem hdistinct hfresh hmem]
    exact occurrence.distance?_eq_some_iff distance
  · rw [hrecorded]
    exact Occurrence.recordAll_other distances (hids ▸ hid)

/-- Names bound in their own initializer and body, an assignment to a global name
and a receiver outside every class. -/
theorem Analysis.records_lexical_of_nested :
    let source :=
      "{ var a = a; fun f(b) { return a = f; } class C { m() { return this; } } } this; g = 1;"
    let statements := (Parsed.ofSource source 0).statements
    let after := (ofProgram ((∅ : Distances).insert 9 7) statements).1
    Stmt.idsAll statements = [0, 2, 3, 4, 5, 7] ∧
      [0, 2, 3, 4, 5, 7, 9].map (after[·]?) =
        [some 0, some 1, some 1, some 1, none, none, some 7] ∧
      ∀ occurrence ∈ Stmt.occurrencesAll false [] statements, ∀ distance,
        after[occurrence.id]? = some distance ↔ occurrence.Bound distance := by
  intro source statements after
  have hids : Stmt.idsAll statements = [0, 2, 3, 4, 5, 7] := by decide +kernel
  have hafter : [0, 2, 3, 4, 5, 7, 9].map (after[·]?) =
      [some 0, some 1, some 1, some 1, none, none, some 7] := by decide +kernel
  have hdistinct : (Stmt.idsAll statements).Nodup := by decide +kernel
  have hfresh : ∀ id ∈ Stmt.idsAll statements, ((∅ : Distances).insert 9 7)[id]? = none := by
    decide +kernel
  exact ⟨hids, hafter, (Analysis.records_lexical hdistinct hfresh).2.1⟩

end Lox
