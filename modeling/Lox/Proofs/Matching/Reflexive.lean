import Lox.Proofs.Evaluation.Grounds
import Lox.Proofs.Matching.Machine

/-!
# What matches itself

A tree matches itself as soon as each of its name occurrences corresponds to
itself and so does every line.  Hence the store of a healthy machine matches
itself, since its functions come from programs that have been accepted.
-/

namespace Lox

variable {c : Correspondence}

theorem Token.matches_self (hlines : ∀ line, c.lines line line) (token : Token) :
    token.Matches c token :=
  ⟨rfl, rfl, hlines token.line⟩

theorem TokenStream.matches_self (hlines : ∀ line, c.lines line line) (stream : TokenStream) :
    stream.Matches c stream :=
  ⟨List.forall₂_same.2 fun token _ => token.matches_self hlines, stream.ending.matches_self hlines⟩

theorem Diagnostic.matches_self (hlines : ∀ line, c.lines line line) (diagnostic : Diagnostic) :
    diagnostic.Matches c diagnostic := by
  cases diagnostic with
  | lexical line error => exact .lexical error (hlines line)
  | syntactic token error => exact .syntactic error (token.matches_self hlines)
  | scoping token error => exact .scoping error (token.matches_self hlines)

/-! ## Trees -/

mutual

theorem Expr.matches_self (hlines : ∀ line, c.lines line line) :
    (e : Expr) → (∀ id ∈ e.ids, c.ids id id) → e.Matches c e
  | .literal value, _ => .literal value
  | .grouping inner, h => .grouping (inner.matches_self hlines h)
  | .unary operator operand, h =>
    .unary (operator.matches_self hlines) (operand.matches_self hlines h)
  | .binary left operator right, h => by
    rw [Expr.ids, List.forall_mem_append] at h
    exact .binary (left.matches_self hlines h.1) (operator.matches_self hlines)
      (right.matches_self hlines h.2)
  | .logical left operator right, h => by
    rw [Expr.ids, List.forall_mem_append] at h
    exact .logical (left.matches_self hlines h.1) (operator.matches_self hlines)
      (right.matches_self hlines h.2)
  | .reference id name, h =>
    .reference (h id (List.mem_singleton_self id)) (name.matches_self hlines)
  | .assign id name value, h => by
    rw [Expr.ids, List.forall_mem_append] at h
    exact .assign (h.2 id (List.mem_singleton_self id)) (name.matches_self hlines)
      (value.matches_self hlines h.1)
  | .receiver id keyword, h =>
    .receiver (h id (List.mem_singleton_self id)) (keyword.matches_self hlines)
  | .get object name, h => .get (object.matches_self hlines h) (name.matches_self hlines)
  | .set object name value, h => by
    rw [Expr.ids, List.forall_mem_append] at h
    exact .set (object.matches_self hlines h.2) (name.matches_self hlines)
      (value.matches_self hlines h.1)
  | .call callee closing arguments, h => by
    rw [Expr.ids, List.forall_mem_append] at h
    exact .call (callee.matches_self hlines h.1) (closing.matches_self hlines)
      (Expr.matchesAll_self hlines arguments h.2)
  | .list closing elements, h =>
    .list (closing.matches_self hlines) (Expr.matchesAll_self hlines elements h)
termination_by structural e => e

theorem Expr.matchesAll_self (hlines : ∀ line, c.lines line line) :
    (es : List Expr) → (∀ id ∈ Expr.idsAll es, c.ids id id) →
      List.Forall₂ (Expr.Matches c) es es
  | [], _ => .nil
  | e :: es, h => by
    rw [Expr.idsAll, List.forall_mem_append] at h
    exact .cons (e.matches_self hlines h.1) (Expr.matchesAll_self hlines es h.2)
termination_by structural es => es

end

mutual

theorem Stmt.matches_self (hlines : ∀ line, c.lines line line) :
    (s : Stmt) → (∀ id ∈ s.ids, c.ids id id) → s.Matches c s
  | .expression value, h => .expression (value.matches_self hlines h)
  | .print value, h => .print (value.matches_self hlines h)
  | .declare name none, _ => .declare (name.matches_self hlines) .none
  | .declare name (some initializer), h =>
    .declare (name.matches_self hlines) (.some (initializer.matches_self hlines h))
  | .block body, h => .block (Stmt.matchesAll_self hlines body h)
  | .branch condition thenBranch none, h => by
    rw [Stmt.ids, List.forall_mem_append] at h
    exact .branch (condition.matches_self hlines h.1) (thenBranch.matches_self hlines h.2) .none
  | .branch condition thenBranch (some elseBranch), h => by
    rw [Stmt.ids, List.forall_mem_append, List.forall_mem_append] at h
    exact .branch (condition.matches_self hlines h.1.1) (thenBranch.matches_self hlines h.1.2)
      (.some (elseBranch.matches_self hlines h.2))
  | .loop condition body, h => by
    rw [Stmt.ids, List.forall_mem_append] at h
    exact .loop (condition.matches_self hlines h.1) (body.matches_self hlines h.2)
  | .leave keyword, _ => .leave (keyword.matches_self hlines)
  | .function declaration, h => .function (declaration.matches_self hlines h)
  | .giveBack keyword none, _ => .giveBack (keyword.matches_self hlines) .none
  | .giveBack keyword (some value), h =>
    .giveBack (keyword.matches_self hlines) (.some (value.matches_self hlines h))
  | .classDecl name methods, h =>
    .classDecl (name.matches_self hlines) (FunctionDecl.matchesAll_self hlines methods h)
termination_by structural s => s

theorem Stmt.matchesAll_self (hlines : ∀ line, c.lines line line) :
    (ss : List Stmt) → (∀ id ∈ Stmt.idsAll ss, c.ids id id) →
      List.Forall₂ (Stmt.Matches c) ss ss
  | [], _ => .nil
  | s :: ss, h => by
    rw [Stmt.idsAll, List.forall_mem_append] at h
    exact .cons (s.matches_self hlines h.1) (Stmt.matchesAll_self hlines ss h.2)
termination_by structural ss => ss

theorem FunctionDecl.matches_self (hlines : ∀ line, c.lines line line) :
    (d : FunctionDecl) → (∀ id ∈ d.ids, c.ids id id) → d.Matches c d
  | .mk name _ body, h =>
    .mk (name.matches_self hlines) (List.forall₂_same.2 fun token _ => token.matches_self hlines)
      (Stmt.matchesAll_self hlines body h)
termination_by structural d => d

theorem FunctionDecl.matchesAll_self (hlines : ∀ line, c.lines line line) :
    (ds : List FunctionDecl) → (∀ id ∈ FunctionDecl.idsAll ds, c.ids id id) →
      List.Forall₂ (FunctionDecl.Matches c) ds ds
  | [], _ => .nil
  | d :: ds, h => by
    rw [FunctionDecl.idsAll, List.forall_mem_append] at h
    exact .cons (d.matches_self hlines h.1) (FunctionDecl.matchesAll_self hlines ds h.2)
termination_by structural ds => ds

end

/-! ## Values -/

section Sound

variable {programs : List Program} {frames : Frames} {labels : List Region}

/-- A function at which the analysis of a program has arrived matches itself. -/
theorem Closure.matches_self {closure : Closure} (hlines : ∀ line, c.lines line line)
    (hids : ∀ program ∈ programs, ∀ id ∈ program.ids, c.ids id id)
    (h : ∃ program ∈ programs, ∃ site,
      Reached program (.function closure.isInitializer closure.declaration) site) :
    closure.Matches c closure := by
  obtain ⟨program, hprogram, site, hreached⟩ := h
  have hdeclaration : closure.declaration.Matches c closure.declaration := by
    apply FunctionDecl.matches_self hlines
    intro id hid
    exact hids program hprogram id (hreached.ids_subset hid)
  exact ⟨rfl, hdeclaration, rfl, rfl⟩

theorem ClassValue.Sound.matches_self {cls : ClassValue} (hlines : ∀ line, c.lines line line)
    (hids : ∀ program ∈ programs, ∀ id ∈ program.ids, c.ids id id)
    (h : cls.Sound programs frames labels) : cls.Matches c cls := by
  have hmethods : ∀ name : String,
      Option.Rel (Closure.Matches c) cls.methods[name]? cls.methods[name]? := by
    intro name
    apply rel_self
    intro method hmethod
    obtain ⟨program, hprogram, site, -, -, hreached, -⟩ := h name method hmethod
    exact method.matches_self hlines hids ⟨program, hprogram, site, hreached⟩
  exact ⟨rfl, rfl, hmethods⟩

theorem Value.Sound.matches_self {value : Value} (hlines : ∀ line, c.lines line line)
    (hids : ∀ program ∈ programs, ∀ id ∈ program.ids, c.ids id id)
    (h : value.Sound programs frames labels) : value.Matches c value := by
  cases value with
  | nil => exact .nil
  | truth value => exact .truth value
  | number value => exact .number value
  | text value => exact .text value
  | function closure =>
      obtain ⟨program, hprogram, site, hreached, -⟩ := h
      exact .function (closure.matches_self hlines hids ⟨program, hprogram, site, hreached⟩)
  | native native => exact .native native
  | classValue cls => exact .classValue (ClassValue.Sound.matches_self hlines hids h)
  | object cls id => exact .object (ClassValue.Sound.matches_self hlines hids h) id
  | list id => exact .list id

end Sound

theorem Store.All.matches_self {store : Store} (h : store.All fun value => value.Matches c value) :
    store.Matches c store :=
  (Store.All.like_self (h.mono fun _ => Value.Matches.like)).matches
    ⟨rfl, fun _ => rfl, fun frame name => rel_self (h.frames frame name)⟩

/-- If the numbers in the programs of a healthy machine correspond to themselves,
the store matches itself. -/
theorem Machine.Healthy.matches_self {machine : Machine} {programs : List Program}
    {labels : List Region} (hlines : ∀ line, c.lines line line)
    (hids : ∀ program ∈ programs, ∀ id ∈ program.ids, c.ids id id)
    (h : machine.Healthy programs labels) : machine.store.Matches c machine.store :=
  (h.values.mono fun _ hvalue => hvalue.matches_self hlines hids).matches_self

end Lox
