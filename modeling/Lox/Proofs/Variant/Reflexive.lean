import Lox.Proofs.Evaluation.Grounds
import Lox.Proofs.Variant.Machine
import Lox.Proofs.Variant.Scope

/-!
# What varies from itself

A tree is a variant of itself wherever no scope around it is renamed, if its
occurrences stay as they are.  So is the store of a healthy machine whose
functions come from programs with the same distances, and its frames are their
own twins.
-/

namespace Lox

/-! ## Trees -/

/-- Nests in which nothing is renamed and the occurrences with some numbers stay as
they are. -/
structure Variation.Keeps (v : Variation) (ids : Nat → Prop) (nests : Nest → Prop) : Prop where
  enter {nest : Nest} (h : nests nest) : nests (nest.enter false)
  renamed {nest : Nest} (h : nests nest) : nest.renamed 0 = false
  occurs {nest : Nest} (h : nests nest) {id : Nat} (hid : ids id) (name : Token) :
    v.occurs nest id name name

theorem Token.renames_self (naming : Naming) (token : Token) : token.Renames naming false token :=
  ⟨rfl, rfl, rfl⟩

section Trees

variable {v : Variation} {ids : Nat → Prop} {nests : Nest → Prop}

section Expr

variable {nest : Nest}

mutual

theorem Expr.varies_self (hkeeps : v.Keeps ids nests) (hnest : nests nest) :
    (e : Expr) → (∀ id ∈ e.ids, ids id) → e.Varies v nest e
  | .literal value, _ => .literal value
  | .grouping inner, h => .grouping (inner.varies_self hkeeps hnest h)
  | .unary operator operand, h => .unary operator (operand.varies_self hkeeps hnest h)
  | .binary left operator right, h =>
    have h := List.forall_mem_append.1 h
    .binary (left.varies_self hkeeps hnest h.1) operator (right.varies_self hkeeps hnest h.2)
  | .logical left operator right, h =>
    have h := List.forall_mem_append.1 h
    .logical (left.varies_self hkeeps hnest h.1) operator (right.varies_self hkeeps hnest h.2)
  | .reference _ name, h => .reference (hkeeps.occurs hnest (List.forall_mem_singleton.1 h) name)
  | .assign _ name value, h =>
    have h := List.forall_mem_append.1 h
    .assign (hkeeps.occurs hnest (List.forall_mem_singleton.1 h.2) name)
      (value.varies_self hkeeps hnest h.1)
  | .receiver _ keyword, h =>
    .receiver (hkeeps.occurs hnest (List.forall_mem_singleton.1 h) keyword)
  | .get object name, h => .get (object.varies_self hkeeps hnest h) name
  | .set object name value, h =>
    have h := List.forall_mem_append.1 h
    .set (object.varies_self hkeeps hnest h.2) name (value.varies_self hkeeps hnest h.1)
  | .call callee closing arguments, h =>
    have h := List.forall_mem_append.1 h
    .call (callee.varies_self hkeeps hnest h.1) closing
      (Expr.vary_self hkeeps hnest arguments h.2)
  | .list closing elements, h => .list closing (Expr.vary_self hkeeps hnest elements h)
termination_by structural e => e

theorem Expr.vary_self (hkeeps : v.Keeps ids nests) (hnest : nests nest) :
    (es : List Expr) → (∀ id ∈ Expr.idsAll es, ids id) → List.Forall₂ (Expr.Varies v nest) es es
  | [], _ => .nil
  | e :: es, h =>
    have h := List.forall_mem_append.1 h
    .cons (e.varies_self hkeeps hnest h.1) (Expr.vary_self hkeeps hnest es h.2)
termination_by structural es => es

end

end Expr

mutual

/-- What declares nothing varies from itself also where further braces are around
it. -/
theorem Stmt.varies_self (hkeeps : v.Keeps ids nests) : (s : Stmt) → {nest : Nest} → nests nest →
    (s.declares = [] ∨ nest.distance 0 = 0) → (∀ id ∈ s.ids, ids id) → s.Varies v nest s
  | .expression value, _, hnest, _, h => .expression (value.varies_self hkeeps hnest h)
  | .print value, _, hnest, _, h => .print (value.varies_self hkeeps hnest h)
  | .declare name none, _, hnest, hplace, _ =>
    have hflat := hplace.resolve_left (List.cons_ne_nil _ _)
    .declare hflat (hkeeps.renamed hnest ▸ name.renames_self v.naming) .none
  | .declare name (some initializer), _, hnest, hplace, h =>
    have hflat := hplace.resolve_left (List.cons_ne_nil _ _)
    .declare hflat (hkeeps.renamed hnest ▸ name.renames_self v.naming)
      (.some (initializer.varies_self hkeeps hnest h))
  | .block body, _, hnest, _, h =>
    .block false (Stmt.vary_self hkeeps body (hkeeps.enter hnest) rfl h)
  | .branch condition thenBranch none, _, hnest, hplace, h =>
    have h := List.forall_mem_append.1 h
    .branch (condition.varies_self hkeeps hnest h.1)
      (.same (thenBranch.varies_self hkeeps hnest hplace h.2))
  | .branch condition thenBranch (some elseBranch), _, hnest, hplace, h =>
    have h := List.forall_mem_append.1 h
    have h' := List.forall_mem_append.1 h.1
    have hthen := hplace.imp_left fun hnone => (List.append_eq_nil_iff.1 hnone).1
    have helse := hplace.imp_left fun hnone => (List.append_eq_nil_iff.1 hnone).2
    .branchElse (condition.varies_self hkeeps hnest h'.1)
      (.same (thenBranch.varies_self hkeeps hnest hthen h'.2))
      (.same (elseBranch.varies_self hkeeps hnest helse h.2))
  | .loop condition body, _, hnest, hplace, h =>
    have h := List.forall_mem_append.1 h
    .loop (condition.varies_self hkeeps hnest h.1)
      (.same (body.varies_self hkeeps hnest hplace h.2))
  | .leave keyword, _, _, _, _ => .leave keyword
  | .function declaration, _, hnest, hplace, h =>
    have hflat := hplace.resolve_left (List.cons_ne_nil _ _)
    .function hflat (hkeeps.renamed hnest ▸ rfl) (declaration.varies_self hkeeps hnest h)
  | .giveBack keyword none, _, _, _, _ => .giveBack keyword .none
  | .giveBack keyword (some value), _, hnest, _, h =>
    .giveBack keyword (.some (value.varies_self hkeeps hnest h))
  | .classDecl name methods, _, hnest, hplace, h =>
    have hflat := hplace.resolve_left (List.cons_ne_nil _ _)
    .classDecl name hflat (hkeeps.renamed hnest ▸ rfl)
      (FunctionDecl.vary_self hkeeps methods (hkeeps.enter hnest) h)
termination_by structural s => s

theorem Stmt.vary_self (hkeeps : v.Keeps ids nests) : (ss : List Stmt) → {nest : Nest} →
    nests nest → nest.distance 0 = 0 → (∀ id ∈ Stmt.idsAll ss, ids id) → Stmt.VaryAll v nest ss ss
  | [], _, _, _, _ => .nil
  | s :: ss, _, hnest, hflat, h =>
    have h := List.forall_mem_append.1 h
    .cons (.same (s.varies_self hkeeps hnest (.inr hflat) h.1))
      (Stmt.vary_self hkeeps ss hnest hflat h.2)
termination_by structural ss => ss

theorem FunctionDecl.varies_self (hkeeps : v.Keeps ids nests) : (d : FunctionDecl) →
    {nest : Nest} → nests nest → (∀ id ∈ d.ids, ids id) → d.Varies v nest d
  | .mk name _ body, _, hnest, h =>
    .mk false name (List.forall₂_same.2 fun token _ => token.renames_self v.naming)
      (Stmt.vary_self hkeeps body (hkeeps.enter hnest) rfl h)
termination_by structural d => d

theorem FunctionDecl.vary_self (hkeeps : v.Keeps ids nests) : (ds : List FunctionDecl) →
    {nest : Nest} → nests nest → (∀ id ∈ FunctionDecl.idsAll ds, ids id) →
      FunctionDecl.VaryAll v nest ds ds
  | [], _, _, _ => .nil
  | d :: ds, _, hnest, h =>
    have h := List.forall_mem_append.1 h
    .cons (d.varies_self hkeeps hnest h.1) (FunctionDecl.vary_self hkeeps ds hnest h.2)
termination_by structural ds => ds

end

end Trees

namespace Nest

theorem renamedAt?_of_renamed {nest : Nest} (h : ∀ distance, nest.renamed distance = false)
    (distance? : Option Nat) : nest.renamedAt? distance? = false := by
  cases distance? with
  | none => rfl
  | some distance => exact h distance

end Nest

namespace Variant

variable {r : Variant}

/-- As they are written, all occurrences stay where nothing is renamed. -/
theorem keeps_written : r.written.Keeps (fun _ => True)
    fun nest => ∀ distance, nest.renamed distance = false where
  enter h distance := by
    cases distance with
    | zero => rfl
    | succ distance => exact h distance
  renamed h := h 0
  occurs {nest} h id _ name := by
    have hnot := Nest.renamedAt?_of_renamed h r.distances[id]?
    exact ⟨rfl, by rw [hnot]; rfl, rfl⟩

theorem keeps_plain : r.written.Keeps (fun _ => True) (· = .plain) where
  enter h := by rw [h, Nest.enter_plain]
  renamed h := by rw [h]; rfl
  occurs h _ hid name := keeps_written.occurs (by rw [h]; exact fun _ => rfl) hid name

/-- Where the variant has the scopes of the program, occurrences stay that have the
same distance. -/
theorem keeps_variation : r.variation.Keeps (fun id => r.distances'[id]? = r.distances[id]?)
    (· = .plain) where
  enter h := by rw [h, Nest.enter_plain]
  renamed h := by rw [h]; rfl
  occurs {nest} h id hid name := by
    have hplain : ∀ distance, nest.renamed distance = false := by
      rw [h]
      exact fun _ => rfl
    have hnot := Nest.renamedAt?_of_renamed hplain r.distances[id]?
    refine ⟨⟨rfl, by rw [hnot]; rfl, rfl⟩, fun hrenamed => ?_, ?_⟩
    · rw [hnot] at hrenamed
      cases hrenamed
    · rw [hid, h]
      exact (Option.map_id' ..).symm

end Variant

/-! ## Values -/

/-- Each of the first frames is its own twin. -/
def World.own (size : Nat) : World where
  twins renamed frame frame' := renamed = false ∧ frame = frame' ∧ frame < size
  along nest frame frame' := nest = .plain ∧ frame = frame' ∧ frame < size

section Values

variable {r : Variant} {programs : List Program} {frames : Frames} {labels : List Region}
variable {size : Nat}
variable (hids : ∀ program ∈ programs, ∀ id ∈ program.ids, r.distances'[id]? = r.distances[id]?)

include hids

/-- A function at which the analysis of a program has arrived varies from itself. -/
theorem Closure.declaration_varies_self {closure : Closure}
    (h : ∃ program ∈ programs, ∃ site,
      Reached program (.function closure.isInitializer closure.declaration) site) :
    closure.declaration.Varies r.variation .plain closure.declaration := by
  obtain ⟨program, hprogram, site, hreached⟩ := h
  refine closure.declaration.varies_self Variant.keeps_variation rfl fun id hid => ?_
  exact hids program hprogram id (hreached.ids_subset hid)

theorem ClassValue.Sound.varies_self {cls : ClassValue} (h : cls.Sound programs frames labels)
    (hrooted : ∀ (name : String) (method : Closure), cls.methods[name]? = some method →
      method.frame < size) : cls.Varies r.variation (.own size) cls where
  identity := rfl
  name := rfl
  methods name := by
    apply rel_self
    intro method hmethod
    obtain ⟨program, hprogram, site, -, -, hreached, -⟩ := h name method hmethod
    have hdeclaration := Closure.declaration_varies_self hids ⟨program, hprogram, site, hreached⟩
    exact ⟨rfl, rfl, .plain, ⟨rfl, rfl, hrooted name method hmethod⟩,
      Nest.enter_plain.symm ▸ hdeclaration⟩

theorem Value.Sound.varies_self {value : Value} (h : value.Sound programs frames labels)
    (hrooted : value.Rooted size) : r.Values (.own size) value value := by
  cases value with
  | nil => exact .nil
  | truth value => exact .truth value
  | number value => exact .number value
  | text value => exact .text value
  | function closure =>
      obtain ⟨program, hprogram, site, hreached, -⟩ := h
      have hdeclaration := Closure.declaration_varies_self hids ⟨program, hprogram, site, hreached⟩
      exact .function ⟨rfl, rfl, .plain, rfl, ⟨rfl, rfl, hrooted⟩, hdeclaration⟩
  | native native => exact .native native
  | classValue cls => exact .classValue (ClassValue.Sound.varies_self hids h hrooted)
  | object cls id => exact .object (ClassValue.Sound.varies_self hids h hrooted) id
  | list id => exact .list id

end Values

/-! ## Machines -/

section Machine

variable {r : Variant}

theorem Frames.vary_self {frames : Frames} (h : frames.Rooted) (hpos : 0 < frames.size)
    (hvalues : ∀ frame name value, frames.get? frame name = some value →
      r.Values (.own frames.size) value value) :
    frames.Vary r.variation (.own frames.size) frames where
  rooted := h
  rooted' := h
  globals := ⟨rfl, rfl, hpos⟩
  lt_size := by
    rintro _ _ _ ⟨-, rfl, hlt⟩
    exact ⟨hlt, hlt⟩
  unique := by
    rintro _ _ _ _ _ _ ⟨rfl, rfl, -⟩ ⟨rfl, rfl, -⟩
    exact ⟨Iff.rfl, fun _ => rfl⟩
  get? := by
    rintro _ frame _ ⟨rfl, rfl, -⟩ name
    exact rel_self (hvalues frame name)
  along_lt := by
    rintro _ _ _ ⟨-, rfl, hlt⟩
    exact ⟨hlt, hlt⟩
  ancestor? := by
    rintro _ _ _ ⟨rfl, rfl, hlt⟩ distance
    exact rel_self fun target htarget => ⟨rfl, rfl, h.ancestor?_lt distance hlt htarget⟩

/-- A healthy machine varies from itself but for the distances, where those of the
programs that it has accepted agree. -/
theorem Machine.Healthy.varies_self {machine : Machine} {programs : List Program}
    {labels : List Region}
    (hids : ∀ program ∈ programs, ∀ id ∈ program.ids, r.distances'[id]? = r.distances[id]?)
    (h : machine.Healthy programs labels) (hrooted : machine.Rooted) :
    ({ machine with distances := r.distances } : Machine).Vary r
      (.own machine.store.frames.size) .plain { machine with distances := r.distances' } := by
  have hvalues : machine.store.All fun value =>
      r.Values (.own machine.store.frames.size) value value := by
    refine ⟨fun frame name value hvalue => ?_, fun list elements helements value hmem => ?_,
      fun id name value hvalue => ?_⟩
    · exact Value.Sound.varies_self hids (h.values.frames frame name value hvalue)
        (hrooted.values.frames frame name value hvalue)
    · exact Value.Sound.varies_self hids (h.values.lists list elements helements value hmem)
        (hrooted.values.lists list elements helements value hmem)
    · exact Value.Sound.varies_self hids (h.values.fields id name value hvalue)
        (hrooted.values.fields id name value hvalue)
  have hpos : 0 < machine.store.frames.size := Nat.zero_lt_of_lt hrooted.current
  exact {
    frames := Frames.vary_self hrooted.frames hpos hvalues.frames
    store := hvalues.like_self
    globals := h.globals
    globals' := h.globals
    current := ⟨rfl, rfl, hrooted.current⟩
    distances := rfl
    distances' := rfl
    output := rfl
    clock := rfl
    readings := rfl }

end Machine

end Lox
