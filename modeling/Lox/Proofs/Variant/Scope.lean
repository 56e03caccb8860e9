import Lox.Proofs.Scope.Place
import Lox.Proofs.Variant.Machine

/-!
# Scopes of variants

The scopes around a part of a variant are those around the part of the program,
with the names of some of them changed, and further scopes without any names.  If
names are changed where they are bound by such a scope, each is bound in the
variant by the same scope as in the program, as the nest says, and nothing is
wrong in the variant that is not wrong in the program.
-/

namespace Lox

open Occurrence (declaring)

/-- The scopes of the program and of its variant, from the inside out.  Names of
the program are in use. -/
inductive Nest.Scopes (naming : Naming) : Nest → List (List String) → List (List String) → Prop
  | globals : Scopes naming .plain [] []
  | enter {nest : Nest} {scopes scopes' : List (List String)} (renamed : Bool)
    {names : List String} (hused : ∀ name ∈ names, naming.Used name)
    (h : Scopes naming nest scopes scopes') :
    Scopes naming (nest.enter renamed) (names :: scopes)
      (names.map (naming.nameIn renamed) :: scopes')
  | pad {nest : Nest} {scopes scopes' : List (List String)}
    (h : Scopes naming nest scopes scopes') : Scopes naming nest.pad scopes ([] :: scopes')

namespace Nest.Scopes

variable {naming : Naming} {nest : Nest} {scopes scopes' : List (List String)}

/-- Names are declared where both have the innermost scope. -/
theorem declaring (h : Scopes naming nest scopes scopes') (hflat : nest.distance 0 = 0)
    {names : List String} (hused : ∀ name ∈ names, naming.Used name) :
    Scopes naming nest (declaring names scopes)
      (declaring (names.map (naming.nameIn (nest.renamed 0))) scopes') := by
  cases h with
  | globals => exact .globals
  | pad h => cases hflat
  | enter renamed hold h =>
      have hall := List.forall_mem_append.2 ⟨hold, hused⟩
      have hmap : ∀ old : List String, old.map (naming.nameIn renamed) ++
          names.map (naming.nameIn renamed) = (old ++ names).map (naming.nameIn renamed) :=
        fun old => List.map_append.symm
      simp only [Occurrence.declaring, Nest.enter, hmap]
      exact .enter renamed hall h

theorem declared (h : Scopes naming nest scopes scopes') (hflat : nest.distance 0 = 0)
    {name name' : String} (hused : naming.Used name)
    (hname : naming.nameIn (nest.renamed 0) name = name') :
    Scopes naming nest (Occurrence.declaring [name] scopes)
      (Occurrence.declaring [name'] scopes') := by
  have hdeclared := h.declaring hflat (List.forall_mem_singleton.2 hused)
  rwa [List.map_singleton, hname] at hdeclared

/-- The scope of a function has its parameters. -/
theorem parameters (h : Scopes naming nest scopes scopes') {renamed : Bool}
    {parameters parameters' : List Token}
    (hused : ∀ parameter ∈ parameters, naming.Used parameter.lexeme)
    (hparameters : List.Forall₂ (Token.Renames naming renamed) parameters parameters') :
    Scopes naming (nest.enter renamed) (parameters.map Token.lexeme :: scopes)
      (parameters'.map Token.lexeme :: scopes') := by
  rw [Token.Renames.map_lexeme hparameters]
  exact h.enter renamed (List.forall_mem_map.2 hused)

/-- The methods of a class stand in a scope for the receiver. -/
theorem methods (h : Scopes naming nest scopes scopes') :
    Scopes naming (nest.enter false) (["this"] :: scopes) (["this"] :: scopes') :=
  h.enter false (List.forall_mem_singleton.2 naming.used_this)

/-- A name of the program that is taken over into the variant is no other name of
a scope there. -/
theorem mem_map_iff {renamed other : Bool} {names : List String} {name : String}
    (hnames : ∀ n ∈ names, naming.Used n) (hname : naming.Used name)
    (h : naming.nameIn other name ∈ names.map (naming.nameIn renamed)) : name ∈ names := by
  obtain ⟨found, hfound, heq⟩ := List.mem_map.1 h
  exact naming.eq_of_nameIn_eq (hnames found hfound) hname heq ▸ hfound

/-- A name that is changed like those of the scope that binds it is bound by the
same scope. -/
theorem findIdx? (h : Scopes naming nest scopes scopes') {name : String}
    (hname : naming.Used name) :
    scopes'.findIdx?
        (naming.nameIn (nest.renamedAt? (scopes.findIdx? (name ∈ ·))) name ∈ ·) =
      (scopes.findIdx? (name ∈ ·)).map nest.distance := by
  induction h with
  | globals => rfl
  | @pad nest scopes scopes' h ih =>
      have hinner := ih
      rw [List.findIdx?_cons]
      simp only [List.not_mem_nil, decide_false]
      rw [show nest.pad.renamedAt? = nest.renamedAt? from rfl, hinner]
      cases scopes.findIdx? (name ∈ ·) <;> rfl
  | @enter nest scopes scopes' renamed names hused h ih =>
      rw [List.findIdx?_cons (x := names)]
      by_cases hmem : name ∈ names
      · simp only [hmem, decide_true, if_true, Nest.renamedAt?, Option.elim_some, Nest.enter,
          List.findIdx?_cons, List.mem_map_of_mem hmem, Option.map_some]
      · have hrenamed : (nest.enter renamed).renamedAt?
            ((scopes.findIdx? (name ∈ ·)).map (· + 1)) =
              nest.renamedAt? (scopes.findIdx? (name ∈ ·)) := by
          cases scopes.findIdx? (name ∈ ·) <;> rfl
        have hother : naming.nameIn (nest.renamedAt? (scopes.findIdx? (name ∈ ·))) name ∉
            names.map (naming.nameIn renamed) :=
          fun hfound => hmem (mem_map_iff hused hname hfound)
        simp only [hmem, decide_false, Bool.false_eq_true, if_false]
        rw [hrenamed, List.findIdx?_cons]
        simp only [hother, decide_false, Bool.false_eq_true, if_false]
        rw [ih]
        cases scopes.findIdx? (name ∈ ·) <;> rfl

end Nest.Scopes

/-! ## Names and declarations -/

namespace Variant

/-- The variant as it is written, whatever the distances of its names are. -/
abbrev written (r : Variant) : Variation where
  naming := r.naming
  bracing := r.pace ≠ .same
  testing := r.pace.PaysTests
  occurs nest id name name' := name.Renames r.naming (nest.renamedAt? r.distances[id]?) name'

/-- The names of the program are in use. -/
abbrev Used (r : Variant) (token : Token) : Prop :=
  r.naming.Used token.lexeme

end Variant

variable {r : Variant}

/-- What a statement declares, its variant declares under the names of the scope,
which both have. -/
def DeclaresAlike (naming : Naming) (nest : Nest) (s s' : Stmt) : Prop :=
  s'.declares = s.declares.map (naming.nameIn (nest.renamed 0)) ∧
    (s.declares = [] ∨ nest.distance 0 = 0)

theorem DeclaresAlike.of_wraps {v : Variation} {s : Stmt}
    (h : ∀ {nest : Nest} {s' : Stmt}, s.Varies v nest s' → DeclaresAlike v.naming nest s s')
    {nest : Nest} {s' : Stmt} (hs : s.Wraps v nest s') : DeclaresAlike v.naming nest s s' := by
  cases hs with
  | same hs => exact h hs
  | braced _ hs =>
      have hnone : s.declares = [] := (h hs).2.resolve_right (Nat.succ_ne_zero _)
      exact ⟨by rw [hnone]; rfl, .inl hnone⟩
  | tested _ _ _ _ hloop =>
      have hnone := (h hloop).2.resolve_right (Nat.succ_ne_zero _)
      exact ⟨by rw [hnone]; rfl, .inl hnone⟩

theorem Stmt.declares_vary {v : Variation} : (s : Stmt) → {nest : Nest} → {s' : Stmt} →
    s.Varies v nest s' → DeclaresAlike v.naming nest s s'
  | .expression _, _, _, .expression _ => ⟨rfl, .inl rfl⟩
  | .print _, _, _, .print _ => ⟨rfl, .inl rfl⟩
  | .declare _ _, _, _, .declare hflat hname _ => ⟨congrArg ([·]) hname.lexeme, .inr hflat⟩
  | .block _, _, _, .block _ _ => ⟨rfl, .inl rfl⟩
  | .branch _ thenBranch none, _, _, .branch _ hthen => by
    have h := DeclaresAlike.of_wraps (fun h => thenBranch.declares_vary h) hthen
    exact h
  | .branch _ thenBranch (some elseBranch), _, _, .branchElse _ hthen helse => by
    have h := DeclaresAlike.of_wraps (fun h => thenBranch.declares_vary h) hthen
    have h' := DeclaresAlike.of_wraps (fun h => elseBranch.declares_vary h) helse
    refine ⟨?_, ?_⟩
    · rw [Stmt.declares, Stmt.declares, List.map_append, h.1, h'.1]
    · rw [Stmt.declares, List.append_eq_nil_iff]
      rcases h.2 with hnone | hflat
      · exact h'.2.imp (fun hnone' => ⟨hnone, hnone'⟩) id
      · exact .inr hflat
  | .loop _ body, _, _, .loop _ hbody => by
    have h := DeclaresAlike.of_wraps (fun h => body.declares_vary h) hbody
    exact h
  | .leave _, _, _, .leave _ => ⟨rfl, .inl rfl⟩
  | .function _, _, _, .function hflat hname hdeclaration =>
    ⟨by simp only [Stmt.declares, List.map_cons, List.map_nil, hname, ← hdeclaration.name],
      .inr hflat⟩
  | .giveBack _ _, _, _, .giveBack _ _ => ⟨rfl, .inl rfl⟩
  | .classDecl _ _, _, _, .classDecl _ hflat hname _ =>
    ⟨by simp only [Stmt.declares, List.map_cons, List.map_nil, hname], .inr hflat⟩
termination_by structural s => s

/-- What a formed statement declares are names of tokens in it. -/
theorem Stmt.forall_declares {good : String → Prop} : (s : Stmt) →
    s.Formed (fun token => good token.lexeme) → ∀ name ∈ s.declares, good name
  | .declare name none, h => by simpa [Stmt.declares] using h.1
  | .declare name (some _), h => by simpa [Stmt.declares] using h.1.1
  | .branch _ thenBranch none, h => thenBranch.forall_declares h.2.1
  | .branch _ thenBranch (some elseBranch), h =>
    List.forall_mem_append.2
      ⟨thenBranch.forall_declares h.2.1.1, elseBranch.forall_declares h.2.2.1⟩
  | .loop _ body, h => body.forall_declares h.2.1
  | .function (.mk _ _ _), h => by simpa [Stmt.declares, FunctionDecl.name] using h.1.1
  | .classDecl _ _, h => by simpa [Stmt.declares] using h.1.1
  | .expression _, _ | .print _, _ | .block _, _ | .leave _, _ | .giveBack _ _, _ =>
    List.forall_mem_nil _
termination_by structural s => s

theorem Nest.Scopes.after {v : Variation} {nest : Nest} {scopes scopes' : List (List String)}
    (h : Scopes v.naming nest scopes scopes') {s s' : Stmt} (hs : s.Wraps v nest s')
    (hformed : s.Formed fun token => v.naming.Used token.lexeme) :
    Scopes v.naming nest (Occurrence.declaring s.declares scopes)
      (Occurrence.declaring s'.declares scopes') := by
  obtain ⟨hdeclares, hnone | hflat⟩ := DeclaresAlike.of_wraps (fun h => s.declares_vary h) hs
  · rw [hdeclares, hnone, List.map_nil, declaring_nil, declaring_nil]
    exact h
  · rw [hdeclares]
    exact h.declaring hflat (s.forall_declares hformed)

end Lox
