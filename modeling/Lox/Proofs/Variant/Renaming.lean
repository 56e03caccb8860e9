import Lox.Proofs.Syntax.Renaming
import Lox.Proofs.Token.Spelling
import Lox.Proofs.Variant.Replacement

/-!
# Renamed scopes

A scope in which a variable or a parameter has another name is a variant of the
scope, if the new name is not in use.  Nothing else that the scope declares has
the old name, as no name is declared twice in it.
-/

namespace Lox

/-- All scopes are the same, and the one `depth` scopes further out is renamed. -/
def Nest.marked (depth : Nat) : Nest where
  distance := id
  renamed distance := distance = depth

theorem Nest.enter_marked (depth : Nat) : (marked depth).enter false = marked (depth + 1) := by
  ext distance
  · cases distance <;> rfl
  · cases distance <;> simp [enter, marked]

theorem Nest.enter_plain_true : plain.enter true = marked 0 := by
  ext distance
  · cases distance <;> rfl
  · cases distance <;> simp [enter, plain, marked]

/-! ## What a scope declares -/

section Declared

variable {name : String} {enclosing : List Enclosing} {scope : List String}
variable {scopes outer : List (List String)} {ss : List Stmt}

/-- Only a variable of that name is declared by the statement. -/
def Stmt.OnlyVariable (name : String) (s : Stmt) : Prop :=
  ∀ token, s.declared? = some token → token.lexeme = name →
    ∃ initializer, s = .declare token initializer

theorem Stmt.OnlyVariable.of_none {s : Stmt} (h : s.declared? = none) : s.OnlyVariable name :=
  fun _ hdeclared => by cases h.symm.trans hdeclared

/-- A statement that declares a name has a place for it. -/
theorem Stmt.mem_places_of_declared {s : Stmt} {token : Token} (h : s.declared? = some token) :
    ⟨.declaration, token, enclosing, scopes, none⟩ ∈ s.places enclosing scopes := by
  cases s with
  | declare declared initializer =>
      cases h
      cases initializer <;> simp [Stmt.places]
  | function declaration =>
      cases h
      exact List.mem_cons_self
  | classDecl declared methods =>
      cases h
      exact List.mem_cons_self
  | _ => cases h

theorem Stmt.lexeme_notMem_of_clean {s : Stmt} {token : Token}
    (h : ∀ place ∈ s.places enclosing (scope :: outer), place.error? = none)
    (hdeclared : s.declared? = some token) : token.lexeme ∉ scope := by
  intro hmem
  have hheld : Place.holds (scope :: outer) token.lexeme := Place.holds_iff.2 ⟨_, _, rfl, hmem⟩
  have herror := h _ (Stmt.mem_places_of_declared hdeclared)
  simp [Place.error?, hheld] at herror

/-- No statement declares a name that the scope has already. -/
theorem Stmt.not_declared_of_clean (hname : name ∈ scope)
    (h : ∀ place ∈ Stmt.placesAll enclosing (scope :: outer) ss, place.error? = none) :
    ∀ s ∈ ss, ∀ token, s.declared? = some token → token.lexeme ≠ name := by
  induction ss generalizing scope with
  | nil => exact List.forall_mem_nil _
  | cons s ss ih =>
      have h := List.forall_mem_append.1 h
      refine List.forall_mem_cons.2 ⟨fun token hdeclared heq => ?_, ?_⟩
      · exact Stmt.lexeme_notMem_of_clean h.1 hdeclared (heq ▸ hname)
      · exact ih (List.mem_append_left _ hname) h.2

/-- Where a variable is declared, nothing else is of that name. -/
theorem Stmt.DeclaresVariable.onlyVariable
    (h : ∀ place ∈ Stmt.placesAll enclosing (scope :: outer) ss, place.error? = none)
    (hvariable : Stmt.DeclaresVariable name ss) : ∀ s ∈ ss, s.OnlyVariable name := by
  induction ss generalizing scope with
  | nil => exact List.forall_mem_nil _
  | cons s ss ih =>
      obtain ⟨token, initializer, hmem, rfl⟩ := hvariable
      have h := List.forall_mem_append.1 h
      rcases List.mem_cons.1 hmem with rfl | hmem
      · have hlater := Stmt.not_declared_of_clean
          (List.mem_append_right scope (List.mem_singleton_self token.lexeme)) h.2
        refine List.forall_mem_cons.2 ⟨fun other hother _ => ?_, fun s hs other hother heq => ?_⟩
        · cases hother
          exact ⟨initializer, rfl⟩
        · exact absurd heq (hlater s hs other hother)
      · refine List.forall_mem_cons.2 ⟨fun other hother heq => ?_, ih h.2 ⟨_, _, hmem, rfl⟩⟩
        have hdeclares : other.lexeme ∈ s.declares := by
          cases s <;> cases hother <;> exact List.mem_singleton_self _
        have hlater := Stmt.not_declared_of_clean (List.mem_append_right scope hdeclares) h.2
        exact absurd heq.symm (hlater _ hmem token rfl)

end Declared

/-! ## The scope, renamed -/

namespace Renaming

/-- The token does not have the new name. -/
abbrev Unused (names : Renaming) (token : Token) : Prop :=
  token.Spelled ∧ token.lexeme ≠ names.after

variable {names : Renaming} (hbefore : names.before ≠ "this") (hafter : names.after ≠ "this")

/-- The program with the name changed, where all distances are the same. -/
def variant (names : Renaming) (hbefore : names.before ≠ "this") (hafter : names.after ≠ "this") :
    Variant where
  naming := .swap names.before names.after hbefore hafter
  pace := .same
  distances := names.distances
  distances' := names.distances

variable {depth : Nat} {name : Token}

theorem renames_token (hname : name.lexeme ≠ names.after) :
    name.Renames (names.variant hbefore hafter).naming true (names.token name) := by
  by_cases hold : name.lexeme = names.before
  · rw [token, if_pos hold]
    exact ⟨rfl, hold ▸ (Naming.swap_before hbefore hafter).symm, rfl⟩
  · rw [token, if_neg hold]
    exact ⟨rfl, (Naming.swap_other hbefore hafter hold hname).symm, rfl⟩

theorem renames_declared (hname : name.lexeme ≠ names.after) :
    name.Renames (names.variant hbefore hafter).naming ((Nest.marked depth).renamed 0)
      (names.declared depth name) := by
  cases depth with
  | zero => exact renames_token hbefore hafter hname
  | succ depth => exact name.renames_self _

theorem occurs_occurrence (hname : name.lexeme ≠ names.after) (id : Nat) :
    (names.variant hbefore hafter).written.occurs (Nest.marked depth) id name
      (names.occurrence depth id name) := by
  change name.Renames _ ((Nest.marked depth).renamedAt? names.distances[id]?) _
  rw [occurrence]
  cases names.distances[id]? with
  | none => exact name.renames_self _
  | some distance =>
      by_cases hbound : distance = depth
      · rw [if_pos (congrArg some hbound)]
        simpa [Nest.renamedAt?, Nest.marked, hbound] using renames_token hbefore hafter hname
      · rw [if_neg fun heq => hbound (Option.some.inj heq)]
        simpa [Nest.renamedAt?, Nest.marked, hbound] using name.renames_self _

/-- A receiver is not a name. -/
theorem occurs_receiver {keyword : Token} (hspelled : keyword.Spelled)
    (hkeyword : keyword.is .thisWord) (nest : Nest) (id : Nat) :
    (names.variant hbefore hafter).written.occurs nest id keyword keyword := by
  refine ⟨rfl, ?_, rfl⟩
  rw [hspelled.1 hkeyword, Naming.nameIn_this]

theorem nameIn_of_ne {text : String} (hname : depth = 0 → text ≠ names.before)
    (hused : text ≠ names.after) :
    (names.variant hbefore hafter).naming.nameIn ((Nest.marked depth).renamed 0) text = text := by
  cases depth with
  | zero => exact Naming.swap_other hbefore hafter (hname rfl) hused
  | succ depth => rfl

/-- What the statement declares, if it is no variable, does not have the name. -/
theorem ne_before {s : Stmt} {token : Token} (hown : depth = 0 → s.OnlyVariable names.before)
    (hdeclared : s.declared? = some token)
    (hvariable : ∀ initializer, s ≠ .declare token initializer) :
    depth = 0 → token.lexeme ≠ names.before := by
  intro hzero heq
  obtain ⟨initializer, rfl⟩ := hown hzero token hdeclared heq
  exact hvariable initializer rfl

end Renaming

variable {names : Renaming} (hbefore : names.before ≠ "this") (hafter : names.after ≠ "this")

section Expr

variable (depth : Nat)

mutual

theorem Expr.rename_varies : (e : Expr) → e.Formed names.Unused →
    e.Varies (names.variant hbefore hafter).written (.marked depth) (e.rename names depth)
  | .literal value, _ => .literal value
  | .grouping inner, h => .grouping (inner.rename_varies h)
  | .unary operator operand, h => .unary operator (operand.rename_varies h.2)
  | .binary left operator right, h =>
    .binary (left.rename_varies h.2.1) operator (right.rename_varies h.2.2)
  | .logical left operator right, h =>
    .logical (left.rename_varies h.1) operator (right.rename_varies h.2)
  | .reference id _, h => .reference (Renaming.occurs_occurrence hbefore hafter h.1.2 id)
  | .assign id _ value, h =>
    .assign (Renaming.occurs_occurrence hbefore hafter h.1.1.2 id) (value.rename_varies h.2)
  | .receiver id _, h => .receiver (Renaming.occurs_receiver hbefore hafter h.1.1 h.2 _ id)
  | .get object name, h => .get (object.rename_varies h.1) name
  | .set object name value, h => .set (object.rename_varies h.1) name (value.rename_varies h.2.2)
  | .call callee closing arguments, h =>
    .call (callee.rename_varies h.1) closing (Expr.renameAll_vary arguments h.2)
  | .list closing elements, h => .list closing (Expr.renameAll_vary elements h)
termination_by structural e => e

theorem Expr.renameAll_vary : (es : List Expr) → Expr.FormedAll names.Unused es →
    List.Forall₂ (Expr.Varies (names.variant hbefore hafter).written (.marked depth)) es
      (Expr.renameAll names depth es)
  | [], _ => .nil
  | e :: es, h => .cons (e.rename_varies h.1) (Expr.renameAll_vary es h.2)
termination_by structural es => es

end

end Expr

mutual

theorem Stmt.rename_varies : (s : Stmt) → s.Formed names.Unused → (depth : Nat) →
    (depth = 0 → s.OnlyVariable names.before) →
      s.Varies (names.variant hbefore hafter).written (.marked depth) (s.rename names depth)
  | .expression value, h, depth, _ => .expression (value.rename_varies hbefore hafter depth h)
  | .print value, h, depth, _ => .print (value.rename_varies hbefore hafter depth h)
  | .declare _ none, h, _, _ => .declare rfl (Renaming.renames_declared hbefore hafter h.1.2) .none
  | .declare _ (some initializer), h, depth, _ =>
    .declare rfl (Renaming.renames_declared hbefore hafter h.1.1.2)
      (.some (initializer.rename_varies hbefore hafter depth h.2))
  | .block body, h, depth, _ => by
    have hbody := Stmt.renameAll_vary body h (depth + 1) fun hzero => nomatch hzero
    rw [← Nest.enter_marked] at hbody
    exact .block false hbody
  | .branch condition thenBranch none, h, depth, _ =>
    .branch (condition.rename_varies hbefore hafter depth h.1)
      (.same (thenBranch.rename_varies h.2.1 depth fun _ => .of_none h.2.2))
  | .branch condition thenBranch (some elseBranch), h, depth, _ =>
    .branchElse (condition.rename_varies hbefore hafter depth h.1)
      (.same (thenBranch.rename_varies h.2.1.1 depth fun _ => .of_none h.2.1.2))
      (.same (elseBranch.rename_varies h.2.2.1 depth fun _ => .of_none h.2.2.2))
  | .loop condition body, h, depth, _ =>
    .loop (condition.rename_varies hbefore hafter depth h.1)
      (.same (body.rename_varies h.2.1 depth fun _ => .of_none h.2.2))
  | .leave keyword, _, _, _ => .leave keyword
  | .function (.mk name parameters body), h, depth, hown =>
    have hname : depth = 0 → name.lexeme ≠ names.before :=
      Renaming.ne_before hown rfl fun _ heq => nomatch heq
    .function rfl (Renaming.nameIn_of_ne hbefore hafter hname h.1.1.2)
      (FunctionDecl.rename_varies (.mk name parameters body) h depth)
  | .giveBack keyword none, _, _, _ => .giveBack keyword .none
  | .giveBack keyword (some value), h, depth, _ =>
    .giveBack keyword (.some (value.rename_varies hbefore hafter depth h))
  | .classDecl name methods, h, depth, hown => by
    have hname : depth = 0 → name.lexeme ≠ names.before :=
      Renaming.ne_before hown rfl fun _ heq => nomatch heq
    have hmethods := FunctionDecl.renameAll_vary methods h.2 (depth + 1)
    rw [← Nest.enter_marked] at hmethods
    exact .classDecl name rfl (Renaming.nameIn_of_ne hbefore hafter hname h.1.1.2) hmethods
termination_by structural s => s

theorem Stmt.renameAll_vary : (ss : List Stmt) → Stmt.FormedAll names.Unused ss → (depth : Nat) →
    (depth = 0 → ∀ s ∈ ss, s.OnlyVariable names.before) →
      Stmt.VaryAll (names.variant hbefore hafter).written (.marked depth) ss
        (Stmt.renameAll names depth ss)
  | [], _, _, _ => .nil
  | s :: ss, h, depth, hown =>
    .cons (.same (s.rename_varies h.1 depth fun hzero => (List.forall_mem_cons.1 (hown hzero)).1))
      (Stmt.renameAll_vary ss h.2 depth fun hzero => (List.forall_mem_cons.1 (hown hzero)).2)
termination_by structural ss => ss

theorem FunctionDecl.rename_varies : (d : FunctionDecl) → d.Formed names.Unused →
    (depth : Nat) →
      d.Varies (names.variant hbefore hafter).written (.marked depth) (d.rename names depth)
  | .mk name parameters body, h, depth => by
    have hbody := Stmt.renameAll_vary body h.2.2 (depth + 1) fun hzero => nomatch hzero
    rw [← Nest.enter_marked] at hbody
    exact .mk false name (List.forall₂_same.2 fun token _ => token.renames_self _) hbody
termination_by structural d => d

theorem FunctionDecl.renameAll_vary : (ds : List FunctionDecl) →
    FunctionDecl.FormedAll names.Unused ds → (depth : Nat) →
      FunctionDecl.VaryAll (names.variant hbefore hafter).written (.marked depth) ds
        (FunctionDecl.renameAll names depth ds)
  | [], _, _ => .nil
  | d :: ds, h, depth =>
    .cons (d.rename_varies h.1 depth) (FunctionDecl.renameAll_vary ds h.2 depth)
termination_by structural ds => ds

end

/-! ## Programs -/

theorem Stmt.DeclaresVariable.exists_names {name : String} {good : Token → Prop} {ss : List Stmt}
    (h : Stmt.DeclaresVariable name ss) (hformed : Stmt.FormedAll good ss) :
    ∃ token : Token, token.lexeme = name ∧ token.Names good := by
  obtain ⟨token, initializer, hmem, hname⟩ := h
  induction ss with
  | nil => cases hmem
  | cons s ss ih =>
      rcases List.mem_cons.1 hmem with rfl | hmem
      · cases initializer with
        | none => exact ⟨token, hname, hformed.1⟩
        | some value => exact ⟨token, hname, hformed.1.1⟩
      · exact ih hformed.2 hmem

/-- The name that is changed is no receiver. -/
theorem Renaming.partsYield (names : Renaming) : Stmt.PartsYield (Stmt.Renamed names)
    (FunctionDecl.Renamed names) Token.Spelled (names.before ≠ "this") where
  statement := by
    rintro _ _ ⟨hvariable⟩ hformed
    obtain ⟨token, hname, hspelled, his⟩ := hvariable.exists_names hformed
    exact hname ▸ hspelled.ne_this his
  function := by
    rintro _ _ ⟨name, hparameter | hvariable⟩ hformed
    · obtain ⟨token, hmem, hname⟩ := List.mem_map.1 hparameter
      obtain ⟨hspelled, his⟩ := hformed.2.1 token hmem
      exact hname ▸ hspelled.ne_this his
    · obtain ⟨token, hname, hspelled, his⟩ := hvariable.exists_names hformed.2.2
      exact hname ▸ hspelled.ne_this his

/-- A renamed scope, in a program in which no name is declared twice in a scope. -/
theorem Renaming.replaces : (names.variant hbefore hafter).written.Replaces names.Unused
    (Stmt.Renamed names) (FunctionDecl.Renamed names) where
  keeps := Variant.keeps_plain
  statement := by
    rintro _ _ ⟨hvariable⟩ hformed ⟨enclosing, scopes, hclean⟩
    have hbody := Stmt.renameAll_vary hbefore hafter _ hformed 0 fun _ =>
      hvariable.onlyVariable hclean
    rw [← Nest.enter_plain_true] at hbody
    exact .same (.block true hbody)
  function := by
    rintro _ _ @⟨name, parameters, body, hvariable⟩ hformed ⟨enclosing, scopes, isMethod, hclean⟩
    have hclean := (List.forall_mem_append.1 hclean).2
    have hown : ∀ s ∈ body, s.OnlyVariable names.before := by
      rcases hvariable with hparameter | hvariable
      · intro s hs token hdeclared heq
        exact absurd heq (Stmt.not_declared_of_clean hparameter hclean s hs token hdeclared)
      · exact hvariable.onlyVariable hclean
    have hbody := Stmt.renameAll_vary hbefore hafter _ hformed.2.2 0 fun _ => hown
    rw [← Nest.enter_plain_true] at hbody
    refine .mk true name (List.forall₂_map_right_iff.2 (List.forall₂_same.2 ?_)) hbody
    intro parameter hparameter
    exact renames_token hbefore hafter (hformed.2.1 parameter hparameter).1.2

end Lox
