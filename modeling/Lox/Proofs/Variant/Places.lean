import Lox.Proofs.Variant.Scope

/-!
# Places of variants

A variant has the places of the program, and at none of them anything is wrong
that is not wrong at the place of the program.  It may have further places, where a
loop is left after its test; nothing is wrong there.
-/

namespace Lox

variable {r : Variant}

/-- Nothing is wrong at the second place unless something is at the first. -/
def Place.NoWorse (place place' : Place) : Prop :=
  place.error? = none → place'.error? = none

namespace Place

/-- Nothing is wrong at the second places unless something is at the first. -/
def NoneWorse (places places' : List Place) : Prop :=
  (∀ place ∈ places, place.error? = none) → ∀ place ∈ places', place.error? = none

namespace NoneWorse

variable {places places' others others' : List Place} {place place' : Place}

theorem nil : NoneWorse places [] :=
  fun _ => List.forall_mem_nil _

theorem cons (hplace : NoWorse place place') (h : NoneWorse places places') :
    NoneWorse (place :: places) (place' :: places') := by
  intro hclean
  rw [List.forall_mem_cons] at hclean ⊢
  exact ⟨hplace hclean.1, h hclean.2⟩

theorem append (h : NoneWorse places places') (h' : NoneWorse others others') :
    NoneWorse (places ++ others) (places' ++ others') := by
  intro hclean
  rw [List.forall_mem_append] at hclean ⊢
  exact ⟨h hclean.1, h' hclean.2⟩

end NoneWorse

/-- Keywords are in place or not by the constructs around them alone. -/
theorem NoWorse.keyword {kind : Kind} (hkind : kind ≠ .declaration ∧ kind ≠ .reference)
    {token token' : Token} {enclosing : List Enclosing} {scopes scopes' : List (List String)}
    {initialized? initialized?' : Option String} :
    NoWorse ⟨kind, token, enclosing, scopes, initialized?⟩
      ⟨kind, token', enclosing, scopes', initialized?'⟩ := by
  intro h
  cases kind with
  | leave | giveBack _ | receiver => exact h
  | declaration => exact absurd rfl hkind.1
  | reference => exact absurd rfl hkind.2

/-- For `this` it only matters that a class is around. -/
theorem NoWorse.receiver {token token' : Token} {enclosing enclosing' : List Enclosing}
    (henclosing : .classBody ∈ enclosing → .classBody ∈ enclosing')
    {scopes scopes' : List (List String)} {initialized? initialized?' : Option String} :
    NoWorse ⟨.receiver, token, enclosing, scopes, initialized?⟩
      ⟨.receiver, token', enclosing', scopes', initialized?'⟩ := by
  simp only [NoWorse, error?, Surroundings.of, decide_eq_true_eq]
  intro h
  split at h
  · next hclass => rw [if_pos (henclosing hclass)]
  · cases h

section Names

variable {naming : Naming} {nest : Nest} {scopes scopes' : List (List String)}
variable {name name' : Token} {enclosing : List Enclosing}

theorem NoWorse.declaration (hscopes : nest.Scopes naming scopes scopes')
    (hflat : nest.distance 0 = 0) (hused : naming.Used name.lexeme)
    (hname : name'.lexeme = naming.nameIn (nest.renamed 0) name.lexeme)
    {initialized? initialized?' : Option String} :
    NoWorse ⟨.declaration, name, enclosing, scopes, initialized?⟩
      ⟨.declaration, name', enclosing, scopes', initialized?'⟩ := by
  have hholds : holds scopes' name'.lexeme → holds scopes name.lexeme := by
    rw [hname]
    cases hscopes with
    | globals => exact id
    | pad _ => cases hflat
    | enter renamed hnames _ =>
        rw [holds_iff, holds_iff]
        rintro ⟨_, _, ⟨⟩, hmem⟩
        exact ⟨_, _, rfl, Nest.Scopes.mem_map_iff hnames hused hmem⟩
  simp only [NoWorse, error?]
  intro h
  split at h
  · cases h
  · next hnot => rw [if_neg fun hheld => hnot (hholds hheld)]

/-- The variable that is initialized is one of a scope that both trees have. -/
structure Initialized (naming : Naming) (nest : Nest) (initialized? initialized?' : Option String) :
    Prop where
  names : initialized?' = initialized?.map (naming.nameIn (nest.renamed 0))
  flat : initialized? = none ∨ nest.distance 0 = 0
  used : ∀ name ∈ initialized?, naming.Used name

theorem Initialized.none : Initialized naming nest none none :=
  ⟨rfl, .inl rfl, fun _ h => by cases h⟩

theorem NoWorse.reference (hscopes : nest.Scopes naming scopes scopes')
    {initialized? initialized?' : Option String}
    (hinitialized : Initialized naming nest initialized? initialized?')
    (hused : naming.Used name.lexeme) {renamed : Bool}
    (hname : name.Renames naming renamed name') {enclosing' : List Enclosing} :
    NoWorse ⟨.reference, name, enclosing, scopes, initialized?⟩
      ⟨.reference, name', enclosing', scopes', initialized?'⟩ := by
  have hinitializing : isInitializing scopes' initialized?' name'.lexeme →
      isInitializing scopes initialized? name.lexeme := by
    rw [isInitializing_iff, isInitializing_iff, hinitialized.names]
    rintro ⟨scope, outer, rfl, hsome, hfirst⟩
    obtain ⟨variableName, rfl, hvariable⟩ := Option.map_eq_some_iff.1 hsome
    rw [hname.lexeme] at hvariable
    obtain rfl := naming.eq_of_nameIn_eq (hinitialized.used _ rfl) hused hvariable
    have hflat := hinitialized.flat.resolve_left (Option.some_ne_none _)
    cases hscopes with
    | pad _ => cases hflat
    | enter inner hnames _ =>
        refine ⟨_, _, rfl, rfl, fun hheld => hfirst ?_⟩
        rw [hname.lexeme, ← hvariable]
        exact List.mem_map_of_mem hheld
  simp only [NoWorse, error?]
  intro h
  split at h
  · cases h
  · next hnot => rw [if_neg fun hheld => hnot (hinitializing hheld)]

end Names

/-- Names that are declared one after the other in a scope that both trees have. -/
theorem noWorse_declarations {nest : Nest} {scopes scopes' : List (List String)}
    (hscopes : nest.Scopes r.naming scopes scopes') (hflat : nest.distance 0 = 0)
    (enclosing : List Enclosing) {names names' : List Token}
    (hnames : List.Forall₂ (Token.Renames r.naming (nest.renamed 0)) names names')
    (hused : ∀ name ∈ names, r.Used name) :
    NoneWorse (declarations enclosing scopes names)
      (declarations enclosing scopes' names') := by
  induction hnames generalizing scopes scopes' with
  | nil => exact .nil
  | @cons name name' _ _ hname _ ih =>
      rw [List.forall_mem_cons] at hused
      have hdeclared := hscopes.declared hflat hused.1 hname.lexeme.symm
      exact .cons (.declaration hscopes hflat hused.1 hname.lexeme) (ih hdeclared hused.2)

end Place

open Place (NoneWorse)

section Expr

variable {nest : Nest} {scopes scopes' : List (List String)}
  {initialized? initialized?' : Option String} {enclosing enclosing' : List Enclosing}

mutual

theorem Expr.places_noWorse (hscopes : nest.Scopes r.naming scopes scopes')
    (hinitialized : Place.Initialized r.naming nest initialized? initialized?')
    (henclosing : .classBody ∈ enclosing → .classBody ∈ enclosing') :
    (e : Expr) → {e' : Expr} → e.Varies r.written nest e' → e.Formed r.Used →
      NoneWorse (e.places enclosing scopes initialized?)
        (e'.places enclosing' scopes' initialized?')
  | .literal _, _, .literal _, _ => .nil
  | .grouping inner, _, .grouping hinner, hformed =>
    have hall := inner.places_noWorse hscopes hinitialized henclosing hinner hformed
    hall
  | .unary _ operand, _, .unary _ hoperand, hformed =>
    have hall := operand.places_noWorse hscopes hinitialized henclosing hoperand hformed.2
    hall
  | .binary left _ right, _, .binary hleft _ hright, hformed =>
    NoneWorse.append (left.places_noWorse hscopes hinitialized henclosing hleft hformed.2.1)
      (right.places_noWorse hscopes hinitialized henclosing hright hformed.2.2)
  | .logical left _ right, _, .logical hleft _ hright, hformed =>
    NoneWorse.append (left.places_noWorse hscopes hinitialized henclosing hleft hformed.1)
      (right.places_noWorse hscopes hinitialized henclosing hright hformed.2)
  | .reference _ _, _, .reference hname, hformed =>
    .cons (.reference hscopes hinitialized hformed.1 hname) .nil
  | .assign _ _ value, _, .assign _ hvalue, hformed =>
    have hall := value.places_noWorse hscopes hinitialized henclosing hvalue hformed.2
    hall
  | .receiver _ _, _, .receiver _, _ => .cons (.receiver henclosing) .nil
  | .get object _, _, .get hobject _, hformed =>
    have hall := object.places_noWorse hscopes hinitialized henclosing hobject hformed.1
    hall
  | .set object _ value, _, .set hobject _ hvalue, hformed =>
    NoneWorse.append (value.places_noWorse hscopes hinitialized henclosing hvalue hformed.2.2)
      (object.places_noWorse hscopes hinitialized henclosing hobject hformed.1)
  | .call callee _ arguments, _, .call hcallee _ harguments, hformed =>
    NoneWorse.append (callee.places_noWorse hscopes hinitialized henclosing hcallee hformed.1)
      (Expr.placesAll_noWorse hscopes hinitialized henclosing arguments harguments hformed.2)
  | .list _ elements, _, .list _ helements, hformed =>
    have hall := Expr.placesAll_noWorse hscopes hinitialized henclosing elements helements hformed
    hall
termination_by structural e => e

theorem Expr.placesAll_noWorse (hscopes : nest.Scopes r.naming scopes scopes')
    (hinitialized : Place.Initialized r.naming nest initialized? initialized?')
    (henclosing : .classBody ∈ enclosing → .classBody ∈ enclosing') :
    (es : List Expr) → {es' : List Expr} → List.Forall₂ (Expr.Varies r.written nest) es es' →
      Expr.FormedAll r.Used es → NoneWorse (Expr.placesAll enclosing scopes initialized? es)
        (Expr.placesAll enclosing' scopes' initialized?' es')
  | [], _, .nil, _ => .nil
  | e :: es, _, .cons he hes, hformed =>
    NoneWorse.append (e.places_noWorse hscopes hinitialized henclosing he hformed.1)
      (Expr.placesAll_noWorse hscopes hinitialized henclosing es hes hformed.2)
termination_by structural es => es

end

end Expr

/-- A loop that makes its test inside is left from a further place. -/
theorem Stmt.places_testedLoop (operator keyword : Token) (condition : Expr) (body : Stmt)
    (enclosing : List Enclosing) (scopes : List (List String)) :
    (testedLoop operator keyword condition body).places enclosing scopes =
      condition.places (.loopBody :: enclosing) ([] :: scopes) none ++
        ⟨.leave, keyword, .loopBody :: enclosing, [] :: scopes, none⟩ ::
          body.places (.loopBody :: enclosing) ([] :: scopes) := by
  simp only [testedLoop, testedBody, Stmt.places, Stmt.placesAll, Expr.places, Stmt.declares,
    declaring_nil, List.nil_append, List.append_nil, List.append_assoc, List.cons_append]

/-- The places of the statement's variants are no worse, wherever they stand. -/
def Stmt.KeepsPlaces (r : Variant) (s : Stmt) : Prop :=
  s.Formed r.Used → ∀ {nest : Nest} {scopes scopes' : List (List String)} {s' : Stmt}
    (enclosing : List Enclosing), nest.Scopes r.naming scopes scopes' →
      s.Varies r.written nest s' →
        NoneWorse (s.places enclosing scopes) (s'.places enclosing scopes')

theorem Stmt.KeepsPlaces.wraps {s : Stmt} (hkeeps : s.KeepsPlaces r) (hformed : s.Formed r.Used)
    {nest : Nest} {scopes scopes' : List (List String)} {s' : Stmt} (enclosing : List Enclosing)
    (hscopes : nest.Scopes r.naming scopes scopes') (hs : s.Wraps r.written nest s') :
    NoneWorse (s.places enclosing scopes) (s'.places enclosing scopes') := by
  cases hs with
  | same hs => exact hkeeps hformed enclosing hscopes hs
  | braced _ hs =>
      have hinner := hkeeps hformed enclosing hscopes.pad hs
      simpa only [Stmt.places, Stmt.placesAll, List.append_nil] using hinner
  | @tested _ condition _ _ _ _ _ _ _ hloop =>
      have hinner := hkeeps hformed enclosing hscopes.pad hloop
      cases hloop with
      | loop hcondition _ =>
          intro hclean
          have hinside := condition.places_noWorse hscopes.pad .none
            (List.mem_cons_of_mem Enclosing.loopBody) hcondition hformed.1
            (List.forall_mem_append.1 hclean).1
          have hbehind := (List.forall_mem_append.1 (hinner hclean)).2
          rw [Stmt.places_testedLoop]
          refine List.forall_mem_append.2 ⟨hinside, List.forall_mem_cons.2 ⟨?_, hbehind⟩⟩
          rw [Place.error?, Surroundings.of_loopBody]
          rfl

mutual

theorem Stmt.places_noWorse : (s : Stmt) → s.KeepsPlaces r
  | .expression value, hformed, _, _, _, _, enclosing, hscopes, .expression hvalue =>
    have hall := value.places_noWorse hscopes .none id hvalue hformed
    hall
  | .print value, hformed, _, _, _, _, enclosing, hscopes, .print hvalue =>
    have hall := value.places_noWorse hscopes .none id hvalue hformed
    hall
  | .declare _ none, hformed, _, _, _, _, _, hscopes, .declare hflat hname .none =>
    .cons (.declaration hscopes hflat hformed.1 hname.lexeme) .nil
  | .declare _ (some initializer), hformed, _, _, _, _, enclosing, hscopes,
      .declare hflat hname (.some hinitializer) =>
    have hinitialized := ⟨congrArg some hname.lexeme, .inr hflat,
      fun _ hmem => by cases hmem; exact hformed.1.1⟩
    .cons (.declaration hscopes hflat hformed.1.1 hname.lexeme)
      (initializer.places_noWorse hscopes hinitialized id hinitializer hformed.2)
  | .block body, hformed, _, _, _, _, enclosing, hscopes, .block renamed hbody =>
    have hinside := hscopes.enter renamed (List.forall_mem_nil _)
    have hall := Stmt.placesAll_noWorse body hformed enclosing hinside hbody
    hall
  | .branch condition thenBranch none, hformed, _, _, _, _, enclosing, hscopes,
      .branch hcondition hthen =>
    NoneWorse.append (condition.places_noWorse hscopes .none id hcondition hformed.1)
      (thenBranch.places_noWorse.wraps hformed.2.1 enclosing hscopes hthen)
  | .branch condition thenBranch (some elseBranch), hformed, _, _, _, _, enclosing, hscopes,
      .branchElse hcondition hthen helse =>
    NoneWorse.append
      (NoneWorse.append (condition.places_noWorse hscopes .none id hcondition hformed.1)
        (thenBranch.places_noWorse.wraps hformed.2.1.1 enclosing hscopes hthen))
      (elseBranch.places_noWorse.wraps hformed.2.2.1 enclosing
        (hscopes.after hthen hformed.2.1.1) helse)
  | .loop condition body, hformed, _, _, _, _, enclosing, hscopes, .loop hcondition hbody =>
    NoneWorse.append (condition.places_noWorse hscopes .none id hcondition hformed.1)
      (body.places_noWorse.wraps hformed.2.1 (.loopBody :: enclosing) hscopes
        hbody)
  | .leave _, _, _, _, _, _, _, _, .leave _ => .cons (.keyword (by decide)) .nil
  | .function (.mk name parameters body), hformed, _, _, _, _, enclosing, hscopes,
      .function hflat hname hdeclaration => by
    have hbody := FunctionDecl.places_noWorse (.mk name parameters body) hformed enclosing false
      (hscopes.declared hflat hformed.1.1 hname) hdeclaration
    rw [Stmt.places, Stmt.places, ← hdeclaration.name]
    exact .cons (.declaration hscopes hflat hformed.1.1 hname.symm) hbody
  | .giveBack _ none, _, _, _, _, _, _, _, .giveBack _ .none => .cons (.keyword (by simp)) .nil
  | .giveBack _ (some value), hformed, _, _, _, _, enclosing, hscopes,
      .giveBack _ (.some hvalue) =>
    .cons (.keyword (by simp)) (value.places_noWorse hscopes .none id hvalue hformed)
  | .classDecl name methods, hformed, _, _, _, _, enclosing, hscopes,
      .classDecl _ hflat hname hmethods =>
    have hdeclared := hscopes.declared hflat hformed.1.1 hname
    .cons (.declaration hscopes hflat hformed.1.1 hname.symm)
      (FunctionDecl.placesOfMethods_noWorse methods hformed.2 (.classBody :: enclosing)
        hdeclared.methods hmethods)
termination_by structural s => s

theorem Stmt.placesAll_noWorse : (ss : List Stmt) → Stmt.FormedAll r.Used ss → {nest : Nest} →
    {scopes scopes' : List (List String)} → {ss' : List Stmt} → (enclosing : List Enclosing) →
      nest.Scopes r.naming scopes scopes' → Stmt.VaryAll r.written nest ss ss' →
        NoneWorse (Stmt.placesAll enclosing scopes ss)
          (Stmt.placesAll enclosing scopes' ss')
  | [], _, _, _, _, _, _, _, .nil => .nil
  | s :: ss, hformed, _, _, _, _, enclosing, hscopes, .cons hs hss =>
    NoneWorse.append (s.places_noWorse.wraps hformed.1 enclosing hscopes hs)
      (Stmt.placesAll_noWorse ss hformed.2 enclosing (hscopes.after hs hformed.1) hss)
termination_by structural ss => ss

theorem FunctionDecl.places_noWorse : (d : FunctionDecl) → d.Formed r.Used → {nest : Nest} →
    {scopes scopes' : List (List String)} → {d' : FunctionDecl} → (enclosing : List Enclosing) →
      (isMethod : Bool) → nest.Scopes r.naming scopes scopes' → d.Varies r.written nest d' →
        NoneWorse (d.places enclosing scopes isMethod)
          (d'.places enclosing scopes' isMethod)
  | .mk name parameters body, hformed, _, _, _, _, enclosing, isMethod, hscopes,
      .mk renamed _ hparameters hbody => by
    have hused : ∀ parameter ∈ parameters, r.Used parameter :=
      fun parameter hparameter => (hformed.2.1 parameter hparameter).1
    have hinside := hscopes.parameters hused hparameters
    exact NoneWorse.append
      (Place.noWorse_declarations (hscopes.enter renamed (List.forall_mem_nil _)) rfl
        (.function name.lexeme isMethod :: enclosing) hparameters hused)
      (Stmt.placesAll_noWorse body hformed.2.2 (.function name.lexeme isMethod :: enclosing)
        hinside hbody)
termination_by structural d => d

theorem FunctionDecl.placesOfMethods_noWorse : (ds : List FunctionDecl) →
    FunctionDecl.FormedAll r.Used ds → {nest : Nest} → {scopes scopes' : List (List String)} →
      {ds' : List FunctionDecl} → (enclosing : List Enclosing) →
        nest.Scopes r.naming scopes scopes' → FunctionDecl.VaryAll r.written nest ds ds' →
          NoneWorse (FunctionDecl.placesOfMethods enclosing scopes ds)
            (FunctionDecl.placesOfMethods enclosing scopes' ds')
  | [], _, _, _, _, _, _, _, .nil => .nil
  | d :: ds, hformed, _, _, _, _, enclosing, hscopes, .cons hd hds =>
    NoneWorse.append (d.places_noWorse hformed.1 enclosing true hscopes hd)
      (FunctionDecl.placesOfMethods_noWorse ds hformed.2 enclosing hscopes hds)
termination_by structural ds => ds

end

end Lox
