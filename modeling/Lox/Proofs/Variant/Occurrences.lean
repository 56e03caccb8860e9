import Lox.Proofs.Variant.Scope

/-!
# Occurrences in variants

A variant has the occurrences of the program, with the same numbers, and each has
the distance that its nest gives.  Hence a variant whose names are changed as the
distances of the program say varies from the program also with regard to the
distances that are recorded for it.
-/

namespace Lox

variable {r : Variant}

/-- The occurrences have the same number, and the second is bound by the scope that
a nest gives for the one that binds the first. -/
def Occurrence.Varies (fits : Nest → Prop) (occurrence occurrence' : Occurrence) : Prop :=
  occurrence'.id = occurrence.id ∧
    ∃ nest, fits nest ∧ occurrence'.distance? = occurrence.distance?.map nest.distance

/-- The nests that parts of a variant come to stand in. -/
structure Variant.Closed (r : Variant) (fits : Nest → Prop) : Prop where
  enter {nest : Nest} (renamed : Bool) (h : fits nest) : fits (nest.enter renamed)
  pad {nest : Nest} (hpace : r.pace ≠ .same) (h : fits nest) : fits nest.pad

section Leaf

variable {nest : Nest} {scopes scopes' : List (List String)} {id : Nat} {name name' : Token}
variable {isReceiver inClass : Bool}

/-- An occurrence whose name is changed as its distance says. -/
theorem Occurrence.distance?_vary (h : nest.Scopes r.naming scopes scopes') (hused : r.Used name)
    (hname : r.written.occurs nest id name name')
    (hdistance : r.distances[id]? =
      (⟨id, name, isReceiver, inClass, scopes⟩ : Occurrence).distance?) :
    (⟨id, name', isReceiver, inClass, scopes'⟩ : Occurrence).distance? =
      (⟨id, name, isReceiver, inClass, scopes⟩ : Occurrence).distance?.map nest.distance := by
  have hlexeme := Token.Renames.lexeme hname
  rw [hdistance] at hlexeme
  simp only [Occurrence.distance?] at hlexeme ⊢
  by_cases houtside : (isReceiver && !inClass) = true
  · simp [houtside]
  · simp only [houtside, Bool.false_eq_true, if_false] at hlexeme ⊢
    rw [hlexeme]
    exact h.findIdx? hused

end Leaf

/-! ## The occurrences of a variant -/

/-- The distances are those of the occurrences. -/
abbrev Recorded (distances : Distances) (occurrences : List Occurrence) : Prop :=
  ∀ occurrence ∈ occurrences, distances[occurrence.id]? = occurrence.distance?

section Pairs

variable {fits : Nest → Prop}

section Expr

variable {nest : Nest} {scopes scopes' : List (List String)}

theorem Occurrence.varies (hnest : fits nest) (hscopes : nest.Scopes r.naming scopes scopes')
    (inClass : Bool) {id : Nat} {name name' : Token} (isReceiver : Bool)
    (hname : r.written.occurs nest id name name') (hused : r.Used name)
    (hdistance : Recorded r.distances [⟨id, name, isReceiver, inClass, scopes⟩]) :
    List.Forall₂ (Occurrence.Varies fits) [⟨id, name, isReceiver, inClass, scopes⟩]
      [⟨id, name', isReceiver, inClass, scopes'⟩] :=
  .cons ⟨rfl, nest, hnest, Occurrence.distance?_vary hscopes hused hname
    (hdistance _ (List.mem_singleton_self _))⟩ .nil

mutual

theorem Expr.occurrences_vary (hnest : fits nest) (hscopes : nest.Scopes r.naming scopes scopes')
    (inClass : Bool) : (e : Expr) → {e' : Expr} → e.Varies r.written nest e' →
      e.Formed r.Used → Recorded r.distances (e.occurrences inClass scopes) →
        List.Forall₂ (Occurrence.Varies fits) (e.occurrences inClass scopes)
          (e'.occurrences inClass scopes')
  | .literal _, _, .literal _, _, _ => .nil
  | .grouping inner, _, .grouping hinner, hformed, h =>
    have hall := inner.occurrences_vary hnest hscopes inClass hinner hformed h
    hall
  | .unary _ operand, _, .unary _ hoperand, hformed, h =>
    have hall := operand.occurrences_vary hnest hscopes inClass hoperand hformed.2 h
    hall
  | .binary left _ right, _, .binary hleft _ hright, hformed, h =>
    have h := List.forall_mem_append.1 h
    List.rel_append (left.occurrences_vary hnest hscopes inClass hleft hformed.2.1 h.1)
      (right.occurrences_vary hnest hscopes inClass hright hformed.2.2 h.2)
  | .logical left _ right, _, .logical hleft _ hright, hformed, h =>
    have h := List.forall_mem_append.1 h
    List.rel_append (left.occurrences_vary hnest hscopes inClass hleft hformed.1 h.1)
      (right.occurrences_vary hnest hscopes inClass hright hformed.2 h.2)
  | .reference _ _, _, .reference hname, hformed, h =>
    Occurrence.varies hnest hscopes inClass false hname hformed.1 h
  | .assign _ _ value, _, .assign hname hvalue, hformed, h =>
    have h := List.forall_mem_append.1 h
    List.rel_append (value.occurrences_vary hnest hscopes inClass hvalue hformed.2 h.1)
      (Occurrence.varies hnest hscopes inClass false hname hformed.1.1 h.2)
  | .receiver _ _, _, .receiver hkeyword, hformed, h =>
    Occurrence.varies hnest hscopes inClass true hkeyword hformed.1 h
  | .get object _, _, .get hobject _, hformed, h =>
    have hall := object.occurrences_vary hnest hscopes inClass hobject hformed.1 h
    hall
  | .set object _ value, _, .set hobject _ hvalue, hformed, h =>
    have h := List.forall_mem_append.1 h
    List.rel_append (value.occurrences_vary hnest hscopes inClass hvalue hformed.2.2 h.1)
      (object.occurrences_vary hnest hscopes inClass hobject hformed.1 h.2)
  | .call callee _ arguments, _, .call hcallee _ harguments, hformed, h =>
    have h := List.forall_mem_append.1 h
    List.rel_append (callee.occurrences_vary hnest hscopes inClass hcallee hformed.1 h.1)
      (Expr.occurrencesAll_vary hnest hscopes inClass arguments harguments hformed.2 h.2)
  | .list _ elements, _, .list _ helements, hformed, h =>
    have hall := Expr.occurrencesAll_vary hnest hscopes inClass elements helements hformed h
    hall
termination_by structural e => e

theorem Expr.occurrencesAll_vary (hnest : fits nest)
    (hscopes : nest.Scopes r.naming scopes scopes') (inClass : Bool) :
    (es : List Expr) → {es' : List Expr} → List.Forall₂ (Expr.Varies r.written nest) es es' →
      Expr.FormedAll r.Used es →
        Recorded r.distances (Expr.occurrencesAll inClass scopes es) →
          List.Forall₂ (Occurrence.Varies fits) (Expr.occurrencesAll inClass scopes es)
            (Expr.occurrencesAll inClass scopes' es')
  | [], _, .nil, _, _ => .nil
  | e :: es, _, .cons he hes, hformed, h =>
    have h := List.forall_mem_append.1 h
    List.rel_append (e.occurrences_vary hnest hscopes inClass he hformed.1 h.1)
      (Expr.occurrencesAll_vary hnest hscopes inClass es hes hformed.2 h.2)
termination_by structural es => es

end

end Expr

/-- A loop that makes its test inside has the occurrences of the loop in a scope of
its own. -/
theorem Stmt.occurrences_testedLoop (operator keyword : Token) (condition : Expr) (body : Stmt)
    (inClass : Bool) (scopes : List (List String)) :
    (testedLoop operator keyword condition body).occurrences inClass scopes =
      (Stmt.loop condition body).occurrences inClass ([] :: scopes) := by
  simp only [testedLoop, testedBody, Stmt.occurrences, Stmt.occurrencesAll, Expr.occurrences,
    Stmt.declares, declaring_nil, List.nil_append, List.append_nil]

/-- A statement and its variants have paired occurrences wherever they stand. -/
def Stmt.Pairs (r : Variant) (fits : Nest → Prop) (s : Stmt) : Prop :=
  ∀ {nest : Nest} {scopes scopes' : List (List String)} {s' : Stmt} (inClass : Bool),
    fits nest → nest.Scopes r.naming scopes scopes' → s.Varies r.written nest s' →
      Recorded r.distances (s.occurrences inClass scopes) →
        List.Forall₂ (Occurrence.Varies fits) (s.occurrences inClass scopes)
          (s'.occurrences inClass scopes')

theorem Stmt.Pairs.wraps (hclosed : r.Closed fits) {s : Stmt} (hpairs : s.Pairs r fits)
    {nest : Nest} {scopes scopes' : List (List String)} {s' : Stmt} (inClass : Bool)
    (hnest : fits nest) (hscopes : nest.Scopes r.naming scopes scopes')
    (hs : s.Wraps r.written nest s')
    (h : Recorded r.distances (s.occurrences inClass scopes)) :
    List.Forall₂ (Occurrence.Varies fits) (s.occurrences inClass scopes)
      (s'.occurrences inClass scopes') := by
  cases hs with
  | same hs => exact hpairs inClass hnest hscopes hs h
  | braced hpace hs =>
      have hinner := hpairs inClass (hclosed.pad hpace hnest) hscopes.pad hs h
      simpa only [Stmt.occurrences, Stmt.occurrencesAll, List.append_nil] using hinner
  | tested _ _ htesting _ hloop =>
      rw [Stmt.occurrences_testedLoop]
      exact hpairs inClass (hclosed.pad htesting.ne_same hnest) hscopes.pad hloop h

mutual

theorem Stmt.occurrences_vary (hclosed : r.Closed fits) : (s : Stmt) → s.Formed r.Used →
    s.Pairs r fits
  | .expression value, hformed, _, _, _, _, inClass, hnest, hscopes, .expression hvalue, h =>
    have hall := value.occurrences_vary hnest hscopes inClass hvalue hformed h
    hall
  | .print value, hformed, _, _, _, _, inClass, hnest, hscopes, .print hvalue, h =>
    have hall := value.occurrences_vary hnest hscopes inClass hvalue hformed h
    hall
  | .declare _ none, _, _, _, _, _, _, _, _, .declare _ _ .none, _ => .nil
  | .declare _ (some initializer), hformed, _, _, _, _, inClass, hnest, hscopes,
      .declare hflat hname (.some hinitializer), h =>
    have hdeclared := hscopes.declared hflat hformed.1.1 hname.lexeme.symm
    have hall := initializer.occurrences_vary hnest hdeclared inClass hinitializer hformed.2 h
    hall
  | .block body, hformed, _, _, _, _, inClass, hnest, hscopes, .block renamed hbody, h =>
    have hinside := hscopes.enter renamed (List.forall_mem_nil _)
    have hall := Stmt.occurrencesAll_vary hclosed body hformed inClass
      (hclosed.enter renamed hnest) hinside hbody h
    hall
  | .branch condition thenBranch none, hformed, _, _, _, _, inClass, hnest, hscopes,
      .branch hcondition hthen, h =>
    have h := List.forall_mem_append.1 h
    List.rel_append (condition.occurrences_vary hnest hscopes inClass hcondition hformed.1 h.1)
      (Stmt.Pairs.wraps hclosed (thenBranch.occurrences_vary hclosed hformed.2.1) inClass hnest
        hscopes hthen h.2)
  | .branch condition thenBranch (some elseBranch), hformed, _, _, _, _, inClass, hnest, hscopes,
      .branchElse hcondition hthen helse, h =>
    have h := List.forall_mem_append.1 h
    have h' := List.forall_mem_append.1 h.1
    have hafter := hscopes.after hthen hformed.2.1.1
    List.rel_append
      (List.rel_append (condition.occurrences_vary hnest hscopes inClass hcondition hformed.1 h'.1)
        (Stmt.Pairs.wraps hclosed (thenBranch.occurrences_vary hclosed hformed.2.1.1) inClass
          hnest hscopes hthen h'.2))
      (Stmt.Pairs.wraps hclosed (elseBranch.occurrences_vary hclosed hformed.2.2.1) inClass hnest
        hafter helse h.2)
  | .loop condition body, hformed, _, _, _, _, inClass, hnest, hscopes, .loop hcondition hbody, h =>
    have h := List.forall_mem_append.1 h
    List.rel_append (condition.occurrences_vary hnest hscopes inClass hcondition hformed.1 h.1)
      (Stmt.Pairs.wraps hclosed (body.occurrences_vary hclosed hformed.2.1) inClass hnest hscopes
        hbody h.2)
  | .leave _, _, _, _, _, _, _, _, _, .leave _, _ => .nil
  | .function (.mk name parameters body), hformed, _, _, _, _, inClass, hnest, hscopes,
      .function hflat hname hdeclaration, h => by
    rw [Stmt.occurrences, Stmt.occurrences, ← hdeclaration.name]
    exact FunctionDecl.occurrences_vary hclosed (.mk name parameters body) hformed inClass hnest
      (hscopes.declared hflat hformed.1.1 hname) hdeclaration h
  | .giveBack _ none, _, _, _, _, _, _, _, _, .giveBack _ .none, _ => .nil
  | .giveBack _ (some value), hformed, _, _, _, _, inClass, hnest, hscopes,
      .giveBack _ (.some hvalue), h =>
    have hall := value.occurrences_vary hnest hscopes inClass hvalue hformed h
    hall
  | .classDecl name methods, hformed, _, _, _, _, _, hnest, hscopes,
      .classDecl _ hflat hname hmethods, h =>
    have hdeclared := hscopes.declared hflat hformed.1.1 hname
    have hall := FunctionDecl.occurrencesAll_vary hclosed methods hformed.2 true
      (hclosed.enter false hnest) hdeclared.methods hmethods h
    hall
termination_by structural s => s

theorem Stmt.occurrencesAll_vary (hclosed : r.Closed fits) : (ss : List Stmt) →
    Stmt.FormedAll r.Used ss → {nest : Nest} → {scopes scopes' : List (List String)} →
      {ss' : List Stmt} → (inClass : Bool) → fits nest → nest.Scopes r.naming scopes scopes' →
        Stmt.VaryAll r.written nest ss ss' →
          Recorded r.distances (Stmt.occurrencesAll inClass scopes ss) →
            List.Forall₂ (Occurrence.Varies fits) (Stmt.occurrencesAll inClass scopes ss)
              (Stmt.occurrencesAll inClass scopes' ss')
  | [], _, _, _, _, _, _, _, _, .nil, _ => .nil
  | s :: ss, hformed, _, _, _, _, inClass, hnest, hscopes, .cons hs hss, h =>
    have h := List.forall_mem_append.1 h
    List.rel_append
      (Stmt.Pairs.wraps hclosed (s.occurrences_vary hclosed hformed.1) inClass hnest hscopes hs h.1)
      (Stmt.occurrencesAll_vary hclosed ss hformed.2 inClass hnest (hscopes.after hs hformed.1)
        hss h.2)
termination_by structural ss => ss

theorem FunctionDecl.occurrences_vary (hclosed : r.Closed fits) : (d : FunctionDecl) →
    d.Formed r.Used → {nest : Nest} → {scopes scopes' : List (List String)} →
      {d' : FunctionDecl} → (inClass : Bool) → fits nest → nest.Scopes r.naming scopes scopes' →
        d.Varies r.written nest d' → Recorded r.distances (d.occurrences inClass scopes) →
          List.Forall₂ (Occurrence.Varies fits) (d.occurrences inClass scopes)
            (d'.occurrences inClass scopes')
  | .mk _ _ body, hformed, _, _, _, _, inClass, hnest, hscopes,
      .mk renamed _ hparameters hbody, h =>
    have hinside := hscopes.parameters (fun name hname => (hformed.2.1 name hname).1) hparameters
    have hall := Stmt.occurrencesAll_vary hclosed body hformed.2.2 inClass
      (hclosed.enter renamed hnest) hinside hbody h
    hall
termination_by structural d => d

theorem FunctionDecl.occurrencesAll_vary (hclosed : r.Closed fits) : (ds : List FunctionDecl) →
    FunctionDecl.FormedAll r.Used ds → {nest : Nest} → {scopes scopes' : List (List String)} →
      {ds' : List FunctionDecl} → (inClass : Bool) → fits nest →
        nest.Scopes r.naming scopes scopes' → FunctionDecl.VaryAll r.written nest ds ds' →
          Recorded r.distances (FunctionDecl.occurrencesAll inClass scopes ds) →
            List.Forall₂ (Occurrence.Varies fits) (FunctionDecl.occurrencesAll inClass scopes ds)
              (FunctionDecl.occurrencesAll inClass scopes' ds')
  | [], _, _, _, _, _, _, _, _, .nil, _ => .nil
  | d :: ds, hformed, _, _, _, _, inClass, hnest, hscopes, .cons hd hds, h =>
    have h := List.forall_mem_append.1 h
    List.rel_append (d.occurrences_vary hclosed hformed.1 inClass hnest hscopes hd h.1)
      (FunctionDecl.occurrencesAll_vary hclosed ds hformed.2 inClass hnest hscopes hds h.2)
termination_by structural ds => ds

end

end Pairs

/-! ## Recorded distances -/

section Expr

variable {nest : Nest} {scopes scopes' : List (List String)}

/-- Where both distances are recorded, the nest gives the one from the other. -/
theorem Variant.Occurs.of_recorded (hscopes : nest.Scopes r.naming scopes scopes')
    {inClass isReceiver : Bool} {id : Nat} {name name' : Token}
    (hname : r.written.occurs nest id name name') (hused : r.Used name)
    (h : Recorded r.distances [⟨id, name, isReceiver, inClass, scopes⟩])
    (h' : Recorded r.distances' [⟨id, name', isReceiver, inClass, scopes'⟩]) :
    r.Occurs nest id name name' where
  renames := hname
  used _ := hused
  distance := by
    have hdistance := List.forall_mem_singleton.1 h
    have hdistance' := List.forall_mem_singleton.1 h'
    calc r.distances'[id]?
      _ = (⟨id, name', isReceiver, inClass, scopes'⟩ : Occurrence).distance? := hdistance'
      _ = (⟨id, name, isReceiver, inClass, scopes⟩ : Occurrence).distance?.map nest.distance :=
        Occurrence.distance?_vary hscopes hused hname hdistance
      _ = r.distances[id]?.map nest.distance := by rw [hdistance]

mutual

theorem Expr.varies_of_recorded (hscopes : nest.Scopes r.naming scopes scopes') (inClass : Bool) :
    (e : Expr) → {e' : Expr} → e.Varies r.written nest e' → e.Formed r.Used →
      Recorded r.distances (e.occurrences inClass scopes) →
        Recorded r.distances' (e'.occurrences inClass scopes') → e.Varies r.variation nest e'
  | .literal value, _, .literal _, _, _, _ => .literal value
  | .grouping inner, _, .grouping hinner, hformed, h, h' =>
    .grouping (inner.varies_of_recorded hscopes inClass hinner hformed h h')
  | .unary operator operand, _, .unary _ hoperand, hformed, h, h' =>
    .unary operator (operand.varies_of_recorded hscopes inClass hoperand hformed.2 h h')
  | .binary left operator right, _, .binary hleft _ hright, hformed, h, h' =>
    have h := List.forall_mem_append.1 h
    have h' := List.forall_mem_append.1 h'
    .binary (left.varies_of_recorded hscopes inClass hleft hformed.2.1 h.1 h'.1) operator
      (right.varies_of_recorded hscopes inClass hright hformed.2.2 h.2 h'.2)
  | .logical left operator right, _, .logical hleft _ hright, hformed, h, h' =>
    have h := List.forall_mem_append.1 h
    have h' := List.forall_mem_append.1 h'
    .logical (left.varies_of_recorded hscopes inClass hleft hformed.1 h.1 h'.1) operator
      (right.varies_of_recorded hscopes inClass hright hformed.2 h.2 h'.2)
  | .reference _ _, _, .reference hname, hformed, h, h' =>
    .reference (.of_recorded hscopes hname hformed.1 h h')
  | .assign _ _ value, _, .assign hname hvalue, hformed, h, h' =>
    have h := List.forall_mem_append.1 h
    have h' := List.forall_mem_append.1 h'
    .assign (.of_recorded hscopes hname hformed.1.1 h.2 h'.2)
      (value.varies_of_recorded hscopes inClass hvalue hformed.2 h.1 h'.1)
  | .receiver _ _, _, .receiver hkeyword, hformed, h, h' =>
    .receiver (.of_recorded hscopes hkeyword hformed.1 h h')
  | .get object name, _, .get hobject _, hformed, h, h' =>
    .get (object.varies_of_recorded hscopes inClass hobject hformed.1 h h') name
  | .set object name value, _, .set hobject _ hvalue, hformed, h, h' =>
    have h := List.forall_mem_append.1 h
    have h' := List.forall_mem_append.1 h'
    .set (object.varies_of_recorded hscopes inClass hobject hformed.1 h.2 h'.2) name
      (value.varies_of_recorded hscopes inClass hvalue hformed.2.2 h.1 h'.1)
  | .call callee closing arguments, _, .call hcallee _ harguments, hformed, h, h' =>
    have h := List.forall_mem_append.1 h
    have h' := List.forall_mem_append.1 h'
    .call (callee.varies_of_recorded hscopes inClass hcallee hformed.1 h.1 h'.1) closing
      (Expr.vary_of_recorded hscopes inClass arguments harguments hformed.2 h.2 h'.2)
  | .list closing elements, _, .list _ helements, hformed, h, h' =>
    .list closing (Expr.vary_of_recorded hscopes inClass elements helements hformed h h')
termination_by structural e => e

theorem Expr.vary_of_recorded (hscopes : nest.Scopes r.naming scopes scopes') (inClass : Bool) :
    (es : List Expr) → {es' : List Expr} → List.Forall₂ (Expr.Varies r.written nest) es es' →
      Expr.FormedAll r.Used es → Recorded r.distances (Expr.occurrencesAll inClass scopes es) →
        Recorded r.distances' (Expr.occurrencesAll inClass scopes' es') →
          List.Forall₂ (Expr.Varies r.variation nest) es es'
  | [], _, .nil, _, _, _ => .nil
  | e :: es, _, .cons he hes, hformed, h, h' =>
    have h := List.forall_mem_append.1 h
    have h' := List.forall_mem_append.1 h'
    .cons (e.varies_of_recorded hscopes inClass he hformed.1 h.1 h'.1)
      (Expr.vary_of_recorded hscopes inClass es hes hformed.2 h.2 h'.2)
termination_by structural es => es

end

end Expr

/-- Where the distances of its occurrences are recorded, a variant of the statement
varies from it with regard to them as well. -/
def Stmt.Records (r : Variant) (s : Stmt) : Prop :=
  ∀ {nest : Nest} {scopes scopes' : List (List String)} {s' : Stmt} (inClass : Bool),
    nest.Scopes r.naming scopes scopes' → s.Varies r.written nest s' →
      Recorded r.distances (s.occurrences inClass scopes) →
        Recorded r.distances' (s'.occurrences inClass scopes') → s.Varies r.variation nest s'

theorem Stmt.Records.wraps {s : Stmt} (hrecords : s.Records r) {nest : Nest}
    {scopes scopes' : List (List String)} {s' : Stmt} (inClass : Bool)
    (hscopes : nest.Scopes r.naming scopes scopes') (hs : s.Wraps r.written nest s')
    (h : Recorded r.distances (s.occurrences inClass scopes))
    (h' : Recorded r.distances' (s'.occurrences inClass scopes')) :
    s.Wraps r.variation nest s' := by
  cases hs with
  | same hs => exact .same (hrecords inClass hscopes hs h h')
  | braced hpace hs =>
      rw [Stmt.occurrences, Stmt.occurrencesAll, Stmt.occurrencesAll, List.append_nil] at h'
      exact .braced hpace (hrecords inClass hscopes.pad hs h h')
  | tested operator keyword htesting hoperator hloop =>
      rw [Stmt.occurrences_testedLoop] at h'
      exact .tested operator keyword htesting hoperator (hrecords inClass hscopes.pad hloop h h')

mutual

theorem Stmt.varies_of_recorded : (s : Stmt) → s.Formed r.Used → s.Records r
  | .expression value, hformed, _, _, _, _, inClass, hscopes, .expression hvalue, h, h' =>
    .expression (value.varies_of_recorded hscopes inClass hvalue hformed h h')
  | .print value, hformed, _, _, _, _, inClass, hscopes, .print hvalue, h, h' =>
    .print (value.varies_of_recorded hscopes inClass hvalue hformed h h')
  | .declare _ none, _, _, _, _, _, _, _, .declare hflat hname .none, _, _ =>
    .declare hflat hname .none
  | .declare _ (some initializer), hformed, _, _, _, _, inClass, hscopes,
      .declare hflat hname (.some hinitializer), h, h' =>
    have hdeclared := hscopes.declared hflat hformed.1.1 hname.lexeme.symm
    .declare hflat hname
      (.some (initializer.varies_of_recorded hdeclared inClass hinitializer hformed.2 h h'))
  | .block body, hformed, _, _, _, _, inClass, hscopes, .block renamed hbody, h, h' =>
    .block renamed (Stmt.vary_of_recorded body hformed inClass
      (hscopes.enter renamed (List.forall_mem_nil _)) hbody h h')
  | .branch condition thenBranch none, hformed, _, _, _, _, inClass, hscopes,
      .branch hcondition hthen, h, h' =>
    have h := List.forall_mem_append.1 h
    have h' := List.forall_mem_append.1 h'
    .branch (condition.varies_of_recorded hscopes inClass hcondition hformed.1 h.1 h'.1)
      (Stmt.Records.wraps (thenBranch.varies_of_recorded hformed.2.1) inClass hscopes hthen h.2
        h'.2)
  | .branch condition thenBranch (some elseBranch), hformed, _, _, _, _, inClass, hscopes,
      .branchElse hcondition hthen helse, h, h' =>
    have h := List.forall_mem_append.1 h
    have h' := List.forall_mem_append.1 h'
    have hfirst := List.forall_mem_append.1 h.1
    have hfirst' := List.forall_mem_append.1 h'.1
    .branchElse
      (condition.varies_of_recorded hscopes inClass hcondition hformed.1 hfirst.1 hfirst'.1)
      (Stmt.Records.wraps (thenBranch.varies_of_recorded hformed.2.1.1) inClass hscopes hthen
        hfirst.2 hfirst'.2)
      (Stmt.Records.wraps (elseBranch.varies_of_recorded hformed.2.2.1) inClass
        (hscopes.after hthen hformed.2.1.1) helse h.2 h'.2)
  | .loop condition body, hformed, _, _, _, _, inClass, hscopes, .loop hcondition hbody, h, h' =>
    have h := List.forall_mem_append.1 h
    have h' := List.forall_mem_append.1 h'
    .loop (condition.varies_of_recorded hscopes inClass hcondition hformed.1 h.1 h'.1)
      (Stmt.Records.wraps (body.varies_of_recorded hformed.2.1) inClass hscopes hbody h.2 h'.2)
  | .leave keyword, _, _, _, _, _, _, _, .leave _, _, _ => .leave keyword
  | .function (.mk name parameters body), hformed, _, _, _, _, inClass, hscopes,
      .function hflat hname hdeclaration, h, h' => by
    rw [Stmt.occurrences, ← hdeclaration.name] at h'
    exact .function hflat hname
      (FunctionDecl.varies_of_recorded (.mk name parameters body) hformed inClass
        (hscopes.declared hflat hformed.1.1 hname) hdeclaration h h')
  | .giveBack keyword none, _, _, _, _, _, _, _, .giveBack _ .none, _, _ => .giveBack keyword .none
  | .giveBack keyword (some value), hformed, _, _, _, _, inClass, hscopes,
      .giveBack _ (.some hvalue), h, h' =>
    .giveBack keyword (.some (value.varies_of_recorded hscopes inClass hvalue hformed h h'))
  | .classDecl name methods, hformed, _, _, _, _, _, hscopes, .classDecl _ hflat hname hmethods,
      h, h' =>
    have hdeclared := hscopes.declared hflat hformed.1.1 hname
    .classDecl name hflat hname
      (FunctionDecl.vary_of_recorded methods hformed.2 true hdeclared.methods hmethods h h')
termination_by structural s => s

theorem Stmt.vary_of_recorded : (ss : List Stmt) → Stmt.FormedAll r.Used ss → {nest : Nest} →
    {scopes scopes' : List (List String)} → {ss' : List Stmt} → (inClass : Bool) →
      nest.Scopes r.naming scopes scopes' → Stmt.VaryAll r.written nest ss ss' →
        Recorded r.distances (Stmt.occurrencesAll inClass scopes ss) →
          Recorded r.distances' (Stmt.occurrencesAll inClass scopes' ss') →
            Stmt.VaryAll r.variation nest ss ss'
  | [], _, _, _, _, _, _, _, .nil, _, _ => .nil
  | s :: ss, hformed, _, _, _, _, inClass, hscopes, .cons hs hss, h, h' =>
    have h := List.forall_mem_append.1 h
    have h' := List.forall_mem_append.1 h'
    .cons (Stmt.Records.wraps (s.varies_of_recorded hformed.1) inClass hscopes hs h.1 h'.1)
      (Stmt.vary_of_recorded ss hformed.2 inClass (hscopes.after hs hformed.1) hss h.2 h'.2)
termination_by structural ss => ss

theorem FunctionDecl.varies_of_recorded : (d : FunctionDecl) → d.Formed r.Used → {nest : Nest} →
    {scopes scopes' : List (List String)} → {d' : FunctionDecl} → (inClass : Bool) →
      nest.Scopes r.naming scopes scopes' → d.Varies r.written nest d' →
        Recorded r.distances (d.occurrences inClass scopes) →
          Recorded r.distances' (d'.occurrences inClass scopes') → d.Varies r.variation nest d'
  | .mk name _ body, hformed, _, _, _, _, inClass, hscopes,
      .mk renamed _ hparameters hbody, h, h' =>
    have hinside := hscopes.parameters (fun name hname => (hformed.2.1 name hname).1) hparameters
    .mk renamed name hparameters
      (Stmt.vary_of_recorded body hformed.2.2 inClass hinside hbody h h')
termination_by structural d => d

theorem FunctionDecl.vary_of_recorded : (ds : List FunctionDecl) →
    FunctionDecl.FormedAll r.Used ds → {nest : Nest} → {scopes scopes' : List (List String)} →
      {ds' : List FunctionDecl} → (inClass : Bool) → nest.Scopes r.naming scopes scopes' →
        FunctionDecl.VaryAll r.written nest ds ds' →
          Recorded r.distances (FunctionDecl.occurrencesAll inClass scopes ds) →
            Recorded r.distances' (FunctionDecl.occurrencesAll inClass scopes' ds') →
              FunctionDecl.VaryAll r.variation nest ds ds'
  | [], _, _, _, _, _, _, _, .nil, _, _ => .nil
  | d :: ds, hformed, _, _, _, _, inClass, hscopes, .cons hd hds, h, h' =>
    have h := List.forall_mem_append.1 h
    have h' := List.forall_mem_append.1 h'
    .cons (d.varies_of_recorded hformed.1 inClass hscopes hd h.1 h'.1)
      (FunctionDecl.vary_of_recorded ds hformed.2 inClass hscopes hds h.2 h'.2)
termination_by structural ds => ds

end

end Lox
