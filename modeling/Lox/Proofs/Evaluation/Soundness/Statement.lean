import Lox.Proofs.Evaluation.Soundness

/-!
# Soundness of statements

A statement leaves the machine within the scopes that the analysis has open
after it: those from before it and the name that it declares, if any.
-/

namespace Lox

open Machine

variable {programs : List Program} {labels : List Region} {machine : Machine}

theorem Site.scopes_after_expr (site : Site) (e : Expr) :
    (site.after (.expr e)).scopes = site.scopes :=
  e.scopes_analyze site.around site.analysis

theorem Site.scopes_after_stmt {spelled : Token → Prop} (site : Site) {s : Stmt}
    (hformed : s.Formed spelled) :
    (site.after (.stmt s)).scopes = site.analysis.scopesAfter s.declared? :=
  s.scopes_analyze site.around hformed site.analysis

theorem Leaves.normal {around : Surroundings} {regions : List Region} {scopes : List Scope}
    (h : machine.Within labels regions scopes) :
    Leaves programs around regions scopes labels .normal machine :=
  ⟨trivial, h⟩

/-- The declaration of a function gives its name to a closure that is sound. -/
theorem function_sound {fuel : Nat} {declaration : FunctionDecl} {site : Site}
    (hhealthy : machine.Healthy programs labels)
    (hplaced : machine.Placed programs labels (.stmt (.function declaration)) site) :
    Ensures programs labels
      (Leaves programs site.around site.regions
        (site.analysis.scopesAfter (some declaration.name)))
      [] (execute (fuel + 1) (.function declaration) machine) := by
  obtain ⟨program, hprogram, hreached⟩ := hplaced.reached
  let closure : Closure := (machine.store.newClosure declaration machine.current false).1
  let made : Machine := { machine with store := machine.store.identify.2 }
  have hmade : made.Healthy programs labels :=
    ⟨⟨hhealthy.values.frames, hhealthy.values.lists, hhealthy.values.fields⟩,
      hhealthy.globals, hhealthy.labelled, hhealthy.accepted⟩
  have hwithin : (made.defined declaration.name.lexeme (.function closure)).Within labels
      site.regions (site.declared declaration.name).scopes :=
    Within.defined ⟨hplaced.within.stands, hplaced.within.exact⟩
  have hclosure : closure.Sound programs
      (made.defined declaration.name.lexeme (.function closure)).store.frames labels :=
    ⟨program, hprogram, _, hreached.child List.mem_cons_self, hwithin.stands,
      by simp [closure, Store.newClosure]⟩
  rw [execute]
  exact .ok (hmade.defined hclosure) (.normal hwithin)

/-- The declaration of a class gives its name to a class with sound methods. -/
theorem classDecl_sound {fuel : Nat} {name : Token} {declarations : List FunctionDecl}
    {site : Site} (hhealthy : machine.Healthy programs labels)
    (hplaced : machine.Placed programs labels (.stmt (.classDecl name declarations)) site) :
    Ensures programs labels
      (Leaves programs site.around site.regions (site.analysis.scopesAfter (some name)))
      [] (execute (fuel + 1) (.classDecl name declarations) machine) := by
  obtain ⟨program, hprogram, hreached⟩ := hplaced.reached
  let made : ClassValue × Store :=
    machine.store.newClass name.lexeme declarations machine.current
  have hframes : made.2.frames = machine.store.frames := Store.frames_newClass ..
  have hmade : ({ machine with store := made.2 } : Machine).Healthy programs labels := by
    refine ⟨?_, hhealthy.globals, ?_, hhealthy.accepted⟩
    · dsimp only
      rw [hframes]
      exact hhealthy.values.newClass ..
    · dsimp only
      rw [hframes]
      exact hhealthy.labelled
  have hwithin : (({ machine with store := made.2 } : Machine).defined name.lexeme
      (.classValue made.1)).Within labels site.regions (site.declared name).scopes := by
    refine Within.defined ⟨?_, ?_⟩
    · dsimp only
      rw [hframes]
      exact hplaced.within.stands
    · dsimp only
      rw [hframes]
      exact hplaced.within.exact
  have hcls : made.1.Sound programs (({ machine with store := made.2 } : Machine).defined
      name.lexeme (.classValue made.1)).store.frames labels := by
    intro methodName method hmethod
    obtain ⟨d, hmem, hdeclaration, hframe, hinitializer⟩ := Store.methods_newClass hmethod
    obtain ⟨site', hmethodReached, hregions, hscopes⟩ :=
      (hreached.child List.mem_cons_self).method hmem
    rw [← hinitializer, ← hdeclaration] at hmethodReached
    rw [← hdeclaration] at hregions
    refine ⟨program, hprogram, site', _, _, hmethodReached, hregions, hscopes, ?_⟩
    rw [hframe]
    exact hwithin.stands
  rw [execute]
  exact .ok (hmade.defined hcls) (.normal hwithin)

section Step

variable {fuel : Nat} (ih : SoundRuns programs fuel)
include ih

/-- A statement that declares nothing leaves the machine within the scopes in
which it found it. -/
theorem SoundRuns.execute_plain {s : Stmt} {site : Site} {scopes : List Scope}
    (hhealthy : machine.Healthy programs labels)
    (hplaced : machine.Placed programs labels (.stmt s) site) (hplain : s.declared? = none)
    (hscopes : site.scopes = scopes) :
    Ensures programs labels (Leaves programs site.around site.regions scopes)
      (moments fuel (.stmt s) machine) (Machine.execute fuel s machine) := by
  have hleaves := ih.execute hhealthy hplaced
  rw [hplain] at hleaves
  rwa [← hscopes]

theorem block_sound {body : List Stmt} {site : Site}
    (hhealthy : machine.Healthy programs labels)
    (hplaced : machine.Placed programs labels (.stmt (.block body)) site) :
    Ensures programs labels (Leaves programs site.around site.regions site.scopes)
      (moments (fuel + 1) (.stmt (.block body)) machine)
      (execute (fuel + 1) (.block body) machine) := by
  obtain ⟨hentered, hwithin⟩ := hhealthy.enterBlock body hplaced.within
  have hplaced' := hplaced.child List.mem_cons_self hwithin
  refine .cons_frame rfl ⟨site, hplaced⟩ hhealthy ?_
  rw [execute]
  have hbody : Ensures programs (labels ++ [.block body])
      (fun labels flow after => flow.Allowed programs after.store.frames labels site.around)
      (Task.inside fuel (moments fuel) (.stmt (.block body)) machine)
      ((enterBlock >>= fun frame => within frame (executeAll fuel body)) machine) := by
    rw [bind_of_ok (enterBlock_eq machine)]
    exact .within (ih.executeAll hentered hplaced') fun _ _ _ _ _ hallowed => hallowed
  refine hbody.mono fun labels' flow after hlabels hresult hallowed => ⟨hallowed, ?_⟩
  have hkeeps := (@steady_enterBlock _ false _ ((steadyRuns fuel).executeAll body)).ok hresult
  exact hplaced.within.keep hkeeps ((List.prefix_append _ _).trans hlabels)

theorem execute_sound {s : Stmt} {site : Site} (hhealthy : machine.Healthy programs labels)
    (hplaced : machine.Placed programs labels (.stmt s) site) :
    Ensures programs labels
      (Leaves programs site.around site.regions (site.analysis.scopesAfter s.declared?))
      (moments (fuel + 1) (.stmt s) machine) (execute (fuel + 1) s machine) := by
  have hfits := hplaced.fits hhealthy
  have hwithin := hplaced.within
  have hsound : Task.Sound programs labels machine (.stmt s) := ⟨site, hplaced⟩
  rcases s with value | value | ⟨name, _ | initializer⟩ | body |
    ⟨condition, thenBranch, _ | elseBranch⟩ | ⟨condition, body⟩ | keyword | declaration |
    ⟨keyword, _ | value⟩ | ⟨name, declarations⟩
  case expression =>
    refine .cons_plain rfl hsound hhealthy ?_
    rw [execute]
    apply (ih.evaluate hhealthy (hplaced.child List.mem_cons_self hwithin)).bind_step
    intro labels' result after hlabels hresult hhealthy' _
    have hkeeps := ((steadyRuns fuel).evaluate value).ok hresult
    exact .ok hhealthy' (.normal (hwithin.keep hkeeps hlabels))
  case print =>
    refine .cons_plain rfl hsound hhealthy ?_
    rw [execute]
    apply (ih.evaluate hhealthy (hplaced.child List.mem_cons_self hwithin)).bind_step
    intro labels' result after hlabels hresult hhealthy' _
    have hkeeps := ((steadyRuns fuel).evaluate value).ok hresult
    have hwithin' := hwithin.keep hkeeps hlabels
    apply (Ensures.printLine hhealthy').bind_step
    intro labels'' _ after' hlabels' hresult' hhealthy'' _
    have hkeeps' := (@steady_printLine false result).ok hresult'
    exact .ok hhealthy'' (.normal (hwithin'.keep hkeeps' hlabels'))
  case declare.none =>
    refine .cons_plain rfl hsound hhealthy ?_
    rw [execute, bind_of_ok (define_eq name.lexeme .nil machine)]
    exact .ok (hhealthy.defined trivial) (.normal hwithin.defined)
  case declare.some =>
    refine .cons_plain rfl hsound hhealthy ?_
    rw [execute]
    have hplaced' := hplaced.child List.mem_cons_self (hwithin.declaring name)
    apply (ih.evaluate hhealthy hplaced').bind_step
    intro labels' value after hlabels hresult hhealthy' hvalue
    have hkeeps := ((steadyRuns fuel).evaluate initializer).ok hresult
    have hwithin' := hwithin.keep hkeeps hlabels
    have hdefined := after.store.frames.keeps_define after.current name.lexeme value
    rw [bind_of_ok (define_eq name.lexeme value after)]
    refine .ok (hhealthy'.defined (hvalue.mono hdefined (List.prefix_refl labels'))) ?_
    exact .normal hwithin'.defined
  case block => exact block_sound ih hhealthy hplaced
  case branch.none =>
    refine .cons_plain rfl hsound hhealthy ?_
    rw [execute]
    apply (ih.evaluate hhealthy (hplaced.child List.mem_cons_self hwithin)).bind
    intro labels' value after hlabels hresult hhealthy' _
    have hkeeps := ((steadyRuns fuel).evaluate condition).ok hresult
    have hplaced' := hplaced.keep hkeeps hlabels
    have hscopes := site.scopes_after_expr condition
    by_cases htruthy : value.isTruthy
    · simp only [htruthy, if_true]
      have hthen := hplaced'.child (List.mem_cons_of_mem _ List.mem_cons_self)
        (hscopes ▸ hplaced'.within : after.Within labels' site.regions (site.after _).scopes)
      have hleaves := ih.execute_plain hhealthy' hthen hfits.formed.2.2 hscopes
      exact hleaves
    · simp only [htruthy]
      exact .ok hhealthy' (.normal hplaced'.within)
  case branch.some =>
    refine .cons_plain rfl hsound hhealthy ?_
    rw [execute]
    apply (ih.evaluate hhealthy (hplaced.child List.mem_cons_self hwithin)).bind
    intro labels' value after hlabels hresult hhealthy' _
    have hkeeps := ((steadyRuns fuel).evaluate condition).ok hresult
    have hplaced' := hplaced.keep hkeeps hlabels
    obtain ⟨-, ⟨hthen, hthenPlain⟩, -, helsePlain⟩ := hfits.formed
    have hscopes := site.scopes_after_expr condition
    have hscopes' : ((site.after (.expr condition)).after (.stmt thenBranch)).scopes =
        site.scopes := by
      rw [Site.scopes_after_stmt _ hthen, hthenPlain]
      exact hscopes
    by_cases htruthy : value.isTruthy
    · simp only [htruthy, if_true]
      have hthenPlaced := hplaced'.child (List.mem_cons_of_mem _ List.mem_cons_self)
        (hscopes ▸ hplaced'.within : after.Within labels' site.regions (site.after _).scopes)
      have hleaves := ih.execute_plain hhealthy' hthenPlaced hthenPlain hscopes
      exact hleaves
    · simp only [htruthy]
      have helsePlaced := hplaced'.child
        (List.mem_cons_of_mem _ (List.mem_cons_of_mem _ List.mem_cons_self))
        (hscopes' ▸ hplaced'.within :
          after.Within labels' site.regions ((site.after _).after _).scopes)
      have hleaves := ih.execute_plain hhealthy' helsePlaced helsePlain hscopes'
      exact hleaves
  case loop =>
    refine .cons_plain rfl hsound hhealthy ?_
    rw [execute]
    exact ih.loop hhealthy hplaced
  case leave =>
    refine .cons_plain rfl hsound hhealthy ?_
    rw [execute]
    exact .ok hhealthy ⟨hfits.leave, hwithin⟩
  case function => exact .cons_plain rfl hsound hhealthy (function_sound hhealthy hplaced)
  case giveBack.none =>
    refine .cons_plain rfl hsound hhealthy ?_
    rw [execute]
    exact .ok hhealthy ⟨⟨hfits.giveBack, trivial⟩, hwithin⟩
  case giveBack.some =>
    refine .cons_plain rfl hsound hhealthy ?_
    rw [execute]
    have hscopes : ((site.checked (!site.around.inFunction) keyword .returnAtTopLevel).checked
        site.around.inInitializer keyword .returnFromInitializer).scopes = site.scopes := by
      simp [Site.scopes, Site.checked, Analysis.scopes_reportIf]
    refine (ih.evaluate hhealthy (hplaced.child List.mem_cons_self ?_)).bind_step ?_
    · rw [hscopes]
      exact hwithin
    · intro labels' result after hlabels hresult hhealthy' hvalue
      have hkeeps := ((steadyRuns fuel).evaluate value).ok hresult
      have hwithin' := hwithin.keep hkeeps hlabels
      exact .ok hhealthy' ⟨⟨hfits.giveBack, hvalue⟩, hwithin'⟩
  case classDecl => exact .cons_plain rfl hsound hhealthy (classDecl_sound hhealthy hplaced)

theorem executeAll_sound {ss : List Stmt} {site : Site}
    (hhealthy : machine.Healthy programs labels)
    (hplaced : machine.Placed programs labels (.stmts ss) site) :
    Ensures programs labels
      (fun labels flow after => flow.Allowed programs after.store.frames labels site.around)
      (moments (fuel + 1) (.stmts ss) machine) (executeAll (fuel + 1) ss machine) := by
  refine .cons_plain rfl ⟨site, hplaced⟩ hhealthy ?_
  cases ss with
  | nil =>
      rw [executeAll]
      exact .ok hhealthy trivial
  | cons s ss =>
      have hformed := (hplaced.fits hhealthy).formed
      rw [executeAll]
      apply (ih.execute hhealthy (hplaced.child List.mem_cons_self hplaced.within)).bind
      rintro labels' flow after - - hhealthy' ⟨hallowed, hwithin⟩
      cases flow with
      | normal =>
          rw [← Site.scopes_after_stmt site hformed.1] at hwithin
          have hrest := hplaced.child (List.mem_cons_of_mem _ List.mem_cons_self)
            (hwithin : after.Within labels' site.regions (site.after _).scopes)
          have hallowed := ih.executeAll hhealthy' hrest
          exact hallowed
      | returned value => exact .ok hhealthy' hallowed
      | left line => exact .ok hhealthy' hallowed

theorem loop_sound {condition : Expr} {body : Stmt} {site : Site}
    (hhealthy : machine.Healthy programs labels)
    (hplaced : machine.Placed programs labels (.stmt (.loop condition body)) site) :
    Ensures programs labels (Leaves programs site.around site.regions site.scopes)
      (moments (fuel + 1) (.loop condition body) machine)
      (loop (fuel + 1) condition body machine) := by
  have hplain := (hplaced.fits hhealthy).formed.2.2
  have hscopes := site.scopes_after_expr condition
  refine .cons_plain rfl ⟨site, hplaced⟩ hhealthy ?_
  rw [loop]
  apply (ih.evaluate hhealthy (hplaced.child List.mem_cons_self hplaced.within)).bind
  intro labels' value after hlabels hresult hhealthy' _
  have hkeeps := ((steadyRuns fuel).evaluate condition).ok hresult
  have hplaced' := hplaced.keep hkeeps hlabels
  by_cases htruthy : value.isTruthy
  · simp only [htruthy, if_true]
    have hbody := hplaced'.child (List.mem_cons_of_mem _ List.mem_cons_self)
      (hscopes ▸ hplaced'.within :
        after.Within labels' site.regions
          ((site.after _).surrounded site.around.loop).scopes)
    apply (ih.execute_plain hhealthy' hbody hplain hscopes).bind
    rintro labels'' flow after' - - hhealthy'' ⟨hallowed, hwithin⟩
    cases flow with
    | normal => exact ih.loop hhealthy'' ⟨hplaced.reached, hwithin⟩
    | returned result => exact .ok hhealthy'' ⟨hallowed, hwithin⟩
    | left line => exact .ok hhealthy'' (.normal hwithin)
  · simp only [htruthy]
    exact .ok hhealthy' (.normal hplaced'.within)

end Step

/-- Everything that runs on any fuel is sound. -/
theorem soundRuns (programs : List Program) (fuel : Nat) : SoundRuns programs fuel := by
  induction fuel with
  | zero => exact soundRuns_zero
  | succ fuel ih =>
      exact {
        evaluate := evaluate_sound ih
        evaluateAll := evaluateAll_sound ih
        call := call_sound ih
        invoke := invoke_sound ih
        execute := execute_sound ih
        executeAll := executeAll_sound ih
        loop := loop_sound ih }

end Lox
