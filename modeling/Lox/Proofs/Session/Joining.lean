import Lox.Proofs.Evaluation.Fuel
import Lox.Proofs.Matching.Weakening
import Lox.Proofs.Session.Rejection
import Lox.Proofs.Syntax.Reading.Statement
import Lox.Proofs.Syntax.Recognition.Statement
import Lox.Proofs.Token.Seam

/-!
# Joined sources

A session that is given two sources one after the other ends up as it does with
the one source that has a line end between them.  Where the first of them ends
is seen neither by reading, nor by scope analysis, nor by the run.
-/

namespace Lox

namespace Correspondence

/-- The numbers are those of both texts, and the lines of a source are those that
it has when it follows the first one. -/
def later (first : String) : Correspondence where
  ids := Eq
  lines line line' := line' = line + (first.toList.count '\n' + 1)

/-- The numbers below `next` and all lines are those of both texts. -/
def below (next : Nat) : Correspondence where
  ids id id' := id < next ∧ id = id'
  lines := Eq

/-- The numbers are those of both texts, and so are the lines, unless they are
lines of a source that follows the first one. -/
def seam (first : String) : Correspondence where
  ids := Eq
  lines line line' := line' = line ∨ line' = line + (first.toList.count '\n' + 1)

theorem later_unique (first : String) : (later first).Unique := by
  rintro i _ j _ rfl rfl
  exact Iff.rfl

theorem later_within_seam (first : String) : (later first).Within (seam first) :=
  ⟨fun _ _ h => h, fun _ _ h => .inr h⟩

theorem below_within_seam (next : Nat) (first : String) : (below next).Within (seam first) :=
  ⟨fun _ _ h => h.2, fun _ _ h => .inl h.symm⟩

end Correspondence

/-! ## Reading -/

theorem Grammar.Declarations.append {lower middle upper : Nat} {tokens tokens' : List Token}
    {ss ss' : List Stmt} (h : Declarations lower tokens middle ss)
    (h' : Declarations middle tokens' upper ss') :
    Declarations lower (tokens ++ tokens') upper (ss ++ ss') := by
  match h with
  | .nil => exact h'
  | .cons hfirst hrest =>
    rw [List.append_assoc]
    exact .cons hfirst (hrest.append h')

/-- Two sources without errors in their texts are read as they are when a line
end stands between them; the second only has its tokens on later lines. -/
theorem Parsed.ofSource_joined {first second : String} {next : Nat}
    (hfirst : (ofSource first next).diagnostics = [])
    (hsecond : (ofSource second (ofSource first next).nextId).diagnostics = []) :
    ∃ later : List Stmt,
      List.Forall₂ (Stmt.Matches (.later first))
          (ofSource second (ofSource first next).nextId).statements later ∧
        ofSource (first ++ "\n" ++ second) next =
          ⟨(ofSource first next).statements ++ later, [],
            (ofSource second (ofSource first next).nextId).nextId⟩ := by
  let middle := (ofSource first next).nextId
  obtain ⟨hlexical, hsyntax⟩ := clean_of_ofSource hfirst
  obtain ⟨hlexical', hsyntax'⟩ := clean_of_ofSource hsecond
  obtain ⟨stream, diagnostics, hjoined, hstream, hdiagnostics⟩ :=
    TokenStream.ofSource_lineEnd second (c := .later first) (fun _ => rfl) hlexical
  rw [hlexical', List.forall₂_nil_left_iff] at hdiagnostics
  have hmatches : (ofStream (TokenStream.ofSource second).1 middle).Matches (.later first)
      middle middle (ofStream stream middle) := ofStream_matches (fun _ => rfl) hstream
  have hclean : (ofStream stream middle).diagnostics = [] := by
    have hnone := hmatches.diagnostics
    rwa [hsyntax', List.forall₂_nil_left_iff] at hnone
  have hnextId : (ofStream (TokenStream.ofSource second).1 middle).nextId =
      (ofStream stream middle).nextId := by
    obtain ⟨count, hcount, hcount'⟩ := hmatches.numbers
    rw [hcount, hcount']
  have hending : stream.ending.is .endOfFile :=
    (hstream.ending.is _).symm.trans (TokenStream.ending_ofSource second)
  have hleft := Parser.declarations_of_ofStream (TokenStream.ending_ofSource first) hsyntax
  have hright := Parser.declarations_of_ofStream hending hclean
  have hwhole : ofStream ⟨(TokenStream.ofSource first).1.body ++ stream.body, stream.ending⟩ next =
      ⟨(ofSource first next).statements ++ (ofStream stream middle).statements, [],
        (ofStream stream middle).nextId⟩ :=
    Parser.ofStream_of_declarations (hleft.append hright)
  refine ⟨(ofStream stream middle).statements, hmatches.statements, ?_⟩
  rw [ofSource, hjoined, hdiagnostics]
  dsimp only
  rw [hwhole, ← hnextId]
  rfl

/-! ## Scope analysis -/

theorem Stmt.analyzeAll_append (around : Surroundings) (ss ss' : List Stmt)
    (analysis : Analysis) :
    Stmt.analyzeAll around (ss ++ ss') analysis =
      Stmt.analyzeAll around ss' (Stmt.analyzeAll around ss analysis) := by
  induction ss generalizing analysis with
  | nil => rfl
  | cons s ss ih => exact ih _

/-- No scope is open between the statements of a program. -/
theorem Stmt.scopes_analyzeAll {spelled : Token → Prop} (around : Surroundings) {ss : List Stmt}
    (hformed : Stmt.FormedAll spelled ss) {analysis : Analysis} (h : analysis.scopes = []) :
    (Stmt.analyzeAll around ss analysis).scopes = [] := by
  induction ss generalizing analysis with
  | nil => exact h
  | cons s ss ih =>
      apply ih hformed.2
      rw [s.scopes_analyze around hformed.1]
      cases s.declared? with
      | none => exact h
      | some name => simp [Analysis.scopesAfter, Analysis.declare, Analysis.define, h]

namespace Session

variable {session between : Session} {source first second : String}

/-- What is left of the analysis of a source without errors. -/
theorem analysis_clean (h : session.errors source = []) :
    (session.reading source).analysis = ⟨[], (session.read source).machine.distances, #[]⟩ := by
  have hscopes : (session.reading source).analysis.scopes = [] :=
    Stmt.scopes_analyzeAll {} (Parsed.ofSource_new source session.nextId).formed rfl
  have hclean := (errors_eq_nil h).2
  rw [distances_read_clean h]
  generalize (session.reading source).analysis = analysis at hclean hscopes
  obtain ⟨scopes, distances, diagnostics⟩ := analysis
  cases hscopes
  cases hclean
  rfl

/-- A session that has read the first of two sources, and may have run it, reads
the second as it reads both joined. -/
theorem reading_joined (hfirst : session.errors first = [])
    (hnextId : between.nextId = (session.read first).nextId)
    (hdistances : between.machine.distances = (session.read first).machine.distances)
    (hsecond : between.errors second = []) :
    ∃ later : List Stmt,
      List.Forall₂ (Stmt.Matches (.later first)) (between.reading second).statements later ∧
        session.errors (first ++ "\n" ++ second) = [] ∧
        (session.reading (first ++ "\n" ++ second)).statements =
          (session.reading first).statements ++ later ∧
        (session.read (first ++ "\n" ++ second)).nextId = (between.read second).nextId ∧
        Distances.Match (.later first) (between.read second).machine.distances
          (session.read (first ++ "\n" ++ second)).machine.distances := by
  obtain ⟨hparsed', hclean'⟩ := errors_eq_nil hsecond
  rw [hnextId] at hparsed'
  obtain ⟨later, hlater, hjoined⟩ := Parsed.ofSource_joined (errors_eq_nil hfirst).1 hparsed'
  have hstatements : (session.reading (first ++ "\n" ++ second)).statements =
      (session.reading first).statements ++ later := by
    rw [reading, hjoined]
    rfl
  have hlater' : List.Forall₂ (Stmt.Matches (.later first)) (between.reading second).statements
      later := by
    rw [reading, hnextId]
    exact hlater
  have hanalysis : (session.reading (first ++ "\n" ++ second)).analysis =
      Stmt.analyzeAll {} later ⟨[], between.machine.distances, #[]⟩ := by
    calc (session.reading (first ++ "\n" ++ second)).analysis
      _ = Stmt.analyzeAll {} ((session.reading first).statements ++ later)
          ⟨[], session.machine.distances, #[]⟩ := by rw [← hstatements]; rfl
      _ = Stmt.analyzeAll {} later (session.reading first).analysis :=
        Stmt.analyzeAll_append ..
      _ = Stmt.analyzeAll {} later ⟨[], between.machine.distances, #[]⟩ := by
        rw [analysis_clean hfirst, hdistances]
  have hmatches : (between.reading second).analysis.Matches (.later first)
      (session.reading (first ++ "\n" ++ second)).analysis := by
    rw [hanalysis]
    refine Stmt.analyzeAll_matches (Correspondence.later_unique first) {} _ hlater' ⟨rfl, ?_, .nil⟩
    rintro id _ rfl
    rfl
  have herrors : session.errors (first ++ "\n" ++ second) = [] := by
    have hnone := hmatches.diagnostics
    rw [hclean'] at hnone
    rw [errors, hjoined]
    exact List.forall₂_nil_left_iff.1 hnone
  refine ⟨later, hlater', herrors, hstatements, ?_, ?_⟩
  · rw [read, read, hjoined, hnextId]
    rfl
  · rw [distances_read_clean hsecond, distances_read_clean herrors]
    exact hmatches.distances

/-- Reading sees nothing of a session but its free numbers and its distances. -/
theorem errors_congr (hnextId : between.nextId = session.nextId)
    (hdistances : between.machine.distances = session.machine.distances) (source : String) :
    between.errors source = session.errors source := by
  simp only [errors, reading, hnextId, hdistances]

end Session

/-! ## Runs -/

/-- A program that consists of two runs the second where the first has come to
its end. -/
theorem Machine.run_append (fuel : Nat) (echo : Bool) (ss ss' : List Stmt) :
    run fuel echo (ss ++ ss') = run fuel echo ss >>= fun _ => run fuel echo ss' := by
  induction ss with
  | nil => rfl
  | cons s ss ih =>
      rw [List.cons_append, run, run, bind_assoc]
      congr 1
      funext flow
      cases flow with
      | normal => exact ih
      | returned value => rfl
      | left line => rfl

/-- Only a run that comes to its end has this status. -/
theorem Outcome.exitStatus_eq_zero_iff {outcome : Outcome} :
    outcome.exitStatus = 0 ↔ outcome = .finished := by
  cases outcome <;> simp [exitStatus, rejectedStatus, failedStatus]

namespace Session

variable {session : Session} {source : String} {fuel : Nat} {echo : Bool} {ss ss' : List Stmt}
variable {after : Machine}

theorem rejects_eq_false_iff : session.rejects source = false ↔ session.errors source = [] := by
  rw [rejects, accept_eq]
  cases session.errors source <;> simp

theorem run_clean (h : session.errors source = []) (fuel : Nat) (echo : Bool) :
    session.run fuel echo source =
      (session.read source).perform fuel echo (session.reading source).statements := by
  rw [run, accept_eq, h]
  rfl

theorem perform_finished (h : (session.perform fuel echo ss).1 = .finished) :
    ∃ after, Machine.run fuel echo ss session.machine = .ok () after ∧
      (session.perform fuel echo ss).2 = { session with machine := after } := by
  unfold perform at h ⊢
  split at h
  · rename_i after hrun
    exact ⟨after, hrun, rfl⟩
  · cases h
  · cases h

/-- A source that is run to its end, or to an error, is run so with more fuel. -/
theorem run_more {more : Nat} (hmore : fuel ≤ more)
    (h : (session.run fuel echo source).1 ≠ .outOfFuel) :
    session.run more echo source = session.run fuel echo source := by
  unfold run at h ⊢
  split at h
  · rename_i statements accepted _
    rcases Machine.run_extends hmore echo statements accepted.machine with hsame | ⟨after, hout⟩
    · simp only [perform, hsame]
    · simp [perform, hout] at h
  · rfl

theorem perform_append (h : Machine.run fuel echo ss session.machine = .ok () after) :
    session.perform fuel echo (ss ++ ss') =
      ({ session with machine := after } : Session).perform fuel echo ss' := by
  rw [perform, perform, Machine.run_append, bind_of_ok h]

/-- A source runs as it does alone in a session that has read more, as long as its
occurrences have the same distances there. -/
theorem Sound.run_read {programs : List Program} {labels : List Region} {source' : String}
    (h : session.Sound programs labels)
    (hagree : ∀ id < (session.read source).nextId,
      (session.read source).machine.distances[id]? = (session.read source').machine.distances[id]?)
    (fuel : Nat) (echo : Bool) :
    Ends (Machine.Matches (.below (session.read source).nextId))
      (Halt.Matches (.below (session.read source).nextId)) Eq
      (Machine.run fuel echo (session.reading source).statements (session.read source).machine)
      (Machine.run fuel echo (session.reading source).statements
        (session.read source').machine) := by
  have hstore : session.machine.store.Matches (.below (session.read source).nextId)
      session.machine.store := by
    apply h.healthy.matches_self (fun _ => rfl)
    intro program hprogram id hid
    exact ⟨(h.numbered program hprogram id hid).trans_le (session.nextId_le_read source), rfl⟩
  have hdistances : Distances.Match (.below (session.read source).nextId)
      (session.read source).machine.distances (session.read source').machine.distances := by
    rintro id _ ⟨hid, rfl⟩
    exact hagree id hid
  have hprogram : List.Forall₂ (Stmt.Matches (.below (session.read source).nextId))
      (session.reading source).statements (session.reading source).statements :=
    Stmt.matchesAll_self (fun _ => rfl) _ fun id hid => ⟨(session.ids_reading source id hid).2, rfl⟩
  exact Machine.run_matches rfl fuel echo hprogram _ _
    ⟨hstore, rfl, rfl, hdistances, rfl, rfl, rfl⟩

/-- The first of two joined sources runs as it does alone, and the second goes on
from where it ends. -/
theorem Sound.run_joined {programs : List Program} {labels : List Region}
    (h : session.Sound programs labels) (fuel : Nat) (echo : Bool) {first second : String}
    (hfirst : session.errors first = []) (hsecond : session.errors second = [])
    (hfinished : (session.run fuel echo first).1 = .finished) :
    session.errors (first ++ "\n" ++ second) = [] ∧
      ((session.run fuel echo first).2.run fuel echo second).1.Matches (.seam first)
        (session.run fuel echo (first ++ "\n" ++ second)).1 ∧
      ((session.run fuel echo first).2.run fuel echo second).2.Matches (.seam first)
        (session.run fuel echo (first ++ "\n" ++ second)).2 := by
  rw [run_clean hfirst] at hfinished ⊢
  obtain ⟨after, hrun, hbetween⟩ := perform_finished hfinished
  rw [hbetween]
  let between : Session := { session.read first with machine := after }
  have hkeeps := (Machine.steady_run fuel echo _).ok hrun
  have hnext : between.nextId = (session.read first).nextId := rfl
  have herrors : between.errors second = [] := by
    have hunique := Correspondence.shift_unique (session.nextId_le_read first)
    calc between.errors second
      _ = (session.read first).errors second := errors_congr hnext hkeeps.distances second
      _ = session.errors second := ((h.matches_read first).errors rfl hunique second).symm
      _ = [] := hsecond
  obtain ⟨later, hlater, hjoined, hstatements, hnextId, hdistances⟩ :=
    reading_joined hfirst hnext hkeeps.distances herrors
  have hagree : ∀ id < (session.read first).nextId,
      (session.read first).machine.distances[id]? =
        (session.read (first ++ "\n" ++ second)).machine.distances[id]? := by
    intro id (hid : id < between.nextId)
    calc (session.read first).machine.distances[id]?
      _ = between.machine.distances[id]? := congrArg (·[id]?) hkeeps.distances.symm
      _ = (between.read second).machine.distances[id]? := (distances_read_old hid).symm
      _ = (session.read (first ++ "\n" ++ second)).machine.distances[id]? :=
        hdistances id id rfl
  have hsame := h.run_read hagree fuel echo
  rw [hrun] at hsame
  generalize hrun' : Machine.run fuel echo _ (session.read _).machine = result at hsame
  cases hsame with
  | @ok _ _ _ after' _ hafter =>
      have hkeeps' := (Machine.steady_run fuel echo _).ok hrun'
      have hsession : (between.read second).Matches (.seam first)
          { session.read (first ++ "\n" ++ second) with machine := after' } := by
        refine ⟨⟨hafter.store.weaken (Correspondence.below_within_seam _ first), hafter.globals,
          hafter.current, ?_, hafter.output, hafter.clock, hafter.readings⟩, fun count => ?_⟩
        · rintro id _ rfl
          rw [hdistances id id rfl, ← hkeeps'.distances]
        · exact congrArg (· + count) hnextId.symm
      have hprogram := Stmt.matchesAll_weaken (Correspondence.later_within_seam first) _ hlater
      rw [run_clean hjoined, hstatements, perform_append hrun', run_clean herrors]
      exact ⟨hjoined, hsession.perform (.inl rfl) fuel echo hprogram⟩

/-- Two sources, of which the first runs to its end, do the same one after the
other as joined: the joined source is accepted as well, the same is written, the
runs end in the same way, and matching values are left behind. -/
theorem runs_joined (clock : Nat → Float) (output : Output) (history : List Submission)
    (fuel more : Nat) (hmore : fuel ≤ more) (echo : Bool) (first second : String)
    (hfirst : ((initial clock output).after history).rejects first = false)
    (hsecond : ((initial clock output).after history).rejects second = false)
    (hfinished : (((initial clock output).after history).run fuel echo first).1 = .finished) :
    let session := (initial clock output).after history
    let apart := (session.run fuel echo first).2.run more echo second
    let joined := session.run more echo (first ++ "\n" ++ second)
    session.rejects (first ++ "\n" ++ second) = false ∧
      apart.1.Matches (.seam first) joined.1 ∧
      apart.2.machine.output = joined.2.machine.output ∧
      apart.2.machine.store.Matches (.seam first) joined.2.machine.store ∧
      ∀ name, Option.Rel (Value.Matches (.seam first)) (apart.2.global? name)
        (joined.2.global? name) := by
  intro session apart joined
  have hsound := ((sound_initial clock output).after history).session
  have hrun : session.run more echo first = session.run fuel echo first :=
    run_more hmore (by rw [hfinished]; nofun)
  rw [rejects_eq_false_iff] at hfirst hsecond
  obtain ⟨herrors, houtcome, hafter⟩ :=
    hsound.run_joined more echo hfirst hsecond (hrun ▸ hfinished)
  rw [hrun] at houtcome hafter
  refine ⟨rejects_eq_false_iff.2 herrors, houtcome, hafter.machine.output, hafter.machine.store,
    fun name => ?_⟩
  rw [global?, global?, hafter.machine.globals]
  exact hafter.machine.store.frames.get? _ name

/-- A function of the first source is called by the second, which then fails. -/
theorem runs_joined_of_closure :
    let session := (initial (fun _ => 0) {}).after [⟨"var s = \"a\";", 8, false⟩]
    let first := "fun f(t)\n{ s = s + t; return f; }"
    let second := "print f(\"b\");\nprint t;"
    let apart := (session.run 8 false first).2.run 16 false second
    let joined := session.run 16 false (first ++ "\n" ++ second)
    session.rejects first = false ∧ session.rejects second = false ∧
      (session.run 8 false first).1 = .finished ∧ joined.1.exitStatus = 70 ∧
      session.rejects (first ++ "\n" ++ second) = false ∧
      apart.1.Matches (.seam first) joined.1 ∧
      apart.2.machine.output = joined.2.machine.output ∧
      apart.2.machine.store.Matches (.seam first) joined.2.machine.store ∧
      Option.Rel (Value.Matches (.seam first)) (apart.2.global? "f") (joined.2.global? "f") := by
  intro session first second apart joined
  have hfirst : session.rejects first = false := by decide +kernel
  have hsecond : session.rejects second = false := by decide +kernel
  have hfinished : (session.run 8 false first).1 = .finished := by
    rw [← Outcome.exitStatus_eq_zero_iff]
    decide +kernel
  have hstatus : joined.1.exitStatus = 70 := by decide +kernel
  obtain ⟨haccepted, houtcome, houtput, hstore, hglobals⟩ := runs_joined (fun _ => 0) {}
    [⟨"var s = \"a\";", 8, false⟩] 8 16 (by decide) false first second hfirst hsecond hfinished
  exact ⟨hfirst, hsecond, hfinished, hstatus, haccepted, houtcome, houtput, hstore, hglobals "f"⟩

end Session

end Lox
