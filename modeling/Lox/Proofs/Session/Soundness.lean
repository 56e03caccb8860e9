import Lox.Proofs.Evaluation.Soundness.Statement
import Lox.Proofs.Session.Acceptance

/-!
# Soundness of sessions

Between two sources a session is in its global frame, healthy for all programs
that it has accepted, and numbers that are free have no distances.  Every
source keeps it so, whatever becomes of the source, and the moments of all runs
are sound.
-/

namespace Lox

open Machine

variable {programs programs' : List Program} {labels : List Region} {machine : Machine}

/-! ## More programs -/

section More

variable {frames : Frames}

theorem Closure.Sound.more {closure : Closure} (h : closure.Sound programs frames labels)
    (hprograms : programs ⊆ programs') : closure.Sound programs' frames labels := by
  obtain ⟨program, hprogram, hsite⟩ := h
  exact ⟨program, hprograms hprogram, hsite⟩

theorem ClassValue.Sound.more {cls : ClassValue} (h : cls.Sound programs frames labels)
    (hprograms : programs ⊆ programs') : cls.Sound programs' frames labels := by
  intro name method hmethod
  obtain ⟨program, hprogram, hsite⟩ := h name method hmethod
  exact ⟨program, hprograms hprogram, hsite⟩

theorem Value.Sound.more {value : Value} (h : value.Sound programs frames labels)
    (hprograms : programs ⊆ programs') : value.Sound programs' frames labels := by
  cases value with
  | function closure => exact Closure.Sound.more h hprograms
  | classValue cls | object cls id => exact ClassValue.Sound.more h hprograms
  | native native => exact h
  | nil | truth _ | number _ | text _ | list _ => trivial

theorem Moment.Sound.more {moment : Moment} (h : moment.Sound programs labels)
    (hprograms : programs ⊆ programs') : moment.Sound programs' labels := by
  obtain ⟨known, hknown, hsound⟩ := h
  exact ⟨known, List.Subset.trans hknown hprograms, hsound⟩

end More

/-! ## Whole programs -/

/-- A statement that is not part of another neither leaves a loop nor returns. -/
theorem executeTop_sound {s : Stmt} {site : Site} (fuel : Nat) (echo : Bool)
    (hhealthy : machine.Healthy programs labels)
    (hplaced : machine.Placed programs labels (.stmt s) site) :
    Ensures programs labels
      (Leaves programs site.around site.regions (site.analysis.scopesAfter s.declared?))
      (topMoments fuel echo s machine) (executeTop fuel echo s machine) := by
  have hexecute := (soundRuns programs fuel).execute hhealthy hplaced
  cases s with
  | expression value =>
      cases echo with
      | false => exact hexecute
      | true =>
          have hplaced' := hplaced.child List.mem_cons_self hplaced.within
          apply ((soundRuns programs fuel).evaluate hhealthy hplaced').bind_step
          intro labels' result after hlabels hresult hhealthy' _
          have hkeeps := ((steadyRuns fuel).evaluate value).ok hresult
          have hwithin := hplaced.within.keep hkeeps hlabels
          apply (Ensures.printLine hhealthy').bind_step
          intro labels'' _ after' hlabels' hresult' hhealthy'' _
          have hkeeps' := (@steady_printLine false result).ok hresult'
          exact .ok hhealthy'' (.normal (hwithin.keep hkeeps' hlabels'))
  | print _ | declare _ _ | block _ | branch _ _ _ | loop _ _ | leave _ | function _
  | giveBack _ _ | classDecl _ _ => exact hexecute

theorem run_sound {ss : List Stmt} {site : Site} (fuel : Nat) (echo : Bool)
    (hhealthy : machine.Healthy programs labels)
    (hplaced : machine.Placed programs labels (.stmts ss) site) (haround : site.around = {}) :
    Ensures programs labels (fun _ _ _ => True) (runMoments fuel echo ss machine)
      (run fuel echo ss machine) := by
  induction ss generalizing machine labels site with
  | nil => exact .ok hhealthy trivial
  | cons s ss ih =>
      have hformed := (hplaced.fits hhealthy).formed
      have hfirst := hplaced.child List.mem_cons_self hplaced.within
      apply (executeTop_sound fuel echo hhealthy hfirst).bind
      rintro labels' flow after - - hhealthy' ⟨hallowed, hwithin⟩
      rw [haround] at hallowed
      cases flow with
      | normal =>
          rw [← Site.scopes_after_stmt site hformed.1] at hwithin
          have hrest := hplaced.child (List.mem_cons_of_mem _ List.mem_cons_self)
            (hwithin : after.Within labels' site.regions (site.after _).scopes)
          exact ih hhealthy' hrest haround
      | returned value => cases hallowed.1
      | left line => cases hallowed

/-! ## Sessions -/

/-- What holds of a session between two sources. -/
structure Session.Sound (programs : List Program) (labels : List Region)
    (session : Session) : Prop where
  healthy : session.machine.Healthy programs labels
  atGlobals : session.machine.current = 0
  /-- The programs have no number that is still free. -/
  numbered : ∀ program ∈ programs, ∀ id ∈ program.ids, id < session.nextId
  fresh : session.Fresh

/-- What a part of the history of a session ensures. -/
structure Session.Ensures (programs : List Program) (labels : List Region)
    (moments : List Moment) (after : Session) : Prop where
  session : after.Sound programs (labels ++ Moment.labels moments)
  sound : ∀ moment ∈ moments, moment.Sound programs (labels ++ Moment.labels moments)
  numbered : Moment.Numbered (labels.length + 1) moments

namespace Session

variable {session : Session}

/-- The store of a new session holds nothing but built-in functions. -/
theorem sound_initial (clock : Nat → Float) (output : Output) :
    (initial clock output).Sound [] [] where
  healthy := by
    refine ⟨?_, rfl, rfl, by simp⟩
    let good := Value.Sound [] (initial clock output).machine.store.frames []
    have hroot : ({ frames := Frames.root, nextIdentity := 2 } : Store).All good := by
      refine ⟨fun frame name value h => ?_, by simp, by simp [Store.field?]⟩
      rcases frame with _ | frame <;> simp [Frames.get?, Frames.root] at h
    have hclock : good (.native { identity := 0, builtin := .clock }) := Or.inl rfl
    have hlist : good (.native { identity := 1, builtin := .newList }) := Or.inr (Or.inl rfl)
    exact (hroot.define 0 _ hclock).define 0 _ hlist
  atGlobals := rfl
  numbered := by simp
  fresh := by simp [Fresh, initial, Machine.initial]

theorem Sound.read (h : session.Sound programs labels) (source : String) :
    (session.read source).Sound programs labels where
  healthy := by
    refine ⟨h.healthy.values, h.healthy.globals, h.healthy.labelled, fun program hprogram => ?_⟩
    apply (h.healthy.accepted program hprogram).of_agree
    intro id hid
    exact distances_read_old (h.numbered program hprogram id hid)
  atGlobals := h.atGlobals
  numbered program hprogram id hid :=
    (h.numbered program hprogram id hid).trans_le (session.nextId_le_read source)
  fresh := h.fresh.read source

/-- A program that is accepted is added to those of the session. -/
theorem Sound.read_accepted {source : String} (h : session.Sound programs labels)
    (herrors : session.errors source = []) :
    (session.read source).Sound (programs ++ [session.reading source]) labels := by
  have hread := h.read source
  have hprograms : programs ⊆ programs ++ [session.reading source] :=
    List.subset_append_left _ _
  refine ⟨⟨?_, hread.healthy.globals, hread.healthy.labelled, ?_⟩, hread.atGlobals, ?_,
    hread.fresh⟩
  · exact hread.healthy.values.mono fun _ hvalue => hvalue.more hprograms
  · intro program hprogram
    rcases List.mem_append.1 hprogram with hprogram | hprogram
    · exact hread.healthy.accepted program hprogram
    · rw [List.mem_singleton.1 hprogram]
      exact h.fresh.accepted_reading herrors
  · intro program hprogram id hid
    rcases List.mem_append.1 hprogram with hprogram | hprogram
    · exact hread.numbered program hprogram id hid
    · rw [List.mem_singleton.1 hprogram] at hid
      exact (session.ids_reading source id hid).2

theorem perform_failed {fuel : Nat} {echo : Bool} {ss : List Stmt} {failure : Failure}
    (h : (session.perform fuel echo ss).1 = .failed failure) :
    ∃ after, Machine.run fuel echo ss session.machine = .error (.failed failure) after := by
  unfold perform at h
  split at h <;> simp_all

/-- Every source keeps a session sound, and no program that runs ends with an
internal error. -/
theorem Sound.submit (h : session.Sound programs labels) (submission : Submission) :
    Ensures (programs ++ (session.program? submission).toList) labels
        (session.sourceMoments submission) (session.submit submission).2 ∧
      ∀ line cause, (session.submit submission).1 = .failed (.error line cause) →
        cause.isInternal = false := by
  cases haccept : session.accept submission.source with
  | mk result accepted =>
      cases result with
      | error diagnostics =>
          obtain ⟨-, -, rfl⟩ := accept_error haccept
          rw [submit_error haccept]
          simp only [program?, sourceMoments, haccept]
          refine ⟨⟨?_, by simp, trivial⟩, by simp⟩
          simpa [Moment.labels] using h.read submission.source
      | ok statements =>
          obtain ⟨herrors, rfl, rfl⟩ := accept_ok haccept
          rw [submit_ok haccept]
          simp only [program?, sourceMoments, haccept]
          have hread := h.read_accepted herrors
          have hplaced : (session.read submission.source).machine.Placed
              (programs ++ [session.reading submission.source]) labels
              (.stmts (session.reading submission.source).statements)
              (session.reading submission.source).site := by
            refine ⟨⟨_, by simp, .start⟩, ?_, ?_⟩
            · rw [hread.atGlobals]
              exact .globals
            · simp [Exact, Program.site, Site.scopes]
          have hrun := run_sound submission.fuel submission.echo hread.healthy hplaced rfl
          have hkeeps := steady_run submission.fuel submission.echo
            (session.reading submission.source).statements
            (session.read submission.source).machine
          refine ⟨⟨?_, hrun.sound, hrun.numbered⟩, ?_⟩
          · rw [perform_snd]
            refine ⟨hrun.healthy, hkeeps.current.trans hread.atGlobals, hread.numbered, ?_⟩
            intro id hid
            rw [← hread.fresh id hid, ← hkeeps.distances]
          · intro line cause hfailed
            obtain ⟨after, hresult⟩ := perform_failed hfailed
            exact hrun.halt _ _ hresult

/-- Every history keeps a session sound. -/
theorem Sound.after (h : session.Sound programs labels) (history : List Submission) :
    Ensures (programs ++ session.programs history) labels (session.moments history)
      (session.after history) := by
  induction history generalizing session programs labels with
  | nil =>
      refine ⟨?_, by simp [moments], trivial⟩
      simpa [Session.programs, Session.after, moments, Moment.labels] using h
  | cons submission history ih =>
      obtain ⟨hfirst, -⟩ := h.submit submission
      have hrest := ih hfirst.session
      have hprograms : programs ++ session.programs (submission :: history) =
          programs ++ (session.program? submission).toList ++
            (session.submit submission).2.programs history := by
        simp [Session.programs]
      have hlabels : labels ++ Moment.labels (session.moments (submission :: history)) =
          labels ++ Moment.labels (session.sourceMoments submission) ++
            Moment.labels ((session.submit submission).2.moments history) := by
        simp [moments, Moment.labels]
      rw [hprograms]
      refine ⟨?_, ?_, ?_⟩
      · rw [hlabels]
        exact hrest.session
      · rw [hlabels]
        intro moment hmoment
        rcases List.mem_append.1 hmoment with hmoment | hmoment
        · exact ((hfirst.sound moment hmoment).more (List.subset_append_left _ _)).relabel
            (List.prefix_append _ _)
        · exact hrest.sound moment hmoment
      · rw [moments, Moment.numbered_append, Nat.add_right_comm, ← List.length_append]
        exact ⟨hfirst.numbered, hrest.numbered⟩

end Session

end Lox
