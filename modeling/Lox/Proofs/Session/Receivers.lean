import Lox.Proofs.Evaluation.Instances
import Lox.Proofs.Scope.Receivers
import Lox.Proofs.Session.Frames
import Lox.Proofs.Session.Nesting
import Lox.Proofs.Session.Safety

/-!
# Receivers and initializers

The frame in which a method has been bound keeps its receiver as long as the session
goes on.  It is the frame in which the receiver is found wherever it is evaluated inside
the method: in its blocks, in the functions inside it, and whenever these are called.
An initializer that is called gives the receiver of its frame.
-/

namespace Lox

open Machine

/-! ## Moments to look for -/

/-- A call that is evaluated goes through the moments of what is called and of the call
itself. -/
theorem Moment.mem_moments_call {fuel : Nat} {callee : Expr} {closing : Token}
    {arguments : List Expr} {machine found ready : Machine} {function : Value}
    {values : List Value} (hfunction : evaluate (fuel + 1) callee machine = .ok function found)
    (hvalues : evaluateAll (fuel + 1) arguments found = .ok values ready) :
    let moments := moments (fuel + 2) (.expr (.call callee closing arguments)) machine
    ⟨fuel + 1, .expr callee, machine⟩ ∈ moments ∧
      ⟨fuel + 1, .call function closing.line values, ready⟩ ∈ moments := by
  refine ⟨List.mem_cons_of_mem _ (List.mem_append_left _ List.mem_cons_self), ?_⟩
  refine List.mem_cons_of_mem _ (List.mem_append_right _ ?_)
  rw [hfunction, following, hvalues]
  exact List.mem_append_right _ List.mem_cons_self

namespace Moment

/-- Whether an instance is made by a call of a class. -/
def constructs (moment : Moment) : Bool :=
  match moment.task with
  | .call (.classValue cls) line arguments =>
    match call moment.fuel (.classValue cls) line arguments moment.machine with
    | .ok _ _ => true
    | .error _ _ => false
  | _ => false

theorem constructs_iff {moment : Moment} :
    moment.constructs ↔ ∃ cls line arguments value after,
      moment.task = .call (.classValue cls) line arguments ∧
        call moment.fuel (.classValue cls) line arguments moment.machine = .ok value after := by
  rw [constructs]
  constructor
  · intro h
    split at h
    · rename_i cls line arguments htask
      split at h
      · rename_i value after hresult
        exact ⟨cls, line, arguments, value, after, htask, hresult⟩
      · cases h
    · cases h
  · rintro ⟨cls, line, arguments, value, after, htask, hresult⟩
    simp [htask, hresult]

/-- Whether an initializer is taken from an instance and called at once, and the call
comes to its end; its frame satisfies the condition. -/
def callsInitializer (condition : FrameId → Bool) (moment : Moment) : Bool :=
  match moment with
  | ⟨fuel + 2, .expr (.call (.get object name) closing arguments), machine⟩ =>
    match evaluate fuel object machine with
    | .ok (.object cls id) found =>
      match found.store.field? id name.lexeme, property (.object cls id) name found with
      | none, .ok (.function closure) taken =>
        match evaluateAll (fuel + 1) arguments taken with
        | .ok values ready =>
          match call (fuel + 1) (.function closure) closing.line values ready with
          | .ok _ _ => name.lexeme == "init" && condition closure.frame
          | .error _ _ => false
        | .error _ _ => false
      | _, _ => false
    | _ => false
  | _ => false

theorem of_callsInitializer {condition : FrameId → Bool} {moment : Moment}
    (h : moment.callsInitializer condition) :
    ∃ taking ∈ moments moment.fuel moment.task moment.machine, ∃ cls id closure,
      taking.Takes "init" cls id closure ∧ condition closure.frame ∧
        ∃ calling ∈ moments moment.fuel moment.task moment.machine,
          ∃ line arguments value after,
            calling.task = .call (.function closure) line arguments ∧
              call calling.fuel (.function closure) line arguments calling.machine =
                .ok value after := by
  unfold callsInitializer at h
  split at h
  case h_2 => cases h
  rename_i fuel object name closing arguments machine
  split at h
  case h_2 => cases h
  rename_i cls id found hobject
  split at h
  case h_2 => cases h
  rename_i closure taken hfield hproperty
  split at h
  case h_2 => cases h
  rename_i values ready hvalues
  split at h
  case h_2 => cases h
  rename_i value after hresult
  obtain ⟨hname, hcondition⟩ := (Bool.and_eq_true _ _).mp h
  have htakes := Takes.get hobject hfield hproperty
  rw [eq_of_beq hname] at htakes
  have hfunction : evaluate (fuel + 1) (.get object name) machine =
      .ok (.function closure) taken := by
    rw [evaluate, bind_of_ok hobject, hproperty]
  obtain ⟨htaking, hcalling⟩ := mem_moments_call hfunction hvalues
  exact ⟨_, htaking, cls, id, closure, htakes, hcondition, _, hcalling, _, values, value, after,
    rfl, hresult⟩

/-- Whether the receiver is evaluated so many steps inside the frame. -/
def receives (moments : List Moment) (target : FrameId) (steps : Nat) (moment : Moment) : Bool :=
  match moment.task with
  | .expr (.receiver _ _) => nests moments target steps moment.machine.current
  | _ => false

theorem of_receives {moments : List Moment} {target : FrameId} {steps : Nat} {moment : Moment}
    (h : moment.receives moments target steps) :
    ∃ id keyword, moment.task = .expr (.receiver id keyword) ∧
      Nested moments target moment.machine.current := by
  unfold receives at h
  split at h
  · rename_i id keyword htask
    exact ⟨id, keyword, htask, nested_of_nests h⟩
  · cases h

end Moment

/-! ## Sessions -/

namespace Session

variable {session : Session}

theorem made_initial (clock : Nat → Float) (output : Output) :
    (initial clock output).machine.Made := by
  have hempty : ({ frames := Frames.root, nextIdentity := 2 } : Store).All (Value.Made 0) := by
    refine ⟨fun frame name value h => ?_, fun list elements h => ?_, fun id name value h => ?_⟩
    · cases frame <;> simp [Frames.get?, Frames.root] at h
    · simp at h
    · simp [Store.field?] at h
  have hclock : (Value.native { identity := 0, builtin := .clock }).Made 0 := trivial
  have hlist : (Value.native { identity := 1, builtin := .newList }).Made 0 := trivial
  exact (hempty.define 0 _ hclock).define 0 _ hlist

/-- What endures while a source is run, or rejected. -/
theorem submit_enduring (h : session.machine.Made) (submission : Submission) :
    Endures True session.machine.store (fun _ _ => True) (session.sourceMoments submission)
      (.ok () (session.submit submission).2.machine) := by
  obtain ⟨distances, hmachine⟩ := session.machine_accept submission.source
  cases haccept : session.accept submission.source with
  | mk result accepted =>
      rw [haccept] at hmachine
      have hstore : accepted.machine.store = session.machine.store := by
        rw [show accepted.machine = _ from hmachine]
      have haccepted : accepted.machine.Made := by
        rw [Machine.Made, hstore]
        exact h
      rw [← hstore]
      cases result with
      | error diagnostics =>
          rw [submit_error haccept]
          simp only [sourceMoments, haccept]
          exact .value_now haccepted trivial
      | ok statements =>
          rw [submit_ok haccept, perform_snd]
          simp only [sourceMoments, haccept]
          exact (run_enduring submission.fuel submission.echo statements haccepted).ended

theorem after_enduring (h : session.machine.Made) (history : List Submission) :
    Endures True session.machine.store (fun _ _ => True) (session.moments history)
      (.ok () (session.after history).machine) := by
  induction history generalizing session with
  | nil => exact .value_now h trivial
  | cons submission history ih =>
      have hfirst := submit_enduring h submission
      exact hfirst.append (ih hfirst.machine)

/-- No program gives the receiver a value as it does to variables. -/
theorem plain_moment {clock : Nat → Float} {output : Output} {history : List Submission}
    {moment : Moment} (hmoment : moment ∈ (initial clock output).moments history) :
    moment.Plain := by
  obtain ⟨known, -, haccepted, hsound⟩ :=
    ((sound_initial clock output).after history).sound moment hmoment
  have hformed {labels : List Region} {part : Part} {site : Site}
      (hplaced : moment.machine.Placed known labels part site) : part.Formed Token.Spelled := by
    obtain ⟨program, hprogram, hreached⟩ := hplaced.reached
    exact (hreached.fits (haccepted program hprogram)).formed
  intro hwritten
  unfold Task.written? at hwritten
  split at hwritten <;> rename_i htask
  · rw [htask] at hsound
    obtain ⟨site, hplaced⟩ := hsound
    obtain ⟨hname, -⟩ := hformed hplaced
    exact hname.1.ne_this hname.2 (Option.some.inj hwritten)
  · rw [htask] at hsound
    obtain ⟨site, hplaced⟩ := hsound
    obtain ⟨name, hname, hthis⟩ := Option.map_eq_some_iff.1 hwritten
    exact Stmt.declared_ne_this (hformed hplaced) name hname hthis
  · cases hwritten

section Moments

variable {clock : Nat → Float} {output : Output} {history : List Submission}

/-- What endures in a session from its beginning. -/
theorem moments_enduring (clock : Nat → Float) (output : Output) (history : List Submission) :
    Endures True (initial clock output).machine.store (fun _ _ => True)
      ((initial clock output).moments history)
      (.ok () ((initial clock output).after history).machine) :=
  after_enduring (made_initial clock output) history

/-- What was there at any moment is there in the end. -/
theorem lasts_moments : ∀ moment ∈ (initial clock output).moments history,
    moment.Lasts ((initial clock output).after history).machine.store.frames :=
  ((moments_enduring clock output history).retains trivial fun _ => plain_moment).2

/-- At every moment after the one at which a method is bound, its frame has the receiver
that it has been bound to. -/
theorem receiver_kept {bound moment : Moment} {method : Closure} {this : Value}
    (hbound : bound ∈ (initial clock output).moments history)
    (hbind : bound.task = .bind method this)
    (hmoment : moment ∈ (initial clock output).moments history)
    (hlater : bound.frame < moment.machine.store.frames.size) :
    moment.machine.store.frames.get? bound.frame "this" = some this := by
  have hthis := (lasts_moments bound hbound).opens
  rw [Moment.Opens, hbind] at hthis
  rw [← (lasts_moments moment hmoment).retains.receiver bound.frame hlater]
  exact hthis

/-- A call leaves the receivers of all frames that were there as they were. -/
theorem call_retains {moment : Moment} (hmoment : moment ∈ (initial clock output).moments history)
    {function value : Value} {line : Nat} {arguments : List Value} {after : Machine}
    (htask : moment.task = .call function line arguments)
    (hresult : call moment.fuel function line arguments moment.machine = .ok value after) :
    moment.machine.store.frames.Retains after.store.frames ∧
      value.Made after.store.fields.size := by
  have hendures := moments_enduring clock output history
  have hmade := hendures.made moment hmoment
  have htaskMade := hmade.task
  rw [htask] at htaskMade
  have hruns : Endures True moment.machine.store Value.Made
      (Lox.moments moment.fuel (.call function line arguments) moment.machine)
      (call moment.fuel function line arguments moment.machine) :=
    (enduringRuns moment.fuel).call hmade.machine htaskMade.1 htaskMade.2
  rw [hresult, ← htask] at hruns
  refine ⟨(hruns.retains trivial fun other hother => ?_).1, hruns.value value after rfl⟩
  exact plain_moment (hendures.inside moment hmoment hother)

/-- The method that is taken is bound at a moment of the session. -/
theorem bound_of_takes {taking : Moment} {name : String} {cls : ClassValue} {id : InstanceId}
    {closure : Closure} (htaking : taking ∈ (initial clock output).moments history)
    (htakes : taking.Takes name cls id closure) :
    ∃ bound ∈ (initial clock output).moments history, ∃ method,
      bound.task = .bind method (.object cls id) ∧ bound.frame = closure.frame := by
  obtain ⟨bound, hbound, method, hbind, hframe, -⟩ := htakes.bound
  exact ⟨bound, (moments_enduring clock output history).inside taking htaking hbound, method,
    hbind, hframe⟩

/-- An initializer that is taken from an instance gives the instance whenever it is
called. -/
theorem initializer_gives {taking : Moment} {cls : ClassValue} {id : InstanceId}
    {closure : Closure} (htaking : taking ∈ (initial clock output).moments history)
    (htakes : taking.Takes FunctionDecl.initializerName cls id closure) {moment : Moment}
    (hmoment : moment ∈ (initial clock output).moments history) {line : Nat}
    {arguments : List Value} {value : Value} {after : Machine}
    (htask : moment.task = .call (.function closure) line arguments)
    (hresult : call moment.fuel (.function closure) line arguments moment.machine =
      .ok value after) : value = .object cls id := by
  have hmade := (moments_enduring clock output history).made taking htaking
  have hinitializer := htakes.initializer hmade rfl
  obtain ⟨bound, hbound, method, hbind, hframe⟩ := bound_of_takes htaking htakes
  have hrooted := ((rooted_initial clock output).after history).1 moment hmoment
  have hlater : closure.frame < moment.machine.store.frames.size := by
    have hcall := hrooted.task
    rw [htask] at hcall
    exact hcall.1
  -- The initializer reads its receiver when its body has ended, not when it is called.
  have hthis := receiver_kept hbound hbind hmoment (hframe ▸ hlater)
  have hafter := (call_retains hmoment htask hresult).1.receiver closure.frame hlater
  rw [← hframe, hthis] at hafter
  obtain ⟨fuel, task, machine⟩ := moment
  cases fuel with
  | zero => cases hresult
  | succ fuel =>
      rw [call] at hresult
      obtain ⟨_, checked, hchecked, hinvoke⟩ := exists_of_bind_ok hresult
      rw [invoke_initializer hinitializer hinvoke, ← hframe, hafter]
      rfl

/-- A receiver that is evaluated has the distance of the innermost class body around. -/
theorem placed_receiver {moment : Moment} {id : Nat} {keyword : Token}
    (hmoment : moment ∈ (initial clock output).moments history)
    (htask : moment.task = .expr (.receiver id keyword)) :
    keyword.lexeme = "this" ∧ ∃ distance regions scopes,
      moment.machine.distances[id]? = some distance ∧
        regions.findIdx? Region.isClassBody = some distance ∧
        Stands moment.machine.store.frames
          (Moment.labels ((initial clock output).moments history)) moment.machine.current
          regions scopes := by
  obtain ⟨known, -, haccepted, hsound⟩ :=
    ((sound_initial clock output).after history).sound moment hmoment
  rw [htask] at hsound
  obtain ⟨site, ⟨program, hprogram, hreached⟩, hwithin⟩ := hsound
  have hfits := hreached.fits (haccepted program hprogram)
  obtain ⟨distance, hfound, hregions⟩ :=
    (hreached.receives (haccepted program hprogram)).distance hfits
  exact ⟨hfits.formed.1.1 hfits.formed.2, distance, site.regions, site.scopes, hfound, hregions,
    hwithin.stands⟩

/-- Wherever a receiver is evaluated, one comes to a frame in which a method has been
bound. -/
theorem bound_around {moment : Moment} {id : Nat} {keyword : Token}
    (hmoment : moment ∈ (initial clock output).moments history)
    (htask : moment.task = .expr (.receiver id keyword)) :
    ∃ bound ∈ (initial clock output).moments history, ∃ method this,
      bound.task = .bind method this ∧
        Moment.Nested ((initial clock output).moments history) bound.frame
          moment.machine.current := by
  obtain ⟨-, distance, regions, scopes, -, hregions, hstands⟩ := placed_receiver hmoment htask
  exact hstands.exists_bound (numbered_moments clock output history)
    (lasts_moments moment hmoment).retains lasts_moments hregions

/-- Where one comes to the frame in which a method has been bound, the receiver is the
one that it has been bound to. -/
theorem evaluate_receiver {moment : Moment} {id : Nat} {keyword : Token}
    (hmoment : moment ∈ (initial clock output).moments history)
    (htask : moment.task = .expr (.receiver id keyword)) {bound : Moment} {method : Closure}
    {this : Value} (hbound : bound ∈ (initial clock output).moments history)
    (hbind : bound.task = .bind method this)
    (hnested : Moment.Nested ((initial clock output).moments history) bound.frame
      moment.machine.current) (fuel : Nat) :
    evaluate (fuel + 1) (.receiver id keyword) moment.machine = .ok this moment.machine := by
  obtain ⟨hthis, distance, regions, scopes, hdistance, hregions, hstands⟩ :=
    placed_receiver hmoment htask
  have hancestor := hstands.ancestor_nested (numbered_moments clock output history)
    (lasts_moments moment hmoment).retains lasts_moments hregions hbound hbind hnested
  have hrooted := (((rooted_initial clock output).after history).1 moment hmoment).machine
  have hlater := hrooted.frames.ancestor?_lt distance hrooted.current hancestor
  have hvalue : moment.machine.value? id keyword.lexeme = some this := by
    rw [value?, hdistance, hthis]
    simp only [Frames.getAt?, hancestor, Option.bind_some]
    exact receiver_kept hbound hbind hmoment hlater
  rw [evaluate, lookup, hvalue]

/-- A call of a class that succeeds gives an instance of the class that the call has
made, to which nothing that was there before is equal.  A method that is taken from an
instance is bound to it for good: as an initializer it gives the instance whenever it is
called and comes to its end, and wherever one comes to its frame along blocks and calls,
the receiver is the instance.  Every receiver that is evaluated in a session is that of
such a frame. -/
theorem receivers_kept (clock : Nat → Float) (output : Output) (history : List Submission) :
    let moments := (initial clock output).moments history
    (∀ moment ∈ moments, ∀ cls line arguments value after,
        moment.task = .call (.classValue cls) line arguments →
        call moment.fuel (.classValue cls) line arguments moment.machine = .ok value after →
          let count := moment.machine.store.fields.size
          value = .object cls count ∧ count < after.store.fields.size ∧
            ∀ earlier, Moment.Occurs moments count earlier →
              value.equals earlier = false ∧ earlier.equals value = false) ∧
      (∀ taking ∈ moments, ∀ name cls id closure, taking.Takes name cls id closure →
          (name = "init" → ∀ moment ∈ moments, ∀ line arguments value after,
            moment.task = .call (.function closure) line arguments →
            call moment.fuel (.function closure) line arguments moment.machine =
              .ok value after → value = .object cls id) ∧
          ∀ moment ∈ moments, ∀ occurrence keyword,
            moment.task = .expr (.receiver occurrence keyword) →
            Moment.Nested moments closure.frame moment.machine.current →
              ∀ fuel, evaluate (fuel + 1) (.receiver occurrence keyword) moment.machine =
                .ok (.object cls id) moment.machine) ∧
      ∀ moment ∈ moments, ∀ occurrence keyword,
        moment.task = .expr (.receiver occurrence keyword) →
        ∃ bound ∈ moments, ∃ method this, bound.task = .bind method this ∧
          Moment.Nested moments bound.frame moment.machine.current ∧
            ∀ fuel, evaluate (fuel + 1) (.receiver occurrence keyword) moment.machine =
              .ok this moment.machine := by
  refine ⟨?_, ?_, ?_⟩
  · intro moment hmoment cls line arguments value after htask hresult count
    obtain rfl := call_class hresult
    have hmade := (call_retains hmoment htask hresult).2
    refine ⟨rfl, hmade.1, fun earlier hearlier => ?_⟩
    exact (hearlier.made (moments_enduring clock output history).made).ne_object cls
  · intro taking htaking name cls id closure htakes
    refine ⟨?_, ?_⟩
    · rintro rfl moment hmoment line arguments value after htask hresult
      exact initializer_gives htaking htakes hmoment htask hresult
    · intro moment hmoment occurrence keyword htask hnested
      obtain ⟨bound, hbound, method, hbind, hframe⟩ := bound_of_takes htaking htakes
      exact evaluate_receiver hmoment htask hbound hbind (hframe ▸ hnested)
  · intro moment hmoment occurrence keyword htask
    obtain ⟨bound, hbound, method, this, hbind, hnested⟩ := bound_around hmoment htask
    exact ⟨bound, hbound, method, this, hbind, hnested,
      evaluate_receiver hmoment htask hbound hbind hnested⟩

end Moments

/-- An instance is made, its initializer is taken from it and called, and a function
inside the initializer evaluates the receiver. -/
theorem receivers_kept_of_initializer :
    let history := [⟨"class A { init() { fun f() { return this; } f(); return; } } A().init();",
      30, false⟩]
    let moments := (initial (fun _ => 0) {}).moments history
    (∃ moment ∈ moments, ∃ cls line arguments value after,
        moment.task = .call (.classValue cls) line arguments ∧
          call moment.fuel (.classValue cls) line arguments moment.machine = .ok value after ∧
          value = .object cls moment.machine.store.fields.size) ∧
      ∃ taking ∈ moments, ∃ cls id closure, taking.Takes "init" cls id closure ∧
        (∃ moment ∈ moments, ∃ line arguments value after,
          moment.task = .call (.function closure) line arguments ∧
            call moment.fuel (.function closure) line arguments moment.machine =
              .ok value after ∧ value = .object cls id) ∧
        ∃ moment ∈ moments, ∃ occurrence keyword,
          moment.task = .expr (.receiver occurrence keyword) ∧
            Moment.Nested moments closure.frame moment.machine.current ∧
              evaluate 1 (.receiver occurrence keyword) moment.machine =
                .ok (.object cls id) moment.machine := by
  intro history moments
  obtain ⟨hnew, htaken, -⟩ := receivers_kept (fun _ => 0) {} history
  refine ⟨?_, ?_⟩
  · have hany : moments.any (·.constructs) := by decide +kernel
    obtain ⟨moment, hmoment, hconstructs⟩ := List.any_eq_true.1 hany
    obtain ⟨cls, line, arguments, value, after, htask, hresult⟩ :=
      Moment.constructs_iff.1 hconstructs
    obtain ⟨hvalue, -⟩ := hnew moment hmoment cls line arguments value after htask hresult
    exact ⟨moment, hmoment, cls, line, arguments, value, after, htask, hresult, hvalue⟩
  · have hany : moments.any (·.callsInitializer fun frame =>
        moments.any (·.receives moments frame 2)) := by decide +kernel
    obtain ⟨moment, hmoment, hcalls⟩ := List.any_eq_true.1 hany
    obtain ⟨taking, htaking, cls, id, closure, htakes, hreceives, calling, hcalling, line,
      arguments, value, after, htask, hresult⟩ := Moment.of_callsInitializer hcalls
    have hinside := (moments_enduring (fun _ => 0) {} history).inside moment hmoment
    obtain ⟨hcall, hreceiver⟩ := htaken taking (hinside htaking) "init" cls id closure htakes
    have hgives := hcall rfl calling (hinside hcalling) line arguments value after htask hresult
    obtain ⟨evaluating, hevaluating, hreceives⟩ := List.any_eq_true.1 hreceives
    obtain ⟨occurrence, keyword, hthis, hnested⟩ := Moment.of_receives hreceives
    have hevaluates := hreceiver evaluating hevaluating occurrence keyword hthis hnested 0
    exact ⟨taking, hinside htaking, cls, id, closure, htakes,
      ⟨calling, hinside hcalling, line, arguments, value, after, htask, hresult, hgives⟩,
      evaluating, hevaluating, occurrence, keyword, hthis, hnested, hevaluates⟩

end Session

end Lox
