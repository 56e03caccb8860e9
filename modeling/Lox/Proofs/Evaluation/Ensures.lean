import Lox.Proofs.Evaluation.Grounds

/-!
# What a computation ensures

A computation that begins in a healthy machine ends in one, goes through sound
moments only, and stops early for no reason that is ruled out before a program
runs.  The labels of the frames that it makes are added to those of the frames
that were there.
-/

namespace Lox

/-- The errors that no program accepted by scope analysis ends with. -/
def RuntimeError.isInternal : RuntimeError → Bool
  | invalidUnaryOperator | invalidBinaryOperator | breakOutsideLoop | returnOutsideFunction
  | builtin (.notAList _) | builtin .missingArgument => true
  | _ => false

/-- Not an internal error. -/
def Halt.External : Halt → Prop
  | failed (.error _ cause) => cause.isInternal = false
  | _ => True

/-- The ways a statement may end, by what encloses it; what it gives back is
sound. -/
def Flow.Allowed (programs : List Program) (frames : Frames) (labels : List Region)
    (around : Surroundings) : Flow → Prop
  | normal => True
  | returned value => around.inFunction ∧ value.Sound programs frames labels
  | left _ => around.inLoop

variable {programs : List Program} {labels labels' : List Region} {machine : Machine}
variable {α β : Type}

theorem Machine.Placed.relabel {part : Part} {site : Site}
    (h : machine.Placed programs labels part site) (hlabels : labels <+: labels') :
    machine.Placed programs labels' part site :=
  have hkeeps : machine.store.frames.Keeps none machine.store.frames := .refl _
  ⟨h.reached, h.within.stands.mono hkeeps hlabels, h.within.exact⟩

/-- What was sound at a moment stays so when more frames are labelled. -/
theorem Task.Sound.relabel {task : Task} (h : task.Sound programs labels machine)
    (hlabels : labels <+: labels') : task.Sound programs labels' machine := by
  have hkeeps : machine.store.frames.Keeps none machine.store.frames := .refl _
  cases task with
  | expr _ | exprs _ | stmt _ | stmts _ | loop _ _ =>
      obtain ⟨site, hplaced⟩ := h
      exact ⟨site, hplaced.relabel hlabels⟩
  | call function line arguments =>
      exact ⟨h.1.mono hkeeps hlabels, fun v hv => (h.2 v hv).mono hkeeps hlabels⟩
  | bind method this => exact ⟨h.1.mono hkeeps hlabels, h.2.mono hkeeps hlabels⟩
  | invoke closure arguments =>
      exact ⟨h.1.mono hkeeps hlabels, h.2.1, fun v hv => (h.2.2 v hv).mono hkeeps hlabels⟩

theorem Moment.Sound.relabel {moment : Moment} (h : moment.Sound programs labels)
    (hlabels : labels <+: labels') : moment.Sound programs labels' := by
  obtain ⟨known, hknown, haccepted, hsound⟩ := h
  exact ⟨known, hknown, haccepted, hsound.relabel hlabels⟩

/-- The moments are sound and frames are made at them in the order of the
labels; the result leaves a healthy machine.  If there is a value, it satisfies
`post` together with the labels and the machine, and an early halt is not an
internal error. -/
structure Ensures (programs : List Program) (labels : List Region)
    (post : List Region → α → Machine → Prop) (moments : List Moment)
    (result : EStateM.Result Halt Machine α) : Prop where
  sound : ∀ moment ∈ moments, moment.Sound programs (labels ++ Moment.labels moments)
  numbered : Moment.Numbered (labels.length + 1) moments
  healthy : (finalState result).Healthy programs (labels ++ Moment.labels moments)
  value : ∀ value after, result = .ok value after →
    post (labels ++ Moment.labels moments) value after
  halt : ∀ halt after, result = .error halt after → halt.External

namespace Ensures

variable {post : List Region → α → Machine → Prop} {moments : List Moment}
variable {result : EStateM.Result Halt Machine α}

theorem ok {value : α} (hhealthy : machine.Healthy programs labels)
    (hpost : post labels value machine) :
    Ensures programs labels post [] (.ok value machine) where
  sound := by simp
  numbered := trivial
  healthy := by simpa [Moment.labels, finalState] using hhealthy
  value := by
    rintro _ _ ⟨⟩
    simpa [Moment.labels] using hpost
  halt := by rintro _ _ ⟨⟩

theorem error {halt : Halt} (hhealthy : machine.Healthy programs labels) (hhalt : halt.External) :
    Ensures programs labels post [] (.error halt machine) where
  sound := by simp
  numbered := trivial
  healthy := by simpa [Moment.labels, finalState] using hhealthy
  value := by rintro _ _ ⟨⟩
  halt := by
    rintro _ _ ⟨⟩
    exact hhalt

/-- A moment comes before others; if a frame is made at it, the label of that
frame is the next. -/
theorem cons {moment : Moment} (hsound : moment.task.Sound programs labels moment.machine)
    (hhealthy : moment.machine.Healthy programs labels)
    (h : Ensures programs (labels ++ moment.region?.toList) post moments result) :
    Ensures programs labels post (moment :: moments) result := by
  have hlabels : labels ++ Moment.labels (moment :: moments) =
      labels ++ moment.region?.toList ++ Moment.labels moments := by
    cases hregion : moment.region? <;> simp [Moment.labels, hregion]
  have hmoment : moment.Sound programs labels :=
    ⟨programs, List.Subset.refl _, hhealthy.accepted, hsound⟩
  refine ⟨?_, ⟨fun _ => hhealthy.labelled, ?_⟩, ?_, ?_, h.halt⟩
  · rw [List.forall_mem_cons]
    refine ⟨hmoment.relabel (List.prefix_append _ _), ?_⟩
    rw [hlabels]
    exact h.sound
  · have hnumbered := h.numbered
    rwa [List.length_append, Nat.add_right_comm] at hnumbered
  · rw [hlabels]
    exact h.healthy
  · rw [hlabels]
    exact h.value

theorem cons_plain {moment : Moment} (hregion : moment.region? = none)
    (hsound : moment.task.Sound programs labels moment.machine)
    (hhealthy : moment.machine.Healthy programs labels)
    (h : Ensures programs labels post moments result) :
    Ensures programs labels post (moment :: moments) result :=
  cons hsound hhealthy (by simpa [hregion] using h)

theorem cons_frame {moment : Moment} {region : Region} (hregion : moment.region? = some region)
    (hsound : moment.task.Sound programs labels moment.machine)
    (hhealthy : moment.machine.Healthy programs labels)
    (h : Ensures programs (labels ++ [region]) post moments result) :
    Ensures programs labels post (moment :: moments) result :=
  cons hsound hhealthy (by simpa [hregion] using h)

theorem mono {post' : List Region → α → Machine → Prop}
    (h : Ensures programs labels post moments result)
    (himp : ∀ labels' value after, labels <+: labels' → result = .ok value after →
      post labels' value after → post' labels' value after) :
    Ensures programs labels post' moments result :=
  ⟨h.sound, h.numbered, h.healthy, fun value after hresult =>
    himp _ value after (List.prefix_append _ _) hresult (h.value _ _ hresult), h.halt⟩

/-- A sequence ensures what its second part does after the first. -/
theorem bind {part : Exec α} {rest : α → Exec β} {next : α → Machine → List Moment}
    {post' : List Region → β → Machine → Prop}
    (hpart : Ensures programs labels post moments (part machine))
    (hrest : ∀ labels' value after, labels <+: labels' → part machine = .ok value after →
      after.Healthy programs labels' → post labels' value after →
      Ensures programs labels' post' (next value after) (rest value after)) :
    Ensures programs labels post' (moments ++ Machine.following (part machine) next)
      ((part >>= rest) machine) := by
  cases hresult : part machine with
  | error halt after =>
      rw [bind_of_error hresult]
      rw [hresult] at hpart
      refine ⟨?_, ?_, ?_, by rintro _ _ ⟨⟩, ?_⟩
      · simpa [Machine.following] using hpart.sound
      · simpa [Machine.following] using hpart.numbered
      · simpa [Machine.following, finalState] using hpart.healthy
      · rintro _ _ ⟨⟩
        exact hpart.halt _ _ rfl
  | ok value after =>
      have hsecond := hrest _ value after (List.prefix_append _ _) hresult
        (by simpa [hresult, finalState] using hpart.healthy) (hpart.value value after hresult)
      have hlabels : labels ++ Moment.labels (moments ++ next value after) =
          labels ++ Moment.labels moments ++ Moment.labels (next value after) := by
        simp [Moment.labels]
      rw [bind_of_ok hresult]
      simp only [Machine.following]
      refine ⟨?_, ?_, ?_, ?_, hsecond.halt⟩
      · rw [hlabels]
        intro moment hmoment
        rcases List.mem_append.1 hmoment with h | h
        · exact (hpart.sound moment h).relabel (List.prefix_append _ _)
        · exact hsecond.sound moment h
      · rw [Moment.numbered_append, Nat.add_right_comm, ← List.length_append]
        exact ⟨hpart.numbered, hsecond.numbered⟩
      · rw [hlabels]
        exact hsecond.healthy
      · rw [hlabels]
        exact hsecond.value

/-- A sequence whose first part has no moments. -/
theorem step_bind {part : Exec α} {rest : α → Exec β} {next : α → Machine → List Moment}
    {post' : List Region → β → Machine → Prop}
    (hpart : Ensures programs labels post [] (part machine))
    (hrest : ∀ labels' value after, labels <+: labels' → part machine = .ok value after →
      after.Healthy programs labels' → post labels' value after →
      Ensures programs labels' post' (next value after) (rest value after)) :
    Ensures programs labels post' (Machine.following (part machine) next)
      ((part >>= rest) machine) :=
  hpart.bind hrest

/-- A sequence whose second part has no moments. -/
theorem bind_step {part : Exec α} {rest : α → Exec β}
    {post' : List Region → β → Machine → Prop}
    (hpart : Ensures programs labels post moments (part machine))
    (hrest : ∀ labels' value after, labels <+: labels' → part machine = .ok value after →
      after.Healthy programs labels' → post labels' value after →
      Ensures programs labels' post' [] (rest value after)) :
    Ensures programs labels post' moments ((part >>= rest) machine) := by
  have hnone : moments ++ Machine.following (part machine) (fun _ _ => []) = moments := by
    cases part machine <;> simp [Machine.following]
  have h := hpart.bind hrest
  rwa [hnone] at h

/-- Running a part in another frame ensures what the part does. -/
theorem within {part : Exec α} {post' : List Region → α → Machine → Prop} {frame : FrameId}
    (h : Ensures programs labels post moments (part { machine with current := frame }))
    (himp : ∀ labels' value after, labels <+: labels' →
      part { machine with current := frame } = .ok value after → post labels' value after →
      post' labels' value { after with current := machine.current }) :
    Ensures programs labels post' moments (Machine.within frame part machine) := by
  unfold Machine.within
  dsimp only
  cases hresult : part { machine with current := frame } with
  | ok value after =>
      rw [hresult] at h
      have hhealthy := h.healthy
      refine ⟨h.sound, h.numbered, ⟨hhealthy.values, hhealthy.globals, hhealthy.labelled,
        hhealthy.accepted⟩, ?_, by rintro _ _ ⟨⟩⟩
      rintro _ _ ⟨⟩
      exact himp _ value after (List.prefix_append _ _) hresult (h.value value after rfl)
  | error halt after =>
      rw [hresult] at h
      have hhealthy := h.healthy
      refine ⟨h.sound, h.numbered, ⟨hhealthy.values, hhealthy.globals, hhealthy.labelled,
        hhealthy.accepted⟩, by rintro _ _ ⟨⟩, ?_⟩
      rintro _ _ ⟨⟩
      exact h.halt halt after rfl

end Ensures

end Lox
