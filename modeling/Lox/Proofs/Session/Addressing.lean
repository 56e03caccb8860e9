import Lox.Proofs.Session.Soundness

/-!
# Lexical addressing

At run time the distance of a name occurrence leads to the frame of the scope
in which the analysis found the declaration of the name.  Reading such an
occurrence always succeeds.  An assignment fails in one place only: in the
initializer of the variable itself, where the analysis forbids reading the
variable but not assigning it.
-/

namespace Lox

open Machine

/-- The frames from the given one outwards, without that of the globals. -/
inductive Frames.Path (frames : Frames) : FrameId → List FrameId → Prop where
  | globals : Path frames 0 []
  | inside {frame outer : FrameId} {path : List FrameId}
    (henclosing : frames.enclosing? frame = some outer) (houter : Path frames outer path) :
    Path frames frame (frame :: path)

/-- The number and the token of an expression that reads a name. -/
def Expr.read? : Expr → Option (Nat × Token)
  | .reference id name => some (id, name)
  | .receiver id keyword => some (id, keyword)
  | _ => none

namespace Moment

/-- Whether a name is read whose occurrence has the given distance. -/
def reads (distance : Nat) (moment : Moment) : Bool :=
  match moment.task with
  | .expr e => e.read?.any fun (id, _) => moment.machine.distances[id]? == some distance
  | _ => false

theorem reads_iff {distance : Nat} {moment : Moment} :
    moment.reads distance ↔ ∃ e id name, moment.task = .expr e ∧ e.read? = some (id, name) ∧
      moment.machine.distances[id]? = some distance := by
  rw [reads]
  cases moment.task with
  | expr e => cases hread : e.read? <;> simp [hread, Prod.ext_iff]
  | _ => simp

/-- Whether a name is assigned whose occurrence has a distance, and is `found` or
not after the new value has been evaluated with the given fuel. -/
def assigns (fuel : Nat) (found : Bool) (moment : Moment) : Bool :=
  match moment.task with
  | .expr (.assign id name value) =>
    match moment.machine.distances[id]?, evaluate fuel value moment.machine with
    | some distance, .ok result after =>
      (after.store.frames.assignAt after.current distance name.lexeme result).1 == found
    | _, _ => false
  | _ => false

theorem assigns_iff {fuel : Nat} {found : Bool} {moment : Moment} :
    moment.assigns fuel found ↔ ∃ id name value distance result after,
      moment.task = .expr (.assign id name value) ∧
        moment.machine.distances[id]? = some distance ∧
        evaluate fuel value moment.machine = .ok result after ∧
        (after.store.frames.assignAt after.current distance name.lexeme result).1 = found := by
  rw [assigns]
  constructor
  · intro h
    split at h
    · rename_i id name value htask
      split at h
      · rename_i distance result after hdistance hresult
        exact ⟨id, name, value, distance, result, after, htask, hdistance, hresult,
          eq_of_beq h⟩
      · cases h
    · cases h
  · rintro ⟨id, name, value, distance, result, after, htask, hdistance, hresult, hfound⟩
    simp [htask, hdistance, hresult, hfound]

end Moment

/-- Every frame that is made at one of the moments has the label of what it is
made for. -/
def Moment.Labelled (label : FrameId → Option Region) (moments : List Moment) : Prop :=
  ∀ made ∈ moments, ∀ region, made.region? = some region → label made.frame = some region

/-- The frames from the current one outwards are those of the scopes at the site,
and the name is found at the distance: in its scope by the analysis, and in the
frame of that scope by the machine. -/
structure Machine.Addresses (label : FrameId → Option Region) (machine : Machine) (site : Site)
    (name : String) (distance : Nat) : Prop where
  intro ::
  /-- One region for every open scope. -/
  regions : site.regions.length = site.scopes.length
  declared : Scope.distance? name site.scopes = some distance
  frames : ∃ path, machine.store.frames.Path machine.current path ∧
    path.map label = site.regions.map some ∧
      ∃ frame, machine.store.frames.ancestor? distance machine.current = some frame ∧
        path[distance]? = some frame ∧ machine.store.frames.Binds frame name

/-! ## Labels -/

namespace Moment

/-- Each label is that of a frame which is made at a moment. -/
theorem Numbered.made {next i : Nat} {moments : List Moment} {region : Region}
    (h : Numbered next moments) (hlabel : (labels moments)[i]? = some region) :
    ∃ made ∈ moments, made.region? = some region ∧ made.frame = next + i := by
  induction moments generalizing next i with
  | nil => simp [labels] at hlabel
  | cons moment moments ih =>
      obtain ⟨hframe, hrest⟩ := h
      cases hregion : moment.region? with
      | none =>
          rw [hregion] at hrest
          rw [labels, List.filterMap_cons_none hregion] at hlabel
          obtain ⟨made, hmade, hfound⟩ := ih hrest hlabel
          exact ⟨made, List.mem_cons_of_mem _ hmade, hfound⟩
      | some first =>
          rw [hregion] at hrest hframe
          rw [labels, List.filterMap_cons_some hregion] at hlabel
          cases i with
          | zero =>
              rw [List.getElem?_cons_zero] at hlabel
              exact ⟨moment, List.mem_cons_self, hregion.trans hlabel, hframe rfl⟩
          | succ i =>
              rw [List.getElem?_cons_succ] at hlabel
              obtain ⟨made, hmade, hfound, hnumber⟩ := ih hrest hlabel
              refine ⟨made, List.mem_cons_of_mem _ hmade, hfound, hnumber.trans ?_⟩
              rw [Nat.add_assoc, Nat.add_comm _ i]
              rfl

/-- Conversely, the order of the labels gives every frame its own. -/
theorem Numbered.label {next : Nat} {moments : List Moment} {made : Moment} {region : Region}
    (h : Numbered next moments) (hmade : made ∈ moments) (hregion : made.region? = some region) :
    ∃ i, made.frame = next + i ∧ (labels moments)[i]? = some region := by
  induction moments generalizing next with
  | nil => cases hmade
  | cons moment moments ih =>
      obtain ⟨hframe, hrest⟩ := h
      rcases List.mem_cons.1 hmade with rfl | hmade
      · refine ⟨0, hframe (by simp [hregion]), ?_⟩
        rw [labels, List.filterMap_cons_some hregion, List.getElem?_cons_zero]
      · obtain ⟨i, hnumber, hlabel⟩ := ih hrest hmade
        cases hfirst : moment.region? with
        | none =>
            rw [hfirst] at hnumber
            exact ⟨i, hnumber, by rwa [labels, List.filterMap_cons_none hfirst]⟩
        | some first =>
            rw [hfirst] at hnumber
            refine ⟨i + 1, ?_, ?_⟩
            · rw [hnumber, Nat.add_assoc, Nat.add_comm _ i]
              rfl
            · rwa [labels, List.filterMap_cons_some hfirst, List.getElem?_cons_succ]

/-- The labels in the order of the frames are such labels. -/
theorem Numbered.labelled {moments : List Moment} (h : Numbered 1 moments) :
    Labelled (labelOf (labels moments)) moments := by
  intro made hmade region hregion
  obtain ⟨i, hnumber, hlabel⟩ := h.label hmade hregion
  rw [hnumber, Nat.add_comm]
  exact hlabel

/-- There are no others. -/
theorem Numbered.label_eq {moments : List Moment} {label : FrameId → Option Region}
    {frame : FrameId} {region : Region} (h : Numbered 1 moments) (hlabel : Labelled label moments)
    (hregion : labelOf (labels moments) frame = some region) : label frame = some region := by
  cases frame with
  | zero => cases hregion
  | succ i =>
      obtain ⟨made, hmade, hfound, hnumber⟩ := h.made hregion
      rw [Nat.add_comm] at hnumber
      have hmadeLabel := hlabel made hmade region hfound
      rwa [hnumber] at hmadeLabel

end Moment

/-! ## Distances -/

namespace Stands

variable {frames : Frames} {labels : List Region} {frame : FrameId} {regions : List Region}
variable {scopes : List Scope}

theorem length_eq (h : Stands frames labels frame regions scopes) :
    regions.length = scopes.length := by
  induction h with
  | globals => rfl
  | inside _ _ _ _ ih => simp [ih]

theorem path {label : FrameId → Option Region}
    (h : Stands frames labels frame regions scopes)
    (hsame : ∀ frame region, labelOf labels frame = some region → label frame = some region) :
    ∃ path, frames.Path frame path ∧ path.map label = regions.map some := by
  induction h with
  | globals => exact ⟨[], .globals, rfl⟩
  | @inside frame outer region regions scope scopes henclosing hlabel _ _ ih =>
      obtain ⟨path, hpath, hmap⟩ := ih
      exact ⟨frame :: path, .inside henclosing hpath, by simp [hsame frame region hlabel, hmap]⟩

/-- A distance that the scopes give leads to the frame of the scope in which the
name was found. -/
theorem ancestor {name : String} {distance : Nat}
    (h : Stands frames labels frame regions scopes)
    (hdistance : Scope.distance? name scopes = some distance) :
    ∃ target scope, frames.ancestor? distance frame = some target ∧
      scopes[distance]? = some scope ∧ scope.contains name ∧
        (scope[name]? = some true → frames.Binds target name) := by
  induction h generalizing distance with
  | globals => simp [Scope.distance?] at hdistance
  | @inside frame outer region regions scope scopes henclosing _ hbinds _ ih =>
      rw [Scope.distance?] at hdistance
      by_cases hcontains : scope.contains name
      · rw [if_pos hcontains] at hdistance
        obtain rfl := Option.some.inj hdistance
        exact ⟨frame, scope, rfl, rfl, hcontains, hbinds name⟩
      · rw [if_neg hcontains] at hdistance
        obtain ⟨inner, hinner, rfl⟩ := Option.map_eq_some_iff.1 hdistance
        obtain ⟨target, found, hancestor, hscope, hfound⟩ := ih hinner
        refine ⟨target, found, ?_, hscope, hfound⟩
        rw [Frames.ancestor?, henclosing]
        exact hancestor

end Stands

theorem Frames.Path.ancestor {frames : Frames} {frame target : FrameId} {path : List FrameId}
    {distance : Nat} (h : frames.Path frame path) (hlt : distance < path.length)
    (hancestor : frames.ancestor? distance frame = some target) :
    path[distance]? = some target := by
  induction h generalizing distance with
  | globals => simp at hlt
  | @inside frame outer path henclosing _ ih =>
      cases distance with
      | zero => exact hancestor
      | succ distance =>
          rw [Frames.ancestor?, henclosing] at hancestor
          exact ih (by simpa using hlt) hancestor

theorem Analysis.isInitializing_iff {analysis : Analysis} {name : Token} :
    analysis.isInitializing name ↔
      ∃ scope outer, analysis.scopes = scope :: outer ∧ scope[name.lexeme]? = some false := by
  rw [isInitializing]
  cases analysis.scopes with
  | nil => simp
  | cons scope outer => simp

/-- A name that is declared in the scopes is marked as complete, unless its
initializer is being analysed. -/
theorem Site.Fits.declared {distances : Distances} {site : Site} {e : Expr} {name : Token}
    {distance : Nat} {scope : Scope} (h : site.Fits distances (.expr e))
    (hscope : site.scopes[distance]? = some scope) (hcontains : scope.contains name.lexeme)
    (hinitializing : site.analysis.isInitializing name = false) :
    scope[name.lexeme]? = some true := by
  have hnot : scope[name.lexeme]? ≠ some false := by
    intro hfalse
    cases hscopes : site.scopes with
    | nil => simp [hscopes] at hscope
    | cons first outer =>
        rw [hscopes] at hscope
        cases distance with
        | zero =>
            obtain rfl := Option.some.inj hscope
            rw [Site.scopes] at hscopes
            simp [Analysis.isInitializing, hscopes, hfalse] at hinitializing
        | succ distance =>
            have houter := h.marked.outer
            rw [hscopes] at houter
            exact houter scope (List.mem_of_getElem? hscope) _ hfalse
  rw [Std.TreeMap.contains_eq_isSome_getElem?, Option.isSome_iff_exists] at hcontains
  obtain ⟨mark, hmark⟩ := hcontains
  cases mark with
  | true => exact hmark
  | false => exact absurd hmark hnot

/-- A name that is read has the distance that its scopes give, and its declaration
is complete. -/
theorem Site.Fits.read {distances : Distances} {site : Site} {e : Expr} {id : Nat}
    {name : Token} (h : site.Fits distances (.expr e)) (hread : e.read? = some (id, name)) :
    distances[id]? = Scope.distance? name.lexeme site.scopes ∧
      site.analysis.isInitializing name = false := by
  cases e <;> simp only [Expr.read?, Option.some.injEq, Prod.mk.injEq, reduceCtorEq] at hread
  case reference id' name' =>
    obtain ⟨rfl, rfl⟩ := hread
    exact h.reference
  case receiver id' keyword =>
    obtain ⟨rfl, rfl⟩ := hread
    refine ⟨h.receiver, ?_⟩
    have hthis : keyword.lexeme = "this" := h.formed.1.1 h.formed.2
    have hinner := h.marked.inner
    rw [Site.scopes] at hinner
    rw [Analysis.isInitializing]
    cases hscopes : site.analysis.scopes with
    | nil => rfl
    | cons scope outer =>
        rw [hscopes] at hinner
        by_contra hinitializing
        have hfalse : scope[keyword.lexeme]? = some false := by
          simpa using hinitializing
        exact (hinner scope rfl _ hfalse).2 hthis

/-- A name that is found at a distance at run time is that of the frame there. -/
theorem Machine.lookup_binds {machine : Machine} {id distance : Nat} {name : Token}
    {frame : FrameId} (hdistance : machine.distances[id]? = some distance)
    (hancestor : machine.store.frames.ancestor? distance machine.current = some frame)
    (hbinds : machine.store.frames.Binds frame name.lexeme) :
    ∃ value, lookup id name machine = .ok value machine := by
  obtain ⟨value, hvalue⟩ := Option.isSome_iff_exists.1 hbinds
  refine ⟨value, ?_⟩
  have hfound : machine.value? id name.lexeme = some value := by
    simp only [value?, hdistance, Frames.getAt?, hancestor, Option.bind_some, hvalue]
  simp only [lookup, hfound]

namespace Session

/-- The numbers of the frames that are made in a session are consecutive. -/
theorem numbered_moments (clock : Nat → Float) (output : Output) (history : List Submission) :
    Moment.Numbered 1 ((initial clock output).moments history) :=
  ((sound_initial clock output).after history).numbered

/-- An expression is evaluated at a site to which the analysis of an accepted
program has come, within the scopes there. -/
theorem placed_moment {clock : Nat → Float} {output : Output} {history : List Submission}
    {moment : Moment} (hmoment : moment ∈ (initial clock output).moments history) {e : Expr}
    (htask : moment.task = .expr e) :
    ∃ program ∈ (initial clock output).programs history, ∃ site,
      Reached program (.expr e) site ∧ site.Fits moment.machine.distances (.expr e) ∧
        moment.machine.Within (Moment.labels ((initial clock output).moments history))
          site.regions site.scopes := by
  obtain ⟨known, hknown, haccepted, hsound⟩ :=
    ((sound_initial clock output).after history).sound moment hmoment
  rw [htask] at hsound
  obtain ⟨site, ⟨program, hprogram, hreached⟩, hwithin⟩ := hsound
  exact ⟨program, hknown hprogram, site, hreached, hreached.fits (haccepted program hprogram),
    hwithin⟩

/-- Reading a name whose occurrence has a distance is sound: at every moment of
every session at which it is read, the labels of the frames around are the
regions of the scopes that the analysis had open there, the distance leads to the
frame of the scope in which it found the name, and that frame has the name. -/
theorem read_addressed (clock : Nat → Float) (output : Output) (history : List Submission)
    {label : FrameId → Option Region}
    (hlabel : Moment.Labelled label ((initial clock output).moments history))
    {moment : Moment} (hmoment : moment ∈ (initial clock output).moments history)
    {e : Expr} {id distance : Nat} {name : Token} (htask : moment.task = .expr e)
    (hread : e.read? = some (id, name))
    (hdistance : moment.machine.distances[id]? = some distance) :
    (∃ program ∈ (initial clock output).programs history, ∃ site,
        Reached program (.expr e) site ∧
          moment.machine.Addresses label site name.lexeme distance) ∧
      ∃ value, lookup id name moment.machine = .ok value moment.machine := by
  obtain ⟨program, hprogram, site, hreached, hfits, hwithin⟩ := placed_moment hmoment htask
  obtain ⟨hfound, hcomplete⟩ := hfits.read hread
  rw [hdistance] at hfound
  obtain ⟨frame, scope, hancestor, hscope, hcontains, hbound⟩ :=
    hwithin.stands.ancestor hfound.symm
  have hbinds := hbound (hfits.declared hscope hcontains hcomplete)
  have hnumbered := numbered_moments clock output history
  obtain ⟨path, hpath, hmap⟩ := hwithin.stands.path fun frame region hregion =>
    hnumbered.label_eq hlabel hregion
  have hlength : path.length = site.regions.length := by
    simpa using congrArg List.length hmap
  have hlt : distance < path.length := by
    rw [hlength, hwithin.stands.length_eq]
    exact (List.getElem?_eq_some_iff.1 hscope).1
  refine ⟨⟨program, hprogram, site, hreached, hwithin.stands.length_eq, hfound.symm, path, hpath,
    hmap, frame, hancestor, hpath.ancestor hlt hancestor, hbinds⟩, ?_⟩
  exact lookup_binds hdistance hancestor hbinds

/-- A variable is read from a function inside the block that declares it. -/
theorem read_addressed_in_function :
    let history := [⟨"{ var a; fun f() { return a; } f(); }", 12, false⟩]
    let moments := (initial (fun _ => 0) {}).moments history
    ∃ moment ∈ moments, ∃ e id name,
      moment.task = .expr e ∧ e.read? = some (id, name) ∧
        moment.machine.distances[id]? = some 1 ∧
        (∃ program ∈ (initial (fun _ => 0) {}).programs history, ∃ site,
          Reached program (.expr e) site ∧
            moment.machine.Addresses (labelOf (Moment.labels moments)) site name.lexeme 1) ∧
        ∃ value, lookup id name moment.machine = .ok value moment.machine := by
  intro history moments
  have hany : moments.any (·.reads 1) := by decide +kernel
  obtain ⟨moment, hmoment, hreads⟩ := List.any_eq_true.1 hany
  obtain ⟨e, id, name, htask, hread, hdistance⟩ := Moment.reads_iff.1 hreads
  have hlabel := (numbered_moments (fun _ => 0) {} history).labelled
  obtain ⟨hsite, hvalue⟩ :=
    read_addressed (fun _ => 0) {} history hlabel hmoment htask hread hdistance
  exact ⟨moment, hmoment, e, id, name, htask, hread, hdistance, hsite, hvalue⟩

/-- An assignment to a name whose occurrence has a distance fails exactly in the
initializer of the variable itself.  Everywhere else the frame at the distance
has the name once the new value has been evaluated. -/
theorem assignment_addressed (clock : Nat → Float) (output : Output)
    (history : List Submission) {moment : Moment}
    (hmoment : moment ∈ (initial clock output).moments history) {id distance fuel : Nat}
    {name : Token} {value : Expr} {result : Value} {after : Machine}
    (htask : moment.task = .expr (.assign id name value))
    (hdistance : moment.machine.distances[id]? = some distance)
    (hresult : evaluate fuel value moment.machine = .ok result after) :
    ∃ program ∈ (initial clock output).programs history, ∃ site,
      Reached program (.expr (.assign id name value)) site ∧
        (after.store.frames.assignAt after.current distance name.lexeme result).1 =
          (!site.analysis.isInitializing name) ∧
        ((∃ last, assign id name result after =
            .error (.failed (.error name.line (.undefinedVariable name.lexeme))) last) ↔
          site.analysis.isInitializing name) := by
  obtain ⟨program, hprogram, site, hreached, hfits, hwithin⟩ := placed_moment hmoment htask
  have hkeeps := ((steadyRuns fuel).evaluate value).ok hresult
  obtain ⟨hstands, hexact⟩ := hwithin.keep hkeeps (List.prefix_refl _)
  have hfound := hfits.assign
  rw [hdistance] at hfound
  obtain ⟨frame, scope, hancestor, hscope, hcontains, hbound⟩ := hstands.ancestor hfound.symm
  have hassign : (after.store.frames.assignAt after.current distance name.lexeme result).1 =
      (after.store.frames.get? frame name.lexeme).isSome := by
    simp only [Frames.assignAt, hancestor, Frames.assign]
    split <;> simp_all
  have hbinds : (after.store.frames.get? frame name.lexeme).isSome =
      (!site.analysis.isInitializing name) := by
    cases hinitializing : site.analysis.isInitializing name with
    | false => exact hbound (hfits.declared hscope hcontains hinitializing)
    | true =>
        obtain ⟨inner, outer, hscopes, hfalse⟩ := Analysis.isInitializing_iff.1 hinitializing
        rw [Site.scopes, hscopes] at hfound hexact
        have hinner : inner.contains name.lexeme := by
          rw [Std.TreeMap.contains_eq_isSome_getElem?, hfalse]
          rfl
        rw [Scope.distance?, if_pos hinner] at hfound
        obtain rfl := Option.some.inj hfound
        obtain rfl := Option.some.inj hancestor
        rw [Bool.not_true, Bool.eq_false_iff]
        intro hbinds
        have hcomplete := hexact inner rfl name.lexeme hbinds
        rw [hfalse] at hcomplete
        cases hcomplete
  have hfinds := hassign.trans hbinds
  refine ⟨program, hprogram, site, hreached, hfinds, ?_⟩
  have hdistances : after.distances[id]? = some distance := by
    rw [hkeeps.distances, hdistance]
  have hassigned : (after.assigned id name.lexeme result).1 =
      (!site.analysis.isInitializing name) := by
    simp only [assigned, hdistances]
    exact hfinds
  rw [assign_eq]
  dsimp only
  rw [hassigned]
  cases site.analysis.isInitializing name <;> simp

/-- An assignment to a variable of a block finds it. -/
theorem assignment_addressed_in_block :
    let history := [⟨"{ var a; a = nil; }", 8, false⟩]
    ∃ moment ∈ (initial (fun _ => 0) {}).moments history, ∃ id name value distance result after,
      moment.task = .expr (.assign id name value) ∧
        moment.machine.distances[id]? = some distance ∧
        evaluate 2 value moment.machine = .ok result after ∧
        ∃ program ∈ (initial (fun _ => 0) {}).programs history, ∃ site,
          Reached program (.expr (.assign id name value)) site ∧
            (after.store.frames.assignAt after.current distance name.lexeme result).1 =
              (!site.analysis.isInitializing name) := by
  intro history
  have hany : ((initial (fun _ => 0) {}).moments history).any (·.assigns 2 true) := by
    decide +kernel
  obtain ⟨moment, hmoment, hassigns⟩ := List.any_eq_true.1 hany
  obtain ⟨id, name, value, distance, result, after, htask, hdistance, hresult, -⟩ :=
    Moment.assigns_iff.1 hassigns
  obtain ⟨program, hprogram, site, hreached, hfinds, -⟩ :=
    assignment_addressed (fun _ => 0) {} history hmoment htask hdistance hresult
  exact ⟨moment, hmoment, id, name, value, distance, result, after, htask, hdistance, hresult,
    program, hprogram, site, hreached, hfinds⟩

/-- In the initializer of its own variable an assignment does not find it, though
the occurrence has a distance and the program is accepted. -/
theorem assignment_in_own_initializer :
    let history := [⟨"{ var x = (x = nil); }", 8, false⟩]
    ∃ moment ∈ (initial (fun _ => 0) {}).moments history, ∃ id name value distance result after,
      moment.task = .expr (.assign id name value) ∧
        moment.machine.distances[id]? = some distance ∧
        evaluate 2 value moment.machine = .ok result after ∧
        (after.store.frames.assignAt after.current distance name.lexeme result).1 = false := by
  intro history
  have hany : ((initial (fun _ => 0) {}).moments history).any (·.assigns 2 false) := by
    decide +kernel
  obtain ⟨moment, hmoment, hassigns⟩ := List.any_eq_true.1 hany
  obtain ⟨id, name, value, distance, result, after, hassignment⟩ :=
    Moment.assigns_iff.1 hassigns
  exact ⟨moment, hmoment, id, name, value, distance, result, after, hassignment⟩

end Session

end Lox
