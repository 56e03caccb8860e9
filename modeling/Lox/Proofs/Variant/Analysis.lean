import Lox.Proofs.Scope.Reports
import Lox.Proofs.Variant.Occurrences
import Lox.Proofs.Variant.Places

/-!
# Analysis of variants

A variant of an accepted program is accepted.  The distances recorded for it are
those that the nests give, so the two programs vary from each other also when
they run; without further braces the distances are those of the program.
-/

namespace Lox

namespace Analysis

/-- A program has no scope errors if nothing is wrong at any of its places. -/
theorem ofProgram_clean_iff (distances : Distances) (statements : List Stmt) :
    (ofProgram distances statements).2 = [] ↔
      ∀ place ∈ Stmt.placesAll [] [] statements, place.error? = none := by
  have hstart : Between ⟨[], distances, #[]⟩ [] := ⟨.nil, by simp [Scope.Complete]⟩
  have hreports := Stmt.reports_analyzeAll statements [] _ hstart
  rw [Surroundings.of_nil] at hreports
  have hdiagnostics : (ofProgram distances statements).2 =
      (Stmt.placesAll [] [] statements).filterMap Place.report? := hreports
  rw [hdiagnostics, List.filterMap_eq_nil_iff]
  simp only [Place.report?, Option.map_eq_none_iff]

theorem ofProgram_distances (distances : Distances) (statements : List Stmt) :
    (ofProgram distances statements).1 =
      Occurrence.recordAll distances (Stmt.occurrencesAll false [] statements) :=
  Stmt.distances_analyzeAll statements {} ⟨[], distances, #[]⟩ .nil

/-- Of distinct occurrences, unknown before, the distances are recorded. -/
theorem recorded_ofProgram {distances : Distances} {statements : List Stmt}
    (hdistinct : (Stmt.idsAll statements).Nodup)
    (hfresh : ∀ id ∈ Stmt.idsAll statements, distances[id]? = none) :
    Recorded (ofProgram distances statements).1 (Stmt.occurrencesAll false [] statements) := by
  rw [← Stmt.idsAll_occurrences false []] at hdistinct hfresh
  intro occurrence hmem
  rw [ofProgram_distances]
  exact Occurrence.recordAll_mem hdistinct hfresh hmem

end Analysis

section Ids

variable {fits : Nest → Prop} {occurrences occurrences' : List Occurrence}

theorem Occurrence.ids_vary (h : List.Forall₂ (Varies fits) occurrences occurrences') :
    occurrences'.map Occurrence.id = occurrences.map Occurrence.id := by
  induction h with
  | nil => rfl
  | cons hfirst _ ih => rw [List.map_cons, List.map_cons, hfirst.1, ih]

/-- Where every nest keeps all distances, so does recording them. -/
theorem Occurrence.recordAll_vary
    (h : List.Forall₂ (Varies fun nest => ∀ distance, nest.distance distance = distance)
      occurrences occurrences')
    (distances : Distances) :
    recordAll distances occurrences' = recordAll distances occurrences := by
  induction h generalizing distances with
  | nil => rfl
  | @cons occurrence occurrence' _ _ hfirst _ ih =>
      obtain ⟨hid, nest, hnest, hdistance⟩ := hfirst
      rw [funext hnest, Option.map_id'] at hdistance
      have hrecord : record distances occurrence' = record distances occurrence := by
        rw [record, record, hid, hdistance]
      simp only [recordAll, List.foldl_cons, hrecord] at ih ⊢
      exact ih _

end Ids

namespace Variant

variable {r : Variant} {known : Distances} {statements statements' : List Stmt}

/-- A program without scope errors and a variant of it, as they are written. -/
structure Written (r : Variant) (known : Distances) (statements statements' : List Stmt) :
    Prop where
  formed : Stmt.FormedAll r.Used statements
  distinct : (Stmt.idsAll statements).Nodup
  fresh : ∀ id ∈ Stmt.idsAll statements, known[id]? = none
  clean : (Analysis.ofProgram known statements).2 = []
  distances : r.distances = (Analysis.ofProgram known statements).1
  vary : Stmt.VaryAll r.written .plain statements statements'

namespace Written

theorem recorded (h : r.Written known statements statements') :
    Recorded r.distances (Stmt.occurrencesAll false [] statements) :=
  h.distances ▸ Analysis.recorded_ofProgram h.distinct h.fresh

theorem occurrences (h : r.Written known statements statements') {fits : Nest → Prop}
    (hclosed : r.Closed fits) (hplain : fits .plain) :
    List.Forall₂ (Occurrence.Varies fits) (Stmt.occurrencesAll false [] statements)
      (Stmt.occurrencesAll false [] statements') :=
  Stmt.occurrencesAll_vary hclosed statements h.formed false hplain .globals h.vary h.recorded

theorem idsAll (h : r.Written known statements statements') :
    Stmt.idsAll statements' = Stmt.idsAll statements := by
  rw [← Stmt.idsAll_occurrences false [] statements', ← Stmt.idsAll_occurrences false [] statements]
  have hclosed : r.Closed fun _ => True := ⟨fun _ _ => trivial, fun _ _ => trivial⟩
  exact Occurrence.ids_vary (h.occurrences hclosed trivial)

theorem accepted (h : r.Written known statements statements') :
    (Analysis.ofProgram known statements').2 = [] := by
  have hplaces := Stmt.placesAll_noWorse statements h.formed [] .globals h.vary
  exact (Analysis.ofProgram_clean_iff known statements').2
    (hplaces ((Analysis.ofProgram_clean_iff known statements).1 h.clean))

/-- The distances of a variant are recorded in the same way, so it varies from the
program with regard to them as well. -/
theorem varies (h : r.Written known statements statements')
    (hdistances' : r.distances' = (Analysis.ofProgram known statements').1) :
    Stmt.VaryAll r.variation .plain statements statements' := by
  have hids := h.idsAll
  have hrecorded' : Recorded r.distances' (Stmt.occurrencesAll false [] statements') :=
    hdistances' ▸ Analysis.recorded_ofProgram (hids ▸ h.distinct) (hids ▸ h.fresh)
  exact Stmt.vary_of_recorded statements h.formed false .globals h.vary h.recorded hrecorded'

/-- Numbers that the program does not have keep their distances. -/
theorem distances'_other (h : r.Written known statements statements') {id : Nat}
    (hid : id ∉ Stmt.idsAll statements) :
    (Analysis.ofProgram known statements').1[id]? = known[id]? := by
  rw [Analysis.ofProgram_distances]
  refine Occurrence.recordAll_other known ?_
  rwa [Stmt.idsAll_occurrences, h.idsAll]

/-- Without further braces all distances are those of the program. -/
theorem distances'_eq (h : r.Written known statements statements') (hpace : r.pace = .same) :
    (Analysis.ofProgram known statements').1 = (Analysis.ofProgram known statements).1 := by
  have hclosed : r.Closed fun nest => ∀ distance, nest.distance distance = distance := by
    refine ⟨fun renamed hnest distance => ?_, fun hother => absurd hpace hother⟩
    cases distance with
    | zero => rfl
    | succ distance => exact congrArg (· + 1) (hnest distance)
  rw [Analysis.ofProgram_distances, Analysis.ofProgram_distances]
  exact Occurrence.recordAll_vary (h.occurrences hclosed fun _ => rfl) known

end Written

end Variant

end Lox
