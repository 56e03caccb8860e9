import Lox.Proofs.Sequencing
import Lox.Proofs.Syntax.Occurrence

/-!
# Numbers that reading gives out

What reading a part of a program does to the number of the next name
occurrence: numbers are only used up, also where the part has a syntax error,
and those of a tree that is read are distinct and were all given out for it.
-/

namespace Lox.Parser

/-- Distinct numbers from `lower` on and below `upper`. -/
structure Numbers (lower upper : Nat) (ids : List Nat) : Prop where
  ordered : lower ≤ upper
  distinct : ids.Nodup
  bounded : ∀ id ∈ ids, lower ≤ id ∧ id < upper

namespace Numbers

variable {lower middle upper : Nat} {left right ids : List Nat}

theorem nil (h : lower ≤ upper) : Numbers lower upper [] :=
  ⟨h, List.nodup_nil, by simp⟩

theorem single (h : lower ≤ middle) : Numbers lower (middle + 1) [middle] :=
  ⟨by omega, List.nodup_singleton _, by simpa using h⟩

theorem append (hleft : Numbers lower middle left) (hright : Numbers middle upper right) :
    Numbers lower upper (left ++ right) where
  ordered := hleft.ordered.trans hright.ordered
  distinct := by
    refine List.nodup_append.2 ⟨hleft.distinct, hright.distinct, fun a ha b hb hab => ?_⟩
    have := hleft.bounded a ha
    have := hright.bounded b hb
    omega
  bounded := by
    intro id hid
    have := hleft.ordered
    have := hright.ordered
    rcases List.mem_append.1 hid with h | h
    · have := hleft.bounded id h
      omega
    · have := hright.bounded id h
      omega

theorem swap (h : Numbers lower upper (left ++ right)) :
    Numbers lower upper (right ++ left) where
  ordered := h.ordered
  distinct := List.nodup_append_comm.1 h.distinct
  bounded id hid := h.bounded id (by simpa [or_comm] using hid)

theorem widen (h : Numbers lower upper ids) (hle : middle ≤ lower) :
    Numbers middle upper ids :=
  ⟨hle.trans h.ordered, h.distinct, fun id hid =>
    ⟨hle.trans (h.bounded id hid).1, (h.bounded id hid).2⟩⟩

end Numbers

/-- All tokens to come satisfy `spelled`. -/
def State.Spelled (spelled : Token → Prop) (state : State) : Prop :=
  spelled state.ending ∧ ∀ token ∈ state.rest, spelled token

/-- What a parser yields from a state whose next number is `next` and whose
tokens satisfy `spelled`: no other tokens come in, numbers are only used up, and
a result satisfies `good` together with the next number. -/
def From {α : Type} (spelled : Token → Prop) (next : Nat) (part : Parser α)
    (good : Nat → α → Prop) : Prop :=
  ∀ state : State, state.Spelled spelled → state.nextId = next →
    match part state with
    | .ok result after =>
      after.Spelled spelled ∧ next ≤ after.nextId ∧ good after.nextId result
    | .error _ after => after.Spelled spelled ∧ next ≤ after.nextId

namespace From

variable {α β : Type} {spelled : Token → Prop} {next : Nat} {part : Parser α}
variable {good : Nat → α → Prop}

theorem pure {result : α} (h : good next result) : From spelled next (pure result) good := by
  intro state hspelled hstate
  exact ⟨hspelled, hstate.ge, hstate.symm ▸ h⟩

theorem bind {rest : α → Parser β} {good' : Nat → β → Prop}
    (hpart : From spelled next part good)
    (hrest : ∀ middle result, next ≤ middle → good middle result →
      From spelled middle (rest result) good') :
    From spelled next (part >>= rest) good' := by
  intro state hspelled hstate
  have hfirst := hpart state hspelled hstate
  cases hresult : part state with
  | error halt after =>
      rw [hresult] at hfirst
      rw [bind_of_error hresult]
      exact hfirst
  | ok result after =>
      rw [hresult] at hfirst
      obtain ⟨hspelled', hle, hgood⟩ := hfirst
      have hsecond := hrest after.nextId result hle hgood after hspelled' rfl
      rw [bind_of_ok hresult]
      cases hresult' : rest result after with
      | error halt last =>
          rw [hresult'] at hsecond
          exact ⟨hsecond.1, hle.trans hsecond.2⟩
      | ok result' last =>
          rw [hresult'] at hsecond
          exact ⟨hsecond.1, hle.trans hsecond.2.1, hsecond.2.2⟩

theorem mono {good' : Nat → α → Prop} (hpart : From spelled next part good)
    (himp : ∀ middle result, next ≤ middle → good middle result → good' middle result) :
    From spelled next part good' := by
  intro state hspelled hstate
  have hfirst := hpart state hspelled hstate
  cases hresult : part state with
  | error halt after => simpa [hresult] using hfirst
  | ok result after =>
      rw [hresult] at hfirst
      exact ⟨hfirst.1, hfirst.2.1, himp _ _ hfirst.2.1 hfirst.2.2⟩

theorem map {f : α → β} {good' : Nat → β → Prop} (hpart : From spelled next part good)
    (himp : ∀ middle result, next ≤ middle → good middle result → good' middle (f result)) :
    From spelled next (f <$> part) good' := by
  intro state hspelled hstate
  have hfirst := hpart state hspelled hstate
  cases hresult : part state with
  | error halt after =>
      rw [hresult] at hfirst
      rw [map_of_error hresult]
      exact hfirst
  | ok result after =>
      rw [hresult] at hfirst
      rw [map_of_ok hresult]
      exact ⟨hfirst.1, hfirst.2.1, himp _ _ hfirst.2.1 hfirst.2.2⟩

theorem halt {why : Halt} : From spelled next (throw why : Parser α) good :=
  fun _ hspelled hstate => ⟨hspelled, hstate.ge⟩

end From

variable {spelled : Token → Prop} {next : Nat}

theorem State.Spelled.spelled_next {state : State} (h : state.Spelled spelled) :
    spelled state.next := by
  rw [State.next]
  cases hrest : state.rest with
  | nil => exact h.1
  | cons token rest => exact h.2 token (by simp [hrest])

/-- Reading goes on at a later token. -/
theorem resume_subset (afterSemicolon : Bool) (tokens : List Token) :
    resume afterSemicolon tokens ⊆ tokens := by
  induction tokens generalizing afterSemicolon with
  | nil => exact List.Subset.refl _
  | cons token rest ih =>
      rw [resume]
      split
      · exact List.Subset.refl _
      · exact List.subset_cons_of_subset _ (ih _)

theorem State.Spelled.recover {state : State} (h : state.Spelled spelled) :
    state.recover.Spelled spelled := by
  rw [State.recover]
  split
  · exact h
  · rename_i token rest hrest
    refine ⟨h.1, fun other hother => h.2 other ?_⟩
    rw [hrest]
    exact List.mem_cons_of_mem _ (resume_subset _ _ hother)

/-- A parser that uses up no numbers, with good results. -/
def Idle {α : Type} (spelled : Token → Prop) (part : Parser α) (good : α → Prop) : Prop :=
  ∀ next, From spelled next part fun after result => after = next ∧ good result

theorem Idle.bind {α β : Type} {part : Parser α} {rest : α → Parser β} {good : α → Prop}
    {good' : Nat → β → Prop} (hpart : Idle spelled part good)
    (hrest : ∀ result, good result → From spelled next (rest result) good') :
    From spelled next (part >>= rest) good' := by
  apply (hpart next).bind
  rintro middle result - ⟨rfl, hgood⟩
  exact hrest result hgood

theorem fail_from {α : Type} {good : Nat → α → Prop} (what : Expectation) :
    From spelled next (fail what) good :=
  fun _ hspelled hstate => ⟨hspelled, hstate.ge⟩

theorem peek_idle : Idle spelled peek spelled :=
  fun _ _ hspelled hstate =>
    ⟨hspelled, hstate.ge, hstate, State.Spelled.spelled_next hspelled⟩

theorem atEnd_idle : Idle spelled atEnd fun _ => True :=
  fun _ _ hspelled hstate => ⟨hspelled, hstate.ge, hstate, trivial⟩

theorem nextIs_idle (symbol : Symbol) : Idle spelled (nextIs symbol) fun _ => True :=
  fun _ _ hspelled hstate => ⟨hspelled, hstate.ge, hstate, trivial⟩

theorem advance_idle : Idle spelled advance fun _ => True :=
  fun _ _ hspelled hstate =>
    ⟨⟨hspelled.1, fun token htoken => hspelled.2 token (List.mem_of_mem_tail htoken)⟩,
      hstate.ge, hstate, trivial⟩

theorem report_idle (token : Token) (error : SyntaxError) :
    Idle spelled (report token error) fun _ => True :=
  fun _ _ hspelled hstate => ⟨hspelled, hstate.ge, hstate, trivial⟩

theorem freshId_from :
    From spelled next freshId fun after id => id = next ∧ after = next + 1 := by
  intro state hspelled hstate
  subst hstate
  exact ⟨hspelled, Nat.le_succ _, rfl, rfl⟩

theorem accept?_idle (symbols : List Symbol) :
    Idle spelled (accept? symbols) fun token? =>
      ∀ token, token? = some token → spelled token ∧ token.isAny symbols := by
  rintro next ⟨tokens, ending, nextId, diagnostics⟩ hspelled rfl
  cases tokens with
  | nil => exact ⟨hspelled, le_rfl, rfl, by simp⟩
  | cons token rest =>
      obtain ⟨hending, htokens⟩ := hspelled
      have hrest : ∀ other ∈ rest, spelled other := fun other hother =>
        htokens other (List.mem_cons_of_mem _ hother)
      by_cases hany : token.isAny symbols
      · have hresult : accept? symbols ⟨token :: rest, ending, nextId, diagnostics⟩ =
            .ok (some token) ⟨rest, ending, nextId, diagnostics⟩ := by
          simp [accept?, hany]
        have htoken : ∀ other, some token = some other →
            spelled other ∧ other.isAny symbols := by
          intro other hother
          cases hother
          exact ⟨htokens token (by simp), hany⟩
        rw [hresult]
        exact ⟨⟨hending, hrest⟩, le_rfl, rfl, htoken⟩
      · have hresult : accept? symbols ⟨token :: rest, ending, nextId, diagnostics⟩ =
            .ok none ⟨token :: rest, ending, nextId, diagnostics⟩ := by
          simp [accept?, hany]
        rw [hresult]
        exact ⟨⟨hending, htokens⟩, le_rfl, rfl, by simp⟩

theorem expect_idle (symbol : Symbol) (what : Expectation) :
    Idle spelled (expect symbol what) fun token => spelled token ∧ token.is symbol := by
  intro next
  apply (accept?_idle [symbol]).bind
  intro token? htoken
  cases token? with
  | none => exact fail_from what
  | some token =>
      obtain ⟨hspelled, hany⟩ := htoken token rfl
      have his : token.is symbol := by simpa [Token.isAny] using hany
      exact .pure ⟨rfl, hspelled, his⟩

theorem checkArity_idle (count : Nat) (error : SyntaxError) :
    Idle spelled (checkArity count error) fun _ => True := by
  intro next
  rw [checkArity]
  split
  · apply peek_idle.bind
    intro token _
    exact report_idle token error next
  · exact .pure ⟨rfl, trivial⟩

theorem attempt_from {α : Type} {part : Parser α} {good : Nat → α → Prop}
    (hpart : From spelled next part good) :
    From spelled next (attempt part) fun after result? =>
      next ≤ after ∧ ∀ result, result? = some result → good after result := by
  intro state hspelled hstate
  have hfirst := hpart state hspelled hstate
  rw [attempt]
  cases hresult : part state with
  | ok result after =>
      rw [hresult] at hfirst
      obtain ⟨hspelled', hle, hgood⟩ := hfirst
      refine ⟨hspelled', hle, hle, ?_⟩
      rintro _ ⟨⟩
      exact hgood
  | error halt after =>
      rw [hresult] at hfirst
      cases halt with
      | outOfFuel => exact hfirst
      | syntaxError =>
          have hkept : after.recover.nextId = after.nextId := by
            rw [State.recover]
            split <;> rfl
          dsimp only at hfirst ⊢
          rw [hkept]
          exact ⟨hfirst.1.recover, hfirst.2, hfirst.2, by simp⟩

/-- A tree with its numbers, read while the next number went from `lower` to
`upper`. -/
structure New (lower upper : Nat) (formed : Prop) (ids : List Nat) : Prop where
  formed : formed
  numbers : Numbers lower upper ids

end Lox.Parser
