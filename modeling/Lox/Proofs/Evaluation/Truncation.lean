import Lox.Evaluation
import Lox.Proofs.Machine.Steady
import Lox.Proofs.Output

/-!
# Evaluation with a limited output

With an output that accepts a limited number of bytes a computation does what it
does without the limit, as long as it has not more to write.  Where it has, it
stops at the write that does not fit: no block, loop or call on the way out
writes again or goes on.
-/

namespace Lox

/-- The result of a computation, in another state. -/
def inState {ε σ α : Type} (change : σ → σ) : EStateM.Result ε σ α → EStateM.Result ε σ α
  | .ok result state => .ok result (change state)
  | .error halt state => .error halt (change state)

namespace Machine

/-- The machine with an output that accepts `limit` bytes in total. -/
def limited (limit : Nat) (machine : Machine) : Machine :=
  { machine with output := machine.output.limited limit }

end Machine

namespace Exec

variable {α β : Type} {part : Exec α} {rest : α → Exec β} {limit : Nat}

/-- How a computation ends with an output that accepts `limit` bytes, given how
it ends with an output without a limit. -/
inductive CutAt (limit : Nat) (whole : EStateM.Result Halt Machine α) :
    EStateM.Result Halt Machine α → Prop where
  | fits (h : (finalState whole).output.bytes.size ≤ limit) :
    CutAt limit whole (inState (Machine.limited limit) whole)
  | closed {after : Machine} (h : limit < (finalState whole).output.bytes.size)
    (hbytes : after.output.bytes = (finalState whole).output.bytes.extract 0 limit) :
    CutAt limit whole (.error (.failed .outputClosed) after)

/-- A limit of the output does nothing to a computation but cut it short. -/
def Truncates (part : Exec α) : Prop :=
  ∀ machine : Machine, machine.output.room = none →
    machine.output.Grows (finalState (part machine)).output ∧
    ∀ limit, machine.output.bytes.size ≤ limit →
      CutAt limit (part machine) (part (machine.limited limit))

/-- The computation neither writes nor looks at what has been written. -/
def Silent (part : Exec α) : Prop :=
  ∀ (machine : Machine) (output : Output),
    part { machine with output := output } =
      inState (fun after => { after with output := output }) (part machine)

theorem Silent.truncates (h : Silent part) : Truncates part := by
  intro machine hroom
  have hsame := h machine machine.output
  have houtput : (finalState (part machine)).output = machine.output := by
    rw [show part machine = _ from hsame]
    cases part machine <;> rfl
  refine ⟨by rw [houtput]; exact .refl hroom, fun limit hlimit => ?_⟩
  have hcut : part (machine.limited limit) = inState (Machine.limited limit) (part machine) := by
    rw [Machine.limited, h machine (machine.output.limited limit)]
    cases hresult : part machine with
    | ok _ after | error _ after =>
        rw [hresult] at houtput
        rw [inState, inState, Machine.limited, show after.output = _ from houtput]
  rw [hcut]
  exact .fits (houtput ▸ hlimit)

theorem within_eq (frame : FrameId) (part : Exec α) (machine : Machine) :
    Machine.within frame part machine =
      inState (fun after => { after with current := machine.current })
        (part { machine with current := frame }) := by
  rw [Machine.within]
  cases part { machine with current := frame } <;> rfl

namespace Truncates

theorem pure (result : α) : Truncates (pure result : Exec α) :=
  Silent.truncates fun _ _ => rfl

theorem throw (halt : Halt) : Truncates (throw halt : Exec α) :=
  Silent.truncates fun _ _ => rfl

/-- If the first part is cut short then the second does not begin. -/
theorem bind (hpart : Truncates part) (hrest : ∀ result, Truncates (rest result)) :
    Truncates (part >>= rest) := by
  intro machine hroom
  obtain ⟨hgrows, hcuts⟩ := hpart machine hroom
  cases hresult : part machine with
  | error halt after =>
      rw [hresult] at hgrows hcuts
      rw [bind_of_error hresult]
      refine ⟨hgrows, fun limit hlimit => ?_⟩
      have hcut := hcuts limit hlimit
      generalize hlimited : part (machine.limited limit) = result' at hcut
      cases hcut with
      | fits hfits =>
          rw [bind_of_error hlimited]
          exact .fits hfits
      | closed hclosed hbytes =>
          rw [bind_of_error hlimited]
          exact .closed hclosed hbytes
  | ok result after =>
      rw [hresult] at hgrows hcuts
      obtain ⟨hgrows', hcuts'⟩ := hrest result after hgrows.room
      rw [bind_of_ok hresult]
      refine ⟨hgrows.trans hgrows', fun limit hlimit => ?_⟩
      have hcut := hcuts limit hlimit
      generalize hlimited : part (machine.limited limit) = result' at hcut
      cases hcut with
      | fits hfits =>
          rw [bind_of_ok hlimited]
          exact hcuts' limit hfits
      | closed hclosed hbytes =>
          rw [bind_of_error hlimited]
          refine .closed (hclosed.trans_le hgrows'.size_le) ?_
          rw [hbytes, hgrows'.extract_eq hclosed.le]
          rfl

theorem within (frame : FrameId) (h : Truncates part) :
    Truncates (Machine.within frame part) := by
  intro machine hroom
  obtain ⟨hgrows, hcuts⟩ := h { machine with current := frame } hroom
  have hfinal : (finalState (Machine.within frame part machine)).output =
      (finalState (part { machine with current := frame })).output := by
    rw [within_eq]
    cases part { machine with current := frame } <;> rfl
  refine ⟨hfinal ▸ hgrows, fun limit hlimit => ?_⟩
  have hcut := hcuts limit hlimit
  rw [within_eq frame part (machine.limited limit)]
  change CutAt limit _ (inState (fun after => { after with current := machine.current })
    (part (Machine.limited limit { machine with current := frame })))
  generalize part (Machine.limited limit { machine with current := frame }) = result at hcut
  cases hcut with
  | fits hfits =>
      have hsame : inState (fun after => { after with current := machine.current })
          (inState (Machine.limited limit) (part { machine with current := frame })) =
          inState (Machine.limited limit) (Machine.within frame part machine) := by
        rw [within_eq]
        cases part { machine with current := frame } <;> rfl
      rw [hsame]
      exact .fits (hfinal ▸ hfits)
  | closed hclosed hbytes => exact .closed (hfinal ▸ hclosed) (hfinal ▸ hbytes)

end Truncates

end Exec

namespace Machine

open Exec

variable {α : Type}

/-! ## Steps of the machine -/

theorem silent_withStore (change : Store → α × Store) : Silent (withStore change) :=
  fun _ _ => rfl

theorem silent_ofExcept (line : Nat) (result : Except RuntimeError α) :
    Silent (ofExcept line result) := by
  cases result <;> exact fun _ _ => rfl

theorem silent_lookup (id : Nat) (name : Token) : Silent (lookup id name) := by
  intro machine output
  have hvalue : ({ machine with output := output } : Machine).value? id name.lexeme =
      machine.value? id name.lexeme := rfl
  rw [lookup, lookup, hvalue]
  cases machine.value? id name.lexeme <;> rfl

theorem silent_define (name : String) (value : Value) : Silent (define name value) :=
  fun _ _ => rfl

theorem silent_assign (id : Nat) (name : Token) (value : Value) :
    Silent (assign id name value) := by
  intro machine output
  have hassigned : ({ machine with output := output } : Machine).assigned id name.lexeme value =
      machine.assigned id name.lexeme value := rfl
  rw [assign_eq, assign_eq, hassigned]
  dsimp only
  split <;> rfl

theorem silent_checkArity (line expected got : Nat) : Silent (checkArity line expected got) := by
  rw [checkArity]
  split <;> exact fun _ _ => rfl

theorem silent_nativeCall (line : Nat) (native : Native) (arguments : List Value)
    (time : Float) : Silent (nativeCall line native arguments time) := by
  intro machine output
  simp only [nativeCall]
  cases native.builtin.call time ((native.receiver.map .list).getD .nil) arguments
    machine.store <;> rfl

theorem truncates_callNative (line : Nat) (native : Native) (arguments : List Value) :
    Truncates (callNative line native arguments) := by
  have hcall (time : Float) := (silent_nativeCall line native arguments time).truncates
  rw [callNative_eq]
  split
  · have hnow : Silent now := fun _ _ => rfl
    exact hnow.truncates.bind hcall
  · exact hcall 0.0

theorem truncates_property (object : Value) (name : Token) :
    Truncates (property object name) := by
  cases object with
  | object _ _ | list _ =>
      apply (silent_withStore _).truncates.bind
      rintro (_ | value)
      · exact .throw _
      · exact .pure value
  | nil | truth _ | number _ | text _ | function _ | native _ | classValue _ => exact .throw _

/-- Writes a value on a line of its own as it is shown, piece by piece, up to the
first piece that is refused. -/
def printPieces (value : Value) : Exec Unit := fun machine =>
  let (accepted, output) := machine.output.writeAll (value.linePieces machine.store.lists)
  let machine : Machine := { machine with output := output }
  if accepted then .ok () machine else .error (.failed .outputClosed) machine

theorem printPieces_eq : printPieces = printLine := by
  funext value machine
  rw [printPieces, Output.writeAll_linePieces, printLine]

/-- A line is written as far as it fits. -/
theorem truncates_printLine (value : Value) : Truncates (printLine value) := by
  intro machine hroom
  have hprint (state : Machine) (hstore : state.store = machine.store) :
      printLine value state =
        let written := state.output.write (value.display machine.store.lists ++ "\n")
        let after := { state with output := written.2 }
        if written.1 then .ok () after else .error (.failed .outputClosed) after := by
    rw [printLine, hstore]
  generalize value.display machine.store.lists ++ "\n" = text at hprint
  have hwhole := hprint machine rfl
  rw [Output.write_unlimited hroom, if_pos rfl] at hwhole
  rw [hwhole]
  refine ⟨⟨hroom, text.toUTF8, rfl⟩, fun limit hlimit => ?_⟩
  have hsize : (machine.output.bytes ++ text.toUTF8).size =
      machine.output.bytes.size + text.utf8ByteSize := ByteArray.size_append
  rw [hprint (machine.limited limit) rfl, limited]
  by_cases hfits : machine.output.bytes.size + text.utf8ByteSize ≤ limit
  · rw [Output.write_limited_of_le hlimit hfits]
    exact .fits (hsize ▸ hfits)
  · rw [Output.write_limited_of_lt hlimit (Nat.lt_of_not_le hfits)]
    exact .closed (hsize ▸ Nat.lt_of_not_le hfits) rfl

/-! ## Runs -/

/-- A limit of the output only cuts short what is run with the given fuel. -/
structure TruncatedRuns (fuel : Nat) : Prop where
  evaluate (e : Expr) : Truncates (evaluate fuel e)
  evaluateAll (es : List Expr) : Truncates (evaluateAll fuel es)
  call (function : Value) (line : Nat) (arguments : List Value) :
    Truncates (call fuel function line arguments)
  invoke (closure : Closure) (arguments : List Value) :
    Truncates (invoke fuel closure arguments)
  execute (s : Stmt) : Truncates (execute fuel s)
  executeAll (ss : List Stmt) : Truncates (executeAll fuel ss)
  loop (condition : Expr) (body : Stmt) : Truncates (loop fuel condition body)

theorem truncatedRuns_zero : TruncatedRuns 0 where
  evaluate _ := .throw _
  evaluateAll _ := .throw _
  call _ _ _ := .throw _
  invoke _ _ := .throw _
  execute _ := .throw _
  executeAll _ := .throw _
  loop _ _ := .throw _

section Step

variable {fuel : Nat} (ih : TruncatedRuns fuel)
include ih

theorem evaluate_truncates (e : Expr) : Truncates (evaluate (fuel + 1) e) := by
  cases e with
  | literal value => exact .pure _
  | grouping inner => exact ih.evaluate inner
  | unary operator operand =>
      rw [evaluate]
      exact (ih.evaluate operand).bind fun _ => (silent_ofExcept _ _).truncates
  | binary left operator right =>
      rw [evaluate]
      apply (ih.evaluate left).bind
      intro leftValue
      exact (ih.evaluate right).bind fun _ => (silent_ofExcept _ _).truncates
  | logical left operator right =>
      rw [evaluate]
      apply (ih.evaluate left).bind
      intro leftValue
      split
      · exact .pure _
      · exact ih.evaluate right
  | reference id name => exact (silent_lookup id name).truncates
  | receiver id keyword => exact (silent_lookup id keyword).truncates
  | assign id name value =>
      rw [evaluate]
      apply (ih.evaluate value).bind
      intro result
      exact (silent_assign id name result).truncates.bind fun _ => .pure _
  | get object name =>
      rw [evaluate]
      exact (ih.evaluate object).bind fun result => truncates_property result name
  | set object name value =>
      rw [evaluate]
      apply (ih.evaluate object).bind
      intro result
      split
      · apply (ih.evaluate value).bind
        intro field
        exact (silent_withStore _).truncates.bind fun _ => .pure _
      · exact .throw _
  | call callee closing arguments =>
      rw [evaluate]
      apply (ih.evaluate callee).bind
      intro function
      exact (ih.evaluateAll arguments).bind fun values => ih.call function closing.line values
  | list closing elements =>
      rw [evaluate]
      exact (ih.evaluateAll elements).bind fun _ => (silent_withStore _).truncates

theorem evaluateAll_truncates (es : List Expr) : Truncates (evaluateAll (fuel + 1) es) := by
  cases es with
  | nil => exact .pure _
  | cons e es =>
      rw [evaluateAll]
      apply (ih.evaluate e).bind
      intro value
      exact (ih.evaluateAll es).bind fun _ => .pure _

theorem call_truncates (function : Value) (line : Nat) (arguments : List Value) :
    Truncates (call (fuel + 1) function line arguments) := by
  cases function with
  | function closure =>
      rw [call]
      exact (silent_checkArity _ _ _).truncates.bind fun _ => ih.invoke closure arguments
  | native native =>
      rw [call]
      apply (silent_checkArity _ _ _).truncates.bind
      intro _
      exact truncates_callNative line native arguments
  | classValue cls =>
      rw [call]
      apply (silent_checkArity _ _ _).truncates.bind
      intro _
      apply (silent_withStore _).truncates.bind
      intro object
      split
      · apply (silent_withStore _).truncates.bind
        intro initializer
        exact (ih.invoke initializer arguments).bind fun _ => .pure _
      · exact .pure _
  | nil | truth _ | number _ | text _ | object _ _ | list _ => exact .throw _

theorem invoke_truncates (closure : Closure) (arguments : List Value) :
    Truncates (invoke (fuel + 1) closure arguments) := by
  rw [invoke]
  have henter : Silent (enter closure arguments) := fun _ _ => rfl
  apply henter.truncates.bind
  intro frame
  apply ((ih.executeAll _).within frame).bind
  intro flow
  split
  · exact Silent.truncates fun _ _ => rfl
  · cases flow with
    | normal => exact .pure _
    | returned value => exact .pure _
    | left line => exact .throw _

theorem execute_truncates (s : Stmt) : Truncates (execute (fuel + 1) s) := by
  rcases s with value | value | ⟨name, _ | initializer⟩ | body |
    ⟨condition, thenBranch, _ | elseBranch⟩ | ⟨condition, body⟩ | keyword | declaration |
    ⟨keyword, _ | value⟩ | ⟨name, methods⟩ <;>
    rw [execute]
  case expression => exact (ih.evaluate value).bind fun _ => .pure _
  case print =>
    apply (ih.evaluate value).bind
    intro result
    exact (truncates_printLine result).bind fun _ => .pure _
  case declare.none => exact (silent_define _ _).truncates.bind fun _ => .pure _
  case declare.some =>
    apply (ih.evaluate initializer).bind
    intro result
    exact (silent_define _ result).truncates.bind fun _ => .pure _
  case block =>
    have henter : Silent enterBlock := fun _ _ => rfl
    exact henter.truncates.bind fun frame => (ih.executeAll body).within frame
  case branch.none =>
    apply (ih.evaluate condition).bind
    intro value
    split
    · exact ih.execute thenBranch
    · exact .pure _
  case branch.some =>
    apply (ih.evaluate condition).bind
    intro value
    split
    · exact ih.execute thenBranch
    · exact ih.execute elseBranch
  case loop => exact ih.loop condition body
  case leave => exact .pure _
  case function => exact Silent.truncates fun _ _ => rfl
  case giveBack.none => exact .pure _
  case giveBack.some => exact (ih.evaluate value).bind fun _ => .pure _
  case classDecl => exact Silent.truncates fun _ _ => rfl

theorem executeAll_truncates (ss : List Stmt) : Truncates (executeAll (fuel + 1) ss) := by
  cases ss with
  | nil => exact .pure _
  | cons s ss =>
      rw [executeAll]
      apply (ih.execute s).bind
      intro flow
      cases flow with
      | normal => exact ih.executeAll ss
      | returned value => exact .pure _
      | left line => exact .pure _

theorem loop_truncates (condition : Expr) (body : Stmt) :
    Truncates (loop (fuel + 1) condition body) := by
  rw [loop]
  apply (ih.evaluate condition).bind
  intro value
  split
  · apply (ih.execute body).bind
    intro flow
    cases flow with
    | normal => exact ih.loop condition body
    | returned value => exact .pure _
    | left line => exact .pure _
  · exact .pure _

end Step

theorem truncatedRuns (fuel : Nat) : TruncatedRuns fuel := by
  induction fuel with
  | zero => exact truncatedRuns_zero
  | succ fuel ih =>
      exact {
        evaluate := evaluate_truncates ih
        evaluateAll := evaluateAll_truncates ih
        call := call_truncates ih
        invoke := invoke_truncates ih
        execute := execute_truncates ih
        executeAll := executeAll_truncates ih
        loop := loop_truncates ih }

theorem truncates_executeTop (fuel : Nat) (echo : Bool) (s : Stmt) :
    Truncates (executeTop fuel echo s) := by
  have hexecute := (truncatedRuns fuel).execute s
  cases s with
  | expression value =>
      cases echo with
      | false => exact hexecute
      | true =>
          apply ((truncatedRuns fuel).evaluate value).bind
          intro result
          exact (truncates_printLine result).bind fun _ => .pure _
  | print _ | declare _ _ | block _ | branch _ _ _ | loop _ _ | leave _ | function _
  | giveBack _ _ | classDecl _ _ => exact hexecute

theorem truncates_run (fuel : Nat) (echo : Bool) (ss : List Stmt) :
    Truncates (run fuel echo ss) := by
  induction ss with
  | nil => exact .pure ()
  | cons s ss ih =>
      rw [run]
      apply (truncates_executeTop fuel echo s).bind
      intro flow
      cases flow with
      | normal => exact ih
      | left line => exact .throw _
      | returned value => exact .throw _

end Machine

end Lox
