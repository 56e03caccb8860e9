import Lox.Proofs.Syntax.Walk.Following

/-!
# Expressions by position

Every part of an expression is read by position as the parser reads it.
-/

namespace Lox.Walk

/-- With this much fuel every rule follows the parser. -/
def RulesFollow (reach : Reach) (start fuel : Nat) : Prop :=
  ∀ {α : Type} (rule : Rule α), Follows reach start (rule.walk fuel) (rule.read fuel)

variable {reach : Reach} {start fuel : Nat}

section Passing

variable {cursor : Cursor} {state : Parser.State} {token : Token} {rest : List Token}

/-- Going on behind a token. -/
theorem At.advance_bind {α : Type} {further : Token → Walk α} {further' : Unit → Parser α}
    (h : At reach start cursor state) (hrest : state.rest = token :: rest)
    (hfurther : Follows reach start (further token) (further' ())) :
    Ends (At reach start) Alike Eq ((Walk.advance >>= further) cursor)
      ((Parser.advance >>= further') state) := by
  have hright : Parser.advance state = .ok () { state with rest := rest } := by
    rw [Parser.advance, hrest]
    rfl
  rw [bind_of_ok (h.advance hrest), bind_of_ok hright]
  exact hfurther _ _ (h.next hrest)

/-- A token that is an expression by itself. -/
theorem At.single (h : At reach start cursor state) (hrest : state.rest = token :: rest)
    (e : Expr) :
    Ends (At reach start) Alike Eq ((do let _ ← Walk.advance; return e : Walk Expr) cursor)
      ((do Parser.advance; return e : Parser Expr) state) :=
  h.advance_bind hrest (.pure rfl)

/-- An occurrence of a name gets its number before or after its token is passed. -/
theorem At.occurrence (h : At reach start cursor state) (hrest : state.rest = token :: rest)
    (build : Nat → Expr) :
    Ends (At reach start) Alike Eq
      ((do let id ← freshId; let _ ← Walk.advance; return build id : Walk Expr) cursor)
      ((do Parser.advance; return build (← Parser.freshId) : Parser Expr) state) := by
  obtain ⟨tokens, ending, nextId, diagnostics⟩ := state
  obtain rfl : nextId = cursor.nextId := h.nextId
  have hnumbered : At reach start { cursor with nextId := cursor.nextId + 1 }
      ⟨tokens, ending, cursor.nextId + 1, diagnostics⟩ :=
    ⟨h.tokens, h.start, h.within, h.rest, h.ending, rfl, h.diagnostics⟩
  exact hnumbered.single hrest (build cursor.nextId)

end Passing

/-- Going on by whether a symbol has been passed over. -/
theorem accepts_bind {α : Type} {symbol : Symbol} {yes no : Walk α} {yes' no' : Parser α}
    (hyes : Follows reach start yes yes') (hno : Follows reach start no no') :
    Follows reach start (do if ← accepts symbol then yes else no)
      (do if (← Parser.accept? [symbol]).isSome then yes' else no') := by
  apply (accepts_follows symbol).bind
  rintro _ token? rfl
  split
  · exact hyes
  · exact hno

theorem assignment_follows (target : Expr) (equals : Token) (value : Expr) :
    Follows reach start (assignment target equals value)
      (Parser.assignment target equals value) := by
  cases target with
  | reference _ name =>
      apply freshId_follows.bind
      rintro id _ rfl
      exact .pure rfl
  | get object name => exact .pure rfl
  | literal _ | grouping _ | unary _ _ | binary _ _ _ | logical _ _ _ | assign _ _ _
  | receiver _ _ | set _ _ _ | call _ _ _ | list _ _ =>
      apply (report_follows equals .invalidAssignmentTarget).bind
      rintro _ _ -
      exact .pure rfl

section Step

variable (ih : RulesFollow reach start fuel)
include ih

theorem expression_follows :
    Follows reach start (expression (fuel + 1)) (Parser.expression (fuel + 1)) := by
  rw [expression, Parser.expression]
  apply (ih (.binary Level.all)).bind
  rintro target _ rfl
  apply (accepted?_follows _).bind
  rintro (_ | equals) _ rfl
  · exact .pure rfl
  · apply (ih .expression).bind
    rintro value _ rfl
    exact assignment_follows target equals value

theorem binary_follows (levels : List Level) :
    Follows reach start (binary (fuel + 1) levels) (Parser.binary (fuel + 1) levels) := by
  cases levels with
  | nil =>
      rw [binary, Parser.binary]
      exact ih .unary
  | cons level tighter =>
      rw [binary, Parser.binary]
      apply (ih (.binary tighter)).bind
      rintro left _ rfl
      exact ih (.binaryRest level tighter left)

theorem binaryRest_follows (level : Level) (tighter : List Level) (left : Expr) :
    Follows reach start (binaryRest (fuel + 1) level tighter left)
      (Parser.binaryRest (fuel + 1) level tighter left) := by
  rw [binaryRest, Parser.binaryRest]
  apply (accepted?_follows _).bind
  rintro (_ | operator) _ rfl
  · exact .pure rfl
  · apply (ih (.binary tighter)).bind
    rintro right _ rfl
    exact ih (.binaryRest level tighter (level.build left operator right))

theorem unary_follows : Follows reach start (unary (fuel + 1)) (Parser.unary (fuel + 1)) := by
  rw [unary, Parser.unary]
  apply (accepted?_follows _).bind
  rintro (_ | operator) _ rfl
  · apply (ih .primary).bind
    rintro callee _ rfl
    exact ih (.callRest callee)
  · apply (ih .unary).bind
    rintro operand _ rfl
    exact .pure rfl

theorem callRest_follows (callee : Expr) :
    Follows reach start (callRest (fuel + 1) callee) (Parser.callRest (fuel + 1) callee) := by
  rw [callRest, Parser.callRest]
  apply accepts_bind
  · apply (ih (.arguments .rightParen)).bind
    rintro arguments _ rfl
    apply (expect_follows _ _).bind
    rintro closing _ rfl
    exact ih (.callRest (.call callee closing arguments))
  · apply accepts_bind
    · apply (expect_follows _ _).bind
      rintro name _ rfl
      exact ih (.callRest (.get callee name))
    · exact .pure rfl

theorem arguments_follows (closing : Symbol) :
    Follows reach start (arguments (fuel + 1) closing)
      (Parser.arguments (fuel + 1) closing) := by
  rw [arguments, Parser.arguments]
  apply (check_follows _).bind
  rintro closed _ rfl
  split
  · exact .pure rfl
  · exact ih (.argumentsRest 0)

theorem argumentsRest_follows (count : Nat) :
    Follows reach start (argumentsRest (fuel + 1) count)
      (Parser.argumentsRest (fuel + 1) count) := by
  rw [argumentsRest, Parser.argumentsRest]
  apply (checkArity_follows _ _).bind
  rintro _ _ -
  apply (ih .expression).bind
  rintro argument _ rfl
  apply accepts_bind
  · apply (ih (.argumentsRest (count + 1))).bind
    rintro rest _ rfl
    exact .pure rfl
  · exact .pure rfl

theorem primary_follows :
    Follows reach start (primary (fuel + 1)) (Parser.primary (fuel + 1)) := by
  intro cursor state h
  have hpeek : Parser.peek state = .ok state.next state := rfl
  rw [primary, bind_of_ok h.peek, Parser.primary, bind_of_ok hpeek]
  obtain ⟨_ | ⟨⟨kind, lexeme, line⟩, rest⟩, ⟨kind', lexeme', line'⟩, nextId, diagnostics⟩ := state
  · obtain rfl : kind' = .symbol .endOfFile := h.kind_next rfl
    exact fail_follows _ _ _ h
  · cases kind with
    | number value => exact h.single rfl (.literal (.number value))
    | text value => exact h.single rfl (.literal (.text value))
    | symbol symbol =>
        cases symbol
        case falseWord => exact h.single rfl (.literal (.truth false))
        case trueWord => exact h.single rfl (.literal (.truth true))
        case nilWord => exact h.single rfl (.literal .nil)
        case thisWord => exact h.occurrence rfl (.receiver · _)
        case identifier => exact h.occurrence rfl (.reference · _)
        case leftParen =>
          refine h.advance_bind rfl ?_
          apply (ih .expression).bind
          rintro inner _ rfl
          apply (expect_follows _ _).bind
          rintro _ _ -
          exact .pure rfl
        case leftBracket =>
          refine h.advance_bind rfl ?_
          apply (ih (.arguments .rightBracket)).bind
          rintro elements _ rfl
          apply (expect_follows _ _).bind
          rintro closing _ rfl
          exact .pure rfl
        all_goals exact fail_follows _ _ _ h

end Step

end Lox.Walk
