import Lox.Token
import Lox.Decimal.Numeral

/-!
# Segments of the source

The source text is cut from left to right into segments, each of at least one
character: a token, one blank character, a comment, a string that is never
closed, or one character that starts nothing.  A segment is as long as its
class allows.  Nothing is lost: the segments of a text in order spell it.
-/

namespace Lox

/-- What a segment of the source is. -/
inductive Piece where
  | token (kind : Kind)
  | blank
  | comment
  | unterminated
  | unexpected (character : Char)
  deriving Repr, Inhabited

/-- A segment with the text that follows it. -/
structure Segment where
  piece : Piece
  text : List Char
  rest : List Char
  deriving Repr, Inhabited

namespace Segment

/-- The characters that are a symbol whatever follows them. -/
def single? : Char → Option Symbol
  | '(' => some .leftParen
  | ')' => some .rightParen
  | '{' => some .leftBrace
  | '}' => some .rightBrace
  | '[' => some .leftBracket
  | ']' => some .rightBracket
  | ',' => some .comma
  | '.' => some .dot
  | '-' => some .minus
  | '+' => some .plus
  | ';' => some .semicolon
  | '*' => some .star
  | _ => none

/-- The characters that are one symbol alone and another before an equals
sign, in this order. -/
def paired? : Char → Option (Symbol × Symbol)
  | '!' => some (.bang, .bangEqual)
  | '=' => some (.equal, .equalEqual)
  | '<' => some (.less, .lessEqual)
  | '>' => some (.greater, .greaterEqual)
  | _ => none

def isBlank (c : Char) : Bool :=
  c == ' ' || c == '\r' || c == '\t' || c == '\n'

/-- The letters `a` to `z` in either case, and the underscore. -/
def isLetter (c : Char) : Bool :=
  ('a' ≤ c && c ≤ 'z') || ('A' ≤ c && c ≤ 'Z') || c == '_'

def isWordCharacter (c : Char) : Bool :=
  isLetter c || Decimal.isDigit c

/-- The longest segment `first :: …` whose further characters satisfy
`belongs`. -/
def run (belongs : Char → Bool) (classify : List Char → Piece) (first : Char)
    (following : List Char) : Segment :=
  let text := first :: following.takeWhile belongs
  ⟨classify text, text, following.dropWhile belongs⟩

/-- A string runs to the next quotation mark, over line ends too. -/
def string (following : List Char) : Segment :=
  let content := following.takeWhile (· != '"')
  match following.dropWhile (· != '"') with
  | [] => ⟨.unterminated, '"' :: content, []⟩
  | quote :: rest =>
    ⟨.token (.text (String.ofList content)), '"' :: content ++ [quote], rest⟩

/-- A number is digits and, only where a digit follows it, a point and more
digits. -/
def number (first : Char) (following : List Char) : Segment :=
  let whole := first :: following.takeWhile Decimal.isDigit
  let rest := following.dropWhile Decimal.isDigit
  match rest with
  | '.' :: digit :: more =>
    if Decimal.isDigit digit then
      let text := whole ++ '.' :: digit :: more.takeWhile Decimal.isDigit
      ⟨.token (.number (Decimal.ofNumeral text)), text, more.dropWhile Decimal.isDigit⟩
    else
      ⟨.token (.number (Decimal.ofNumeral whole)), whole, rest⟩
  | _ => ⟨.token (.number (Decimal.ofNumeral whole)), whole, rest⟩

def word (first : Char) (following : List Char) : Segment :=
  run isWordCharacter (fun text => .token (.symbol (.ofWord (String.ofList text))))
    first following

/-- A comment stops before the next line end, which is a segment of its own. -/
def slash (following : List Char) : Segment :=
  match following with
  | '/' :: _ => run (· != '\n') (fun _ => .comment) '/' following
  | _ => ⟨.token (.symbol .slash), ['/'], following⟩

/-- The first segment of the text `first :: following`. -/
def ofText (first : Char) (following : List Char) : Segment :=
  match single? first, paired? first with
  | some symbol, _ => ⟨.token (.symbol symbol), [first], following⟩
  | none, some (alone, withEqual) =>
    match following with
    | '=' :: rest => ⟨.token (.symbol withEqual), [first, '='], rest⟩
    | _ => ⟨.token (.symbol alone), [first], following⟩
  | none, none =>
    if first == '/' then slash following
    else if first == '"' then string following
    else if isBlank first then ⟨.blank, [first], following⟩
    else if Decimal.isDigit first then number first following
    else if isLetter first then word first following
    else ⟨.unexpected first, [first], following⟩

theorem run_append (belongs : Char → Bool) (classify : List Char → Piece) (first : Char)
    (following : List Char) :
    (run belongs classify first following).text ++ (run belongs classify first following).rest =
      first :: following := by
  simp [run, List.takeWhile_append_dropWhile]

theorem string_append (following : List Char) :
    (string following).text ++ (string following).rest = '"' :: following := by
  have whole := List.takeWhile_append_dropWhile (p := (· != '"')) (l := following)
  unfold string
  split <;> rename_i h <;> rw [h] at whole <;> simpa using whole

theorem number_append (first : Char) (following : List Char) :
    (number first following).text ++ (number first following).rest = first :: following := by
  have whole := List.takeWhile_append_dropWhile (p := Decimal.isDigit) (l := following)
  unfold number
  dsimp only
  split
  · rename_i digit more h
    have more' := List.takeWhile_append_dropWhile (p := Decimal.isDigit) (l := more)
    rw [h] at whole
    split
    · simp [List.append_assoc, more', whole]
    · simp [h, whole]
  · simp [whole]

theorem slash_append (following : List Char) :
    (slash following).text ++ (slash following).rest = '/' :: following := by
  unfold slash
  split
  · exact run_append ..
  · rfl

/-- Cutting off the first segment loses nothing. -/
theorem ofText_append (first : Char) (following : List Char) :
    (ofText first following).text ++ (ofText first following).rest = first :: following := by
  unfold ofText
  split
  · rfl
  · split <;> rfl
  · split
    · rename_i h
      rw [beq_iff_eq.1 h]
      exact slash_append following
    · split
      · rename_i h
        rw [beq_iff_eq.1 h]
        exact string_append following
      · split
        · rfl
        · split
          · exact number_append first following
          · split
            · exact run_append ..
            · rfl

theorem text_ofText_ne_nil (first : Char) (following : List Char) :
    (ofText first following).text ≠ [] := by
  unfold ofText slash string number word run
  dsimp only
  repeat' split
  all_goals simp

/-- What follows a segment is shorter than the text it was cut from. -/
theorem length_rest_ofText_lt (first : Char) (following : List Char) :
    (ofText first following).rest.length < (first :: following).length := by
  rw [← ofText_append first following, List.length_append]
  have := List.length_pos_iff.2 (text_ofText_ne_nil first following)
  omega

/-- The segments of a text, in order. -/
def all : List Char → List Segment
  | [] => []
  | first :: following => ofText first following :: all (ofText first following).rest
termination_by text => text.length
decreasing_by exact length_rest_ofText_lt first following

end Segment

end Lox
