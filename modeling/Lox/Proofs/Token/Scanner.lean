import Lox.Proofs.Token.Bytes
import Lox.Token.Stream

/-!
# A scanner on bytes

The items of a source, read in one pass over its bytes.  The scanner keeps the
position where a segment starts and the one it has come to, and looks at most
two bytes ahead.  An index beyond the source, a slice that begins or ends within
a character and a loop that does not move on are faults, so that a run without
one is known to have none of them.
-/

namespace Lox

inductive Fault where
  | outOfRange
  | offBoundary
  | stalled
  deriving DecidableEq, Repr

/-- Positions count bytes.  A recognised kind is pending until its token is
made. -/
structure Scanner where
  start : Nat
  current : Nat
  line : Nat
  pending : Option Kind
  deriving Repr, Inhabited

/-- What the scanner asks of others: where a byte is first found, and which
reserved word has these bytes. -/
structure Library where
  position? : UInt8 → List UInt8 → Option Nat
  reserved? : List UInt8 → Option Symbol

structure Library.Documented (library : Library) : Prop where
  position? (byte : UInt8) (tail : List UInt8) :
    library.position? byte tail = tail.findIdx? (· == byte)
  reserved? (word : List UInt8) (symbol : Symbol) :
    library.reserved? word = some symbol ↔
      ∃ name, (name, symbol) ∈ Symbol.reserved ∧ bytes name = word

namespace Scanner

open Segment (single? paired? isLetter isWordCharacter)

abbrev Scan := EStateM Fault Scanner

def initial : Scanner :=
  ⟨0, 0, 1, none⟩

variable (library : Library) (source : String)

/-! ## Positions -/

def size : Nat :=
  (bytes source).length

def byteAt (position : Nat) : Scan UInt8 :=
  match (bytes source)[position]? with
  | some byte => pure byte
  | none => throw .outOfRange

def atEnd : Scan Bool := do
  return size source ≤ (← get).current

def advance : Scan UInt8 := do
  let byte ← byteAt source (← get).current
  modify fun scanner => { scanner with current := scanner.current + 1 }
  return byte

/-- The byte some way ahead, or 0 beyond the end. -/
def peekAt (offset : Nat) : Scan UInt8 := do
  let position := (← get).current + offset
  if size source ≤ position then return 0
  byteAt source position

def peek : Scan UInt8 :=
  peekAt source 0

def peekNext : Scan UInt8 :=
  peekAt source 1

def matchByte (expected : Char) : Scan Bool := do
  if !(← atEnd source) && Char.ofUInt8 (← peek source) == expected then
    let _ ← advance source
    return true
  return false

def byteSlice (start stop : Nat) : Scan (List UInt8) :=
  if start ≤ stop ∧ stop ≤ size source then
    pure (((bytes source).take stop).drop start)
  else
    throw .outOfRange

def slice (start stop : Nat) : Scan String :=
  match slice? source start stop with
  | some text => pure text
  | none => throw .offBoundary

/-- The text of the segment so far. -/
def lexeme : Scan String := do
  let scanner ← get
  slice source scanner.start scanner.current

/-! ## Loops -/

/-- How often a scanner can move on before it is beyond the end. -/
def remaining (scanner : Scanner) : Nat :=
  size source + 1 - scanner.current

/-- Repeats a step that moves on, until it is done. -/
def loop {α : Type} (step : α → Scan (ForInStep α)) (value : α) (scanner : Scanner) :
    EStateM.Result Fault Scanner α :=
  match step value scanner with
  | .ok (.done value) after => .ok value after
  | .ok (.yield value) after =>
    if remaining source after < remaining source scanner then loop step value after
    else .error .stalled after
  | .error fault after => .error fault after
termination_by remaining source scanner

def skipWhile (belongs : Char → Bool) : Scan Unit :=
  loop source (fun _ => do
    if belongs (Char.ofUInt8 (← peek source)) then
      let _ ← advance source
      return .yield ()
    return .done ()) ()

/-! ## Segments -/

def endLine : Scan Unit :=
  modify fun scanner => { scanner with line := scanner.line + 1 }

def recognise (kind : Kind) : Scan (Except Diagnostic Unit) := do
  modify fun scanner => { scanner with pending := some kind }
  return .ok ()

/-- Goes to the next quotation mark, or to the end of the source. -/
def skipContent : Scan Unit :=
  loop source (fun _ => do
    if !(← atEnd source) && Char.ofUInt8 (← peek source) != '"' then
      if Char.ofUInt8 (← advance source) == '\n' then endLine
      return .yield ()
    return .done ()) ()

def string : Scan (Except Diagnostic Unit) := do
  skipContent source
  if ← atEnd source then
    return .error (.lexical (← get).line .unterminatedString)
  let _ ← advance source
  let scanner ← get
  recognise (.text (← slice source (scanner.start + 1) (scanner.current - 1)))

def number : Scan (Except Diagnostic Unit) := do
  skipWhile source Decimal.isDigit
  if Char.ofUInt8 (← peek source) == '.' && Decimal.isDigit (Char.ofUInt8 (← peekNext source)) then
    let _ ← advance source
    skipWhile source Decimal.isDigit
  recognise (.number (Decimal.ofNumeral (← lexeme source).toList))

def word : Scan (Except Diagnostic Unit) := do
  skipWhile source isWordCharacter
  let scanner ← get
  let word ← byteSlice source scanner.start scanner.current
  recognise (.symbol ((library.reserved? word).getD .identifier))

/-- Goes to the next line end, or to the end of the source. -/
def skipLine : Scan Unit := do
  let scanner ← get
  let current :=
    match library.position? 10 (← byteSlice source scanner.current (size source)) with
    | some offset => scanner.current + offset
    | none => size source
  set { scanner with current }

def slash : Scan (Except Diagnostic Unit) := do
  if ← matchByte source '/' then
    skipLine library source
    return .ok ()
  recognise (.symbol .slash)

/-- Goes beyond the whole character, of which only the first byte has been read. -/
def unexpected : Scan (Except Diagnostic Unit) := do
  let scanner ← get
  let rest ← slice source scanner.start (size source)
  let c := rest.toList.headD '\uFFFD'
  set { scanner with current := scanner.start + c.utf8Size }
  return .error (.lexical scanner.line (.unexpected c))

/-- Scans on from the first byte of a segment. -/
def dispatch (first : Char) : Scan (Except Diagnostic Unit) := do
  match single? first, paired? first with
  | some symbol, _ => recognise (.symbol symbol)
  | none, some (alone, withEqual) =>
    recognise (.symbol (if ← matchByte source '=' then withEqual else alone))
  | none, none =>
    if first == ' ' || first == '\r' || first == '\t' then return .ok ()
    else if first == '\n' then
      endLine
      return .ok ()
    else if first == '/' then slash library source
    else if first == '"' then string source
    else if Decimal.isDigit first then number source
    else if isLetter first then word library source
    else unexpected source

/-! ## Items -/

/-- Cuts one segment off and makes its item, if it has one. -/
def turn : Scan (Option Item) := do
  modify fun scanner => { scanner with start := scanner.current, pending := none }
  match ← dispatch library source (Char.ofUInt8 (← advance source)) with
  | .error diagnostic => return some (.error diagnostic)
  | .ok () =>
    let scanner ← get
    match scanner.pending with
    | none => return none
    | some kind =>
      set { scanner with pending := none }
      return some (.ok ⟨kind, ← lexeme source, scanner.line⟩)

/-- The next item; the position beyond the end says that the last was given. -/
def next : Scan (Option Item) :=
  loop source (fun _ => do
    let scanner ← get
    if size source < scanner.current then
      return .done none
    if scanner.current = size source then
      set { scanner with current := scanner.current + 1 }
      return .done (some (.ok (Token.ending scanner.line)))
    match ← turn library source with
    | some item => return .done (some item)
    | none => return .yield none) none

def drainStep (items : List Item) : Scan (ForInStep (List Item)) := do
  match ← next library source with
  | some item => return .yield (items ++ [item])
  | none => return .done items

/-- All items until there is no more. -/
def drain : Scan (List Item) :=
  loop source (drainStep library source) []

/-- A stretch of the source with the item that it gave. -/
structure Cut where
  text : String
  item? : Option Item

/-- The stretches that the scanner cuts off one after the other, between two of
its states. -/
inductive Cuts : Scanner → List Cut → Scanner → Prop where
  | nil (scanner : Scanner) : Cuts scanner [] scanner
  | cons {scanner after last : Scanner} {item? : Option Item} {text : String} {cuts : List Cut}
    (hturn : turn library source scanner = .ok item? after)
    (htext : slice? source scanner.current after.current = some text)
    (hcuts : Cuts after cuts last) : Cuts scanner (⟨text, item?⟩ :: cuts) last

end Scanner

end Lox
