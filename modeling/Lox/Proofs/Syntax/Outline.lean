import Lox.Syntax.Printer
import Mathlib.Data.List.TakeWhile

/-!
# Outlines

What the parenthesised form writes is an outline: a word, or a row of outlines in
parentheses, with or without a label right before them.  If neither words nor
labels have a blank or a parenthesis in them, an outline ends where its text says,
whatever comes behind, and no two outlines have the same text.
-/

namespace Lox

inductive Outline where
  | word (text : String)
  | row (label : String) (parts : List Outline)

namespace Outline

mutual

def text : Outline → String
  | .word text => text
  | .row label parts => label ++ "(" ++ " ".intercalate (texts parts) ++ ")"
termination_by structural o => o

def texts : List Outline → List String
  | [] => []
  | part :: parts => part.text :: texts parts
termination_by structural parts => parts

end

/-- A head and its parts in parentheses. -/
def form (head : String) (parts : List Outline) : Outline :=
  .row "" (.word head :: parts)

theorem text_form (head : String) (parts : List Outline) :
    (form head parts).text = parenthesize head (texts parts) :=
  rfl

theorem form_inj {head head' : String} {parts parts' : List Outline} :
    form head parts = form head' parts' ↔ head = head' ∧ parts = parts' := by
  simp [form]

/-- The characters that words end at. -/
def delimiters : List Char :=
  [' ', '(', ')']

/-- The text has no delimiter in it. -/
def isPlain (text : String) : Bool :=
  text.toList.all (· ∉ delimiters)

def isWord (text : String) : Bool :=
  text != "" && isPlain text

theorem isWord_iff {text : String} : isWord text ↔ text ≠ "" ∧ isPlain text := by
  simp [isWord]

/-- The characters of the text are of a class that has no delimiter in it. -/
theorem isPlain_of_all {belongs : Char → Bool} (hclass : delimiters.all (!belongs ·))
    {text : String} (h : text.toList.all belongs) : isPlain text := by
  refine List.all_eq_true.2 fun c hc => decide_eq_true fun hmem => ?_
  have hnot := List.all_eq_true.1 hclass c hmem
  rw [List.all_eq_true.1 h c hc] at hnot
  cases hnot

mutual

/-- Words are not empty, and neither words nor labels have delimiters in them. -/
def Plain : Outline → Prop
  | .word text => isWord text
  | .row label parts => isPlain label ∧ PlainAll parts
termination_by structural o => o

def PlainAll : List Outline → Prop
  | [] => True
  | part :: parts => part.Plain ∧ PlainAll parts
termination_by structural parts => parts

end

/-! ## Where an outline ends -/

/-- What stands behind a part of a row: nothing, a blank or the end of the row. -/
def Behind (rest : List Char) : Prop :=
  ∀ c ∈ rest.head?, c = ' ' ∨ c = ')'

/-- A row from its second part on. -/
def further : List Outline → List Char
  | [] => []
  | parts => ' ' :: (" ".intercalate (texts parts)).toList

theorem toList_texts_cons (part : Outline) (parts : List Outline) :
    (" ".intercalate (texts (part :: parts))).toList = part.text.toList ++ further parts := by
  cases parts with
  | nil => simp [texts, further]
  | cons next parts => simp [texts, further, String.intercalate_cons_cons]

theorem behind_nil : Behind [] :=
  nofun

theorem behind_further (parts : List Outline) (rest : List Char) :
    Behind (further parts ++ ')' :: rest) := by
  cases parts <;> simp [Behind, further]

theorem further_append_inj {parts parts' : List Outline} {rest rest' : List Char}
    (h : further parts ++ ')' :: rest = further parts' ++ ')' :: rest') :
    (" ".intercalate (texts parts)).toList ++ ')' :: rest =
      (" ".intercalate (texts parts')).toList ++ ')' :: rest' := by
  cases parts <;> cases parts'
  case nil.nil | cons.cons => simpa [further, texts] using h
  case nil.cons | cons.nil => cases (List.cons.inj h).1

/-- Before a delimiter a plain text is found again. -/
theorem takeWhile_plain {text : String} (h : isPlain text) {rest : List Char}
    (hrest : ∀ c ∈ rest.head?, c ∈ delimiters) :
    (text.toList ++ rest).takeWhile (· ∉ delimiters) = text.toList := by
  rw [List.takeWhile_append_of_pos (List.all_eq_true.1 h)]
  cases rest with
  | nil => simp
  | cons c rest => simp [List.takeWhile_cons_of_neg, hrest c rfl]

theorem eq_of_plain {text text' : String} (h : isPlain text) (h' : isPlain text')
    {rest rest' : List Char} (hrest : ∀ c ∈ rest.head?, c ∈ delimiters)
    (hrest' : ∀ c ∈ rest'.head?, c ∈ delimiters)
    (heq : text.toList ++ rest = text'.toList ++ rest') : text = text' ∧ rest = rest' := by
  have htext := congrArg (List.takeWhile (· ∉ delimiters)) heq
  rw [takeWhile_plain h hrest, takeWhile_plain h' hrest', String.toList_inj] at htext
  subst htext
  exact ⟨rfl, List.append_cancel_left heq⟩

theorem Behind.delimiters {rest : List Char} (h : Behind rest) :
    ∀ c ∈ rest.head?, c ∈ delimiters := by
  intro c hc
  rcases h c hc with rfl | rfl <;> decide

theorem toList_row (label : String) (parts : List Outline) (rest : List Char) :
    (row label parts).text.toList ++ rest =
      label.toList ++ '(' :: ((" ".intercalate (texts parts)).toList ++ ')' :: rest) := by
  simp [text]

/-- No outline begins where a row ends. -/
theorem head_text {o : Outline} (h : o.Plain) (rest : List Char) :
    (o.text.toList ++ rest).head? ≠ some ')' := by
  have hplain {text : String} (h : isPlain text) (c : Char) (following : List Char)
      (hc : text.toList = c :: following) : c ≠ ')' := by
    rintro rfl
    simpa [delimiters] using List.all_eq_true.1 h ')' (by simp [hc])
  cases o with
  | word text =>
      cases hchars : text.toList with
      | nil => exact absurd (String.toList_eq_nil_iff.1 hchars) (isWord_iff.1 h).1
      | cons c following =>
          simpa [Outline.text, hchars] using hplain (isWord_iff.1 h).2 c following hchars
  | row label parts =>
      rw [toList_row]
      cases hchars : label.toList with
      | nil => simp
      | cons c following => simpa using hplain h.1 c following hchars

mutual

/-- An outline ends where its text says. -/
theorem text_append_inj :
    (o : Outline) → {o' : Outline} → o.Plain → o'.Plain → {rest rest' : List Char} →
      Behind rest → Behind rest' → o.text.toList ++ rest = o'.text.toList ++ rest' →
        o = o' ∧ rest = rest'
  | .word text, .word text', h, h', rest, rest', hrest, hrest', heq => by
    obtain ⟨rfl, rfl⟩ := eq_of_plain (isWord_iff.1 h).2 (isWord_iff.1 h').2 hrest.delimiters
      hrest'.delimiters heq
    exact ⟨rfl, rfl⟩
  | .word text, .row label' parts', h, h', rest, rest', hrest, hrest', heq => by
    rw [toList_row] at heq
    obtain ⟨-, rfl⟩ := eq_of_plain (isWord_iff.1 h).2 h'.1 hrest.delimiters (by simp [delimiters])
      heq
    exact absurd (hrest _ rfl) (by decide)
  | .row label parts, .word text', h, h', rest, rest', hrest, hrest', heq => by
    rw [toList_row] at heq
    obtain ⟨-, rfl⟩ := eq_of_plain h.1 (isWord_iff.1 h').2 (by simp [delimiters])
      hrest'.delimiters heq
    exact absurd (hrest' _ rfl) (by decide)
  | .row label parts, .row label' parts', h, h', rest, rest', hrest, hrest', heq => by
    rw [toList_row, toList_row] at heq
    obtain ⟨rfl, hparts⟩ := eq_of_plain h.1 h'.1 (by simp [delimiters]) (by simp [delimiters]) heq
    obtain ⟨rfl, rfl⟩ := texts_append_inj parts h.2 h'.2 (List.cons.inj hparts).2
    exact ⟨rfl, rfl⟩
termination_by structural o => o

theorem texts_append_inj :
    (parts : List Outline) → {parts' : List Outline} → PlainAll parts → PlainAll parts' →
      {rest rest' : List Char} →
      (" ".intercalate (texts parts)).toList ++ ')' :: rest =
        (" ".intercalate (texts parts')).toList ++ ')' :: rest' → parts = parts' ∧ rest = rest'
  | [], [], _, _, rest, rest', heq => ⟨rfl, (List.cons.inj heq).2⟩
  | [], part' :: parts', _, h', rest, rest', heq => by
    rw [toList_texts_cons, List.append_assoc] at heq
    exact absurd (congrArg List.head? heq.symm) (head_text h'.1 _)
  | part :: parts, [], h, _, rest, rest', heq => by
    rw [toList_texts_cons, List.append_assoc] at heq
    exact absurd (congrArg List.head? heq) (head_text h.1 _)
  | part :: parts, part' :: parts', h, h', rest, rest', heq => by
    rw [toList_texts_cons, toList_texts_cons, List.append_assoc, List.append_assoc] at heq
    obtain ⟨rfl, hmore⟩ := text_append_inj part h.1 h'.1 (behind_further parts rest)
      (behind_further parts' rest') heq
    obtain ⟨rfl, rfl⟩ := texts_append_inj parts h.2 h'.2 (further_append_inj hmore)
    exact ⟨rfl, rfl⟩
termination_by structural parts => parts

end

/-- Plain outlines with the same text are one. -/
theorem text_injective {o o' : Outline} (h : o.Plain) (h' : o'.Plain) (heq : o.text = o'.text) :
    o = o' :=
  (text_append_inj o h h' behind_nil behind_nil (by rw [heq])).1

end Outline

end Lox
