import Lox.Proofs.Matching.Reading
import Lox.Proofs.Syntax.Inside
import Lox.Proofs.Token.Spelling

/-!
# The seam between two sources

Two sources that are joined by a line end are cut into the segments of the one
and then those of the other: nothing but a string that is never closed goes
over the line end.  So the tokens of both together are those of the first and,
as many lines further down, those of the second.
-/

namespace Lox

namespace Segment

/-! ## Cutting before a line end -/

section LineEnd

variable {p : Char → Bool} (left right : List Char)

theorem takeWhile_lineEnd (h : p '\n' = false) :
    (left ++ '\n' :: right).takeWhile p = left.takeWhile p := by
  rw [List.takeWhile_append, List.takeWhile_cons_of_neg (by simp [h]), List.append_nil]
  split
  · rename_i hall
    exact ((List.takeWhile_prefix p).eq_of_length hall).symm
  · rfl

theorem dropWhile_lineEnd (h : p '\n' = false) :
    (left ++ '\n' :: right).dropWhile p = left.dropWhile p ++ '\n' :: right := by
  rw [List.dropWhile_append, List.dropWhile_cons_of_neg (by simp [h])]
  split
  · rename_i hnone
    rw [List.isEmpty_iff.1 hnone, List.nil_append]
  · rfl

end LineEnd

/-- The segment with more text behind what follows it. -/
def extend (segment : Segment) (text : List Char) : Segment :=
  { segment with rest := segment.rest ++ text }

variable (first : Char) (following right : List Char)

theorem run_extend (belongs : Char → Bool) (classify : List Char → Piece)
    (h : belongs '\n' = false) :
    run belongs classify first (following ++ '\n' :: right) =
      (run belongs classify first following).extend ('\n' :: right) := by
  simp only [run, extend, takeWhile_lineEnd following right h, dropWhile_lineEnd following right h]

theorem string_extend (text : List Char) (h : (string following).piece ≠ .unterminated) :
    string (following ++ text) = (string following).extend text := by
  unfold string at h ⊢
  split at h
  · exact absurd rfl h
  · rename_i quote rest hrest
    have hdrop : (following ++ text).dropWhile (· != '"') = quote :: (rest ++ text) := by
      simp [List.dropWhile_append, hrest]
    have htake : (following ++ text).takeWhile (· != '"') = following.takeWhile (· != '"') := by
      rw [List.takeWhile_append, if_neg]
      intro hall
      have hwhole := List.takeWhile_append_dropWhile (p := (· != '"')) (l := following)
      have hlength := congrArg List.length hwhole
      rw [List.length_append, hrest, hall, List.length_cons] at hlength
      omega
    simp only [hdrop, htake, extend]

theorem number_extend :
    number first (following ++ '\n' :: right) =
      (number first following).extend ('\n' :: right) := by
  have hdigit : Decimal.isDigit '\n' = false := by decide
  simp only [number, takeWhile_lineEnd following right hdigit,
    dropWhile_lineEnd following right hdigit]
  rcases following.dropWhile Decimal.isDigit with _ | ⟨c, _ | ⟨digit, more⟩⟩
  · rfl
  · by_cases hpoint : c = '.'
    · subst hpoint
      simp [hdigit, extend]
    · simp [hpoint, extend]
  · by_cases hpoint : c = '.'
    · subst hpoint
      cases hfirst : Decimal.isDigit digit with
      | true =>
          simp [hfirst, extend, takeWhile_lineEnd more right hdigit,
            dropWhile_lineEnd more right hdigit]
      | false => simp [hfirst, extend]
    · simp [hpoint, extend]

theorem slash_extend :
    slash (following ++ '\n' :: right) = (slash following).extend ('\n' :: right) := by
  match following with
  | [] => rfl
  | c :: more =>
    by_cases hslash : c = '/'
    · subst hslash
      exact run_extend '/' ('/' :: more) right (· != '\n') (fun _ => .comment) (by decide)
    · simp [slash, hslash, extend]

/-- The first segment of a text ends before a line end that is put behind the
text, unless it is a string without an end. -/
theorem ofText_extend (h : (ofText first following).piece ≠ .unterminated) :
    ofText first (following ++ '\n' :: right) =
      (ofText first following).extend ('\n' :: right) := by
  unfold ofText
  split
  · rfl
  · match following with
    | [] => rfl
    | c :: more =>
      by_cases hequal : c = '='
      · subst hequal
        rfl
      · simp [hequal, extend]
  · split
    · exact slash_extend following right
    · split
      · rename_i hquote
        obtain rfl := beq_iff_eq.1 hquote
        exact string_extend following _ h
      · split
        · rfl
        · split
          · exact number_extend first following right
          · split
            · exact run_extend first following right isWordCharacter _ (by decide)
            · rfl

/-! ## The segments of joined texts -/

/-- The segments of two texts with a line end between them. -/
theorem all_lineEnd (left right : List Char)
    (h : ∀ segment ∈ all left, segment.piece ≠ .unterminated) :
    all (left ++ '\n' :: right) =
      (all left).map (·.extend ('\n' :: right)) ++ ⟨.blank, ['\n'], right⟩ :: all right := by
  induction left using all.induct with
  | case1 =>
      rw [List.nil_append, all, all]
      rfl
  | case2 first following ih =>
      rw [all, List.forall_mem_cons] at h
      rw [List.cons_append, all, all, ofText_extend first following right h.1, List.map_cons,
        List.cons_append, ← ih h.2]
      rfl

/-- The segments of a text spell it. -/
theorem flatten_all (text : List Char) : ((all text).map Segment.text).flatten = text := by
  induction text using all.induct with
  | case1 => simp [all]
  | case2 first following ih => rw [all, List.map_cons, List.flatten_cons, ih, ofText_append]

/-! ## The items of segments -/

/-- The number of line ends in the segments. -/
def lineEnds (segments : List Segment) : Nat :=
  (segments.map Segment.text).flatten.count '\n'

theorem lineEnds_all (text : List Char) : lineEnds (all text) = text.count '\n' := by
  rw [lineEnds, flatten_all]

/-- What consecutive segments yield, without the end of the file. -/
def yields (line : Nat) : List Segment → List Item
  | [] => []
  | segment :: following =>
    let line := line + segment.text.count '\n'
    (segment.item? line).toList ++ yields line following

theorem lineEnds_cons (segment : Segment) (following : List Segment) :
    lineEnds (segment :: following) = segment.text.count '\n' + lineEnds following := by
  simp [lineEnds]

theorem items_eq (line : Nat) (segments : List Segment) :
    items line segments =
      yields line segments ++ [.ok (Token.ending (line + lineEnds segments))] := by
  induction segments generalizing line with
  | nil => rfl
  | cons segment following ih =>
      rw [items, yields, lineEnds_cons, ← Nat.add_assoc, ih, List.append_assoc]
      split
      · rename_i item hitem
        rw [hitem]
        rfl
      · rename_i hnone
        rw [hnone]
        rfl

theorem yields_append (line : Nat) (left right : List Segment) :
    yields line (left ++ right) = yields line left ++ yields (line + lineEnds left) right := by
  induction left generalizing line with
  | nil => rfl
  | cons segment following ih =>
      rw [List.cons_append, yields, yields, ih, lineEnds_cons, ← Nat.add_assoc, List.append_assoc]

/-- What follows a segment has no part in what it yields. -/
theorem yields_extend (line : Nat) (segments : List Segment) (text : List Char) :
    yields line (segments.map (·.extend text)) = yields line segments := by
  induction segments generalizing line with
  | nil => rfl
  | cons segment following ih =>
      rw [List.map_cons, yields, yields, ih]
      rfl

theorem lineEnds_extend (segments : List Segment) (text : List Char) :
    lineEnds (segments.map (·.extend text)) = lineEnds segments := by
  rw [lineEnds, lineEnds, List.map_map]
  rfl

/-- The items of two texts with a line end between them are those of the first
and those of the second from the line on where it starts. -/
theorem yields_lineEnd (line : Nat) (left right : List Char)
    (h : ∀ segment ∈ all left, segment.piece ≠ .unterminated) :
    yields line (all (left ++ '\n' :: right)) =
      yields line (all left) ++ yields (line + left.count '\n' + 1) (all right) := by
  rw [all_lineEnd left right h, yields_append, yields_extend, lineEnds_extend, lineEnds_all]
  rfl

/-- A text whose errors are all others has no string without an end. -/
theorem ne_unterminated_of_messages {line : Nat} {segments : List Segment}
    (h : ∀ diagnostic, .error diagnostic ∈ yields line segments →
      diagnostic.message ≠ "Unterminated string.") :
    ∀ segment ∈ segments, segment.piece ≠ .unterminated := by
  induction segments generalizing line with
  | nil => exact List.forall_mem_nil _
  | cons segment following ih =>
      simp only [yields, List.mem_append, Option.mem_toList] at h
      rw [List.forall_mem_cons]
      refine ⟨fun hpiece => ?_, ih fun diagnostic hmem => h diagnostic (.inr hmem)⟩
      exact h _ (.inl (by rw [item?, hpiece])) rfl

/-- A text without lexical errors has no string without an end. -/
theorem ne_unterminated_of_clean (line : Nat) (segments : List Segment)
    (h : (yields line segments).filterMap Item.diagnostic? = []) :
    ∀ segment ∈ segments, segment.piece ≠ .unterminated := by
  refine ne_unterminated_of_messages
    fun diagnostic (hmem : .error diagnostic ∈ yields line segments) => ?_
  have hfound : diagnostic ∈ (yields line segments).filterMap Item.diagnostic? :=
    List.mem_filterMap.2 ⟨_, hmem, rfl⟩
  rw [h] at hfound
  cases hfound

theorem inside_item? (line : Nat) (first : Char) (following : List Char) (token : Token)
    (h : (ofText first following).item? line = some (.ok token)) : ¬ token.is .endOfFile := by
  have hne := ofText_ne_endOfFile first following
  unfold item? at h
  split at h <;> simp at h
  rename_i kind hkind
  subst h
  rw [hkind] at hne
  cases kind <;> simp_all [Token.is]

/-- The end of the file is the last of the tokens only. -/
theorem inside_yields (line : Nat) (text : List Char) :
    Grammar.Inside ((yields line (all text)).filterMap Item.token?) := by
  induction text using all.induct generalizing line with
  | case1 =>
      rw [all, yields]
      exact .nil
  | case2 first following ih =>
      rw [all, yields, List.filterMap_append]
      refine .append (fun token htoken => ?_) (ih _)
      obtain ⟨item, hitem, hsome⟩ := List.mem_filterMap.1 htoken
      cases item with
      | error diagnostic => cases hsome
      | ok other =>
          cases hsome
          exact inside_item? _ first following token (Option.mem_toList.1 hitem)

end Segment

/-! ## Items on later lines -/

/-- The token, so many lines further down. -/
def Token.later (shift : Nat) (token : Token) : Token :=
  { token with line := token.line + shift }

/-- The error, so many lines further down. -/
def Diagnostic.later (shift : Nat) : Diagnostic → Diagnostic
  | lexical line error => lexical (line + shift) error
  | syntactic token error => syntactic (token.later shift) error
  | scoping token error => scoping (token.later shift) error

/-- The item, so many lines further down. -/
def Item.later (shift : Nat) : Item → Item
  | .ok token => .ok (token.later shift)
  | .error diagnostic => .error (diagnostic.later shift)

namespace Segment

theorem item?_add (shift line : Nat) (segment : Segment) :
    segment.item? (line + shift) = (segment.item? line).map (Item.later shift) := by
  unfold item?
  split <;> rfl

/-- The same segments on later lines yield the same items, on later lines. -/
theorem items_add (shift line : Nat) (segments : List Segment) :
    items (line + shift) segments = (items line segments).map (Item.later shift) := by
  induction segments generalizing line with
  | nil => rfl
  | cons segment following ih =>
      rw [items, items, Nat.add_right_comm, item?_add, ih]
      cases segment.item? (line + segment.text.count '\n') <;> rfl

end Segment

namespace Item

/-- The items of a source, and those of another one behind it from the next line on:
nothing goes over the line end between them but a string that is never closed. -/
theorem ofSource_append_lineEnd {first : String} (second : String)
    (h : ∀ diagnostic, .error diagnostic ∈ ofSource first →
      diagnostic.message ≠ "Unterminated string.") :
    let lines := 1 + first.toList.count '\n'
    ofSource first = (ofSource first).dropLast ++ [.ok (Token.ending lines)] ∧
      ofSource (first ++ "\n" ++ second) =
        (ofSource first).dropLast ++ (ofSource second).map (later lines) := by
  intro lines
  have hfirst : ofSource first =
      Segment.yields 1 (Segment.all first.toList) ++ [.ok (Token.ending lines)] := by
    rw [ofSource, Segment.items_eq, Segment.lineEnds_all]
  have hdrop : (ofSource first).dropLast = Segment.yields 1 (Segment.all first.toList) := by
    rw [hfirst, List.dropLast_concat]
  have hclosed : ∀ segment ∈ Segment.all first.toList, segment.piece ≠ .unterminated := by
    apply Segment.ne_unterminated_of_messages
    intro diagnostic hmem
    exact h diagnostic (hfirst ▸ List.mem_append_left _ hmem)
  have htext : (first ++ "\n" ++ second).toList = first.toList ++ '\n' :: second.toList := by
    simp
  refine ⟨by rw [hdrop, ← hfirst], ?_⟩
  have hlines : 1 + (first.toList ++ '\n' :: second.toList).count '\n' =
      1 + lines + second.toList.count '\n' := by
    rw [List.count_append, List.count_cons_self]
    omega
  have hyields := Segment.yields_lineEnd 1 first.toList second.toList hclosed
  rw [Nat.add_right_comm, Nat.add_assoc 1] at hyields
  calc ofSource (first ++ "\n" ++ second)
    _ = Segment.yields 1 (Segment.all first.toList) ++
          Segment.items (1 + lines) (Segment.all second.toList) := by
      rw [ofSource, htext, Segment.items_eq, hyields, List.append_assoc, Segment.items_eq,
        Segment.lineEnds_all, Segment.lineEnds_all, hlines]
    _ = (ofSource first).dropLast ++ (ofSource second).map (later lines) := by
      rw [Segment.items_add, hdrop, ofSource]

/-- The first text ends after a point that is no part of the number before it, and the
second begins with a digit; an error stands behind a string over a line end. -/
theorem ofSource_append_lineEnd_of_point :
    let first := "\"\n\"@1."
    let second := "5"
    let one := Decimal.ofNumeral ['1']
    let five := Decimal.ofNumeral ['5']
    (∀ diagnostic, .error diagnostic ∈ ofSource first →
        diagnostic.message ≠ "Unterminated string.") ∧
      ofSource (first ++ "\n" ++ second) =
        [.ok ⟨.text "\n", "\"\n\"", 2⟩, .error (.lexical 2 (.unexpected '@')),
          .ok ⟨.number one, "1", 2⟩, .ok ⟨.symbol .dot, ".", 2⟩, .ok ⟨.number five, "5", 3⟩,
          .ok (Token.ending 3)] := by
  intro first second one five
  have hfirst : ofSource first = [.ok ⟨.text "\n", "\"\n\"", 2⟩,
      .error (.lexical 2 (.unexpected '@')), .ok ⟨.number one, "1", 2⟩,
      .ok ⟨.symbol .dot, ".", 2⟩, .ok (Token.ending 2)] := by
    have htext : first.toList = ['"', '\n', '"', '@', '1', '.'] := by decide
    have hstring : Segment.ofText '"' ['\n', '"', '@', '1', '.'] =
        ⟨.token (.text "\n"), ['"', '\n', '"'], ['@', '1', '.']⟩ := rfl
    have hunexpected : Segment.ofText '@' ['1', '.'] = ⟨.unexpected '@', ['@'], ['1', '.']⟩ := rfl
    have hnumber : Segment.ofText '1' ['.'] = ⟨.token (.number one), ['1'], ['.']⟩ := rfl
    have hpoint : Segment.ofText '.' [] = ⟨.token (.symbol .dot), ['.'], []⟩ := rfl
    rw [ofSource, htext, Segment.all, hstring, Segment.all, hunexpected, Segment.all, hnumber,
      Segment.all, hpoint, Segment.all]
    rfl
  have hsecond : ofSource second = [.ok ⟨.number five, "5", 1⟩, .ok (Token.ending 1)] := by
    have htext : second.toList = ['5'] := by decide
    have hnumber : Segment.ofText '5' [] = ⟨.token (.number five), ['5'], []⟩ := rfl
    rw [ofSource, htext, Segment.all, hnumber, Segment.all]
    rfl
  have hmessages : ∀ diagnostic, .error diagnostic ∈ ofSource first →
      diagnostic.message ≠ "Unterminated string." := by
    intro diagnostic hmem
    simp only [hfirst, List.mem_cons, reduceCtorEq, Except.error.injEq, List.not_mem_nil, or_false,
      false_or] at hmem
    subst hmem
    decide
  obtain ⟨-, hjoined⟩ := ofSource_append_lineEnd second hmessages
  have hlines : 1 + first.toList.count '\n' = 2 := by decide
  refine ⟨hmessages, hjoined.trans ?_⟩
  rw [hfirst, hsecond, hlines]
  rfl

end Item

/-! ## Streams -/

/-- The tokens of a source and its lexical errors are what its segments yield. -/
theorem TokenStream.ofSource_eq (source : String) :
    ofSource source =
      let items := Segment.yields 1 (Segment.all source.toList)
      (⟨items.filterMap Item.token?, Token.ending (1 + source.toList.count '\n')⟩,
        items.filterMap Item.diagnostic?) := by
  have hitems : Item.ofSource source = Segment.yields 1 (Segment.all source.toList) ++
      [.ok (Token.ending (1 + source.toList.count '\n'))] := by
    rw [Item.ofSource, Segment.items_eq, Segment.lineEnds_all]
  have hinside := Segment.inside_yields 1 source.toList
  have hending : (Token.ending (1 + source.toList.count '\n')).is .endOfFile := rfl
  have hlast : [Except.ok (Token.ending (1 + source.toList.count '\n'))].filterMap
      Item.diagnostic? = [] := rfl
  simp only [ofSource, hitems, List.filterMap_append, hlast, List.append_nil]
  exact congrArg (·, _) (ofTokens_append hending hinside)

theorem TokenStream.ending_ofSource (source : String) :
    (ofSource source).1.ending.is .endOfFile := by
  rw [ofSource_eq]
  rfl

/-- The same item on corresponding lines. -/
inductive Item.Matches (c : Correspondence) : Item → Item → Prop where
  | token {token token' : Token} (h : token.Matches c token') : Matches c (.ok token) (.ok token')
  | diagnostic {diagnostic diagnostic' : Diagnostic} (h : diagnostic.Matches c diagnostic') :
    Matches c (.error diagnostic) (.error diagnostic')

section Later

variable {c : Correspondence} {items items' : List Item}

theorem Item.tokens_match (h : List.Forall₂ (Matches c) items items') :
    List.Forall₂ (Token.Matches c) (items.filterMap token?) (items'.filterMap token?) := by
  refine List.rel_filterMap (fun item item' hitem => ?_) h
  cases hitem with
  | token htoken => exact .some htoken
  | diagnostic _ => exact .none

theorem Item.diagnostics_match (h : List.Forall₂ (Matches c) items items') :
    List.Forall₂ (Diagnostic.Matches c) (items.filterMap diagnostic?)
      (items'.filterMap diagnostic?) := by
  refine List.rel_filterMap (fun item item' hitem => ?_) h
  cases hitem with
  | token _ => exact .none
  | diagnostic hdiagnostic => exact .some hdiagnostic

theorem Segment.item?_later {shift : Nat} (hlines : ∀ line, c.lines line (line + shift))
    (line : Nat) (segment : Segment) :
    Option.Rel (Item.Matches c) (segment.item? line) (segment.item? (line + shift)) := by
  unfold item?
  split
  · exact .some (.token ⟨rfl, rfl, hlines line⟩)
  · exact .some (.diagnostic (.lexical _ (hlines line)))
  · exact .some (.diagnostic (.lexical _ (hlines line)))
  · exact .none
  · exact .none

/-- The same segments on later lines yield the same, on later lines. -/
theorem Segment.yields_later {shift : Nat} (hlines : ∀ line, c.lines line (line + shift))
    (line : Nat) (segments : List Segment) :
    List.Forall₂ (Item.Matches c) (yields line segments) (yields (line + shift) segments) := by
  induction segments generalizing line with
  | nil => exact .nil
  | cons segment following ih =>
      rw [yields, yields, Nat.add_right_comm]
      exact List.rel_append (forall₂_toList (segment.item?_later hlines _)) (ih _)

/-- The tokens of two sources with a line end between them are those of the first
and, on later lines, those of the second. -/
theorem TokenStream.ofSource_lineEnd {first : String} (second : String)
    (hlines : ∀ line, c.lines line (line + (first.toList.count '\n' + 1)))
    (hclean : (ofSource first).2 = []) :
    ∃ later diagnostics,
      ofSource (first ++ "\n" ++ second) =
          (⟨(ofSource first).1.body ++ later.body, later.ending⟩, diagnostics) ∧
        (ofSource second).1.Matches c later ∧
        List.Forall₂ (Diagnostic.Matches c) (ofSource second).2 diagnostics := by
  have htext : (first ++ "\n" ++ second).toList = first.toList ++ '\n' :: second.toList := by
    simp
  have hlater := Segment.yields_later hlines 1 (Segment.all second.toList)
  rw [← Nat.add_assoc] at hlater
  simp only [ofSource_eq first] at hclean
  have hjoined := Segment.yields_lineEnd 1 first.toList second.toList
    (Segment.ne_unterminated_of_clean 1 _ hclean)
  have hending : (Token.ending (1 + second.toList.count '\n')).Matches c
      (Token.ending (1 + (first ++ "\n" ++ second).toList.count '\n')) := by
    refine ⟨rfl, rfl, ?_⟩
    have hcount : 1 + (first ++ "\n" ++ second).toList.count '\n' =
        1 + second.toList.count '\n' + (first.toList.count '\n' + 1) := by
      rw [htext, List.count_append, List.count_cons_self]
      omega
    rw [hcount]
    exact hlines _
  simp only [ofSource_eq first, ofSource_eq second]
  refine ⟨⟨_, _⟩, _, ?_, ⟨Item.tokens_match hlater, hending⟩, Item.diagnostics_match hlater⟩
  simp only [ofSource_eq (first ++ "\n" ++ second), htext, hjoined, List.filterMap_append, hclean,
    List.nil_append]
  rfl

end Later

end Lox
