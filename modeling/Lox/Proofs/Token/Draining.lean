import Lox.Proofs.Token.Scanning

/-!
# Draining the scanner

The scanner on bytes cuts the source into the segments of its text and yields
their items, and the end of the file last: it never looks outside the source,
never slices within a character and never stands still.
-/

namespace Lox

namespace Scanner

/-! ## Runs -/

section Runs

variable {library : Library} {source : String} {scanner : Scanner} {before : List Char}

theorem At.size_eq {after : List Char} (h : At source before after scanner) :
    size source = scanner.current + (octets after).length :=
  h.stands.size

/-- Beyond the end there is nothing more. -/
theorem next_beyond (h : size source < scanner.current) :
    next library source scanner = .ok none scanner := by
  unfold next
  refine loop_done ?_
  simp only [bind_run, get_run, h, if_true]
  rfl

/-- At the end of the source the end of the file is given. -/
theorem At.next_nil (h : At source before [] scanner) :
    next library source scanner =
      .ok (some (.ok (Token.ending scanner.line))) (scanner.forward 1 0) := by
  have hsize : size source = scanner.current := h.size_eq
  unfold next
  refine loop_done ?_
  simp only [bind_run, get_run, hsize, Nat.lt_irrefl, if_false, if_true]
  rfl

theorem At.remaining_lt {text rest : List Char} {after : Scanner}
    (h : At source before (text ++ rest) scanner) (hafter : At source (before ++ text) rest after)
    (htext : text ≠ []) : remaining source after < remaining source scanner := by
  have hpos : 0 < (octets text).length := by
    rw [List.length_pos_iff, Ne, ← List.isEmpty_iff, isEmpty_octets, List.isEmpty_iff]
    exact htext
  have hsize := hafter.size_eq
  have hcurrent := hafter.current
  rw [octets_append, List.length_append, ← h.current] at hcurrent
  rw [remaining, remaining]
  omega

/-- The next item is that of the segment ahead, or of what is behind it. -/
theorem At.next_cons {first : Char} {following : List Char} (hlibrary : library.Documented)
    (h : At source before (first :: following) scanner) :
    let segment := Segment.ofText first following
    let line := scanner.line + segment.text.count '\n'
    ∃ after, after.line = line ∧ At source (before ++ segment.text) segment.rest after ∧
      remaining source after < remaining source scanner ∧
      next library source scanner =
        match segment.item? line with
        | some item => .ok (some item) after
        | none => next library source after := by
  obtain ⟨after, hturn, hline, hafter⟩ := h.turn hlibrary
  have hlt : remaining source after < remaining source scanner := by
    rw [← Segment.ofText_append first following] at h
    exact h.remaining_lt hafter (Segment.text_ofText_ne_nil first following)
  have hinside : scanner.current < size source := by
    have hsize := hafter.size_eq
    rw [remaining, remaining] at hlt
    omega
  refine ⟨after, hline, hafter, hlt, ?_⟩
  unfold next
  split
  · rename_i item hitem
    refine loop_done ?_
    simp only [bind_run, get_run, Nat.lt_asymm hinside, Nat.ne_of_lt hinside, if_false, hturn,
      hitem]
    rfl
  · rename_i hitem
    refine loop_yield ?_ hlt
    simp only [bind_run, get_run, Nat.lt_asymm hinside, Nat.ne_of_lt hinside, if_false, hturn,
      hitem]
    rfl

theorem drainStep_run (items : List Item) :
    drainStep library source items scanner =
      match next library source scanner with
      | .ok (some item) after => .ok (.yield (items ++ [item])) after
      | .ok none after => .ok (.done items) after
      | .error fault after => .error fault after := by
  rw [drainStep, bind_run]
  rcases next library source scanner with ⟨_ | item, after⟩ | ⟨fault, after⟩ <;> rfl

/-- Draining gives the items of all segments ahead, and then there is no more. -/
theorem At.drain (hlibrary : library.Documented) {rest : List Char}
    (h : At source before rest scanner) (items : List Item) :
    ∃ last, loop source (drainStep library source) items scanner =
        .ok (items ++ Segment.items scanner.line (Segment.all rest)) last ∧
      size source < last.current := by
  induction rest using Segment.all.induct generalizing before scanner items with
  | case1 =>
      have hsize : size source = scanner.current := h.size_eq
      have hbeyond : size source < (scanner.forward 1 0).current := by
        rw [hsize]
        exact Nat.lt_succ_self _
      have hlt : remaining source (scanner.forward 1 0) < remaining source scanner := by
        simp only [remaining, hsize, Scanner.forward]
        omega
      have hending : drainStep library source items scanner =
          .ok (.yield (items ++ [.ok (Token.ending scanner.line)])) (scanner.forward 1 0) := by
        rw [drainStep_run, h.next_nil]
      refine ⟨_, (loop_yield hending hlt).trans (loop_done ?_), hbeyond⟩
      rw [drainStep_run, next_beyond hbeyond, Segment.all, Segment.items]
  | case2 first following ih =>
      obtain ⟨after, hline, hafter, hlt, hnext⟩ := h.next_cons hlibrary
      rw [Segment.all, Segment.items]
      split
      · rename_i item hitem
        have hstep : drainStep library source items scanner =
            .ok (.yield (items ++ [item])) after := by
          rw [drainStep_run, hnext, hitem]
        obtain ⟨last, hlast, hbeyond⟩ := ih hafter (items ++ [item])
        refine ⟨last, (loop_yield hstep hlt).trans (hlast.trans ?_), hbeyond⟩
        rw [List.append_assoc, hline]
        rfl
      · rename_i hitem
        have hstep : drainStep library source items scanner =
            drainStep library source items after := by
          rw [drainStep_run, drainStep_run, hnext, hitem]
        obtain ⟨last, hlast, hbeyond⟩ := ih hafter items
        refine ⟨last, loop_of_eq hstep (Nat.le_of_lt hlt) (hlast.trans ?_), hbeyond⟩
        rw [hline]

/-- The segments with what they yield. -/
def cutsOf (line : Nat) : List Segment → List Cut
  | [] => []
  | segment :: following =>
    let line := line + segment.text.count '\n'
    ⟨String.ofList segment.text, segment.item? line⟩ :: cutsOf line following

/-- The scanner cuts off the segments of the text ahead. -/
theorem At.cuts (hlibrary : library.Documented) {rest : List Char}
    (h : At source before rest scanner) :
    ∃ last, Cuts library source scanner (cutsOf scanner.line (Segment.all rest)) last ∧
      last.line = scanner.line + rest.count '\n' ∧ last.current = size source := by
  induction rest using Segment.all.induct generalizing before scanner with
  | case1 =>
      rw [Segment.all]
      exact ⟨scanner, .nil scanner, rfl, h.size_eq.symm⟩
  | case2 first following ih =>
      obtain ⟨after, hturn, hline, hafter⟩ := h.turn hlibrary
      obtain ⟨last, hcuts, hlast, hend⟩ := ih hafter
      have hparts : source.toList = before ++ (Segment.ofText first following).text ++
          (Segment.ofText first following).rest := hafter.text
      have htext : slice? source scanner.current after.current =
          some (String.ofList (Segment.ofText first following).text) := by
        rw [h.current, hafter.current, slice?_octets hparts]
      rw [hline] at hcuts hlast
      rw [Segment.all]
      refine ⟨last, .cons hturn htext hcuts, ?_, hend⟩
      rw [hlast, Nat.add_assoc, ← List.count_append, Segment.ofText_append]

end Runs

/-! ## The cuts of a source -/

theorem text_cutsOf (line : Nat) (segments : List Segment) :
    (cutsOf line segments).map (·.text.toList) = segments.map Segment.text := by
  induction segments generalizing line with
  | nil => rfl
  | cons segment following ih =>
      rw [cutsOf, List.map_cons, List.map_cons, ih, String.toList_ofList]

theorem item?_cutsOf (line : Nat) (segments : List Segment) :
    (cutsOf line segments).filterMap Cut.item? = Segment.yields line segments := by
  induction segments generalizing line with
  | nil => rfl
  | cons segment following ih =>
      rw [cutsOf, Segment.yields, List.filterMap_cons, ih]
      dsimp only
      cases segment.item? (line + segment.text.count '\n') <;> rfl

/-- One of the cuts is one of the segments. -/
theorem cutsOf_split {line : Nat} {segments : List Segment} {before behind : List Cut} {cut : Cut}
    (h : cutsOf line segments = before ++ cut :: behind) :
    ∃ earlier segment later, segments = earlier ++ segment :: later ∧
      cut = ⟨String.ofList segment.text,
        segment.item? (line + Segment.lineEnds (earlier ++ [segment]))⟩ ∧
      before = cutsOf line earlier ∧
      behind = cutsOf (line + Segment.lineEnds (earlier ++ [segment])) later := by
  induction before generalizing line segments with
  | nil =>
      cases segments with
      | nil => cases h
      | cons segment later =>
          obtain ⟨rfl, rfl⟩ := List.cons.inj h
          have hcount : Segment.lineEnds ([] ++ [segment]) = segment.text.count '\n' := by
            simp [Segment.lineEnds]
          refine ⟨[], segment, later, rfl, ?_, rfl, ?_⟩ <;> rw [hcount]
  | cons earliest before ih =>
      cases segments with
      | nil => cases h
      | cons first segments =>
          rw [cutsOf, List.cons_append] at h
          obtain ⟨rfl, hcuts⟩ := List.cons.inj h
          obtain ⟨earlier, segment, later, rfl, rfl, rfl, rfl⟩ := ih hcuts
          refine ⟨first :: earlier, segment, later, rfl, ?_, rfl, ?_⟩ <;>
            rw [List.cons_append, Segment.lineEnds_cons, Nat.add_assoc]

/-- The line on which the last of the cuts ends. -/
def lineBehind (cuts : List Cut) : Nat :=
  1 + (cuts.map (·.text.toList)).flatten.count '\n'

theorem lineBehind_cutsOf (earlier : List Segment) (segment : Segment) (item? : Option Item) :
    lineBehind (cutsOf 1 earlier ++ [⟨String.ofList segment.text, item?⟩]) =
      1 + Segment.lineEnds (earlier ++ [segment]) := by
  rw [lineBehind, Segment.lineEnds, List.map_append, text_cutsOf, List.map_append,
    List.map_singleton, List.map_singleton, String.toList_ofList]

/-- What a cut that ends on a line can be, with these cuts behind it: a token has the
cut for its lexeme, an error is one character or a string without an end, and only
a blank or a comment gives nothing. -/
inductive Cut.Fits (line : Nat) (behind : List Cut) : Cut → Prop where
  | token {kind : Kind} {text : String} (h : ¬ (Token.mk kind text line).is .endOfFile) :
    Fits line behind ⟨text, some (.ok ⟨kind, text, line⟩)⟩
  | unexpected (c : Char) :
    Fits line behind ⟨String.ofList [c], some (.error (.lexical line (.unexpected c)))⟩
  | unterminated {content : List Char} (h : '"' ∉ content) (hlast : behind = []) :
    Fits line behind
      ⟨String.ofList ('"' :: content), some (.error (.lexical line .unterminatedString))⟩
  | blank {c : Char} (h : c ∈ [' ', '\t', '\r', '\n']) : Fits line behind ⟨String.ofList [c], none⟩
  | comment {content : List Char} (h : '\n' ∉ content) :
    Fits line behind ⟨String.ofList ('/' :: '/' :: content), none⟩

theorem fits_ofText (first : Char) (following : List Char) (line : Nat) :
    let segment := Segment.ofText first following
    Cut.Fits line (cutsOf line (Segment.all segment.rest))
      ⟨String.ofList segment.text, segment.item? line⟩ := by
  have hinside := Segment.inside_item? line first following
  rcases Segment.lexeme_ofText first following with hlexeme | ⟨rfl, hopen, hsegment⟩ | ⟨-, hsegment⟩
  · unfold Segment.item? at hinside ⊢
    generalize Segment.ofText first following = segment at hlexeme hinside
    obtain ⟨piece, text, rest⟩ := segment
    cases piece with
    | token kind => exact .token (hinside _ rfl)
    | blank =>
        cases hlexeme with
        | blank hblank => exact .blank hblank
    | comment =>
        cases hlexeme with
        | comment hcontent => exact .comment hcontent
    | unterminated => cases hlexeme
    | unexpected c => cases hlexeme
  · rw [hsegment]
    exact .unterminated hopen (by rw [Segment.all, cutsOf])
  · rw [hsegment]
    exact .unexpected first

/-- Draining the scanner ends, without a fault, with the items of the source.  It
has cut the source into stretches, in order and with nothing left out; and after
the end of the file, which is the last item, there is no more. -/
theorem drain_source {library : Library} (hlibrary : library.Documented) (source : String) :
    ∃ cuts last after,
      drain library source initial = .ok (Item.ofSource source) after ∧
        next library source after = .ok none after ∧
        Item.ofSource source =
          cuts.filterMap Cut.item? ++ [.ok (Token.ending (1 + source.toList.count '\n'))] ∧
        Cuts library source initial cuts last ∧ last.current = size source ∧
        (cuts.map (·.text.toList)).flatten = source.toList ∧
        ∀ before cut behind, cuts = before ++ cut :: behind →
          Cut.Fits (lineBehind (before ++ [cut])) behind cut := by
  have hinitial : At source [] source.toList initial := ⟨rfl, rfl⟩
  obtain ⟨after, hdrain, hbeyond⟩ := hinitial.drain hlibrary []
  obtain ⟨last, hcuts, -, hlast⟩ := hinitial.cuts hlibrary
  have hfirst : initial.line = 1 := rfl
  rw [hfirst] at hcuts
  refine ⟨_, last, after, hdrain, next_beyond hbeyond, ?_, hcuts, hlast, ?_, ?_⟩
  · rw [item?_cutsOf, Item.ofSource, Segment.items_eq, Segment.lineEnds_all]
  · rw [text_cutsOf, Segment.flatten_all]
  · intro before cut behind hsplit
    obtain ⟨earlier, segment, later, hall, hcut, hbefore, hbehind⟩ := cutsOf_split hsplit
    obtain ⟨first, following, hsegment, hlater, -⟩ := Segment.all_split hall
    rw [hcut, hbefore, hbehind, lineBehind_cutsOf, hsegment, hlater, hsegment]
    exact fits_ofText first following _

/-- The library routines, by searching lists. -/
def Library.byLists : Library where
  position? byte tail := tail.findIdx? (· == byte)
  reserved? word := (Symbol.reserved.find? (bytes ·.1 == word)).map Prod.snd

theorem documented_byLists : Library.byLists.Documented where
  position? _ _ := rfl
  reserved? word symbol := by
    have hword : ∀ entry ∈ Symbol.reserved, entry.2 = Symbol.ofWord entry.1 := by decide
    rw [Library.byLists, Option.map_eq_some_iff]
    constructor
    · rintro ⟨⟨name, _⟩, hfind, rfl⟩
      exact ⟨name, List.mem_of_find?_eq_some hfind, by simpa using List.find?_some hfind⟩
    · rintro ⟨name, hmem, rfl⟩
      cases hfind : Symbol.reserved.find? (bytes ·.1 == bytes name) with
      | none => simpa using List.find?_eq_none.1 hfind _ hmem
      | some entry =>
          have hname : entry.1 = name := by
            have hbytes : bytes entry.1 = bytes name := by simpa using List.find?_some hfind
            rw [bytes_eq name, bytes_eq_octets_iff, String.ofList_toList] at hbytes
            exact hbytes
          refine ⟨entry, rfl, ?_⟩
          rw [hword _ (List.mem_of_find?_eq_some hfind), hname]
          exact (hword _ hmem).symm

/-- A string over a line end with a character beyond ASCII in it, another that
begins nothing and a comment that the source ends with. -/
theorem drain_source_of_lines :
    let source := "\"\u00E9\n\"\u20AC//"
    let items : List Item :=
      [.ok ⟨.text "\u00E9\n", "\"\u00E9\n\"", 2⟩, .error (.lexical 2 (.unexpected '\u20AC')),
        .ok (Token.ending 2)]
    Library.byLists.Documented ∧
      ∃ after, drain Library.byLists source initial = .ok items after ∧
        next Library.byLists source after = .ok none after := by
  intro source items
  have hitems : Item.ofSource source = items := by
    have htext : source.toList = ['"', '\u00E9', '\n', '"', '\u20AC', '/', '/'] := by decide
    have hstring : Segment.ofText '"' ['\u00E9', '\n', '"', '\u20AC', '/', '/'] =
        ⟨.token (.text "\u00E9\n"), ['"', '\u00E9', '\n', '"'], ['\u20AC', '/', '/']⟩ := rfl
    have hunexpected : Segment.ofText '\u20AC' ['/', '/'] =
        ⟨.unexpected '\u20AC', ['\u20AC'], ['/', '/']⟩ := rfl
    have hcomment : Segment.ofText '/' ['/'] = ⟨.comment, ['/', '/'], []⟩ := rfl
    rw [Item.ofSource, htext, Segment.all, hstring, Segment.all, hunexpected, Segment.all,
      hcomment, Segment.all]
    rfl
  obtain ⟨cuts, last, after, hdrain, hnext, -⟩ := drain_source documented_byLists source
  rw [hitems] at hdrain
  exact ⟨documented_byLists, after, hdrain, hnext⟩

end Scanner

end Lox
