import Lox.Proofs.Sequencing
import Lox.Proofs.Token.Longest
import Lox.Proofs.Token.Scanner

/-!
# Scanning a segment

From the first byte of a segment, the scanner on bytes comes to the end of the
segment, with its token or error.  Each of its functions is followed on the
characters of the source: what it reads is a character of the source or a byte
of one, and where it slices the source it stands between characters.
-/

namespace Lox

namespace Scanner

open Segment (single? paired? isLetter isWordCharacter distinguished undistinguished)

/-! ## Steps -/

section Steps

variable {α β : Type} (scanner : Scanner)

theorem pure_run (value : α) : (pure value : Scan α) scanner = .ok value scanner := rfl

theorem bind_run (part : Scan α) (rest : α → Scan β) :
    (part >>= rest) scanner =
      match part scanner with
      | .ok value after => rest value after
      | .error fault after => .error fault after := by
  cases h : part scanner with
  | ok value after => exact bind_of_ok h
  | error fault after => exact bind_of_error h

theorem get_run : (get : Scan Scanner) scanner = .ok scanner scanner := rfl

theorem set_run (other : Scanner) : (set other : Scan PUnit) scanner = .ok ⟨⟩ other := rfl

theorem modify_run (change : Scanner → Scanner) :
    (modify change : Scan PUnit) scanner = .ok ⟨⟩ (change scanner) := rfl

end Steps

/-! ## Standing between bytes -/

/-- So many bytes and lines further on. -/
def forward (scanner : Scanner) (count lines : Nat) : Scanner :=
  { scanner with current := scanner.current + count, line := scanner.line + lines }

theorem forward_forward (scanner : Scanner) (count lines count' lines' : Nat) :
    (scanner.forward count lines).forward count' lines' =
      scanner.forward (count + count') (lines + lines') := by
  simp only [forward, Nat.add_assoc]

/-- The scanner has come to the byte between these two parts of its source. -/
structure Stands (source : String) (front tail : List UInt8) (scanner : Scanner) : Prop where
  bytes : bytes source = front ++ tail
  current : scanner.current = front.length

section Stands

variable {source : String} {front tail : List UInt8} {byte : UInt8} {scanner : Scanner}

theorem Stands.size (h : Stands source front tail scanner) :
    size source = scanner.current + tail.length := by
  rw [Scanner.size, h.bytes, h.current, List.length_append]

theorem Stands.getElem? (h : Stands source front tail scanner) (offset : Nat) :
    (Lox.bytes source)[scanner.current + offset]? = tail[offset]? := by
  rw [h.bytes, h.current, List.getElem?_append_right (Nat.le_add_right ..), Nat.add_sub_cancel_left]

theorem Stands.forward (h : Stands source front (byte :: tail) scanner) (lines : Nat) :
    Stands source (front ++ [byte]) tail (scanner.forward 1 lines) where
  bytes := by rw [h.bytes, List.append_assoc, List.singleton_append]
  current := by rw [Scanner.forward, h.current, List.length_append, List.length_singleton]

theorem Stands.atEnd (h : Stands source front tail scanner) :
    atEnd source scanner = .ok tail.isEmpty scanner := by
  have hend : decide (Scanner.size source ≤ scanner.current) = tail.isEmpty := by
    rw [h.size, Bool.eq_iff_iff, decide_eq_true_eq, List.isEmpty_iff, ← List.length_eq_zero_iff]
    omega
  simp only [Scanner.atEnd, bind_run, get_run, pure_run, hend]

theorem Stands.advance (h : Stands source front (byte :: tail) scanner) :
    advance source scanner = .ok byte (scanner.forward 1 0) := by
  have hbyte := h.getElem? 0
  rw [Nat.add_zero, List.getElem?_cons_zero] at hbyte
  simp only [Scanner.advance, bind_run, get_run, byteAt, hbyte]
  rfl

theorem Stands.peekAt (h : Stands source front tail scanner) (offset : Nat) :
    peekAt source offset scanner = .ok ((tail.drop offset).headD 0) scanner := by
  simp only [Scanner.peekAt, bind_run, get_run]
  split
  · rename_i hend
    rw [h.size] at hend
    rw [List.drop_eq_nil_of_le (by omega)]
    rfl
  · rename_i hinside
    rw [h.size] at hinside
    have hlt : offset < tail.length := by omega
    rw [byteAt, h.getElem?, List.getElem?_eq_getElem hlt, List.drop_eq_getElem_cons hlt]
    rfl

theorem Stands.peek (h : Stands source front tail scanner) :
    peek source scanner = .ok (tail.headD 0) scanner :=
  h.peekAt 0

theorem Stands.peekNext (h : Stands source front tail scanner) :
    peekNext source scanner = .ok ((tail.drop 1).headD 0) scanner :=
  h.peekAt 1

theorem Stands.remaining_lt (h : Stands source front (byte :: tail) scanner) (lines : Nat) :
    remaining source (scanner.forward 1 lines) < remaining source scanner := by
  rw [remaining, remaining, h.size, Scanner.forward]
  simp only [List.length_cons]
  omega

end Stands

/-! ## Loops -/

section Loop

variable {α : Type} {source : String} {step : α → Scan (ForInStep α)} {value result : α}
variable {scanner after : Scanner}

theorem loop_done (h : step value scanner = .ok (.done result) after) :
    loop source step value scanner = .ok result after := by
  rw [loop, h]

theorem loop_yield (h : step value scanner = .ok (.yield result) after)
    (hlt : remaining source after < remaining source scanner) :
    loop source step value scanner = loop source step result after := by
  rw [loop, h]
  exact if_pos hlt

/-- A loop that starts further back, but whose first step is the same, ends the
same. -/
theorem loop_of_eq {other last : Scanner} (h : step value scanner = step value other)
    (hle : remaining source other ≤ remaining source scanner)
    (hok : loop source step value other = .ok result last) :
    loop source step value scanner = .ok result last := by
  rw [loop] at hok
  rw [loop, h]
  split at hok
  · exact hok
  · split at hok
    · rename_i hlt
      rw [if_pos (Nat.lt_of_lt_of_le hlt hle)]
      exact hok
    · cases hok
  · cases hok

end Loop

theorem Stands.skipWhile {source : String} {front tail : List UInt8} {scanner : Scanner}
    {belongs : Char → Bool} (h : Stands source front tail scanner)
    (hzero : belongs (Char.ofUInt8 0) = false) :
    skipWhile source belongs scanner =
      .ok () (scanner.forward (tail.takeWhile (belongs ∘ Char.ofUInt8)).length 0) := by
  unfold Scanner.skipWhile
  induction tail generalizing front scanner with
  | nil =>
      refine loop_done ?_
      simp only [bind_run, h.peek, List.headD_nil, hzero]
      rfl
  | cons byte tail ih =>
      cases hbyte : belongs (Char.ofUInt8 byte) with
      | true =>
          refine (loop_yield ?_ (h.remaining_lt 0)).trans ((ih (h.forward 0)).trans ?_)
          · simp only [bind_run, h.peek, List.headD_cons, hbyte, if_true, h.advance]
            rfl
          · rw [List.takeWhile_cons_of_pos (by exact hbyte), List.length_cons, forward_forward,
              Nat.add_comm 1]
      | false =>
          refine loop_done ?_
          simp only [bind_run, h.peek, List.headD_cons, hbyte]
          rw [List.takeWhile_cons_of_neg (by simp [hbyte])]
          rfl

theorem Stands.skipContent {source : String} {front tail : List UInt8} {scanner : Scanner}
    (h : Stands source front tail scanner) :
    let content := tail.takeWhile ((· != '"') ∘ Char.ofUInt8)
    skipContent source scanner =
      .ok () (scanner.forward content.length ((content.map Char.ofUInt8).count '\n')) := by
  unfold Scanner.skipContent
  induction tail generalizing front scanner with
  | nil =>
      refine loop_done ?_
      simp only [bind_run, h.atEnd, List.isEmpty_nil, Bool.not_true, h.peek, Bool.false_and]
      rfl
  | cons byte tail ih =>
      cases hbyte : Char.ofUInt8 byte != '"' with
      | true =>
          let lines := if Char.ofUInt8 byte == '\n' then 1 else 0
          refine (loop_yield ?_ (h.remaining_lt lines)).trans ((ih (h.forward lines)).trans ?_)
          · simp only [bind_run, h.atEnd, List.isEmpty_cons, Bool.not_false, h.peek,
              List.headD_cons, hbyte, Bool.true_and, if_true, h.advance]
            cases hline : Char.ofUInt8 byte == '\n' with
            | true =>
                simp only [lines, hline, if_true]
                rfl
            | false =>
                simp only [lines, hline, Bool.false_eq_true, if_false]
                rfl
          · rw [List.takeWhile_cons_of_pos (by exact hbyte), List.map_cons, List.length_cons,
              List.count_cons, forward_forward, Nat.add_comm 1, Nat.add_comm lines]
      | false =>
          refine loop_done ?_
          simp only [bind_run, h.atEnd, h.peek, List.headD_cons, hbyte, Bool.and_false]
          rw [List.takeWhile_cons_of_neg (by simp [hbyte])]
          rfl

/-! ## Standing between characters -/

/-- Behind so much more text. -/
def past (scanner : Scanner) (text : List Char) : Scanner :=
  scanner.forward (octets text).length (text.count '\n')

/-- The scanner has come to the character between these two parts of its source. -/
structure At (source : String) (before after : List Char) (scanner : Scanner) : Prop where
  text : source.toList = before ++ after
  current : scanner.current = (octets before).length

section At

variable {source : String} {before text after : List Char} {scanner : Scanner}

theorem At.stands (h : At source before after scanner) :
    Stands source (octets before) (octets after) scanner where
  bytes := by rw [bytes_eq, h.text, octets_append]
  current := h.current

theorem At.past (h : At source before (text ++ after) scanner) :
    At source (before ++ text) after (scanner.past text) where
  text := h.text.trans (List.append_assoc ..).symm
  current := by rw [Scanner.past, Scanner.forward, h.current, octets_append, List.length_append]

theorem At.skipWhile {belongs : Char → Bool} (h : At source before after scanner)
    (hascii : InAscii belongs) (hline : belongs '\n' = false) :
    skipWhile source belongs scanner = .ok () (scanner.past (after.takeWhile belongs)) := by
  have hcount : (after.takeWhile belongs).count '\n' = 0 := by
    refine List.count_eq_zero.2 fun hmem => ?_
    simpa [hline] using List.mem_takeWhile_imp hmem
  rw [h.stands.skipWhile hascii.zero, hascii.uniform.takeWhile_octets, Scanner.past, hcount]

theorem At.skipContent (h : At source before after scanner) :
    skipContent source scanner = .ok () (scanner.past (after.takeWhile (· != '"'))) := by
  have huniform : Uniform (· != '"') := (inAscii_beq (by decide)).uniform.not
  rw [h.stands.skipContent, huniform.takeWhile_octets, count_octets, Scanner.past]

theorem At.atEnd (h : At source before after scanner) :
    atEnd source scanner = .ok after.isEmpty scanner := by
  rw [h.stands.atEnd, isEmpty_octets]

/-- Reading a byte that is a character. -/
theorem At.forward {first : Char} {following : List Char}
    (h : At source before (first :: following) scanner) (hascii : first.toNat < 128) :
    At source (before ++ [first]) following (scanner.forward 1 0) where
  text := h.text.trans (by simp)
  current := by simp [Scanner.forward, h.current, utf8EncodeChar_of_lt hascii]

theorem At.advance {first : Char} {following : List Char}
    (h : At source before (first :: following) scanner) (hascii : first.toNat < 128) :
    ∃ byte, advance source scanner = .ok byte (scanner.forward 1 0) ∧
      Char.ofUInt8 byte = first := by
  have hstands := h.stands
  rw [octets_cons, utf8EncodeChar_of_lt hascii] at hstands
  exact ⟨_, hstands.advance, ofUInt8_ofNat hascii⟩

theorem past_first {c : Char} (hascii : c.toNat < 128) (hline : c ≠ '\n') (text : List Char) :
    (scanner.forward 1 0).past text = scanner.past (c :: text) := by
  rw [Scanner.past, Scanner.past, forward_forward, octets_cons, List.length_append,
    utf8EncodeChar_of_lt hascii, List.length_singleton, List.count_cons_of_ne hline, Nat.zero_add]

theorem past_singleton {c : Char} (hascii : c.toNat < 128) (hline : c ≠ '\n') :
    scanner.past [c] = scanner.forward 1 0 := by
  rw [past, octets_cons, utf8EncodeChar_of_lt hascii, List.count_cons_of_ne hline]
  rfl

theorem past_past (text more : List Char) :
    (scanner.past text).past more = scanner.past (text ++ more) := by
  rw [past, past, past, forward_forward, octets_append, List.length_append, List.count_append]

theorem At.matchByte {c : Char} (h : At source before after scanner)
    (hc : 0 < c.toNat ∧ c.toNat < 128) :
    matchByte source c scanner =
      if after.head? = some c then .ok true (scanner.forward 1 0) else .ok false scanner := by
  have hpeek := (inAscii_beq hc).headD_octets after
  simp only [Scanner.matchByte, bind_run, h.atEnd, h.stands.peek, hpeek]
  rcases after with _ | ⟨first, after⟩
  · rfl
  · by_cases hfirst : first = c
    · subst hfirst
      obtain ⟨byte, hadvance, -⟩ := h.advance hc.2
      simp only [List.isEmpty_cons, List.head?_cons, Option.any_some, beq_self_eq_true,
        Bool.not_false, Bool.and_self, if_true, bind_run, hadvance]
      rfl
    · simp only [List.isEmpty_cons, List.head?_cons, Option.any_some, beq_eq_false_iff_ne.2 hfirst,
        Bool.and_false, Option.some.injEq, hfirst, if_false]
      rfl

theorem slice_octets (h : source.toList = before ++ text ++ after) (scanner : Scanner) :
    slice source (octets before).length (octets (before ++ text)).length scanner =
      .ok (String.ofList text) scanner := by
  rw [slice, slice?_octets h]
  rfl

theorem byteSlice_octets (h : source.toList = before ++ text ++ after) (scanner : Scanner) :
    byteSlice source (octets before).length (octets (before ++ text)).length scanner =
      .ok (octets text) scanner := by
  have hbytes : bytes source = octets before ++ octets text ++ octets after := by
    rw [bytes_eq, h, octets_append, octets_append]
  have hslice : ((bytes source).take (octets (before ++ text)).length).drop (octets before).length =
      octets text := by
    rw [hbytes, octets_append, List.take_left' rfl, List.drop_left' rfl]
  rw [byteSlice, if_pos, hslice]
  · rfl
  · rw [size, hbytes, octets_append, List.length_append, List.length_append, List.length_append]
    omega

theorem At.lexeme {origin : Scanner} (h : At source before (text ++ after) origin)
    (hstart : scanner.start = origin.current)
    (hcurrent : scanner.current = (origin.past text).current) :
    lexeme source scanner = .ok (String.ofList text) scanner := by
  simp only [Scanner.lexeme, bind_run, get_run, hstart, h.current, hcurrent, h.past.current,
    slice_octets h.past.text]

theorem At.byteSlice {origin : Scanner} (h : At source before (text ++ after) origin)
    (hstart : origin.start = origin.current) :
    byteSlice source (origin.past text).start (origin.past text).current (origin.past text) =
      .ok (octets text) (origin.past text) := by
  have hstart' : (origin.past text).start = (octets before).length := hstart.trans h.current
  rw [hstart', h.past.current, byteSlice_octets h.past.text]

end At

/-! ## Segments -/

/-- What scanning a segment comes to: the scanner is behind it, the kind of a
token is pending, and an error is given. -/
def settle (origin : Scanner) (segment : Segment) :
    EStateM.Result Fault Scanner (Except Diagnostic Unit) :=
  let after := origin.past segment.text
  match segment.piece with
  | .token kind => .ok (.ok ()) { after with pending := some kind }
  | .unterminated => .ok (.error (.lexical after.line .unterminatedString)) after
  | .unexpected c => .ok (.error (.lexical after.line (.unexpected c))) after
  | _ => .ok (.ok ()) after

section Segments

variable {source : String} {before following : List Char} {first : Char} {origin : Scanner}

theorem recognise_run (scanner : Scanner) (kind : Kind) :
    recognise kind scanner = .ok (.ok ()) { scanner with pending := some kind } := rfl

/-- A point and a digit behind it. -/
def hasFraction : List Char → Bool
  | '.' :: digit :: _ => Decimal.isDigit digit
  | _ => false

theorem hasFraction_octets (text : List Char) :
    (Char.ofUInt8 ((octets text).headD 0) == '.' &&
      Decimal.isDigit (Char.ofUInt8 (((octets text).drop 1).headD 0))) = hasFraction text := by
  rw [(inAscii_beq (c := '.') (by decide)).headD_octets]
  rcases text with _ | ⟨c, text⟩
  · rfl
  · by_cases hpoint : c = '.'
    · subst hpoint
      rw [octets_cons, utf8EncodeChar_of_lt (by decide), List.singleton_append,
        List.drop_one, List.tail_cons, inAscii_isDigit.headD_octets]
      cases text <;> simp [hasFraction]
    · simp [hasFraction, hpoint]

theorem At.number (h : At source before (first :: following) origin)
    (hstart : origin.start = origin.current) (hfirst : Decimal.isDigit first) :
    number source (origin.forward 1 0) = origin.settle (Segment.number first following) := by
  have hascii : first.toNat < 128 := (inAscii_isDigit first hfirst).2
  have hline : first ≠ '\n' := by
    rintro rfl
    cases hfirst
  have hdigits := (h.forward hascii).skipWhile inAscii_isDigit (by decide)
  rw [past_first hascii hline] at hdigits
  have hwhole : first :: following =
      (first :: following.takeWhile Decimal.isDigit) ++ following.dropWhile Decimal.isDigit := by
    rw [List.cons_append, List.takeWhile_append_dropWhile]
  rw [hwhole] at h
  simp only [Scanner.number, bind_run, hdigits, h.past.stands.peek, h.past.stands.peekNext,
    hasFraction_octets, Segment.number]
  generalize first :: following.takeWhile Decimal.isDigit = whole at h
  generalize following.dropWhile Decimal.isDigit = rest at h
  split
  · rename_i hfraction
    unfold hasFraction at hfraction
    split at hfraction
    · rename_i digit more
      obtain ⟨byte, hpoint, -⟩ := h.past.advance (by decide)
      have hmore := (h.past.forward (by decide)).skipWhile inAscii_isDigit (by decide)
      rw [List.takeWhile_cons_of_pos hfraction, past_first (c := '.') (by decide) (by decide),
        past_past] at hmore
      have hall : At source before ((whole ++ '.' :: digit :: more.takeWhile Decimal.isDigit) ++
          more.dropWhile Decimal.isDigit) origin := by
        rw [List.append_assoc, List.cons_append, List.cons_append, List.takeWhile_append_dropWhile]
        exact h
      simp only [bind_run, hpoint, hmore, hfraction, if_true]
      generalize whole ++ '.' :: digit :: more.takeWhile Decimal.isDigit = text at hall
      have hlexeme : Scanner.lexeme source (origin.past text) =
          .ok (String.ofList text) (origin.past text) := hall.lexeme hstart rfl
      simp only [hlexeme, String.toList_ofList]
      rfl
    · cases hfraction
  · rename_i hfraction
    have hlexeme : Scanner.lexeme source (origin.past whole) =
        .ok (String.ofList whole) (origin.past whole) := h.lexeme hstart rfl
    simp only [bind_run, hlexeme, String.toList_ofList]
    split
    · rename_i digit more
      have hdigit : ¬ Decimal.isDigit digit := hfraction
      rw [if_neg hdigit]
      rfl
    · rfl

/-! ### Words -/

/-- A table of the reserved words by their bytes gives the symbol of a word. -/
theorem ofWord_octets {library : Library} (hlibrary : library.Documented) (text : List Char) :
    (library.reserved? (octets text)).getD .identifier = .ofWord (String.ofList text) := by
  refine Symbol.Names.eq_ofWord ?_
  cases hfound : library.reserved? (octets text) with
  | some symbol =>
      obtain ⟨name, hmem, hname⟩ := (hlibrary.reserved? _ _).1 hfound
      rw [bytes_eq_octets_iff.1 hname] at hmem
      exact .reserved hmem
  | none =>
      refine .name fun symbol hmem => ?_
      have hsome := (hlibrary.reserved? _ _).2 ⟨_, hmem, bytes_eq_octets_iff.2 rfl⟩
      rw [hfound] at hsome
      cases hsome

theorem At.word {library : Library} (hlibrary : library.Documented)
    (h : At source before (first :: following) origin)
    (hstart : origin.start = origin.current) (hfirst : isLetter first) :
    word library source (origin.forward 1 0) = origin.settle (Segment.word first following) := by
  have hascii : first.toNat < 128 := (inAscii_isLetter first hfirst).2
  have hline : first ≠ '\n' := by
    rintro rfl
    cases hfirst
  have hword := (h.forward hascii).skipWhile inAscii_isWordCharacter (by decide)
  rw [past_first hascii hline] at hword
  have hwhole : first :: following =
      (first :: following.takeWhile isWordCharacter) ++ following.dropWhile isWordCharacter := by
    rw [List.cons_append, List.takeWhile_append_dropWhile]
  rw [hwhole] at h
  simp only [Scanner.word, bind_run, get_run, hword, h.byteSlice hstart, ofWord_octets hlibrary,
    recognise_run]
  rfl

/-! ### Strings -/

theorem At.string (h : At source before ('"' :: following) origin)
    (hstart : origin.start = origin.current) :
    string source (origin.forward 1 0) = origin.settle (Segment.string following) := by
  have hcontent := (h.forward (by decide)).skipContent
  rw [past_first (c := '"') (by decide) (by decide)] at hcontent
  have hwhole : '"' :: following =
      ('"' :: following.takeWhile (· != '"')) ++ following.dropWhile (· != '"') := by
    rw [List.cons_append, List.takeWhile_append_dropWhile]
  rw [hwhole] at h
  have hend := h.past.atEnd
  simp only [Scanner.string, bind_run, hcontent, hend, Segment.string]
  generalize following.takeWhile (· != '"') = content at h
  cases hrest : following.dropWhile (· != '"') with
  | nil => rfl
  | cons quote rest =>
      have hquote : quote = '"' := by
        have hhead := List.head?_dropWhile_not (· != '"') following
        simpa [hrest] using hhead
      subst hquote
      rw [hrest] at h
      obtain ⟨byte, hadvance, -⟩ := h.past.advance (by decide)
      have hparts : source.toList = (before ++ ['"']) ++ content ++ '"' :: rest := by
        rw [h.text]
        simp
      have hsettled : (origin.past ('"' :: content)).forward 1 0 =
          origin.past ('"' :: content ++ ['"']) := by
        rw [← past_past]
        rfl
      have hstart' : (origin.past ('"' :: content ++ ['"'])).start + 1 =
          (octets (before ++ ['"'])).length := by
        rw [octets_append, List.length_append, ← h.current, ← hstart]
        rfl
      have hstop : (origin.past ('"' :: content ++ ['"'])).current - 1 =
          (octets (before ++ ['"'] ++ content)).length := by
        rw [← hsettled, List.append_assoc]
        exact h.past.current
      simp only [List.isEmpty_cons, Bool.false_eq_true, if_false, bind_run, hadvance, get_run,
        hsettled, hstart', hstop, slice_octets hparts, recognise_run]
      rfl

/-! ### Comments and division -/

theorem At.skipLine {library : Library} (hlibrary : library.Documented) {after : List Char}
    {scanner : Scanner} (h : At source before after scanner) :
    skipLine library source scanner = .ok () (scanner.past (after.takeWhile (· != '\n'))) := by
  have hparts : source.toList = before ++ after ++ [] := by
    rw [h.text, List.append_nil]
  have hsize : size source = (octets (before ++ after)).length := by
    rw [size, bytes_eq, h.text]
  have hcount : (after.takeWhile (· != '\n')).count '\n' = 0 := by
    refine List.count_eq_zero.2 fun hmem => ?_
    simpa using List.mem_takeWhile_imp hmem
  have hslice : Scanner.byteSlice source scanner.current (size source) scanner =
      .ok (octets after) scanner := by
    rw [h.current, hsize, byteSlice_octets hparts]
  have hfind := (inAscii_beq (c := '\n') (by decide)).uniform.findIdx?_octets after
  have hbyte : (· == '\n') ∘ Char.ofUInt8 = (· == (10 : UInt8)) := funext ofUInt8_beq_lineEnd
  have hnegated : (fun c : Char => !(c == '\n')) = (· != '\n') := rfl
  rw [hbyte, hnegated] at hfind
  simp only [Scanner.skipLine, bind_run, get_run, hslice, hlibrary.position?, set_run]
  rw [Scanner.past, hcount, ← hfind, hsize, octets_append, List.length_append, ← h.current]
  cases (octets after).findIdx? (· == 10) <;> rfl

theorem At.slash {library : Library} (hlibrary : library.Documented)
    (h : At source before ('/' :: following) origin) :
    slash library source (origin.forward 1 0) = origin.settle (Segment.slash following) := by
  have hafter := h.forward (by decide)
  simp only [Scanner.slash, bind_run, hafter.matchByte (c := '/') (by decide)]
  rcases following with _ | ⟨c, following⟩
  · rfl
  · by_cases hc : c = '/'
    · subst hc
      have hline := (hafter.forward (by decide)).skipLine hlibrary
      rw [past_first (c := '/') (by decide) (by decide),
        past_first (c := '/') (by decide) (by decide)] at hline
      simp only [List.head?_cons, if_true, bind_run, hline, pure_run]
      rfl
    · have hsegment : Segment.slash (c :: following) =
          ⟨.token (.symbol .slash), ['/'], c :: following⟩ := by
        simp [Segment.slash, hc]
      simp only [List.head?_cons, Option.some.injEq, hc, if_false, Bool.false_eq_true, hsegment]
      rfl

/-! ### Other characters -/

theorem At.unexpected (h : At source before (first :: following) origin)
    (hstart : origin.start = origin.current) (hline : first ≠ '\n') :
    unexpected source (origin.forward 1 0) =
      origin.settle ⟨.unexpected first, [first], following⟩ := by
  have hparts : source.toList = before ++ (first :: following) ++ [] := by
    rw [h.text, List.append_nil]
  have hstart' : (origin.forward 1 0).start = (octets before).length := hstart.trans h.current
  have hsize : size source = (octets (before ++ first :: following)).length := by
    rw [size, bytes_eq, h.text]
  have hslice : slice source (origin.forward 1 0).start (size source) (origin.forward 1 0) =
      .ok (String.ofList (first :: following)) (origin.forward 1 0) := by
    rw [hstart', hsize, slice_octets hparts]
  have hafter : { origin.forward 1 0 with
      current := (origin.forward 1 0).start + first.utf8Size } = origin.past [first] := by
    rw [Scanner.past, octets_cons, octets_nil, List.append_nil, String.length_utf8EncodeChar,
      List.count_cons_of_ne hline, List.count_nil, Scanner.forward, Scanner.forward, hstart]
  simp only [Scanner.unexpected, bind_run, get_run, hslice, set_run, String.toList_ofList,
    List.headD_cons, hafter, pure_run]
  rw [settle, ← hafter]

/-! ### All segments -/

theorem beyond_classes {c : Char} (h : 128 ≤ c.toNat) :
    single? c = none ∧ paired? c = none ∧ Decimal.isDigit c = false ∧ isLetter c = false ∧
      ∀ d ∈ ['/', '"', ' ', '\r', '\t', '\n'], c ≠ d := by
  have hbeyond : distinguished.all (fun d => !decide (128 ≤ d.toNat)) := by decide
  obtain ⟨hsingle, hpaired, hother⟩ := undistinguished hbeyond (decide_eq_true h)
  exact ⟨hsingle, hpaired, inAscii_isDigit.eq_false h, inAscii_isLetter.eq_false h, hother⟩

theorem At.paired (library : Library) {alone withEqual : Symbol}
    (h : At source before (first :: following) origin) (hascii : first.toNat < 128)
    (hsingle : single? first = none) (hpaired : paired? first = some (alone, withEqual)) :
    dispatch library source first (origin.forward 1 0) =
      origin.settle (Segment.ofText first following) := by
  have hline : first ≠ '\n' := by
    rintro rfl
    cases hpaired
  have hmatch := (h.forward hascii).matchByte (c := '=') (by decide)
  simp only [Scanner.dispatch, Segment.ofText, hsingle, hpaired, bind_run, hmatch]
  rcases following with _ | ⟨c, following⟩
  · rw [settle, past_singleton hascii hline]
    rfl
  · by_cases hequal : c = '='
    · subst hequal
      have hboth : (origin.forward 1 0).forward 1 0 = origin.past [first, '='] := by
        rw [← past_first hascii hline, past_singleton (by decide) (by decide)]
      simp only [List.head?_cons, if_true, hboth]
      rfl
    · simp only [List.head?_cons, Option.some.injEq, hequal, if_false, Bool.false_eq_true]
      split
      · rename_i heq
        exact absurd (List.cons.inj heq).1 hequal
      · rw [settle, past_singleton hascii hline]
        rfl

/-- Scanning on from a byte that is a character. -/
theorem At.dispatch_ascii {library : Library} (hlibrary : library.Documented)
    (h : At source before (first :: following) origin) (hstart : origin.start = origin.current)
    (hascii : first.toNat < 128) :
    dispatch library source first (origin.forward 1 0) =
      origin.settle (Segment.ofText first following) := by
  cases hsingle : single? first with
  | some symbol =>
      have hline : first ≠ '\n' := by
        rintro rfl
        cases hsingle
      simp only [Scanner.dispatch, Segment.ofText, hsingle, recognise_run, settle,
        past_singleton hascii hline]
  | none =>
      cases hpaired : paired? first with
      | some pair => exact h.paired library hascii hsingle hpaired
      | none =>
          by_cases hslash : first = '/'
          · subst hslash
            exact h.slash hlibrary
          · by_cases hquote : first = '"'
            · subst hquote
              exact h.string hstart
            · cases hblank : Segment.isBlank first with
              | true =>
                  simp only [Segment.isBlank, Bool.or_eq_true, beq_iff_eq] at hblank
                  rcases hblank with ((rfl | rfl) | rfl) | rfl <;> rfl
              | false =>
                  have hline : first ≠ '\n' := by
                    rintro rfl
                    cases hblank
                  simp only [Segment.isBlank, Bool.or_eq_false_iff] at hblank
                  obtain ⟨⟨⟨hspace, hreturn⟩, htab⟩, hend⟩ := hblank
                  simp only [Scanner.dispatch, Segment.ofText, Segment.isBlank, hsingle, hpaired,
                    hspace, hreturn, htab, hend, hslash, hquote, beq_iff_eq, Bool.false_eq_true,
                    if_false, Bool.or_self]
                  cases hdigit : Decimal.isDigit first with
                  | true => exact h.number hstart hdigit
                  | false =>
                      cases hletter : isLetter first with
                      | true => exact h.word hlibrary hstart hletter
                      | false => exact h.unexpected hstart hline

/-- Scanning on from a byte that is part of a character beyond ASCII. -/
theorem At.dispatch_beyond (library : Library)
    (h : At source before (first :: following) origin) (hstart : origin.start = origin.current)
    (hfirst : 128 ≤ first.toNat) {c : Char} (hc : 128 ≤ c.toNat) :
    dispatch library source c (origin.forward 1 0) =
      origin.settle (Segment.ofText first following) := by
  obtain ⟨hsingle, hpaired, hdigit, hletter, hother⟩ := beyond_classes hc
  have hdispatch : Scanner.dispatch library source c = Scanner.unexpected source := by
    simp [Scanner.dispatch, hsingle, hpaired, hdigit, hletter, hother]
  obtain ⟨hsingle, hpaired, hdigit, hletter, hother⟩ := beyond_classes hfirst
  have hsegment : Segment.ofText first following = ⟨.unexpected first, [first], following⟩ := by
    simp [Segment.ofText, hsingle, hpaired, hdigit, hletter, hother, Segment.isBlank]
  rw [hdispatch, hsegment, h.unexpected hstart (hother '\n' (by simp))]

theorem At.dispatch {library : Library} (hlibrary : library.Documented)
    (h : At source before (first :: following) origin) (hstart : origin.start = origin.current) :
    ∃ byte, Scanner.advance source origin = .ok byte (origin.forward 1 0) ∧
      dispatch library source (Char.ofUInt8 byte) (origin.forward 1 0) =
        origin.settle (Segment.ofText first following) := by
  obtain ⟨byte, more, hoctets, hfirst⟩ := exists_octets_cons first following
  have hstands := h.stands
  rw [hoctets] at hstands
  refine ⟨byte, hstands.advance, ?_⟩
  rcases hfirst with ⟨hascii, hbyte, -⟩ | ⟨hbeyond, hbyte⟩
  · rw [hbyte]
    exact h.dispatch_ascii hlibrary hstart hascii
  · exact h.dispatch_beyond library hstart hbeyond hbyte

/-- One turn cuts off the first segment of the text ahead. -/
theorem At.turn {library : Library} (hlibrary : library.Documented) {scanner : Scanner}
    (h : At source before (first :: following) scanner) :
    let segment := Segment.ofText first following
    let line := scanner.line + segment.text.count '\n'
    ∃ after, turn library source scanner = .ok (segment.item? line) after ∧ after.line = line ∧
      At source (before ++ segment.text) segment.rest after := by
  have happend := Segment.ofText_append first following
  obtain ⟨origin, horigin⟩ :
      ∃ origin, { scanner with start := scanner.current, pending := none } = origin := ⟨_, rfl⟩
  have hfrom : At source before (first :: following) origin := horigin ▸ ⟨h.text, h.current⟩
  have hstart : origin.start = origin.current := horigin ▸ rfl
  have hline : origin.line = scanner.line := horigin ▸ rfl
  have hpending : origin.pending = none := horigin ▸ rfl
  obtain ⟨byte, hadvance, hdispatch⟩ := hfrom.dispatch hlibrary hstart
  simp only [Scanner.turn, bind_run, modify_run, horigin, hadvance, hdispatch]
  rw [← hline]
  rw [← happend] at hfrom
  generalize Segment.ofText first following = segment at hfrom
  have hpast : (origin.past segment.text).pending = none := hpending
  unfold settle Segment.item?
  cases segment.piece with
  | token kind =>
      have hlexeme : Scanner.lexeme source { origin.past segment.text with pending := none } =
          .ok (String.ofList segment.text) { origin.past segment.text with pending := none } :=
        hfrom.lexeme hstart rfl
      refine ⟨{ origin.past segment.text with pending := none }, ?_, rfl, hfrom.past.text,
        hfrom.past.current⟩
      simp only [bind_run, get_run, set_run, hlexeme, pure_run]
      rfl
  | blank => exact ⟨_, by simp only [bind_run, get_run, hpast, pure_run], rfl, hfrom.past⟩
  | comment => exact ⟨_, by simp only [bind_run, get_run, hpast, pure_run], rfl, hfrom.past⟩
  | unterminated => exact ⟨_, rfl, rfl, hfrom.past⟩
  | unexpected c => exact ⟨_, rfl, rfl, hfrom.past⟩

end Segments

end Scanner

end Lox
