import DockerRegistry.Configuration.Parser
import Mathlib.Data.List.AList
import Mathlib.Data.List.TakeWhile

/-!
# The Forwarded header parser

`parseForwardedHeader` of `registry/api/v2/headerparser.go` reads the first
element of an RFC 7239 `Forwarded` header with a machine of seven states, one
pass of its loop at a time (`step`); the loop skips spaces except inside a
quoted value. `NewURLBuilderFromRequest` takes `proto` and `host` from the map it
returns.

A value is a token, which the parser refuses to set twice, or a quoted string,
which it sets whatever was set before: only the token path checks for a
duplicate parameter.

The regular expressions are read by character, as Go's matcher reads runes:
`reToken` is the longest prefix of `isTokenChar`, `reQuotedValue` the longest
prefix without a backslash or a quote, and `reEscapedCharacter` one blank or
graphic ASCII character. A position counts the bytes of the UTF-8 encoding, as
Go's `len` does, and the character an error names is the first byte of the rest,
`parse[0]`, printed by `%c` as the code point of that byte. The map is an
association list, each key once.
-/

namespace DockerRegistry.Api

open GoPath GoDecimal DockerRegistry.Configuration

/-- The states of the parser. -/
inductive ParserState where
  | element
  | parameter
  | keyValueDelimiter
  | value
  | quotedValue
  | escapedCharacter
  | pairEnd
  deriving DecidableEq, Repr

/-- The map `parseForwardedHeader` returns. -/
abbrev ForwardedMap := AList fun _ : String => String

/-- The variables of the loop: the state, the parameter and value being read, the
input left and the map so far. -/
structure Parser where
  state : ParserState
  parameter : String
  value : String
  parse : List Char
  res : ForwardedMap

/-- The errors of `parseForwardedHeader`, with the position and byte they name. -/
inductive ParseError where
  | unexpectedEnd
  | token (pos : ℕ)
  | keyValueDelimiter (b : UInt8) (pos : ℕ)
  | value (pos : ℕ)
  | duplicate (parameter : String) (pos : ℕ)
  | unterminated
  | escape (pos : ℕ)
  | pairEnd (b : UInt8) (pos : ℕ)
  deriving DecidableEq, Repr

/-- Go's `len` of the string of `s`: the bytes of its UTF-8 encoding. -/
def byteLength (s : List Char) : ℕ := (s.map Char.utf8Size).sum

/-- The first byte of the UTF-8 encoding of `c`. -/
def leadByte (c : Char) : UInt8 := (String.utf8EncodeChar c).headD 0

/-- The text of each error; `%c` prints a byte as the code point of its value. -/
def ParseError.message : ParseError → String
  | .unexpectedEnd => "unexpected end of input"
  | .token pos => "failed to parse token at position " ++ formatNat pos
  | .keyValueDelimiter b pos =>
    "expected '=', not '" ++ (Char.ofNat b.toNat).toString ++ "' at position " ++ formatNat pos
  | .value pos => "failed to parse value at position " ++ formatNat pos
  | .duplicate parameter pos => "duplicate parameter " ++ quote parameter ++ " at position " ++ formatNat pos
  | .unterminated => "unterminated quoted string"
  | .escape pos => "invalid escape sequence at position " ++ formatNat pos
  | .pairEnd b pos => "expected ',' or ';', not " ++ (Char.ofNat b.toNat).toString ++ " at position " ++ formatNat pos

/-- A character of `reToken`: none of `"(),/:;<=>?@[]{}`, no ASCII space and no
ASCII control character. -/
def isTokenChar (c : Char) : Bool :=
  !(['"', '(', ')', ',', '/', ':', ';', '<', '=', '>', '?', '@', '[', ']', '\x7b', '\x7d'].contains c) &&
    !(['\t', '\n', '\x0B', '\x0C', '\r', ' '].contains c) && !(c.toNat < 0x20 || c.toNat = 0x7F)

/-- A character of `reEscapedCharacter`: a blank or a graphic ASCII character. -/
def isEscapedChar (c : Char) : Bool := c = ' ' || c = '\t' || (0x21 ≤ c.toNat && c.toNat ≤ 0x7E)

def isQuotedChar (c : Char) : Bool := c ≠ '\\' && c ≠ '"'

/-- How one pass of the loop ends: with the next values of its variables, at
`break Loop`, or with an error and the input left. -/
inductive Outcome where
  | next (p : Parser)
  | done (res : ForwardedMap) (rest : List Char)
  | fail (err : ParseError) (rest : List Char)

/-- The input a pass reads: the spaces are skipped unless in a quoted value. -/
def skipSpaces (p : Parser) : List Char :=
  if p.state ≠ .quotedValue ∧ p.state ≠ .escapedCharacter then p.parse.dropWhile isSpace else p.parse

/-- One pass of the loop of `parseForwardedHeader` over the header `forwarded`. -/
def step (forwarded : List Char) (p : Parser) : Outcome :=
  let parse := skipSpaces p
  let pos := byteLength forwarded - byteLength parse
  match parse with
  | [] =>
    if p.state ≠ .element ∧ p.state ≠ .pairEnd ∧ p.state ≠ .parameter then .fail .unexpectedEnd []
    else .done p.res []
  | c :: rest =>
    match p.state with
    | .element => if c = ',' then .done p.res rest else .next { p with parse, state := .parameter }
    | .parameter =>
      let m := parse.takeWhile isTokenChar
      if m = [] then .fail (.token pos) parse
      else .next { p with parameter := toLower (String.ofList m), parse := parse.drop m.length, state := .keyValueDelimiter }
    | .keyValueDelimiter =>
      if c ≠ '=' then .fail (.keyValueDelimiter (leadByte c) pos) parse else .next { p with parse := rest, state := .value }
    | .value =>
      if c = '"' then .next { p with parse := rest, state := .quotedValue }
      else
        let value := parse.takeWhile isTokenChar
        if value = [] then .fail (.value pos) parse
        else if p.parameter ∈ p.res then .fail (.duplicate p.parameter pos) parse
        else
          .next
            { p with res := p.res.insert p.parameter (String.ofList value), parse := parse.drop value.length,
                     value := "", state := .pairEnd }
    | .quotedValue =>
      let m := parse.takeWhile isQuotedChar
      let value := p.value ++ String.ofList m
      match parse.drop m.length with
      | [] => .fail .unterminated []
      | c :: rest =>
        if c = '"' then .next { p with res := p.res.insert p.parameter value, value := "", parse := rest, state := .pairEnd }
        else if c = '\\' then .next { p with value, parse := rest, state := .escapedCharacter }
        else .next { p with value, parse := c :: rest }
    | .escapedCharacter =>
      if isEscapedChar c then .next { p with value := p.value.push c, parse := rest, state := .quotedValue }
      else .fail (.escape (pos - 1)) parse
    | .pairEnd =>
      if c = ';' then .next { p with parse := rest, state := .parameter }
      else if c = ',' then .next { p with parse, state := .element }
      else .fail (.pairEnd (leadByte c) pos) parse

/-- The loop, for at most `fuel` passes; `none` when the fuel runs out. -/
def loop (forwarded : List Char) : ℕ → Parser → Option (Except (ParseError × List Char) (ForwardedMap × List Char))
  | 0, _ => none
  | fuel + 1, p =>
    match step forwarded p with
    | .next p => loop forwarded fuel p
    | .done res rest => some (.ok (res, rest))
    | .fail err rest => some (.error (err, rest))

/-- `parseForwardedHeader`: the map of the first element and the input after it,
or an error and the input left; the loop is given one pass more than three per
character, which is enough (`parseForwardedHeader_isSome`). -/
def parseForwardedHeader (forwarded : String) :
    Option (Except (ParseError × List Char) (ForwardedMap × List Char)) :=
  loop forwarded.toList (3 * forwarded.length + 3) ⟨.element, "", "", forwarded.toList, ∅⟩

/-! ### Termination

A pass that reads nothing moves from `pairEnd` to `element` or from `element` to
`parameter`; every other pass reads a character at least. Three passes per
character and a rank per state bound the loop. -/

def ParserState.rank : ParserState → ℕ
  | .element => 1
  | .pairEnd => 2
  | _ => 0

def Parser.measure (p : Parser) : ℕ := 3 * p.parse.length + p.state.rank

theorem length_skipSpaces_le (p : Parser) : (skipSpaces p).length ≤ p.parse.length := by
  unfold skipSpaces
  split_ifs
  · exact List.length_dropWhile_le _ _
  · exact le_rfl

theorem drop_length_takeWhile {α : Type} (q : α → Bool) (l : List α) :
    l.drop (l.takeWhile q).length = l.dropWhile q := by
  calc l.drop (l.takeWhile q).length
      = (l.takeWhile q ++ l.dropWhile q).drop (l.takeWhile q).length := by rw [List.takeWhile_append_dropWhile]
    _ = l.dropWhile q := List.drop_left' rfl

theorem length_drop_takeWhile_lt {α : Type} {q : α → Bool} {l : List α} (h : l.takeWhile q ≠ []) :
    (l.drop (l.takeWhile q).length).length < l.length := by
  have hpos := List.length_pos_of_ne_nil h
  have hle := (List.takeWhile_prefix q (l := l)).length_le
  rw [List.length_drop]
  omega

theorem head_dropWhile_isQuotedChar {l rest : List Char} {c : Char}
    (h : l.dropWhile isQuotedChar = c :: rest) : c = '"' ∨ c = '\\' := by
  have hc := List.head?_dropWhile_not isQuotedChar l
  rw [h] at hc
  simp only [List.head?_cons, isQuotedChar, Bool.and_eq_false_iff, decide_eq_false_iff_not, not_not] at hc
  exact hc.symm

theorem step_measure_lt {forwarded : List Char} {p p' : Parser} (h : step forwarded p = .next p') :
    p'.measure < p.measure := by
  have hskip := length_skipSpaces_le p
  obtain ⟨state, parameter, value, parse, res⟩ := p
  simp only [step] at h
  generalize skipSpaces _ = s at h hskip
  cases s with
  | nil => split_ifs at h
  | cons c rest =>
    simp only [List.length_cons] at hskip
    cases state <;> simp only at h
    case element =>
      split_ifs at h
      cases h
      simp only [Parser.measure, ParserState.rank, List.length_cons]
      omega
    case parameter =>
      split_ifs at h with hm
      cases h
      have hlt := length_drop_takeWhile_lt hm
      simp only [Parser.measure, ParserState.rank, List.length_cons] at hlt ⊢
      omega
    case keyValueDelimiter =>
      split_ifs at h
      cases h
      simp only [Parser.measure, ParserState.rank]
      omega
    case value =>
      split_ifs at h with hquote hm
      · cases h
        simp only [Parser.measure, ParserState.rank]
        omega
      · cases h
        have hlt := length_drop_takeWhile_lt hm
        simp only [Parser.measure, ParserState.rank, List.length_cons] at hlt ⊢
        omega
    case quotedValue =>
      rw [drop_length_takeWhile] at h
      have hsuffix := (List.dropWhile_suffix isQuotedChar (l := c :: rest)).length_le
      split at h
      · cases h
      · rename_i c' rest' hdrop
        rw [hdrop, List.length_cons, List.length_cons] at hsuffix
        split_ifs at h with hq hb
        · cases h
          simp only [Parser.measure, ParserState.rank]
          omega
        · cases h
          simp only [Parser.measure, ParserState.rank]
          omega
        · exact absurd (head_dropWhile_isQuotedChar hdrop) (by tauto)
    case escapedCharacter =>
      split_ifs at h
      cases h
      simp only [Parser.measure, ParserState.rank]
      omega
    case pairEnd =>
      split_ifs at h
      · cases h
        simp only [Parser.measure, ParserState.rank]
        omega
      · cases h
        simp only [Parser.measure, ParserState.rank, List.length_cons]
        omega

theorem loop_eq_of_measure_lt {forwarded : List Char} :
    ∀ {fuel fuel' : ℕ} {p : Parser}, p.measure < fuel → p.measure < fuel' →
      loop forwarded fuel p = loop forwarded fuel' p
  | 0, _, _, h, _ => absurd h (Nat.not_lt_zero _)
  | _, 0, _, _, h' => absurd h' (Nat.not_lt_zero _)
  | fuel + 1, fuel' + 1, p, h, h' => by
    simp only [loop]
    split
    · rename_i p' hstep
      have hlt := step_measure_lt hstep
      exact loop_eq_of_measure_lt (by omega) (by omega)
    · rfl
    · rfl

/-- The loop run to its end: `measure p + 1` passes are enough (`loop_eq_run`). -/
def run (forwarded : List Char) (p : Parser) :
    Option (Except (ParseError × List Char) (ForwardedMap × List Char)) :=
  loop forwarded (p.measure + 1) p

section Run

variable {forwarded : List Char} {p p' : Parser}

theorem loop_eq_run {fuel : ℕ} (h : p.measure < fuel) : loop forwarded fuel p = run forwarded p :=
  loop_eq_of_measure_lt h (Nat.lt_succ_self _)

theorem run_of_next (h : step forwarded p = .next p') : run forwarded p = run forwarded p' := by
  have hlt := step_measure_lt h
  rw [run, loop, h]
  exact loop_eq_run (by omega)

theorem run_of_done {res : ForwardedMap} {rest : List Char} (h : step forwarded p = .done res rest) :
    run forwarded p = some (.ok (res, rest)) := by
  rw [run, loop, h]

theorem run_of_fail {err : ParseError} {rest : List Char} (h : step forwarded p = .fail err rest) :
    run forwarded p = some (.error (err, rest)) := by
  rw [run, loop, h]

theorem run_isSome (forwarded : List Char) (p : Parser) : (run forwarded p).isSome := by
  induction hm : p.measure using Nat.strong_induction_on generalizing p with
  | _ m ih =>
    cases hstep : step forwarded p with
    | next p' => exact (run_of_next hstep) ▸ ih _ (hm ▸ step_measure_lt hstep) p' rfl
    | done res rest => simp [run_of_done hstep]
    | fail err rest => simp [run_of_fail hstep]

end Run

theorem parseForwardedHeader_eq_run (forwarded : String) :
    parseForwardedHeader forwarded = run forwarded.toList ⟨.element, "", "", forwarded.toList, ∅⟩ := by
  apply loop_eq_run
  simp only [Parser.measure, ParserState.rank, String.length_toList]
  omega

/-- `parseForwardedHeader` returns on every input: its loop ends within the passes
it is given. -/
theorem parseForwardedHeader_isSome (forwarded : String) : (parseForwardedHeader forwarded).isSome := by
  rw [parseForwardedHeader_eq_run]
  exact run_isSome _ _

theorem run_congr {forwarded : List Char} {p q : Parser} (h : step forwarded p = step forwarded q) :
    run forwarded p = run forwarded q := by
  cases hstep : step forwarded q with
  | next p' => rw [run_of_next (h.trans hstep), run_of_next hstep]
  | done res rest => rw [run_of_done (h.trans hstep), run_of_done hstep]
  | fail err rest => rw [run_of_fail (h.trans hstep), run_of_fail hstep]

/-! ### The grammar of a first element

After RFC 7239 and RFC 7230: forwarded-pairs `name=value` separated by `;`, a
name a token, a value a token or a quoted string, blanks (spaces and tabs) around
the parts of a pair, and after the last pair the end of the header, a `;` or a `,`
before the next elements. Character classes are given by code point. -/

/-- A `tchar` of RFC 7230: a digit, a letter or one of the marks
!#$%&'*+-.^_|~ and the grave accent. -/
def isTchar (c : Char) : Bool :=
  (0x30 ≤ c.toNat && c.toNat ≤ 0x39) || (0x41 ≤ c.toNat && c.toNat ≤ 0x5A) || (0x61 ≤ c.toNat && c.toNat ≤ 0x7A) ||
    [0x21, 0x23, 0x24, 0x25, 0x26, 0x27, 0x2A, 0x2B, 0x2D, 0x2E, 0x5E, 0x5F, 0x60, 0x7C, 0x7E].contains c.toNat

def isBlank (c : Char) : Bool := c.toNat = 0x20 || c.toNat = 0x09

/-- A `qdtext` of RFC 7230: a blank, a visible ASCII character other than a quote
and a backslash, or a character beyond ASCII. -/
def isQdtext (c : Char) : Bool :=
  isBlank c || c.toNat = 0x21 || (0x23 ≤ c.toNat && c.toNat ≤ 0x5B) || (0x5D ≤ c.toNat && c.toNat ≤ 0x7E) ||
    0x80 ≤ c.toNat

/-- The character of a `quoted-pair` of RFC 7230 other than `obs-text`: a blank
or a visible ASCII character. -/
def isQuotedPairChar (c : Char) : Bool := isBlank c || (0x21 ≤ c.toNat && c.toNat ≤ 0x7E)

def IsToken (t : List Char) : Prop := t ≠ [] ∧ ∀ c ∈ t, isTchar c = true

/-- A character of a quoted string: written as it is, or after a backslash. -/
inductive QuotedPiece where
  | plain (c : Char)
  | escaped (c : Char)

def QuotedPiece.text : QuotedPiece → List Char
  | .plain c => [c]
  | .escaped c => ['\\', c]

def QuotedPiece.char : QuotedPiece → Char
  | .plain c | .escaped c => c

def QuotedPiece.WellFormed : QuotedPiece → Prop
  | .plain c => isQdtext c = true
  | .escaped c => isQuotedPairChar c = true

/-- The value of a forwarded-pair: a token, or a quoted string by its pieces. -/
inductive PairValue where
  | token (t : List Char)
  | quoted (pieces : List QuotedPiece)

def PairValue.text : PairValue → List Char
  | .token t => t
  | .quoted pieces => '"' :: pieces.flatMap QuotedPiece.text ++ ['"']

/-- The value a pair sets: a quoted string without its quotes and backslashes. -/
def PairValue.meaning : PairValue → String
  | .token t => String.ofList t
  | .quoted pieces => String.ofList (pieces.map QuotedPiece.char)

def PairValue.WellFormed : PairValue → Prop
  | .token t => IsToken t
  | .quoted pieces => ∀ pc ∈ pieces, pc.WellFormed

def PairValue.isToken : PairValue → Bool
  | .token _ => true
  | .quoted _ => false

/-- A forwarded-pair as written: the blanks before its name, before and after its
`=`, and after its value. -/
structure Pair where
  lead : List Char
  name : List Char
  beforeEq : List Char
  afterEq : List Char
  value : PairValue
  trail : List Char

def Pair.text (pr : Pair) : List Char :=
  pr.lead ++ pr.name ++ pr.beforeEq ++ '=' :: pr.afterEq ++ pr.value.text ++ pr.trail

def Pair.key (pr : Pair) : String := toLower (String.ofList pr.name)

structure Pair.WellFormed (pr : Pair) : Prop where
  name : IsToken pr.name
  value : pr.value.WellFormed
  blanks : ∀ c ∈ pr.lead ++ pr.beforeEq ++ pr.afterEq ++ pr.trail, isBlank c = true

/-- How an element ends: at the end of the header, with a `;` and blanks, or with
a `,` before the next elements `rest`. -/
inductive ElementEnd where
  | stop
  | semicolon (blanks : List Char)
  | comma (rest : List Char)

def ElementEnd.text : ElementEnd → List Char
  | .stop => []
  | .semicolon blanks => ';' :: blanks
  | .comma rest => ',' :: rest

def ElementEnd.rest : ElementEnd → List Char
  | .stop | .semicolon _ => []
  | .comma rest => rest

def ElementEnd.WellFormed : ElementEnd → Prop
  | .stop | .comma _ => True
  | .semicolon blanks => ∀ c ∈ blanks, isBlank c = true

def pairsText (pr : Pair) : List Pair → List Char
  | [] => pr.text
  | pr' :: prs => pr.text ++ ';' :: pairsText pr' prs

def pairsMap (res : ForwardedMap) (prs : List Pair) : ForwardedMap :=
  prs.foldl (fun m pr => m.insert pr.key pr.value.meaning) res

/-- No pair with a token value sets a parameter that `res` or a pair before it sets. -/
def TokensNew : ForwardedMap → List Pair → Prop
  | _, [] => True
  | res, pr :: prs => (pr.value.isToken → pr.key ∉ res) ∧ TokensNew (res.insert pr.key pr.value.meaning) prs

instance : DecidablePred IsToken := fun t =>
  decidable_of_iff (t ≠ [] ∧ t.all isTchar = true) (and_congr_right fun _ => List.all_eq_true)

instance : DecidablePred QuotedPiece.WellFormed
  | .plain c => inferInstanceAs (Decidable (isQdtext c = true))
  | .escaped c => inferInstanceAs (Decidable (isQuotedPairChar c = true))

instance : DecidablePred PairValue.WellFormed
  | .token t => inferInstanceAs (Decidable (IsToken t))
  | .quoted pieces => inferInstanceAs (Decidable (∀ pc ∈ pieces, pc.WellFormed))

instance : DecidablePred Pair.WellFormed := fun pr =>
  decidable_of_iff
    (IsToken pr.name ∧ pr.value.WellFormed ∧ (pr.lead ++ pr.beforeEq ++ pr.afterEq ++ pr.trail).all isBlank = true)
    ⟨fun ⟨hname, hvalue, hblanks⟩ => ⟨hname, hvalue, List.all_eq_true.mp hblanks⟩,
      fun h => ⟨h.name, h.value, List.all_eq_true.mpr h.blanks⟩⟩

instance decidableTokensNew : (res : ForwardedMap) → (prs : List Pair) → Decidable (TokensNew res prs)
  | _, [] => inferInstanceAs (Decidable True)
  | res, pr :: prs =>
    have := decidableTokensNew (res.insert pr.key pr.value.meaning) prs
    inferInstanceAs (Decidable ((pr.value.isToken → pr.key ∉ res) ∧ _))

/-! ### Character classes -/

theorem isTchar_spec {c : Char} (h : isTchar c = true) :
    isTokenChar c = true ∧ isSpace c = false ∧ c ≠ ',' ∧ c ≠ '"' := by
  simp only [isTchar, Bool.or_eq_true, Bool.and_eq_true, decide_eq_true_eq, List.contains_cons, List.contains_nil,
    beq_iff_eq, Bool.or_false] at h
  simp only [isTokenChar, isSpace, Bool.and_eq_true, Bool.not_eq_true', Bool.or_eq_false_iff, List.contains_cons,
    List.contains_nil, Bool.or_false, beq_eq_false_iff_ne, ne_eq, ← Char.toNat_inj, decide_eq_false_iff_not,
    Char.reduceToNat, Bool.and_eq_false_imp, decide_eq_true_eq, List.mem_cons, List.not_mem_nil, or_false]
  omega

theorem isBlank_spec {c : Char} (h : isBlank c = true) : isSpace c = true ∧ isTokenChar c = false := by
  simp only [isBlank, Bool.or_eq_true, decide_eq_true_eq] at h
  rcases h with h | h
  · obtain rfl : c = ' ' := Char.toNat_inj.mp h
    decide
  · obtain rfl : c = '\t' := Char.toNat_inj.mp h
    decide

theorem isQdtext_spec {c : Char} (h : isQdtext c = true) : isQuotedChar c = true := by
  simp only [isQdtext, isBlank, Bool.or_eq_true, Bool.and_eq_true, decide_eq_true_eq] at h
  simp only [isQuotedChar, Bool.and_eq_true, decide_eq_true_eq, ne_eq, ← Char.toNat_inj, Char.reduceToNat]
  omega

theorem isQuotedPairChar_spec {c : Char} (h : isQuotedPairChar c = true) : isEscapedChar c = true := by
  simp only [isQuotedPairChar, isBlank, Bool.or_eq_true, Bool.and_eq_true, decide_eq_true_eq] at h
  simp only [isEscapedChar, Bool.or_eq_true, Bool.and_eq_true, decide_eq_true_eq, ← Char.toNat_inj, Char.reduceToNat]
  omega

/-! ### One pass at a time

The passes the loop makes over the text of an element, one lemma per transition,
each from the character it reads; blanks before it are skipped (`step_blanks`). -/

section Passes

variable {forwarded : List Char} {par v : String} {res : ForwardedMap} {blanks s : List Char}

theorem skipSpaces_cons (st : ParserState) (hst : st ≠ .quotedValue ∧ st ≠ .escapedCharacter) {c : Char}
    (hc : isSpace c = false) : skipSpaces ⟨st, par, v, c :: s, res⟩ = c :: s := by
  rw [skipSpaces, if_pos hst, List.dropWhile_cons_of_neg (by simp [hc])]

theorem skipSpaces_blanks_nil (st : ParserState) (hst : st ≠ .quotedValue ∧ st ≠ .escapedCharacter)
    (hb : ∀ c ∈ blanks, isSpace c = true) : skipSpaces ⟨st, par, v, blanks, res⟩ = [] := by
  rw [skipSpaces, if_pos hst, List.dropWhile_eq_nil_iff.mpr hb]

theorem skipSpaces_quoted (st : ParserState) (hst : st = .quotedValue ∨ st = .escapedCharacter) (l : List Char) :
    skipSpaces ⟨st, par, v, l, res⟩ = l := by
  rw [skipSpaces, if_neg]
  rcases hst with rfl | rfl <;> simp

theorem step_blanks (st : ParserState) (hst : st ≠ .quotedValue ∧ st ≠ .escapedCharacter)
    (hb : ∀ c ∈ blanks, isSpace c = true) (l : List Char) :
    step forwarded ⟨st, par, v, blanks ++ l, res⟩ = step forwarded ⟨st, par, v, l, res⟩ := by
  have hskip : skipSpaces ⟨st, par, v, blanks ++ l, res⟩ = skipSpaces ⟨st, par, v, l, res⟩ := by
    rw [skipSpaces, skipSpaces, if_pos hst, if_pos hst, List.dropWhile_append_of_pos hb]
  simp only [step, hskip]

theorem step_element {c : Char} (hc : isSpace c = false) (hcomma : c ≠ ',') :
    step forwarded ⟨.element, par, v, c :: s, res⟩ = .next ⟨.parameter, par, v, c :: s, res⟩ := by
  simp only [step, skipSpaces_cons .element (by decide) hc, if_neg hcomma]

theorem step_element_comma : step forwarded ⟨.element, par, v, ',' :: s, res⟩ = .done res s := by
  simp only [step, skipSpaces_cons .element (by decide) (by decide : isSpace ',' = false), if_pos]

theorem takeWhile_token {t : List Char} (ht : IsToken t) (hs : s.takeWhile isTokenChar = []) :
    (t ++ s).takeWhile isTokenChar = t := by
  rw [List.takeWhile_append_of_pos fun c hc => (isTchar_spec (ht.2 c hc)).1, hs, List.append_nil]

theorem step_parameter {name : List Char} (hname : IsToken name) (hs : s.takeWhile isTokenChar = []) :
    step forwarded ⟨.parameter, par, v, name ++ s, res⟩ =
      .next ⟨.keyValueDelimiter, toLower (String.ofList name), v, s, res⟩ := by
  obtain ⟨c, name', rfl⟩ := List.exists_cons_of_ne_nil hname.1
  have htake := takeWhile_token hname hs
  have hdrop : (c :: name' ++ s).drop (c :: name').length = s := List.drop_left' rfl
  have hskip : skipSpaces ⟨.parameter, par, v, c :: name' ++ s, res⟩ = c :: name' ++ s :=
    skipSpaces_cons .parameter (by decide) (isTchar_spec (hname.2 c List.mem_cons_self)).2.1
  rw [List.cons_append] at htake hdrop hskip ⊢
  simp only [step, hskip, htake, hdrop, if_neg (List.cons_ne_nil _ _)]

theorem step_parameter_end (hb : ∀ c ∈ blanks, isSpace c = true) :
    step forwarded ⟨.parameter, par, v, blanks, res⟩ = .done res [] := by
  simp only [step, skipSpaces_blanks_nil .parameter (by decide) hb]
  rw [if_neg (by decide)]

theorem step_keyValueDelimiter :
    step forwarded ⟨.keyValueDelimiter, par, v, '=' :: s, res⟩ = .next ⟨.value, par, v, s, res⟩ := by
  simp only [step, skipSpaces_cons .keyValueDelimiter (by decide) (by decide : isSpace '=' = false)]
  rw [if_neg (by decide)]

theorem step_value_quote : step forwarded ⟨.value, par, v, '"' :: s, res⟩ = .next ⟨.quotedValue, par, v, s, res⟩ := by
  simp only [step, skipSpaces_cons .value (by decide) (by decide : isSpace '"' = false), if_pos]

theorem step_value_token {t : List Char} (ht : IsToken t) (hs : s.takeWhile isTokenChar = []) :
    step forwarded ⟨.value, par, v, t ++ s, res⟩ =
      if par ∈ res then .fail (.duplicate par (byteLength forwarded - byteLength (t ++ s))) (t ++ s)
      else .next ⟨.pairEnd, par, "", s, res.insert par (String.ofList t)⟩ := by
  obtain ⟨c, t', rfl⟩ := List.exists_cons_of_ne_nil ht.1
  have hc := isTchar_spec (ht.2 c List.mem_cons_self)
  have htake := takeWhile_token ht hs
  have hdrop : (c :: t' ++ s).drop (c :: t').length = s := List.drop_left' rfl
  have hskip : skipSpaces ⟨.value, par, v, c :: t' ++ s, res⟩ = c :: t' ++ s :=
    skipSpaces_cons .value (by decide) hc.2.1
  rw [List.cons_append] at htake hdrop hskip ⊢
  simp only [step, hskip, htake, hdrop, if_neg hc.2.2.2, if_neg (List.cons_ne_nil _ _)]

theorem append_ofList_cons (v : String) (c : Char) (l : List Char) :
    v ++ String.ofList (c :: l) = v.push c ++ String.ofList l := by
  simp [← String.toList_inj]

theorem step_quotedValue_quote :
    step forwarded ⟨.quotedValue, par, v, '"' :: s, res⟩ = .next ⟨.pairEnd, par, "", s, res.insert par v⟩ := by
  have htake : ('"' :: s).takeWhile isQuotedChar = [] := List.takeWhile_cons_of_neg (by decide)
  simp only [step, skipSpaces_quoted .quotedValue (.inl rfl), htake, List.length_nil, List.drop_zero,
    String.ofList_nil, String.append_empty, if_pos]

theorem step_quotedValue_backslash :
    step forwarded ⟨.quotedValue, par, v, '\\' :: s, res⟩ = .next ⟨.escapedCharacter, par, v, s, res⟩ := by
  have htake : ('\\' :: s).takeWhile isQuotedChar = [] := List.takeWhile_cons_of_neg (by decide)
  simp only [step, skipSpaces_quoted .quotedValue (.inl rfl), htake, List.length_nil, List.drop_zero,
    String.ofList_nil, String.append_empty, if_neg (by decide : ¬ '\\' = '"'), if_pos]

theorem step_quotedValue_cons {c : Char} (hc : isQuotedChar c = true) (hs : s ≠ []) :
    step forwarded ⟨.quotedValue, par, v, c :: s, res⟩ = step forwarded ⟨.quotedValue, par, v.push c, s, res⟩ := by
  obtain ⟨d, s', rfl⟩ := List.exists_cons_of_ne_nil hs
  simp only [step, skipSpaces_quoted .quotedValue (.inl rfl), List.takeWhile_cons_of_pos hc, List.length_cons,
    List.drop_succ_cons, append_ofList_cons]

theorem step_escapedCharacter {c : Char} (hc : isEscapedChar c = true) :
    step forwarded ⟨.escapedCharacter, par, v, c :: s, res⟩ = .next ⟨.quotedValue, par, v.push c, s, res⟩ := by
  simp only [step, skipSpaces_quoted .escapedCharacter (.inr rfl), hc, if_pos]

theorem step_pairEnd_semicolon :
    step forwarded ⟨.pairEnd, par, v, ';' :: s, res⟩ = .next ⟨.parameter, par, v, s, res⟩ := by
  simp only [step, skipSpaces_cons .pairEnd (by decide) (by decide : isSpace ';' = false), if_pos]

theorem step_pairEnd_comma :
    step forwarded ⟨.pairEnd, par, v, ',' :: s, res⟩ = .next ⟨.element, par, v, ',' :: s, res⟩ := by
  simp only [step, skipSpaces_cons .pairEnd (by decide) (by decide : isSpace ',' = false),
    if_neg (by decide : ¬ ',' = ';'), if_pos]

theorem step_pairEnd_end (hb : ∀ c ∈ blanks, isSpace c = true) :
    step forwarded ⟨.pairEnd, par, v, blanks, res⟩ = .done res [] := by
  simp only [step, skipSpaces_blanks_nil .pairEnd (by decide) hb]
  rw [if_neg (by decide)]

end Passes

/-! ### Runs over the text of an element -/

theorem takeWhile_blanks_append {blanks after : List Char} (hb : ∀ c ∈ blanks, isBlank c = true)
    (hafter : ∀ c ∈ after.head?, isTokenChar c = false) : (blanks ++ after).takeWhile isTokenChar = [] := by
  cases blanks with
  | nil =>
    cases after with
    | nil => rfl
    | cons c after => exact List.takeWhile_cons_of_neg (by simp [hafter c rfl])
  | cons c blanks => exact List.takeWhile_cons_of_neg (by simp [(isBlank_spec (hb c List.mem_cons_self)).2])

section Runs

variable {forwarded : List Char} {res : ForwardedMap} {par : String}

theorem run_blanks (st : ParserState) (hst : st ≠ .quotedValue ∧ st ≠ .escapedCharacter) {v : String}
    {blanks : List Char} (hb : ∀ c ∈ blanks, isBlank c = true) (l : List Char) :
    run forwarded ⟨st, par, v, blanks ++ l, res⟩ = run forwarded ⟨st, par, v, l, res⟩ :=
  run_congr (step_blanks st hst (fun c hc => (isBlank_spec (hb c hc)).1) l)

theorem run_quoted {pieces : List QuotedPiece} (hpieces : ∀ pc ∈ pieces, pc.WellFormed) (after : List Char)
    (v : String) :
    run forwarded ⟨.quotedValue, par, v, pieces.flatMap QuotedPiece.text ++ '"' :: after, res⟩ =
      run forwarded ⟨.pairEnd, par, "", after, res.insert par (v ++ String.ofList (pieces.map QuotedPiece.char))⟩ := by
  induction pieces generalizing v with
  | nil =>
    rw [List.flatMap_nil, List.nil_append, run_of_next step_quotedValue_quote, List.map_nil, String.ofList_nil,
      String.append_empty]
  | cons pc pieces ih =>
    have hrest := ih fun q hq => hpieces q (List.mem_cons_of_mem _ hq)
    have hpc := hpieces pc List.mem_cons_self
    simp only [List.flatMap_cons, List.map_cons, List.append_assoc]
    cases pc with
    | plain c =>
      rw [QuotedPiece.text, List.cons_append, List.nil_append,
        run_congr (step_quotedValue_cons (isQdtext_spec hpc) (by simp)), hrest, QuotedPiece.char,
        append_ofList_cons]
    | escaped c =>
      rw [QuotedPiece.text, List.cons_append, List.cons_append, List.nil_append,
        run_of_next step_quotedValue_backslash, run_of_next (step_escapedCharacter (isQuotedPairChar_spec hpc)),
        hrest, QuotedPiece.char, append_ofList_cons]

theorem blank_isSpace {l : List Char} (h : ∀ c ∈ l, isBlank c = true) : ∀ c ∈ l, isSpace c = true :=
  fun c hc => (isBlank_spec (h c hc)).1

theorem run_pair {pr : Pair} (hpr : pr.WellFormed) {after : List Char}
    (hafter : ∀ c ∈ after.head?, isTokenChar c = false) :
    run forwarded ⟨.parameter, par, "", pr.text ++ after, res⟩ =
      if pr.value.isToken ∧ pr.key ∈ res then
        some (.error (.duplicate pr.key (byteLength forwarded - byteLength (pr.value.text ++ pr.trail ++ after)),
          pr.value.text ++ pr.trail ++ after))
      else run forwarded ⟨.pairEnd, pr.key, "", pr.trail ++ after, res.insert pr.key pr.value.meaning⟩ := by
  obtain ⟨lead, name, beforeEq, afterEq, value, trail⟩ := pr
  obtain ⟨hname, hvalue, hblanks⟩ := hpr
  dsimp only at hname hvalue
  simp only [List.mem_append, or_imp, forall_and] at hblanks
  obtain ⟨⟨⟨hlead, hbeforeEq⟩, hafterEq⟩, htrail⟩ := hblanks
  have hdelim : (beforeEq ++ '=' :: (afterEq ++ value.text ++ trail ++ after)).takeWhile isTokenChar = [] :=
    takeWhile_blanks_append hbeforeEq (by simp; decide)
  simp only [Pair.text, Pair.key, List.append_assoc, List.cons_append] at hdelim ⊢
  rw [run_blanks .parameter (by decide) hlead, run_of_next (step_parameter hname hdelim),
    run_blanks .keyValueDelimiter (by decide) hbeforeEq, run_of_next step_keyValueDelimiter,
    run_blanks .value (by decide) hafterEq]
  cases value with
  | token t =>
    have hstep : step forwarded ⟨.value, toLower (String.ofList name), "", t ++ (trail ++ after), res⟩ = _ :=
      step_value_token hvalue (takeWhile_blanks_append htrail hafter)
    simp only [PairValue.text, PairValue.isToken, PairValue.meaning, true_and]
    split_ifs at hstep ⊢
    · exact run_of_fail hstep
    · exact run_of_next hstep
  | quoted pieces =>
    simp only [PairValue.text, PairValue.isToken, PairValue.meaning, Bool.false_eq_true, false_and, if_false,
      List.cons_append, List.append_assoc, List.nil_append]
    rw [run_of_next step_value_quote, run_quoted hvalue, String.empty_append]

theorem run_end {blanks : List Char} (hb : ∀ c ∈ blanks, isBlank c = true) {e : ElementEnd} (he : e.WellFormed) :
    run forwarded ⟨.pairEnd, par, "", blanks ++ e.text, res⟩ = some (.ok (res, e.rest)) := by
  cases e with
  | stop => rw [ElementEnd.text, List.append_nil, run_of_done (step_pairEnd_end (blank_isSpace hb)), ElementEnd.rest]
  | semicolon blanks' =>
    rw [ElementEnd.text, run_blanks .pairEnd (by decide) hb, run_of_next step_pairEnd_semicolon,
      run_of_done (step_parameter_end (blank_isSpace he)), ElementEnd.rest]
  | comma rest =>
    rw [ElementEnd.text, run_blanks .pairEnd (by decide) hb, run_of_next step_pairEnd_comma,
      run_of_done step_element_comma, ElementEnd.rest]

theorem head_elementEnd_text (e : ElementEnd) : ∀ c ∈ e.text.head?, isTokenChar c = false := by
  cases e <;> simp [ElementEnd.text] <;> decide

theorem Pair.WellFormed.lead_isBlank {pr : Pair} (hpr : pr.WellFormed) : ∀ c ∈ pr.lead, isBlank c = true :=
  fun c hc => hpr.blanks c (by simp [hc])

theorem Pair.WellFormed.trail_isBlank {pr : Pair} (hpr : pr.WellFormed) : ∀ c ∈ pr.trail, isBlank c = true :=
  fun c hc => hpr.blanks c (by simp [hc])

/-- The run through the pairs of an element, from the `parameter` state: each pair
sets its parameter in turn, and the run stands after the value of the last. -/
theorem run_pairs {pr : Pair} {prs : List Pair} (hwf : ∀ q ∈ pr :: prs, q.WellFormed)
    (hnew : TokensNew res (pr :: prs)) {after : List Char} (hafter : ∀ c ∈ after.head?, isTokenChar c = false) :
    run forwarded ⟨.parameter, par, "", pairsText pr prs ++ after, res⟩ =
      run forwarded ⟨.pairEnd, ((pr :: prs).getLast (List.cons_ne_nil _ _)).key, "",
        ((pr :: prs).getLast (List.cons_ne_nil _ _)).trail ++ after, pairsMap res (pr :: prs)⟩ := by
  induction prs generalizing pr res par with
  | nil =>
    rw [pairsText, run_pair (hwf pr List.mem_cons_self) hafter, if_neg (fun h => hnew.1 h.1 h.2)]
    rfl
  | cons pr' prs ih =>
    have hpr := hwf pr List.mem_cons_self
    rw [pairsText, List.append_assoc, List.cons_append, run_pair hpr (by simp; decide),
      if_neg (fun h => hnew.1 h.1 h.2), run_blanks .pairEnd (by decide) hpr.trail_isBlank,
      run_of_next step_pairEnd_semicolon, ih (fun q hq => hwf q (List.mem_cons_of_mem _ hq)) hnew.2]
    rfl

theorem run_pairs_end {pr : Pair} {prs : List Pair} (hwf : ∀ q ∈ pr :: prs, q.WellFormed) {e : ElementEnd}
    (he : e.WellFormed) (hnew : TokensNew res (pr :: prs)) :
    run forwarded ⟨.parameter, par, "", pairsText pr prs ++ e.text, res⟩ =
      some (.ok (pairsMap res (pr :: prs), e.rest)) := by
  have hlast := hwf _ (List.getLast_mem (List.cons_ne_nil pr prs))
  rw [run_pairs hwf hnew (head_elementEnd_text e)]
  exact run_end hlast.trail_isBlank he

theorem run_pairs_duplicate {pr : Pair} {prs : List Pair} (hwf : ∀ q ∈ pr :: prs, q.WellFormed)
    (hnew : ¬TokensNew res (pr :: prs)) {after : List Char} (hafter : ∀ c ∈ after.head?, isTokenChar c = false) :
    ∃ k pos rest, run forwarded ⟨.parameter, par, "", pairsText pr prs ++ after, res⟩ =
      some (.error (.duplicate k pos, rest)) := by
  induction prs generalizing pr res par with
  | nil =>
    have hdup : pr.value.isToken ∧ pr.key ∈ res := by
      simpa [TokensNew] using hnew
    rw [pairsText, run_pair (hwf pr List.mem_cons_self) hafter, if_pos hdup]
    exact ⟨_, _, _, rfl⟩
  | cons pr' prs ih =>
    have hpr := hwf pr List.mem_cons_self
    rw [pairsText, List.append_assoc, List.cons_append, run_pair hpr (by simp; decide)]
    by_cases hdup : pr.value.isToken ∧ pr.key ∈ res
    · rw [if_pos hdup]
      exact ⟨_, _, _, rfl⟩
    · have hlater : ¬TokensNew (res.insert pr.key pr.value.meaning) (pr' :: prs) :=
        fun h => hnew ⟨fun htoken hkey => hdup ⟨htoken, hkey⟩, h⟩
      rw [if_neg hdup, run_blanks .pairEnd (by decide) hpr.trail_isBlank, run_of_next step_pairEnd_semicolon]
      exact ih (fun q hq => hwf q (List.mem_cons_of_mem _ hq)) hlater

theorem run_element {pr : Pair} (hpr : pr.WellFormed) (l : List Char) :
    run forwarded ⟨.element, par, "", pr.text ++ l, res⟩ = run forwarded ⟨.parameter, par, "", pr.text ++ l, res⟩ := by
  obtain ⟨c, name', hname⟩ := List.exists_cons_of_ne_nil hpr.name.1
  have hc := isTchar_spec (hpr.name.2 c (hname ▸ List.mem_cons_self))
  have htext : pr.text ++ l = pr.lead ++ c :: (name' ++ (pr.beforeEq ++ '=' :: pr.afterEq ++ pr.value.text ++
      pr.trail ++ l)) := by
    simp [Pair.text, hname]
  rw [htext, run_blanks .element (by decide) hpr.lead_isBlank, run_blanks .parameter (by decide) hpr.lead_isBlank,
    run_of_next (step_element hc.2.1 hc.2.2.1)]

end Runs

theorem pairsText_eq (pr : Pair) (prs : List Pair) : ∃ l, pairsText pr prs = pr.text ++ l := by
  cases prs with
  | nil => exact ⟨[], (List.append_nil _).symm⟩
  | cons pr' prs => exact ⟨_, rfl⟩

/-- `parseForwardedHeader` accepts every well-formed first element in which no
pair with a token value names a parameter set before it, and returns the map with
the last value set for each parameter and the input after the element. -/
theorem parseForwardedHeader_pairs {pr : Pair} {prs : List Pair} (hwf : ∀ q ∈ pr :: prs, q.WellFormed)
    {e : ElementEnd} (he : e.WellFormed) (hnew : TokensNew ∅ (pr :: prs)) :
    parseForwardedHeader (String.ofList (pairsText pr prs ++ e.text)) = some (.ok (pairsMap ∅ (pr :: prs), e.rest)) := by
  obtain ⟨l, hl⟩ := pairsText_eq pr prs
  rw [parseForwardedHeader_eq_run, String.toList_ofList, hl, List.append_assoc,
    run_element (hwf pr List.mem_cons_self), ← List.append_assoc, ← hl]
  exact run_pairs_end hwf he hnew

/-- The second example of the source's documentation. -/
theorem parseForwardedHeader_pairs_host :
    parseForwardedHeader "for=\"192.0.2.43:443\"; host=\"registry.example.org\", for=\"10.10.05.40:80\"" =
      some (.ok (((∅ : ForwardedMap).insert "for" "192.0.2.43:443").insert "host" "registry.example.org",
        " for=\"10.10.05.40:80\"".toList)) := by
  have hinput : "for=\"192.0.2.43:443\"; host=\"registry.example.org\", for=\"10.10.05.40:80\"" =
      String.ofList (pairsText ⟨[], "for".toList, [], [], .quoted ("192.0.2.43:443".toList.map .plain), []⟩
        [⟨[' '], "host".toList, [], [], .quoted ("registry.example.org".toList.map .plain), []⟩] ++
        (ElementEnd.comma " for=\"10.10.05.40:80\"".toList).text) := by decide
  rw [hinput, parseForwardedHeader_pairs (by decide) (e := .comma _) trivial (by decide)]
  rfl

/-- Over the same elements, a pair with a token value for a parameter set before
it is refused as a duplicate parameter. -/
theorem parseForwardedHeader_duplicate_token {pr : Pair} {prs : List Pair} (hwf : ∀ q ∈ pr :: prs, q.WellFormed)
    (e : ElementEnd) (hnew : ¬TokensNew ∅ (pr :: prs)) :
    ∃ k pos rest, parseForwardedHeader (String.ofList (pairsText pr prs ++ e.text)) =
      some (.error (.duplicate k pos, rest)) := by
  obtain ⟨l, hl⟩ := pairsText_eq pr prs
  rw [parseForwardedHeader_eq_run, String.toList_ofList, hl, List.append_assoc,
    run_element (hwf pr List.mem_cons_self), ← List.append_assoc, ← hl]
  exact run_pairs_duplicate hwf hnew (head_elementEnd_text e)

theorem parseForwardedHeader_duplicate_token_a :
    ∃ k pos rest, parseForwardedHeader "a=1;A=2" = some (.error (.duplicate k pos, rest)) := by
  have hinput : "a=1;A=2" = String.ofList (pairsText ⟨[], ['a'], [], [], .token ['1'], []⟩
      [⟨[], ['A'], [], [], .token ['2'], []⟩] ++ ElementEnd.stop.text) := by decide
  rw [hinput]
  exact parseForwardedHeader_duplicate_token (by decide) .stop (by decide)

/-- A parameter set twice by quoted strings is accepted, with the second value:
`name="q₁";name="q₂"` parses to the map of the one parameter to `q₂`. -/
theorem parseForwardedHeader_quoted_twice (name : List Char) (hname : IsToken name) (q₁ q₂ : List QuotedPiece)
    (hq₁ : ∀ pc ∈ q₁, pc.WellFormed) (hq₂ : ∀ pc ∈ q₂, pc.WellFormed) :
    parseForwardedHeader
        (String.ofList (name ++ '=' :: (PairValue.quoted q₁).text ++ ';' :: name ++ '=' :: (PairValue.quoted q₂).text)) =
      some (.ok ((∅ : ForwardedMap).insert (toLower (String.ofList name)) (PairValue.quoted q₂).meaning, [])) := by
  let pair (q : List QuotedPiece) : Pair := ⟨[], name, [], [], .quoted q, []⟩
  have hwf : ∀ pr ∈ [pair q₁, pair q₂], pr.WellFormed := by
    simp only [List.mem_cons, List.not_mem_nil, or_false, forall_eq_or_imp, forall_eq]
    exact ⟨⟨hname, hq₁, by simp [pair]⟩, ⟨hname, hq₂, by simp [pair]⟩⟩
  have hnew : TokensNew ∅ [pair q₁, pair q₂] := by
    simp [TokensNew, pair, PairValue.isToken]
  have htext : name ++ '=' :: (PairValue.quoted q₁).text ++ ';' :: name ++ '=' :: (PairValue.quoted q₂).text =
      pairsText (pair q₁) [pair q₂] ++ ElementEnd.stop.text := by
    simp [pairsText, Pair.text, pair, ElementEnd.text]
  have hkey (q : List QuotedPiece) : (pair q).key = toLower (String.ofList name) := rfl
  rw [htext, parseForwardedHeader_pairs hwf (e := .stop) trivial hnew, pairsMap, List.foldl_cons, List.foldl_cons,
    List.foldl_nil, hkey, hkey, AList.insert_insert]
  rfl

theorem parseForwardedHeader_quoted_twice_a :
    parseForwardedHeader "a=\"1\";a=\"2\"" = some (.ok ((∅ : ForwardedMap).insert "a" "2", [])) := by
  have hinput : "a=\"1\";a=\"2\"" = String.ofList (['a'] ++ '=' :: (PairValue.quoted [.plain '1']).text ++ ';' ::
      ['a'] ++ '=' :: (PairValue.quoted [.plain '2']).text) := by decide
  rw [hinput, parseForwardedHeader_quoted_twice ['a'] (by decide) [.plain '1'] [.plain '2'] (by decide) (by decide)]
  rfl

end DockerRegistry.Api
