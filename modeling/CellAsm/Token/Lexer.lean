-- SUMMARY: Splitting source text into tokens.
import CellAsm.Diagnostic
import CellAsm.Punctuation
import CellAsm.Text.DecimalDigit
import CellAsm.Text.Fold
import CellAsm.Text.Integer
import CellAsm.Text.Letter

/-!
# Splitting source text into tokens

The scanner reads a text character by character. Each call skips blanks and
comments and takes one token; an error does not stop it, it goes on behind the
token. At the end of the text it keeps answering with the end.
-/
namespace CellAsm

-- ---------------------------------------------------------------------------
-- Places
-- ---------------------------------------------------------------------------

/-- A place between two characters of a text. -/
structure Place where
  line : Nat := 1
  column : Nat := 1
  offset : Nat := 0
deriving DecidableEq, Repr

namespace Place

def step (p : Place) (g : Glyph) : Place :=
  if g.char = '\n' then ⟨p.line + 1, 1, p.offset + g.bytes.length⟩
  else ⟨p.line, p.column + 1, p.offset + g.bytes.length⟩

def position (p : Place) (file : Text) : Position := ⟨file, p.line, p.column, p.offset⟩

end Place

-- ---------------------------------------------------------------------------
-- Character classes of a punctuation table
-- ---------------------------------------------------------------------------

/-- A punctuation table with its three markers looked up. A marker is NUL if no
character has its role. -/
structure Lexicon where
  table : Punctuation
  label : Char
  pseudo : Char
  comment : Char
deriving DecidableEq, Repr

namespace Lexicon

def ofPunctuation (p : Punctuation) : Lexicon :=
  ⟨p, p.char .label, p.char .pseudo, p.char .comment⟩

def isNameStart (lx : Lexicon) (c : Char) : Bool :=
  isLetter c || (Punctuation.isPunctuation c && lx.table.role c == .symbol)

def isNameChar (lx : Lexicon) (c : Char) : Bool := lx.isNameStart c || isDecimalDigit c

/-- Whether a number starts with `c` when `next` follows it: a digit, or a sign
that is a symbol character and has a digit behind it. -/
def startsNumber (lx : Lexicon) (c : Char) (next : Option Char) : Bool :=
  c.isDigit || ((c == '-' || c == '+') && next.any Char.isDigit && lx.table.role c == .symbol)

end Lexicon

-- ---------------------------------------------------------------------------
-- Separators, escapes, keywords and characters that stand alone
-- ---------------------------------------------------------------------------

/-- The characters that only separate tokens. -/
def isSeparator (c : Char) : Bool :=
  c == ' ' || c == '\t' || c == '\r' || c == '\x0c' || c == '\x0b'

/-- The character an escape stands for. -/
def unescape? : Char → Option Char
  | '\\' => some '\\'
  | 'n' => some '\n'
  | 't' => some '\t'
  | 'r' => some '\r'
  | '\x22' => some '\x22'
  | _ => none

/-- The part of an escape that is shown: not a line end. -/
def escapeContents : Option Char → Text
  | some '\n' => []
  | some c => Text.ofChar c
  | none => []

/-- The keywords that stand alone. -/
def bareKeyword? (word : Text) : Option TokenKind :=
  if word.lowersTo "equ" then some .equ
  else if word.lowersTo "macro" then some .templateStart
  else if word.lowersTo "endm" then some .templateEnd
  else none

/-- The keywords that follow the directive character. -/
def directiveKeyword? (word : Text) : Option TokenKind :=
  if word.lowersTo "include" then some .inclusion
  else if word.lowersTo "ascii" then some .ascii
  else if word.lowersTo "data" then some .data
  else if word.lowersTo "global" then some .exported
  else if word.lowersTo "align" then some .align
  else if word.lowersTo "pos" then some .pos
  else if word.lowersTo "long" then some .long
  else if word.lowersTo "short" then some .short
  else none

/-- A character that is a token by itself. -/
def Lexicon.solitary? : Char → Option TokenKind
  | '\n' => some .eol
  | ',' => some .comma
  | '[' => some .leftBracket
  | ']' => some .rightBracket
  | '(' => some .leftParen
  | ')' => some .rightParen
  | _ => none

-- ---------------------------------------------------------------------------
-- Reading characters
-- ---------------------------------------------------------------------------

/-- A text that is scanned under the name of its file, and the place reached in it. -/
structure Scanner where
  lexicon : Lexicon
  file : Text
  source : Text
  place : Place := {}
deriving DecidableEq, Repr

/-- A token and what is wrong with it. -/
structure Lexed where
  token : Token
  cause : Option Cause := none
deriving DecidableEq, Repr

namespace Scanner

/-- The scanner at the start of a text. -/
def ofText (lx : Lexicon) (file source : Text) : Scanner :=
  { lexicon := lx, file := file, source := source }

/-- How many bytes have not been read. -/
def left (s : Scanner) : Nat := s.source.length - s.place.offset

/-- The next character, if there is one. -/
def peek (s : Scanner) : Except Fault (Option Glyph) :=
  if s.source.length ≤ s.place.offset then .ok none
  else do
    let rest : Text ← Strict.suffix s.source s.place.offset
    return rest.glyph?

/-- The scanner behind the character `g`. -/
def past (s : Scanner) (g : Glyph) : Scanner := { s with place := s.place.step g }

/-- The character behind `n` others. -/
def peekAt (s : Scanner) : Nat → Except Fault (Option Glyph)
  | 0 => s.peek
  | n + 1 => do
    match ← s.peek with
    | none => return none
    | some g => (s.past g).peekAt n

theorem left_past (s : Scanner) (g : Glyph) : (s.past g).left = s.left - g.bytes.length := by
  have hoffset : (s.past g).place.offset = s.place.offset + g.bytes.length := by
    unfold past Place.step
    dsimp only
    split <;> rfl
  rw [left, hoffset, left, ← Nat.sub_sub]
  rfl

theorem left_past_lt {s : Scanner} {g : Glyph} (h : s.peek = .ok (some g)) :
    (s.past g).left < s.left := by
  unfold peek at h
  split at h
  · cases h
  · rename_i hleft
    rw [Strict.suffix_eq (by omega)] at h
    have hpos := Text.length_pos_of_glyph? (Except.ok.inj h)
    rw [left_past, left]
    omega

/-- Passes over the characters in front that have a property. -/
def skipWhile (p : Char → Bool) (s : Scanner) : Except Fault Scanner :=
  match _h : s.peek with
  | .error e => .error e
  | .ok none => .ok s
  | .ok (some g) => if p g.char then (s.past g).skipWhile p else .ok s
termination_by s.left
decreasing_by exact left_past_lt _h

/-- Passes over separators, and over a comment up to the end of its line. -/
def skipBlanks (s : Scanner) : Except Fault Scanner :=
  match _h : s.peek with
  | .error e => .error e
  | .ok none => .ok s
  | .ok (some g) =>
    if g.char = '\n' then .ok s
    else if isSeparator g.char then (s.past g).skipBlanks
    else if g.char = s.lexicon.comment then s.skipWhile (· ≠ '\n')
    else .ok s
termination_by s.left
decreasing_by exact left_past_lt _h

/-- Takes the characters of a name. -/
def word (s : Scanner) : Except Fault (Text × Scanner) := do
  let after ← s.skipWhile s.lexicon.isNameChar
  let contents : Text ← Strict.slice s.source s.place.offset after.place.offset
  return (contents, after)

-- ---------------------------------------------------------------------------
-- Taking tokens
-- ---------------------------------------------------------------------------

/-- A token that starts where the scanner is. -/
def token (s : Scanner) (kind : TokenKind) (contents : Text) : Token :=
  ⟨kind, contents, s.place.position s.file, true⟩

/-- A directive, with its marker `g` in front. -/
def directive (s : Scanner) (g : Glyph) : Except Fault (Lexed × Scanner) := do
  let (name, after) ← (s.past g).word
  let contents := Text.ofChar s.lexicon.pseudo ++ name
  return match directiveKeyword? name with
    | some k => ({ token := s.token k contents }, after)
    | none =>
      ({ token := { s.token .illegal contents with legal := false }
         cause := some (.unknownDirective contents) }, after)

/-- A number that starts with `g`. -/
def number (s : Scanner) (g : Glyph) : Except Fault (Lexed × Scanner) := do
  let (_, after) ← (s.past g).word
  let contents : Text ← Strict.slice s.source s.place.offset after.place.offset
  let cause := if contents.toInt?.isSome then none else some (.malformedInteger contents)
  return ({ token := s.token .constant contents, cause := cause }, after)

/-- A name, or a label if the label character follows it. -/
def name (s : Scanner) : Except Fault (Lexed × Scanner) := do
  let (name, after) ← s.word
  match ← after.peek with
  | some g =>
    if s.lexicon.label ≠ '\x00' ∧ g.char = s.lexicon.label then
      return ({ token := s.token .label (name ++ Text.ofChar g.char) }, after.past g)
    else return ({ token := s.token ((bareKeyword? name).getD .identifier) name }, after)
  | none => return ({ token := s.token ((bareKeyword? name).getD .identifier) name }, after)

/-- A string literal that is not closed. -/
def unterminated (s : Scanner) (contents : Text) : Lexed where
  token := s.token .string contents
  cause := some .unterminatedString

/-- A backslash with a character that may not follow it, or with none. -/
def badEscape (s : Scanner) (c : Option Char) : Lexed where
  token := { s.token .illegal (Text.ofChar '\\' ++ escapeContents c) with legal := false }
  cause := some (.illegalEscape c)

/-- Goes on with the string literal that starts at `start`, behind the contents read
so far. -/
def stringFrom (start : Scanner) (contents : Text) (s : Scanner) :
    Except Fault (Lexed × Scanner) :=
  match _h : s.peek with
  | .error e => .error e
  | .ok none => .ok (start.unterminated contents, s)
  | .ok (some g) =>
    if g.char = '\n' then .ok (start.unterminated contents, s.past g)
    else if g.char = '\x22' then .ok ({ token := start.token .string contents }, s.past g)
    else if g.char = '\\' then
      match _hescaped : (s.past g).peek with
      | .error e => .error e
      | .ok none => .ok (s.badEscape none, s.past g)
      | .ok (some e) =>
        match unescape? e.char with
        | some c => stringFrom start (contents ++ Text.ofChar c) ((s.past g).past e)
        | none => .ok (s.badEscape (some e.char), (s.past g).past e)
    else stringFrom start (contents ++ Text.ofChar g.char) (s.past g)
termination_by s.left
decreasing_by
  · exact Nat.lt_trans (left_past_lt _hescaped) (left_past_lt _h)
  · exact left_past_lt _h

/-- The token that starts with `g`, which is neither a separator nor the start of a
comment. -/
def tokenFrom (s : Scanner) (g : Glyph) : Except Fault (Lexed × Scanner) := do
  match Lexicon.solitary? g.char with
  | some k => return ({ token := s.token k (Text.ofChar g.char) }, s.past g)
  | none =>
    let next ← s.peekAt 1
    let next := next.map Glyph.char
    if g.char = '\x22' then stringFrom s [] (s.past g)
    else if g.char = s.lexicon.pseudo ∧ next.any isLetter then s.directive g
    else if s.lexicon.startsNumber g.char next then s.number g
    else if s.lexicon.isNameStart g.char then s.name
    else
      return ({ token := { s.token .illegal (Text.ofChar g.char) with legal := false } }, s.past g)

/-- Takes the next token. -/
def next (s : Scanner) : Except Fault (Lexed × Scanner) := do
  let s ← s.skipBlanks
  match ← s.peek with
  | none => return ({ token := s.token .eof [] }, s)
  | some g => s.tokenFrom g

-- ---------------------------------------------------------------------------
-- Scanning comes to an end
-- ---------------------------------------------------------------------------

theorem left_le_of_skipWhile {p : Char → Bool} {s after : Scanner}
    (h : s.skipWhile p = .ok after) : after.left ≤ s.left := by
  fun_induction skipWhile p s with
  | case1 => cases h
  | case2 =>
    cases h
    exact Nat.le_refl _
  | case3 s g hpeek _ ih => exact Nat.le_trans (ih h) (Nat.le_of_lt (left_past_lt hpeek))
  | case4 =>
    cases h
    exact Nat.le_refl _

theorem left_le_of_skipBlanks {s after : Scanner} (h : s.skipBlanks = .ok after) :
    after.left ≤ s.left := by
  fun_induction skipBlanks s with
  | case1 => cases h
  | case4 s g hpeek _ _ ih => exact Nat.le_trans (ih h) (Nat.le_of_lt (left_past_lt hpeek))
  | case5 => exact left_le_of_skipWhile h
  | _ =>
    cases h
    exact Nat.le_refl _

theorem left_le_of_stringFrom {start s after : Scanner} {contents : Text} {x : Lexed}
    (h : stringFrom start contents s = .ok (x, after)) : after.left ≤ s.left := by
  fun_induction stringFrom start contents s with
  | case1 => cases h
  | case2 =>
    cases h
    exact Nat.le_refl _
  | case3 _ _ _ hpeek =>
    cases h
    exact Nat.le_of_lt (left_past_lt hpeek)
  | case4 _ _ _ hpeek =>
    cases h
    exact Nat.le_of_lt (left_past_lt hpeek)
  | case5 => cases h
  | case6 _ _ _ hpeek =>
    cases h
    exact Nat.le_of_lt (left_past_lt hpeek)
  | case7 _ _ _ hpeek _ _ _ _ hescaped _ _ ih =>
    exact Nat.le_trans (ih h)
      (Nat.le_of_lt (Nat.lt_trans (left_past_lt hescaped) (left_past_lt hpeek)))
  | case8 _ _ _ hpeek _ _ _ _ hescaped =>
    cases h
    exact Nat.le_of_lt (Nat.lt_trans (left_past_lt hescaped) (left_past_lt hpeek))
  | case9 _ _ _ hpeek _ _ _ ih => exact Nat.le_trans (ih h) (Nat.le_of_lt (left_past_lt hpeek))

theorem left_le_of_word {s after : Scanner} {contents : Text} (h : s.word = .ok (contents, after)) :
    after.left ≤ s.left := by
  obtain ⟨_, hskip, h⟩ := Strict.exists_of_bind h
  obtain ⟨_, _, h⟩ := Strict.exists_of_bind h
  cases h
  exact left_le_of_skipWhile hskip

/-- A word behind the character `g` is taken from what is left behind it. -/
theorem left_lt_of_word {s after : Scanner} {g : Glyph} {contents : Text}
    (hpeek : s.peek = .ok (some g)) (h : (s.past g).word = .ok (contents, after)) :
    after.left < s.left :=
  Nat.lt_of_le_of_lt (left_le_of_word h) (left_past_lt hpeek)

theorem left_lt_of_directive {s after : Scanner} {g : Glyph} {x : Lexed}
    (hpeek : s.peek = .ok (some g)) (h : s.directive g = .ok (x, after)) : after.left < s.left := by
  obtain ⟨⟨name, _⟩, hword, h⟩ := Strict.exists_of_bind h
  dsimp only at h
  split at h
  · cases h
    exact left_lt_of_word hpeek hword
  · cases h
    exact left_lt_of_word hpeek hword

theorem left_lt_of_number {s after : Scanner} {g : Glyph} {x : Lexed}
    (hpeek : s.peek = .ok (some g)) (h : s.number g = .ok (x, after)) : after.left < s.left := by
  obtain ⟨_, hword, h⟩ := Strict.exists_of_bind h
  obtain ⟨_, _, h⟩ := Strict.exists_of_bind h
  cases h
  exact left_lt_of_word hpeek hword

theorem left_lt_of_skipWhile {p : Char → Bool} {s after : Scanner} {g : Glyph}
    (hpeek : s.peek = .ok (some g)) (hg : p g.char) (h : s.skipWhile p = .ok after) :
    after.left < s.left := by
  unfold skipWhile at h
  split at h
  · cases h
  · rename_i hend
    rw [hpeek] at hend
    cases hend
  · rename_i g' hpeek'
    rw [hpeek] at hpeek'
    cases hpeek'
    rw [if_pos hg] at h
    exact Nat.lt_of_le_of_lt (left_le_of_skipWhile h) (left_past_lt hpeek)

/-- A name starts with a character that may stand in it. -/
theorem left_lt_of_name {s after : Scanner} {g : Glyph} {x : Lexed}
    (hpeek : s.peek = .ok (some g)) (hg : s.lexicon.isNameChar g.char)
    (h : s.name = .ok (x, after)) : after.left < s.left := by
  obtain ⟨⟨name, behind⟩, hword, h⟩ := Strict.exists_of_bind h
  have hbehind : behind.left < s.left := by
    obtain ⟨_, hskip, hword⟩ := Strict.exists_of_bind hword
    obtain ⟨_, _, hword⟩ := Strict.exists_of_bind hword
    cases hword
    exact left_lt_of_skipWhile hpeek hg hskip
  obtain ⟨next, hnext, h⟩ := Strict.exists_of_bind h
  cases next with
  | none =>
    cases h
    exact hbehind
  | some g =>
    dsimp only at h
    split at h
    · cases h
      exact Nat.lt_trans (left_past_lt hnext) hbehind
    · cases h
      exact hbehind

theorem left_lt_of_tokenFrom {s after : Scanner} {g : Glyph} {x : Lexed}
    (hpeek : s.peek = .ok (some g)) (h : s.tokenFrom g = .ok (x, after)) : after.left < s.left := by
  unfold tokenFrom at h
  split at h
  · cases h
    exact left_past_lt hpeek
  · obtain ⟨_, _, h⟩ := Strict.exists_of_bind h
    dsimp only at h
    split at h
    · exact Nat.lt_of_le_of_lt (left_le_of_stringFrom h) (left_past_lt hpeek)
    · split at h
      · exact left_lt_of_directive hpeek h
      · split at h
        · exact left_lt_of_number hpeek h
        · split at h
          · rename_i hstart
            exact left_lt_of_name hpeek (by simp [Lexicon.isNameChar, hstart]) h
          · cases h
            exact left_past_lt hpeek

/-- Every token but the last takes something from the text. -/
theorem left_lt_of_next {s after : Scanner} {x : Lexed} (h : s.next = .ok (x, after))
    (hkind : x.token.kind ≠ .eof) : after.left < s.left := by
  obtain ⟨front, hskip, h⟩ := Strict.exists_of_bind h
  obtain ⟨glyph, hpeek, h⟩ := Strict.exists_of_bind h
  cases glyph with
  | none =>
    cases h
    exact absurd rfl hkind
  | some g => exact Nat.lt_of_lt_of_le (left_lt_of_tokenFrom hpeek h) (left_le_of_skipBlanks hskip)

/-- All tokens up to and with the end. -/
def scan (s : Scanner) : Except Fault (List Lexed) :=
  match _h : s.next with
  | .error e => .error e
  | .ok (x, after) =>
    if _hkind : x.token.kind = .eof then .ok [x]
    else do
      return x :: (← after.scan)
termination_by s.left
decreasing_by exact left_lt_of_next _h _hkind

end Scanner

end CellAsm
