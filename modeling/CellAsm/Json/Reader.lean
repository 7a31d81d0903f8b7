-- SUMMARY: Reading a JSON value off the front of a text.
import CellAsm.Json.Basic

/-!
# Reading JSON

The reader works on characters, so a stray byte inside a string becomes the
replacement character and outside a string is an error. Lexemes are taken one at
a time from the text, and a stack of unfinished arrays and objects holds what
has been read; a value is complete when the stack is empty. What follows the
value is left alone.
-/
namespace CellAsm.Json

-- ---------------------------------------------------------------------------
-- Strings
-- ---------------------------------------------------------------------------

def hexDigit? (c : Char) : Option Nat :=
  if '0' ≤ c ∧ c ≤ '9' then some (c.toNat - 48)
  else if 'a' ≤ c ∧ c ≤ 'f' then some (c.toNat - 87)
  else if 'A' ≤ c ∧ c ≤ 'F' then some (c.toNat - 55)
  else none

/-- The code an escape of one letter stands for. -/
def escapeCode? : Char → Option Nat
  | '\x22' => some 0x22
  | '\\' => some 0x5C
  | '/' => some 0x2F
  | 'b' => some 0x08
  | 'f' => some 0x0C
  | 'n' => some 0x0A
  | 'r' => some 0x0D
  | 't' => some 0x09
  | _ => none

/-- The codes between an opening quote and its closing quote, and what follows.
An escape by number gives a code that may be half of a surrogate pair. -/
def stringCodes? : List Char → Option (List Nat × List Char)
  | [] => none
  | '\x22' :: rest => some ([], rest)
  | '\\' :: 'u' :: a :: b :: c :: d :: rest => do
    let n := (((← hexDigit? a) * 16 + (← hexDigit? b)) * 16 + (← hexDigit? c)) * 16 + (← hexDigit? d)
    let (codes, rest) ← stringCodes? rest
    some (n :: codes, rest)
  | '\\' :: e :: rest => do
    let n ← escapeCode? e
    let (codes, rest) ← stringCodes? rest
    some (n :: codes, rest)
  | c :: rest =>
    if c.toNat < 0x20 ∨ c = '\\' then none
    else do
      let (codes, rest) ← stringCodes? rest
      some (c.toNat :: codes, rest)

def isHighSurrogate (n : Nat) : Bool := 0xD800 ≤ n && n < 0xDC00

def isLowSurrogate (n : Nat) : Bool := 0xDC00 ≤ n && n < 0xE000

def charOfCode (n : Nat) : Char :=
  if n.isValidChar then Char.ofNat n else Utf8.replacement

/-- Joins surrogate pairs; half a pair becomes the replacement character. -/
def charsOfCodes : List Nat → List Char
  | [] => []
  | [n] => [charOfCode n]
  | n :: m :: rest =>
    if isHighSurrogate n && isLowSurrogate m then
      charOfCode (0x10000 + (n - 0xD800) * 0x400 + (m - 0xDC00)) :: charsOfCodes rest
    else charOfCode n :: charsOfCodes (m :: rest)

-- ---------------------------------------------------------------------------
-- Numbers
-- ---------------------------------------------------------------------------

/-- One or more digits. -/
def digitRun? (cs : List Char) : Option (List Char × List Char) :=
  if (cs.takeWhile Char.isDigit).isEmpty then none
  else some (cs.takeWhile Char.isDigit, cs.dropWhile Char.isDigit)

/-- Digits without a needless zero in front. -/
def integerPart? : List Char → Option (List Char × List Char)
  | '0' :: rest => some (['0'], rest)
  | cs => digitRun? cs

/-- A point and its digits, if there is one. -/
def fractionPart? : List Char → Option (List Char × List Char)
  | '.' :: rest => (digitRun? rest).map fun (ds, rest) => ('.' :: ds, rest)
  | cs => some ([], cs)

/-- The digits of an exponent, with an optional sign. -/
def exponentDigits? : List Char → Option (List Char × List Char)
  | '+' :: rest => (digitRun? rest).map fun (ds, rest) => ('+' :: ds, rest)
  | '-' :: rest => (digitRun? rest).map fun (ds, rest) => ('-' :: ds, rest)
  | cs => digitRun? cs

def exponentPart? : List Char → Option (List Char × List Char)
  | 'e' :: rest => (exponentDigits? rest).map fun (ds, rest) => ('e' :: ds, rest)
  | 'E' :: rest => (exponentDigits? rest).map fun (ds, rest) => ('E' :: ds, rest)
  | cs => some ([], cs)

def unsignedNumber? (cs : List Char) : Option (List Char × List Char) := do
  let (whole, cs) ← integerPart? cs
  let (fraction, cs) ← fractionPart? cs
  let (exponent, cs) ← exponentPart? cs
  some (whole ++ fraction ++ exponent, cs)

def number? : List Char → Option (List Char × List Char)
  | '-' :: rest => (unsignedNumber? rest).map fun (ds, rest) => ('-' :: ds, rest)
  | cs => unsignedNumber? cs

-- ---------------------------------------------------------------------------
-- Lexemes
-- ---------------------------------------------------------------------------

inductive Lexeme
  | leftBrace
  | rightBrace
  | leftBracket
  | rightBracket
  | colon
  | comma
  | string (t : Text)
  /-- A value that is neither a string nor has parts. -/
  | scalar (v : Value)
deriving Repr

def isSpace (c : Char) : Bool := c == ' ' || c == '\t' || c == '\n' || c == '\r'

/-- The lexeme that starts with `c`, and what follows it. -/
def lexemeFrom? (c : Char) (rest : List Char) : Option (Lexeme × List Char) :=
  match c, rest with
  | '\x7b', rest => some (.leftBrace, rest)
  | '\x7d', rest => some (.rightBrace, rest)
  | '[', rest => some (.leftBracket, rest)
  | ']', rest => some (.rightBracket, rest)
  | ':', rest => some (.colon, rest)
  | ',', rest => some (.comma, rest)
  | '\x22', rest =>
    (stringCodes? rest).map fun (codes, rest) => (.string (Text.ofChars (charsOfCodes codes)), rest)
  | 'n', 'u' :: 'l' :: 'l' :: rest => some (.scalar .null, rest)
  | 't', 'r' :: 'u' :: 'e' :: rest => some (.scalar (.bool true), rest)
  | 'f', 'a' :: 'l' :: 's' :: 'e' :: rest => some (.scalar (.bool false), rest)
  | c, rest =>
    (number? (c :: rest)).map fun (ds, rest) => (.scalar (.number (Text.ofChars ds)), rest)

/-- The next lexeme after any blanks. -/
def lexeme? (cs : List Char) : Option (Lexeme × List Char) :=
  match cs.dropWhile isSpace with
  | [] => none
  | c :: rest => lexemeFrom? c rest

theorem stringCodes?_length {cs : List Char} {codes : List Nat} {rest : List Char}
    (h : stringCodes? cs = some (codes, rest)) : rest.length < cs.length := by
  fun_induction stringCodes? cs generalizing codes rest with
  | case1 => simp at h
  | case2 => simp_all
  | case3 a b c d rest' ih =>
    simp only [Option.bind_eq_bind, Option.bind_eq_some_iff] at h
    obtain ⟨_, _, _, _, _, _, _, _, ⟨codes', rest''⟩, hrec, heq⟩ := h
    have := ih hrec
    cases heq
    simp only [List.length_cons]
    omega
  | case4 e rest' _ ih =>
    simp only [Option.bind_eq_bind, Option.bind_eq_some_iff] at h
    obtain ⟨_, _, ⟨codes', rest''⟩, hrec, heq⟩ := h
    have := ih hrec
    cases heq
    simp only [List.length_cons]
    omega
  | case5 => simp at h
  | case6 c rest' _ _ _ _ ih =>
    simp only [Option.bind_eq_bind, Option.bind_eq_some_iff] at h
    obtain ⟨⟨codes', rest''⟩, hrec, heq⟩ := h
    have := ih hrec
    cases heq
    simp only [List.length_cons]
    omega

theorem length_dropWhile_le {α : Type} (p : α → Bool) (l : List α) :
    (l.dropWhile p).length ≤ l.length :=
  (List.dropWhile_sublist p).length_le

theorem digitRun?_length {cs ds rest : List Char} (h : digitRun? cs = some (ds, rest)) :
    rest.length < cs.length := by
  unfold digitRun? at h
  split at h
  · simp at h
  · rename_i hne
    simp only [Option.some.injEq, Prod.mk.injEq] at h
    obtain ⟨rfl, rfl⟩ := h
    have hlen := congrArg List.length (List.takeWhile_append_dropWhile (p := Char.isDigit) (l := cs))
    rw [List.length_append] at hlen
    have : 0 < (cs.takeWhile Char.isDigit).length := by
      rcases hd : cs.takeWhile Char.isDigit with _ | _ <;> simp_all
    omega

theorem integerPart?_length {cs ds rest : List Char} (h : integerPart? cs = some (ds, rest)) :
    rest.length < cs.length := by
  unfold integerPart? at h
  split at h
  · simp_all
  · exact digitRun?_length h

theorem exponentDigits?_length {cs ds rest : List Char}
    (h : exponentDigits? cs = some (ds, rest)) : rest.length < cs.length := by
  unfold exponentDigits? at h
  split at h
  · obtain ⟨⟨ds', rest'⟩, hrun, heq⟩ := Option.map_eq_some_iff.1 h
    have := digitRun?_length hrun
    cases heq
    simp only [List.length_cons]
    omega
  · obtain ⟨⟨ds', rest'⟩, hrun, heq⟩ := Option.map_eq_some_iff.1 h
    have := digitRun?_length hrun
    cases heq
    simp only [List.length_cons]
    omega
  · exact digitRun?_length h

theorem fractionPart?_length {cs ds rest : List Char} (h : fractionPart? cs = some (ds, rest)) :
    rest.length ≤ cs.length := by
  unfold fractionPart? at h
  split at h
  · obtain ⟨⟨ds', rest'⟩, hrun, heq⟩ := Option.map_eq_some_iff.1 h
    have := digitRun?_length hrun
    cases heq
    simp only [List.length_cons]
    omega
  · simp_all

theorem exponentPart?_length {cs ds rest : List Char} (h : exponentPart? cs = some (ds, rest)) :
    rest.length ≤ cs.length := by
  unfold exponentPart? at h
  split at h
  · obtain ⟨⟨ds', rest'⟩, hrun, heq⟩ := Option.map_eq_some_iff.1 h
    have := exponentDigits?_length hrun
    cases heq
    simp only [List.length_cons]
    omega
  · obtain ⟨⟨ds', rest'⟩, hrun, heq⟩ := Option.map_eq_some_iff.1 h
    have := exponentDigits?_length hrun
    cases heq
    simp only [List.length_cons]
    omega
  · simp_all

theorem unsignedNumber?_length {cs ds rest : List Char}
    (h : unsignedNumber? cs = some (ds, rest)) : rest.length < cs.length := by
  simp only [unsignedNumber?, Option.bind_eq_bind, Option.bind_eq_some_iff] at h
  obtain ⟨⟨_, r₁⟩, h₁, ⟨_, r₂⟩, h₂, ⟨_, r₃⟩, h₃, heq⟩ := h
  have := integerPart?_length h₁
  have := fractionPart?_length h₂
  have := exponentPart?_length h₃
  cases heq
  dsimp only at *
  omega

theorem number?_length {cs ds rest : List Char} (h : number? cs = some (ds, rest)) :
    rest.length < cs.length := by
  unfold number? at h
  split at h
  · obtain ⟨⟨ds', rest'⟩, hrun, heq⟩ := Option.map_eq_some_iff.1 h
    have := unsignedNumber?_length hrun
    cases heq
    simp only [List.length_cons]
    omega
  · exact unsignedNumber?_length h

theorem lexemeFrom?_length {c : Char} {cs rest : List Char} {x : Lexeme}
    (h : lexemeFrom? c cs = some (x, rest)) : rest.length ≤ cs.length := by
  unfold lexemeFrom? at h
  split at h
  case h_7 =>
    obtain ⟨⟨codes, rest'⟩, hrun, heq⟩ := Option.map_eq_some_iff.1 h
    have := stringCodes?_length hrun
    cases heq
    exact Nat.le_of_lt this
  case h_8 | h_9 | h_10 =>
    cases h
    simp only [List.length_cons]
    omega
  case h_11 =>
    obtain ⟨⟨ds, rest'⟩, hrun, heq⟩ := Option.map_eq_some_iff.1 h
    have := number?_length hrun
    cases heq
    exact Nat.le_of_lt_succ this
  all_goals
    cases h
    exact Nat.le_refl _

/-- A lexeme is not empty. -/
theorem lexeme?_length {cs rest : List Char} {x : Lexeme} (h : lexeme? cs = some (x, rest)) :
    rest.length < cs.length := by
  unfold lexeme? at h
  have hle := length_dropWhile_le isSpace cs
  split at h
  · simp at h
  · rename_i c rest' heq
    have := lexemeFrom?_length h
    rw [heq, List.length_cons] at hle
    omega

-- ---------------------------------------------------------------------------
-- Values
-- ---------------------------------------------------------------------------

/-- An array or object that is not complete: its parts so far, the last first,
and for an object the key whose value is being read. -/
inductive Frame
  | array (items : List Value)
  | object (members : List (Text × Value)) (key : Text)
deriving Repr

/-- What may come next. -/
inductive Expecting
  | value
  /-- The first item of an array, or its end. -/
  | itemOrEnd
  /-- The first key of an object, or its end. -/
  | keyOrEnd
  | key
  | colon
  /-- A comma, or the end of the array or object. -/
  | commaOrEnd
deriving DecidableEq, Repr

inductive Progress
  | done (v : Value)
  | more (stack : List Frame) (expecting : Expecting)
deriving Repr

/-- Arrays and objects nested deeper than this are refused. -/
def maxDepth : Nat := 10000

/-- Hands a complete value to the innermost unfinished array or object. -/
def deliver (v : Value) : List Frame → Progress
  | [] => .done v
  | .array items :: stack => .more (.array (v :: items) :: stack) .commaOrEnd
  | .object members key :: stack => .more (.object ((key, v) :: members) key :: stack) .commaOrEnd

def enter (f : Frame) (stack : List Frame) (expecting : Expecting) : Option Progress :=
  if stack.length < maxDepth then some (.more (f :: stack) expecting) else none

/-- A lexeme where a value may start. -/
def startValue? (stack : List Frame) : Lexeme → Option Progress
  | .leftBrace => enter (.object [] []) stack .keyOrEnd
  | .leftBracket => enter (.array []) stack .itemOrEnd
  | .string t => some (deliver (.string t) stack)
  | .scalar v => some (deliver v stack)
  | _ => none

/-- Takes one lexeme; `none` if it may not stand here. -/
def step? (stack : List Frame) : Expecting → Lexeme → Option Progress
  | .value, x => startValue? stack x
  | .itemOrEnd, .rightBracket =>
    match stack with
    | .array items :: stack => some (deliver (.array items.reverse) stack)
    | _ => none
  | .itemOrEnd, x => startValue? stack x
  | .keyOrEnd, .rightBrace =>
    match stack with
    | .object members _ :: stack => some (deliver (.object members.reverse) stack)
    | _ => none
  | .keyOrEnd, .string key | .key, .string key =>
    match stack with
    | .object members _ :: stack => some (.more (.object members key :: stack) .colon)
    | _ => none
  | .colon, .colon => some (.more stack .value)
  | .commaOrEnd, .comma =>
    match stack with
    | .array _ :: _ => some (.more stack .value)
    | .object _ _ :: _ => some (.more stack .key)
    | [] => none
  | .commaOrEnd, .rightBracket =>
    match stack with
    | .array items :: stack => some (deliver (.array items.reverse) stack)
    | _ => none
  | .commaOrEnd, .rightBrace =>
    match stack with
    | .object members _ :: stack => some (deliver (.object members.reverse) stack)
    | _ => none
  | _, _ => none

/-- Reads on until the stack is empty. -/
def readFrom? (stack : List Frame) (expecting : Expecting) (cs : List Char) :
    Option (Value × List Char) :=
  match _h : lexeme? cs with
  | none => none
  | some (x, rest) =>
    match step? stack expecting x with
    | none => none
    | some (.done v) => some (v, rest)
    | some (.more stack expecting) => readFrom? stack expecting rest
termination_by cs.length
decreasing_by exact lexeme?_length _h

/-- The first value of a text. -/
def Value.first? (t : Text) : Option Value :=
  (readFrom? [] .value t.chars).map (·.1)

/-- The value that is the whole text, blanks around it apart. -/
def Value.whole? (t : Text) : Option Value :=
  match readFrom? [] .value t.chars with
  | some (v, rest) => if rest.all isSpace then some v else none
  | none => none

end CellAsm.Json
