-- SUMMARY: Scanning a text byte by byte is the same as taking lexemes from its glyphs.
import CellAsm.Proofs.Outcome
import CellAsm.Source.Reader

/-!
# Lexemes

The scanner finds its way through a text by offsets, and decodes and cuts the text at
them. What it gives depends on the glyphs that are left only: how many of them belong to
the next token, what its contents are, and whether something is wrong with it. This is
stated here without offsets, and the scanner is shown to do the same. In particular no
offset is ever outside the text.
-/
namespace CellAsm

/-- The place after some glyphs. -/
def Place.past (p : Place) (gs : List Glyph) : Place := gs.foldl step p

/-- The part of a text that has not been read, and the place where it starts. -/
structure Cursor where
  place : Place := {}
  rest : List Glyph
deriving DecidableEq, Repr

namespace Cursor

def ofText (t : Text) : Cursor := ⟨{}, t.glyphs⟩

/-- Passes over `n` glyphs. -/
def skip (c : Cursor) (n : Nat) : Cursor := ⟨c.place.past (c.rest.take n), c.rest.drop n⟩

end Cursor

/-! ## Lexemes -/

/-- What stands at the front of a list of glyphs: the kind and contents of its
token, how many glyphs it takes, and behind how many of them the token is
located. -/
structure Lexeme where
  kind : TokenKind
  contents : Text
  taken : Nat
  legal : Bool := true
  lead : Nat := 0
  cause : Option Cause := none
deriving DecidableEq, Repr

/-- How a string literal ends. -/
inductive StringEnd
  | closed
  | unterminated
  /-- A backslash with a character that may not follow it, or with none. -/
  | badEscape (c : Option Char)
deriving DecidableEq, Repr

/-- The decoded contents of a string literal after its opening quote, and how
many glyphs they take with what ends them. -/
structure StringBody where
  contents : Text
  taken : Nat
  ending : StringEnd
deriving DecidableEq, Repr

namespace StringBody

/-- The body with one more character in front, written with `n` glyphs. -/
def cons (c : Char) (n : Nat) (b : StringBody) : StringBody :=
  ⟨Text.ofChar c ++ b.contents, n + b.taken, b.ending⟩

end StringBody

def stringBody : List Glyph → StringBody
  | [] => ⟨[], 0, .unterminated⟩
  | [g] =>
    if g.char = '\n' then ⟨[], 1, .unterminated⟩
    else if g.char = '\x22' then ⟨[], 1, .closed⟩
    else if g.char = '\\' then ⟨[], 1, .badEscape none⟩
    else (stringBody []).cons g.char 1
  | g :: e :: rest =>
    if g.char = '\n' then ⟨[], 1, .unterminated⟩
    else if g.char = '\x22' then ⟨[], 1, .closed⟩
    else if g.char = '\\' then
      match unescape? e.char with
      | some c => (stringBody rest).cons c 2
      | none => ⟨[], 2, .badEscape (some e.char)⟩
    else (stringBody (e :: rest)).cons g.char 1

/-- A string literal whose opening quote is followed by `rest`. -/
def stringLexeme (rest : List Glyph) : Lexeme :=
  let body := stringBody rest
  match body.ending with
  | .closed => { kind := .string, contents := body.contents, taken := 1 + body.taken }
  | .unterminated =>
    { kind := .string, contents := body.contents, taken := 1 + body.taken
      cause := some .unterminatedString }
  | .badEscape c =>
    { kind := .illegal, contents := Text.ofChar '\\' ++ escapeContents c, taken := 1 + body.taken
      legal := false, lead := 1 + body.taken - (if c.isSome then 2 else 1)
      cause := some (.illegalEscape c) }

namespace Lexicon

/-- The glyphs at the front that belong to a name. -/
def word (lx : Lexicon) (gs : List Glyph) : List Glyph := gs.takeWhile fun g => lx.isNameChar g.char

/-- A directive whose marker is followed by `rest`. -/
def directiveLexeme (lx : Lexicon) (rest : List Glyph) : Lexeme :=
  let word := lx.word rest
  let name := word.flatMap Glyph.bytes
  let contents := Text.ofChar lx.pseudo ++ name
  match directiveKeyword? name with
  | some k => { kind := k, contents := contents, taken := 1 + word.length }
  | none =>
    { kind := .illegal, contents := contents, taken := 1 + word.length, legal := false
      cause := some (.unknownDirective contents) }

/-- A number that starts with `g`. -/
def numberLexeme (lx : Lexicon) (g : Glyph) (rest : List Glyph) : Lexeme :=
  let word := lx.word rest
  let contents := g.bytes ++ word.flatMap Glyph.bytes
  { kind := .constant, contents := contents, taken := 1 + word.length
    cause := if contents.toInt?.isSome then none else some (.malformedInteger contents) }

/-- A name that starts with `g`, or a label if the label character follows it. -/
def nameLexeme (lx : Lexicon) (g : Glyph) (rest : List Glyph) : Lexeme :=
  let word := g :: lx.word rest
  let name := word.flatMap Glyph.bytes
  let after := (rest.drop (lx.word rest).length).head?.map Glyph.char
  if lx.label ≠ '\x00' ∧ after = some lx.label then
    { kind := .label, contents := name ++ Text.ofChar lx.label, taken := word.length + 1 }
  else
    { kind := (bareKeyword? name).getD .identifier, contents := name, taken := word.length }

/-- The lexeme that starts with `g`, which is neither a separator nor the start
of a comment. -/
def lexeme (lx : Lexicon) (g : Glyph) (rest : List Glyph) : Lexeme :=
  match solitary? g.char with
  | some k => { kind := k, contents := Text.ofChar g.char, taken := 1 }
  | none =>
    let next := rest.head?.map Glyph.char
    if g.char = '\x22' then stringLexeme rest
    else if g.char = lx.pseudo ∧ next.any isLetter then lx.directiveLexeme rest
    else if lx.startsNumber g.char next then lx.numberLexeme g rest
    else if lx.isNameStart g.char then lx.nameLexeme g rest
    else { kind := .illegal, contents := Text.ofChar g.char, taken := 1, legal := false }

/-- How many glyphs to pass over before the next lexeme: separators, and
comments up to the end of their line. -/
def separation (lx : Lexicon) : Bool → List Glyph → Nat
  | _, [] => 0
  | inComment, g :: rest =>
    if g.char = '\n' then 0
    else if inComment || isSeparator g.char then 1 + lx.separation inComment rest
    else if g.char = lx.comment then 1 + lx.separation true rest
    else 0

end Lexicon

/-! ## Scanning -/

/-- A token, what is wrong with it, and where scanning goes on. -/
structure Scan where
  token : Token
  cause : Option Cause
  next : Cursor
deriving DecidableEq, Repr

namespace Scan

def diagnostic? (s : Scan) : Option Diagnostic := s.cause.map fun c => ⟨c, some s.token⟩

end Scan

namespace Lexicon

/-- Takes the next token of a file. -/
def next (lx : Lexicon) (file : Text) (c : Cursor) : Scan :=
  let c := c.skip (lx.separation false c.rest)
  match c.rest with
  | [] => ⟨⟨.eof, [], c.place.position file, true⟩, none, c⟩
  | g :: rest =>
    let x := lx.lexeme g rest
    ⟨⟨x.kind, x.contents, (c.skip x.lead).place.position file, x.legal⟩, x.cause, c.skip x.taken⟩

theorem bareKeyword?_ne_eof (word : Text) : (bareKeyword? word).getD .identifier ≠ .eof := by
  unfold bareKeyword?
  repeat' split
  all_goals simp

theorem directiveKeyword?_ne_eof {word : Text} {k : TokenKind} (h : directiveKeyword? word = some k) :
    k ≠ .eof := by
  unfold directiveKeyword? at h
  repeat' split at h
  all_goals simp_all
  all_goals subst h; simp

theorem stringLexeme_kind (rest : List Glyph) : (stringLexeme rest).kind ≠ .eof := by
  unfold stringLexeme
  dsimp only
  split <;> simp

theorem stringLexeme_taken (rest : List Glyph) : 0 < (stringLexeme rest).taken := by
  unfold stringLexeme
  dsimp only
  split <;> dsimp only <;> omega

theorem directiveLexeme_kind (lx : Lexicon) (rest : List Glyph) :
    (lx.directiveLexeme rest).kind ≠ .eof := by
  unfold directiveLexeme
  dsimp only
  split
  · rename_i h; exact directiveKeyword?_ne_eof h
  · simp

theorem directiveLexeme_taken (lx : Lexicon) (rest : List Glyph) :
    0 < (lx.directiveLexeme rest).taken := by
  unfold directiveLexeme
  dsimp only
  split <;> dsimp only <;> omega

theorem nameLexeme_kind (lx : Lexicon) (g : Glyph) (rest : List Glyph) :
    (lx.nameLexeme g rest).kind ≠ .eof := by
  unfold nameLexeme
  dsimp only
  split
  · simp
  · exact bareKeyword?_ne_eof _

theorem nameLexeme_taken (lx : Lexicon) (g : Glyph) (rest : List Glyph) :
    0 < (lx.nameLexeme g rest).taken := by
  unfold nameLexeme
  dsimp only
  split <;> simp

theorem solitary?_ne_eof {c : Char} {k : TokenKind} (h : solitary? c = some k) : k ≠ .eof := by
  unfold solitary? at h
  split at h <;> simp_all <;> subst h <;> simp

/-- Only the end of the text is an end of file. -/
theorem lexeme_kind (lx : Lexicon) (g : Glyph) (rest : List Glyph) :
    (lx.lexeme g rest).kind ≠ .eof := by
  unfold lexeme
  split
  · rename_i h; exact solitary?_ne_eof h
  · dsimp only
    split
    · exact stringLexeme_kind rest
    · split
      · exact directiveLexeme_kind lx rest
      · split
        · simp [numberLexeme]
        · split
          · exact nameLexeme_kind lx g rest
          · simp

/-- A lexeme is not empty. -/
theorem lexeme_taken (lx : Lexicon) (g : Glyph) (rest : List Glyph) :
    0 < (lx.lexeme g rest).taken := by
  unfold lexeme
  split
  · simp
  · dsimp only
    split
    · exact stringLexeme_taken rest
    · split
      · exact directiveLexeme_taken lx rest
      · split
        · unfold numberLexeme
          dsimp only
          omega
        · split
          · exact nameLexeme_taken lx g rest
          · simp

/-- Every token but the last takes something from the text. -/
theorem next_length {lx : Lexicon} {file : Text} {c : Cursor}
    (h : (lx.next file c).token.kind ≠ .eof) :
    (lx.next file c).next.rest.length < c.rest.length := by
  unfold next at h ⊢
  cases heq : (c.skip (lx.separation false c.rest)).rest with
  | nil => simp [heq] at h
  | cons g rest =>
    have hlen := congrArg List.length heq
    have htaken := lexeme_taken lx g rest
    simp only [Cursor.skip, List.length_drop, List.length_cons] at heq hlen ⊢
    simp only [heq, List.length_drop, List.length_cons]
    omega

/-- All tokens of a file up to and with its end. -/
def scan (lx : Lexicon) (file : Text) (c : Cursor) : List Scan :=
  if (lx.next file c).token.kind = .eof then [lx.next file c]
  else lx.next file c :: lx.scan file (lx.next file c).next
termination_by c.rest.length
decreasing_by exact next_length ‹_›

end Lexicon

/-! ## Lines -/

namespace SourceLines

/-- Collects scanned tokens into lines, with `line` already on the first. -/
def ofScans (line : Line) : List Scan → SourceLines
  | [] => { lines := [line] }
  | s :: rest =>
    match s.diagnostic? with
    | some d => { error := some d }
    | none =>
      match s.token.kind with
      | .eof => { lines := [line] }
      | .eol =>
        let after := ofScans [] rest
        { after with lines := line :: after.lines }
      | _ => ofScans (line ++ [s.token]) rest

/-- The lines of a file with the given name and contents. -/
def ofText (p : Punctuation) (file contents : Text) : SourceLines :=
  ofScans [] ((Lexicon.ofPunctuation p).scan file (.ofText contents))

end SourceLines

/-- The lines of a file under the punctuation of the machine. -/
def SourceEnv.linesOf (env : SourceEnv) (file contents : Text) : SourceLines :=
  SourceLines.ofText env.machine.punctuationTable file contents

/-! ## Offsets and glyphs -/

theorem Place.offset_step (p : Place) (g : Glyph) :
    (p.step g).offset = p.offset + g.bytes.length := by
  unfold step
  split
  · rfl
  · rfl

theorem Place.offset_past (p : Place) (gs : List Glyph) :
    (p.past gs).offset = p.offset + (gs.flatMap Glyph.bytes).length := by
  induction gs generalizing p with
  | nil => rfl
  | cons g gs ih =>
    rw [past, List.foldl_cons, ← past, ih, offset_step, List.flatMap_cons, List.length_append,
      Nat.add_assoc]

theorem Place.past_append (p : Place) (gs hs : List Glyph) :
    p.past (gs ++ hs) = (p.past gs).past hs :=
  List.foldl_append

theorem Text.head?_glyphs (t : Text) : t.glyphs.head? = t.glyph? := by
  cases t with
  | nil => rw [glyphs]; rfl
  | cons b rest => rw [glyphs]; rfl

/-- Behind some of its glyphs, a text is decoded into the others. -/
theorem Text.drop_glyphs (t : Text) (n : Nat) :
    t.glyphs.drop n = Text.glyphs (t.drop ((t.glyphs.take n).flatMap Glyph.bytes).length) := by
  induction n generalizing t with
  | zero => rfl
  | succ n ih =>
    cases t with
    | nil => simp [glyphs]
    | cons b rest =>
      rw [glyphs, List.drop_succ_cons, ih, List.take_succ_cons, List.flatMap_cons,
        List.length_append, ← List.drop_drop]
      congr 2
      rw [List.length_cons, List.drop_succ_cons, List.length_take]
      rcases Nat.le_total (Utf8.head b rest).2 rest.length with hle | hle
      · rw [Nat.min_eq_left hle]
      · rw [Nat.min_eq_right hle, List.drop_length, List.drop_eq_nil_of_le hle]

namespace Scanner

/-- The scanner is not behind the end of its text. -/
def Within (s : Scanner) : Prop := s.place.offset ≤ s.source.length

/-- The glyphs that are left, and where they start. -/
def cursor (s : Scanner) : Cursor := ⟨s.place, Text.glyphs (s.source.drop s.place.offset)⟩

/-- The scanner behind the next `n` glyphs. -/
def skip (s : Scanner) (n : Nat) : Scanner := { s with place := (s.cursor.skip n).place }

variable {s : Scanner} {g : Glyph} {rest : List Glyph}

theorem offset_skip (s : Scanner) (n : Nat) : (s.skip n).place.offset =
    s.place.offset + ((s.cursor.rest.take n).flatMap Glyph.bytes).length :=
  Place.offset_past ..

@[simp] theorem skip_zero (s : Scanner) : s.skip 0 = s := rfl

@[simp] theorem lexicon_skip (s : Scanner) (n : Nat) : (s.skip n).lexicon = s.lexicon := rfl

theorem cursor_skip (s : Scanner) (n : Nat) : (s.skip n).cursor = s.cursor.skip n := by
  have hrest : Text.glyphs (s.source.drop (s.skip n).place.offset) = s.cursor.rest.drop n := by
    rw [offset_skip, ← List.drop_drop]
    exact (Text.drop_glyphs _ n).symm
  exact congrArg (Cursor.mk _) hrest

theorem skip_skip (s : Scanner) (n k : Nat) : (s.skip n).skip k = s.skip (n + k) := by
  have hplace : (s.cursor.skip n).skip k = s.cursor.skip (n + k) := by
    simp only [Cursor.skip, List.drop_drop, ← Place.past_append, List.take_add]
  unfold skip at *
  rw [← hplace]
  exact congrArg (Scanner.mk _ _ _) (congrArg (fun c => (Cursor.skip c k).place) (s.cursor_skip n))

theorem Within.skip (h : s.Within) (n : Nat) : (s.skip n).Within := by
  have hbytes : (s.cursor.rest.flatMap Glyph.bytes).length = s.source.length - s.place.offset := by
    rw [cursor, Text.flatMap_bytes_glyphs, List.length_drop]
  have hle : ((s.cursor.rest.take n).flatMap Glyph.bytes).length ≤
      (s.cursor.rest.flatMap Glyph.bytes).length := by
    conv_rhs => rw [← List.take_append_drop n s.cursor.rest, List.flatMap_append, List.length_append]
    exact Nat.le_add_right _ _
  have hsource : (s.skip n).source = s.source := rfl
  unfold Within at h ⊢
  rw [offset_skip, hsource]
  omega

theorem past_eq_skip (hrest : s.cursor.rest = g :: rest) : s.past g = s.skip 1 := by
  rw [past, skip, Cursor.skip, hrest]
  rfl

theorem rest_skip_one (hrest : s.cursor.rest = g :: rest) : (s.skip 1).cursor.rest = rest := by
  rw [cursor_skip, Cursor.skip, hrest]
  rfl

theorem peek_eq (h : s.Within) : s.peek = .ok s.cursor.rest.head? := by
  rw [peek, cursor, Text.head?_glyphs]
  split
  · rename_i hend
    rw [List.drop_eq_nil_of_le hend]
    rfl
  · rw [Strict.suffix_eq h]
    rfl

theorem slice_skip (h : s.Within) (n : Nat) {ε : Type} [OfFault ε] :
    Strict.slice s.source s.place.offset (s.skip n).place.offset =
      (.ok ((s.cursor.rest.take n).flatMap Glyph.bytes) : Except ε Text) := by
  have hend : (s.skip n).place.offset ≤ s.source.length := h.skip n
  have hbytes : s.source.drop s.place.offset = s.cursor.rest.flatMap Glyph.bytes :=
    (Text.flatMap_bytes_glyphs _).symm
  rw [Strict.slice_eq (by rw [offset_skip]; omega) hend, List.drop_take, hbytes, offset_skip,
    Nat.add_sub_cancel_left]
  nth_rewrite 2 [← List.take_append_drop n s.cursor.rest]
  rw [List.flatMap_append, List.take_left]

/-! ## The scanner on glyphs -/

theorem skipWhile_eq (h : s.Within) (p : Char → Bool) :
    s.skipWhile p = .ok (s.skip (s.cursor.rest.takeWhile fun g => p g.char).length) := by
  generalize hrest : s.cursor.rest = gs
  induction gs generalizing s with
  | nil =>
    rw [skipWhile, peek_eq h, hrest]
    rfl
  | cons g rest ih =>
    rw [skipWhile, peek_eq h, hrest, List.head?_cons, List.takeWhile_cons]
    dsimp only
    split
    · rw [past_eq_skip hrest, ih (h.skip 1) (rest_skip_one hrest), skip_skip, List.length_cons,
        Nat.add_comm]
    · rfl

theorem separation_true (lx : Lexicon) (gs : List Glyph) :
    lx.separation true gs = (gs.takeWhile fun g => g.char ≠ '\n').length := by
  induction gs with
  | nil => rfl
  | cons g rest ih =>
    rw [Lexicon.separation, List.takeWhile_cons]
    by_cases hg : g.char = '\n'
    · simp [hg]
    · simp [hg, ih, Nat.add_comm]

theorem skipBlanks_eq (h : s.Within) :
    s.skipBlanks = .ok (s.skip (s.lexicon.separation false s.cursor.rest)) := by
  generalize hrest : s.cursor.rest = gs
  induction gs generalizing s with
  | nil =>
    rw [skipBlanks, peek_eq h, hrest]
    rfl
  | cons g rest ih =>
    rw [skipBlanks, peek_eq h, hrest, List.head?_cons, Lexicon.separation]
    dsimp only
    by_cases hline : g.char = '\n'
    · rw [if_pos hline, if_pos hline]
      rfl
    · rw [if_neg hline, if_neg hline, Bool.false_or]
      by_cases hblank : isSeparator g.char
      · rw [if_pos hblank, if_pos hblank, past_eq_skip hrest, ih (h.skip 1) (rest_skip_one hrest),
          skip_skip, lexicon_skip]
      · rw [if_neg hblank, if_neg hblank]
        by_cases hcomment : g.char = s.lexicon.comment
        · -- a comment is passed over up to the end of its line
          rw [if_pos hcomment, if_pos hcomment, skipWhile_eq h, hrest, separation_true,
            List.takeWhile_cons_of_pos (by simp [hline]), List.length_cons, Nat.add_comm]
        · rw [if_neg hcomment, if_neg hcomment]
          rfl

/-- The glyphs of a name are as many as the scanner passes over. -/
theorem word_eq (h : s.Within) : s.word = .ok ((s.lexicon.word s.cursor.rest).flatMap Glyph.bytes,
    s.skip (s.lexicon.word s.cursor.rest).length) := by
  have htake : s.cursor.rest.take (s.lexicon.word s.cursor.rest).length =
      s.lexicon.word s.cursor.rest :=
    (List.prefix_iff_eq_take.1 (List.takeWhile_prefix _)).symm
  rw [word, skipWhile_eq h, ok_bind]
  change Strict.slice s.source s.place.offset
    (s.skip (s.lexicon.word s.cursor.rest).length).place.offset >>= _ = _
  rw [slice_skip h, ok_bind, htake]
  rfl

/-- A lexeme that starts where the scanner is, and the scanner behind it. -/
def lexed (s : Scanner) (x : Lexeme) : Lexed × Scanner :=
  (⟨⟨x.kind, x.contents, (s.skip x.lead).place.position s.file, x.legal⟩, x.cause⟩,
    s.skip x.taken)

theorem directive_eq (h : s.Within) (hrest : s.cursor.rest = g :: rest) :
    s.directive g = .ok (s.lexed (s.lexicon.directiveLexeme rest)) := by
  rw [directive, past_eq_skip hrest, word_eq (h.skip 1), ok_bind, rest_skip_one hrest, skip_skip,
    lexicon_skip, Lexicon.directiveLexeme]
  dsimp only
  cases directiveKeyword? ((s.lexicon.word rest).flatMap Glyph.bytes) with
  | none => rfl
  | some k => rfl

theorem number_eq (h : s.Within) (hrest : s.cursor.rest = g :: rest) :
    s.number g = .ok (s.lexed (s.lexicon.numberLexeme g rest)) := by
  have hword : s.cursor.rest.take (1 + (s.lexicon.word rest).length) =
      g :: s.lexicon.word rest := by
    rw [hrest, Nat.add_comm, List.take_succ_cons]
    exact congrArg (g :: ·) (List.prefix_iff_eq_take.1 (List.takeWhile_prefix _)).symm
  rw [number, past_eq_skip hrest, word_eq (h.skip 1), ok_bind, rest_skip_one hrest, skip_skip,
    lexicon_skip]
  dsimp only
  rw [slice_skip h, ok_bind, hword, List.flatMap_cons]
  rfl

theorem name_eq (h : s.Within) (hrest : s.cursor.rest = g :: rest)
    (hg : s.lexicon.isNameStart g.char) :
    s.name = .ok (s.lexed (s.lexicon.nameLexeme g rest)) := by
  have hword : s.lexicon.word (g :: rest) = g :: s.lexicon.word rest :=
    List.takeWhile_cons_of_pos (by simp [Lexicon.isNameChar, hg])
  have hafter : (s.skip (g :: s.lexicon.word rest).length).cursor.rest =
      rest.drop (s.lexicon.word rest).length := by
    rw [cursor_skip, Cursor.skip, hrest]
    rfl
  rw [name, word_eq h, hrest, hword, ok_bind, Lexicon.nameLexeme]
  dsimp only
  rw [peek_eq (h.skip _), ok_bind, hafter]
  cases hnext : (rest.drop (s.lexicon.word rest).length).head? with
  | none => simp; rfl
  | some after =>
    have hpast : (s.skip (g :: s.lexicon.word rest).length).past after =
        s.skip ((g :: s.lexicon.word rest).length + 1) := by
      rw [past_eq_skip (hafter.trans (List.eq_cons_of_mem_head? hnext)), skip_skip]
    rw [Option.map_some]
    dsimp only
    rw [hpast]
    by_cases hlabel : s.lexicon.label ≠ '\x00' ∧ after.char = s.lexicon.label
    · rw [if_pos hlabel, if_pos ⟨hlabel.1, congrArg some hlabel.2⟩, hlabel.2]
      rfl
    · rw [if_neg hlabel, if_neg (by simpa using hlabel)]
      rfl

/-- The string literal that starts at `start` and has what `b` says behind the contents read
before. -/
def literal (start : Scanner) (contents : Text) (b : StringBody) (s : Scanner) : Lexed × Scanner :=
  (match b.ending with
    | .closed => { token := start.token .string (contents ++ b.contents) }
    | .unterminated => start.unterminated (contents ++ b.contents)
    | .badEscape c => (s.skip (b.taken - if c.isSome then 2 else 1)).badEscape c,
    s.skip b.taken)

/-- A bad escape is taken with its backslash. -/
theorem le_taken (gs : List Glyph) {c : Option Char} (h : (stringBody gs).ending = .badEscape c) :
    (if c.isSome then 2 else 1) ≤ (stringBody gs).taken := by
  fun_induction stringBody gs with
  | case4 =>
    cases h
    exact Nat.le_refl _
  | case5 _ _ _ _ ih => exact Nat.le_add_left_of_le (ih h)
  | case8 _ _ _ _ _ _ _ _ ih => exact Nat.le_add_left_of_le (ih h)
  | case9 =>
    cases h
    exact Nat.le_refl _
  | case10 _ _ _ _ _ _ ih => exact Nat.le_add_left_of_le (ih h)
  | _ => cases h

/-- A character that is written with `n` glyphs may as well have been read before. -/
theorem literal_cons (start : Scanner) (contents : Text) (c : Char) (n : Nat) (gs : List Glyph) :
    start.literal contents ((stringBody gs).cons c n) s =
      start.literal (contents ++ Text.ofChar c) (stringBody gs) (s.skip n) := by
  unfold literal StringBody.cons
  dsimp only
  rw [skip_skip, List.append_assoc]
  cases hend : (stringBody gs).ending with
  | closed => rfl
  | unterminated => rfl
  | badEscape e =>
    dsimp only
    rw [skip_skip, Nat.add_sub_assoc (le_taken gs hend)]

/-- The first glyph decides how a string goes on; only a backslash needs the next one. -/
theorem stringFrom_cons (start : Scanner) (contents : Text) (h : s.Within)
    (hrest : s.cursor.rest = g :: rest) : stringFrom start contents s =
      if g.char = '\n' then .ok (start.unterminated contents, s.skip 1)
      else if g.char = '\x22' then .ok ({ token := start.token .string contents }, s.skip 1)
      else if g.char = '\\' then
        match rest.head? with
        | none => .ok (s.badEscape none, s.skip 1)
        | some e =>
          match unescape? e.char with
          | some c => stringFrom start (contents ++ Text.ofChar c) (s.skip 2)
          | none => .ok (s.badEscape (some e.char), s.skip 2)
      else stringFrom start (contents ++ Text.ofChar g.char) (s.skip 1) := by
  have hnext : (s.skip 1).peek = .ok rest.head? := by
    rw [peek_eq (h.skip 1), rest_skip_one hrest]
  rw [stringFrom, peek_eq h, hrest, List.head?_cons]
  dsimp only
  rw [past_eq_skip hrest, hnext]
  cases rest with
  | nil => rfl
  | cons e more =>
    have hpast : (s.skip 1).past e = s.skip 2 := by
      rw [past_eq_skip (rest_skip_one hrest), skip_skip]
    rewrite [← hpast]
    rfl

theorem stringFrom_eq (start : Scanner) (contents : Text) (h : s.Within) :
    stringFrom start contents s = .ok (start.literal contents (stringBody s.cursor.rest) s) := by
  generalize hrest : s.cursor.rest = gs
  fun_induction stringBody gs generalizing s contents with
  | case1 =>
    rw [stringFrom, peek_eq h, hrest, literal, List.append_nil]
    rfl
  | case2 g hg => simp [stringFrom_cons start contents h hrest, literal, hg]
  | case3 g _ hg => simp [stringFrom_cons start contents h hrest, literal, hg]
  | case4 g _ _ hg => simp [stringFrom_cons start contents h hrest, literal, hg]
  | case5 g hline hquote hescape ih =>
    rw [stringFrom_cons start contents h hrest, if_neg hline, if_neg hquote, if_neg hescape,
      literal_cons, ih _ (h.skip 1) (rest_skip_one hrest)]
  | case6 g e more hg => simp [stringFrom_cons start contents h hrest, literal, hg]
  | case7 g e more _ hg => simp [stringFrom_cons start contents h hrest, literal, hg]
  | case8 g e more _ _ hg c hc ih =>
    have hbehind : (s.skip 2).cursor.rest = more := by
      rw [cursor_skip, Cursor.skip, hrest]
      rfl
    simp [stringFrom_cons start contents h hrest, hg, hc, literal_cons, ih _ (h.skip 2) hbehind]
  | case9 g e more _ _ hg hc => simp [stringFrom_cons start contents h hrest, literal, hg, hc]
  | case10 g e more hline hquote hescape ih =>
    rw [stringFrom_cons start contents h hrest, if_neg hline, if_neg hquote, if_neg hescape,
      literal_cons, ih _ (h.skip 1) (rest_skip_one hrest)]

theorem literal_eq_lexed (s : Scanner) (rest : List Glyph) :
    s.literal [] (stringBody rest) (s.skip 1) = s.lexed (stringLexeme rest) := by
  unfold literal stringLexeme
  dsimp only
  rw [skip_skip]
  cases hend : (stringBody rest).ending with
  | closed => rfl
  | unterminated => rfl
  | badEscape c =>
    dsimp only
    rw [skip_skip, ← Nat.add_sub_assoc (le_taken rest hend)]
    rfl

theorem peekAt_one (h : s.Within) (hrest : s.cursor.rest = g :: rest) :
    s.peekAt 1 = .ok rest.head? := by
  rw [peekAt, peek_eq h, hrest, List.head?_cons, ok_bind]
  dsimp only
  rw [peekAt, past_eq_skip hrest, peek_eq (h.skip 1), rest_skip_one hrest]

theorem tokenFrom_eq (h : s.Within) (hrest : s.cursor.rest = g :: rest) :
    s.tokenFrom g = .ok (s.lexed (s.lexicon.lexeme g rest)) := by
  unfold tokenFrom Lexicon.lexeme
  cases Lexicon.solitary? g.char with
  | some k =>
    dsimp only
    rw [past_eq_skip hrest]
    rfl
  | none =>
    dsimp only
    rw [peekAt_one h hrest, ok_bind, past_eq_skip hrest, stringFrom_eq s [] (h.skip 1),
      rest_skip_one hrest, directive_eq h hrest, number_eq h hrest]
    split
    · exact congrArg Except.ok (s.literal_eq_lexed rest)
    · split
      · rfl
      · split
        · rfl
        · split
          · rename_i hstart
            exact name_eq h hrest hstart
          · rfl

end Scanner

/-- A scanned token and what is wrong with it. -/
def Scan.lexed (x : Scan) : Lexed := ⟨x.token, x.cause⟩

@[simp] theorem Scan.token_lexed (x : Scan) : x.lexed.token = x.token := rfl

namespace Scanner

variable {s : Scanner}

/-- The next token is the next lexeme, and the scanner goes on behind it. -/
theorem next_eq (h : s.Within) : ∃ n,
    s.next = .ok ((s.lexicon.next s.file s.cursor).lexed, s.skip n) ∧
      (s.lexicon.next s.file s.cursor).next = (s.skip n).cursor := by
  have hfront := cursor_skip s (s.lexicon.separation false s.cursor.rest)
  rw [next, skipBlanks_eq h, ok_bind, peek_eq (h.skip _), ok_bind, Lexicon.next, ← hfront]
  generalize s.lexicon.separation false s.cursor.rest = k
  cases hrest : (s.skip k).cursor.rest with
  | nil => exact ⟨k, rfl, rfl⟩
  | cons g rest =>
    refine ⟨k + (s.lexicon.lexeme g rest).taken, ?_, ?_⟩
    · dsimp only [List.head?_cons]
      rw [tokenFrom_eq (h.skip k) hrest, ← skip_skip]
      rfl
    · dsimp only
      rw [← skip_skip, cursor_skip (s.skip k)]

/-- The next token is the next lexeme, and scanning goes on behind it. -/
theorem next_eq_lexed (h : s.Within) : s.next =
    .ok ((s.lexicon.next s.file s.cursor).lexed,
      { s with place := (s.lexicon.next s.file s.cursor).next.place }) := by
  obtain ⟨n, hnext, hbehind⟩ := next_eq h
  rw [hnext, hbehind]
  rfl

/-- All tokens are all lexemes. -/
theorem scan_eq (h : s.Within) :
    s.scan = .ok ((s.lexicon.scan s.file s.cursor).map Scan.lexed) := by
  induction hleft : s.left using Nat.strongRecOn generalizing s with
  | ind left ih =>
    obtain ⟨n, hnext, hbehind⟩ := next_eq h
    rw [scan, hnext, Lexicon.scan]
    dsimp only
    rw [Scan.token_lexed]
    by_cases hkind : (s.lexicon.next s.file s.cursor).token.kind = .eof
    · rw [dif_pos hkind, if_pos hkind]
      rfl
    · have hless := left_lt_of_next hnext hkind
      rw [dif_neg hkind, if_neg hkind, ih _ (hleft ▸ hless) (h.skip n) rfl, ok_bind, hbehind]
      rfl

end Scanner

theorem SourceLines.ofLexed_map (line : Line) (scans : List Scan) :
    ofLexed line (scans.map Scan.lexed) = ofScans line scans := by
  induction scans generalizing line with
  | nil => rfl
  | cons x rest ih =>
    rw [List.map_cons, ofLexed, ofScans]
    simp only [Scan.lexed, Scan.diagnostic?, ih]
    cases x.cause with
    | none => rfl
    | some c => rfl

/-- The lines that the scanner gives for a text. -/
theorem SourceEnv.scanLines_eq (env : SourceEnv) (file contents : Text) :
    env.scanLines file contents = .ok (env.linesOf file contents) := by
  rw [scanLines, SourceLines.scan, Scanner.scan_eq (Nat.zero_le _), ok_bind,
    SourceLines.ofLexed_map]
  rfl

end CellAsm
