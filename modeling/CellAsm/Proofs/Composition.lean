-- SUMMARY: One text above another is scanned as the first and then the second, each as if it stood alone.
import CellAsm.Proofs.Coverage

/-!
# Scanning one text above another

The lexer remembers nothing but the place it stands at. Below a line end it therefore
answers what it would answer at the beginning of a text, with lines and offsets that
count from further up. Above the line end it answers as if the text ended there, as long
as there is no error: a name, a number or a comment stops in front of the line end, and
so does a character whose bytes are cut off.
-/
namespace CellAsm

/-! ## Moving down -/

section Lowered

variable (lines bytes : Nat)

def Place.lowered (p : Place) : Place := ⟨p.line + lines, p.column, p.offset + bytes⟩

def Cursor.lowered (c : Cursor) : Cursor := ⟨c.place.lowered lines bytes, c.rest⟩

/-- The position, some lines further down and some bytes further on. -/
def Position.lowered (p : Position) : Position :=
  { p with line := p.line + lines, offset := p.offset + bytes }

def Token.lowered (t : Token) : Token := { t with position := t.position.lowered lines bytes }

def Diagnostic.lowered (d : Diagnostic) : Diagnostic :=
  { d with token := d.token.map (Token.lowered lines bytes) }

def Scan.lowered (x : Scan) : Scan := ⟨x.token.lowered lines bytes, x.cause, x.next.lowered lines bytes⟩

theorem Place.position_lowered (p : Place) (file : Text) :
    (p.lowered lines bytes).position file = (p.position file).lowered lines bytes := by
  simp only [position, lowered, Position.lowered, Int.natCast_add]

theorem Place.step_lowered (p : Place) (g : Glyph) :
    (p.lowered lines bytes).step g = (p.step g).lowered lines bytes := by
  unfold step
  split
  · simp only [lowered, Nat.add_right_comm]
  · simp only [lowered, Nat.add_right_comm]

theorem Place.past_lowered (p : Place) (gs : List Glyph) :
    (p.lowered lines bytes).past gs = (p.past gs).lowered lines bytes := by
  induction gs generalizing p with
  | nil => rfl
  | cons g gs ih =>
    rw [past, List.foldl_cons, step_lowered]
    exact ih (p.step g)

theorem Cursor.skip_lowered (c : Cursor) (n : Nat) :
    (c.lowered lines bytes).skip n = (c.skip n).lowered lines bytes := by
  simp only [skip, lowered, Place.past_lowered]

namespace Lexicon

variable (lx : Lexicon) (file : Text)

theorem next_lowered (c : Cursor) :
    lx.next file (c.lowered lines bytes) = (lx.next file c).lowered lines bytes := by
  have hfront : lx.front (c.lowered lines bytes) = (lx.front c).lowered lines bytes :=
    Cursor.skip_lowered lines bytes c _
  cases hrest : (lx.front c).rest with
  | nil =>
    rw [next_of_nil hrest, next_of_nil (by rw [hfront]; exact hrest), hfront]
    simp only [Scan.lowered, Token.lowered, Cursor.lowered, Place.position_lowered]
  | cons g rest =>
    rw [next_of_cons hrest, next_of_cons (by rw [hfront]; exact hrest), hfront]
    simp only [Scan.lowered, Token.lowered, Cursor.skip_lowered]
    simp only [Cursor.lowered, Place.position_lowered]

/-- The same is scanned further down. -/
theorem scan_lowered (c : Cursor) :
    lx.scan file (c.lowered lines bytes) = (lx.scan file c).map (Scan.lowered lines bytes) := by
  fun_induction scan lx file c with
  | case1 c heof =>
    have heof' : ((lx.next file c).lowered lines bytes).token.kind = .eof := heof
    rw [scan, next_lowered, if_pos heof', List.map_singleton]
  | case2 c heof ih =>
    have heof' : ((lx.next file c).lowered lines bytes).token.kind ≠ .eof := heof
    rw [scan, next_lowered, if_neg heof', List.map_cons]
    exact congrArg _ ih

end Lexicon

end Lowered

/-! ## Replies -/

/-- What a call of the lexer gives: a token, and the error it comes with. -/
structure Reply where
  token : Token
  error : Option Diagnostic := none
deriving DecidableEq, Repr

def Scan.reply (x : Scan) : Reply := ⟨x.token, x.diagnostic?⟩

def Reply.lowered (lines bytes : Nat) (r : Reply) : Reply :=
  ⟨r.token.lowered lines bytes, r.error.map (Diagnostic.lowered lines bytes)⟩

theorem Scan.reply_lowered (lines bytes : Nat) (x : Scan) :
    (x.lowered lines bytes).reply = x.reply.lowered lines bytes := by
  simp only [reply, lowered, Reply.lowered, diagnostic?, Option.map_map]
  rfl

/-- A token that comes without an error. -/
def Reply.plain (t : Token) : Reply := { token := t }

theorem Scan.cause_of_reply {x : Scan} (h : x.reply.error = none) : x.cause = none :=
  Option.map_eq_none_iff.1 h

theorem Scan.reply_of_cause {x : Scan} (h : x.cause = none) : x.reply = .plain x.token := by
  rw [reply, diagnostic?, h]
  rfl

namespace Lexicon

variable (lx : Lexicon) (file : Text)

/-- The replies from a cursor on, up to the end of the text. -/
def repliesFrom (c : Cursor) : List Reply := (lx.scan file c).map Scan.reply

theorem repliesFrom_lowered (lines bytes : Nat) (c : Cursor) :
    lx.repliesFrom file (c.lowered lines bytes) =
      (lx.repliesFrom file c).map (Reply.lowered lines bytes) := by
  rw [repliesFrom, scan_lowered, List.map_map, repliesFrom, List.map_map]
  exact List.map_congr_left fun x _ => x.reply_lowered lines bytes

/-- The token that ends the text, or the line, at a place. -/
def endAt (kind : TokenKind) (contents : Text) (p : Place) : Token :=
  ⟨kind, contents, p.position file, true⟩

variable {lx file} {c : Cursor}

theorem repliesFrom_of_eof (h : (lx.next file c).token.kind = .eof) :
    lx.repliesFrom file c = [(lx.next file c).reply] := by
  rw [repliesFrom, scan, if_pos h, List.map_singleton]

theorem repliesFrom_of_ne_eof (h : (lx.next file c).token.kind ≠ .eof) :
    lx.repliesFrom file c =
      (lx.next file c).reply :: lx.repliesFrom file (lx.next file c).next := by
  rw [repliesFrom, scan, if_neg h, List.map_cons, repliesFrom]

theorem token_of_eof (h : (lx.next file c).token.kind = .eof) :
    (lx.next file c).token = endAt file .eof [] (c.place.past c.rest) := by
  cases hrest : (lx.front c).rest with
  | nil =>
    have hplace := c.past_skip (lx.separation false c.rest)
    rw [← front, hrest] at hplace
    rw [next_of_nil hrest, ← hplace]
    rfl
  | cons g rest =>
    rw [next_of_cons hrest] at h
    exact absurd h (lx.lexeme_kind g rest)

/-- Without an error above the line end, the tokens there are the same, and then the line
end takes the place of the end of the text. -/
theorem repliesFrom_append (hlabel : lx.label ≠ '\n') (lower : List Glyph)
    (hclean : ∀ r ∈ lx.repliesFrom file c, r.error = none) :
    ∃ tokens : List Token, (∀ t ∈ tokens, t.kind ≠ .eof) ∧
      lx.repliesFrom file c =
        tokens.map .plain ++ [.plain (endAt file .eof [] (c.place.past c.rest))] ∧
      lx.repliesFrom file ⟨c.place, c.rest ++ Glyph.below lower⟩ = tokens.map .plain ++
        .plain (endAt file .eol (Text.ofChar '\n') (c.place.past c.rest)) ::
        lx.repliesFrom file ⟨(c.place.past c.rest).step (Glyph.ofChar '\n'), lower⟩ := by
  induction c using Lexicon.scan.induct lx file with
  | case1 c heof =>
    rw [repliesFrom_of_eof heof, List.forall_mem_singleton] at hclean
    have hcause := Scan.cause_of_reply hclean
    have hnext := lx.next_append hlabel file c lower
    generalize hy : lx.next file ⟨c.place, c.rest ++ Glyph.below lower⟩ = y at hnext
    cases hnext with
    | ended =>
      refine ⟨[], List.forall_mem_nil _, ?_, ?_⟩
      · rw [repliesFrom_of_eof heof, Scan.reply_of_cause hcause, token_of_eof heof]
        rfl
      · rw [repliesFrom_of_ne_eof (by rw [hy]; rintro ⟨⟩), hy]
        rfl
    | failed hfails =>
      rw [hcause] at hfails
      cases hfails
    | same hkind => exact absurd heof hkind
  | case2 c heof ih =>
    rw [repliesFrom_of_ne_eof heof, List.forall_mem_cons] at hclean
    obtain ⟨hfirst, hrest⟩ := hclean
    have hcause := Scan.cause_of_reply hfirst
    have hnext := lx.next_append hlabel file c lower
    generalize hy : lx.next file ⟨c.place, c.rest ++ Glyph.below lower⟩ = y at hnext
    cases hnext with
    | ended hkind => exact absurd hkind heof
    | failed hfails =>
      rw [hcause] at hfails
      cases hfails
    | same _ _ hpast =>
      obtain ⟨tokens, hkinds, hupper, hboth⟩ := ih hrest
      rw [hpast] at hupper hboth
      refine ⟨(lx.next file c).token :: tokens, List.forall_mem_cons.2 ⟨heof, hkinds⟩, ?_, ?_⟩
      · rw [repliesFrom_of_ne_eof heof, hupper, Scan.reply_of_cause hcause]
        rfl
      · have hreply : (lx.next file ⟨c.place, c.rest ++ Glyph.below lower⟩).reply =
            .plain (lx.next file c).token := by
          rw [hy]
          exact Scan.reply_of_cause hcause
        rw [repliesFrom_of_ne_eof (by rw [hy]; exact heof), hreply, hy, hboth]
        rfl

end Lexicon

/-- The line below a text starts one line further down than its last. -/
theorem Place.step_behind (upper : Text) : (behind upper).step (Glyph.ofChar '\n') =
    Place.lowered (1 + upper.count 10) (upper.length + 1) {} := by
  have hstep : (behind upper).step (Glyph.ofChar '\n') =
      ⟨1 + upper.count 10 + 1, 1, upper.length + 1⟩ := rfl
  rw [hstep, lowered, Nat.add_comm _ 1]
  simp only [Nat.zero_add]

def Lexed.reply (x : Lexed) : Reply := ⟨x.token, x.cause.map fun c => ⟨c, some x.token⟩⟩

/-- What the scanner gives for a text, call by call up to its end. -/
def Punctuation.replies (p : Punctuation) (file src : Text) : Except Fault (List Reply) := do
  return (← (Scanner.ofText (.ofPunctuation p) file src).scan).map Lexed.reply

theorem Punctuation.replies_eq (p : Punctuation) (file src : Text) :
    p.replies file src = .ok ((Lexicon.ofPunctuation p).repliesFrom file (.ofText src)) := by
  rw [replies, Scanner.scan_eq (Nat.zero_le _), ok_bind, List.map_map]
  rfl

open Lexicon (endAt)

/-- One text above another gives the replies of the first, up to its end, then the line end,
and then those of the second, further down. -/
theorem Punctuation.replies_above (p : Punctuation) {file upper : Text} (lower : Text)
    (hclean : ∀ rs, p.replies file upper = .ok rs → ∀ r ∈ rs, r.error = none) :
    ∃ (tokens : List Token) (below : List Reply), (∀ t ∈ tokens, t.kind ≠ .eof) ∧
      p.replies file upper =
        .ok (tokens.map .plain ++ [.plain (endAt file .eof [] (.behind upper))]) ∧
      p.replies file lower = .ok below ∧
      p.replies file (upper.above lower) = .ok (tokens.map .plain ++
        .plain (endAt file .eol (Text.ofChar '\n') (.behind upper)) ::
        below.map (.lowered (1 + upper.count 10) (upper.length + 1))) := by
  have hplace : Place.past {} upper.glyphs = .behind upper := by
    rw [Place.past_eq_behind (.glyphs upper), Text.flatMap_bytes_glyphs]
  have hlower : (⟨(Place.behind upper).step (Glyph.ofChar '\n'), lower.glyphs⟩ : Cursor) =
      (Cursor.ofText lower).lowered (1 + upper.count 10) (upper.length + 1) := by
    rw [Place.step_behind]
    rfl
  obtain ⟨tokens, hkinds, hupper, hboth⟩ := Lexicon.repliesFrom_append
    (Lexicon.label_ne_newline p) lower.glyphs (hclean _ (p.replies_eq file upper))
  simp only [Cursor.ofText, hplace, hlower, Lexicon.repliesFrom_lowered] at hupper hboth
  refine ⟨tokens, _, hkinds, ?_, p.replies_eq file lower, ?_⟩
  · rw [replies_eq]
    exact congrArg Except.ok hupper
  · rw [replies_eq, Cursor.ofText_above]
    exact congrArg Except.ok hboth

namespace Sample

/-- A label, and on the next line the first byte of a character of two. -/
def cutText : Text := [97, 58, 10, 0xC3]

/-- The second byte of that character, and a string that is not closed. -/
def openText : Text := [0xA9, 32, 34, 120]

/-- The two bytes do not come together, and the error below is lowered down with its token. -/
theorem cut_above : ∃ (tokens : List Token) (below : List Reply),
    tokens.map Token.kind = [.label, .eol, .illegal] ∧
    Punctuation.standard.replies "t" openText = .ok below ∧
    Punctuation.standard.replies "t" (cutText.above openText) = .ok (tokens.map .plain ++
      .plain (endAt "t" .eol (Text.ofChar '\n') ⟨2, 2, 4⟩) :: below.map (.lowered 2 5)) ∧
    (below.map (Reply.lowered 2 5))[1]? =
      some ⟨⟨.string, [120], ⟨"t", 3, 3, 7⟩, true⟩,
        some ⟨.unterminatedString, some ⟨.string, [120], ⟨"t", 3, 3, 7⟩, true⟩⟩⟩ := by
  let lx := Lexicon.ofPunctuation .standard
  obtain ⟨hplace, hclean, hkinds, herror⟩ : Place.behind cutText = ⟨2, 2, 4⟩ ∧
      (∀ r ∈ lx.repliesFrom "t" (.ofText cutText), r.error = none) ∧
      (lx.repliesFrom "t" (.ofText cutText)).map (·.token.kind) =
        [.label, .eol, .illegal, .eof] ∧
      ((lx.repliesFrom "t" (.ofText openText)).map (Reply.lowered 2 5))[1]? =
        some ⟨⟨.string, [120], ⟨"t", 3, 3, 7⟩, true⟩,
          some ⟨.unterminatedString, some ⟨.string, [120], ⟨"t", 3, 3, 7⟩, true⟩⟩⟩ := by
    decide +kernel
  have hclean : ∀ rs, Punctuation.standard.replies "t" cutText = .ok rs →
      ∀ r ∈ rs, r.error = none := by
    intro rs hrs
    rw [Punctuation.replies_eq] at hrs
    cases hrs
    exact hclean
  obtain ⟨tokens, below, _, hupper, hlower, hboth⟩ :=
    Punctuation.standard.replies_above openText hclean
  rw [hplace] at hboth
  refine ⟨tokens, below, ?_, hlower, hboth, ?_⟩
  · rw [Punctuation.replies_eq] at hupper
    rw [Except.ok.inj hupper, List.map_append, List.map_map] at hkinds
    have hsplit : tokens.map Token.kind ++ [.eof] = [.label, .eol, .illegal] ++ [.eof] := hkinds
    exact List.append_cancel_right hsplit
  · rw [Punctuation.replies_eq] at hlower
    cases hlower
    exact herror

end Sample

end CellAsm
