-- SUMMARY: Tokens and lines without their positions, and that scanning finds the same ones.
import CellAsm.Proofs.LineEnds

/-!
# Lines without positions

A token bears the file and the place it was scanned at. Apart from that, the lines of a
text do not depend on the file it is in, nor on the place in it.
-/
namespace CellAsm

/-! ## Leaving positions out -/

namespace Token

/-- The token without its position. -/
def stripped (t : Token) : Token := { t with position := {} }

@[simp] theorem kind_stripped (t : Token) : t.stripped.kind = t.kind := rfl

@[simp] theorem contents_stripped (t : Token) : t.stripped.contents = t.contents := rfl

@[simp] theorem symbol_stripped (t : Token) : t.stripped.symbol = t.symbol := rfl

theorem stripped_comp : stripped ∘ stripped = stripped := rfl

end Token

def Line.stripped (line : Line) : Line := line.map Token.stripped

theorem Line.stripped_comp : stripped ∘ stripped = stripped := by
  funext line
  rw [Function.comp_apply, stripped, stripped, List.map_map, Token.stripped_comp]

/-! ## Scanning at another place -/

/-- The same has been scanned, apart from the place. -/
structure Scan.Same (x y : Scan) : Prop where
  token : x.token.stripped = y.token.stripped
  cause : x.cause = y.cause
  rest : x.next.rest = y.next.rest

theorem Scan.Same.kind {x y : Scan} (h : x.Same y) : x.token.kind = y.token.kind := by
  rw [← Token.kind_stripped, h.token, Token.kind_stripped]

theorem Lexicon.next_same (lx : Lexicon) (file file' : Text) {c c' : Cursor}
    (h : c.rest = c'.rest) : (lx.next file c).Same (lx.next file' c') := by
  simp only [next, Cursor.skip, h]
  cases c'.rest.drop (lx.separation false c'.rest) with
  | nil => exact ⟨rfl, rfl, rfl⟩
  | cons g rest => exact ⟨rfl, rfl, rfl⟩

namespace SourceLines

/-- The same lines, apart from positions, and both with an error or both without. -/
structure Same (a b : SourceLines) : Prop where
  lines : a.lines.map Line.stripped = b.lines.map Line.stripped
  error : a.error.isSome = b.error.isSome

theorem Same.cons {a b : SourceLines} (h : a.Same b) {line line' : Line}
    (hline : line.stripped = line'.stripped) :
    Same { a with lines := line :: a.lines } { b with lines := line' :: b.lines } := by
  refine ⟨?_, h.error⟩
  rw [List.map_cons, List.map_cons, hline, h.lines]

theorem same_of_cause {lx : Lexicon} {file file' : Text} {c c' : Cursor}
    (hnext : (lx.next file c).Same (lx.next file' c')) (hcause : (lx.next file c).cause.isSome)
    {line line' : Line} :
    (ofScans line (lx.scan file c)).Same (ofScans line' (lx.scan file' c')) := by
  rw [ofScans_of_cause rfl hcause, ofScans_of_cause rfl (hnext.cause ▸ hcause)]
  refine ⟨rfl, ?_⟩
  rw [Scan.diagnostic?, Scan.diagnostic?, Option.isSome_map, Option.isSome_map, hnext.cause]

theorem same_ofScans (lx : Lexicon) (file file' : Text) {c c' : Cursor} (hrest : c.rest = c'.rest)
    {line line' : Line} (hline : line.stripped = line'.stripped) :
    (ofScans line (lx.scan file c)).Same (ofScans line' (lx.scan file' c')) := by
  induction c using Lexicon.scan.induct lx file generalizing c' line line' with
  | case1 c heof =>
    have hnext := lx.next_same file file' hrest
    rcases Option.eq_none_or_eq_some (lx.next file c).cause with hcause | ⟨cause, hcause⟩
    · rw [ofScans_of_eof rfl heof hcause, ofScans_of_eof rfl (hnext.kind.symm.trans heof)
        (hnext.cause.symm.trans hcause)]
      exact ⟨congrArg (fun l => [l]) hline, rfl⟩
    · exact same_of_cause hnext (Option.isSome_of_eq_some hcause)
  | case2 c heof ih =>
    have hnext := lx.next_same file file' hrest
    rcases Option.eq_none_or_eq_some (lx.next file c).cause with hcause | ⟨cause, hcause⟩
    · have heof' := hnext.kind ▸ heof
      have hcause' := hnext.cause.symm.trans hcause
      by_cases heol : (lx.next file c).token.kind = .eol
      · rw [ofScans_of_eol rfl heol hcause, ofScans_of_eol rfl (hnext.kind.symm.trans heol) hcause']
        exact (ih hnext.rest rfl).cons hline
      · rw [ofScans_of_token rfl heof heol hcause,
          ofScans_of_token rfl heof' (hnext.kind ▸ heol) hcause']
        apply ih hnext.rest
        simp only [Line.stripped, List.map_append] at hline ⊢
        rw [hline, List.map_singleton, List.map_singleton, hnext.token]
    · exact same_of_cause hnext (Option.isSome_of_eq_some hcause)

/-- The lines of a text in any file are those at any place of another. -/
theorem same_ofText (p : Punctuation) (file file' text : Text) (place : Place) :
    (ofText p file text).Same
      (ofScans [] ((Lexicon.ofPunctuation p).scan file' ⟨place, text.glyphs⟩)) := by
  apply same_ofScans
  · rfl
  · rfl

end SourceLines

end CellAsm
