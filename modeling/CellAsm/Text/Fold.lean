-- SUMMARY: Matching names and keywords without regard to case.
import CellAsm.Text.Utf8

/-!
# Case

All names and keywords that are matched without regard to case are ASCII, so a
case map matters only where it reaches an ASCII letter. Simple case folding and
the lower-case map differ there: the long s folds to `s`, the dotted capital I
has the lower case `i`, and the Kelvin sign goes to `k` under both.
-/
namespace CellAsm

/-- Simple case folding, as far as it reaches ASCII letters. -/
def foldCase (c : Char) : Char :=
  if c = '\u017f' then 's' else if c = '\u212a' then 'k' else c.toLower

/-- The lower-case map, as far as it reaches ASCII letters. -/
def lowerCase (c : Char) : Char :=
  if c = '\u0130' then 'i' else if c = '\u212a' then 'k' else c.toLower

namespace Text

/-- Whether `t` is `name` up to case folding; `name` is ASCII. -/
def foldsTo (t : Text) (name : String) : Bool :=
  t.chars.map foldCase == name.toList.map foldCase

/-- Whether the lower case of `t` is the keyword `word`; `word` is lower-case
ASCII. -/
def lowersTo (t : Text) (word : String) : Bool :=
  t.chars.map lowerCase == word.toList

end Text

end CellAsm
