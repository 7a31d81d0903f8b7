-- SUMMARY: The roles of punctuation characters in source text.
import CellAsm.Entries
import CellAsm.Text.Fold
import CellAsm.Text.Quoted

/-!
# Punctuation

A machine decides which punctuation character ends a label, which starts a
comment, which marks a directive, and which may be part of a name. A table gives
a role to each character it lists.
-/
namespace CellAsm

/-- What a punctuation character does. -/
inductive Role
  /-- May be part of a name. -/
  | symbol
  /-- Ends the definition of a label. -/
  | label
  /-- Starts a comment that runs to the end of the line. -/
  | comment
  /-- Stands in front of a directive. -/
  | pseudo
  /-- May only appear in strings and comments. -/
  | illegal
  /-- A number that stands for none of the above. -/
  | unnamed (code : Int)
deriving DecidableEq, Repr

namespace Role

def ofCode : Int → Role
  | 0 => symbol
  | 1 => label
  | 2 => comment
  | 3 => pseudo
  | 4 => illegal
  | n => unnamed n

def name? : Role → Option String
  | symbol => some "symbol"
  | label => some "label"
  | comment => some "comment"
  | pseudo => some "pseudo"
  | illegal => some "illegal"
  | unnamed _ => none

def text : Role → Text
  | unnamed n => Text.join ["role(", Text.decimal n, ")"]
  | r => Text.ofString (r.name?.getD "")

/-- Reads a name without regard to case. -/
def ofName? (t : Text) : Option Role :=
  [symbol, label, comment, pseudo, illegal].find? fun r => r.name?.any t.foldsTo

/-- The roles that exactly one character has. -/
def markers : List Role := [label, pseudo, comment]

end Role

/-- A role for each listed character. -/
@[ext] structure Punctuation where
  entries : List (Char × Role)
  distinct : (entries.map Prod.fst).Nodup
deriving DecidableEq, Repr

namespace Punctuation

instance : EmptyCollection Punctuation := ⟨⟨[], List.nodup_nil⟩⟩

/-- The characters a table covers, in the order in which they are searched. -/
def charset : List Char :=
  ['!', '#', '$', '%', '&', '*', '+', '-', '/', ':', ';', '<', '=', '>', '?', '@', '^', '_',
   '\x60', '|', '~', '.', '\x27', '\x7b', '\x7d', '\\']

def isPunctuation (c : Char) : Bool := charset.contains c

def find? (p : Punctuation) (c : Char) : Option Role := p.entries.lookup c

/-- The role of a character; one that is not listed is illegal. -/
def role (p : Punctuation) (c : Char) : Role := (p.find? c).getD .illegal

/-- The first character of the set with the given role, or NUL. Here a
character that is not listed counts as a symbol character. -/
def char (p : Punctuation) (r : Role) : Char :=
  (charset.find? fun c => (p.find? c).getD .symbol == r).getD '\x00'

/-- Gives a character its role, in place of any it had. -/
def insert (p : Punctuation) (c : Char) (r : Role) : Punctuation where
  entries := Entries.put p.entries c r
  distinct := Entries.nodup_put p.distinct c r

def ofList (entries : List (Char × Role)) : Punctuation :=
  entries.foldl (fun (p : Punctuation) e => p.insert e.1 e.2) {}

theorem nodup_charset : charset.Nodup := by decide +kernel

/-- Each character of the set with its role. -/
def ofRoles (g : Char → Role) : Punctuation where
  entries := charset.map fun c => (c, g c)
  distinct := by
    rw [List.map_map]
    exact (List.map_id charset).symm ▸ nodup_charset

/-- A colon ends labels, a semicolon starts comments, a dot marks directives,
and every other character may be part of a name. -/
def standard : Punctuation :=
  ofRoles fun c =>
    if c = ':' then .label else if c = ';' then .comment
    else if c = '.' then .pseudo else .symbol

/-- The entries in the order of their code points. -/
def sorted (p : Punctuation) : List (Char × Role) :=
  p.entries.mergeSort fun a b => a.1.toNat ≤ b.1.toNat

-- ---------------------------------------------------------------------------
-- Changing the standard table
-- ---------------------------------------------------------------------------

/-- Gives a listed character its role. A marker role leaves the character that
held it, unless that character is listed too. -/
def assign (listed : List Char) (p : Punctuation) (c : Char) (r : Role) : Punctuation :=
  let old := p.char r
  let p :=
    if Role.markers.contains r && old != '\x00' && old != c && !listed.contains old then
      p.insert old .symbol
    else p
  p.insert c r

/-- The standard table with other roles for the listed characters. -/
def ofAssignments (entries : List (Char × Role)) : Punctuation :=
  entries.foldl (fun p e => p.assign (entries.map (·.1)) e.1 e.2) standard

-- ---------------------------------------------------------------------------
-- Validity
-- ---------------------------------------------------------------------------

/-- What makes a table unusable. -/
inductive Defect
  | notPunctuation (c : Char)
  | markerCount (r : Role) (found : Nat)
deriving DecidableEq, Repr

def Defect.message : Defect → Text
  | notPunctuation c => Text.join [Text.quotedChar c, " is not a punctuation character"]
  | markerCount r found =>
    Text.join ["punctuation needs exactly one ", r.text, " character, found ", Text.decimal found]

/-- How many characters have the role. -/
def count (p : Punctuation) (r : Role) : Nat := p.entries.countP (·.2 == r)

/-- Only characters of the set are listed, and each marker role has exactly one. -/
def validate (p : Punctuation) : Except Defect Unit :=
  match p.entries.find? fun e => !isPunctuation e.1 with
  | some e => .error (.notPunctuation e.1)
  | none =>
    match Role.markers.find? fun r => p.count r != 1 with
    | some r => .error (.markerCount r (p.count r))
    | none => .ok ()

end Punctuation

end CellAsm
