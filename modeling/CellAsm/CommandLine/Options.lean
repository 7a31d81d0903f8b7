-- SUMMARY: The options of the command line.
import CellAsm.Text.DecimalWord
import CellAsm.Text.Fold
import CellAsm.Text.Quoted

/-!
# Options

An option has a short and a long form. A value follows its option after an equals
sign, or as the next argument if nothing stands there. A flag needs no value: it
is on unless a word behind it says otherwise, and any other argument behind it is
read for itself. The first argument that is no option is the source file; empty
arguments are skipped.
-/
namespace CellAsm.CommandLine

structure Options where
  machine : Option Text := none
  start : Int := 0
  output : Text := []
  binary : Text := []
  listing : Bool := false
  help : Bool := false
  file : Option Text := none
deriving DecidableEq, Repr

inductive OptionError
  | noArguments
  | missingOption (option : Text)
  | missingFile
  | missingValue (option : Text)
  | badNumber (value : Text) (e : WordError)
  | unknownOption (option : Text)
deriving DecidableEq, Repr

def OptionError.message : OptionError → Text
  | noArguments => "no arguments"
  | missingOption o => Text.join [o, ": missing required option"]
  | missingFile => "FILE: missing required argument"
  | missingValue o => Text.join [o, ": missing option parameter"]
  | badNumber v e => Text.join ["strconv.Atoi: parsing ", v.quoted, ": ", e.message]
  | unknownOption o => Text.join [o, ": unknown option"]

/-- What is printed when there are no arguments. -/
def help : Text := Text.join [
  "Usage:\n  uasm [OPTIONS]... [FILE]\n\nMain options:\n",
  "\t-h, --help\tPrint this help message.\n",
  "\t-m, --machine\tMachine description (JSON). (required)\n",
  "\t-s, --start\tCell address of the first instruction.\n",
  "\t-o, --output\tWrite a hex image of the code store to this file.\n",
  "\t-b, --binary\tWrite the code as big-endian bytes to this file.\n",
  "\t-l, --listing\tPrint a listing. (default: false)\n",
  "\t-d, --dump\tDump the resolved instruction calls. (default: false)\n",
  "\t-v, --verbose\tLog assembler stages. (default: false)\n",
  "\n\nPositional arguments:\n\tFILE\tAssembly source file.\n\n"]

/-- The truth value that a word stands for, in upper or lower case. -/
def truthValue? (word : Text) : Option Bool :=
  if ["true", "yes", "on", "t", "y", "1"].any word.lowersTo then some true
  else if ["false", "no", "off", "f", "n", "0"].any word.lowersTo then some false
  else none

/-- The options there are. -/
inductive Switch
  | help
  | machine
  | start
  | output
  | binary
  | listing
  | dump
  | verbose
deriving DecidableEq, Repr

namespace Switch

def all : List Switch := [help, machine, start, output, binary, listing, dump, verbose]

def short : Switch → Text
  | help => "-h"
  | machine => "-m"
  | start => "-s"
  | output => "-o"
  | binary => "-b"
  | listing => "-l"
  | dump => "-d"
  | verbose => "-v"

def long : Switch → Text
  | help => "--help"
  | machine => "--machine"
  | start => "--start"
  | output => "--output"
  | binary => "--binary"
  | listing => "--listing"
  | dump => "--dump"
  | verbose => "--verbose"

/-- The option that an argument names. -/
def ofArgument? (a : Text) : Option Switch := all.find? fun o => o.short == a || o.long == a

/-- Whether the option is turned on or off, and so may stand by itself. -/
def isFlag : Switch → Bool
  | help | listing | dump | verbose => true
  | machine | start | output | binary => false

/-- Turns a flag on or off. -/
def turn (o : Switch) (on : Bool) (opts : Options) : Options :=
  match o with
  | help => { opts with help := on }
  | listing => { opts with listing := on }
  | dump | verbose | machine | start | output | binary => opts

/-- Gives an option its value. A flag is on if its value is no truth value. -/
def setValue (o : Switch) (value : Text) (opts : Options) : Except OptionError Options :=
  match o with
  | machine => .ok { opts with machine := some value }
  | output => .ok { opts with output := value }
  | binary => .ok { opts with binary := value }
  | start =>
    match value.toWord with
    | .ok n => .ok { opts with start := n }
    | .error e => .error (.badNumber value e)
  | help | listing | dump | verbose => .ok (o.turn ((truthValue? value).getD true) opts)

end Switch

/-- An argument before its first equals sign, and the value behind it, empty if
there is none. -/
def splitEquals (a : Text) : Text × Text :=
  (a.takeWhile (· != '='.toUInt8), (a.dropWhile (· != '='.toUInt8)).drop 1)

def isOption : Text → Bool
  | b :: _ :: _ => b == '-'.toUInt8
  | _ => false

/-- Reads the arguments on top of the options set so far. -/
def readArguments (opts : Options) : List Text → Except OptionError Options
  | [] => .ok opts
  | a :: rest =>
    if a = [] then readArguments opts rest
    else if isOption a then
      let (name, value) := splitEquals a
      match Switch.ofArgument? name with
      | none => .error (.unknownOption a)
      | some o =>
        if value ≠ [] then do readArguments (← o.setValue value opts) rest
        else match rest with
          | [] => if o.isFlag then .ok (o.turn true opts) else .error (.missingValue name)
          | value :: later =>
            if o.isFlag && (truthValue? value).isNone then
              readArguments (o.turn true opts) (value :: later)
            else do readArguments (← o.setValue value opts) later
    else readArguments { opts with file := opts.file.or (some a) } rest

/-- The options in an argument vector. -/
def options (argv : List Text) : Except OptionError Options := do
  if argv.length < 2 then .error .noArguments
  else
    let opts ← readArguments {} argv
    if opts.help then .error .noArguments
    else if opts.machine.isNone then .error (.missingOption Switch.machine.short)
    else if opts.file.isNone then .error .missingFile
    else return opts

end CellAsm.CommandLine
