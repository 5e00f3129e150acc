import Mathlib.Algebra.Group.Int.Defs
import Mathlib.Data.List.AList
import Xutil.Lib.Lines
import Xutil.Lib.Regex

/-!
# Configurations

The maps, files, numbers and command lines behind `configurations_t` and
`get_options`. A file that cannot be opened is
`none`; reading one that has been opened does not fail. Streams are in the
classic locale.
-/

namespace Xutil.Config

abbrev Options := AList fun _ : Text => List Text

/-- `outOfRange none` is the one of the container. -/
inductive Exception
  | failure
  | invalidArgument (what : Text)
  | runtimeError (what : Text)
  | outOfRange (what : Option Text)
  | badCast
  deriving Repr, DecidableEq

/-- `options[key].push_back(value)`. -/
def Options.pushBack (options : Options) (key value : Text) : Options :=
  options.insert key ((options.lookup key).getD [] ++ [value])

-- ---------------------------------------------------------------------------
-- Characters
-- ---------------------------------------------------------------------------

/-- `[ \t\v]` -/
def isPad (c : Char) : Bool := c == ' ' || c == '\t' || c == '\x0b'

/-- `[_.A-Za-z]` -/
def isKeyHead (c : Char) : Bool := c == '_' || c == '.' || c.isAlpha

/-- `[-_.A-Za-z0-9]` -/
def isKeyTail (c : Char) : Bool := c == '-' || c == '_' || c == '.' || c.isAlphanum

/-- What `find_first_not_of` passes over in `load_file`. -/
def isBlank (c : Char) : Bool := isPad c || c == '\r' || c == '\n'

/-- `isspace` -/
def isSpace (c : Char) : Bool := isBlank c || c == '\x0c'

-- ---------------------------------------------------------------------------
-- Keys
-- ---------------------------------------------------------------------------

/-- `[_.A-Za-z][-_.A-Za-z0-9]*` -/
def keyRe : Regex Char := .seq (.one isKeyHead) (.star (.one isKeyTail))

def isInvalidKey (key : Text) : Bool := ! (Regex.regexMatch keyRe key).isSome

def validateKeys (options : Options) : Except Exception Unit :=
  if options.keys.any isInvalidKey then .error (.invalidArgument "validate_keys".toList) else .ok ()

-- ---------------------------------------------------------------------------
-- Files
-- ---------------------------------------------------------------------------

def pads : Regex Char := .star (.one isPad)

/-- `[ \t\v]*(key)[ \t\v]*=[ \t\v]*(.*)` -/
def lineRe : Regex Char :=
  .seq pads <| .seq (.group 1 keyRe) <| .seq pads <| .seq (.one (· == '=')) <| .seq pads <|
    .group 2 (.star (.one Regex.isDot))

/-- Empty lines, comments and blank lines. -/
def isSkipped (line : Text) : Bool := line.isEmpty || line.head? == some '#' || line.all isBlank

def loadLine (config : Options) (line : Text) : Except Exception Options :=
  if isSkipped line then .ok config
  else match Regex.regexMatch lineRe line with
    | none => .error (.runtimeError line)
    | some result => .ok (config.pushBack (result 1) (result 2))

def loadFile (config : Options) (file : Option Text) : Except Exception Options :=
  match file with
  | none => .error .failure
  | some text => (Lines.getlines '\n' [] text).foldlM loadLine config

-- ---------------------------------------------------------------------------
-- Numbers
-- ---------------------------------------------------------------------------

/-- What `iss >> t` does to an `int`: the value it stores, if any, and whether it
has reached the end. -/
structure Extraction where
  value : Option Int
  eof : Bool
  deriving Repr, DecidableEq

def clip (n : Int) : Int := max (-2 ^ 31) (min n (2 ^ 31 - 1))

/-- An optional sign and all the digits after it. Without a digit it stores zero,
and beyond the limits the nearest one. -/
def extractNumber (s : Text) : Extraction :=
  let negative := s.head? == some '-'
  let s := if negative || s.head? == some '+' then s.tail else s
  let digits := s.takeWhile (·.isDigit)
  let n : Int := (Nat.ofDigitChars 10 digits 0 : Nat)
  ⟨some (clip (if negative then -n else n)), (s.dropWhile (·.isDigit)).isEmpty⟩

def extractInt (s : Text) : Extraction :=
  let s := s.dropWhile isSpace
  if s.isEmpty then ⟨none, true⟩ else extractNumber s

-- ---------------------------------------------------------------------------
-- Command lines
-- ---------------------------------------------------------------------------

def isNameChar (c : Char) : Bool := c.isAlphanum

/-- `--?([a-zA-Z0-9]+)(?:[=:](.+))?` -/
def optionRe : Regex Char :=
  .seq (.one (· == '-')) <| .seq (.opt (.one (· == '-'))) <|
    .seq (.group 1 (.plus (.one isNameChar))) <|
      .opt (.seq (.one fun c => c == '=' || c == ':') (.group 2 (.plus (.one Regex.isDot))))

def addArg (options : Options) (a : Text) : Except Exception Options :=
  if a = ['-'] ∨ a.head? ≠ some '-' then .ok (options.pushBack [] a)
  else match Regex.regexMatch optionRe a with
    | some result => .ok (options.pushBack (result 1) (result 2))
    | none => .error (.invalidArgument a)

/-- The arguments are those after the name of the application. -/
def getOptions (args : List Text) : Int × Options :=
  match args.foldlM addArg ∅ with
  | .ok options =>
    let usage := (options.lookup "h".toList).isSome || (options.lookup "help".toList).isSome
    (if usage then 1 else 0, options)
  | .error _ => (-1, ∅)

end Xutil.Config
