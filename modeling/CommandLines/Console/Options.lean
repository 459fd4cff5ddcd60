/-
The arguments of the console program.

Options may stand before the name of the request and after it; where both give one, the
later one counts.  An option's value is the next argument, unless that looks like an
option too, or what follows an equals sign.  After two dashes alone all arguments are
words.
-/
import CommandLines.Number.Numeral

namespace CommandLines.Console

/-- How the program writes what it has to say. -/
inductive Format where
  /-- Lines for people. -/
  | pretty
  /-- JSON for programs. -/
  | json
deriving DecidableEq, Repr

/-- The format of a name. -/
def Format.ofName? : String → Option Format
  | "pretty" => some .pretty
  | "json" => some .json
  | _ => none

/-- The options. -/
inductive OptionName where
  | output
  | verbose
  | quiet
  | grammar
  | as
  | admin
  | cursor
  | smart
deriving DecidableEq, Repr

namespace OptionName

/-- The name of an option. -/
def name : OptionName → String
  | .output => "output"
  | .verbose => "verbose"
  | .quiet => "quiet"
  | .grammar => "grammar"
  | .as => "as"
  | .admin => "admin"
  | .cursor => "cursor"
  | .smart => "smart"

/-- Whether an option has a value. -/
def hasValue : OptionName → Bool
  | .output | .grammar | .as | .cursor => true
  | .verbose | .quiet | .admin | .smart => false

/-- The options that may stand anywhere. -/
def common : List OptionName := [.output, .verbose, .quiet, .grammar, .as, .admin]

/-- The option of a letter. -/
def ofLetter? : Char → Option OptionName
  | 'v' => some .verbose
  | 'q' => some .quiet
  | _ => none

end OptionName

/-- What can be wrong with the arguments. -/
inductive Misuse where
  | unknownOption (text : String)
  | missingValue (option : OptionName)
  | needlessValue (option : OptionName)
  | badValue (option : OptionName) (value : String)
  | repeated (option : OptionName)
  /-- The program is to say less and more. -/
  | quietAndVerbose
  | missingRequest
  | unknownRequest (word : String)
  | missingWord
  | needlessWord (word : String)
deriving DecidableEq, Repr

/-- What to tell whoever typed the arguments. -/
def Misuse.message : Misuse → String
  | .unknownOption text => "unexpected argument '" ++ text ++ "'"
  | .missingValue option => "a value is required for '--" ++ option.name ++ "'"
  | .needlessValue option => "'--" ++ option.name ++ "' takes no value"
  | .badValue option value => "invalid value '" ++ value ++ "' for '--" ++ option.name ++ "'"
  | .repeated option => "'--" ++ option.name ++ "' cannot be used multiple times"
  | .quietAndVerbose => "'--quiet' cannot be used with '--verbose'"
  | .missingRequest => "a request is required"
  | .unknownRequest word => "unrecognized request '" ++ word ++ "'"
  | .missingWord => "an argument is missing"
  | .needlessWord word => "unexpected argument '" ++ word ++ "'"

/-- The looks of an argument. -/
inductive Token where
  | word (s : String)
  /-- Two dashes and a name, with what follows an equals sign if there is one. -/
  | long (name : String) (value? : Option String)
  /-- One dash and letters. -/
  | short (letters : List Char)
  /-- Two dashes alone. -/
  | stop
deriving DecidableEq, Repr

/-- The looks of an argument; a dash alone is a word. -/
def Token.ofArgument (argument : String) : Token :=
  match argument.toList with
  | ['-'] => .word argument
  | ['-', '-'] => .stop
  | '-' :: '-' :: cs =>
    let name := String.ofList (cs.takeWhile (· != '='))
    match cs.dropWhile (· != '=') with
    | [] => .long name none
    | _ :: value => .long name (some (String.ofList value))
  | '-' :: letters => .short letters
  | _ => .word argument

/-- Arguments sorted into options and words, up to the name of a request where there is one. -/
structure Level where
  /-- The options with their values, empty for those that have none. -/
  options : List (OptionName × String) := []
  words : List String := []
  /-- The name of the request, and the arguments after it. -/
  request? : Option (String × List String) := none
deriving DecidableEq, Repr

namespace Level

/-- The arguments with an option in front. -/
def withOption (option : OptionName) (value : String) (l : Level) : Level :=
  { l with options := (option, value) :: l.options }

/-- Sort arguments, given the options that may occur.  With `outer` the first word is the name of a
request, unless it comes after two dashes alone. -/
def scan (known : List OptionName) (outer : Bool) : List String → Except Misuse Level
  | [] => .ok {}
  | argument :: rest =>
    match Token.ofArgument argument with
    | .stop => .ok { words := rest }
    | .word w =>
      if outer then .ok { request? := some (w, rest) }
      else (scan known outer rest).map fun l => { l with words := w :: l.words }
    | .short letters =>
      match letters.mapM OptionName.ofLetter? with
      | none => .error (.unknownOption argument)
      | some flags =>
        (scan known outer rest).map fun l => flags.foldr (withOption · "") l
    | .long name value? =>
      match known.find? (·.name == name) with
      | none => .error (.unknownOption argument)
      | some option =>
        match option.hasValue, value? with
        | true, some value => (scan known outer rest).map (withOption option value)
        | false, none => (scan known outer rest).map (withOption option "")
        | false, some _ => .error (.needlessValue option)
        | true, none =>
          match rest with
          | [] => .error (.missingValue option)
          | value :: rest =>
            match Token.ofArgument value with
            | .word _ => (scan known outer rest).map (withOption option value)
            | _ => .error (.missingValue option)

/-- How often an option is given. -/
def count (l : Level) (option : OptionName) : Nat := (l.options.filter (·.1 == option)).length

/-- Whether an option is given. -/
def has (l : Level) (option : OptionName) : Bool := 0 < l.count option

/-- The value of an option. -/
def value? (l : Level) (option : OptionName) : Option String :=
  (l.options.find? (·.1 == option)).map (·.2)

end Level

/-- An offset in decimal digits, which may follow a plus sign, when 64 bits hold it. -/
def offset? (s : String) : Option Nat :=
  let digits := match s.toList with
    | '+' :: cs => cs
    | cs => cs
  if digits.isEmpty || !digits.all Char.isDigit then none
  else
    let n := Number.ofDigits digits
    if n ≤ 0xFFFFFFFFFFFFFFFF then some n else none

/-- Whether an option may have a value. -/
def OptionName.takes : OptionName → String → Bool
  | .output, value => (Format.ofName? value).isSome
  | .grammar, value => !value.isEmpty
  | .cursor, value => (offset? value).isSome
  | _, _ => true

/-- See that the options go together. -/
def Level.check (l : Level) : Except Misuse Unit :=
  match l.options.find? fun o => o.1 != .verbose && 1 < l.count o.1 with
  | some (option, _) => .error (.repeated option)
  | none =>
    if l.has .quiet && l.has .verbose then .error .quietAndVerbose
    else
      match l.options.find? fun o => !o.1.takes o.2 with
      | some (option, value) => .error (.badValue option value)
      | none => .ok ()

/-- What the program is asked for. -/
inductive Request where
  /-- Run a line. -/
  | exec (line : String)
  /-- Tell what a line matches. -/
  | parse (line : String)
  /-- Complete a line, at its end where no offset is given. -/
  | suggest (line : String) (offset? : Option Nat)
  /-- Tell the usage below a path, at full length or condensed. -/
  | usage (path : List String) (condensed : Bool)
  /-- Tell which siblings take each other's texts. -/
  | ambiguities
  /-- Explain a code. -/
  | explain (code : String)
deriving DecidableEq, Repr

/-- The options that belong to a request. -/
def Request.options : String → List OptionName
  | "suggest" => [.cursor]
  | "usage" => [.smart]
  | _ => []

/-- The one word that is asked for. -/
def Level.onlyWord (l : Level) : Except Misuse String :=
  match l.words with
  | [] => .error .missingWord
  | [word] => .ok word
  | _ :: word :: _ => .error (.needlessWord word)

/-- The request of a name with its arguments. -/
def Request.ofLevel (name : String) (l : Level) : Except Misuse Request :=
  match name with
  | "exec" => l.onlyWord.map .exec
  | "parse" => l.onlyWord.map .parse
  | "suggest" => l.onlyWord.map fun line => .suggest line ((l.value? .cursor).bind offset?)
  | "usage" => .ok (.usage l.words (l.has .smart))
  | "ambiguities" =>
    match l.words with
    | [] => .ok .ambiguities
    | word :: _ => .error (.needlessWord word)
  | "explain" => l.onlyWord.map .explain
  | _ => .error (.unknownRequest name)

/-- What the arguments come down to. -/
structure Invocation where
  format : Format
  /-- Who runs the line. -/
  name : String := "console"
  admin : Bool := false
  /-- The file with more commands. -/
  grammar? : Option String := none
  request : Request
deriving DecidableEq, Repr

/-- What the arguments come down to; `format` is the one to use where they name none. -/
def Invocation.ofArguments (format : Format) (arguments : List String) :
    Except Misuse Invocation := do
  let before ← Level.scan OptionName.common true arguments
  match before.request?, before.words with
  | none, [] => .error .missingRequest
  | none, word :: _ => .error (.needlessWord word)
  | some (name, rest), _ =>
    let after ← Level.scan (OptionName.common ++ Request.options name) false rest
    let request ← Request.ofLevel name after
    after.check
    before.check
    let value? (option : OptionName) := (after.value? option).or (before.value? option)
    return {
      format := ((value? .output).bind Format.ofName?).getD format
      name := (value? .as).getD "console"
      admin := after.has .admin || before.has .admin
      grammar? := value? .grammar
      request }

end CommandLines.Console
