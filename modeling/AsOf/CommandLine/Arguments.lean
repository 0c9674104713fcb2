import AsOf.Collection.Basic
import AsOf.Settings.Basic
import AsOf.Store.Resource
import AsOf.Time.Text
import AsOf.Tree.KeySet

/-!
# Arguments

The grammar of the command line: which words it knows, what they ask for, and why arguments ask for
nothing.

## Main definitions

* `CommandError`: the causes
* `CommandError.code`, `CommandError.message`, `CommandError.text`: what is said of a cause
* `Verb`: what a command does
* `Flag`: the options, where they are known and what their values are
* `Request`, `Invocation`: what is asked for
* `UsageError`: why nothing is
* `readInstant`, `readGroup`, `readInt?`: the values of options
* `Given`, `Reading`: the options that were read
* `readArguments`: the arguments up to a verb or to their end
* `Invocation.read`: the invocation that arguments stand for
-/

namespace AsOf

open Text

/-! ## Command errors -/

/-- Why a command gives no answer. -/
inductive CommandError where
  /-- The settings cannot be used. -/
  | configuration (message : String)
  /-- Reading or writing failed. -/
  | io (message : String)
  /-- The history file cannot be used. -/
  | historyFile (message : String)
  /-- The arguments do not go together with the history. -/
  | invalidArgument (message : String)
  /-- The collection refused. -/
  | document (source : CollectionError)
deriving DecidableEq, Inhabited

namespace CommandError

/-- The stable code of an error. -/
def code : CommandError → String
  | configuration _ => "CHRONO_CLI_CONFIG_ERROR"
  | io _ => "CHRONO_CLI_IO_ERROR"
  | historyFile _ => "CHRONO_CLI_FIXTURE_ERROR"
  | invalidArgument _ => "CHRONO_CLI_INVALID_ARGUMENT"
  | document _ => "CHRONO_CLI_DOCUMENT_ERROR"

/-- What happened. -/
def message : CommandError → String
  | configuration message | io message | historyFile message | invalidArgument message => message
  | document source => "[" ++ source.code ++ "] " ++ source.text

/-- The whole text of an error. -/
def text (e : CommandError) : String := e.code ++ ": " ++ e.message

/-- An error of the settings. -/
def ofConfiguration (e : ConfigurationError) : CommandError := configuration e.text

/-- An error of the store. -/
def ofStore (e : StoreError) : CommandError := document (.store e)

end CommandError

/-! ## Verbs and options

The words of the command line: what a command does, and which options it knows. -/

/-- What a command does. -/
inductive Verb where
  | resolve
  | scan
  | history
deriving DecidableEq, Repr

/-- The word for a verb. -/
def Verb.name : Verb → String
  | resolve => "resolve"
  | scan => "scan"
  | history => "history"

/-- The verb that a word stands for. -/
def Verb.ofName? (s : String) : Option Verb := [resolve, scan, history].find? (·.name == s)

/-- The word that asks for help on a verb. -/
def helpWord : String := "help"

/-- The options. -/
inductive Flag where
  | config
  | history
  | lookup
  | resource
  | asOf
  | revision
  | updatable
  | group
  | help
  | version
deriving DecidableEq, Repr

namespace Flag

/-- All options. -/
def all : List Flag :=
  [config, history, lookup, resource, asOf, revision, updatable, group, help, version]

/-- The long name of an option. -/
def name : Flag → String
  | config => "config"
  | history => "history"
  | lookup => "lookup"
  | resource => "resource"
  | asOf => "at"
  | revision => "revision"
  | updatable => "updatable"
  | group => "group"
  | help => "help"
  | version => "version"

/-- Whether an option is known in front of all verbs or behind one of them. -/
def isKnown (verb : Option Verb) : Flag → Bool
  | config | help => true
  | version => verb.isNone
  | history | lookup => verb.isSome
  | resource | revision => verb = some .resolve || verb = some .scan
  | asOf | updatable => verb = some .resolve
  | group => verb = some .scan

/-- Whether a value belongs to an option. -/
def takesValue : Flag → Bool
  | updatable | help | version => false
  | _ => true

/-- Whether negative numbers are values of an option. -/
def takesNegative : Flag → Bool
  | revision => true
  | _ => false

/-- The option with a long name. -/
def ofName? (verb : Option Verb) (s : String) : Option Flag :=
  all.find? fun f => f.name == s && f.isKnown verb

/-- The option with a letter. -/
def ofLetter? (verb : Option Verb) (c : Char) : Option Flag :=
  if c = 'h' then some help else if c = 'V' ∧ verb.isNone then some version else none

end Flag

/-! ## Requests

What a command line asks for, and why one asks for nothing. -/

/-- The kinds of wrong command lines. -/
inductive UsageKind where
  | displayHelp
  | displayVersion
  | displayHelpOnMissingArgumentOrSubcommand
  | missingSubcommand
  | invalidSubcommand
  | missingRequiredArgument
  | unknownArgument
  | argumentConflict
  | valueValidation
  | invalidValue
  | tooManyValues
deriving DecidableEq, Repr

/-- The name of a kind. -/
def UsageKind.name : UsageKind → String
  | displayHelp => "DisplayHelp"
  | displayVersion => "DisplayVersion"
  | displayHelpOnMissingArgumentOrSubcommand => "DisplayHelpOnMissingArgumentOrSubcommand"
  | missingSubcommand => "MissingSubcommand"
  | invalidSubcommand => "InvalidSubcommand"
  | missingRequiredArgument => "MissingRequiredArgument"
  | unknownArgument => "UnknownArgument"
  | argumentConflict => "ArgumentConflict"
  | valueValidation => "ValueValidation"
  | invalidValue => "InvalidValue"
  | tooManyValues => "TooManyValues"

/-- Why a command line asks for nothing: a kind, and what is said of a value that has a wrong
form. -/
structure UsageError where
  kind : UsageKind
  message : Option String := none
deriving DecidableEq, Repr

/-- The history file and how times are looked up in it. -/
structure HistorySource where
  path : String
  lookup : LookupPolicy

/-- What a command is to do. -/
inductive Request where
  | resolve (source : HistorySource) (resource : Option String) (asOf : Option Instant)
      (revision : Option Int) (updatable : Bool)
  | scan (source : HistorySource) (resource : String) (revision : Int) (groups : List KeySet)
  | history (source : HistorySource)

/-- What a command line asks for. -/
structure Invocation where
  config : Option String
  request : Request

/-- The time that the value of `--at` stands for. -/
def readInstant (s : String) : Except UsageError Instant :=
  match Instant.readExact? s with
  | some t => .ok t
  | none => .error ⟨.valueValidation, some ("invalid RFC 3339 time '" ++ s ++ "'")⟩

/-- The keys that the value of `--group` stands for. -/
def readGroup (s : String) : Except UsageError KeySet :=
  (KeySet.read s).mapError fun piece =>
    ⟨.valueValidation, some ("invalid node key '" ++ piece ++ "'")⟩

/-- The integer of 64 bits that a numeral with or without a sign stands for. -/
def readInt? (s : String) : Option Int :=
  let (negative, ds) := match s.toList with
    | '-' :: ds => (true, ds)
    | '+' :: ds => (false, ds)
    | ds => (false, ds)
  if ds.isEmpty ∨ ¬ds.all Char.isDigit then none
  else
    let n : Int := if negative then -numeralValue ds else numeralValue ds
    if -9223372036854775808 ≤ n ∧ n < 9223372036854775808 then some n else none

/-! ## Reading arguments

The grammar of the command line: options in front of a verb and behind it, each with its own kind of
value.

An option that waits for its value takes the next argument unless that looks like an option itself.
The value is examined only when the next option comes up or the arguments end, so that an argument
that has no place is reported before a value that is wrong. -/

/-- The options that were given, with their values. -/
structure Given where
  config : Option String := none
  history : Option String := none
  lookup : Option LookupPolicy := none
  resource : Option String := none
  asOf : Option Instant := none
  revision : Option Int := none
  updatable : Bool := false
  groups : List KeySet := []

namespace Given

/-- Whether an option that can be given once was given. -/
def has (g : Given) : Flag → Bool
  | .config => g.config.isSome
  | .history => g.history.isSome
  | .lookup => g.lookup.isSome
  | .resource => g.resource.isSome
  | .asOf => g.asOf.isSome
  | .revision => g.revision.isSome
  | .updatable => g.updatable
  | .group | .help | .version => false

/-- Whether no option was given. -/
def isEmpty (g : Given) : Bool := Flag.all.all (!g.has ·) && g.groups.isEmpty

/-- The value as a path, which must not be empty. -/
def path (value : String) : Except UsageError String :=
  if value.isEmpty then .error ⟨.invalidValue, none⟩ else .ok value

/-- The options with one more, whose value is examined. -/
def set (g : Given) (flag : Flag) (value : String) : Except UsageError Given :=
  match flag with
  | .config => do return { g with config := some (← path value) }
  | .history => do return { g with history := some (← path value) }
  | .lookup =>
    if value = "floor" then .ok { g with lookup := some .floor }
    else if value = "nearest" then .ok { g with lookup := some .nearest }
    else .error ⟨.invalidValue, none⟩
  | .resource => .ok { g with resource := some value }
  | .asOf => do return { g with asOf := some (← readInstant value) }
  | .revision =>
    match readInt? value with
    | some n => .ok { g with revision := some n }
    | none => .error ⟨.valueValidation, none⟩
  | .updatable => .ok { g with updatable := true }
  | .group => do return { g with groups := g.groups ++ [← readGroup value] }
  | .help => .error ⟨.displayHelp, none⟩
  | .version => .error ⟨.displayVersion, none⟩

/-- The options after one more has come up, with its value if it has one: a value must not be
missing, and an option must not be given twice. -/
def take (g : Given) (flag : Flag) (value : Option String) : Except UsageError Given :=
  if flag.takesValue ∧ value.isNone then .error ⟨.invalidValue, none⟩
  else if g.has flag then .error ⟨.argumentConflict, none⟩
  else g.set flag (value.getD "")

end Given

/-! ### The option that waits

An option is not examined when it is read but when the next one comes up. Until then a wrong value
goes unnoticed, and an argument in the wrong place is what is reported. -/

/-- How far the arguments have been read: the options that were examined, and the last one with a
value of its own, which has yet to be, with its value if that was seen. -/
structure Reading where
  given : Given := {}
  pending : Option (Flag × Option String) := none

namespace Reading

/-- The last option is examined. -/
def settle (r : Reading) : Except UsageError Given :=
  match r.pending with
  | none => .ok r.given
  | some (flag, value) => r.given.take flag value

/-- The option that waits for its value. -/
def waiting (r : Reading) : Option Flag :=
  match r.pending with
  | some (flag, none) => some flag
  | _ => none

/-- One more option without a value of its own, or with one that is joined to it. -/
def react (r : Reading) (flag : Flag) (value : Option String) : Except UsageError Reading := do
  let given ← r.settle
  return { given := ← given.take flag value }

/-- One more option that waits for its value. -/
def await (r : Reading) (flag : Flag) : Except UsageError Reading := do
  return { given := ← r.settle, pending := some (flag, none) }

end Reading

/-! ### One argument -/

/-- Whether a text looks like a number without its sign: digits, at most one point behind the first
of them, and behind an `e` or `E` an exponent of digits that is not empty. -/
def looksNumeric (cs : List Char) : Bool :=
  let (mantissa, exponent) := cs.span fun c => c != 'e' && c != 'E'
  let digitsOnly := fun ds : List Char => ds.all Char.isDigit
  let (whole, fraction) := mantissa.span (· != '.')
  let mantissaFits := digitsOnly whole && digitsOnly (fraction.drop 1) &&
    (fraction.isEmpty || !whole.isEmpty)
  mantissaFits && (exponent.isEmpty ||
    (!mantissa.isEmpty && !(exponent.drop 1).isEmpty && digitsOnly (exponent.drop 1)))

/-- How an argument looks. -/
inductive Shape where
  | escape
  | long (name : String) (value : Option String)
  | short (letters : List Char)
  | plain

/-- How an argument looks: `--` ends the options, a longer word behind two hyphens is an option with
or without a joined value, letters behind one hyphen are options too. -/
def Shape.of (arg : String) : Shape :=
  match arg.toList with
  | ['-', '-'] => escape
  | '-' :: '-' :: cs =>
    let (name, value) := cs.span (· != '=')
    long (String.ofList name)
      (match value with
        | [] => none
        | _ :: value => some (String.ofList value))
  | ['-'] => plain
  | '-' :: letters => short letters
  | _ => plain

/-- Letters behind one hyphen, each an option without a value. -/
def readLetters (verb : Option Verb) : Reading → List Char → Except UsageError Reading
  | r, [] => .ok r
  | r, c :: cs =>
    match Flag.ofLetter? verb c with
    | none => .error ⟨.unknownArgument, none⟩
    | some flag => do readLetters verb (← r.react flag none) cs

/-- An option behind two hyphens. -/
def readLong (verb : Option Verb) (r : Reading) (name : String) (value : Option String) :
    Except UsageError Reading :=
  match Flag.ofName? verb name with
  | none => .error ⟨.unknownArgument, none⟩
  | some flag =>
    if flag.takesValue then
      match value with
      | some value => r.react flag (some value)
      | none => r.await flag
    else if value.isSome then .error ⟨.tooManyValues, none⟩
    else r.react flag none

/-- An argument that has no place: in front of a verb it should have been one. -/
def misplaced (verb : Option Verb) : UsageError :=
  if verb.isNone then ⟨.invalidSubcommand, none⟩ else ⟨.unknownArgument, none⟩

/-- Arguments behind `--`: there is a place for none. -/
def readTrailing (verb : Option Verb) : List String → Except UsageError Unit
  | [] => .ok ()
  | arg :: _ =>
    if verb.isNone ∧ ((Verb.ofName? arg).isSome ∨ arg = helpWord) then
      .error ⟨.unknownArgument, none⟩
    else .error (misplaced verb)

/-! ### All arguments -/

/-- What stopped the reading: the end of the arguments, or a verb with the arguments behind it. -/
inductive Stop where
  | ended
  | verb (v : Verb) (rest : List String)
  | helpOn (rest : List String)

/-- The verb that an argument is in front of all verbs, with the arguments behind it. -/
def Stop.of? (verb : Option Verb) (arg : String) (rest : List String) : Option Stop :=
  if verb.isSome then none
  else if arg = helpWord then some (.helpOn rest)
  else (Verb.ofName? arg).map (.verb · rest)

/-- An argument that is no option is the value that an option waits for. -/
def readPlain (verb : Option Verb) (r : Reading) (arg : String) : Except UsageError Reading :=
  match r.waiting with
  | some flag => .ok { r with pending := some (flag, some arg) }
  | none => .error (misplaced verb)

/-- The arguments in front of all verbs or behind one of them, up to what stops the reading. -/
def readArguments (verb : Option Verb) :
    Reading → List String → Except UsageError (Reading × Stop)
  | r, [] => .ok (r, .ended)
  | r, arg :: rest =>
    match if r.waiting.isNone then Stop.of? verb arg rest else none with
    | some stop => .ok (r, stop)
    | none =>
      match Shape.of arg with
      | .escape => do
        readTrailing verb rest
        return (r, .ended)
      | .long name value => do readArguments verb (← readLong verb r name value) rest
      | .short letters =>
        if r.waiting.any (·.takesNegative) ∧ looksNumeric letters then do
          readArguments verb (← readPlain verb r arg) rest
        else do readArguments verb (← readLetters verb r letters) rest
      | .plain => do readArguments verb (← readPlain verb r arg) rest

/-! ### What the arguments ask for -/

/-- The words behind `help` name a verb, or nothing. -/
def readHelp : List String → UsageError
  | [] => ⟨.displayHelp, none⟩
  | [word] =>
    if (Verb.ofName? word).isSome ∨ word = helpWord then ⟨.displayHelp, none⟩
    else ⟨.invalidSubcommand, none⟩
  | _ => ⟨.invalidSubcommand, none⟩

/-- What a verb is asked to do by the options behind it. A time and a revision exclude each other;
that is reported before an option that is missing. -/
def Verb.request (v : Verb) (g : Given) : Except UsageError Request :=
  let missing : UsageError := ⟨.missingRequiredArgument, none⟩
  if g.asOf.isSome ∧ g.revision.isSome then .error ⟨.argumentConflict, none⟩
  else
    match g.history with
    | none => .error missing
    | some path =>
      let source : HistorySource := ⟨path, g.lookup.getD .default⟩
      match v with
      | .resolve => .ok (.resolve source g.resource g.asOf g.revision g.updatable)
      | .scan =>
        match g.resource with
        | none => .error missing
        | some resource => .ok (.scan source resource (g.revision.getD (-1)) g.groups)
      | .history => .ok (.history source)

/-- The invocation that arguments stand for. What is wrong behind a verb is reported before what is
wrong in front of it. -/
def Invocation.read (args : List String) : Except UsageError Invocation := do
  let (r, stop) ← readArguments none {} args
  match stop with
  | .helpOn rest => .error (readHelp rest)
  | .ended =>
    let given ← r.settle
    .error ⟨if given.isEmpty then .displayHelpOnMissingArgumentOrSubcommand
      else .missingSubcommand, none⟩
  | .verb v rest =>
    let (inner, _) ← readArguments (some v) {} rest
    let given ← inner.settle
    let request ← v.request given
    let outer ← r.settle
    return ⟨given.config <|> outer.config, request⟩

end AsOf
