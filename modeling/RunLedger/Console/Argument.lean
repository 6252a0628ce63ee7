/-
  Console/Argument.lean --- the arguments of a command.

  WHAT THIS FILE IS FOR.  A command is given options by name and operands by
  position.  An option is written `--name value` or `--name=value`, one without a
  value `--name`; a value of its own may not begin with a dash unless the dash is
  all of it.  Behind `--` everything is an operand.

  Arguments are taken from left to right and the first that is wrong is reported.
  An option whose value is an argument of its own is looked at when the next
  option, operand or the end shows that it is complete; an argument that nobody
  knows is reported before that.
-/

set_option autoImplicit false

namespace RunLedger.Console

/-- Why arguments are refused, or not carried out. -/
inductive UsageFault where
  | missingRequired
  /-- an option or operand that the command does not have -/
  | unknown
  /-- an option that needs a value has none -/
  | noValue
  /-- a value that the option does not accept -/
  | badValue
  /-- an option given twice, or two that exclude each other -/
  | conflict
  /-- a command that does not exist -/
  | badCommand
  /-- a value for an option that takes none -/
  | surplusValue
  /-- help is asked for -/
  | help
  /-- help is due because no command is given -/
  | helpForNothing
  deriving DecidableEq, Repr, Inhabited

/-- An option of a command. -/
structure OptionForm where
  name : String
  /-- which values it accepts; none if it takes no value -/
  accepts? : Option (String → Bool)

namespace OptionForm

/-- An option without a value. -/
def flag (name : String) : OptionForm := ⟨name, none⟩

/-- An option with any value. -/
def any (name : String) : OptionForm := ⟨name, some fun _ => true⟩

/-- An option with a value that stands for something. -/
def of {α : Type} (name : String) (read? : String → Option α) : OptionForm :=
  ⟨name, some fun value => (read? value).isSome⟩

end OptionForm

/-- The options of a command, and how many operands it takes. -/
structure Grammar where
  options : List OptionForm
  operands : Nat

/-- The option with a name. -/
def Grammar.option? (grammar : Grammar) (name : String) : Option OptionForm :=
  grammar.options.find? fun option => option.name == name

/-- What a command has been given. -/
structure Given where
  options : List (String × String)
  operands : List String
  deriving DecidableEq, Repr, Inhabited

namespace Given

/-- Nothing yet. -/
def nothing : Given := ⟨[], []⟩

/-- The value of an option. -/
def value? (given : Given) (name : String) : Option String := given.options.lookup name

/-- Whether an option is given. -/
def has (given : Given) (name : String) : Bool := (given.value? name).isSome

/-- The value of an option that must be given. -/
def value (given : Given) (name : String) : Except UsageFault String :=
  match given.value? name with
  | some value => .ok value
  | none => .error .missingRequired

/-- What the value of an option that must be given stands for. -/
def read {α : Type} (given : Given) (name : String) (read? : String → Option α) :
    Except UsageFault α := do
  match read? (← given.value name) with
  | some a => return a
  | none => throw .badValue

/-- The one operand. -/
def operand (given : Given) : Except UsageFault String :=
  match given.operands.head? with
  | some operand => .ok operand
  | none => .error .missingRequired

/-- What has been given, and one option more. -/
def addOption (given : Given) (option : OptionForm) (value : String) : Except UsageFault Given :=
  if given.has option.name then .error .conflict
  else if option.accepts?.all fun accepts => accepts value then
    .ok { given with options := given.options ++ [(option.name, value)] }
  else .error .badValue

end Given

/-! ## Arguments by their form -/

/-- An argument by its form. -/
inductive Token where
  /-- two dashes -/
  | divider
  /-- an option, and the value that is written with it -/
  | long (name : String) (value : Option String)
  /-- a dash and something else behind it, of which this is the first -/
  | short (first : Char)
  | plain (text : String)
  deriving DecidableEq, Repr, Inhabited

/-- An argument by its form. -/
def Token.ofArgument (argument : String) : Token :=
  match argument.toList with
  | ['-', '-'] => .divider
  | '-' :: '-' :: rest =>
    let name := String.ofList (rest.takeWhile fun c => c != '=')
    match rest.dropWhile fun c => c != '=' with
    | [] => .long name none
    | _ :: value => .long name (some (String.ofList value))
  | ['-'] => .plain argument
  | '-' :: first :: _ => .short first
  | _ => .plain argument

/-! ## Taking arguments -/

/-- An option that has been read but not looked at, and its value if that has been read. -/
structure Waiting where
  option : OptionForm
  value : Option String

/-- What has been given, with the option that waits looked at. -/
def settle (given : Given) : Option Waiting → Except UsageFault Given
  | none => .ok given
  | some ⟨_, none⟩ => .error .noValue
  | some ⟨option, some value⟩ => given.addOption option value

namespace Grammar

/-- One more operand. -/
def takeOperand (grammar : Grammar) (given : Given) (waiting : Option Waiting) (text : String) :
    Except UsageFault Given := do
  if grammar.operands ≤ given.operands.length then throw .unknown
  let given ← settle given waiting
  return { given with operands := given.operands ++ [text] }

/-- An option by its name, with the value that is written with it. -/
def takeOption (grammar : Grammar) (given : Given) (waiting : Option Waiting) (name : String)
    (value : Option String) : Except UsageFault (Given × Option Waiting) := do
  if name = "help" then
    if value.isSome then throw .surplusValue
    let _ ← settle given waiting
    throw .help
  match grammar.option? name with
  | none => throw .unknown
  | some option =>
    match option.accepts?, value with
    | none, some _ => throw .surplusValue
    | none, none => return (← (← settle given waiting).addOption option "", none)
    | some _, some value => return (← (← settle given waiting).addOption option value, none)
    | some _, none => return (← settle given waiting, some ⟨option, none⟩)

/-- Takes arguments from the first on; `divided` says whether two dashes came before. -/
def take (grammar : Grammar) : (divided : Bool) → Given → Option Waiting → List String →
    Except UsageFault Given
  | _, given, waiting, [] => settle given waiting
  | true, given, waiting, text :: rest => do
    let given ← grammar.takeOperand given waiting text
    grammar.take true given none rest
  | false, given, waiting, argument :: rest =>
    match Token.ofArgument argument with
    | .divider => grammar.take true given waiting rest
    | .long name value => do
      let (given, waiting) ← grammar.takeOption given waiting name value
      grammar.take false given waiting rest
    | .short first =>
      if first = 'h' then do
        let _ ← settle given waiting
        throw .help
      else .error .unknown
    | .plain text =>
      match waiting with
      | some ⟨option, none⟩ => grammar.take false given (some ⟨option, some text⟩) rest
      | other => do
        let given ← grammar.takeOperand given other text
        grammar.take false given none rest

/-- What a command is given by its arguments. -/
def read (grammar : Grammar) (arguments : List String) : Except UsageFault Given :=
  grammar.take false .nothing none arguments

end Grammar

/-! ## Choosing a command -/

/-- A command by its name, its arguments, and what they make of it. -/
structure Verb (α : Type) where
  name : String
  grammar : Grammar
  build : Given → Except UsageFault α

/-- Whether a word is the name of one of these commands, or asks for help. -/
def isVerb {α : Type} (verbs : List (Verb α)) (word : String) : Bool :=
  word == "help" || verbs.any fun verb => verb.name == word

/-- The command that arguments stand for, of some commands. -/
def choose {α : Type} (verbs : List (Verb α)) (arguments : List String) : Except UsageFault α :=
  match arguments with
  | [] => .error .helpForNothing
  | word :: rest =>
    match Token.ofArgument word with
    | .divider =>
      match rest with
      | [] => .error .helpForNothing
      | next :: _ => .error (if isVerb verbs next then .unknown else .badCommand)
    | .long name value =>
      if name = "help" then .error (if value.isSome then .surplusValue else .help)
      else .error .unknown
    | .short first => .error (if first = 'h' then .help else .unknown)
    | .plain word =>
      if word = "help" then
        match rest with
        | [] => .error .help
        | [topic] => .error (if isVerb verbs topic then .help else .badCommand)
        | _ => .error .badCommand
      else
        match verbs.find? fun verb => verb.name == word with
        | none => .error .badCommand
        | some verb => do
          let given ← verb.grammar.read rest
          verb.build given

end RunLedger.Console
