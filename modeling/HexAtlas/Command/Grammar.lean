import HexAtlas.Binary.Decimal
import HexAtlas.Text.Split

namespace HexAtlas

/-- Why an argument list is not a command. The last two are wishes of the user. -/
inductive UsageError where
  | unknownArgument
  | unknownCommand
  | missingCommand
  /-- There is no argument at all where a command is needed. -/
  | nothingGiven
  | missingArgument
  /-- A value that is missing, empty or not one of those allowed. -/
  | invalidValue
  | unreadableNumber
  /-- A value for an option that takes none. -/
  | unwantedValue
  | repeated
  | help
  | version
deriving DecidableEq, Repr

inductive Shell where
  | bash
  | elvish
  | fish
  | powershell
  | zsh
deriving DecidableEq, Repr

namespace Shell

def all : List Shell := [bash, elvish, fish, powershell, zsh]

def name : Shell → String
  | bash => "bash"
  | elvish => "elvish"
  | fish => "fish"
  | powershell => "powershell"
  | zsh => "zsh"

def ofName? (name : String) : Option Shell := all.find? (·.name = name)

end Shell

inductive ValueKind where
  | location
  | text
  | number
  | shell
deriving DecidableEq, Repr

/-- Refuses a value that is not of the kind. -/
def ValueKind.check (kind : ValueKind) (value : String) : Except UsageError Unit :=
  match kind with
  | location => if value = "" then .error .invalidValue else .ok ()
  | text => .ok ()
  | number => if (readDouble? value.toList).isNone then .error .unreadableNumber else .ok ()
  | shell => if (Shell.ofName? value).isNone then .error .invalidValue else .ok ()

/-- What an option does. -/
inductive OptionRole where
  | flag
  | count
  | value (kind : ValueKind)
  | help
  | version
deriving DecidableEq, Repr

structure OptionForm where
  name : String
  short : Option Char
  role : OptionRole
deriving DecidableEq, Repr

structure PositionalForm where
  name : String
  kind : ValueKind
  /-- It takes any number of values. -/
  many : Bool
deriving DecidableEq, Repr

structure Grammar where
  options : List OptionForm
  positionals : List PositionalForm
  commands : List String

/-- An argument whose values are not complete yet. -/
structure Pending where
  name : String
  kind : ValueKind
  /-- It may be given again. -/
  many : Bool
  values : List String

namespace Pending

def ofOption (name : String) (kind : ValueKind) : Pending := ⟨name, kind, false, []⟩

def ofPositional (f : PositionalForm) : Pending := ⟨f.name, f.kind, f.many, []⟩

end Pending

/-- What has been read of an argument list. -/
structure Given where
  /-- Names with their values; a flag has an empty one. -/
  pairs : List (String × String)
  pending : Option Pending
  /-- The positional arguments that are still open. -/
  unfilled : List PositionalForm
  /-- Only positional arguments follow. -/
  trailing : Bool

namespace Given

def start (g : Grammar) : Given := ⟨[], none, g.positionals, false⟩

def has (s : Given) (name : String) : Bool := s.pairs.any (·.1 = name)

def values (s : Given) (name : String) : List String := (s.pairs.filter (·.1 = name)).map (·.2)

def value? (s : Given) (name : String) : Option String := (s.values name).head?

/-- Completes the pending argument. -/
def settle (s : Given) : Except UsageError Given :=
  match s.pending with
  | none => .ok s
  | some p => do
    if p.values = [] then throw .invalidValue
    if !p.many && s.has p.name then throw .repeated
    p.values.forM p.kind.check
    return { s with pairs := s.pairs ++ p.values.map fun v => (p.name, v), pending := none }

/-- Completes what is pending and begins another argument. -/
def begin (s : Given) (p : Pending) : Except UsageError Given := do return { ← s.settle with pending := some p }

/-- The pending argument is an option that still lacks its value. -/
def awaits (s : Given) : Bool := s.pending.any (·.values = [])

def addValue (s : Given) (value : String) : Given :=
  { s with pending := s.pending.map fun p => { p with values := p.values ++ [value] } }

/-- An option without a value at hand. -/
def addOption (s : Given) (f : OptionForm) : Except UsageError Given :=
  match f.role with
  | .value kind => s.begin (.ofOption f.name kind)
  | .help => do
    let _ ← s.settle
    throw .help
  | .version => do
    let _ ← s.settle
    throw .version
  | .count => do
    let s ← s.settle
    return { s with pairs := s.pairs ++ [(f.name, "")] }
  | .flag => do
    let s ← s.settle
    if s.has f.name then throw .repeated
    return { s with pairs := s.pairs ++ [(f.name, "")] }

/-- An option with the value that is attached to it. -/
def addAttached (s : Given) (f : OptionForm) (value : String) : Except UsageError Given :=
  match f.role with
  | .value kind => do ((← s.begin (.ofOption f.name kind)).addValue value).settle
  | _ => throw .unwantedValue

def addPositional (s : Given) (g : Grammar) (value : String) : Except UsageError Given :=
  match s.unfilled with
  | [] => throw <|
    if g.commands = [] || (s.trailing && g.commands.contains value) then .unknownArgument else .unknownCommand
  | f :: rest => do
    let s ← if f.many && s.pending.any (·.name = f.name) then .ok s else s.begin (.ofPositional f)
    return { s.addValue value with unfilled := if f.many then f :: rest else rest }

/-- A long option, read after its two dashes. -/
def addLong (s : Given) (g : Grammar) (cs : List Char) : Except UsageError Given :=
  let (name, value?) := match cutAt? '=' cs with
    | some (name, value) => (name, some value)
    | none => (cs, none)
  match g.options.find? (·.name.toList = name), value? with
  | none, _ => throw .unknownArgument
  | some f, none => s.addOption f
  | some f, some value => s.addAttached f (String.ofList value)

/-- Short options, read after their dash. What follows one that takes a value is its value. -/
def addShort (s : Given) (g : Grammar) : List Char → Except UsageError Given
  | [] => .ok s
  | c :: rest =>
    match g.options.find? (·.short = some c) with
    | none => throw .unknownArgument
    | some f =>
      match f.role, rest with
      | .value _, '=' :: value => s.addAttached f (String.ofList value)
      | .value _, d :: value => s.addAttached f (String.ofList (d :: value))
      | _, _ => do (← s.addOption f).addShort g rest

/-- Reads arguments up to a subcommand, which is returned with those after it. -/
def read (s : Given) (g : Grammar) : List String → Except UsageError (Given × Option (String × List String))
  | [] => do return (← s.settle, none)
  | arg :: rest =>
    if s.trailing then do (← s.addPositional g arg).read g rest
    else match arg.toList with
      | ['-', '-'] => { s with trailing := true }.read g rest
      | '-' :: '-' :: cs => do (← s.addLong g cs).read g rest
      | '-' :: c :: cs => do (← s.addShort g (c :: cs)).read g rest
      | _ =>
        if s.awaits then (s.addValue arg).read g rest
        else if g.commands.contains arg then .ok (s, some (arg, rest))
        else do (← s.addPositional g arg).read g rest

end Given

end HexAtlas
