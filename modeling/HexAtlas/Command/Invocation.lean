import HexAtlas.Command.Bounds
import HexAtlas.Command.Grammar
import HexAtlas.Command.Init
import HexAtlas.Command.Render

namespace HexAtlas

/-- The requests that argument lists stand for. -/
inductive Request where
  | render (r : RenderRequest)
  | bounds (r : BoundsRequest)
  | init (r : InitRequest)
  | completions (shell : Shell)

structure Invocation where
  /-- How much is logged: a byte that does not overflow. -/
  verbosity : Nat
  request : Request

inductive CommandName where
  | render
  | bounds
  | init
  | completions
deriving DecidableEq, Repr

namespace CommandName

def all : List CommandName := [render, bounds, init, completions]

def text : CommandName → String
  | render => "render"
  | bounds => "bounds"
  | init => "init"
  | completions => "completions"

def ofText? (s : String) : Option CommandName := all.find? (·.text = s)

end CommandName

namespace Invocation

def verbose : OptionForm := ⟨"verbose", some 'v', .count⟩

def help : OptionForm := ⟨"help", some 'h', .help⟩

def version : OptionForm := ⟨"version", some 'V', .version⟩

def outerGrammar : Grammar := ⟨[verbose, help, version], [], "help" :: CommandName.all.map (·.text)⟩

def grammar (c : CommandName) : Grammar :=
  let theme : OptionForm := ⟨"theme", none, .value .text⟩
  let (options, positionals) : List OptionForm × List PositionalForm := match c with
    | .render => ([
        ⟨"output", some 'o', .value .location⟩, theme, ⟨"id", none, .value .text⟩,
        ⟨"width", none, .value .number⟩, ⟨"height", none, .value .number⟩, ⟨"stdout", none, .flag⟩],
        [⟨"paths", .location, true⟩])
    | .bounds => ([theme], [⟨"file", .location, false⟩])
    | .init => ([⟨"force", none, .flag⟩], [⟨"path", .location, false⟩])
    | .completions => ([], [⟨"shell", .shell, false⟩])
  ⟨options ++ [verbose, help], positionals, []⟩

/-- The request of a subcommand whose arguments are given. -/
def requestOf (c : CommandName) (s : Given) : Except UsageError Request :=
  let number? (name : String) : Option Double := (s.value? name).bind fun v => readDouble? v.toList
  match c with
  | .render => .ok <| .render {
      paths := (s.values "paths").map .ofString, output := (s.value? "output").map .ofString
      theme := s.value? "theme", id := s.value? "id", width := number? "width", height := number? "height"
      stdout := s.has "stdout" }
  | .bounds =>
    match s.value? "file" with
    | some file => .ok (.bounds ⟨.ofString file, s.value? "theme"⟩)
    | none => throw .missingArgument
  | .init => .ok (.init ⟨.ofString ((s.value? "path").getD "."), s.has "force"⟩)
  | .completions =>
    match (s.value? "shell").bind Shell.ofName? with
    | some shell => .ok (.completions shell)
    | none => throw .missingArgument

/-- Every word after `help` has to name a subcommand, and no subcommand has subcommands of its own. -/
def helpOn : List String → UsageError
  | [] => .help
  | [word] => if outerGrammar.commands.contains word then .help else .unknownCommand
  | _ => .unknownCommand

/-- Reads an argument list. Counts of the inner level take the place of those before the subcommand. -/
def parse (args : List String) : Except UsageError Invocation := do
  let (outer, inner?) ← (Given.start outerGrammar).read outerGrammar args
  match inner? with
  | none => throw (if outer.pairs = [] then .nothingGiven else .missingCommand)
  | some (word, rest) =>
    match CommandName.ofText? word with
    | none => throw (helpOn rest)
    | some c =>
      let (s, _) ← (Given.start (grammar c)).read (grammar c) rest
      let verbosity := if s.has "verbose" then (s.values "verbose").length else (outer.values "verbose").length
      return ⟨min 255 verbosity, ← requestOf c s⟩

end Invocation

/-- Performs a request. The texts of completions are made elsewhere. -/
def Request.run (r : Request) (p : Palette) (fs : FileSystem) : Outcome :=
  match r with
  | .render r => r.run p fs
  | .bounds r => r.run fs
  | .init r => r.run p fs
  | .completions _ => .printed fs ""

end HexAtlas
