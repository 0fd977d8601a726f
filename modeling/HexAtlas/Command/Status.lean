namespace HexAtlas

inductive Tone where
  | progress
  | info
  | warning
deriving DecidableEq, Repr

inductive Palette where
  | plain
  | coloured
deriving DecidableEq, Repr

namespace Palette

def paint (p : Palette) (code text : String) : String :=
  match p with
  | plain => text
  | coloured => "\x1b[" ++ code ++ "m" ++ text ++ "\x1b[0m"

def dim (p : Palette) (text : String) : String := p.paint "2" text

def cyan (p : Palette) (text : String) : String := p.paint "36" text

end Palette

def Tone.code : Tone → String
  | progress => "32"
  | info => "36"
  | warning => "33"

/-- The verb takes twelve characters at least. -/
def statusLine (p : Palette) (tone : Tone) (verb message : String) : String :=
  let verb := String.ofList (List.replicate (12 - verb.length) ' ') ++ verb
  match p with
  | .plain => verb ++ " " ++ message
  | .coloured => "\x1b[1m\x1b[" ++ tone.code ++ "m" ++ verb ++ "\x1b[0m " ++ message

/-- A number with the word for so many things. -/
def counted (n : Nat) (one many : String) : String := toString n ++ " " ++ if n = 1 then one else many

end HexAtlas
