import HexAtlas.Grid.Point

namespace HexAtlas

inductive CurveCommand where
  | move (finish : Point)
  | cubic (first second finish : Point)
  | smooth (control finish : Point)
  | line (finish : Point)
deriving DecidableEq

namespace CurveCommand

def text : CurveCommand → String
  | move p => "M" ++ p.text
  | cubic a b p => "C" ++ a.text ++ " " ++ b.text ++ " " ++ p.text
  | smooth a p => "S" ++ a.text ++ " " ++ p.text
  | line p => "L" ++ p.text

end CurveCommand

def hundredths (n : Int) : Double := .ofRat .double (n / 100)

/-- The control point of a segment. -/
def bend (p next : Point) : Point := p.partway next (hundredths 30)

def middle (p next : Point) : Point := p.partway next (hundredths 50)

/-- Smooth pieces through the segments of `p :: rest`, each up to the middle of its segment. -/
def smoothPieces (p : Point) : List Point → List CurveCommand
  | [] => []
  | next :: rest => .smooth (bend p next) (middle p next) :: smoothPieces next rest

/-- A curve of more than two points is closed if it ends where it starts. -/
def isClosed (points : List Point) : Bool :=
  match points.head?, points.getLast? with
  | some first, some last => first.same last && 2 < points.length
  | _, _ => false

/-- The commands that draw a smooth curve through two points at least. It bends through the point thirty hundredths
of the way along each segment and passes the middle of the segment. An open curve ends with a straight piece; a
closed one returns to its start. -/
def curve (points : List Point) : List CurveCommand :=
  match points with
  | first :: second :: rest =>
    let last := rest.getLastD second
    let start :=
      if isClosed points then
        let before := (second :: rest).dropLast.getLastD first
        [.move (middle before first),
          .cubic (before.partway first (hundredths 70)) (bend first second) (middle first second)]
      else [.move first, .cubic (bend first second) (bend first second) (middle first second)]
    start ++ smoothPieces second rest ++ if isClosed points then [] else [.line last]
  | _ => []

/-- The text of a curve, if there is any. -/
def curveText? (points : List Point) : Option String :=
  match curve points with
  | [] => none
  | commands => some (" ".intercalate (commands.map CurveCommand.text))

end HexAtlas
