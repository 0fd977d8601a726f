import HexAtlas.Grid.Point

namespace HexAtlas

/-- The visible window of a drawing. -/
structure Viewport where
  width : Double
  height : Double
deriving DecidableEq

namespace Viewport

def standard : Viewport := ⟨800, 600⟩

instance : Inhabited Viewport := ⟨standard⟩

/-- Both sides are positive; infinite ones too. -/
def isValid (v : Viewport) : Bool := 0 < v.width && 0 < v.height

/-- The corner and the sides of the window around a point, each to one place. -/
def viewBox (v : Viewport) (centre : Point) : String :=
  String.ofList <| [' '].intercalate <| [centre.x - v.width / 2, centre.y - v.height / 2, v.width, v.height].map
    (Binary.fixed 1)

end Viewport

end HexAtlas
