import HexAtlas.Text.Split

namespace HexAtlas

/-- A map inside a document: the lines between an opening fence, three backticks and the word `text-mapper`, and the
next closing fence. A block that nothing closes runs to the end of the document. -/
structure MapBlock where
  /-- The number of the block's first line in the document, counted from one. -/
  line : Nat
  content : List (List Char)
deriving DecidableEq, Repr

namespace MapBlock

/-- The source of the map: every line of the block with a line feed after it. -/
def source (b : MapBlock) : List Char := b.content.flatMap fun line => line ++ ['\n']

end MapBlock

def fence : List Char := ['\x60', '\x60', '\x60']

def isOpeningFence (line : List Char) : Bool :=
  (afterStart? fence (trimStart line)).any fun rest => trim rest = "text-mapper".toList

def isClosingFence (line : List Char) : Bool := trim line = fence

/-- The blocks among lines, the first of which has the number `n`. -/
def blocksFrom (n : Nat) (document : List (List Char)) : List MapBlock :=
  match document with
  | [] => []
  | line :: rest =>
    if isOpeningFence line then
      let content := rest.takeWhile fun line => !isClosingFence line
      ⟨n + 1, content⟩ :: blocksFrom (n + content.length + 2) (rest.drop (content.length + 1))
    else blocksFrom (n + 1) rest
termination_by document.length
decreasing_by
  · simp only [List.length_drop, List.length_cons]
    omega
  · simp

def mapBlocks (document : List Char) : List MapBlock := blocksFrom 1 (lines document)

end HexAtlas
