import HexAtlas.Project.FileSystem
import HexAtlas.Scene.Viewport

namespace HexAtlas

/-- What a command can fail with. -/
inductive FailureKind where
  | io
  | parse
  | build
deriving DecidableEq, Repr

inductive Failure where
  | manifestUnread (file : Location) (cause : FileError)
  | manifestMalformed
  /-- The manifest gives a viewport with a side that is not positive. -/
  | manifestViewport (v : Viewport)
  | sourceUnread (file : Location) (cause : FileError)
  /-- The viewport of a command has a side that is not positive. -/
  | viewport (v : Viewport)
  | noSources
  | noMaps (file : Location)
  | directoryUnmade (directory : Location) (cause : FileError)
  | drawingUnwritten (file : Location) (cause : FileError)
  | manifestThere
  | manifestUnwritten (file : Location) (cause : FileError)
deriving DecidableEq

namespace Failure

def kind : Failure → FailureKind
  | manifestUnread .. | sourceUnread .. | directoryUnmade .. | drawingUnwritten .. | manifestUnwritten .. => .io
  | manifestMalformed | manifestViewport _ => .parse
  | viewport _ | noSources | noMaps _ | manifestThere => .build

def viewportText (v : Viewport) : String :=
  String.ofList (v.width.shortest .plain ++ 'x' :: v.height.shortest .plain)

def fileText (file : Location) (task : String) (cause : FileError) : String :=
  "IO error with " ++ file.toString ++ ": Failed to " ++ task ++ ": " ++ cause.message

def message : Failure → String
  | manifestUnread file cause => fileText file "read manifest" cause
  | manifestMalformed => "Parse error: Invalid manifest:"
  | manifestViewport v => "Parse error: Invalid viewport " ++ viewportText v
  | sourceUnread file cause => fileText file "read file" cause
  | viewport v => "Build error: Invalid viewport " ++ viewportText v
  | noSources => "Build error: No map files found"
  | noMaps file => "Build error: No maps in " ++ file.toString
  | directoryUnmade directory cause => fileText directory "create output directory" cause
  | drawingUnwritten file cause => fileText file "write SVG" cause
  | manifestThere => "Build error: hexmap.yaml already exists"
  | manifestUnwritten file cause => fileText file "write manifest" cause

def help? : Failure → Option String
  | manifestMalformed => some "Check hexmap.yaml syntax"
  | manifestViewport _ => some "width and height must be positive"
  | viewport _ => some "--width and --height must be positive"
  | noSources => some "Pass .map or .md files, or directories containing them"
  | noMaps _ => some "Markdown files need a \x60\x60\x60text-mapper block"
  | manifestThere => some "Use --force to overwrite"
  | _ => none

end Failure

end HexAtlas
