import Easel.Command.Diagnostics
import Easel.Command.Sources
import Easel.Sketch.Rasterise
import Easel.Sketch.Run

/-!
# Rendering files

The command that runs sketch files and writes their images: the image of a sketch under its name
in the output directory and, if asked for, the image of every frame in a directory of that name.
A sketch is checked, run and drawn before anything is written for it.
-/

namespace Easel.Command

/-- What to render, and where to. -/
structure RenderOptions where
  paths : List String
  output : String := "dist"
  /-- Pixels to a unit. -/
  scale : Nat := 1
  /-- The frames are written too. -/
  frames : Bool := false
  /-- Sketches that fail their checks are not run. -/
  checked : Bool := true
  deriving DecidableEq, Repr

variable {m : Type → Type} [Monad m] [Host m]

/-- Turns the fault of a file operation into an error. -/
def onFile (path : String) (action : FileAction) (result : m (Except FileFault Unit)) :
    Task m Unit := do
  match ← (result : m _) with
  | .ok () => return
  | .error fault => throw (.io path action fault)

/-- Why an image cannot be a picture file, if it cannot. -/
def pictureFault? (image : Image) : Option FileFault :=
  if image.width = 0 then some .zeroWidth
  else if image.height = 0 then some .zeroHeight
  else none

/-- Writes a picture file. A picture that cannot be written may leave an empty file. -/
def writePicture (path : String) (image : Image) : m (Except FileFault Unit) := do
  if !FilePath.hasExtension path then return .error .unknownFormat
  match ← Host.create path with
  | .error fault => return .error fault
  | .ok () => match pictureFault? image with
    | some fault => return .error fault
    | none => Host.writePicture path image

/-- Writes a picture file and makes the directories around it. -/
def savePicture (path : String) (image : Image) : Task m Unit := do
  if let some parent := FilePath.parent? path then
    if !parent.isEmpty then onFile parent .createDirectory (Host.makeDirectories parent)
  onFile path .writePicture (writePicture path image)

namespace RenderOptions

/-- The file of a sketch's image. -/
def imagePath (o : RenderOptions) (s : Sketch) : String :=
  FilePath.join o.output (s.name ++ ".png")

/-- The name of a frame's file: its number has three digits or more. -/
def frameName (index : Nat) : String :=
  let digits := Nat.toDigits 10 index
  "frame-" ++ String.ofList (List.replicate (3 - digits.length) '0' ++ digits) ++ ".png"

/-- The file of a frame's image. -/
def framePath (o : RenderOptions) (s : Sketch) (index : Nat) : String :=
  FilePath.join (FilePath.join o.output s.name) (frameName index)

/-- Checks a sketch, and shows what there is to show. -/
def checkSketch (o : RenderOptions) (path : String) (s : Sketch) : Task m Unit := do
  if o.checked then
    let ds := s.check
    if !ds.isEmpty then (Host.complain (path ++ ":\n" ++ Diagnostic.summary ds) : m _)
    if 0 < Diagnostic.errors ds then throw (.build (.checksFailed s.name))

/-- Writes the image of a frame. -/
def saveFrame (o : RenderOptions) (s : Sketch) (frame : Frame) : Task m Unit := do
  let image ← (s.canvas.rasterise o.scale frame.shown : Except Error Image)
  savePicture (o.framePath s frame.index) image

/-- Renders a file. -/
def renderFile (o : RenderOptions) (path : String) : Task m Unit := do
  let s ← Sources.load path
  o.checkSketch path s
  let run ← (s.run (if o.frames then .keep else .skip) : Except Error Run)
  let image ← (s.canvas.rasterise o.scale run.shown : Except Error Image)
  savePicture (o.imagePath s) image
  (Host.print ("  " ++ s.name ++ " -> " ++ o.imagePath s ++ s!" ({run.frames} frame(s))\n") : m _)
  run.snapshots.toList.forM fun frame => o.saveFrame s frame

/-- Renders all files, up to the first that fails. -/
def run (o : RenderOptions) : Task m Unit := do
  let files ← (Sources.expandAll o.paths : m _)
  if files.isEmpty then throw (.build .noSketches)
  files.forM o.renderFile
  (Host.print (s!"Rendered {files.length} sketch(es) to " ++ o.output ++ "\n") : m _)

end RenderOptions

end Easel.Command
