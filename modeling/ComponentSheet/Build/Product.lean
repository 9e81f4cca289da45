import ComponentSheet.Build.Command
import ComponentSheet.Compilation
import ComponentSheet.Import.Merged

/-! What a build makes of its input, before anything is written. -/

namespace ComponentSheet.Build

open Import Component

inductive Failure where
  | unreadableConfig (path : Path)
  | invalidConfig (path : Path) (reason : Text)
  | load (e : LoadError)
  /-- The input is no stylesheet; `location` says where in which file. -/
  | read (location : Text) (e : ReadError)
  | aborted (input : Path) (fatal : Diagnostic)
  | unwritable (path : Path)

def Failure.message : Failure → Text
  | unreadableConfig path => "failed to load options: could not read ".toList ++ path
  | invalidConfig path reason =>
    "failed to load options: invalid JSON in ".toList ++ path ++ ": ".toList ++ reason
  | load e => e.message
  | read location e => "failed to parse ".toList ++ location ++ ": ".toList ++ e.message
  | aborted input fatal =>
    "expansion of ".toList ++ input ++ " aborted: ".toList ++ fatal.text
  | unwritable path => "failed to write ".toList ++ path

/-- The text of an options file as options. -/
def readConfig (format : Options.Format) (path : Path) (text : Option Text) :
    Except Failure Options :=
  match text with
  | none => .error (.unreadableConfig path)
  | some s =>
    match format s with
    | .ok o => .ok o
    | .error reason => .error (.invalidConfig path reason)

/-- A position of the merged text in the file it comes from. -/
def location (m : Merged) (input : Path) (p : Position) : Text :=
  match m.locate? p with
  | some (file, q) => file ++ ':' :: q.text
  | none => input ++ ':' :: p.text

structure Product where
  /-- The diagnostics with their places in the files. -/
  diagnostics : List Text := []
  css : Except Failure Text
  /-- Whether a diagnostic is an error. -/
  hasErrors : Bool := false

/-- Expands the merged stylesheet of an input. -/
def expandMerged (input : Path) (o : Options) (m : Merged) : Product :=
  match compile o m.text with
  | .error e => { css := .error (.read (location m input e.pos) e) }
  | .ok r =>
    let log := r.diagnostics
    { diagnostics := log.map fun d => d.textAt (location m input d.pos)
      css :=
        match r with
        | .done css _ => .ok css
        | .aborted _ _ fatal => .error (.aborted input fatal)
      hasErrors := log.any (·.severity = .error) }

/-- The product of a build whose options file gives `config`. -/
def product (files : Files) (config : Except Failure Options) (c : Command) : Product :=
  match config with
  | .error f => { css := .error f }
  | .ok config =>
    match merge files c.input with
    | .error e => { css := .error (.load e) }
    | .ok m => expandMerged c.input (c.options config) m

end ComponentSheet.Build
