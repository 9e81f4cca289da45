import ComponentSheet.Build.Product
import ComponentSheet.Import.Directory
import ComponentSheet.Options.Reading

/-! A whole run in a directory: what is printed, what is written, and the exit code. -/

namespace ComponentSheet.Build

open Import

structure Report where
  code : Nat
  stdout : Text := []
  stderr : Text := []

def textOfLines (l : List Text) : Text :=
  l.flatMap (· ++ ['\n'])

def failureLine (f : Failure) : Text :=
  "error: ".toList ++ f.message

namespace Product

/-- The report on a product that could not be made or delivered. -/
def failed (p : Product) (f : Failure) : Report where
  code := 1
  stderr := textOfLines (p.diagnostics ++ [failureLine f])

/-- The report on a product that was delivered, with what is printed of it. -/
def delivered (p : Product) (printed : Text) : Report where
  code := if p.hasErrors then 1 else 0
  stdout := printed
  stderr := textOfLines p.diagnostics

end Product

def usage : Text :=
  "Usage: build [-o FILE] [-c FILE] [-d flat|web-component] [--continue-on-error] INPUT\n".toList

/-- The options of the file that the command names. Without a file they have their defaults. -/
def Command.fileOptions (c : Command) (format : Options.Format) (d : Directory) :
    Except Failure Options :=
  match c.config with
  | none => .ok {}
  | some path => readConfig format path (d.readText path)

/-- Runs a build, with the options of its file in a given format. -/
def run (format : Options.Format) (d : Directory) (c : Command) : Report × Directory :=
  let p := product d.files (c.fileOptions format d) c
  match p.css with
  | .error f => (p.failed f, d)
  | .ok css =>
    match c.output with
    | none => (p.delivered css, d)
    | some path =>
      match d.writeText path css with
      | some d => (p.delivered [], d)
      | none => (p.failed (.unwritable path), d)

/-- Runs a command line, with options in JSON. -/
def runArguments (d : Directory) (args : List Text) : Report × Directory :=
  match Invocation.ofArguments args with
  | .build c => run .json d c
  | .help => ({ code := 0, stdout := usage }, d)
  | .rejected => ({ code := 2, stderr := usage }, d)

end ComponentSheet.Build
