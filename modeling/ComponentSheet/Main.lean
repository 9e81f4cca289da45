import ComponentSheet.Build.Report
import ComponentSheet.Import.Found
import ComponentSheet.Options.Reading

/-! The program: a build over the files of the disk. -/

namespace ComponentSheet.Build

open Import

/-- The text of a file, if it can be read. -/
def readDisk (path : Path) : IO (Option Text) := do
  let .ok s ← (IO.FS.readFile (String.ofList path)).toBaseIO | return none
  return some s.toList

def find (path : Path) : IO (Option Found) := do
  let .ok canonical ← (IO.FS.realPath (String.ofList path)).toBaseIO | return none
  let canonical := canonical.toString.toList
  return some ⟨path, canonical, ← readDisk canonical⟩

/-- Looks up what imports lead to until no path is left that has not been looked up. -/
partial def findAll (entry : Path) (l : List Found) (absent : List Path) : IO Files := do
  match merge (.ofFound l) entry with
  | .error (.unresolved path) =>
    if path ∈ absent then return .ofFound l
    else
      match ← find path with
      | some f => findAll entry (l ++ [f]) absent
      | none => findAll entry l (path :: absent)
  | _ => return .ofFound l

/-- Writes what was made to where it belongs. -/
def deliver (p : Product) (output : Option Path) : IO Report :=
  match p.css, output with
  | .error f, _ => return p.failed f
  | .ok css, none => return p.delivered css
  | .ok css, some path => do
    match ← (IO.FS.writeFile (String.ofList path) (String.ofList css)).toBaseIO with
    | .ok () => return p.delivered []
    | .error _ => return p.failed (.unwritable path)

def build (c : Command) : IO Report := do
  let config ← match c.config with
    | none => pure (.ok {})
    | some path => readConfig .json path <$> readDisk path
  deliver (product (← findAll c.input [] []) config c) c.output

end ComponentSheet.Build

open ComponentSheet Build

def main (args : List String) : IO UInt32 := do
  let report ← match Invocation.ofArguments (args.map (·.toList)) with
    | .build c => build c
    | .help => pure { code := 0, stdout := usage }
    | .rejected => pure { code := 2, stderr := usage }
  IO.print (String.ofList report.stdout)
  IO.eprint (String.ofList report.stderr)
  return report.code.toUInt32
