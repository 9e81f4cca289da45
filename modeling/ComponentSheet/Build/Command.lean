import ComponentSheet.Import.Path
import ComponentSheet.Options

/-! The command line: `build INPUT` with options. -/

namespace ComponentSheet.Build

open Import

structure Command where
  input : Path
  output : Option Path
  config : Option Path
  dialect : Option Macro.Dialect
  leaveOutErrors : Bool
deriving DecidableEq, Repr

/-- The options of a build: those of the command line come before those of the file. -/
def Command.options (c : Command) (config : Options) : Options where
  dialect := c.dialect.getD config.dialect
  onError := if c.leaveOutErrors then .leaveOut else config.onError

inductive Invocation where
  | build (c : Command)
  | help
  | rejected
deriving DecidableEq

/-- An argument by its shape. -/
inductive Argument where
  /-- Two dashes: what follows are plain arguments. -/
  | terminator
  | long (name : Text) (value : Option Text)
  | short (flag : Char) (attached : Text)
  | plain (text : Text)

def Argument.ofText : Text → Argument
  | ['-', '-'] => .terminator
  | '-' :: '-' :: s =>
    match Text.cutAt? '=' s with
    | some (name, value) => .long name (some value)
    | none => .long s none
  | '-' :: c :: s => .short c s
  | s => .plain s

def Argument.isPlain : Argument → Bool
  | plain _ => true
  | _ => false

/-- The options that take a value. -/
inductive Setting where
  | output
  | config
  | dialect

def Setting.ofLong? (name : Text) : Option Setting :=
  if name = "output".toList then some .output
  else if name = "config".toList then some .config
  else if name = "dialect".toList then some .dialect
  else none

def Setting.ofShort? : Char → Option Setting
  | 'o' => some .output
  | 'c' => some .config
  | 'd' => some .dialect
  | _ => none

/-- What has been given so far. -/
structure Given where
  input : Option Path := none
  output : Option Path := none
  config : Option Path := none
  dialect : Option Macro.Dialect := none
  leaveOutErrors : Bool := false

namespace Given

/-- A value where there was none. A path is not empty. -/
def path? (old : Option Path) (value : Text) : Option Path :=
  if old.isNone ∧ value ≠ [] then some value else none

def dialect? (old : Option Macro.Dialect) (value : Text) : Option Macro.Dialect :=
  if old.isSome then none
  else if value = "flat".toList then some .flat
  else if value = "web-component".toList then some .webComponent
  else none

/-- Nothing is set twice. -/
def set (g : Given) (value : Text) : Setting → Option Given
  | .output => (path? g.output value).map fun p => { g with output := some p }
  | .config => (path? g.config value).map fun p => { g with config := some p }
  | .dialect => (dialect? g.dialect value).map fun d => { g with dialect := some d }

def setInput (g : Given) (value : Text) : Option Given :=
  (path? g.input value).map fun p => { g with input := some p }

def setLeaveOut (g : Given) : Option Given :=
  if g.leaveOutErrors then none else some { g with leaveOutErrors := true }

def invocation (g : Given) : Invocation :=
  match g.input with
  | some input => .build ⟨input, g.output, g.config, g.dialect, g.leaveOutErrors⟩
  | none => .rejected

end Given

/-- What an argument asks for, once it is known whether a value of its own follows. -/
inductive Request where
  | given (g : Option Given)
  | valueFor (s : Setting)
  | plainOnly
  | help

def request (g : Given) : Argument → Request
  | .terminator => .plainOnly
  | .plain t => .given (g.setInput t)
  | .long name value =>
    match Setting.ofLong? name, value with
    | some s, some v => .given (g.set v s)
    | some s, none => .valueFor s
    | none, none =>
      if name = "continue-on-error".toList then .given g.setLeaveOut
      else if name = "help".toList then .help
      else .given none
    | none, some _ => .given none
  | .short 'h' _ => .help
  | .short flag attached =>
    match Setting.ofShort? flag, attached with
    | some s, [] => .valueFor s
    | some s, '=' :: v => .given (g.set v s)
    | some s, v => .given (g.set v s)
    | none, _ => .given none

/-- Reads the arguments of a build from left to right. -/
def readArguments (g : Given) : List Text → Invocation
  | [] => g.invocation
  | a :: rest =>
    match request g (.ofText a) with
    | .help => .help
    | .plainOnly =>
      match rest.foldlM Given.setInput g with
      | some g => g.invocation
      | none => .rejected
    | .given (some g) => readArguments g rest
    | .given none => .rejected
    | .valueFor s =>
      match rest with
      | v :: rest =>
        if (Argument.ofText v).isPlain then
          match g.set v s with
          | some g => readArguments g rest
          | none => .rejected
        else .rejected
      | [] => .rejected

def Invocation.ofArguments : List Text → Invocation
  | [] => .rejected
  | a :: rest =>
    match Argument.ofText a with
    | .plain name =>
      if name = "build".toList then readArguments {} rest
      else if name = "help".toList ∧ (rest = [] ∨ rest = ["build".toList] ∨ rest = ["help".toList])
      then .help
      else .rejected
    | .long name none => if name = "help".toList then .help else .rejected
    | .short 'h' _ => .help
    | _ => .rejected

end ComponentSheet.Build
