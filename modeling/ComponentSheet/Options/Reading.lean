import ComponentSheet.Options
import ComponentSheet.Options.Json

/-! Options from JSON: an object with the fields `dialect` and `onError`, or a list of their values
in this order. What is missing has its default. A text is read from left to right, and the first
fault counts. -/

namespace ComponentSheet.Options

open Json

inductive Fault where
  /-- The text is no JSON, or is not finished. -/
  | malformed
  | unknownField (name : Text)
  | duplicateField (name : Text)
  | unknownVariant (name : Text) (known : Text × Text)
  | unexpected (found : Found) (expected : Text)

def fieldNames : Text × Text :=
  ("dialect".toList, "onError".toList)

def quoted (s : Text) : Text :=
  "\x60".toList ++ s ++ "\x60".toList

def either (names : Text × Text) : Text :=
  quoted names.1 ++ " or ".toList ++ quoted names.2

/-- What is wrong with options in well-formed JSON. -/
def Fault.message? : Fault → Option Text
  | malformed => none
  | unknownField name =>
    some ("unknown field ".toList ++ quoted name ++ ", expected ".toList ++ either fieldNames)
  | duplicateField name => some ("duplicate field ".toList ++ quoted name)
  | unknownVariant name known =>
    some ("unknown variant ".toList ++ quoted name ++ ", expected ".toList ++ either known)
  | unexpected found expected =>
    some ("invalid type: ".toList ++ found.text ++ ", expected ".toList ++ expected)

/-- Two names for values of a field. -/
structure Variants (α : Type) where
  first : Text × α
  second : Text × α

def dialects : Variants Macro.Dialect :=
  ⟨("flat".toList, .flat), ("web-component".toList, .webComponent)⟩

def policies : Variants Policy :=
  ⟨("abort".toList, .abort), ("continue".toList, .leaveOut)⟩

section

variable {α : Type}

def Variants.value (v : Variants α) (name : Text) : Except Fault α :=
  if name = v.first.1 then .ok v.first.2
  else if name = v.second.1 then .ok v.second.2
  else .error (.unknownVariant name (v.first.1, v.second.1))

def orMalformed (r : Option α) : Except Fault α :=
  match r with
  | some a => .ok a
  | none => .error .malformed

/-- The fault of a text that starts with another kind of value than expected. -/
def unexpectedValue (s expected : Text) : Fault :=
  match found? s with
  | some f => .unexpected f expected
  | none => .malformed

/-- Reads one character behind blanks. -/
def sign (c : Char) (s : Text) : Except Fault Text :=
  match skipBlanks s with
  | d :: s => if d = c then .ok s else .error .malformed
  | [] => .error .malformed

/-- Reads a null. -/
def null (s : Text) : Except Fault Text :=
  match skipBlanks s with
  | 'n' :: 'u' :: 'l' :: 'l' :: s => .ok s
  | s => .error (unexpectedValue s "unit".toList)

/-- Reads a value of a field: its name, or an object that holds a null under its name. -/
def variant (v : Variants α) (s : Text) : Except Fault (α × Text) := do
  match skipBlanks s with
  | '"' :: s =>
    let (name, s) ← orMalformed (string s)
    return (← v.value name, s)
  | '\x7b' :: s =>
    match skipBlanks s with
    | '"' :: s =>
      let (name, s) ← orMalformed (string s)
      let a ← v.value name
      let s ← null (← sign ':' s)
      return (a, ← sign '\x7d' s)
    | _ => throw .malformed
  | _ => throw .malformed

end

/-- The values of the fields read so far. -/
structure Fields where
  dialect : Option Macro.Dialect := none
  onError : Option Policy := none

def Fields.options (f : Fields) : Options where
  dialect := f.dialect.getD .flat
  onError := f.onError.getD .abort

/-- Reads a field behind the opening quote of its name. -/
def field (f : Fields) (s : Text) : Except Fault (Fields × Text) := do
  let (name, s) ← orMalformed (string s)
  if name = fieldNames.1 then
    if f.dialect.isSome then throw (.duplicateField name)
    let (d, s) ← variant dialects (← sign ':' s)
    return ({ f with dialect := some d }, s)
  else if name = fieldNames.2 then
    if f.onError.isSome then throw (.duplicateField name)
    let (p, s) ← variant policies (← sign ':' s)
    return ({ f with onError := some p }, s)
  else throw (.unknownField name)

/-- Reads the fields behind the first one, up to the end of the object. There are no more than two
fields, so that a third one is a fault. -/
def moreFields : Nat → Fields → Text → Except Fault (Fields × Text)
  | n, f, s =>
    match skipBlanks s with
    | '\x7d' :: s => .ok (f, s)
    | ',' :: s =>
      match skipBlanks s, n with
      | '"' :: s, n + 1 => do
        let (f, s) ← field f s
        moreFields n f s
      | _, _ => .error .malformed
    | _ => .error .malformed

def object (s : Text) : Except Fault (Fields × Text) := do
  match skipBlanks s with
  | '\x7d' :: s => return ({}, s)
  | '"' :: s =>
    let (f, s) ← field {} s
    moreFields 2 f s
  | _ => throw .malformed

/-- Reads the end of a list whose elements have all been read. -/
def listEnd (f : Fields) (s : Text) : Except Fault (Fields × Text) := do
  return (f, ← sign ']' s)

def list (s : Text) : Except Fault (Fields × Text) := do
  match skipBlanks s with
  | ']' :: s => return ({}, s)
  | s =>
    let (d, s) ← variant dialects s
    let f : Fields := { dialect := some d }
    match skipBlanks s with
    | ',' :: s =>
      match skipBlanks s with
      | ']' :: _ => throw .malformed
      | s =>
        let (p, s) ← variant policies s
        listEnd { f with onError := some p } s
    | s => listEnd f s

/-- Reads options from JSON. -/
def ofJson (s : Text) : Except Fault Options := do
  let (f, rest) ← match skipBlanks s with
    | '\x7b' :: s => object s
    | '[' :: s => list s
    | s => throw (unexpectedValue s "struct ExpandOptions".toList)
  if skipBlanks rest = [] then return f.options else throw .malformed

def Format.json : Format := fun s =>
  match ofJson s with
  | .ok o => .ok o
  | .error fault => .error (fault.message?.getD "malformed".toList)

end ComponentSheet.Options
