import ComponentSheet.Options.Json.Number
import ComponentSheet.Text.Visible

/-! JSON text: blanks, strings, and what kind of value a text starts with. -/

namespace ComponentSheet.Json

open Text

def skipBlanks (s : Text) : Text :=
  s.dropWhile fun c => c = ' ' ∨ c = '\n' ∨ c = '\t' ∨ c = '\r'

def hexDigit? (c : Char) : Option Nat :=
  if c.isDigit then some (c.toNat - '0'.toNat)
  else if 'a' ≤ c ∧ c ≤ 'f' then some (c.toNat - 'a'.toNat + 10)
  else if 'A' ≤ c ∧ c ≤ 'F' then some (c.toNat - 'A'.toNat + 10)
  else none

def hexCode? (digits : Text) : Option Nat :=
  digits.foldlM (fun n c => (hexDigit? c).map (16 * n + ·)) 0

/-- The character of an escape without a code. -/
def shortEscape? : Char → Option Char
  | '"' => some '"'
  | '\\' => some '\\'
  | '/' => some '/'
  | 'b' => some '\x08'
  | 'f' => some '\x0c'
  | 'n' => some '\n'
  | 'r' => some '\r'
  | 't' => some '\t'
  | _ => none

/-- Whether a code is the first half of a surrogate pair. -/
def isHigh (n : Nat) : Bool :=
  0xD800 ≤ n && n < 0xDC00

/-- Whether a code is the second half of a surrogate pair. -/
def isLow (n : Nat) : Bool :=
  0xDC00 ≤ n && n < 0xE000

/-- The characters of a string, for text behind its opening quote, and the text behind it. -/
def string : Text → Option (Text × Text)
  | [] => none
  | '"' :: s => some ([], s)
  | '\\' :: 'u' :: a :: b :: c :: d :: '\\' :: 'u' :: e :: f :: g :: h :: s =>
    match hexCode? [a, b, c, d] with
    | none => none
    | some n =>
      if isHigh n then
        match hexCode? [e, f, g, h] with
        | none => none
        | some m =>
          if isLow m then
            took (Char.ofNat (0x10000 + 0x400 * (n - 0xD800) + (m - 0xDC00))) (string s)
          else none
      else if isLow n then none
      else took (Char.ofNat n) (string ('\\' :: 'u' :: e :: f :: g :: h :: s))
  | '\\' :: 'u' :: a :: b :: c :: d :: s =>
    match hexCode? [a, b, c, d] with
    | none => none
    | some n => if isHigh n || isLow n then none else took (Char.ofNat n) (string s)
  | '\\' :: c :: s =>
    match shortEscape? c with
    | some e => took e (string s)
    | none => none
  | c :: s => if c.toNat < 0x20 then none else took c (string s)

/-- The kinds of values, told apart as far as messages do. -/
inductive Found where
  | null
  | boolean (b : Bool)
  | integer (i : Int)
  | floating (f : Float)
  | string (s : Text)
  | sequence
  | map

/-- The escaped form of a character in a quoted message. -/
def quotedChar (c : Char) : Text :=
  if c = '"' then ['\\', '"']
  else if c = '\\' then ['\\', '\\']
  else if c = '\n' then ['\\', 'n']
  else if c = '\r' then ['\\', 'r']
  else if c = '\t' then ['\\', 't']
  else if c.toNat = 0 then ['\\', '0']
  else if isVisible c then [c]
  else "\\u\x7b".toList ++ Nat.toDigits 16 c.toNat ++ "\x7d".toList

def Found.text : Found → Text
  | null => "null".toList
  | boolean b => "boolean \x60".toList ++ (toString b).toList ++ "\x60".toList
  | integer i => "integer \x60".toList ++ (toString i).toList ++ "\x60".toList
  | floating f => "floating point \x60".toList ++ Decimal.text f ++ "\x60".toList
  | string s => "string \"".toList ++ s.flatMap quotedChar ++ "\"".toList
  | sequence => "sequence".toList
  | map => "map".toList

/-- The kind of the value that a text starts with. Lists and objects are not looked into. -/
def found? (s : Text) : Option Found :=
  match s with
  | '[' :: _ => some .sequence
  | '\x7b' :: _ => some .map
  | '"' :: s => (string s).map fun p => .string p.1
  | s =>
    if "null".toList.isPrefixOf s then some .null
    else if "true".toList.isPrefixOf s then some (.boolean true)
    else if "false".toList.isPrefixOf s then some (.boolean false)
    else do
      let n ← number? s
      match n.integer? with
      | some i => return .integer i
      | none => return .floating (← n.float?)

end ComponentSheet.Json
