import ComponentSheet.Text.Basic

/-! The tokens of selector text. A token holds all the characters it was read from. -/

namespace ComponentSheet.Selector

inductive Combinator where
  | descendant
  | child
  | nextSibling
  | subsequentSibling
deriving DecidableEq, Repr

/-- The sign a combinator is written with; blanks alone stand for a descendant. -/
def Combinator.sign : Combinator → Text
  | .descendant => []
  | .child => ['>']
  | .nextSibling => ['+']
  | .subsequentSibling => ['~']

inductive Token where
  | typeName (name : Text)
  | universal
  | nesting
  | className (name : Text)
  | idName (name : Text)
  /-- What stands between square brackets. -/
  | attr (body : Text)
  | pseudoClass (name : Text) (args : Option Text)
  | pseudoElement (name : Text) (args : Option Text)
  /-- A name directly followed by arguments in parentheses. -/
  | function (name args : Text)
  /-- A name followed by a parenthesis that is never closed, with all the text behind it. -/
  | openFunction (name rest : Text)
  /-- A combinator and the blanks behind its sign. -/
  | combinator (kind : Combinator) (blanks : Text)
  | comma
  | raw (text : Text)
deriving DecidableEq, Repr

namespace Token

/-- A name and, in parentheses, its arguments. -/
def applied (name : Text) : Option Text → Text
  | none => name
  | some args => name ++ '(' :: args ++ [')']

/-- The text of a token. -/
def lexeme : Token → Text
  | typeName name => name
  | universal => ['*']
  | nesting => ['&']
  | className name => '.' :: name
  | idName name => '#' :: name
  | attr body => '[' :: body ++ [']']
  | pseudoClass name args => ':' :: applied name args
  | pseudoElement name args => ':' :: ':' :: applied name args
  | function name args => applied name (some args)
  | openFunction name rest => name ++ '(' :: rest
  | combinator kind blanks => kind.sign ++ blanks
  | comma => [',']
  | raw text => text

/-- A simple selector, as opposed to what parts two of them. -/
def isSimple : Token → Bool
  | combinator .. | comma => false
  | _ => true

/-- The text in front of the arguments and the arguments, where a token has both and is closed. -/
def arguments? : Token → Option (Text × Text)
  | pseudoClass name (some args) => some (':' :: name ++ ['('], args)
  | pseudoElement name (some args) => some (':' :: ':' :: name ++ ['('], args)
  | function name args => some (name ++ ['('], args)
  | _ => none

section

variable {name args rest body text blanks : Text} {more : Option Text} {kind : Combinator}

@[simp] theorem lexeme_typeName : (typeName name).lexeme = name := rfl

@[simp] theorem lexeme_universal : universal.lexeme = ['*'] := rfl

@[simp] theorem lexeme_nesting : nesting.lexeme = ['&'] := rfl

@[simp] theorem lexeme_className : (className name).lexeme = '.' :: name := rfl

@[simp] theorem lexeme_idName : (idName name).lexeme = '#' :: name := rfl

@[simp] theorem lexeme_attr : (attr body).lexeme = '[' :: body ++ [']'] := rfl

@[simp] theorem lexeme_pseudoClass :
    (pseudoClass name more).lexeme = ':' :: applied name more := rfl

@[simp] theorem lexeme_pseudoElement :
    (pseudoElement name more).lexeme = ':' :: ':' :: applied name more := rfl

@[simp] theorem lexeme_function : (function name args).lexeme = applied name (some args) := rfl

@[simp] theorem lexeme_openFunction : (openFunction name rest).lexeme = name ++ '(' :: rest := rfl

@[simp] theorem lexeme_combinator : (combinator kind blanks).lexeme = kind.sign ++ blanks := rfl

@[simp] theorem lexeme_comma : comma.lexeme = [','] := rfl

@[simp] theorem lexeme_raw : (raw text).lexeme = text := rfl

end

theorem lexeme_of_arguments? {t : Token} {p : Text × Text} (h : t.arguments? = some p) :
    t.lexeme = p.1 ++ p.2 ++ [')'] := by
  revert h
  fun_cases arguments? t <;> rintro ⟨⟩ <;> simp [applied]

end Token

end ComponentSheet.Selector
