import ComponentSheet.Naming
import ComponentSheet.Selector.Segment

/-! Selectors in the naming scheme of a component: classes, ids and the host element become classes
that carry the component's name. -/

namespace ComponentSheet.Selector

/-- Whether a class already carries the component's name. -/
def isBranded (component name : Text) : Bool :=
  name == blockName component || (elementName component []).isPrefixOf name

/-- The text a token is written as in the scheme of a component. Of the classes only the first
simple selector of a compound is renamed; the argument of a host selector moves behind the class,
without its parentheses. -/
def brandedToken (component : Text) (opensCompound : Bool) : Token → Text
  | .className name =>
    if opensCompound && !isBranded component name then '.' :: elementName component name
    else '.' :: name
  | .idName name => '.' :: elementName component name
  | .pseudoClass name args =>
    if name = "host".toList then '.' :: blockName component ++ (args.getD []).trim
    else (Token.pseudoClass name args).lexeme
  | t => t.lexeme

def brandedSegments (component : Text) (inCompound : Bool) : List Segment → Text
  | [] => []
  | .blanks w :: l => w ++ brandedSegments component inCompound l
  | .token t :: l =>
    brandedToken component (!inCompound) t ++ brandedSegments component t.isSimple l

/-- The selector in the naming scheme of a component. -/
def branded (component s : Text) : Text :=
  brandedSegments component false (segments s)

end ComponentSheet.Selector
