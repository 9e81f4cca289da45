import ComponentSheet.Text.Basic

/-! The names that generated selectors are built from. -/

namespace ComponentSheet

/-- The word that every generated class and element name starts with. -/
def brand : Text := "spectrum".toList

/-- The class of a component itself. -/
def blockName (component : Text) : Text :=
  brand ++ '-' :: component

/-- The class of a part of a component. -/
def elementName (component name : Text) : Text :=
  blockName component ++ '-' :: name

end ComponentSheet
