/-!
# Generated names

Lowering derives names from declared ones. A name of the form `<…>` that contains a space (a
compiler-made name such as `<anonymous parameter 0>`) is unusable on some targets, so its
spaces and angle brackets become `$`. An accessor that gains parameters keeps a link name
derived from its property: `getX` and `setX`, except that a property named `isX` (`is`
followed by anything but a lowercase ASCII letter) keeps its name for the getter and drops
the `is` for the setter.
-/

namespace ComposeLowering

namespace Names

/-- Replaces spaces and angle brackets by `$` in a name that starts with `<` and contains a
space. -/
def dexSafe (name : String) : String :=
  let cs := name.toList
  if cs.head? = some '<' ∧ ' ' ∈ cs then
    String.ofList (cs.map fun c => if c = ' ' ∨ c = '<' ∨ c = '>' then '$' else c)
  else name

/-- The name with its first character in ASCII upper case. -/
def capitalize (s : String) : String :=
  match s.toList with
  | c :: r => String.ofList (c.toUpper :: r)
  | [] => ""

/-- Whether a property name starts with `is` followed by a character that is not a lowercase
ASCII letter. -/
def hasIsPrefix (name : String) : Bool :=
  match name.toList with
  | 'i' :: 's' :: c :: _ => !(c.isLower)
  | _ => false

/-- The link name of a property's getter. -/
def getterLinkName (property : String) : String :=
  if hasIsPrefix property then property else "get" ++ capitalize property

/-- The link name of a property's setter. -/
def setterLinkName (property : String) : String :=
  let stem := if hasIsPrefix property then String.ofList (property.toList.drop 2) else property
  "set" ++ capitalize stem

end Names

end ComposeLowering
