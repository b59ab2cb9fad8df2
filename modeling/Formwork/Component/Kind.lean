-- The kinds of components. Only fields and data variables have values that expressions may use.

namespace Formwork

/-- What kind of component something is. -/
inductive ComponentKind where
  | ruleSet
  | extension
  | field
  | group
  | dataVar
  | validation
  | model
  | cardinality
  | unique
deriving DecidableEq, Repr

namespace ComponentKind

/-- The written name. -/
def text : ComponentKind → String
  | ruleSet => "RuleSet"
  | extension => "Extension"
  | field => "Field"
  | group => "Section"
  | dataVar => "DataVar"
  | validation => "Validation"
  | model => "BoundModel"
  | cardinality => "Cardinality"
  | unique => "Unique"

/-- What is joined to the owner's name when a component has none of its own. -/
def suffix (kind : ComponentKind) : String := kind.text.toLower

/-- Whether expressions may use the component. -/
def isReferenceable : ComponentKind → Bool
  | field => true
  | dataVar => true
  | _ => false

end ComponentKind

end Formwork
