-- The namespaces that names live in. Names of the context and of the current record are found only
-- when data is read; all others are found in a heap.

namespace Formwork

/-- Where a name is looked up. -/
inductive Namespace where
  | global
  | context
  | models
  | dataProviders
  | fields
  | this
  | utils
deriving DecidableEq, Repr, Inhabited

namespace Namespace

/-- All namespaces, in the order in which a heap lists them. -/
def all : List Namespace := [global, context, models, dataProviders, fields, this, utils]

/-- The written name. -/
def text : Namespace → String
  | global => "G"
  | context => "Context"
  | models => "Models"
  | dataProviders => "DataProviders"
  | fields => "Fields"
  | this => "This"
  | utils => "Utils"

/-- The namespace with a written name. -/
def ofText? (s : String) : Option Namespace := all.find? fun ns => ns.text == s

/-- Whether a missing name is an error of the heap. The other namespaces get theirs at runtime. -/
def isHeapBacked : Namespace → Bool
  | context => false
  | this => false
  | _ => true

/-- Whether an expression may be resolved without a variable at its end. -/
def isVariableOptional : Namespace → Bool
  | global | this | utils => true
  | _ => false

theorem mem_all (ns : Namespace) : ns ∈ all := by cases ns <;> simp [all]

theorem ofText?_text (ns : Namespace) : ofText? ns.text = some ns := by
  cases ns <;> decide

end Namespace

end Formwork
