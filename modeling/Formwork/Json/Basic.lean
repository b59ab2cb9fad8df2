-- Documents. The members of an object keep the order in which their names first came; a name that
-- comes again gives its member a new value at the old place.
import Formwork.Ordered

namespace Formwork

/-- A document. Whole numbers stand apart from all others. -/
inductive Json where
  | null
  | bool (b : Bool)
  | integer (n : Int)
  | number (x : Float)
  | text (s : String)
  | array (items : List Json)
  | object (members : List (String × Json))
deriving Inhabited

namespace Json

/-- The member of an object under a name. -/
def get? : Json → String → Option Json
  | .object members, key => Ordered.find? members key
  | _, _ => none

/-- The members of an object. -/
def members? : Json → Option (Ordered Json)
  | .object members => some members
  | _ => none

/-- The items of an array. -/
def items? : Json → Option (List Json)
  | .array items => some items
  | _ => none

/-- The text of a text. -/
def text? : Json → Option String
  | .text s => some s
  | _ => none

/-- The truth value of a truth value. -/
def bool? : Json → Option Bool
  | .bool b => some b
  | _ => none

/-- The number of a whole number that fits 64 bits with a sign. -/
def int64? : Json → Option Int64
  | .integer n => if n < (Nat.pow 2 63 : Nat) then some (Int64.ofInt n) else none
  | _ => none

theorem sizeOf_of_find? {members : List (String × Json)} {key : String} {value : Json}
    (h : Ordered.find? members key = some value) : sizeOf value < sizeOf members := by
  induction members with
  | nil => simp [Ordered.find?] at h
  | cons entry rest ih =>
    obtain ⟨k, v⟩ := entry
    rw [Ordered.find?_cons] at h
    simp only [List.cons.sizeOf_spec, Prod.mk.sizeOf_spec]
    split at h
    · simp only [Option.some.injEq] at h
      subst h
      omega
    · have := ih h
      omega

/-- A member is smaller than its object. -/
theorem sizeOf_of_get? {document : Json} {key : String} {value : Json}
    (h : document.get? key = some value) : sizeOf value < sizeOf document := by
  cases document with
  | object members =>
    have := sizeOf_of_find? h
    simp only [object.sizeOf_spec]
    omega
  | _ => simp [get?] at h

end Json

end Formwork
