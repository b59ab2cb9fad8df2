-- Hints. For a name that was not found, the names that look close to it: first those that begin
-- with its first two characters, then those that contain it in any case, then, if there are none of
-- either, all of them. At most a given number of names is shown.
import Formwork.Text.Case

namespace Formwork.Hint

/-- Whether `part` stands somewhere in `whole`. -/
def contains (part whole : List Char) : Bool :=
  part.isPrefixOf whole ||
    match whole with
    | [] => false
    | _ :: rest => contains part rest

/-- The names that begin with the first two characters of `name`. -/
def sharingStart (name : String) (available : List String) : List String :=
  let start := name.toList.take 2
  available.filter fun candidate => !start.isEmpty && start.isPrefixOf candidate.toList

/-- Adds the names that contain `name` in any case, each once, while fewer than `limit` are
found. -/
def addContaining (name : String) (limit : Nat) (found : List String) :
    List String → List String
  | [] => found
  | candidate :: rest =>
    if limit ≤ found.length then found
    else if !name.isEmpty && contains (Text.lower name).toList (Text.lower candidate).toList
        && !found.contains candidate then
      addContaining name limit (found ++ [candidate]) rest
    else addContaining name limit found rest

/-- The names to show for a name that was not found. -/
def closest (name : String) (available : List String) (limit : Nat) : List String :=
  let found := addContaining name limit (sharingStart name available) available
  (if found.isEmpty then available else found).take limit

end Formwork.Hint
