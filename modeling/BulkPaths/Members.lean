import BulkPaths.Fault

/-!
What a value holds under keys: a record holds its fields, and a list may hold pairs.
-/

namespace BulkPaths.Value

/-- Lists and records cannot be keys. -/
def isKey : Value → Bool
  | .list _ | .record _ => false
  | _ => true

/-- Two values in one: a list of two, a text of two characters, the two names of a record. -/
def couple : Value → Except Fault (Value × Value)
  | .list [a, b] => .ok (a, b)
  | .list _ => .error .pairLength
  | .text s =>
    match s.toList with
    | [a, b] => .ok (.text (String.singleton a), .text (String.singleton b))
    | _ => .error .pairLength
  | .record [(a, _), (b, _)] => .ok (.text a, .text b)
  | .record _ => .error .pairLength
  | _ => .error .notAMapping

/-- A key, whatever its type, and its value. -/
def entry (value : Value) : Except Fault (Value × Value) := do
  let (key, value) ← couple value
  if isKey key then .ok (key, value) else .error .notHashable

/-- The keys and values that a value holds; single characters are no pairs. -/
def members : Value → Except Fault (List (Value × Value))
  | .record fields => .ok (fields.map fun (name, value) => (.text name, value))
  | .list items => items.mapM entry
  | .text s => if s.isEmpty then .ok [] else .error .pairLength
  | _ => .error .notAMapping

end BulkPaths.Value
