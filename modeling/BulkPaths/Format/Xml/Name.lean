import BulkPaths.Assoc
import BulkPaths.Format.Xml.Letter
import BulkPaths.Text.Lines

/-!
Names in XML documents, as they are written and within their namespaces.
-/

namespace BulkPaths.Xml

def skipSpace (cs : List Char) : List Char := cs.dropWhile isSpace

/-- A name as it is written; without a prefix its front is empty. -/
structure QName where
  front : String
  part : String
  deriving DecidableEq, Repr

/-- A local name within a namespace; without one the namespace is empty. -/
structure Name where
  space : String
  part : String
  deriving DecidableEq, Repr

/-- A name without a colon. -/
def takeName? (cs : List Char) : Option (String × List Char) :=
  match cs with
  | [] => none
  | c :: rest =>
    if isNameStart c then
      let (tail, after) := rest.span isNamePart
      some (String.ofList (c :: tail), after)
    else none

def takeQName? (cs : List Char) : Option (QName × List Char) := do
  let (name, rest) ← takeName? cs
  match rest with
  | ':' :: rest =>
    let (part, rest) ← takeName? rest
    return ({ front := name, part }, rest)
  | _ => return ({ front := "", part := name }, rest)

/-- Namespaces are named by addresses, though nobody goes there. -/
def address (host path : String) : String := "http://" ++ host ++ "/" ++ path

/-- Namespaces by prefix; the default one has the empty prefix. -/
abbrev Scope := List (String × String)

namespace Scope

def xmlSpace : String := address "www.w3.org" "XML/1998/namespace"

def xmlnsSpace : String := address "www.w3.org" "2000/xmlns/"

def outer : Scope := [("xml", xmlSpace), ("", "")]

/-- Only the default namespace can be taken back, and `xml` and `xmlns` have their namespaces for
themselves. -/
def canDeclare (front space : String) : Bool :=
  (front.isEmpty || !space.isEmpty) && front != "xmlns" && space != xmlnsSpace &&
    !space.toList.contains '\x7d' && (front == "xml") == (space == xmlSpace)

def declared? (name : QName) : Option String :=
  if name.front = "xmlns" then some name.part
  else if name.front.isEmpty ∧ name.part = "xmlns" then some ""
  else none

/-- The namespaces that an element declares, on top of those around it. -/
def extend? (scope : Scope) (attributes : List (QName × String)) : Option Scope :=
  attributes.foldlM
    (fun scope (name, space) =>
      match declared? name with
      | none => some scope
      | some front => if canDeclare front space then some ((front, space) :: scope) else none)
    scope

def resolve? (scope : Scope) (name : QName) : Option Name := do
  return { space := ← Assoc.get? name.front scope, part := name.part }

/-- A plain attribute is in no namespace. -/
def attribute? (scope : Scope) (pair : QName × String) : Option (Name × String) := do
  let (name, value) := pair
  if name.front.isEmpty then return ({ space := "", part := name.part }, value)
  else return (← scope.resolve? name, value)

/-- No two attributes of an element have the same name. -/
def attributes? (scope : Scope) (attributes : List (QName × String)) :
    Option (List (Name × String)) := do
  let named ← (attributes.filter fun pair => (declared? pair.1).isNone).mapM scope.attribute?
  let names := named.map Prod.fst
  if names.eraseDups.length = names.length then some named else none

end Scope

end BulkPaths.Xml
