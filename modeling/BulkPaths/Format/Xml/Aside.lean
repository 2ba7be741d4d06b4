import BulkPaths.Format.Xml.Name

/-!
What stands aside of a document's content: comments and processing instructions. They have to be
well-formed, and nothing is kept of them.
-/

namespace BulkPaths.Xml

open Text

/-- A comment, its opening gone already; two hyphens may only end it. -/
def afterComment? (cs : List Char) : Option (List Char) := do
  let (body, rest) ← cutBefore? "--" cs
  if body.all isAllowed then after? ">" rest else none

/-- A processing instruction, its opening gone already. -/
def afterInstruction? (cs : List Char) : Option (List Char) := do
  let (name, rest) ← takeName? cs
  let (body, after) ← cutBefore? "?>" rest
  if lower name = "xml" ∨ !body.all isAllowed then none
  else if body.isEmpty ∨ body.head?.any isSpace then some after
  else none

end BulkPaths.Xml
