import BulkPaths.VertexId

/-!
Finite sets as increasing lists, so that equal sets are equal lists.
-/

namespace BulkPaths

/-- Adds an element to an increasing list, unless it is there. -/
def insertSorted {α : Type} (cmp : α → α → Ordering) (a : α) : List α → List α
  | [] => [a]
  | b :: rest =>
    match cmp a b with
    | .lt => a :: b :: rest
    | .eq => b :: rest
    | .gt => b :: insertSorted cmp a rest

abbrev IdSet := List VertexId

namespace IdSet

def insert (id : VertexId) (ids : IdSet) : IdSet := insertSorted VertexId.cmp id ids

def union (ids more : IdSet) : IdSet := more.foldl (fun set id => insert id set) ids

def ofList (ids : List VertexId) : IdSet := union [] ids

def subset (ids other : IdSet) : Bool := ids.all fun id => other.contains id

def diff (ids other : IdSet) : IdSet := ids.filter fun id => !other.contains id

end IdSet

end BulkPaths
