import BulkPaths.Assoc
import BulkPaths.Fault
import BulkPaths.Text.Lines

/-!
Paths of files, and what stands at them.
-/

namespace BulkPaths

namespace FileName

open Text

/-- The steps of a path; empty ones and single dots lead nowhere. -/
def steps (path : String) : List String :=
  ((cutAt '/' path.toList).map String.ofList).filter fun step => !step.isEmpty && step != "."

/-- Joins steps to a path that starts where the given one does. -/
def joined (path : String) (steps : List String) : String :=
  let body := "/".intercalate steps
  if path.toList.head? = some '/' then "/" ++ body
  else if body.isEmpty then "." else body

def normal (path : String) : String := joined path (steps path)

def parent (path : String) : String := joined path (steps path).dropLast

def last (path : String) : List Char := ((steps path).getLast?.getD "").toList

/-- From the last dot on, if something stands before and after it. -/
def suffix (path : String) : String :=
  let name := last path
  let tail := name.reverse.takeWhile (· != '.')
  let front := name.length - tail.length
  if tail.isEmpty ∨ front ≤ 1 then "" else String.ofList ('.' :: tail.reverse)

end FileName

inductive Spot
  | file (content : ByteArray)
  | directory
  | free

/-- The files that can be seen, by their paths in normal form. -/
structure Site where
  content? : String → Option ByteArray
  isDirectory : String → Bool

namespace Site

/-- One directory with files in it. -/
def ofFiles (files : List (String × ByteArray)) (directories : List String) : Site :=
  { content? := fun path => Assoc.get? path files
    isDirectory := fun path => directories.contains path }

def look (site : Site) (path : String) : Spot :=
  if site.isDirectory path then .directory
  else (site.content? path).elim .free .file

def nameLimit : Nat := 255

def pathLimit : Nat := 4095

/-- Follows the steps from a path that has been reached; all but the last one have to lead to
directories. -/
def follow (site : Site) (path reached : String) : List String → Except Fault Spot
  | [] => .ok (site.look reached)
  | step :: rest =>
    let next := FileName.normal (reached ++ "/" ++ step)
    if nameLimit < step.utf8ByteSize then .error (.nameTooLong path)
    else
      match site.look next, rest with
      | spot, [] => .ok spot
      | .directory, rest => follow site path next rest
      | .file _, _ => .error (.notDirectory path)
      | .free, _ => .error (.fileNotFound path)

def find (site : Site) (path : String) : Except Fault Spot :=
  let cs := path.toList
  let steps := ((Text.cutAt '/' cs).map String.ofList).filter fun step => !step.isEmpty
  if cs.contains (Char.ofNat 0) then .error .nullInPath
  else if pathLimit < path.utf8ByteSize then .error (.nameTooLong path)
  else if cs.isEmpty then .error (.fileNotFound path)
  else site.follow path (if cs.head? = some '/' then "/" else ".") steps

def checkTarget (site : Site) (path : String) : Except Fault Unit := do
  match ← site.find path with
  | .directory => .error (.isDirectory path)
  | _ => if path.toList.getLast? = some '/' then .error (.isDirectory path) else .ok ()

end Site

end BulkPaths
