/-!
Cutting text: at a separator, at a word, and into lines.
-/

namespace BulkPaths.Text

/-- The pieces between separators; there is always one more piece than separators. -/
def cutAt (sep : Char) : List Char → List (List Char)
  | [] => [[]]
  | c :: rest =>
    if c = sep then [] :: cutAt sep rest
    else
      match cutAt sep rest with
      | [] => [[c]]
      | piece :: pieces => (c :: piece) :: pieces

/-- The rest after a word that comes next. -/
def after? (word : String) (cs : List Char) : Option (List Char) :=
  if word.toList.isPrefixOf cs then some (cs.drop word.length) else none

/-- Cuts before the first occurrence of a word, and drops it; `front` is what stands before the
text, in reverse. -/
def cutFrom? (word : String) (front : List Char) : List Char → Option (List Char × List Char)
  | [] => none
  | c :: cs =>
    match after? word (c :: cs) with
    | some rest => some (front.reverse, rest)
    | none => cutFrom? word (c :: front) cs

def cutBefore? (word : String) (cs : List Char) : Option (List Char × List Char) :=
  cutFrom? word [] cs

/-- Puts one sequence in place of another, after `skip` items that are left out. -/
def replaceFrom {α : Type} [BEq α] (old new : List α) : Nat → List α → List α
  | _, [] => []
  | skip + 1, _ :: rest => replaceFrom old new skip rest
  | 0, x :: rest =>
    if old.isPrefixOf (x :: rest) then new ++ replaceFrom old new (old.length - 1) rest
    else x :: replaceFrom old new 0 rest

/-- Puts one sequence in place of another, from the front on and without overlap. -/
def replaceAll {α : Type} [BEq α] (old new xs : List α) : List α := replaceFrom old new 0 xs

/-- Lines end at LF, CR LF or CR; a last line needs no end. -/
def lines : List Char → List (List Char)
  | [] => []
  | '\r' :: '\n' :: rest => [] :: lines rest
  | c :: rest =>
    if c = '\n' ∨ c = '\r' then [] :: lines rest
    else
      match lines rest with
      | [] => [[c]]
      | line :: more => (c :: line) :: more

/-- The lower case of an ASCII letter, any other character as it is. -/
def lower (s : String) : String := String.ofList (s.toList.map Char.toLower)

end BulkPaths.Text
