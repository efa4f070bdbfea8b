/-!
Parts of a text by byte offsets in UTF-8. An offset inside a character marks no part.
-/

set_option autoImplicit false

namespace CilSketch

/-- The characters after the first `count` bytes, if a character ends there. -/
def dropBytes : Nat → List Char → Option (List Char)
  | 0, chars => some chars
  | _ + 1, [] => none
  | count + 1, char :: rest =>
      if char.utf8Size ≤ count + 1 then dropBytes (count + 1 - char.utf8Size) rest else none

/-- The characters of the first `count` bytes, if a character ends there. -/
def takeBytes : Nat → List Char → Option (List Char)
  | 0, _ => some []
  | _ + 1, [] => none
  | count + 1, char :: rest =>
      if char.utf8Size ≤ count + 1 then
        (takeBytes (count + 1 - char.utf8Size) rest).map (char :: ·)
      else
        none

/-- The text between two offsets, and none if they are out of order, out of range or inside a
character. -/
def slice? (text : String) (start stop : Nat) : Option String :=
  if start ≤ stop then
    ((dropBytes start text.toList).bind (takeBytes (stop - start))).map String.ofList
  else
    none

end CilSketch
