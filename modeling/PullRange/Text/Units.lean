/-!
# Length in sixteen-bit units

A character outside the basic plane takes two units, every other character one.
-/

namespace PullRange.Text

def unitsOf (character : Char) : Nat :=
  if character.toNat < 0x10000 then 1 else 2

def units (text : String) : Nat :=
  text.toList.foldl (fun total character => total + unitsOf character) 0

end PullRange.Text
