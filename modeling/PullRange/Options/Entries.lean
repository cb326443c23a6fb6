/-!
# Named entries and their order

Settings arrive as pairs of a name and a value. A name that is given again keeps its first place and
takes the last value. Names that are plain indices (`0`, `7`, `4294967294`, written without leading
zeros) come before all others, in ascending order; the others stand by first appearance.
-/

namespace PullRange.Entries

/-- The largest index is one less. -/
def indexBound : Nat := 4294967295

/-- The index that a name denotes, if it is the canonical decimal form of one. -/
def index? (name : String) : Option Nat :=
  name.toNat?.filter fun index => index < indexBound && toString index == name

def put (entries : List (String × String)) (name value : String) : List (String × String) :=
  match entries with
  | [] => [(name, value)]
  | entry :: rest =>
      if entry.1 = name then (name, value) :: rest else entry :: put rest name value

def insertIndexed (index : Nat) (entry : String × String) :
    List (Nat × String × String) → List (Nat × String × String)
  | [] => [(index, entry)]
  | other :: rest =>
      if index < other.1 then (index, entry) :: other :: rest
      else other :: insertIndexed index entry rest

def indexed (entries : List (String × String)) : List (String × String) :=
  (entries.foldr
    (fun entry sorted =>
      match index? entry.1 with
      | some index => insertIndexed index entry sorted
      | none => sorted) []).map Prod.snd

def named (entries : List (String × String)) : List (String × String) :=
  entries.filter fun entry => (index? entry.1).isNone

def ofPairs (pairs : List (String × String)) : List (String × String) :=
  let entries := pairs.foldl (fun entries pair => put entries pair.1 pair.2) []
  indexed entries ++ named entries

end PullRange.Entries
