import VisualNovel.Expression.Value

/-
  The parameters of a story: values by name, in the order of the names. Names are ordered as
  texts are, character by character, which is also the order of their UTF-8 bytes.
-/

namespace VisualNovel.Expression

/-- Named values, ascending by name. -/
structure Params where
  entries : List (String × Value)
  deriving DecidableEq

namespace Params

/-- No parameters. -/
def empty : Params := ⟨[]⟩

instance : EmptyCollection Params := ⟨empty⟩

/-- The value of a parameter. -/
def get? (p : Params) (name : String) : Option Value := p.entries.lookup name

/-- Whether a parameter is defined. -/
def contains (p : Params) (name : String) : Bool := (p.get? name).isSome

/-- The number of parameters. -/
def size (p : Params) : Nat := p.entries.length

/-- The names, in order. -/
def names (p : Params) : List String := p.entries.map Prod.fst

/-- Puts an entry at its place, over an older one of the same name. -/
def insertEntry (name : String) (value : Value) :
    List (String × Value) → List (String × Value)
  | [] => [(name, value)]
  | (n, v) :: rest =>
    if name = n then (name, value) :: rest
    else if name < n then (name, value) :: (n, v) :: rest
    else (n, v) :: insertEntry name value rest

/-- Sets a parameter. -/
def set (p : Params) (name : String) (value : Value) : Params :=
  ⟨insertEntry name value p.entries⟩

/-- Removes a parameter. -/
def erase (p : Params) (name : String) : Params :=
  ⟨p.entries.filter fun e => e.1 != name⟩

/-- The parameters of a list, a later entry over an earlier one of the same name. -/
def ofList (entries : List (String × Value)) : Params :=
  entries.foldl (fun p e => p.set e.1 e.2) empty

end Params

end VisualNovel.Expression
