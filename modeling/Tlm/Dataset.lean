import Mathlib.Logic.Basic

set_option autoImplicit false

namespace Tlm

inductive Json where
  | num (value : Int)
  | str (value : String)
  | arr (items : List Json)

mutual

def jsonDfsWithoutBracket : Json → List String
  | .num value => [toString value]
  | .str value => [value]
  | .arr items => jsonDfsItems items

def jsonDfsItems : List Json → List String
  | [] => []
  | item :: rest => jsonDfsWithoutBracket item ++ jsonDfsItems rest

end

theorem jsonDfsItems_flatMap (items : List Json) :
    jsonDfsItems items = items.flatMap jsonDfsWithoutBracket := by
  induction items with
  | nil => rfl
  | cons item rest ih => simp [jsonDfsItems, ih]

theorem jsonDfsItems_num {α : Type} (value : α → Int) (items : List α) :
    jsonDfsItems (items.map fun item => .num (value item)) = items.map fun item => toString (value item) := by
  induction items with
  | nil => rfl
  | cons item rest ih => simp [jsonDfsItems, jsonDfsWithoutBracket, ih]

end Tlm
