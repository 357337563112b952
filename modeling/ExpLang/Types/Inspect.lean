import ExpLang.Text.Quoted
import ExpLang.Types.Pool

/-!
# Types for inspection

The text of a type as the pool holds it: indices are not followed, and a primitive type shows its
name in place of its index.
-/

namespace ExpLang

/-- The text of the index of a type. -/
def typeIdText (id : TypeId) : String :=
  s!"TypeId({((Primitive.ofId? id).map Primitive.name).getD (toString id)})"

/-- The text of indices of types. -/
def typeIdsText (ids : List TypeId) : String := "[" ++ ", ".intercalate (ids.map typeIdText) ++ "]"

/-- The text of what a type is. -/
def TypeData.text : TypeData → String
  | primitive p => s!"Primitive({p.name})"
  | ofClass id => s!"Class(ClassId({id}))"
  | array element => s!"Array({typeIdText element})"
  | function ret params =>
    "Function \x7b ret: " ++ typeIdText ret ++ ", params: " ++ typeIdsText params ++ " \x7d"
  | generic name => "Generic \x7b name: " ++ Text.quote name ++ " \x7d"
  | specific base args =>
    "Specific \x7b base: " ++ typeIdText base ++ ", args: " ++ typeIdsText args ++ " \x7d"
  | hole slot => s!"Holder(HolderId({slot}))"

end ExpLang
