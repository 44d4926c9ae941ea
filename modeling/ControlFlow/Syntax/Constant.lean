import ControlFlow.Number.Layout
import ControlFlow.Text.Quoted
/-!
# Constants

The values that a literal can stand for, and their texts.
-/

namespace ControlFlow

/-- A value known before the program runs. -/
inductive Constant where
  | nil
  | bool (b : Bool)
  | integer (n : Int)
  | float (x : Binary64)
  | str (s : String)
  | symbol (s : String)
deriving DecidableEq, Repr, Inhabited

/-- The text of a constant. -/
def Constant.render : Constant → String
  | .nil => "nil"
  | .bool b => if b then "true" else "false"
  | .integer n => toString n
  | .float x => Number.display.write x
  | .str s => Text.quoted s
  | .symbol s => ":" ++ s

end ControlFlow
