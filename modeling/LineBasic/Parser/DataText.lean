import LineBasic.Statement
import LineBasic.Text.Blank

/-!
# Items between commas

DATA text and replies to INPUT are cut at the commas outside quotes.
-/

namespace LineBasic

/-- The pieces between commas outside quotes; `piece` holds the piece being read, last character
first. -/
def commaPiecesFrom (quoted : Bool) (piece : List Char) : List Char → List (List Char)
  | [] => [piece.reverse]
  | c :: cs =>
    if c = ',' && !quoted then piece.reverse :: commaPiecesFrom false [] cs
    else commaPiecesFrom (if c = '"' then !quoted else quoted) (c :: piece) cs

/-- `split_reply`: the pieces of a text between the commas outside quotes. -/
def commaPieces (s : String) : List String :=
  (commaPiecesFrom false [] s.toList).map String.ofList

/-- `_data_item`: what stands between the quotes if the item begins with one, else the piece without
the blanks around it. -/
def DataItem.ofPiece (s : String) : DataItem :=
  match Text.trim s.toList with
  | '"' :: cs => ⟨String.ofList (cs.takeWhile (· != '"')), true⟩
  | cs => ⟨String.ofList cs, false⟩

/-- `split_data`: the items of a DATA statement. -/
def dataItems (s : String) : List DataItem :=
  (commaPieces s).map DataItem.ofPiece

end LineBasic
