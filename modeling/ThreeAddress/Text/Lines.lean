/-!
# Lines of a text

A line ends at a newline, and one carriage return just before that newline belongs to the line
end. A last line without a newline keeps its carriage return.
-/

namespace ThreeAddress.Text

def lines : List Char → List (List Char)
  | [] => []
  | '\n' :: cs => [] :: lines cs
  | '\r' :: '\n' :: cs => [] :: lines cs
  | c :: cs =>
    match lines cs with
    | [] => [[c]]
    | line :: rest => (c :: line) :: rest

end ThreeAddress.Text
