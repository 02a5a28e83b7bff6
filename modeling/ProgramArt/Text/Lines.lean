/-!
# Line breaks

Files end their lines in three ways. A text that has been read from a file has only one of them.
-/

namespace ProgramArt.Text

/-- A text in which every line ends with a line feed. -/
def unifyBreaks : List Char → List Char
  | [] => []
  | '\r' :: '\n' :: rest => '\n' :: unifyBreaks rest
  | '\r' :: rest => '\n' :: unifyBreaks rest
  | c :: rest => c :: unifyBreaks rest

/-- A text without the line feed at its end. -/
def dropFeed (text : List Char) : List Char :=
  if text.getLast? == some '\n' then text.dropLast else text

end ProgramArt.Text
