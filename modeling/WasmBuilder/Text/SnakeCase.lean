import WasmBuilder.Text.Alphanumeric
import WasmBuilder.Text.LetterCase

/-!
Names in snake case: lower-case words with an underscore between them.

A text falls into pieces at every character that is neither letter nor digit, and a piece into
words where its letter case says so: `addTwo` has two words, and so has `XMLHttp`.
-/

set_option autoImplicit false

namespace WasmBuilder.Text.SnakeCase

inductive Case where
  | unknown
  | lower
  | upper
  deriving DecidableEq, Repr

def Case.after (known : Case) (c : Char) : Case :=
  if isLowercase c then .lower else if isUppercase c then .upper else known

/-- The words of a piece, of which `word` has been read in reverse. A word ends after a lower-case
part that an upper-case letter follows, and before the last of several upper-case letters that a
lower-case one follows. -/
def scan (known : Case) (word : List Char) : List Char → List (List Char)
  | [] => []
  | [c] => [(c :: word).reverse]
  | c :: next :: rest =>
    if known.after c = .lower && isUppercase next then
      (c :: word).reverse :: scan .unknown [] (next :: rest)
    else if known = .upper && isUppercase c && isLowercase next then
      word.reverse :: scan .unknown [c] (next :: rest)
    else scan (known.after c) (c :: word) (next :: rest)

/-- The stretches of letters and digits of a text, of which `piece` has been read in reverse. -/
def pieces (piece : List Char) : List Char → List (List Char)
  | [] => [piece.reverse]
  | c :: rest =>
    if isAlphanumeric c then pieces (c :: piece) rest else piece.reverse :: pieces [] rest

def words (text : List Char) : List (List Char) := (pieces [] text).flatMap (scan .unknown [])

def lowerWord : List Char → List Char
  | [] => []
  | ['Σ'] => ['ς']
  | c :: rest => lowercase c ++ lowerWord rest

end SnakeCase

def snakeCase (text : String) : String :=
  "_".intercalate ((SnakeCase.words text.toList).map fun w => .ofList (SnakeCase.lowerWord w))

end WasmBuilder.Text
