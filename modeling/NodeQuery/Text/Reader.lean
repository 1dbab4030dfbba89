/-!
# Readers

A reader takes a value off the front of a text or refuses the text.  Alternatives are ordered: the
second is tried only where the first refuses, from the same place on.  Repetition takes as much as
it can and never gives anything back.
-/

namespace NodeQuery.Text

/-- Read a value off the front of a text and leave the rest, or refuse. -/
abbrev Reader (α : Type) := StateT (List Char) Option α

namespace Reader

variable {α : Type}

/-- Take a given text. -/
def token (expected : String) : Reader Unit := fun text =>
  if expected.toList.isPrefixOf text then some ((), text.drop expected.length) else none

/-- Take as many characters of a class as there are, be it none. -/
def run (class_ : Char → Bool) : Reader (List Char) := fun text =>
  some (text.takeWhile class_, text.dropWhile class_)

/-- Take as many characters of a class as there are, at least one. -/
def run1 (class_ : Char → Bool) : Reader (List Char) := do
  let taken ← run class_
  guard !taken.isEmpty
  pure taken

/-- Refuse unless nothing is left. -/
def finish : Reader Unit := fun text => if text.isEmpty then some ((), []) else none

/-- Refuse where another reader does not; take nothing. -/
def absent (other : Reader α) : Reader Unit := fun text =>
  match other text with
  | none => some ((), text)
  | some _ => none

/-- Read items while there are any, at most as many as `limit` has characters. -/
def manyAlong (item : Reader α) : (limit : List Char) → Reader (List α)
  | [] => pure []
  | _ :: limit =>
    (do
      let first ← item
      let others ← manyAlong item limit
      pure (first :: others)) <|> pure []

/-- Read items while there are any.  An item takes at least one character, so a text has no more
items than characters and serves as its own limit. -/
def many (item : Reader α) : Reader (List α) := fun text => manyAlong item text text

/-- Read an item if there is one. -/
def maybe (item : Reader α) : Reader (Option α) := (some <$> item) <|> pure none

def whole? (reader : Reader α) (text : String) : Option α :=
  ((do
    let value ← reader
    finish
    pure value : Reader α) text.toList).map (·.1)

end Reader

end NodeQuery.Text
