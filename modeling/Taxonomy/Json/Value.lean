import Taxonomy.Json.Token

/-!
# JSON values with their first break in place

A text is read into a value even if it is not JSON. Where reading cannot go on,
the value holds the break: a missing value, or an array or object that is cut
off. A decoder that visits the parts of a value in the order of the text
therefore meets every problem of the text and every problem of the content in
the order of their positions, and can report the first one.

Containers nest at most 127 deep; a container that would lie deeper is cut off
at its opening bracket.
-/
namespace Taxonomy.Json

/-- What stands where something else is wanted. -/
inductive Found where
  | null
  | boolean (value : Bool)
  | number (value : Number)
  | text (content : String)
  | array
  | object
deriving DecidableEq, Repr

/-- How an array or an object ends. -/
inductive Ending where
  /-- With its closing bracket. -/
  | closed
  /-- With a break, behind a comma or not. -/
  | cut (afterComma : Bool) (why : Break)

/-- A value of a text. -/
inductive Value where
  | null
  | boolean (value : Bool)
  | number (value : Number)
  | text (content : String)
  | array (items : List Value) (ending : Ending)
  | object (entries : List (String × Value)) (ending : Ending)
  /-- A word or a number was begun that is none. -/
  | garbled (why : Break)
  /-- No value can be read for any other reason. -/
  | broken (why : Break)

/-- The break of an ending, if it has one. -/
def Ending.check : Ending → Except Break Unit
  | .closed => .ok ()
  | .cut _ why => .error why

/-- The break of an ending in a place where nothing more is wanted: a comma is
out of place there, whatever follows it. -/
def Ending.checkLast : Ending → Except Break Unit
  | .closed => .ok ()
  | .cut true _ => .error .malformed
  | .cut false why => .error why

/-- How a value looks from outside. -/
def Value.found : Value → Except Break Found
  | .null => .ok .null
  | .boolean value => .ok (.boolean value)
  | .number value => .ok (.number value)
  | .text content => .ok (.text content)
  | .array _ _ => .ok .array
  | .object _ _ => .ok .object
  | .garbled why => .error why
  | .broken why => .error why

mutual

/-- The first break inside a value. -/
def Value.whole : Value → Except Break Unit
  | .array items ending => do
    wholeItems items
    ending.check
  | .object entries ending => do
    wholeEntries entries
    ending.check
  | .garbled why => .error why
  | .broken why => .error why
  | _ => .ok ()

/-- The first break inside the items of an array. -/
def wholeItems : List Value → Except Break Unit
  | [] => .ok ()
  | item :: items => do
    item.whole
    wholeItems items

/-- The first break inside the entries of an object. -/
def wholeEntries : List (String × Value) → Except Break Unit
  | [] => .ok ()
  | (_, value) :: entries => do
    value.whole
    wholeEntries entries

end

/-- The break at a place where none of the given tokens is wanted. -/
def unwanted : List Token → Break
  | [] => .ended
  | _ :: _ => .malformed

/-- A reader takes a value off the head of a sequence of tokens. -/
abbrev Reader := List Token → Value × List Token

/-- The items of an array from a place on where an item has to stand. Each item
but the last takes one comma, so as many rounds as there are tokens suffice. -/
def readItems (item : Reader) : Nat → List Token → List Value × Ending × List Token
  | 0, tokens => ([], .cut false .malformed, tokens)
  | rounds + 1, tokens =>
    let (value, tokens) := item tokens
    match tokens with
    | .closeArray :: rest => ([value], .closed, rest)
    | .comma :: [] => ([value], .cut true .ended, [])
    | .comma :: .closeArray :: rest => ([value], .cut true .malformed, rest)
    | .comma :: rest =>
      let (values, ending, rest) := readItems item rounds rest
      (value :: values, ending, rest)
    | rest => ([value], .cut false (unwanted rest), rest)

/-- An array behind its opening bracket. -/
def readArray (item : Reader) : List Token → List Value × Ending × List Token
  | [] => ([], .cut false .ended, [])
  | .closeArray :: rest => ([], .closed, rest)
  | tokens => readItems item tokens.length tokens

/-- The value of an entry behind its key. -/
def readEntryValue (value : Reader) : List Token → Value × List Token
  | .colon :: rest => value rest
  | tokens => (.broken (unwanted tokens), tokens)

/-- The entries of an object from behind a key on. Each entry takes at least its
key, so as many rounds as there are tokens suffice. -/
def readEntries (value : Reader) :
    Nat → String → List Token → List (String × Value) × Ending × List Token
  | 0, _, tokens => ([], .cut false .malformed, tokens)
  | rounds + 1, key, tokens =>
    let (content, tokens) := readEntryValue value tokens
    match tokens with
    | .closeObject :: rest => ([(key, content)], .closed, rest)
    | .comma :: .text next :: rest =>
      let (entries, ending, rest) := readEntries value rounds next rest
      ((key, content) :: entries, ending, rest)
    | .comma :: .brokenText why :: rest => ([(key, content)], .cut true why, rest)
    | .comma :: rest => ([(key, content)], .cut true (unwanted rest), rest)
    | rest => ([(key, content)], .cut false (unwanted rest), rest)

/-- An object behind its opening bracket. Whatever begins in place of the first key
and is no string is out of place, even if it does not end. -/
def readObject (value : Reader) : List Token → List (String × Value) × Ending × List Token
  | [] => ([], .cut false .ended, [])
  | .closeObject :: rest => ([], .closed, rest)
  | .text key :: rest => readEntries value (rest.length + 1) key rest
  | .brokenText why :: rest => ([], .cut false why, rest)
  | _ :: rest => ([], .cut false .malformed, rest)

/-- The value at the head of the tokens, whose parts are read by `inner`. Without
`inner` there is no room for a container. -/
def readValue (inner : Option Reader) : List Token → Value × List Token
  | [] => (.broken .ended, [])
  | .null :: rest => (.null, rest)
  | .boolean value :: rest => (.boolean value, rest)
  | .number value :: rest => (.number value, rest)
  | .text content :: rest => (.text content, rest)
  | .openArray :: rest =>
    match inner with
    | none => (.array [] (.cut false .malformed), rest)
    | some item =>
      let (items, ending, rest) := readArray item rest
      (.array items ending, rest)
  | .openObject :: rest =>
    match inner with
    | none => (.object [] (.cut false .malformed), rest)
    | some value =>
      let (entries, ending, rest) := readObject value rest
      (.object entries ending, rest)
  | .brokenText why :: rest => (.broken why, rest)
  | .broken why :: rest => (.garbled why, rest)
  | token :: rest => (.broken .malformed, token :: rest)

/-- The value at the head of the tokens, in which containers nest at most as deep
as the given number. -/
def Value.read : Nat → Reader
  | 0 => readValue none
  | room + 1 => readValue (some (Value.read room))

/-- How deep the containers of a text may nest. -/
def maxDepth : Nat := 127

/-- The value of a text, and the tokens behind it. -/
def Value.ofText (text : String) : Value × List Token :=
  Value.read maxDepth (tokens text.toList)

end Taxonomy.Json
