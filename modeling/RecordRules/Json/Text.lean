/-
# JSON texts

Values to texts and back, by way of lexemes. Writing lists the lexemes of a
value and joins their texts without spaces. Reading runs a machine over the
lexemes: its `Reader` state holds the arrays and objects that are still open, and
what may come next. Of members with one name the last one counts. What numbers
are read as, and how deep a value may be, is up to the `Decoder`.

Key definitions: `lexemes`, `write`, `ofLexemes?`, `Decoder`, `Decoder.read?`.
-/
import RecordRules.Json.Lexeme

namespace RecordRules.Json

/-! ### Writing -/

mutual

/-- The lexemes of a value, with those in `rest` behind them. -/
def lexemesBefore (rest : List Lexeme) : Json → List Lexeme
  | .null => .null :: rest
  | .bool b => .bool b :: rest
  | .number n => .number n :: rest
  | .string s => .string s :: rest
  | .array items => .openArray :: itemsBefore (.closeArray :: rest) items
  | .object members => .openObject :: membersBefore (.closeObject :: rest) members

/-- The lexemes of items, with commas between them. -/
def itemsBefore (rest : List Lexeme) : List Json → List Lexeme
  | [] => rest
  | [item] => lexemesBefore rest item
  | item :: more => lexemesBefore (.comma :: itemsBefore rest more) item

/-- The lexemes of members, with commas between them. -/
def membersBefore (rest : List Lexeme) : List (String × Json) → List Lexeme
  | [] => rest
  | [(name, value)] => .string name :: .colon :: lexemesBefore rest value
  | (name, value) :: more =>
    .string name :: .colon :: lexemesBefore (.comma :: membersBefore rest more) value

end

/-- The lexemes of a value. -/
def lexemes (j : Json) : List Lexeme := lexemesBefore [] j

/-- The compact text of a value. -/
def write (j : Json) : String := String.ofList ((lexemes j).flatMap Lexeme.text)

/-! ### Reading -/

/-- An array or object with an entry still to come: the items so far, the last one first, or the
members so far and the name of the one to come. -/
inductive Open where
  | array (read : List Json)
  | object (members : List (String × Json)) (name : String)

/-- Where the machine stands: what is open around it, innermost first, and what may come. -/
inductive Reader where
  /-- A value must come, or the end of the array that has just been opened. -/
  | expectValue (around : List Open) (fresh : Bool)
  /-- The name of a member must come, or the end of the object that has just been opened. -/
  | expectName (around : List Open) (members : List (String × Json)) (fresh : Bool)
  /-- The colon behind a name must come. -/
  | expectColon (around : List Open) (members : List (String × Json)) (name : String)
  /-- A value is complete: the innermost array or object goes on or ends. -/
  | complete (around : List Open) (value : Json)

/-- A lexeme that is a value by itself. -/
def Lexeme.scalar? : Lexeme → Option Json
  | .null => some .null
  | .bool b => some (.bool b)
  | .number n => some (.number n)
  | .string s => some (.string s)
  | _ => none

/-- One more array or object may be opened inside those. -/
def mayOpen (limit : Option Nat) (around : List Open) : Bool :=
  match limit with
  | none => true
  | some limit => around.length < limit

/-- One lexeme; `none` where no value can go on with it. -/
def Reader.step? (limit : Option Nat) : Reader → Lexeme → Option Reader
  | .expectValue around _, .openArray =>
    if mayOpen limit around then some (.expectValue (.array [] :: around) true) else none
  | .expectValue around _, .openObject =>
    if mayOpen limit around then some (.expectName around [] true) else none
  | .expectValue (.array [] :: around) true, .closeArray => some (.complete around (.array []))
  | .expectValue around _, lexeme => lexeme.scalar?.map (.complete around)
  | .expectName around members _, .string name => some (.expectColon around members name)
  | .expectName around [] true, .closeObject => some (.complete around (.object []))
  | .expectName .., _ => none
  | .expectColon around members name, .colon =>
    some (.expectValue (.object members name :: around) false)
  | .expectColon .., _ => none
  | .complete (.array read :: around) value, .comma =>
    some (.expectValue (.array (value :: read) :: around) false)
  | .complete (.array read :: around) value, .closeArray =>
    some (.complete around (.array (value :: read).reverse))
  | .complete (.object members name :: around) value, .comma =>
    some (.expectName around (Keyed.insert name value members) false)
  | .complete (.object members name :: around) value, .closeObject =>
    some (.complete around (.object (Keyed.insert name value members)))
  | .complete .., _ => none

/-- The state after all the lexemes. -/
def Reader.run? (limit : Option Nat) (reader : Reader) (lexemes : List Lexeme) : Option Reader :=
  lexemes.foldlM (Reader.step? limit) reader

/-- The value that the lexemes form, with at most `limit` arrays and objects around any. -/
def ofLexemes? (limit : Option Nat) (lexemes : List Lexeme) : Option Json :=
  match Reader.run? limit (.expectValue [] false) lexemes with
  | some (.complete [] value) => some value
  | _ => none

/-! ### Decoders -/

/-- How texts are read: the numbers in them, and the most arrays and objects that may be open inside one
another, if there is a limit. -/
structure Decoder where
  numbers : NumberReader
  limit : Option Nat

/-- The value of a text. -/
def Decoder.read? (decoder : Decoder) (text : String) : Option Json :=
  (Lexeme.scan decoder.numbers text.toList).bind (ofLexemes? decoder.limit)

/-- The value of a text, however deep, with the nearest numbers. -/
def read? (text : String) : Option Json := Decoder.read? ⟨.nearest, none⟩ text

end RecordRules.Json
