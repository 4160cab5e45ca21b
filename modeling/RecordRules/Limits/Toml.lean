/-
# Limits in TOML notation

A document states limits one to a line, `key = integer`, with blank lines and
comments between. Keys are bare or quoted; integers are decimal with a sign if
wanted, or hexadecimal, octal or binary, have single underscores between digits
if wanted, and fit in 64 bits with sign. Limits are whole documents of this kind:
tables, other keys, keys given twice and values of other types are refused, so
nothing more of the notation has to be known.

Key definitions: `Limits.ofToml`.
-/
import RecordRules.Limits

namespace RecordRules.Limits

/-- A space or tab. -/
def isTomlSpace (c : Char) : Bool := c = ' ' || c = '\t'

/-- A character of comments and quoted keys: no control character but the tab. -/
def isTomlText (c : Char) : Bool := c = '\t' || (' ' ≤ c && c ≠ '\x7f')

/-- A character of keys without quotes. -/
def isBareKeyChar (c : Char) : Bool := c.isAlphanum || c = '_' || c = '-'

/-! ### Lines -/

/-- The lines of a document; each but the last ends with a line feed, or with a carriage return
and a line feed. -/
def tomlLines : List Char → List (List Char)
  | [] => [[]]
  | '\n' :: cs => [] :: tomlLines cs
  | '\r' :: '\n' :: cs => [] :: tomlLines cs
  | c :: cs =>
    match tomlLines cs with
    | [] => [[c]]
    | line :: rest => (c :: line) :: rest

/-- Blanks and a comment, up to the end of the line. -/
def isTomlRest (cs : List Char) : Bool :=
  match cs.dropWhile isTomlSpace with
  | [] => true
  | '#' :: comment => comment.all isTomlText
  | _ => false

/-! ### Keys -/

/-- The character of a numeric escape with that many digits, and the text behind it. -/
def tomlCodePoint? (count : Nat) (cs : List Char) : Option Char := do
  let values ← (cs.take count).mapM Text.hexDigit?
  let code := values.foldl (fun n d => n * 16 + d) 0
  if values.length = count ∧ code.isValidChar then some (Char.ofNat code) else none

/-- The character of a one-letter escape. -/
def tomlEscape? : Char → Option Char
  | 'b' => some '\x08'
  | 't' => some '\t'
  | 'n' => some '\n'
  | 'f' => some '\x0c'
  | 'r' => some '\r'
  | '"' => some '"'
  | '\\' => some '\\'
  | _ => none

/-- The key up to the closing double quote, and the text behind it. -/
def tomlBasic? (cs : List Char) : Option (List Char × List Char) :=
  match cs with
  | [] => none
  | '"' :: rest => some ([], rest)
  | '\\' :: 'u' :: rest => do
    let c ← tomlCodePoint? 4 rest
    let (key, behind) ← tomlBasic? (rest.drop 4)
    return (c :: key, behind)
  | '\\' :: 'U' :: rest => do
    let c ← tomlCodePoint? 8 rest
    let (key, behind) ← tomlBasic? (rest.drop 8)
    return (c :: key, behind)
  | '\\' :: letter :: rest => do
    let c ← tomlEscape? letter
    let (key, behind) ← tomlBasic? rest
    return (c :: key, behind)
  | c :: rest => do
    if c = '\\' || !isTomlText c then none
    let (key, behind) ← tomlBasic? rest
    return (c :: key, behind)
termination_by cs.length
decreasing_by all_goals (simp only [List.length_drop, List.length_cons]; omega)

/-- The key up to the closing single quote, and the text behind it. -/
def tomlLiteral? (cs : List Char) : Option (List Char × List Char) :=
  let key := cs.takeWhile fun c => isTomlText c && c ≠ '\''
  match cs.drop key.length with
  | '\'' :: behind => some (key, behind)
  | _ => none

/-- The key at the start of a line, and the text behind it. -/
def tomlKey? (cs : List Char) : Option (List Char × List Char) :=
  match cs with
  | '"' :: rest => tomlBasic? rest
  | '\'' :: rest => tomlLiteral? rest
  | _ =>
    let key := cs.takeWhile isBareKeyChar
    if key.isEmpty then none else some (key, cs.drop key.length)

/-! ### Integers -/

/-- The digits without the single underscores between them. -/
def ungrouped? : List Char → Option (List Char)
  | [] => none
  | [c] => if c = '_' then none else some [c]
  | c :: '_' :: rest => if c = '_' then none else (ungrouped? rest).map (c :: ·)
  | c :: rest => if c = '_' then none else (ungrouped? rest).map (c :: ·)

/-- The value of digits in that base. -/
def inBase? (base : Nat) (digits : List Char) : Option Nat := do
  let values ← (← ungrouped? digits).mapM Text.hexDigit?
  if values.all fun d => d < base then some (values.foldl (fun n d => n * base + d) 0) else none

/-- The value of decimal digits, which start with zero only if there is one. -/
def tomlDecimal? (digits : List Char) : Option Nat := do
  let plain ← ungrouped? digits
  if plain.length = 1 ∨ plain.head? ≠ some '0' then Text.natural? plain else none

/-- An integer. -/
def tomlInteger? : List Char → Option Int
  | '0' :: 'x' :: digits => (inBase? 16 digits).map fun n => n
  | '0' :: 'o' :: digits => (inBase? 8 digits).map fun n => n
  | '0' :: 'b' :: digits => (inBase? 2 digits).map fun n => n
  | '-' :: digits => (tomlDecimal? digits).map fun n => -(n : Int)
  | '+' :: digits => (tomlDecimal? digits).map fun n => n
  | digits => (tomlDecimal? digits).map fun n => n

/-- A limit: an integer from zero up to the last that fits in 64 bits with sign. -/
def tomlLimit? (cs : List Char) : Option Nat := do
  let n ← tomlInteger? cs
  if 0 ≤ n ∧ n < 2 ^ (63 : Nat) then some n.toNat else none

/-! ### Documents -/

/-- What a line states, if anything: a key and a limit. Malformed lines give none. -/
def tomlEntry? (line : List Char) : Option (Option (String × Nat)) :=
  if isTomlRest line then some none
  else do
    let (key, behindKey) ← tomlKey? (line.dropWhile isTomlSpace)
    match behindKey.dropWhile isTomlSpace with
    | '=' :: behind =>
      let start := behind.dropWhile isTomlSpace
      let value := start.takeWhile fun c => !isTomlSpace c && c ≠ '#'
      let limit ← tomlLimit? value
      if isTomlRest (start.drop value.length) then some (some (String.ofList key, limit)) else none
    | _ => none

/-- One more statement of a limit, unless the key is unknown or has been given before. -/
def withStatement (stated : List (String × Nat)) (entry : String × Nat) :
    Option (List (String × Nat)) :=
  if entry.1 ∈ memberNames ∧ (stated.lookup entry.1).isNone then some (entry :: stated) else none

/-- The limits that a document states, with defaults for the others. -/
def readToml? (text : String) : Option Limits := do
  let cs := match text.toList with
    | '\ufeff' :: rest => rest
    | cs => cs
  let entries ← (tomlLines cs).mapM tomlEntry?
  let stated ← (entries.filterMap id).foldlM withStatement []
  return ⟨(stated.lookup "max_source_len").getD default.maxSourceLength,
    (stated.lookup "max_nesting_depth").getD default.maxNestingDepth,
    (stated.lookup "cache_capacity").getD default.cacheCapacity⟩

/-- The limits that a document states, if they can be used. -/
def ofToml (text : String) : Except LimitsError Limits :=
  match readToml? text with
  | none => .error (.unreadable "not a document of limits")
  | some limits =>
    match limits.validate with
    | .ok () => .ok limits
    | .error e => .error e

end RecordRules.Limits
