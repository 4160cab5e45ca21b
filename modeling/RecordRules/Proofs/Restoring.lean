/-
# Formulas that are stored and restored

A formula that was read from a text is stored as JSON, and what comes back is a formula with the
same tree and the same names, or nothing. JSON has no NaN and no infinity, so a number literal
that is one of them is stored as null, and null is not read as a number. A text can have such
literals: a run of digits with two points in it reads as NaN, and one that is too long as
infinity. With every number finite, everything else comes back as it was: the tree node by node,
and the sets of names, which are stored in order. Only the numbers are up to the decoder: it may
not read one at all, or as one next to it, and the formula that comes back is the one that was
stored exactly if it keeps them all (`Formula.restores`).

The tree is as deep as its operators are many, for a chain nests to the left, and its JSON is
deeper still. A decoder with a limit on what is open at once refuses the formula if
that is too deep, and one without a limit does not.

Key definitions: `Expr.EachNumber`, `Formula.restored?`, `TextNumbers`. Key theorems:
`Expr.restores`, `Formula.restores`, `restored_iff_finite`.
-/
import RecordRules.Formula.Json
import RecordRules.Proofs.JsonReading
import RecordRules.Proofs.Limiting
import RecordRules.Proofs.RoundTrip

namespace RecordRules

/-! ### Sets of names -/

namespace NameSet

theorem eq_of_toList {names others : NameSet} (same : names.toList = others.toList) : names = others := by
  cases names
  cases others
  cases same
  rfl

/-- A set is what is in it. -/
theorem eq_of_mem_iff {names others : NameSet} (same : ∀ name, name ∈ names ↔ name ∈ others) : names = others :=
  eq_of_toList (names.ascending.eq_of_mem_iff others.ascending same)

/-- A set is the set of its names in order. -/
theorem ofList_toList (names : NameSet) : ofList names.toList = names := eq_of_mem_iff fun _ => mem_ofList

theorem strings?_toJson (names : NameSet) : names.toJson.strings? = some names.toList := by
  rw [toJson, Json.strings?, List.mapM_map]
  exact (List.mapM_pure (m := Option) (f := id)).trans (congrArg some (List.map_id _))

/-! Names are texts, with nothing in them to put in order, and no numbers. -/

theorem inOrder_toJson (names : NameSet) : names.toJson.inOrder = names.toJson := by
  rw [toJson, Json.inOrder, Json.itemsInOrder_eq_map, List.map_map]
  rfl

theorem mapNumbers_toJson (f : Json.Number → Json.Number) (names : NameSet) :
    names.toJson.mapNumbers f = names.toJson := by
  rw [toJson, Json.mapNumbers, Json.itemsMapNumbers_eq_map, List.map_map]
  rfl

theorem eachNumber_toJson (p : Json.Number → Prop) (names : NameSet) : names.toJson.EachNumber p := by
  refine Json.itemsEachNumber_iff.mpr fun item mem => ?_
  obtain ⟨text, _, rfl⟩ := List.mem_map.mp mem
  trivial

end NameSet

/-! ### Operators and literals -/

theorem Comparison.ofTag?_tag (op : Comparison) : ofTag? op.tag = some op := by
  cases op <;> rfl

theorem Connective.ofTag?_tag (op : Connective) : ofTag? op.tag = some op := by
  cases op <;> rfl

namespace Literal

/-- If the literal is a number, it has the property. -/
def EachNumber (p : Binary64 → Prop) : Literal → Prop
  | number x => p x
  | _ => True

variable {p q : Binary64 → Prop} {f : Binary64 → Binary64} {value : Literal}

theorem EachNumber.imp (each : value.EachNumber p) (imp : ∀ x, p x → q x) : value.EachNumber q := by
  cases value with
  | number x => exact imp x each
  | _ => trivial

theorem eachNumber_and :
    (value.EachNumber fun x => p x ∧ q x) ↔ value.EachNumber p ∧ value.EachNumber q := by
  cases value with
  | number x => exact Iff.rfl
  | _ => exact (and_iff_left trivial).symm

/-- The number of a stored literal is the literal's, if that is finite. -/
theorem eachNumber_toJson {p : Json.Number → Prop} :
    value.toJson.EachNumber p ↔ value.EachNumber fun x => x.isFinite = true → p (.float x) := by
  cases value with
  | number x => exact (and_iff_left trivial).trans Json.eachNumber_binary64
  | string | bool => exact iff_of_true ⟨trivial, trivial⟩ trivial
  | null => exact iff_of_true trivial trivial

theorem mapNumber_eq (same : value.EachNumber fun x => f x = x) : value.mapNumber f = value := by
  cases value with
  | number x => exact congrArg number same
  | _ => rfl

theorem alike_mapNumber_iff : (value.mapNumber f).Alike value ↔ value.EachNumber fun x => (f x).Alike x := by
  cases value with
  | number x => exact Iff.rfl
  | _ => exact iff_of_true rfl trivial

/-- **Literals.** NaN and the infinities are refused, and all other literals are read as they are, numbers as what
they are mapped to. -/
theorem restores (f : Json.Number → Json.Number) (value : Literal) :
    Restores (value.mapNumber fun x => (f (.float x)).toBinary64) (value.EachNumber fun x => x.isFinite = true)
      (ofJson? (value.toJson.mapNumbers f).inOrder) := by
  cases value with
  | number x =>
    rw [toJson, Json.binary64]
    split
    · rename_i finite
      exact restores_some finite
    · rename_i infinite
      exact restores_none infinite
  | _ => exact restores_some trivial

end Literal

/-! ### Trees -/

namespace Expr

/-- If the node is a number, it has the property. -/
def NumberHas (p : Binary64 → Prop) : Expr → Prop
  | .literal value => value.EachNumber p
  | _ => True

/-- Every number in the expression has the property. -/
abbrev EachNumber (p : Binary64 → Prop) (e : Expr) : Prop := e.Everywhere (NumberHas p)

section
variable {p q : Binary64 → Prop} {f : Binary64 → Binary64} {e left right : Expr} {es : List Expr}

theorem NumberHas.imp (has : e.NumberHas p) (imp : ∀ x, p x → q x) : e.NumberHas q := by
  cases e with
  | literal value => exact Literal.EachNumber.imp has imp
  | _ => trivial

theorem numberHas_and : (e.NumberHas fun x => p x ∧ q x) ↔ e.NumberHas p ∧ e.NumberHas q := by
  cases e with
  | literal value => exact Literal.eachNumber_and
  | _ => exact (and_iff_left trivial).symm

theorem EachNumber.imp (each : e.EachNumber p) (imp : ∀ x, p x → q x) : e.EachNumber q :=
  fun part hp => (each part hp).imp imp

theorem eachNumber_and : (e.EachNumber fun x => p x ∧ q x) ↔ e.EachNumber p ∧ e.EachNumber q :=
  ⟨fun each => ⟨each.imp fun _ => And.left, each.imp fun _ => And.right⟩,
    fun both part hp => numberHas_and.mpr ⟨both.1 part hp, both.2 part hp⟩⟩

/-- Properties that agree on every number in the expression. -/
theorem EachNumber.congr (each : e.EachNumber fun x => p x ↔ q x) : e.EachNumber p ↔ e.EachNumber q :=
  ⟨fun h => (eachNumber_and.mpr ⟨each, h⟩).imp fun _ both => both.1.mp both.2,
    fun h => (eachNumber_and.mpr ⟨each, h⟩).imp fun _ both => both.1.mpr both.2⟩

theorem eachNumber_literal {value : Literal} : (literal value).EachNumber p ↔ value.EachNumber p :=
  everywhere_literal (P := NumberHas p)

theorem eachNumber_connect {op : Connective} :
    (connect op left right).EachNumber p ↔ left.EachNumber p ∧ right.EachNumber p :=
  everywhere_connect.trans (and_iff_right trivial)

theorem eachNumber_compare {op : Comparison} :
    (compare op left right).EachNumber p ↔ left.EachNumber p ∧ right.EachNumber p :=
  everywhere_compare.trans (and_iff_right trivial)

theorem eachNumber_call {function : String} :
    (call function es).EachNumber p ↔ ∀ e ∈ es, e.EachNumber p :=
  everywhere_call.trans (and_iff_right trivial)

theorem eachNumber_array : (array es).EachNumber p ↔ ∀ e ∈ es, e.EachNumber p :=
  everywhere_array.trans (and_iff_right trivial)

end

mutual

/-- The numbers of a stored tree are those of the tree that are finite. -/
theorem eachNumber_toJson {p : Json.Number → Prop} : ∀ e : Expr,
    e.toJson.EachNumber p ↔ e.EachNumber fun x => x.isFinite = true → p (.float x)
  | .literal value => (and_iff_left trivial).trans (Literal.eachNumber_toJson.trans eachNumber_literal.symm)
  | .field path => iff_of_true ⟨trivial, trivial⟩ (everywhere_field.mpr trivial)
  | .connect op left right => by
    rw [eachNumber_connect, ← eachNumber_toJson left, ← eachNumber_toJson right]
    simp only [toJson, Json.EachNumber, Json.membersEachNumber, and_true, true_and]
  | .compare op left right => by
    rw [eachNumber_compare, ← eachNumber_toJson left, ← eachNumber_toJson right]
    simp only [toJson, Json.EachNumber, Json.membersEachNumber, and_true, true_and]
  | .call function args => by
    rw [eachNumber_call, ← eachNumber_listToJson args]
    simp only [toJson, Json.EachNumber, Json.membersEachNumber, and_true, true_and]
  | .array items => by
    rw [eachNumber_array, ← eachNumber_listToJson items]
    simp only [toJson, Json.EachNumber, Json.membersEachNumber, and_true]

theorem eachNumber_listToJson {p : Json.Number → Prop} : ∀ es : List Expr,
    Json.itemsEachNumber p (listToJson es) ↔ ∀ e ∈ es, e.EachNumber fun x => x.isFinite = true → p (.float x)
  | [] => iff_of_true trivial nofun
  | e :: rest => by
    rw [List.forall_mem_cons, ← eachNumber_toJson e, ← eachNumber_listToJson rest]
    rfl

end

section
variable {f : Binary64 → Binary64}

mutual

theorem mapNumbers_eq : ∀ {e : Expr}, (e.EachNumber fun x => f x = x) → e.mapNumbers f = e
  | .literal _, same => congrArg literal (Literal.mapNumber_eq (eachNumber_literal.mp same))
  | .field _, _ => rfl
  | .connect op _ _, same =>
    congrArg₂ (connect op) (mapNumbers_eq (eachNumber_connect.mp same).1)
      (mapNumbers_eq (eachNumber_connect.mp same).2)
  | .compare op _ _, same =>
    congrArg₂ (compare op) (mapNumbers_eq (eachNumber_compare.mp same).1)
      (mapNumbers_eq (eachNumber_compare.mp same).2)
  | .call function args, same => congrArg (call function) (mapNumbersList_eq args (eachNumber_call.mp same))
  | .array items, same => congrArg array (mapNumbersList_eq items (eachNumber_array.mp same))

theorem mapNumbersList_eq : ∀ es : List Expr, (∀ e ∈ es, e.EachNumber fun x => f x = x) → mapNumbersList f es = es
  | [], _ => rfl
  | _ :: rest, same =>
    congrArg₂ List.cons (mapNumbers_eq (List.forall_mem_cons.mp same).1)
      (mapNumbersList_eq rest (List.forall_mem_cons.mp same).2)

end

mutual

/-- Mapping numbers leaves a tree alike exactly if it leaves the numbers alike. -/
theorem alike_mapNumbers_iff : ∀ e : Expr, (e.mapNumbers f).Alike e ↔ e.EachNumber fun x => (f x).Alike x
  | .literal value => Literal.alike_mapNumber_iff.trans eachNumber_literal.symm
  | .field _ => iff_of_true rfl (everywhere_field.mpr trivial)
  | .connect op left right => by
    rw [eachNumber_connect, ← alike_mapNumbers_iff left, ← alike_mapNumbers_iff right]
    exact and_iff_right rfl
  | .compare op left right => by
    rw [eachNumber_compare, ← alike_mapNumbers_iff left, ← alike_mapNumbers_iff right]
    exact and_iff_right rfl
  | .call function args => by
    rw [eachNumber_call, ← alike_mapNumbersList_iff args]
    exact and_iff_right rfl
  | .array items => by
    rw [eachNumber_array, ← alike_mapNumbersList_iff items]
    rfl

theorem alike_mapNumbersList_iff : ∀ es : List Expr,
    AlikeList (mapNumbersList f es) es ↔ ∀ e ∈ es, e.EachNumber fun x => (f x).Alike x
  | [] => iff_of_true trivial nofun
  | e :: rest => by
    rw [List.forall_mem_cons, ← alike_mapNumbers_iff e, ← alike_mapNumbersList_iff rest]
    rfl

end

end

/-! Members are read in the order of their names, which is not the one that they are written in. -/

section
variable (left right : Json) (items : List Json)

theorem inOrder_sides (tag : String) :
    (Json.object [("op", .string tag), ("left", left), ("right", right)]).inOrder =
      .object [("left", left.inOrder), ("op", .string tag), ("right", right.inOrder)] := by
  have first : "left" < "op" := by decide
  have second : "left" < "right" := by decide
  have third : "op" < "right" := by decide
  simp only [Json.inOrder, Json.membersInOrder, Keyed.ofList, List.foldl_cons, List.foldl_nil, Keyed.insert,
    if_pos first, if_neg (String.lt_asymm second), if_pos second, if_neg (String.lt_asymm third), if_pos third]

theorem inOrder_called (function : String) :
    (Json.object [("name", .string function), ("args", .array items)]).inOrder =
      .object [("args", .array (Json.itemsInOrder items)), ("name", .string function)] := by
  have before : "args" < "name" := by decide
  simp only [Json.inOrder, Json.membersInOrder, Keyed.ofList, List.foldl_cons, List.foldl_nil, Keyed.insert,
    if_pos before]

theorem ofJson?_connect (op : Connective) :
    ofJson? (.object [("Logical", .object [("left", left), ("op", .string op.tag), ("right", right)])]) =
      Option.map₂ (connect op) (ofJson? left) (ofJson? right) := by
  cases hl : ofJson? left <;> cases hr : ofJson? right <;>
    simp [ofJson?, nodesOf, List.lookup, unitTag?, Connective.ofTag?_tag, hl, hr]

theorem ofJson?_compare (op : Comparison) :
    ofJson? (.object [("Binary", .object [("left", left), ("op", .string op.tag), ("right", right)])]) =
      Option.map₂ (compare op) (ofJson? left) (ofJson? right) := by
  cases hl : ofJson? left <;> cases hr : ofJson? right <;>
    simp [ofJson?, nodesOf, List.lookup, unitTag?, Comparison.ofTag?_tag, hl, hr]

theorem ofJson?_call (function : String) :
    ofJson? (.object [("Call", .object [("args", .array items), ("name", .string function)])]) =
      (listOfJson? items).map (call function) := by
  cases h : listOfJson? items <;> simp [ofJson?, listsOf, List.lookup, Json.string?, h]

theorem listOfJson?_cons (item : Json) :
    listOfJson? (item :: items) = Option.map₂ List.cons (ofJson? item) (listOfJson? items) := by
  rw [listOfJson?]
  cases ofJson? item <;> cases listOfJson? items <;> rfl

/-- A node with one member is read with what is in it put in order. -/
theorem inOrder_node (kind : String) (content : Json) :
    (Json.object [(kind, content)]).inOrder = .object [(kind, content.inOrder)] := rfl

end

section
variable (f : Json.Number → Json.Number)

theorem mapNumbers_node (kind : String) (content : Json) :
    (Json.object [(kind, content)]).mapNumbers f = .object [(kind, content.mapNumbers f)] := rfl

theorem mapNumbers_sides (left right : Json) (tag : String) :
    (Json.object [("op", .string tag), ("left", left), ("right", right)]).mapNumbers f =
      .object [("op", .string tag), ("left", left.mapNumbers f), ("right", right.mapNumbers f)] := rfl

theorem mapNumbers_called (function : String) (items : List Json) :
    (Json.object [("name", .string function), ("args", .array items)]).mapNumbers f =
      .object [("name", .string function), ("args", .array (Json.itemsMapNumbers f items))] := rfl

mutual

/-- **Trees.** A tree is refused if a number in it is not finite, and otherwise read as it was, with its numbers
as what they are mapped to. -/
theorem restores : ∀ e : Expr, Restores (e.mapNumbers fun x => (f (.float x)).toBinary64)
    (e.EachNumber fun x => x.isFinite = true) (ofJson? (e.toJson.mapNumbers f).inOrder)
  | .literal value => by
    rw [toJson, mapNumbers_node, inOrder_node, ofJson?]
    exact ((value.restores f).map literal).congr eachNumber_literal.symm
  | .field path => restores_some (everywhere_field.mpr trivial)
  | .connect op left right => by
    rw [toJson, mapNumbers_node, mapNumbers_sides, inOrder_node, inOrder_sides, ofJson?_connect]
    exact ((restores left).map₂ (restores right) (connect op)).congr eachNumber_connect.symm
  | .compare op left right => by
    rw [toJson, mapNumbers_node, mapNumbers_sides, inOrder_node, inOrder_sides, ofJson?_compare]
    exact ((restores left).map₂ (restores right) (compare op)).congr eachNumber_compare.symm
  | .call function args => by
    rw [toJson, mapNumbers_node, mapNumbers_called, inOrder_node, inOrder_called, ofJson?_call]
    exact ((listRestores args).map (call function)).congr eachNumber_call.symm
  | .array items => by
    rw [toJson, mapNumbers_node, inOrder_node, Json.mapNumbers, Json.inOrder, ofJson?]
    exact ((listRestores items).map array).congr eachNumber_array.symm

theorem listRestores : ∀ es : List Expr, Restores (mapNumbersList (fun x => (f (.float x)).toBinary64) es)
    (∀ e ∈ es, e.EachNumber fun x => x.isFinite = true)
    (listOfJson? (Json.itemsInOrder (Json.itemsMapNumbers f (listToJson es))))
  | [] => restores_some nofun
  | e :: rest => by
    have both := (restores e).map₂ (listRestores rest) List.cons
    rw [← listOfJson?_cons] at both
    exact both.congr List.forall_mem_cons.symm

end

end

end Expr

/-! ### Formulas -/

namespace Formula

/-- What comes back of a formula that is stored as a text of JSON and read from it. -/
def restored? (formula : Formula) (decoder : Json.Decoder) : Option Formula :=
  (decoder.read? formula.toJson.write).bind ofJson?

variable (formula : Formula)

/-- The numbers of a stored formula are those of its tree that are finite. -/
theorem eachNumber_toJson {p : Json.Number → Prop} :
    formula.toJson.EachNumber p ↔ formula.expr.EachNumber fun x => x.isFinite = true → p (.float x) := by
  have fields := formula.names.fields.eachNumber_toJson p
  have functions := formula.names.functions.eachNumber_toJson p
  rw [← Expr.eachNumber_toJson]
  exact and_iff_left ⟨fields, functions, trivial⟩

theorem valid_toJson : formula.toJson.Valid := by
  refine (eachNumber_toJson formula).mpr fun part _ => ?_
  cases part with
  | literal value =>
    cases value with
    | number x => exact id
    | _ => trivial
  | _ => trivial

theorem inOrder_toJson (f : Json.Number → Json.Number) : (formula.toJson.mapNumbers f).inOrder =
    .object [("ast", (formula.expr.toJson.mapNumbers f).inOrder), ("functions", formula.names.functions.toJson),
      ("identifiers", formula.names.fields.toJson)] := by
  have first : "ast" < "identifiers" := by decide
  have second : "ast" < "functions" := by decide
  have third : "functions" < "identifiers" := by decide
  simp only [toJson, Json.mapNumbers, Json.membersMapNumbers, NameSet.mapNumbers_toJson, Json.inOrder,
    Json.membersInOrder, Keyed.ofList, List.foldl_cons, List.foldl_nil, Keyed.insert, NameSet.inOrder_toJson,
    if_neg (String.lt_asymm first), if_pos first, if_neg (String.lt_asymm second), if_pos second, if_pos third]

theorem ofJson?_inOrder (f : Json.Number → Json.Number) : ofJson? (formula.toJson.mapNumbers f).inOrder =
    (Expr.ofJson? (formula.expr.toJson.mapNumbers f).inOrder).map fun e => ⟨e, formula.names⟩ := by
  have fields := NameSet.ofList_toList formula.names.fields
  have functions := NameSet.ofList_toList formula.names.functions
  rw [inOrder_toJson]
  cases h : Expr.ofJson? (formula.expr.toJson.mapNumbers f).inOrder <;>
    simp [ofJson?, Json.fields?, memberNames, List.lookup, NameSet.strings?_toJson, fields, functions, h]

/-- The formula with its numbers as the reader has them from their texts. -/
def restored (numbers : Json.NumberReader) : Formula :=
  ⟨formula.expr.mapNumbers fun x => (numbers.reread (.float x)).toBinary64, formula.names⟩

/-- **Formulas.** A formula comes back if its numbers are finite and the decoder accepts what is stored, and then
with the names it had, and with its tree up to numbers. Nothing comes back otherwise. -/
theorem restores (decoder : Json.Decoder) : Restores (formula.restored decoder.numbers)
    ((formula.expr.EachNumber fun x => x.isFinite = true ∧ decoder.numbers.Reads (.float x)) ∧
      ∀ most ∈ decoder.limit, formula.toJson.depth ≤ most)
    (formula.restored? decoder) := by
  have tree := (formula.expr.restores decoder.numbers.reread).map fun e => Formula.mk e formula.names
  rw [← ofJson?_inOrder] at tree
  refine ((decoder.restores_write formula.valid_toJson).bind tree).congr ⟨?_, ?_⟩
  · rintro ⟨accepts, finite⟩
    have reads := formula.eachNumber_toJson.mp accepts.numbers
    have both := Expr.eachNumber_and.mpr ⟨finite, reads⟩
    exact ⟨both.imp fun _ number => ⟨number.1, number.2 number.1⟩, accepts.depth⟩
  · rintro ⟨each, depth⟩
    have reads := formula.eachNumber_toJson.mpr (each.imp fun _ number _ => number.2)
    exact ⟨⟨reads, depth⟩, each.imp fun _ => And.left⟩

/-- The formula that comes back is alike exactly if the numbers are kept. -/
theorem alike_restored_iff {numbers : Json.NumberReader}
    (each : formula.expr.EachNumber fun x => x.isFinite = true ∧ numbers.Reads (.float x)) :
    (formula.restored numbers).expr.Alike formula.expr ↔
      formula.expr.EachNumber fun x => numbers.Keeps (.float x) := by
  refine (Expr.alike_mapNumbers_iff formula.expr).trans (Expr.EachNumber.congr (each.imp fun x number => ?_))
  exact (Json.NumberReader.keeps_iff_alike number.2).symm

/-- A formula whose numbers are kept comes back as it was. -/
theorem restored_eq {numbers : Json.NumberReader}
    (each : formula.expr.EachNumber fun x => numbers.Keeps (.float x)) : formula.restored numbers = formula := by
  have same := Expr.mapNumbers_eq (each.imp fun _ => Json.NumberReader.Keeps.toBinary64_reread)
  exact congrArg (Formula.mk · formula.names) same

end Formula

/-! ### Texts -/

/-- If the lexeme is a number, the number that it reads as has the property. -/
def Lexeme.NumberHas (p : Binary64 → Prop) : Lexeme → Prop
  | .number digits => p (Parse.State.numberOf digits)
  | _ => True

/-- Every number in the text has the property. -/
def TextNumbers (p : Binary64 → Prop) (source : String) : Prop :=
  ∀ tokens, Token.scan source = .ok tokens → ∀ token ∈ tokens, token.lexeme.NumberHas p

section
variable {p : Binary64 → Prop}

theorem matches_numberHas : Matches (Lexeme.NumberHas p) (Expr.NumberHas p) where
  literal {l value} read := by
    cases l with
    | string | number | boolean | null => cases read; rfl
    | _ => cases read
  field path := Iff.rfl
  call function args := Iff.rfl
  array items := trivial
  join op left right := by cases op <;> trivial
  plain {l} noLiteral _ := by
    cases l with
    | number => cases noLiteral
    | _ => trivial

/-- The numbers of a formula that was read are those of the text. -/
theorem textNumbers_iff {source : String} {formula : Formula} (parsed : Formula.parse source = .ok formula) :
    TextNumbers p source ↔ formula.expr.EachNumber p := by
  obtain ⟨tokens, scanned, derives, _⟩ := Formula.parse_eq_ok_iff.mp parsed
  have tree : (∀ l ∈ Parse.kinds tokens, l.NumberHas p) ↔ formula.expr.EachNumber p :=
    (matches_numberHas.everywhere_iff derives).trans List.forall_mem_singleton
  have text : (∀ token ∈ tokens, token.lexeme.NumberHas p) ↔ ∀ l ∈ Parse.kinds tokens, l.NumberHas p := by
    have last : ∀ token ∈ [(⟨.finish, Parse.endSpan tokens⟩ : Token)], token.lexeme.NumberHas p :=
      List.forall_mem_singleton.mpr trivial
    have all : (∀ token ∈ Parse.body tokens ++ [⟨.finish, Parse.endSpan tokens⟩], token.lexeme.NumberHas p) ↔
        ∀ token ∈ Parse.body tokens, token.lexeme.NumberHas p :=
      List.forall_mem_append.trans (and_iff_left last)
    rw [body_of_scan scanned] at all
    exact all.trans List.forall_mem_map.symm
  rw [← tree, ← text, TextNumbers, scanned]
  simp only [Except.ok.injEq, forall_eq']

end

/-- **Stored formulas come back.** A formula that was read from a text is stored as JSON. A formula comes back
exactly if all numbers of the text are finite, the decoder reads what is written of them, and it allows as many
open arrays and objects as there are. It has the same names, and the same tree exactly if the decoder keeps all
numbers, and then it is that formula, and so holds for the same changes and asks the same of every guard. -/
theorem restored_iff_finite {source : String} {formula : Formula} (parsed : Formula.parse source = .ok formula)
    (decoder : Json.Decoder) :
    ((formula.restored? decoder).isSome = true ↔
      TextNumbers (fun x => x.isFinite = true ∧ decoder.numbers.Reads (.float x)) source ∧
        ∀ most ∈ decoder.limit, formula.toJson.depth ≤ most) ∧
    ∀ restored, formula.restored? decoder = some restored →
      restored.names = formula.names ∧
      (restored.expr.Alike formula.expr ↔ TextNumbers (fun x => decoder.numbers.Keeps (.float x)) source) ∧
      (restored.expr.Alike formula.expr → restored = formula) := by
  have comesBack := formula.restores decoder
  rw [textNumbers_iff parsed, textNumbers_iff parsed]
  refine ⟨comesBack.isSome_iff, fun restored found => ?_⟩
  obtain ⟨⟨each, _⟩, rfl⟩ := (comesBack restored).mp found
  have border := formula.alike_restored_iff each
  exact ⟨rfl, border, fun alike => formula.restored_eq (border.mp alike)⟩

/-- A negative zero in a call. Six arrays and objects are open at once in the JSON, and a decoder that allows five
refuses it. -/
theorem restored_iff_finite_call :
    ∃ formula, Formula.parse "get('fee', -0)" = .ok formula ∧
      formula.restored? ⟨.nearest, none⟩ = some formula ∧
      formula.restored? ⟨.nearest, some 6⟩ = some formula ∧ formula.restored? ⟨.nearest, some 5⟩ = none := by
  let zero : Expr := .literal (.number (Parse.State.numberOf "-0"))
  let formula : Formula := ⟨.call "get" [.literal (.string "fee"), zero], .ofList ["fee"], .ofList ["get"]⟩
  have parsed : Formula.parse "get('fee', -0)" = .ok formula := by cbv
  have depth : formula.toJson.depth = 6 := by rfl
  have finite : formula.expr.EachNumber fun x => x.isFinite = true := by
    have read : (Parse.State.numberOf "-0").isFinite = true := by decide +kernel
    simpa [formula, zero, Expr.NumberHas, Literal.EachNumber] using read
  have keeps (x : Binary64) (finite : x.isFinite = true) : Json.NumberReader.nearest.Keeps (.float x) :=
    Json.keeps_nearest finite
  have kept : TextNumbers (fun x => Json.NumberReader.nearest.Keeps (.float x)) "get('fee', -0)" :=
    (textNumbers_iff parsed).mpr (finite.imp keeps)
  have written : TextNumbers (fun x => x.isFinite = true ∧ Json.NumberReader.nearest.Reads (.float x))
      "get('fee', -0)" :=
    (textNumbers_iff parsed).mpr (finite.imp fun x finite => ⟨finite, (keeps x finite).reads⟩)
  have wide (limit : Option Nat) (fits : ∀ most ∈ limit, formula.toJson.depth ≤ most) :
      formula.restored? ⟨.nearest, limit⟩ = some formula := by
    obtain ⟨comesBack, same⟩ := restored_iff_finite parsed ⟨.nearest, limit⟩
    obtain ⟨restored, found⟩ := Option.isSome_iff_exists.mp (comesBack.mpr ⟨written, fits⟩)
    obtain ⟨_, border, asIs⟩ := same restored found
    rw [found, asIs (border.mpr kept)]
  have narrow := (restored_iff_finite parsed ⟨.nearest, some 5⟩).1
  refine ⟨formula, parsed, wide none ?_, wide (some 6) ?_, ?_⟩
  · rintro _ ⟨⟩
  · rintro _ ⟨⟩
    exact depth.le
  · rw [← Option.not_isSome_iff_eq_none, narrow]
    exact fun accepts => absurd (depth ▸ accepts.2 5 rfl) (by decide)

/-- Two points in a run of digits. It is read as a formula whose only node is NaN, stored with null in its
place, and no decoder gives a formula back. -/
theorem nan_not_restored :
    ∃ formula, Formula.parse "1.2.3" = .ok formula ∧
      formula.toJson.write =
        "\x7b\"ast\":\x7b\"Literal\":\x7b\"Number\":null\x7d\x7d,\"identifiers\":[],\"functions\":[]\x7d" ∧
      ∀ decoder, formula.restored? decoder = none := by
  let formula : Formula := ⟨.literal (.number .nan), .none⟩
  refine ⟨formula, ?_, ?_, fun decoder => ?_⟩
  · cbv
  · cbv
  · rw [← Option.not_isSome_iff_eq_none, (formula.restores decoder).isSome_iff]
    rintro ⟨each, _⟩
    exact Bool.false_ne_true (Expr.eachNumber_literal.mp each).1

end RecordRules
