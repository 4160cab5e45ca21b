/-
# Reading with a cursor

Tokens can be read by functions that call each other, one for each level of the grammar, one for
operands and one for lists. They share a cursor into the tokens and count the brackets they
have entered; a function that waits for another one keeps what it has read so far. `Reader` is
this way of reading, one step at a time, with its calls as a stack.

A reader that looks behind the last token crashes, and so does one that leaves a bracket when
it has entered none. Neither happens, and reading ends, since of every reader on the way
(`Reader.Valid`) it holds that

- the cursor is not behind the first end of the expression, which no step passes;
- the depth is the number of calls that are in a bracket, and that of the brackets open behind
  the tokens passed; and
- the calls wait for each other as the grammar has it, so that an operator that may stand at
  the cursor belongs to one of the chains on top.

The calls that wait say what the machine would know at the cursor (`outline`). A step either
passes a token as the machine does, or passes none and leaves the outlook as it is. The second
kind cannot go on for long: functions call each other only in the order of the grammar, and
chains that are given up leave the stack (`Reader.pause`).

Key definitions: `Reader`, `Reader.step`, `Reader.Valid`. Key theorems:
`Reader.Valid.agrees_step`, `Reader.leads_after`, `reader_balanced`.
-/
import RecordRules.Proofs.Outlooks

namespace RecordRules

/-! ### A reader -/

namespace Parse

/-- What must not happen to a reader. -/
inductive Crash where
  /-- It looks behind the last token. -/
  | outOfBounds
  /-- It leaves a bracket when it has entered none. -/
  | underflow
deriving DecidableEq

/-- How reading ends. -/
inductive Stop where
  /-- A formula has been read, with that many brackets entered and not left. -/
  | read (formula : Formula) (depth : Nat)
  | refused (e : SyntaxError)
  | crashed (crash : Crash)

/-- Reading ends with the result, all brackets left. -/
def Stop.of : Except SyntaxError Formula → Stop
  | .ok formula => .read formula 0
  | .error e => .refused e

/-- A call that waits for the one it has made. -/
inductive Waiting where
  /-- A chain of the level, with the left side of its last operator. -/
  | chain (level : Level) (left : Option (Expr × Operator))
  | group
  /-- A list, with the items read so far, the last one first. -/
  | list (b : Enclosure) (read : List Expr)

/-- What is done next. -/
inductive Task where
  /-- Reading begins. -/
  | start
  /-- A chain of the level is read. -/
  | chain (level : Level)
  | operand
  /-- A list is read, behind the opening bracket. -/
  | list (b : Enclosure)
  /-- The call that waits is given what it waits for. -/
  | give (e : Expr)

/-- The tasks are calls of one function; for each level there is one that reads a chain. -/
def Task.Recurs : Task → Task → Prop
  | .start, .start | .operand, .operand | .list _, .list _ => True
  | .chain level, .chain level' => level = level'
  | _, _ => False

/-- The kind of bracket. -/
def Enclosure.bracket : Enclosure → Bracket
  | array => .array
  | arguments _ => .arguments

/-- A reader: its place among the tokens, how many brackets it has entered and not left, the names so far, what it
does next, and the calls that wait, the last one first. -/
structure Reader where
  cursor : Nat
  depth : Nat
  names : Names
  task : Task
  stack : List Waiting

end Parse

/-- What reads the parts of a chain. -/
def Level.inner : Level → Parse.Task
  | relation => .operand
  | conjunction => .chain relation
  | expression => .chain conjunction

/-- The operator of the level that the lexeme is. -/
def Level.operator? : Level → Lexeme → Option Operator
  | relation, .comparison op => some (.comparison op)
  | conjunction, .connective .and => some (.connective .and)
  | expression, .connective .or => some (.connective .or)
  | _, _ => none

theorem Level.operator?_eq_some_iff {level : Level} {l : Lexeme} {op : Operator} :
    level.operator? l = some op ↔ op.lexeme = l ∧ op.level = level := by
  constructor
  · intro h
    unfold operator? at h
    split at h <;> cases h <;> exact ⟨rfl, rfl⟩
  · rintro ⟨rfl, rfl⟩
    rcases op with op | op | op <;> rfl

/-- Reading ends with a fault at the token. -/
def Token.refuse {α : Type} (token : Token) (fault : SyntaxFault) : Except Parse.Stop α :=
  .error (.refused (token.error fault))

namespace Parse
namespace Reader

/-- Before the first token. -/
def start : Reader := ⟨0, 0, .none, .start, []⟩

variable (limit : Option Nat) (tokens : List Token)

/-- The token at the cursor. -/
def current (r : Reader) : Except Stop Token :=
  match tokens[r.cursor]? with
  | some token => .ok token
  | none => .error (.crashed .outOfBounds)

/-- The cursor moves on, but not past the end of the expression. -/
def advance (r : Reader) : Except Stop Reader := do
  let token ← r.current tokens
  return if token.lexeme = .finish then r else { r with cursor := r.cursor + 1 }

/-- A bracket is entered, unless it is one too many. -/
def enter (r : Reader) : Except Stop Reader :=
  match limit with
  | some most =>
    if most < r.depth + 1 then do (← r.current tokens).refuse (.tooDeep most)
    else .ok { r with depth := r.depth + 1 }
  | none => .ok { r with depth := r.depth + 1 }

/-- A bracket is left. -/
def leave (r : Reader) : Except Stop Reader :=
  if r.depth = 0 then .error (.crashed .underflow) else .ok { r with depth := r.depth - 1 }

/-- The closing bracket at the cursor is passed, and the bracket is left. -/
def close (r : Reader) : Except Stop Reader := do (← r.advance tokens).leave

/-- An operand begins with the token. -/
def operand (r : Reader) (token : Token) : Except Stop Reader :=
  match token.lexeme with
  | .openParen => do
    let r ← (← r.advance tokens).enter limit tokens
    return { r with task := .chain .expression, stack := .group :: r.stack }
  | .openBracket => do
    let r ← (← r.advance tokens).enter limit tokens
    return { r with task := .list .array }
  | .name path => do
    let r ← r.advance tokens
    if (← r.current tokens).lexeme = .openParen then
      let r ← (← r.advance tokens).enter limit tokens
      return { r with task := .list (.arguments path) }
    else
      return { r with names := r.names.withField path, task := .give (.field path) }
  | l =>
    match Literal.ofLexeme? l with
    | some value => do
      let r ← r.advance tokens
      return { r with task := .give (.literal value) }
    | none => token.refuse (if l = .finish then .unexpectedEnd else .unexpectedLexeme l)

/-- A list begins with the token, or ends before its first item. -/
def list (b : Enclosure) (r : Reader) (token : Token) : Except Stop Reader :=
  if token.lexeme = b.close then do
    let r ← r.close tokens
    return { r with names := b.named r.names [], task := .give (b.tree []) }
  else
    return { r with task := .chain .expression, stack := .list b [] :: r.stack }

/-- The call that waits goes on at the token with what it is given. -/
def resume (e : Expr) (r : Reader) (token : Token) : Except Stop Reader :=
  match r.stack with
  | [] =>
    if token.lexeme = .finish then .error (.read ⟨e, r.names⟩ r.depth)
    else token.refuse (.trailing token.lexeme)
  | .chain level left :: stack =>
    match level.operator? token.lexeme with
    | some op => do
      let r ← r.advance tokens
      return { r with task := level.inner, stack := .chain level (some (joinWaiting e left, op)) :: stack }
    | none => return { r with task := .give (joinWaiting e left), stack }
  | .group :: stack =>
    if token.lexeme = .closeParen then do
      let r ← r.close tokens
      return { r with task := .give e, stack }
    else
      token.refuse (.unclosed .group token.lexeme)
  | .list b read :: stack =>
    if token.lexeme = .comma then do
      let r ← r.advance tokens
      return { r with task := .chain .expression, stack := .list b (e :: read) :: stack }
    else if token.lexeme = b.close then do
      let items := (e :: read).reverse
      let r ← r.close tokens
      return { r with names := b.named r.names items, task := .give (b.tree items), stack }
    else
      token.refuse (.unclosed b.bracket token.lexeme)

/-- One step. -/
def step (r : Reader) : Except Stop Reader := do
  let token ← r.current tokens
  match r.task with
  | .start =>
    if token.lexeme = .finish then token.refuse .unexpectedEnd else return { r with task := .chain .expression }
  | .chain level => return { r with task := level.inner, stack := .chain level none :: r.stack }
  | .operand => r.operand limit tokens token
  | .list b => r.list tokens b token
  | .give e => r.resume tokens e token

/-- The reader after that many steps, or how reading has ended. -/
def after : Nat → Except Stop Reader
  | 0 => .ok start
  | n + 1 => (after n).bind (step limit tokens)

end Reader

/-! ### What a reader knows -/

/-- The call has entered a bracket. -/
def Waiting.isBracket : Waiting → Bool
  | chain _ _ => false
  | group | list _ _ => true

/-- What the calls that wait have read: the operands to the left of the next one, and the open brackets. -/
def outline : List Waiting → Pending × List Frame
  | [] => (.none, [])
  | .chain _ none :: rest => outline rest
  | .chain _ (some (left, op)) :: rest => ((outline rest).1.wait left op, (outline rest).2)
  | .group :: rest => (.none, .group (outline rest).1 :: (outline rest).2)
  | .list b read :: rest => (.none, b.frame (outline rest).1 read :: (outline rest).2)

namespace Reader

/-- The calls that are not complete, a list that begins among them. -/
def calls (r : Reader) : List Waiting :=
  match r.task with
  | .list b => .list b [] :: r.stack
  | _ => r.stack

/-- What has been read last. -/
def phase (r : Reader) : Phase :=
  match r.task with
  | .give e => .operand e
  | _ => .expecting

/-- The state of the machine that knows what the reader does. -/
def state (r : Reader) : State := ⟨(outline r.calls).2, (outline r.calls).1, r.phase, r.names⟩

end Reader

/-- The calls wait for each other as the grammar has it, with that many chains on top. -/
inductive Stacked : Nat → List Waiting → Prop where
  | nil : Stacked 0 []
  | chain {n level left stack} : Stacked n stack → level.rank = n + 1 → (∀ waits ∈ left, waits.2.level = level) →
      Stacked (n + 1) (.chain level left :: stack)
  | group {stack} : Stacked 3 stack → Stacked 0 (.group :: stack)
  | list {b read stack} : Stacked 3 stack → Stacked 0 (.list b read :: stack)

section
variable {n : Nat} {stack : List Waiting}

theorem length_outline (stack : List Waiting) : (outline stack).2.length = stack.countP Waiting.isBracket := by
  fun_induction outline stack with
  | case1 => rfl
  | case2 _ _ ih => exact ih
  | case3 _ _ _ _ ih => exact ih
  | case4 _ ih => rw [List.length_cons, ih, List.countP_cons_of_pos rfl]
  | case5 _ _ _ ih => rw [List.length_cons, ih, List.countP_cons_of_pos rfl]

theorem Stacked.le (h : Stacked n stack) : n ≤ 3 := by
  cases h with
  | @chain n level _ _ _ rank =>
    have := level.rank_lt
    omega
  | _ => omega

/-- What waits outside binds less tightly. -/
theorem Stacked.clearFrom (h : Stacked n stack) : (outline stack).1.ClearFrom (n + 1) := by
  induction h with
  | @chain n level left stack _ rank same ih =>
    cases left with
    | none => exact fun level le => ih level (by omega)
    | some waits =>
      obtain ⟨left, op⟩ := waits
      obtain rfl : op.level = level := same _ rfl
      rw [← rank] at ih ⊢
      exact Pending.wait_clearFrom ih
  | _ => exact Pending.none_clearFrom _

end

/-! ### What a reader is ready for -/

/-- No bracket that has just been entered is closed by the lexeme. -/
def Blocks (l : Lexeme) (stack : List Waiting) : Prop :=
  ∀ names, l = .closeParen ∨ l = .closeBracket →
    State.stepExpecting ⟨(outline stack).2, (outline stack).1, .expecting, names⟩ l = none

/-- The calls that wait fit what is done next, with the lexeme at the cursor. -/
inductive Ready (l : Lexeme) : Task → List Waiting → Prop where
  | start : Ready l .start []
  | chain {n level stack} : Stacked n stack → level.rank = n + 1 → Blocks l stack → Ready l (.chain level) stack
  | operand {stack} : Stacked 3 stack → Blocks l stack → Ready l .operand stack
  | list {b stack} : Stacked 3 stack → Ready l (.list b) stack
  | give {n e stack} : Stacked n stack → (∀ op : Operator, op.lexeme = l → op.level.rank ≤ n) →
      Ready l (.give e) stack

namespace Reader

/-- How many steps are taken before the cursor moves, at most. -/
def pause (r : Reader) : Nat :=
  match r.task with
  | .start | .list _ => 7
  | .chain level => 7 - level.rank
  | .operand => 3
  | .give _ => (r.stack.takeWhile fun call => !call.isBracket).length

/-- How many steps are taken before the reader stops at the end, at most. -/
def work (stop : Nat) (r : Reader) : Nat := 8 * (stop - r.cursor) + r.pause

/-- What holds of a reader all the time. -/
structure Valid (limit : Option Nat) (front : List Token) (span : Span) (r : Reader) : Prop where
  cursor_le : r.cursor ≤ front.length
  depth_eq : r.depth = r.calls.countP Waiting.isBracket
  opened : openBehind ((front.take r.cursor).map Token.lexeme) = r.depth
  within : ∀ most ∈ limit, r.depth ≤ most
  ready : Ready (tokenAt front span r.cursor).lexeme r.task r.stack

/-- What the machine comes to from what the reader knows. -/
def foretold (limit : Option Nat) (front : List Token) (span : Span) (r : Reader) : Except SyntaxError Formula :=
  outlook limit front span r.state r.cursor

/-- The reader goes on to another that comes to the same, its cursor does not move back, and there is less to do. -/
structure Leads (limit : Option Nat) (front : List Token) (span : Span) (r next : Reader) : Prop where
  valid : next.Valid limit front span
  foretold : next.foretold limit front span = r.foretold limit front span
  cursor_le : r.cursor ≤ next.cursor
  work_lt : next.work front.length < r.work front.length

/-- The reader goes on, or ends as the machine does. -/
def Agrees (limit : Option Nat) (front : List Token) (span : Span) (r : Reader) : Except Stop Reader → Prop
  | .ok next => r.Leads limit front span next
  | .error stop => stop = .of (r.foretold limit front span)

end Reader

section
variable {n : Nat} {level : Level} {stack : List Waiting} {l : Lexeme} {b : Enclosure} {e : Expr}

theorem Stacked.length_takeWhile (h : Stacked n stack) :
    (stack.takeWhile fun call => !call.isBracket).length = n := by
  induction h with
  | chain _ _ _ ih => rw [List.takeWhile_cons_of_pos rfl, List.length_cons, ih]
  | _ => rfl

theorem ready_inner (h : Stacked n stack) (rank : level.rank = n) (blocks : Blocks l stack) :
    Ready l level.inner stack := by
  subst rank
  cases level with
  | relation => exact .operand h blocks
  | conjunction | expression => exact .chain h rfl blocks

/-- No operator binds tighter than all levels. -/
theorem ready_operand (h : Stacked 3 stack) : Ready l (.give e) stack :=
  .give h fun op _ => Nat.le_of_lt_succ op.level.rank_lt

/-- No operator binds less tightly than all levels. -/
theorem not_operator (binds : ∀ op : Operator, op.lexeme = l → op.level.rank ≤ 0) (op : Operator) : op.lexeme ≠ l :=
  fun same => absurd (binds op same) (by cases op.level <;> decide)

theorem blocks_nil : Blocks l [] := by
  rintro names (rfl | rfl) <;> rfl

theorem blocks_group : Blocks l (.group :: stack) := by
  rintro names (rfl | rfl) <;> rfl

/-- A list that has an item is not closed where one must come. -/
theorem blocks_item {read : List Expr} : Blocks l (.list b (e :: read) :: stack) := by
  rintro names (rfl | rfl) <;> cases b <;> rfl

/-- The lexeme would have closed the list. -/
theorem blocks_list (other : l ≠ b.close) : Blocks l (.list b [] :: stack) := by
  rintro names (rfl | rfl) <;> cases b <;> first | rfl | exact absurd rfl other

/-- An operator has no right side yet. -/
theorem blocks_operator {left : Expr} {op : Operator} : Blocks l (.chain level (some (left, op)) :: stack) := by
  have waits : ((outline stack).1.wait left op).isNone = false := by
    rcases op with op | op | op <;> simp [Pending.wait, Pending.compare, Pending.connect, Pending.isNone]
  rintro names (rfl | rfl)
  all_goals
    simp only [outline, State.stepExpecting, waits]
    split <;> rfl

end

/-! ### Steps -/

namespace Reader

variable {limit : Option Nat} {tokens front : List Token} {span : Span} {r next : Reader} {l : Lexeme}

theorem current_eq (h : EndsAt tokens front span) (le : r.cursor ≤ front.length) :
    r.current tokens = .ok (tokenAt front span r.cursor) := by
  rw [current, h.getElem? le]

theorem advance_eq (h : EndsAt tokens front span) (le : r.cursor ≤ front.length)
    (lexeme : (tokenAt front span r.cursor).lexeme = l) (other : l ≠ .finish) :
    r.advance tokens = .ok { r with cursor := r.cursor + 1 } := by
  rw [← lexeme] at other
  rw [advance, current_eq h le]
  simp only [bind, Except.bind, if_neg other]
  rfl

/-- How long the cursor may stay is told by the function that is called. -/
theorem pause_eq (same : r.task.Recurs next.task) : next.pause = r.pause := by
  unfold Task.Recurs at same
  rw [pause, pause]
  split at same <;> first | exact same.elim | simp only [*]

theorem Valid.pause_le (h : r.Valid limit front span) : r.pause ≤ 7 := by
  obtain ⟨cursor, depth, names, task, stack⟩ := r
  have ready := h.ready
  cases ready with
  | give stacked =>
    calc _ = _ := stacked.length_takeWhile
      _ ≤ 7 := Nat.le_trans stacked.le (by decide)
  | _ => simp [pause]

theorem Valid.length_frames (h : r.Valid limit front span) : r.state.frames.length = r.depth :=
  (length_outline r.calls).trans h.depth_eq.symm

theorem Valid.depthFault? (h : r.Valid limit front span) : r.state.depthFault? limit = none := by
  rw [depthFault?_eq_none_iff, h.length_frames]
  exact h.within

/-- A step on which the cursor stays. -/
theorem Valid.pass (h : r.Valid limit front span) (cursor : next.cursor = r.cursor) (depth : next.depth = r.depth)
    (calls : next.calls.countP Waiting.isBracket = r.calls.countP Waiting.isBracket)
    (foretold : next.foretold limit front span = r.foretold limit front span)
    (ready : Ready (tokenAt front span r.cursor).lexeme next.task next.stack) (less : next.pause < r.pause) :
    r.Leads limit front span next where
  valid := by
    refine ⟨?_, ?_, ?_, ?_, ?_⟩
    · rw [cursor]
      exact h.cursor_le
    · rw [depth, calls]
      exact h.depth_eq
    · rw [cursor, depth]
      exact h.opened
    · rw [depth]
      exact h.within
    · rwa [cursor]
  foretold := foretold
  cursor_le := Nat.le_of_eq cursor.symm
  work_lt := by
    rw [work, work, cursor]
    omega

/-- A step on which the cursor moves. -/
theorem Valid.move (valid : next.Valid limit front span)
    (foretold : next.foretold limit front span = r.foretold limit front span) (lt : r.cursor < next.cursor) :
    r.Leads limit front span next := by
  refine ⟨valid, foretold, Nat.le_of_lt lt, ?_⟩
  have pause := valid.pause_le
  have le := valid.cursor_le
  rw [work, work]
  omega

/-- A step over one token, which the machine takes. -/
theorem Valid.take (h : r.Valid limit front span) (ends : EndsAt tokens front span)
    (lexeme : (tokenAt front span r.cursor).lexeme = l) (other : l ≠ .finish)
    (taken : r.state.advance l = some next.state)
    (cursor : next.cursor = r.cursor + 1) (depth : next.depth = next.calls.countP Waiting.isBracket)
    (within : ∀ most ∈ limit, next.depth ≤ most)
    (ready : Ready (tokenAt front span (r.cursor + 1)).lexeme next.task next.stack) :
    r.Leads limit front span next := by
  have lt := ends.lt_length lexeme other
  have frames : next.depth = l.nesting r.depth := by
    rw [depth, ← length_outline, ← h.length_frames]
    exact frames_advance taken
  have valid : next.Valid limit front span := by
    refine ⟨?_, depth, ?_, within, ?_⟩
    · omega
    · rw [cursor, ends.openBehind_take lexeme other, h.opened, frames]
    · rwa [cursor]
  refine valid.move ?_ (by omega)
  rw [foretold, foretold, cursor, outlook_take ends h.depthFault? lexeme other taken]

/-- The closing bracket of the last call is passed. -/
theorem Valid.close_eq {call : Waiting} {stack : List Waiting} (h : r.Valid limit front span)
    (ends : EndsAt tokens front span) (lexeme : (tokenAt front span r.cursor).lexeme = l) (other : l ≠ .finish)
    (calls : r.calls = call :: stack) (bracket : call.isBracket = true) :
    r.close tokens = .ok { r with cursor := r.cursor + 1, depth := stack.countP Waiting.isBracket } := by
  have depth := h.depth_eq
  rw [calls, List.countP_cons_of_pos bracket] at depth
  rw [close, advance_eq ends h.cursor_le lexeme other]
  show leave { r with cursor := r.cursor + 1 } = _
  have entered : ¬ r.depth = 0 := by omega
  rw [leave, if_neg entered, depth]
  rfl

/-- Behind a closing bracket, what it held is given to the call that waits for it. -/
theorem Valid.leads_close {call : Waiting} {stack : List Waiting} {names : Names} {e : Expr}
    (h : r.Valid limit front span) (ends : EndsAt tokens front span)
    (lexeme : (tokenAt front span r.cursor).lexeme = l) (other : l ≠ .finish)
    (calls : r.calls = call :: stack) (stacked : Stacked 3 stack)
    (taken : r.state.advance l = some ⟨(outline stack).2, (outline stack).1, .operand e, names⟩) :
    r.Leads limit front span ⟨r.cursor + 1, stack.countP Waiting.isBracket, names, .give e, stack⟩ := by
  have fewer : stack.countP Waiting.isBracket ≤ r.depth := by
    rw [h.depth_eq, calls]
    exact (List.sublist_cons_self call stack).countP_le
  exact h.take ends lexeme other taken rfl rfl (fun most some => Nat.le_trans fewer (h.within most some))
    (ready_operand stacked)

/-- A token that is refused. -/
theorem Valid.refuse (h : r.Valid limit front span) (ends : EndsAt tokens front span) {fault : SyntaxFault}
    (lexeme : (tokenAt front span r.cursor).lexeme = l) (refused : r.state.advance l = none)
    (unfinished : l = .finish → r.state.formula? = none) (refusal : r.state.refusal l = fault) :
    r.Agrees limit front span ((tokenAt front span r.cursor).refuse fault) := by
  show Stop.refused _ = .of (r.foretold limit front span)
  rw [foretold, outlook_refused ends h.depthFault? lexeme refused unfinished, refusal]
  rfl

/-- A bracket that is entered. If it is one too many, the machine stops at the next token too. -/
theorem agrees_enter {entered opened : Reader} (ends : EndsAt tokens front span) (le : entered.cursor ≤ front.length)
    (f : Reader → Reader) (made : f { entered with depth := entered.depth + 1 } = opened)
    (foretold : opened.foretold limit front span = r.foretold limit front span)
    (cursor : opened.cursor = entered.cursor) (frames : opened.state.frames.length = entered.depth + 1)
    (leads : (∀ most ∈ limit, entered.depth + 1 ≤ most) → r.Leads limit front span opened) :
    r.Agrees limit front span ((entered.enter limit tokens).bind fun e => .ok (f e)) := by
  cases limit with
  | none =>
    simp only [enter, Except.bind, made]
    exact leads nofun
  | some most =>
    by_cases deep : most < entered.depth + 1
    · have stop : opened.state.depthFault? (some most) = some (.tooDeep most) := by
        rw [depthFault?_of_lt]
        omega
      simp only [enter, if_pos deep, current_eq ends le, bind, Except.bind, Token.refuse]
      show Stop.refused _ = .of (r.foretold (some most) front span)
      rw [← foretold, Reader.foretold, outlook_deep ends stop, cursor]
      rfl
    · simp only [enter, if_neg deep, Except.bind, made]
      refine leads fun _ some => ?_
      cases some
      omega

/-! ### One lemma for each task -/

/-- What reads a part of a chain is told by the calls that wait. -/
theorem inner_eq {level : Level} (task : r.task = level.inner) :
    r.calls = r.stack ∧ r.state = ⟨(outline r.stack).2, (outline r.stack).1, .expecting, r.names⟩ := by
  rw [state, calls, phase, task]
  cases level <;> exact ⟨rfl, rfl⟩

/-- Reading begins. -/
theorem Valid.agrees_start (h : r.Valid limit front span) (ends : EndsAt tokens front span) (task : r.task = .start) :
    r.Agrees limit front span
      (if (tokenAt front span r.cursor).lexeme = .finish then (tokenAt front span r.cursor).refuse .unexpectedEnd
        else .ok { r with task := .chain .expression }) := by
  obtain ⟨cursor, depth, names, _, stack⟩ := r
  cases task
  have ready := h.ready
  cases ready
  split_ifs with finish
  · exact h.refuse ends finish rfl (fun _ => rfl) rfl
  · exact h.pass rfl rfl rfl rfl (.chain .nil rfl blocks_nil) (by decide : 6 < 7)

/-- A chain waits for its first part. -/
theorem Valid.leads_chain {level : Level} (h : r.Valid limit front span) (task : r.task = .chain level) :
    r.Leads limit front span { r with task := level.inner, stack := .chain level none :: r.stack } := by
  obtain ⟨cursor, depth, names, _, stack⟩ := r
  cases task
  have ready := h.ready
  cases ready with
  | chain stacked rank blocks =>
    have above := @Stacked.chain _ _ none _ stacked rank nofun
    refine h.pass rfl rfl ?_ ?_ (ready_inner above rank blocks) ?_
    · cases level <;> exact List.countP_cons_of_neg (by simp [Waiting.isBracket])
    · cases level <;> rfl
    · cases level <;> simp [pause, Level.inner, Level.rank]

/-- A list begins, or ends before its first item. -/
theorem Valid.agrees_list {b : Enclosure} (h : r.Valid limit front span) (ends : EndsAt tokens front span)
    (task : r.task = .list b) : r.Agrees limit front span (r.list tokens b (tokenAt front span r.cursor)) := by
  obtain ⟨cursor, depth, names, _, stack⟩ := r
  cases task
  have ready := h.ready
  cases ready with
  | list stacked =>
    rw [Reader.list]
    split_ifs with closes
    · rw [h.close_eq ends closes b.close_ne_finish rfl rfl]
      exact h.leads_close ends closes b.close_ne_finish rfl stacked (by cases b <;> rfl)
    · exact h.pass rfl rfl rfl rfl (.chain (.list stacked) rfl (blocks_list closes)) (by decide : 6 < 7)

/-- The opening bracket of a group or an array. -/
theorem Valid.agrees_open {opened : Reader} (h : r.Valid limit front span) (ends : EndsAt tokens front span)
    (lexeme : (tokenAt front span r.cursor).lexeme = l) (other : l ≠ .finish) (f : Reader → Reader)
    (made : f { r with cursor := r.cursor + 1, depth := r.depth + 1 } = opened)
    (taken : r.state.advance l = some opened.state)
    (cursor : opened.cursor = r.cursor + 1) (depth : opened.depth = r.depth + 1)
    (calls : opened.calls.countP Waiting.isBracket = r.depth + 1)
    (ready : Ready (tokenAt front span (r.cursor + 1)).lexeme opened.task opened.stack) :
    r.Agrees limit front span ((r.advance tokens).bind fun a => (a.enter limit tokens).bind fun e => .ok (f e)) := by
  have le : (Reader.mk (r.cursor + 1) r.depth r.names r.task r.stack).cursor ≤ front.length :=
    ends.lt_length lexeme other
  rw [advance_eq ends h.cursor_le lexeme other]
  refine agrees_enter ends le f made ?_ cursor ?_ fun within => ?_
  · rw [foretold, foretold, cursor, outlook_take ends h.depthFault? lexeme other taken]
  · exact (length_outline opened.calls).trans calls
  · refine h.take ends lexeme other taken cursor (depth.trans calls.symm) ?_ ready
    rwa [depth]

/-- A name, with the list behind it if it is called. -/
theorem Valid.agrees_name {path : String} {cursor depth : Nat} {names : Names} {stack : List Waiting}
    (h : Valid limit front span ⟨cursor, depth, names, .operand, stack⟩) (ends : EndsAt tokens front span)
    (lexeme : (tokenAt front span cursor).lexeme = .name path) :
    Agrees limit front span ⟨cursor, depth, names, .operand, stack⟩
      (operand limit tokens ⟨cursor, depth, names, .operand, stack⟩ (tokenAt front span cursor)) := by
  have ready := h.ready
  cases ready with
  | operand stacked =>
    have le : cursor + 1 ≤ front.length := ends.lt_length lexeme nofun
    have depths : (outline stack).2.length = depth := h.length_frames
    have within : ∀ most ∈ limit, (outline stack).2.length ≤ most := depths ▸ h.within
    have named : outlook limit front span ⟨(outline stack).2, (outline stack).1, .expecting, names⟩ cursor =
        outlook limit front span ⟨(outline stack).2, (outline stack).1, .named path, names⟩ (cursor + 1) :=
      outlook_take ends (depthFault?_eq_none_iff.mpr within) lexeme nofun rfl
    have opened : openBehind ((front.take (cursor + 1)).map Token.lexeme) = depth := by
      rw [ends.openBehind_take lexeme nofun]
      exact h.opened
    have here := @current_eq _ _ _ ⟨cursor + 1, depth, names, .operand, stack⟩ ends le
    simp only [operand, lexeme]
    rw [advance_eq ends h.cursor_le lexeme nofun]
    simp only [bind, Except.bind, here]
    split_ifs with paren
    · -- two tokens are passed in this step, so `Valid.take` does not apply
      have le' : cursor + 1 + 1 ≤ front.length := ends.lt_length paren nofun
      have called : outlook limit front span ⟨(outline stack).2, (outline stack).1, .named path, names⟩ (cursor + 1) =
          outlook limit front span ⟨.arguments (outline stack).1 path [] :: (outline stack).2, .none, .expecting, names⟩
            (cursor + 1 + 1) :=
        outlook_take ends (depthFault?_eq_none_iff.mpr within) paren nofun rfl
      have behind : (Reader.mk (cursor + 1 + 1) depth names .operand stack).cursor ≤ front.length := le'
      have passed := @advance_eq _ _ _ ⟨cursor + 1, depth, names, .operand, stack⟩ _ ends le paren nofun
      simp only [passed]
      refine agrees_enter ends behind (fun e => ⟨e.cursor, e.depth, e.names, .list (.arguments path), e.stack⟩) rfl
        (named.trans called).symm rfl (congrArg (· + 1) depths) fun within' => ?_
      refine Valid.move ⟨le', ?_, ?_, within', .list stacked⟩ (named.trans called).symm
        (Nat.lt_add_of_pos_right Nat.two_pos)
      · exact (congrArg (· + 1) h.depth_eq).trans (List.countP_cons_of_pos rfl).symm
      · rw [ends.openBehind_take paren nofun, opened]
        rfl
    · refine Valid.move ⟨le, h.depth_eq, opened, h.within, ready_operand stacked⟩ ?_ (Nat.lt_succ_self cursor)
      exact (named.trans (outlook_field ends within paren)).symm

/-- An operand begins. -/
theorem Valid.agrees_operand (h : r.Valid limit front span) (ends : EndsAt tokens front span)
    (task : r.task = .operand) : r.Agrees limit front span (r.operand limit tokens (tokenAt front span r.cursor)) := by
  obtain ⟨cursor, depth, names, _, stack⟩ := r
  cases task
  have ready := h.ready
  cases ready with
  | operand stacked blocks =>
    have calls : stack.countP Waiting.isBracket + 1 = depth + 1 := congrArg (· + 1) h.depth_eq.symm
    cases lexeme : (tokenAt front span cursor).lexeme with
    | name path => exact h.agrees_name ends lexeme
    | openParen =>
      simp only [operand, lexeme]
      exact h.agrees_open ends lexeme nofun
        (fun e => ⟨e.cursor, e.depth, e.names, .chain .expression, .group :: e.stack⟩) rfl rfl rfl rfl
        ((List.countP_cons_of_pos rfl).trans calls) (.chain (.group stacked) rfl blocks_group)
    | openBracket =>
      simp only [operand, lexeme]
      exact h.agrees_open ends lexeme nofun
        (fun e => ⟨e.cursor, e.depth, e.names, .list .array, e.stack⟩) rfl rfl rfl rfl
        ((List.countP_cons_of_pos rfl).trans calls) (.list stacked)
    | string | number | boolean | null =>
      simp only [operand, lexeme, Literal.ofLexeme?]
      rw [advance_eq ends h.cursor_le lexeme nofun]
      exact h.take ends lexeme nofun rfl rfl h.depth_eq h.within (ready_operand stacked)
    | closeParen | closeBracket =>
      simp only [operand, lexeme, Literal.ofLexeme?]
      have refused := blocks names (by simp [lexeme])
      rw [lexeme] at refused
      exact h.refuse ends lexeme refused (fun _ => rfl) rfl
    | comma | comparison | connective | finish =>
      simp only [operand, lexeme, Literal.ofLexeme?]
      exact h.refuse ends lexeme rfl (fun _ => rfl) rfl

/-- A chain goes on behind an operator of its level. -/
theorem Valid.leads_operator {cursor depth : Nat} {names : Names} {e : Expr} {op : Operator}
    {left : Option (Expr × Operator)} {stack : List Waiting}
    (h : Valid limit front span ⟨cursor, depth, names, .give e, .chain op.level left :: stack⟩)
    (ends : EndsAt tokens front span) (lexeme : (tokenAt front span cursor).lexeme = op.lexeme) :
    Leads limit front span ⟨cursor, depth, names, .give e, .chain op.level left :: stack⟩
      ⟨cursor + 1, depth, names, op.level.inner, .chain op.level (some (joinWaiting e left, op)) :: stack⟩ := by
  have ready := h.ready
  rcases ready with _ | _ | _ | _ | ⟨_ | ⟨stacked, rank, same⟩, _⟩
  have above := @Stacked.chain _ _ (some (joinWaiting e left, op)) _ stacked rank (by rintro _ ⟨⟩; rfl)
  obtain ⟨calls, state⟩ := @inner_eq ⟨cursor + 1, depth, names, op.level.inner,
    .chain op.level (some (joinWaiting e left, op)) :: stack⟩ op.level rfl
  refine h.take ends lexeme op.lexeme_ne_finish ?_ rfl ?_ h.within (ready_inner above rank blocks_operator)
  · rw [state]
    cases left with
    | none => exact State.stepOperand_operator _ e op
    | some waits =>
      -- the chain joins its last two sides before it takes the operator, the machine while it does
      obtain ⟨left, before⟩ := waits
      have level : before.level = op.level := same _ rfl
      have clear : (outline stack).1.ClearFrom before.level.rank := by
        rw [level, rank]
        exact stacked.clearFrom
      have waits : ((outline stack).1.wait left before).wait e op = (outline stack).1.wait (before.join left e) op :=
        Pending.wait_wait clear (Nat.le_of_eq (congrArg Level.rank level.symm))
      show State.stepOperand _ e op.lexeme = _
      rw [State.stepOperand_operator]
      exact congrArg (fun p => some (State.mk (outline stack).2 p .expecting names)) waits
  · rw [calls]
    exact h.depth_eq

/-- A chain that does not go on is given to the call that waits for it. -/
theorem Valid.leads_joined {cursor depth : Nat} {level : Level} {names : Names} {e : Expr}
    {left : Option (Expr × Operator)} {stack : List Waiting}
    (h : Valid limit front span ⟨cursor, depth, names, .give e, .chain level left :: stack⟩)
    (ends : EndsAt tokens front span) (operator : level.operator? (tokenAt front span cursor).lexeme = none) :
    Leads limit front span ⟨cursor, depth, names, .give e, .chain level left :: stack⟩
      ⟨cursor, depth, names, .give (joinWaiting e left), stack⟩ := by
  have ready := h.ready
  rcases ready with _ | _ | _ | _ | ⟨_ | @⟨n, _, _, _, stacked, rank, same⟩, binds⟩
  -- an operator that may stand here is of another level, so one of the chains below goes on with it
  have looser : ∀ op : Operator, op.lexeme = (tokenAt front span cursor).lexeme → op.level.rank ≤ n := by
    intro op lexeme
    have le := binds op lexeme
    have apart : op.level.rank ≠ level.rank := by
      intro equal
      obtain rfl : op.level = level := by revert equal; cases op.level <;> cases level <;> decide
      rw [Level.operator?_eq_some_iff.mpr ⟨lexeme, rfl⟩] at operator
      cases operator
    omega
  refine h.pass rfl rfl ?_ ?_ (.give stacked looser) ?_
  · exact (List.countP_cons_of_neg (by simp [Waiting.isBracket])).symm
  · cases left with
    | none => rfl
    | some waits =>
      obtain ⟨left, op⟩ := waits
      obtain rfl : op.level = level := same _ rfl
      have clear : (outline stack).1.ClearFrom op.level.rank := by
        rw [rank]
        exact stacked.clearFrom
      have within : ∀ most ∈ limit, (outline stack).2.length ≤ most :=
        fun most some => Nat.le_trans (Nat.le_of_eq h.length_frames) (h.within most some)
      exact (outlook_join ends clear within (rank ▸ binds)).symm
  · show (stack.takeWhile fun call => !call.isBracket).length <
      ((Waiting.chain level left :: stack).takeWhile fun call => !call.isBracket).length
    rw [List.takeWhile_cons_of_pos rfl]
    exact Nat.lt_succ_self _

/-- The call that waits goes on. -/
theorem Valid.agrees_resume {e : Expr} (h : r.Valid limit front span) (ends : EndsAt tokens front span)
    (task : r.task = .give e) : r.Agrees limit front span (r.resume tokens e (tokenAt front span r.cursor)) := by
  obtain ⟨cursor, depth, names, _, stack⟩ := r
  cases task
  have ready := h.ready
  cases ready with
  | give stacked binds =>
    cases stacked with
    | nil =>
      simp only [resume]
      split_ifs with finish
      · have read : foretold limit front span ⟨cursor, depth, names, .give e, []⟩ = .ok ⟨e, names⟩ :=
          outlook_read ends h.depthFault? finish rfl
        have none : depth = 0 := h.depth_eq
        rw [Agrees, read, none]
        rfl
      · exact h.refuse ends rfl (stepOperand_nil (not_operator binds)) (fun same => absurd same finish) rfl
    | @chain n level left stack stacked rank same =>
      simp only [resume]
      cases operator : level.operator? (tokenAt front span cursor).lexeme with
      | some op =>
        obtain ⟨lexeme, rfl⟩ := Level.operator?_eq_some_iff.mp operator
        rw [advance_eq ends h.cursor_le lexeme.symm op.lexeme_ne_finish]
        exact h.leads_operator ends lexeme.symm
      | none => exact h.leads_joined ends operator
    | @group stack stacked =>
      simp only [resume]
      split_ifs with closes
      · rw [h.close_eq ends closes nofun rfl rfl]
        exact h.leads_close ends closes nofun rfl stacked rfl
      · exact h.refuse ends rfl (stepOperand_group (not_operator binds) closes) (fun _ => rfl) rfl
    | @list b read stack stacked =>
      simp only [resume]
      split_ifs with comma closes
      · rw [advance_eq ends h.cursor_le comma nofun]
        exact h.take ends comma nofun (by cases b <;> rfl) rfl h.depth_eq h.within
          (.chain (.list stacked) rfl blocks_item)
      · rw [h.close_eq ends closes b.close_ne_finish rfl rfl]
        exact h.leads_close ends closes b.close_ne_finish rfl stacked (by cases b <;> rfl)
      · exact h.refuse ends rfl (stepOperand_list (not_operator binds) comma closes) (fun _ => rfl)
          (by cases b <;> rfl)

/-- **A step.** The reader goes on to one that comes to the same, or ends as the machine does. -/
theorem Valid.agrees_step (h : r.Valid limit front span) (ends : EndsAt tokens front span) :
    r.Agrees limit front span (r.step limit tokens) := by
  rw [step, current_eq ends h.cursor_le]
  simp only [bind, Except.bind]
  cases task : r.task with
  | start => exact h.agrees_start ends task
  | chain level => exact h.leads_chain task
  | operand => exact h.agrees_operand ends task
  | list b => exact h.agrees_list ends task
  | give e => exact h.agrees_resume ends task

/-! ### Runs -/

theorem valid_start : start.Valid limit front span :=
  ⟨Nat.zero_le _, rfl, rfl, fun _ _ => Nat.zero_le _, .start⟩

theorem after_succ {n : Nat} (h : after limit tokens (n + 1) = .ok next) :
    ∃ r, after limit tokens n = .ok r ∧ r.step limit tokens = .ok next := by
  rw [after] at h
  cases before : after limit tokens n with
  | ok r =>
    rw [before] at h
    exact ⟨r, rfl, h⟩
  | error =>
    rw [before] at h
    cases h

/-- Whatever number of steps is taken, the reader stays valid. -/
theorem valid_after (ends : EndsAt tokens front span) {n : Nat} (h : after limit tokens n = .ok r) :
    r.Valid limit front span := by
  induction n generalizing r with
  | zero =>
    cases h
    exact valid_start
  | succ n ih =>
    obtain ⟨before, earlier, step⟩ := after_succ h
    have agrees := (ih earlier).agrees_step ends
    rw [step] at agrees
    exact agrees.valid

/-- **A run.** Each of its steps leaves less to do, and none moves the cursor back. -/
theorem leads_after (ends : EndsAt tokens front span) {n m : Nat} (h : after limit tokens n = .ok r)
    (later : after limit tokens (n + m) = .ok next) : next.foretold limit front span = r.foretold limit front span ∧
      r.cursor ≤ next.cursor ∧ next.work front.length + m ≤ r.work front.length := by
  induction m generalizing next with
  | zero =>
    cases h.symm.trans later
    exact ⟨rfl, le_rfl, le_rfl⟩
  | succ m ih =>
    obtain ⟨between, earlier, step⟩ := after_succ later
    obtain ⟨foretold, cursor, work⟩ := ih earlier
    have agrees := (valid_after ends earlier).agrees_step ends
    rw [step] at agrees
    refine ⟨agrees.foretold.trans foretold, cursor.trans agrees.cursor_le, ?_⟩
    have less := agrees.work_lt
    omega

/-- A run that has ended has the result of the machine. -/
theorem stop_after (ends : EndsAt tokens front span) {n : Nat} {stop : Stop} (h : after limit tokens n = .error stop) :
    stop = .of (start.foretold limit front span) := by
  induction n with
  | zero => cases h
  | succ n ih =>
    rw [after] at h
    cases before : after limit tokens n with
    | error =>
      rw [before] at h
      exact ih (before.trans h)
    | ok r =>
      rw [before] at h
      have step : r.step limit tokens = .error stop := h
      have agrees := (valid_after ends before).agrees_step ends
      rw [step] at agrees
      obtain ⟨foretold, _⟩ := leads_after (n := 0) ends rfl (n.zero_add.symm ▸ before)
      rw [← foretold]
      exact agrees

end Reader

/-- **Reading with a cursor.** The reader never looks behind the first end of the expression, and it never leaves a
bracket that it has not entered: its depth is the number of calls that are in a bracket, and that of the brackets
open behind the tokens it has passed. The cursor does not move back, and no function is called twice with the cursor
at the same token. So reading ends, with the result of the machine, and with all brackets left if that is a formula.
Tokens behind the first end have no say in it. -/
theorem reader_balanced (limit : Option Nat) (tokens : List Token) :
    let given := ended tokens
    let stop := given.findIdx fun token => token.lexeme = .finish
    stop < given.length ∧
    (∀ n r, Reader.after limit given n = .ok r → r.cursor ≤ stop ∧ r.depth = r.calls.countP Waiting.isBracket ∧
      r.depth = openBehind ((given.take r.cursor).map Token.lexeme) ∧
      ∀ m later, Reader.after limit given (n + m) = .ok later → r.cursor ≤ later.cursor ∧
        (0 < m → r.task.Recurs later.task → r.cursor < later.cursor)) ∧
    (∀ n crash, Reader.after limit given n ≠ .error (.crashed crash)) ∧
    Reader.after limit given (8 * given.length) = .error (.of (Formula.ofTokens limit tokens)) ∧
    ∀ front token rest rest', token.lexeme = .finish →
      Formula.ofTokens limit (front ++ token :: rest) = Formula.ofTokens limit (front ++ token :: rest') := by
  intro given stop
  have ends : EndsAt given (body tokens) (endSpan tokens) := endsAt_ended tokens
  have first : stop = (body tokens).length := ends.findIdx
  have short : (body tokens).length < given.length := by
    have le := ends.begins.length_le
    rwa [List.length_append, List.length_singleton] at le
  have result : Reader.start.foretold limit (body tokens) (endSpan tokens) = Formula.ofTokens limit tokens := rfl
  refine ⟨first ▸ short, fun n r h => ?_, fun n crash h => ?_, ?_, fun front token rest rest' finish =>
    ofTokens_finish limit front finish rest rest'⟩
  · have valid := Reader.valid_after ends h
    refine ⟨first ▸ valid.cursor_le, valid.depth_eq, ?_, fun m later h' => ?_⟩
    · obtain ⟨rest, split⟩ := ends.begins
      rw [← valid.opened, ← split, List.append_assoc, List.take_append_of_le_length valid.cursor_le]
    · obtain ⟨-, cursor, work⟩ := Reader.leads_after ends h h'
      refine ⟨cursor, fun pos same => ?_⟩
      have pause : later.pause = r.pause := Reader.pause_eq same
      rw [Reader.work, Reader.work, pause] at work
      omega
  · have ended := Reader.stop_after ends h
    rw [result] at ended
    cases outcome : Formula.ofTokens limit tokens <;> rw [outcome] at ended <;> cases ended
  · cases h : Reader.after limit given (8 * given.length) with
    | error stop => rw [Reader.stop_after ends h, result]
    | ok r =>
      rw [← Nat.zero_add (8 * given.length)] at h
      obtain ⟨-, -, work⟩ := Reader.leads_after ends rfl h
      have most : Reader.start.work (body tokens).length = 8 * (body tokens).length + 7 := rfl
      omega

end Parse
end RecordRules
