/-
The test attribute: an async function as a plain test.

The attribute works on token trees.  It drops the first `async`, drops the
function's return type if there is one, and puts the function's body inside a block
that waits for a task made of it and panics with the error the task ends with.  A
body with a return type yields a result of its own; a body without one yields a
plain value.  An item without `async`, or without a body, becomes an error for the
compiler to report.

The function's body is the item's last brace group.  Where the first `fn` stands
behind that group the search for the parameters has no range to look in, and the
expansion aborts.
-/
import TaskDispatch.Text.Quoted

namespace TaskDispatch.TestAttribute

/-- What stands around a group. -/
inductive Delimiter where
  | paren
  | bracket
  | brace
  deriving DecidableEq

/-- One token tree. -/
inductive Token where
  | ident (name : String)
  | literal (text : String)
  | punct (c : Char)
  | group (delimiter : Delimiter) (tokens : List Token)

namespace Token

def isIdent (name : String) : Token → Bool
  | ident other => other == name
  | _ => false

def isPunct (c : Char) : Token → Bool
  | punct other => other == c
  | _ => false

def isGroup (delimiter : Delimiter) : Token → Bool
  | group other _ => other == delimiter
  | _ => false

/-- The tokens inside a group. -/
def inner : Token → List Token
  | group _ tokens => tokens
  | _ => []

end Token

/-- What an expansion comes to. -/
inductive Expansion where
  | tokens (ts : List Token)
  | aborted

/-- Drops the first identifier of that name. -/
def removeIdent? (name : String) (ts : List Token) : Option (List Token) :=
  if ts.any (Token.isIdent name) then some (ts.eraseP (Token.isIdent name)) else none

/-- The position of the last token that passes the test. -/
def lastIdx? (test : Token → Bool) (ts : List Token) : Option Nat :=
  (ts.reverse.findIdx? test).map (ts.length - 1 - ·)

/-- The position of the function's body. -/
def bodyPosition? (ts : List Token) : Option Nat := lastIdx? (Token.isGroup .brace) ts

/-- The position of the first token from `start` up to, but without, `stop` that passes the test. -/
def findBetween? (test : Token → Bool) (start stop : Nat) (ts : List Token) : Option Nat :=
  (((ts.drop start).take (stop - start)).findIdx? test).map (start + ·)

/-- Whether an arrow follows the token at position `i`. -/
def arrowFollows (i : Nat) (ts : List Token) : Bool :=
  (ts[i + 1]?).any (Token.isPunct '-') && (ts[i + 2]?).any (Token.isPunct '>')

/-- What taking the return type out of a signature comes to. -/
inductive Signature where
  /-- There was a return type; a `where` clause behind it stays. -/
  | returning (rest : List Token)
  | plain
  | aborted

/-- Takes the return type out of a function's signature. -/
def takeReturnType (ts : List Token) : Signature :=
  match bodyPosition? ts, ts.findIdx? (Token.isIdent "fn") with
  | some body, some start =>
    if body < start then .aborted
    else
      match findBetween? (Token.isGroup .paren) start body ts with
      | none => .plain
      | some params =>
        if arrowFollows params ts then
          let stop := (findBetween? (Token.isIdent "where") params body ts).getD body
          .returning (ts.take (params + 1) ++ ts.drop stop)
        else .plain
  | _, _ => .plain

/-- A path that starts at the root of all names. -/
def rootPath (names : List String) : List Token :=
  names.flatMap fun name => [.punct ':', .punct ':', .ident name]

/-- What stands for an item that the attribute refuses. -/
def compileError (message : String) : List Token :=
  rootPath ["core", "compile_error"] ++
    [.punct '!', .group .paren [.literal (Text.quoted message)], .punct ';']

/-- The body of the test: it runs the task made of `block` and panics with its error. -/
def testBody (returnsResult : Bool) (block : List Token) : Token :=
  let maker := if returnsResult then "new" else "from_future"
  let task := rootPath ["vinculum", "Task", maker] ++
    [.group .paren [.ident "async", .ident "move", .group .brace block]]
  let failure := rootPath ["core", "panic"] ++
    [.punct '!', .group .paren [.literal (Text.quoted "test task failed: \x7berror\x7d")], .punct ';']
  .group .brace [.group .brace
    ([.ident "if", .ident "let"] ++ rootPath ["core", "result", "Result", "Err"] ++
      [.group .paren [.ident "error"], .punct '='] ++ rootPath ["vinculum", "sync_wait"] ++
      [.group .paren task, .group .brace failure])]

/-- The mark of a plain test. -/
def testMark : List Token := [.punct '#', .group .bracket [.ident "test"]]

/-- Expands the attribute over an item. -/
def expand (item : List Token) : Expansion :=
  match removeIdent? "async" item with
  | none => .tokens (compileError "#[vinculum::test] expects an `async fn`")
  | some ts =>
    let wrap (returnsResult : Bool) (ts : List Token) : Expansion :=
      match bodyPosition? ts with
      | none => .tokens (compileError "#[vinculum::test] expects a function body")
      | some body =>
        let block := (ts[body]?).elim [] Token.inner
        .tokens (testMark ++ ts.set body (testBody returnsResult block))
    match takeReturnType ts with
    | .aborted => .aborted
    | .plain => wrap false ts
    | .returning rest => wrap true rest

end TaskDispatch.TestAttribute
