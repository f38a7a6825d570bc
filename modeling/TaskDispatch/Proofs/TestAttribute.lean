/-
What the test attribute makes of an async function.

The expansion looks four tokens up by their position: the first `async`, the first `fn`, the first
group of parameters behind it, and the first `where` in front of the last brace group.  Each search
runs over a list that the one before may have shortened, so where it ends is said for a list cut in two
at the token that is meant.  `AsyncFn` cuts a whole function so.  Nothing else in a signature diverts a
search: no attribute, no visibility in parentheses, no braces in a type or in a bound.

What the new body does is not left to the eye: `verdict?` reads its tokens and says what comes of them.
-/
import TaskDispatch.TestAttribute

namespace TaskDispatch.TestAttribute

/-! ### The parts of an async function -/

/-- An async function part by part, with what keeps the parts apart. -/
structure AsyncFn where
  /-- Attributes, visibility and whatever else stands in front of `async`. -/
  before : List Token
  /-- What stands between `async` and `fn`. -/
  between : List Token
  name : String
  generics : List Token
  params : List Token
  /-- The return type behind an arrow. -/
  returns : Option (List Token)
  /-- The bounds behind a `where`. -/
  bounds : Option (List Token)
  body : List Token
  async_first : ∀ t ∈ before ++ between, t.isIdent "async" = false
  fn_first : ∀ t ∈ before ++ between, t.isIdent "fn" = false
  params_first : ∀ t ∈ generics, t.isGroup .paren = false
  bounds_first : ∀ type ∈ returns, ∀ t ∈ type, t.isIdent "where" = false

namespace AsyncFn

def returnClause (f : AsyncFn) : List Token := f.returns.elim [] fun type => .punct '-' :: .punct '>' :: type

def whereClause (f : AsyncFn) : List Token := f.bounds.elim [] fun bounds => .ident "where" :: bounds

/-- The function as it is written. -/
def tokens (f : AsyncFn) : List Token :=
  f.before ++ [.ident "async"] ++ f.between ++ [.ident "fn", .ident f.name] ++ f.generics ++
    [.group .paren f.params] ++ f.returnClause ++ f.whereClause ++ [.group .brace f.body]

/-- The function without its `async` and its return type, and with another body. -/
def plainTokens (f : AsyncFn) (body : List Token) : List Token :=
  f.before ++ f.between ++ [.ident "fn", .ident f.name] ++ f.generics ++
    [.group .paren f.params] ++ f.whereClause ++ [.group .brace body]

/-- What stands in front of `fn` once `async` is gone. -/
def front (f : AsyncFn) : List Token := f.before ++ f.between

/-- What stands from `fn` up to the parameters. -/
def naming (f : AsyncFn) : List Token := .ident "fn" :: .ident f.name :: f.generics

/-- What stands in front of the parameters once `async` is gone. -/
def head (f : AsyncFn) : List Token := f.front ++ f.naming

/-- What stands between the parameters and the body. -/
def clauses (f : AsyncFn) : List Token := f.returnClause ++ f.whereClause

/-- The function without its `async`. -/
def bare (f : AsyncFn) : List Token :=
  f.head ++ .group .paren f.params :: f.clauses ++ [.group .brace f.body]

/-- The place of the body in it. -/
def bodyAt (f : AsyncFn) : Nat := f.head.length + (f.clauses.length + 1)

end AsyncFn

/-! ### Where the searches end -/

variable {name : String} {test : Token → Bool} {pre rest ts : List Token} {t : Token}

theorem removeIdent?_split (h : ∀ u ∈ pre, u.isIdent name = false) :
    removeIdent? name (pre ++ .ident name :: rest) = some (pre ++ rest) := by
  have hfound : (pre ++ .ident name :: rest).any (Token.isIdent name) = true := by simp [Token.isIdent]
  rw [removeIdent?, if_pos hfound, List.eraseP_append_right _ fun u hu => by simp [h u hu],
    List.eraseP_cons_of_pos (by simp [Token.isIdent])]

theorem removeIdent?_eq_none_iff : removeIdent? name ts = none ↔ ∀ t ∈ ts, t.isIdent name = false := by
  simp [removeIdent?]

theorem findIdx?_split (h : ∀ u ∈ pre, test u = false) (ht : test t = true) :
    (pre ++ t :: rest).findIdx? test = some pre.length := by
  rw [List.findIdx?_append, List.findIdx?_eq_none_iff.mpr h, List.findIdx?_cons, if_pos ht]
  simp

theorem lastIdx?_concat (ht : test t = true) : lastIdx? test (ts ++ [t]) = some ts.length := by
  simp [lastIdx?, List.findIdx?_cons, ht]

theorem lastIdx?_eq_none_iff : lastIdx? test ts = none ↔ ∀ t ∈ ts, test t = false := by
  simp [lastIdx?]

/-- A search between two positions sees what lies between them and nothing else. -/
theorem findBetween?_append (test : Token → Bool) (pre mid rest : List Token) :
    findBetween? test pre.length (pre.length + mid.length) (pre ++ mid ++ rest) =
      (mid.findIdx? test).map (pre.length + ·) := by
  rw [findBetween?, List.append_assoc, List.drop_left, Nat.add_sub_cancel_left, List.take_left]

/-- Whether an arrow follows is decided by the two tokens that follow. -/
theorem arrowFollows_append (pre : List Token) (t : Token) (rest : List Token) :
    arrowFollows pre.length (pre ++ t :: rest) =
      ((rest[0]?).any (Token.isPunct '-') && (rest[1]?).any (Token.isPunct '>')) := by
  have hfirst : (pre ++ t :: rest)[pre.length + 1]? = rest[0]? := by
    rw [List.getElem?_append_right (by omega), Nat.add_sub_cancel_left]
    rfl
  have hsecond : (pre ++ t :: rest)[pre.length + 2]? = rest[1]? := by
    rw [List.getElem?_append_right (by omega), Nat.add_sub_cancel_left]
    rfl
  rw [arrowFollows, hfirst, hsecond]

/-! ### Signatures -/

namespace AsyncFn

variable (f : AsyncFn)

theorem removeIdent?_tokens : removeIdent? "async" f.tokens = some f.bare := by
  have hfirst : ∀ u ∈ f.before, u.isIdent "async" = false := fun u hu =>
    f.async_first u (List.mem_append_left _ hu)
  have hcut : f.tokens = f.before ++ .ident "async" :: (f.between ++ (f.naming ++
      .group .paren f.params :: f.clauses ++ [.group .brace f.body])) := by
    simp [tokens, naming, clauses]
  rw [hcut, removeIdent?_split hfirst]
  simp [bare, head, front]

theorem bodyPosition?_bare : bodyPosition? f.bare = some f.bodyAt := by
  rw [bodyPosition?, bare, lastIdx?_concat rfl, bodyAt, List.length_append, List.length_cons]

theorem findIdx?_fn : f.bare.findIdx? (Token.isIdent "fn") = some f.front.length := by
  have hfirst : ∀ u ∈ f.front, u.isIdent "fn" = false := f.fn_first
  have hcut : f.bare = f.front ++ .ident "fn" ::
      (.ident f.name :: f.generics ++ .group .paren f.params :: f.clauses ++ [.group .brace f.body]) := by
    simp [bare, head, naming]
  rw [hcut, findIdx?_split hfirst rfl]

/-- The parameters that are found behind `fn` are those behind the generics. -/
theorem findBetween?_params :
    findBetween? (Token.isGroup .paren) f.front.length f.bodyAt f.bare = some f.head.length := by
  have hfirst : ∀ u ∈ f.naming, u.isGroup .paren = false := by
    intro u hu
    rcases List.mem_cons.mp hu with rfl | hrest
    · rfl
    · rcases List.mem_cons.mp hrest with rfl | hgenerics
      · rfl
      · exact f.params_first u hgenerics
  have hsearch := findBetween?_append (Token.isGroup .paren) f.front
    (f.naming ++ .group .paren f.params :: f.clauses) [.group .brace f.body]
  rw [findIdx?_split hfirst rfl] at hsearch
  simpa [bare, bodyAt, head, Nat.add_assoc] using hsearch

/-- The `where` that is found behind the parameters is the one behind the return type. -/
theorem findBetween?_where : findBetween? (Token.isIdent "where") f.head.length f.bodyAt f.bare =
    f.bounds.map fun _ => f.head.length + (f.returnClause.length + 1) := by
  have hfirst : ∀ u ∈ .group .paren f.params :: f.returnClause, u.isIdent "where" = false := by
    intro u hu
    rcases List.mem_cons.mp hu with rfl | hclause
    · rfl
    · cases htype : f.returns with
      | none => simp [returnClause, htype] at hclause
      | some type =>
          simp only [returnClause, htype, Option.elim_some, List.mem_cons] at hclause
          rcases hclause with rfl | rfl | hmem
          · rfl
          · rfl
          · exact f.bounds_first type htype u hmem
  have hsearch := findBetween?_append (Token.isIdent "where") f.head
    (.group .paren f.params :: f.clauses) [.group .brace f.body]
  rw [List.length_cons] at hsearch
  rw [bodyAt, bare, hsearch, clauses, ← List.cons_append]
  cases hbounds : f.bounds with
  | none =>
      rw [whereClause, hbounds, Option.elim_none, List.append_nil, List.findIdx?_eq_none_iff.mpr hfirst]
      rfl
  | some bounds =>
      rw [whereClause, hbounds, Option.elim_some, findIdx?_split hfirst rfl]
      simp

/-- An arrow follows the parameters exactly if there is a return type. -/
theorem arrowFollows_bare : arrowFollows f.head.length f.bare = f.returns.isSome := by
  rw [bare, List.append_assoc, List.cons_append, arrowFollows_append, clauses]
  cases hreturns : f.returns with
  | some type => simp [returnClause, hreturns, Token.isPunct]
  | none => cases hbounds : f.bounds <;> simp [returnClause, whereClause, hreturns, hbounds, Token.isPunct]

/-- The return type is taken out of the signature, and the bounds behind it stay. -/
theorem takeReturnType_bare : takeReturnType f.bare =
    if f.returns.isSome then
      .returning (f.head ++ .group .paren f.params :: f.whereClause ++ [.group .brace f.body])
    else .plain := by
  have hle : ¬ f.bodyAt < f.front.length := by
    simp [bodyAt, head]
    omega
  have hstop : (f.bounds.map fun _ => f.head.length + (f.returnClause.length + 1)).getD f.bodyAt =
      f.head.length + (f.returnClause.length + 1) := by
    cases hbounds : f.bounds <;> simp [bodyAt, clauses, whereClause, hbounds]
  have hbefore : f.bare.take (f.head.length + 1) = f.head ++ [.group .paren f.params] := by
    simp [bare, List.take_append, List.take_of_length_le]
  have hbehind : f.bare.drop (f.head.length + (f.returnClause.length + 1)) =
      f.whereClause ++ [.group .brace f.body] := by
    simp [bare, clauses, List.drop_append]
  rw [takeReturnType, bodyPosition?_bare, findIdx?_fn]
  simp only [if_neg hle, findBetween?_params, arrowFollows_bare, findBetween?_where, hstop, hbefore, hbehind]
  simp

/-- The signature keeps its tokens but for `async` and the return type, and the body moves into that of a test. -/
theorem expand_tokens : expand f.tokens = .tokens (testMark ++
    (f.head ++ .group .paren f.params :: f.whereClause ++ [testBody f.returns.isSome f.body])) := by
  have hbody : ∀ signature : List Token,
      bodyPosition? (signature ++ [.group .brace f.body]) = some signature.length := fun _ => lastIdx?_concat rfl
  have hset : ∀ (signature : List Token) (t : Token),
      (signature ++ [Token.group .brace f.body]).set signature.length t = signature ++ [t] := by simp
  rw [expand, f.removeIdent?_tokens]
  simp only [f.takeReturnType_bare]
  cases hreturns : f.returns with
  | some type =>
      simp only [Option.isSome_some, if_true, hbody, hset, List.getElem?_concat_length, Option.elim_some, Token.inner]
  | none =>
      have hclauses : f.clauses = f.whereClause := by simp [clauses, returnClause, hreturns]
      simp only [Option.isSome_none, Bool.false_eq_true, if_false, bare, hclauses, hbody, hset,
        List.getElem?_concat_length, Option.elim_some, Token.inner]

end AsyncFn

/-! ### Refused items -/

theorem lt_of_findBetween? {start stop i : Nat} (h : findBetween? test start stop ts = some i) : i < stop := by
  obtain ⟨j, hj, rfl⟩ := Option.map_eq_some_iff.mp h
  have hlt := (List.findIdx?_eq_some_iff_findIdx_eq.mp hj).1
  rw [List.length_take] at hlt
  omega

/-- What is found last is there and passes the test. -/
theorem exists_of_lastIdx? {i : Nat} (h : lastIdx? test ts = some i) : ∃ t, ts[i]? = some t ∧ test t = true := by
  obtain ⟨j, hj, rfl⟩ := Option.map_eq_some_iff.mp h
  obtain ⟨hlt, htest, -⟩ := List.findIdx?_eq_some_iff_getElem.mp hj
  rw [List.getElem_reverse] at htest
  rw [List.length_reverse] at hlt
  exact ⟨_, List.getElem?_eq_getElem (by omega), htest⟩

/-- Taking the return type out leaves the body in. -/
theorem exists_brace_of_returning (h : takeReturnType ts = .returning rest) : ∃ t ∈ rest, t.isGroup .brace = true := by
  rw [takeReturnType] at h
  split at h
  · next body start hbody hstart =>
      split at h
      · cases h
      · split at h
        · cases h
        · next params hparams =>
            split at h
            · cases h
              obtain ⟨t, ht, htest⟩ := exists_of_lastIdx? hbody
              refine ⟨t, List.mem_append_right _ ?_, htest⟩
              -- The search for the bounds ends in front of the body, so the body is not dropped.
              have hle : (findBetween? (Token.isIdent "where") params body ts).getD body ≤ body := by
                cases hwhere : findBetween? (Token.isIdent "where") params body ts with
                | none => exact Nat.le_refl _
                | some i => exact Nat.le_of_lt (lt_of_findBetween? hwhere)
              generalize (findBetween? (Token.isIdent "where") params body ts).getD body = stop at hle ⊢
              have hkept : (ts.drop stop)[body - stop]? = some t := by
                rw [List.getElem?_drop, Nat.add_sub_cancel' hle, ht]
              exact List.mem_of_getElem? hkept
            · cases h
  · cases h

theorem mem_of_removeIdent? (h : removeIdent? name ts = some rest) (ht : t.isGroup .brace = true) :
    t ∈ rest ↔ t ∈ ts := by
  rw [removeIdent?] at h
  split at h
  · cases h
    refine List.mem_eraseP_of_neg ?_
    cases t <;> simp [Token.isGroup, Token.isIdent] at ht ⊢
  · cases h

/-- What the attribute says of an item that it refuses. -/
def refusal (item : List Token) : String :=
  if item.any (Token.isIdent "async") then "#[vinculum::test] expects a function body"
  else "#[vinculum::test] expects an `async fn`"

theorem expand_of_refused {item : List Token}
    (h : (∀ t ∈ item, t.isIdent "async" = false) ∨ ∀ t ∈ item, t.isGroup .brace = false) :
    expand item = .tokens (compileError (refusal item)) := by
  rw [expand]
  cases hts : removeIdent? "async" item with
  | none =>
      have hasync : item.any (Token.isIdent "async") = false := by
        rw [removeIdent?_eq_none_iff] at hts
        simpa using hts
      rw [refusal, hasync]
      rfl
  | some ts =>
      have hsome : removeIdent? "async" item ≠ none := by simp [hts]
      have hbrace := h.resolve_left (mt removeIdent?_eq_none_iff.mpr hsome)
      have hbody : bodyPosition? ts = none := by
        refine lastIdx?_eq_none_iff.mpr fun t ht => ?_
        cases hbody : t.isGroup .brace with
        | false => rfl
        | true => rw [← hbrace t ((mem_of_removeIdent? hts hbody).mp ht), hbody]
      have hasync : item.any (Token.isIdent "async") = true := by
        rw [removeIdent?] at hts
        split at hts
        · assumption
        · cases hts
      have hplain : takeReturnType ts = .plain := by rw [takeReturnType, hbody]
      simp only [hplain, hbody, refusal, hasync, if_true]

/-- An expansion that marks a test is no error. -/
theorem testMark_append_ne (ts : List Token) (message : String) : testMark ++ ts ≠ compileError message := by
  simp [testMark, compileError, rootPath]

theorem expand_ne_compileError {item : List Token} (hasync : ¬ ∀ t ∈ item, t.isIdent "async" = false)
    (hbrace : ¬ ∀ t ∈ item, t.isGroup .brace = false) (message : String) :
    expand item ≠ .tokens (compileError message) := by
  obtain ⟨ts, hts⟩ := Option.ne_none_iff_exists'.mp (mt removeIdent?_eq_none_iff.mp hasync)
  obtain ⟨t, ht, htest⟩ : ∃ t ∈ item, t.isGroup .brace = true := by simpa using hbrace
  have hwraps : ∀ {us : List Token}, (∃ t ∈ us, t.isGroup .brace = true) → ∃ body, bodyPosition? us = some body := by
    rintro us ⟨u, hu, hutest⟩
    refine Option.ne_none_iff_exists'.mp fun hnone => ?_
    rw [lastIdx?_eq_none_iff.mp hnone u hu] at hutest
    cases hutest
  rw [expand, hts]
  intro h
  cases hsignature : takeReturnType ts with
  | aborted => simp only [hsignature, reduceCtorEq] at h
  | plain =>
      obtain ⟨body, hbody⟩ := hwraps ⟨t, (mem_of_removeIdent? hts htest).mpr ht, htest⟩
      simp only [hsignature, hbody, Expansion.tokens.injEq] at h
      exact testMark_append_ne _ message h
  | returning rest =>
      obtain ⟨body, hbody⟩ := hwraps (exists_brace_of_returning hsignature)
      simp only [hsignature, hbody, Expansion.tokens.injEq] at h
      exact testMark_append_ne _ message h

/-! ### What the new body does -/

/-- How a task is made of a block. -/
inductive Maker where
  /-- The block ends with a result. -/
  | new
  /-- The block ends with a plain value. -/
  | fromFuture

/-- What comes of a test; `ε` is the type of errors. -/
inductive Verdict (ε : Type) where
  | passes
  /-- It panics with the text that this literal gives, in which `error` is this error. -/
  | panics (literal : String) (error : ε)

/-- A test passes unless it has waited for an error. -/
def Verdict.of {ε : Type} (literal : String) : Except ε Unit → Verdict ε
  | .ok () => passes
  | .error e => panics literal e

/-- Reads a path that starts at the root of all names, and gives what follows it. -/
def readPath : List Token → List String × List Token
  | .punct ':' :: .punct ':' :: .ident name :: rest => (name :: (readPath rest).1, (readPath rest).2)
  | ts => ([], ts)

/-- How a task expression makes its task, and of which block. -/
def taskOf? (ts : List Token) : Option (Maker × List Token) :=
  match readPath ts with
  | (["vinculum", "Task", maker], [.group .paren [.ident "async", .ident "move", .group .brace block]]) =>
    match maker with
    | "new" => some (.new, block)
    | "from_future" => some (.fromFuture, block)
    | _ => none
  | _ => none

/-- The literal of a panic. -/
def panicOf? (ts : List Token) : Option String :=
  match readPath ts with
  | (["core", "panic"], [.punct '!', .group .paren [.literal text], .punct ';']) => some text
  | _ => none

/-- Runs the body of a test: a block that waits for a task, and panics if that has come to an error.  `wait`
says what each task comes to. -/
def verdict? {ε : Type} (wait : Maker → List Token → Except ε Unit) (body : List Token) : Option (Verdict ε) :=
  match body with
  | [.group .brace (.ident "if" :: .ident "let" :: pattern)] =>
    match readPath pattern with
    | (["core", "result", "Result", "Err"], .group .paren [.ident "error"] :: .punct '=' :: value) =>
      match readPath value with
      | (["vinculum", "sync_wait"], [.group .paren task, .group .brace failure]) => do
        let (maker, block) ← taskOf? task
        let literal ← panicOf? failure
        return .of literal (wait maker block)
      | _ => none
    | _ => none
  | _ => none

theorem verdict?_testBody (returnsResult : Bool) (block : List Token) :
    ∃ body, testBody returnsResult block = .group .brace body ∧
      ∀ (ε : Type) (wait : Maker → List Token → Except ε Unit), verdict? wait body =
        some (.of (Text.quoted "test task failed: \x7berror\x7d")
          (wait (if returnsResult then .new else .fromFuture) block)) := by
  refine ⟨_, rfl, fun ε wait => ?_⟩
  cases returnsResult
  · simp [verdict?, readPath, rootPath, taskOf?, panicOf?]
  · simp [verdict?, readPath, rootPath, taskOf?, panicOf?]

/-! ### The attribute -/

/-- **The test attribute changes an async function into a test of its body, and changes nothing else.**

* A function becomes the mark of a test and the function itself, without its `async` and its return type, and
  with a new body.  All other tokens stay as they are and where they are.  The new body waits for one task, made
  of exactly the tokens of the old body, which ends with a result if there was a return type, and else with a
  plain value; and it panics if the task has come to an error.
* An item without `async` or without a body becomes an error that has no token of the item, and no other item
  becomes an error. -/
theorem expansion_is_faithful :
    (∀ f : AsyncFn, ∃ body,
      expand f.tokens = .tokens ([.punct '#', .group .bracket [.ident "test"]] ++ f.plainTokens body) ∧
        ∀ (ε : Type) (wait : Maker → List Token → Except ε Unit), verdict? wait body =
          some (.of (Text.quoted "test task failed: \x7berror\x7d")
            (wait (if f.returns.isSome then .new else .fromFuture) f.body))) ∧
      ∀ item : List Token,
        ((∀ t ∈ item, t.isIdent "async" = false) ∨ (∀ t ∈ item, t.isGroup .brace = false) →
          expand item = .tokens (compileError (refusal item))) ∧
        (¬ (∀ t ∈ item, t.isIdent "async" = false) → ¬ (∀ t ∈ item, t.isGroup .brace = false) →
          ∀ message, expand item ≠ .tokens (compileError message)) := by
  refine ⟨fun f => ?_, fun item => ⟨expand_of_refused, expand_ne_compileError⟩⟩
  obtain ⟨body, hbody, hverdict⟩ := verdict?_testBody f.returns.isSome f.body
  refine ⟨body, ?_, hverdict⟩
  rw [f.expand_tokens, hbody]
  simp [testMark, AsyncFn.plainTokens, AsyncFn.head, AsyncFn.front, AsyncFn.naming]

/-- An `async fn` inside an attribute, a visibility in parentheses, braces in the generics, the parameters, the
return type and the bounds, and a body that has an `async` and braces itself.  An item without a body is an
error. -/
theorem expansion_is_faithful_to_braces :
    let array : Token := .group .bracket [.ident "u8", .punct ';', .group .brace [.ident "N"]]
    let generics : List Token :=
      [.punct '<', .ident "const", .ident "N", .punct ':', .ident "usize", .punct '=', .group .brace [.literal "3"],
        .punct '>']
    let f : AsyncFn := {
      before := [.punct '#', .group .bracket [.ident "only", .group .paren [.ident "async", .ident "fn"]], .ident "pub",
        .group .paren [.ident "crate"]]
      between := [.ident "unsafe"]
      name := "reads"
      generics
      params := [.ident "n", .punct ':', array]
      returns := some [.ident "Tagged", .punct '<', .group .brace [.literal "3"], .punct '>']
      bounds := some [array, .punct ':', .ident "Copy"]
      body := [.ident "async", .group .brace [], .punct '.', .ident "await"]
      async_first := by decide
      fn_first := by decide
      params_first := by simp [generics, Token.isGroup]
      bounds_first := by simp [Token.isIdent] }
    (∃ body,
      expand f.tokens = .tokens (
        [.punct '#', .group .bracket [.ident "test"],
          .punct '#', .group .bracket [.ident "only", .group .paren [.ident "async", .ident "fn"]], .ident "pub",
          .group .paren [.ident "crate"], .ident "unsafe", .ident "fn", .ident "reads"] ++ generics ++
        [.group .paren [.ident "n", .punct ':', array], .ident "where", array, .punct ':', .ident "Copy",
          .group .brace body]) ∧
        verdict? (fun _ block => .error block.length) body =
          some (.panics (Text.quoted "test task failed: \x7berror\x7d") 4)) ∧
      (∀ t ∈ [Token.ident "async", .ident "fn", .ident "reads", .group .paren [], .punct ';'],
        t.isGroup .brace = false) ∧
      expand [.ident "async", .ident "fn", .ident "reads", .group .paren [], .punct ';'] =
        .tokens (compileError "#[vinculum::test] expects a function body") := by
  intro array generics f
  obtain ⟨hfunctions, hitems⟩ := expansion_is_faithful
  obtain ⟨body, hexpand, hverdict⟩ := hfunctions f
  have hbrace : ∀ t ∈ [Token.ident "async", .ident "fn", .ident "reads", .group .paren [], .punct ';'],
      t.isGroup .brace = false := by decide
  exact ⟨⟨body, hexpand, hverdict Nat fun _ block => .error block.length⟩, hbrace, (hitems _).1 (Or.inr hbrace)⟩

end TaskDispatch.TestAttribute
