import ModuleBundler.Grammar.Module

/-!
# ModuleBundler — the loops of the parser

The grammar repeats phrases in lists, in chains of accesses and operators and in
the substitutions of a template. All these loops are one: a round either leaves
the loop with a value or goes on with what it has gathered, and the loop is given
a number of rounds.

* `loop` — a loop that is given its round.
* `manyRound`, `listRound`, `separatedRound`, `accessRound`, `operationRound`,
  `substitutionRound` — the rounds of the grammar. Its loops consist of them.
* `propertyEntry`, `literalEntry`, `arrowParts`, … — parts of phrases that the grammar has no
  names for.
-/

namespace ModuleBundler.Grammar

/-- Rounds one after the other, from what was gathered before on, until one of them
leaves the loop. -/
def loop {σ β : Type} (round : σ → Parser (σ ⊕ β)) : Nat → σ → Parser β
  | 0, _ => exhausted
  | n + 1, x => do
    match ← round x with
    | .inl y => loop round n y
    | .inr b => return b

/-- A fault ends all that follows. -/
@[simp] theorem fail_bind {α β : Type} (fault : SyntaxFault) (f : α → Parser β) :
    (fail fault >>= f) = fail fault := rfl

section Rounds

variable {α : Type}

/-- An item of a list, unless the list ends. -/
def manyRound (ends : TokenKind → Bool) (item : Parser α) (acc : List α) :
    Parser (List α ⊕ List α) := do
  if ends (← kind) then return .inr acc.reverse
  return .inl ((← item) :: acc)

theorem many_go_eq (ends : TokenKind → Bool) (item : Parser α) (n : Nat) (acc : List α) :
    many.go ends item n acc = loop (manyRound ends item) n acc := by
  induction n generalizing acc with
  | zero => rfl
  | succ n ih =>
    simp only [many.go, loop, manyRound, bind_assoc, ih]
    refine bind_congr fun k => ?_
    split <;> simp

/-- An entry of a comma-separated list and its comma, unless the list ends. -/
def listRound (closing : Punctuator) (entry : Parser (Entry α)) (acc : List α) :
    Parser (List α ⊕ List α) := do
  if ← isAt (.punct closing) then return .inr acc.reverse
  match ← entry with
  | .plain a =>
    if !(← isAt (.punct closing)) then expect (.punct .comma)
    return .inl (a :: acc)
  | .whole a => return .inl (a :: acc)
  | .last a => return .inr (a :: acc).reverse

theorem listUntil_go_eq (closing : Punctuator) (entry : Parser (Entry α)) (n : Nat)
    (acc : List α) :
    listUntil.go closing entry n acc = loop (listRound closing entry) n acc := by
  induction n generalizing acc with
  | zero => rfl
  | succ n ih =>
    simp only [listUntil.go, loop, listRound, bind_assoc, ih]
    refine bind_congr fun closes => ?_
    split
    · simp
    · simp only [bind_assoc]
      refine bind_congr fun e => ?_
      cases e with
      | plain a =>
        simp only [bind_assoc]
        refine bind_congr fun closes => ?_
        split <;> simp
      | whole a => simp
      | last a => simp

/-- A comma and the item after it, unless there is no comma. -/
def separatedRound (item : Parser α) (acc : List α) : Parser (List α ⊕ List α) := do
  if ← accept (.punct .comma) then return .inl ((← item) :: acc) else return .inr acc.reverse

theorem separated_go_eq (item : Parser α) (n : Nat) (acc : List α) :
    separated.go item n acc = loop (separatedRound item) n acc := by
  induction n generalizing acc with
  | zero => rfl
  | succ n ih =>
    simp only [separated.go, loop, separatedRound, bind_assoc, ih]
    refine bind_congr fun taken => ?_
    split <;> simp

end Rounds

/-- A statement in braces, which have to be closed. -/
def bracedStatement (g : Reading) : Parser Node := do
  if ← isAt .endOfFile then fail (.expected (.punct .closeBrace)) else g .statement

/-- A member of a class, or a semicolon between members. -/
def bracedMember (g : Reading) : Parser (Option Node) := do
  if ← accept (.punct .semicolon) then return none
  else if ← isAt .endOfFile then fail (.expected (.punct .closeBrace))
  else return some (← classMember g)

/-- An entry of an object pattern. -/
def propertyEntry (g : Reading) : Parser (Entry Node) := do
  if ← isAt (.punct .ellipsis) then return .last (← restElement g)
  else return .plain (← patternProperty g)

/-- An entry of an array pattern. -/
def elementEntry (g : Reading) : Parser (Entry (Option Node)) := do
  if ← accept (.punct .comma) then return .whole none
  else if ← isAt (.punct .ellipsis) then return .last (some (← restElement g))
  else return .plain (some (← bindingElement g))

/-- An entry of a list of parameters. -/
def parameterEntry (g : Reading) : Parser (Entry Node) := do
  if ← isAt (.punct .ellipsis) then return .last (← restElement g)
  else return .plain (← bindingElement g)

/-- An entry of an array literal. -/
def literalEntry (g : Reading) : Parser (Entry (Option Node)) := do
  if ← accept (.punct .comma) then return .whole none
  else return .plain (some (← allowIn (spreadable g)))

/-- An arrow function from the line break before its arrow on. -/
def arrowEnd (g : Reading) (start : Nat) (isAsync : Bool) (params : List Node) : Parser Node := do
  if ← afterLineBreak then fail .lineBreakBeforeArrow
  expect (.punct .arrow)
  let body ← arrowBody g
  nodeFrom start (.arrowFunction params body isAsync)

/-- An arrow function from its parameters on. -/
def arrowParts (g : Reading) (start : Nat) (isAsync : Bool) : Parser Node := do
  let params ←
    if ← isAt (.punct .openParen) then parameters g else (fun p => [p]) <$> identifier
  arrowEnd g start isAsync params

theorem arrowFunction_eq (g : Reading) : arrowFunction g = (do
    let start ← position
    let t ← current
    let isAsync := t.kind = .word .asyncKw && t.next.kind ≠ .punct .arrow
    if isAsync then advance
    arrowParts g start isAsync) := rfl

/-- An access, call or template that follows an expression, unless none does. -/
def accessRound (g : Reading) (start : Nat) (calls : Bool) :
    Bool × Node → Parser ((Bool × Node) ⊕ Node)
  | (isOptional, e) => do
    match ← kind with
    | .punct .dot =>
      advance
      let property ← memberName
      return .inl (isOptional, ← nodeFrom start (.memberExpression e property false false))
    | .punct .questionDot =>
      if calls then
        advance
        return .inl (true, ← optionalAccess g start e)
      else return .inr e
    | .punct .openBracket =>
      let property ← computedMember g
      return .inl (isOptional, ← nodeFrom start (.memberExpression e property true false))
    | .templateWhole | .templateHead =>
      if isOptional then fail .templateInOptionalChain
      else
        let quasi ← templateLiteral g
        return .inl (isOptional, ← nodeFrom start (.taggedTemplate e quasi))
    | .punct .openParen =>
      if calls then
        let values ← arguments g
        return .inl (isOptional, ← nodeFrom start (.callExpression e values false))
      else return .inr e
    | _ => return .inr e

theorem accesses_eq (g : Reading) (start : Nat) (calls : Bool) (n : Nat) (isOptional : Bool)
    (e : Node) :
    accesses g start calls n isOptional e = loop (accessRound g start calls) n (isOptional, e) := by
  induction n generalizing isOptional e with
  | zero => rfl
  | succ n ih =>
    simp only [accesses, loop, accessRound, bind_assoc, ih]
    refine bind_congr fun k => ?_
    split
    · simp
    · split <;> simp
    · simp
    · split <;> simp
    · split <;> simp
    · split <;> simp
    · simp

/-- An operator and its right operand, unless none follows that binds tighter. -/
def operationRound (g : Reading) (start above : Nat) (left : Node) : Parser (Node ⊕ Node) := do
  let op ← kind
  if ← goesOn op above then
    advance
    let right ← g (.binary (rightPrecedence op))
    return .inl (← nodeFrom start (.binaryExpression op left right))
  else return .inr left

theorem operations_eq (g : Reading) (start above n : Nat) (left : Node) :
    operations g start above n left = loop (operationRound g start above) n left := by
  induction n generalizing left with
  | zero => rfl
  | succ n ih =>
    simp only [operations, loop, operationRound, bind_assoc, ih]
    refine bind_congr fun op => bind_congr fun more => ?_
    split <;> simp

/-- The expression of a substitution, up to the brace that closes it. -/
def substituted (g : Reading) : Parser Node := do
  let e ← allowIn (expression g)
  if !(← isAt (.punct .closeBrace)) then fail (.expected (.punct .closeBrace))
  return e

/-- The piece of text behind a substitution, which is the last one or comes before another
substitution. It is not taken. -/
def pieceRound (quasis : List String) (expressions : List Node) :
    Parser ((List String × List Node) ⊕ (List String × List Node)) := do
  reread Token.asTemplate
  let piece ← current
  match piece.kind with
  | .templateMiddle => return .inl (piece.value :: quasis, expressions)
  | .templateTail => return .inr ((piece.value :: quasis).reverse, expressions.reverse)
  | _ => fail .unclosedTemplate

/-- From one piece of a template to the next one. -/
def substitutionRound (g : Reading) :
    List String × List Node →
      Parser ((List String × List Node) ⊕ (List String × List Node))
  | (quasis, expressions) => do
    advance
    let e ← substituted g
    pieceRound quasis (e :: expressions)

theorem substitutions_eq (g : Reading) (n : Nat) (quasis : List String)
    (expressions : List Node) :
    substitutions g n quasis expressions =
      loop (substitutionRound g) n (quasis, expressions) := by
  induction n generalizing quasis expressions with
  | zero => rfl
  | succ n ih =>
    simp only [substitutions, loop, substitutionRound, substituted, pieceRound, bind_assoc, ih]
    refine bind_congr fun _ => bind_congr fun e => bind_congr fun closes => ?_
    split
    · simp
    · simp only [pure_bind]
      refine bind_congr fun _ => bind_congr fun piece => ?_
      by_cases hmiddle : piece.kind = .templateMiddle
      · simp [hmiddle]
      · by_cases htail : piece.kind = .templateTail
        · simp [htail]
        · simp [fail_bind]

end ModuleBundler.Grammar
