import LiveModules.Script.Lexeme
import LiveModules.Script.Syntax

/-!
# Reading syntax

A reader takes lexemes from the front of a list and keeps track of the variables in scope. It stops
at the first fault, in the order in which the lexemes come. `readExpr` and `readBlock` tie the rules
together; fuel bounds how deep they nest.
-/

namespace LiveModules.Script

namespace Grammar

structure LocalName where
  name : List Char
  readOnly : Bool

/-- What is in scope in one function, the latest variable first. -/
structure FunctionScope where
  vars : List LocalName
  variadic : Bool
  /-- The labels that were met, with their lines. -/
  labels : List (List Char × Nat)

structure State where
  lexemes : List Lexeme
  fault : Option SyntaxFault
  chunk : ByteArray
  /-- The line of the lexeme that was taken last. -/
  lastLine : Nat
  /-- The functions that are being read, the innermost first. -/
  scopes : List FunctionScope

abbrev Reader := StateT State (Except SyntaxFault)

/-! ## Lexemes -/

def endLexeme : Lexeme := ⟨.eof, Lexeme.showEnd, 0⟩

/-- The lexeme in front; a malformed one is a fault. -/
def peek : Reader Lexeme := do
  let s ← get
  match s.lexemes, s.fault with
  | l :: _, _ => return l
  | [], some f => throw f
  | [], none => return endLexeme

/-- The lexeme behind the one in front. -/
def peekSecond : Reader Lexeme := do
  let s ← get
  match s.lexemes.drop 1, s.fault with
  | l :: _, _ => return l
  | [], some f => throw f
  | [], none => return endLexeme

def advance : Reader Unit := do
  let l ← peek
  modify fun s => { s with lexemes := s.lexemes.drop 1, lastLine := l.line }
  let _ ← peek

def line : Reader Nat := return (← peek).line

def posAt (line : Nat) : Reader Pos := return ⟨(← get).chunk, line⟩

/-- The position of the lexeme that was taken last. -/
def lastPos : Reader Pos := do posAt (← get).lastLine

/-- A fault at the lexeme in front. -/
def failAt {α : Type} (message : List Char) : Reader α := do
  let l ← peek
  throw ⟨message ++ " near ".toList ++ l.shown, l.line⟩

def fail {α : Type} (message : String) : Reader α := failAt message.toList

/-- A fault of meaning, which names no lexeme. -/
def failPlain {α : Type} (message : List Char) : Reader α := do throw ⟨message, (← peek).line⟩

def isSign (s : String) (l : Lexeme) : Bool :=
  match l.token with
  | .sign t => t == s
  | _ => false

def seesSign (s : String) : Reader Bool := return isSign s (← peek)

/-- Takes the sign if it is in front. -/
def tryTake (s : String) : Reader Bool := do
  if ← seesSign s then
    advance
    return true
  else return false

def expected {α : Type} (what : String) : Reader α := fail (what ++ " expected")

def quote (s : String) : String := "'" ++ s ++ "'"

def take (s : String) : Reader Unit := do
  if !(← tryTake s) then expected (quote s)

/-- Takes the sign that closes what `opening` opened on line `start`. -/
def takeClosing (s opening : String) (start : Nat) : Reader Unit := do
  if !(← tryTake s) then
    if (← line) = start then expected (quote s)
    else fail (quote s ++ " expected (to close " ++ quote opening ++ " at line " ++
      toString start ++ ")")

def takeName : Reader (List Char) := do
  match (← peek).token with
  | .name s =>
    advance
    return s
  | _ => expected "<name>"

/-- Whether a block ends here. -/
def blockEnds (untilEnds : Bool) : Reader Bool := do
  match (← peek).token with
  | .eof => return true
  | .sign s =>
    return s == "else" || s == "elseif" || s == "end" || (untilEnds && s == "until")
  | _ => return false

/-! ## Scopes -/

def currentScope : Reader FunctionScope :=
  return (← get).scopes.headD ⟨[], true, []⟩

def setScope (f : FunctionScope) : Reader Unit :=
  modify fun s => { s with scopes := f :: s.scopes.drop 1 }

def declareLocal (name : List Char) (readOnly : Bool) : Reader Unit := do
  let f ← currentScope
  setScope { f with vars := ⟨name, readOnly⟩ :: f.vars }

/-- Reads with the variables and labels so far, and forgets those that it adds. -/
def inScope {α : Type} (r : Reader α) : Reader α := do
  let before ← currentScope
  let a ← r
  setScope before
  return a

/-- How many variables are in scope. -/
def depth : Reader Nat := return (← get).scopes.foldl (fun n f => n + f.vars.length) 0

/-- Finds a variable: its place, whether it is of an enclosing function, whether it is constant. -/
def find? (name : List Char) : Nat → Bool → List FunctionScope → Option (Nat × Bool × Bool)
  | _, _, [] => none
  | skipped, outer, f :: rest =>
    match f.vars.findIdx? (·.name == name) with
    | some i => some (skipped + i, outer, (f.vars[i]?.map (·.readOnly)).getD false)
    | none => find? name (skipped + f.vars.length) true rest

/-- What a name means, which was taken last. -/
def resolve (name : List Char) : Reader Expr := do
  let scopes := (← get).scopes
  match find? name 0 false scopes with
  | some (slot, outer, _) => return .var ⟨slot, bytesOf name, outer⟩
  | none =>
    if name = "_ENV".toList then return .env
    match find? "_ENV".toList 0 false scopes with
    | some (slot, outer, _) =>
      return .index (.var ⟨slot, "_ENV".toUTF8, outer⟩) (.str (bytesOf name)) (← lastPos)
    | none => return .global (bytesOf name) (← lastPos)

/-- Refuses to assign to a constant. -/
def checkAssignable (e : Expr) : Reader Unit := do
  match e with
  | .var v =>
    let name := charsOf v.name
    match find? name 0 false (← get).scopes with
    | some (_, _, true) =>
      failPlain ("attempt to assign to const variable '".toList ++ name ++ ['\''])
    | _ => pure ()
  | _ => pure ()

/-! ## Jumps -/

/-- A jump that finds no place: the label, or none for a break, and its line. -/
abbrev LostJump := Option (List Char) × Nat

def labelsOf : List Stmt → List (List Char)
  | [] => []
  | .label name _ :: rest => charsOf name :: labelsOf rest
  | _ :: rest => labelsOf rest

mutual

/-- The first jump of a block that finds no place, the labels in `seen` being visible. -/
def lostInBlock (seen : List (List Char)) (inLoop : Bool) : List Stmt → Option LostJump
  | [] => none
  | s :: rest => (lostInStmt seen inLoop s).or (lostInBlock seen inLoop rest)

def lostInStmt (seen : List (List Char)) (inLoop : Bool) : Stmt → Option LostJump
  | .stop line => if inLoop then none else some (none, line)
  | .jump name line => if seen.contains (charsOf name) then none else some (charsOf name, line)
  | .scope b => lostInBlock (labelsOf b ++ seen) inLoop b
  | .whileLoop _ b => lostInBlock (labelsOf b ++ seen) true b
  | .countLoop _ _ _ b _ => lostInBlock (labelsOf b ++ seen) true b
  | .eachLoop _ _ b _ => lostInBlock (labelsOf b ++ seen) true b
  | .branch cases b =>
    (lostInCases seen inLoop cases).or (lostInBlock (labelsOf b ++ seen) inLoop b)
  | _ => none

def lostInCases (seen : List (List Char)) (inLoop : Bool) :
    List (Expr × List Stmt) → Option LostJump
  | [] => none
  | (_, b) :: rest =>
    (lostInBlock (labelsOf b ++ seen) inLoop b).or (lostInCases seen inLoop rest)

end

/-- Refuses a function with a jump that finds no place. -/
def checkJumps (block : List Stmt) : Reader Unit :=
  match lostInBlock (labelsOf block) false block with
  | none => pure ()
  | some (none, at_) => failPlain ("break outside a loop at line " ++ toString at_).toList
  | some (some name, at_) =>
    failPlain ("no visible label '".toList ++ name ++ "' for <goto> at line ".toList ++
      (toString at_).toList)

/-! ## Expressions -/

/-- The rules that the others are stated over. -/
structure Rules where
  /-- An expression of operators that bind tighter than the limit. -/
  expr : Nat → Reader Expr
  block : Reader (List Stmt)

def Rules.any (r : Rules) : Reader Expr := r.expr 0

/-- Expressions between commas; `fuel` is more than there are. -/
def exprList (r : Rules) : Nat → Reader (List Expr)
  | 0 => return []
  | fuel + 1 => do
    let e ← r.any
    if ← tryTake "," then return e :: (← exprList r fuel)
    else return [e]

/-- How many lexemes are left, which bounds every repetition. -/
def remaining : Reader Nat := return (← get).lexemes.length + 1

def exprs (r : Rules) : Reader (List Expr) := do exprList r (← remaining)

/-- Parameters up to the closing bracket: how many have names, and whether more may follow. -/
def params : Nat → Nat → Reader (Nat × Bool)
  | 0, count => return (count, false)
  | fuel + 1, count => do
    match (← peek).token with
    | .name s =>
      advance
      declareLocal s false
      if ← tryTake "," then params fuel (count + 1) else return (count + 1, false)
    | .sign "..." =>
      advance
      return (count, true)
    | _ => fail "<name> or '...' expected"

/-- A function from its parameters on; a method has one more, in front. -/
def functionBody (r : Rules) (isMethod : Bool) (start : Nat) : Reader Body := do
  modify fun s => { s with scopes := ⟨[], false, []⟩ :: s.scopes }
  if isMethod then declareLocal "self".toList false
  take "("
  let (named, variadic) ←
    if ← seesSign ")" then pure (0, false) else do params (← remaining) 0
  take ")"
  let f ← currentScope
  setScope { f with variadic }
  let block ← r.block
  takeClosing "end" "function" start
  checkJumps block
  modify fun s => { s with scopes := s.scopes.drop 1 }
  return .mk (if isMethod then named + 1 else named) variadic block

def keyInBrackets (r : Rules) : Reader Expr := do
  advance
  let key ← r.any
  take "]"
  return key

def tableItem (r : Rules) : Reader Item := do
  let keyed (key : Expr) : Reader Item := do
    take "="
    let value ← r.any
    return .keyed key value (← lastPos)
  match (← peek).token with
  | .name s =>
    if isSign "=" (← peekSecond) then
      advance
      keyed (.str (bytesOf s))
    else return .positional (← r.any)
  | .sign "[" => do keyed (← keyInBrackets r)
  | _ => return .positional (← r.any)

def tableItems (r : Rules) : Nat → Reader (List Item)
  | 0 => return []
  | fuel + 1 => do
    if ← seesSign "\x7d" then return []
    let item ← tableItem r
    if ← tryTake "," then return item :: (← tableItems r fuel)
    else if ← tryTake ";" then return item :: (← tableItems r fuel)
    else return [item]

def tableExpr (r : Rules) : Reader Expr := do
  let start ← line
  take "\x7b"
  let items ← tableItems r (← remaining)
  takeClosing "\x7d" "\x7b" start
  return .table items

/-- The arguments of a call, with the line on which they begin. -/
def arguments (r : Rules) : Reader (List Expr × Pos) := do
  let start ← line
  let pos ← posAt start
  match (← peek).token with
  | .sign "(" =>
    advance
    if ← seesSign ")" then
      advance
      return ([], pos)
    let args ← exprs r
    takeClosing ")" "(" start
    return (args, pos)
  | .sign "\x7b" => return ([← tableExpr r], pos)
  | .str s =>
    advance
    return ([.str (bytesOf s)], pos)
  | _ => fail "function arguments expected"

def primary (r : Rules) : Reader Expr := do
  let l ← peek
  match l.token with
  | .name s =>
    advance
    resolve s
  | .sign "(" =>
    advance
    let e ← r.any
    takeClosing ")" "(" l.line
    return .one e
  | _ => fail "unexpected symbol"

def suffixes (r : Rules) : Nat → Expr → Reader Expr
  | 0, e => return e
  | fuel + 1, e => do
    match (← peek).token with
    | .sign "." =>
      advance
      let name ← takeName
      suffixes r fuel (.index e (.str (bytesOf name)) (← lastPos))
    | .sign "[" =>
      let key ← keyInBrackets r
      suffixes r fuel (.index e key (← lastPos))
    | .sign ":" =>
      advance
      let name ← takeName
      let (args, pos) ← arguments r
      suffixes r fuel (.method e (bytesOf name) args pos)
    | .sign "(" | .sign "\x7b" | .str _ =>
      let (args, pos) ← arguments r
      suffixes r fuel (.call e args pos)
    | _ => return e

def suffixed (r : Rules) : Reader Expr := do
  let e ← primary r
  suffixes r (← remaining) e

def simple (r : Rules) : Reader Expr := do
  let l ← peek
  let done (e : Expr) : Reader Expr := do
    advance
    return e
  match l.token with
  | .num n => done (.num n)
  | .str s => done (.str (bytesOf s))
  | .sign "nil" => done .nil
  | .sign "true" => done (.bool true)
  | .sign "false" => done (.bool false)
  | .sign "..." =>
    if !(← currentScope).variadic then fail "cannot use '...' outside a vararg function"
    done .varargs
  | .sign "\x7b" => tableExpr r
  | .sign "function" =>
    advance
    return .function (← functionBody r false (← line))
  | _ => suffixed r

inductive Operator where
  | plain (op : BinOp)
  | both
  | either

/-- An operator with how tightly it binds to its left and to its right. -/
def operator? (l : Lexeme) : Option (Operator × Nat × Nat) :=
  let plain (op : BinOp) (left right : Nat) : Option (Operator × Nat × Nat) :=
    some (.plain op, left, right)
  match l.token with
  | .sign s =>
    match s with
    | "+" => plain .add 10 10
    | "-" => plain .sub 10 10
    | "*" => plain .mul 11 11
    | "%" => plain .mod 11 11
    | "^" => plain .pow 14 13
    | "/" => plain .div 11 11
    | "//" => plain .floorDiv 11 11
    | "&" => plain .bitAnd 6 6
    | "|" => plain .bitOr 4 4
    | "~" => plain .bitXor 5 5
    | "<<" => plain .shiftLeft 7 7
    | ">>" => plain .shiftRight 7 7
    | ".." => plain .concat 9 8
    | "==" => plain .eq 3 3
    | "~=" => plain .ne 3 3
    | "<" => plain .lt 3 3
    | "<=" => plain .le 3 3
    | ">" => plain .gt 3 3
    | ">=" => plain .ge 3 3
    | "and" => some (.both, 2, 2)
    | "or" => some (.either, 1, 1)
    | _ => none
  | _ => none

def unary? (l : Lexeme) : Option UnOp :=
  match l.token with
  | .sign "-" => some .neg
  | .sign "not" => some .not
  | .sign "#" => some .len
  | .sign "~" => some .bitNot
  | _ => none

/-- How tightly an operator in front of its operand binds. -/
def unaryLimit : Nat := 12

def operators (r : Rules) (limit : Nat) : Nat → Expr → Reader Expr
  | 0, e => return e
  | fuel + 1, e => do
    let l ← peek
    match operator? l with
    | none => return e
    | some (op, left, right) =>
      if left ≤ limit then return e
      advance
      let e' ← r.expr right
      let pos ← posAt l.line
      let behind ← lastPos
      operators r limit fuel (match op with
        | .plain .concat => .concatAt pos (.binary .concat e e' pos)
        | .plain op => .binary op e e' (if op.isComparison then behind else pos)
        | .both => .both e e'
        | .either => .either e e')

def exprWith (r : Rules) (limit : Nat) : Reader Expr := do
  let l ← peek
  let first ← match unary? l with
    | some op =>
      advance
      let e ← r.expr unaryLimit
      pure (.unary op e (← posAt l.line))
    | none => simple r
  operators r limit (← remaining) first

/-! ## Statements -/

def nestedBlock (r : Rules) : Reader (List Stmt) := inScope r.block

def branches (r : Rules) (start : Nat) : Nat → Reader (List (Expr × List Stmt) × List Stmt)
  | 0 => return ([], [])
  | fuel + 1 => do
    advance
    let condition ← r.any
    take "then"
    let block ← nestedBlock r
    if ← seesSign "elseif" then
      let (cases, otherwise) ← branches r start fuel
      return ((condition, block) :: cases, otherwise)
    else
      let otherwise ← if ← tryTake "else" then nestedBlock r else pure []
      takeClosing "end" "if" start
      return ([(condition, block)], otherwise)

/-- The block of a loop, with the position of the word before it. -/
def loopBlock (r : Rules) (start : Nat) : Reader (List Stmt × Pos) := do
  take "do"
  let pos ← lastPos
  let block ← nestedBlock r
  takeClosing "end" "for" start
  return (block, pos)

/-- Further names behind commas. -/
def moreNames : Nat → Reader (List (List Char))
  | 0 => return []
  | fuel + 1 => do
    if ← tryTake "," then
      let name ← takeName
      return name :: (← moreNames fuel)
    else return []

def forStatement (r : Rules) (start : Nat) : Reader Stmt := do
  advance
  let name ← takeName
  match (← peek).token with
  | .sign "=" =>
    advance
    let first ← r.any
    take ","
    let last ← r.any
    let step ← if ← tryTake "," then some <$> r.any else pure none
    let (block, pos) ← inScope do
      declareLocal name false
      loopBlock r start
    return .countLoop first last step block pos
  | .sign "," | .sign "in" =>
    let names ← moreNames (← remaining)
    take "in"
    let at_ ← line
    let values ← exprs r
    let (block, _) ← inScope do
      (name :: names).forM fun n => declareLocal n false
      loopBlock r start
    return .eachLoop (names.length + 1) values block (← posAt at_)
  | _ => fail "'=' or 'in' expected"

/-- Names of local variables, each with whether it is constant. -/
def localNames : Nat → Reader (List (List Char × Bool))
  | 0 => return []
  | fuel + 1 => do
    let name ← takeName
    let readOnly ←
      if ← tryTake "<" then
        let attrib ← takeName
        take ">"
        if attrib = "const".toList ∨ attrib = "close".toList then pure true
        else failPlain ("unknown attribute '".toList ++ attrib ++ ['\''])
      else pure false
    if ← tryTake "," then return (name, readOnly) :: (← localNames fuel)
    else return [(name, readOnly)]

def localStatement (r : Rules) (start : Nat) : Reader Stmt := do
  advance
  if ← tryTake "function" then
    let name ← takeName
    declareLocal name false
    return .declareFunction (← functionBody r false start)
  else
    let names ← localNames (← remaining)
    let values ← if ← tryTake "=" then exprs r else pure []
    names.forM fun n => declareLocal n.1 n.2
    return .declare names.length values

/-- The fields behind the name of a function that is not local. -/
def functionFields : Nat → Expr → Reader (Expr × Bool)
  | 0, e => return (e, false)
  | fuel + 1, e => do
    let l ← peek
    match l.token with
    | .sign "." =>
      advance
      let name ← takeName
      functionFields fuel (.index e (.str (bytesOf name)) (← lastPos))
    | .sign ":" =>
      advance
      let name ← takeName
      return (.index e (.str (bytesOf name)) (← lastPos), true)
    | _ => return (e, false)

def functionStatement (r : Rules) (start : Nat) : Reader Stmt := do
  advance
  let name ← takeName
  let (target, isMethod) ← functionFields (← remaining) (← resolve name)
  let body ← functionBody r isMethod start
  checkAssignable target
  return .assign [target.storedAt (← posAt start)] [.function body]

def returnStatement (r : Rules) : Reader Stmt := do
  advance
  let values ← if (← blockEnds true) || (← seesSign ";") then pure [] else exprs r
  let _ ← tryTake ";"
  match values with
  | [.call f args pos] => return .leaveCall f args pos
  | [.method o name args pos] => return .leaveMethod o name args pos
  | _ => return .leave values

def isPlace : Expr → Bool
  | .var _ | .global .. | .index .. | .env => true
  | _ => false

/-- The targets of an assignment behind the first. -/
def moreTargets (r : Rules) : Nat → Reader (List Expr)
  | 0 => return []
  | fuel + 1 => do
    if ← tryTake "," then
      let e ← suffixed r
      if !isPlace e then fail "syntax error"
      checkAssignable e
      return e :: (← moreTargets r fuel)
    else return []

def exprStatement (r : Rules) : Reader Stmt := do
  let e ← suffixed r
  if (← seesSign "=") || (← seesSign ",") then
    if !isPlace e then fail "syntax error"
    checkAssignable e
    let more ← moreTargets r (← remaining)
    take "="
    let values ← exprs r
    let pos ← lastPos
    return .assign ((e :: more).map (.storedAt pos)) values
  else match e with
    | .call .. | .method .. => return .evaluate e
    | _ => fail "syntax error"

/-- Behind a label: other labels and semicolons at the same place. -/
def labelStatement (r : Rules) : Nat → Reader (List Stmt)
  | 0 => return []
  | fuel + 1 => do
    let start ← line
    advance
    let name ← takeName
    take "::"
    let rec more : Nat → Reader (List Stmt)
      | 0 => return []
      | k + 1 => do
        if ← tryTake ";" then more k
        else if ← seesSign "::" then labelStatement r fuel
        else return []
    let rest ← more (← remaining)
    let f ← currentScope
    match f.labels.find? (·.1 == name) with
    | some (_, other) =>
      failPlain ("label '".toList ++ name ++ "' already defined on line ".toList ++
        (toString other).toList)
    | none =>
      setScope { f with labels := (name, start) :: f.labels }
      return .label (bytesOf name) (← depth) :: rest

/-- A loop that ends after the block, in whose scope the condition is. -/
def repeatLoop (block : List Stmt) (condition : Expr) : Stmt :=
  .whileLoop (.bool true) (block ++ [.branch [(condition, [.stop 0])] []])

/-- One statement, which may stand for none or several. -/
def statement (r : Rules) : Reader (List Stmt) := do
  let l ← peek
  let one (s : Reader Stmt) : Reader (List Stmt) := return [← s]
  match l.token with
  | .sign ";" =>
    advance
    return []
  | .sign "if" => one do
    let (cases, otherwise) ← branches r l.line (← remaining)
    return .branch cases otherwise
  | .sign "while" => one do
    advance
    let condition ← r.any
    take "do"
    let block ← nestedBlock r
    takeClosing "end" "while" l.line
    return .whileLoop condition block
  | .sign "do" => one do
    advance
    let block ← nestedBlock r
    takeClosing "end" "do" l.line
    return .scope block
  | .sign "for" => one (forStatement r l.line)
  | .sign "repeat" => one do
    advance
    inScope do
      let block ← r.block
      takeClosing "until" "repeat" l.line
      return repeatLoop block (← r.any)
  | .sign "function" => one (functionStatement r l.line)
  | .sign "local" => one (localStatement r l.line)
  | .sign "::" => do labelStatement r (← remaining)
  | .sign "break" => one do
    advance
    return .stop l.line
  | .sign "goto" => one do
    advance
    return .jump (bytesOf (← takeName)) l.line
  | _ => one (exprStatement r)

/-- Statements up to the end of the block; a `return` is the last. -/
def statements (r : Rules) : Nat → Reader (List Stmt)
  | 0 => return []
  | fuel + 1 => do
    if ← blockEnds true then return []
    if ← seesSign "return" then return [← returnStatement r]
    let first ← statement r
    return first ++ (← statements r fuel)

def tooDeep {α : Type} : Reader α := fail "chunk has too many syntax levels"

mutual

def readExpr : Nat → Nat → Reader Expr
  | 0, _ => tooDeep
  | fuel + 1, limit => exprWith ⟨readExpr fuel, readBlock fuel⟩ limit

def readBlock : Nat → Reader (List Stmt)
  | 0 => tooDeep
  | fuel + 1 => do statements ⟨readExpr fuel, readBlock fuel⟩ (← remaining)

end

/-- A whole text. -/
def readChunk (fuel : Nat) : Reader Body := do
  let block ← readBlock fuel
  match (← peek).token with
  | .eof => pure ()
  | _ => expected "<eof>"
  checkJumps block
  return .mk 0 true block

end Grammar

/-- What a text says, `chunk` being its name in messages. With `ownGlobals` its globals are the
fields of a variable around it. -/
def Body.ofText (chunk : ByteArray) (ownGlobals : Bool) (text : List Char) :
    Except SyntaxFault Body :=
  let (lexemes, fault) := Lexeme.ofText text
  let around : List Grammar.FunctionScope :=
    if ownGlobals then [⟨[⟨"_ENV".toList, false⟩], true, []⟩] else []
  let r := Grammar.readChunk (2 * lexemes.length + 10)
  (r.run ⟨lexemes, fault, chunk, 1, ⟨[], true, []⟩ :: around⟩).map Prod.fst

end LiveModules.Script
