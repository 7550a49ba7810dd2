import LiveModules.Script.Number

/-!
# Syntax of scripts

What a text says. Names are resolved: a local variable is known by its place among all variables in
scope, the latest first, and a name that is not in scope is a global.
-/

namespace LiveModules.Script

/-- A line of a named text. -/
structure Pos where
  chunk : ByteArray
  line : Nat

inductive BinOp where
  | add
  | sub
  | mul
  | div
  | mod
  | pow
  | floorDiv
  | bitAnd
  | bitOr
  | bitXor
  | shiftLeft
  | shiftRight
  | concat
  | eq
  | ne
  | lt
  | le
  | gt
  | ge
  deriving DecidableEq

/-- Whether it tells how its operands stand to each other. -/
def BinOp.isComparison : BinOp → Bool
  | eq | ne | lt | le | gt | ge => true
  | _ => false

inductive UnOp where
  | neg
  | not
  | len
  | bitNot
  deriving DecidableEq

/-- A local variable; `outer` says that it belongs to an enclosing function. -/
structure Var where
  slot : Nat
  name : ByteArray
  outer : Bool

mutual

inductive Expr where
  | nil
  | bool (b : Bool)
  | num (n : Num)
  | str (s : ByteArray)
  | varargs
  | function (body : Body)
  | var (v : Var)
  | global (name : ByteArray) (pos : Pos)
  /-- The table of globals. -/
  | env
  | index (object key : Expr) (pos : Pos)
  | call (f : Expr) (args : List Expr) (pos : Pos)
  | method (object : Expr) (name : ByteArray) (args : List Expr) (pos : Pos)
  | binary (op : BinOp) (a b : Expr) (pos : Pos)
  | unary (op : UnOp) (a : Expr) (pos : Pos)
  | both (a b : Expr)
  | either (a b : Expr)
  | table (items : List Item)
  /-- An expression in brackets, which has one value. -/
  | one (e : Expr)

inductive Item where
  | positional (e : Expr)
  | keyed (key value : Expr) (pos : Pos)

inductive Body where
  /-- `named` is how many parameters have names. -/
  | mk (named : Nat) (variadic : Bool) (block : List Stmt)

inductive Stmt where
  | declare (count : Nat) (values : List Expr)
  /-- A local function, which is in scope in itself. -/
  | declareFunction (body : Body)
  | assign (targets values : List Expr)
  | evaluate (e : Expr)
  | scope (block : List Stmt)
  | whileLoop (condition : Expr) (block : List Stmt)
  | branch (cases : List (Expr × List Stmt)) (otherwise : List Stmt)
  | countLoop (first last : Expr) (step : Option Expr) (block : List Stmt) (pos : Pos)
  | eachLoop (count : Nat) (values : List Expr) (block : List Stmt) (pos : Pos)
  | leave (values : List Expr)
  /-- A call in whose place the function returns. -/
  | leaveCall (f : Expr) (args : List Expr) (pos : Pos)
  | leaveMethod (object : Expr) (name : ByteArray) (args : List Expr) (pos : Pos)
  | stop (line : Nat)
  | jump (name : ByteArray) (line : Nat)
  /-- A place to jump to, where `depth` variables are in scope. -/
  | label (name : ByteArray) (depth : Nat)

end

instance : Inhabited Expr := ⟨.nil⟩

namespace Expr

/-- Without the brackets around it. -/
def unwrap : Expr → Expr
  | .one e => e.unwrap
  | e => e

/-- Whether it is the table of globals by its name. -/
def isEnvironment : Expr → Bool
  | .env => true
  | .var v => v.name == "_ENV".toUTF8
  | _ => false

/-- The same place, to be stored to at another position. -/
def storedAt (pos : Pos) : Expr → Expr
  | .index object key _ => .index object key pos
  | .global name _ => .global name pos
  | e => e

/-- A chain of concatenations, which is one operation at the position of its first operator. -/
def concatAt (pos : Pos) : Expr → Expr
  | .binary .concat a b _ => .binary .concat a (b.concatAt pos) pos
  | e => e

/-- How a message names the place that an expression's value comes from, if it does. -/
def origin? (e : Expr) : Option (String × ByteArray) :=
  match e.unwrap with
  | .var v => some (if v.outer then "upvalue" else "local", v.name)
  | .global name _ => some ("global", name)
  | .index object key _ =>
    match key with
    | .str s => some (if object.isEnvironment then "global" else "field", s)
    | .num (.int i) =>
      some ("field", (if 0 ≤ i ∧ i ≤ 255 then "integer index" else "?").toUTF8)
    | _ => some ("field", "?".toUTF8)
  | .method _ name _ _ => some ("method", name)
  | .str s => some ("constant", s)
  | _ => none

end Expr

end LiveModules.Script
