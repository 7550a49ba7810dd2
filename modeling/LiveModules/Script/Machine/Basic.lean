import LiveModules.Script.Capability
import LiveModules.Script.Counter
import LiveModules.Script.Library.All

/-!
# The machine

A script runs in steps. The control says what is done next, and every frame on the stack what is
done with its outcome: with values, with the end of a statement, or with an error. A call of a
script function pushes an activation, a call of a library function that calls something back a
pending builtin.
-/

namespace LiveModules.Script

/-- The variables in scope, the latest first, and the arguments behind the named parameters. -/
structure Env where
  cells : List Nat
  varargs : List Value

/-- How a message names the place that a value comes from, if it does. -/
abbrev Origin := Option (String × ByteArray)

/-- Where a call comes from: its position, if a script makes it, and its name for what it calls. -/
structure Site where
  pos : Option Pos
  name : Origin

/-- A call that no script makes. -/
def Site.outside : Site := ⟨none, none⟩

/-- A point in a block, before the statements in `rest`. -/
structure Point where
  block : List Stmt
  rest : List Stmt
  env : Env

/-- What is assigned to. -/
inductive Place where
  | cell (id : Nat)
  | field (object key : Value) (origin : Origin) (pos : Pos)

/-- What a list of values is for. -/
inductive Use where
  | results
  | call (f : Value) (first : List Value) (site : Site) (tail : Bool)
  | declare (count : Nat) (point : Point)
  | assign (places : List Place)
  | count (block : List Stmt) (env : Env) (pos : Pos)
  | each (count : Nat) (block : List Stmt) (env : Env) (pos : Pos)

/-- A generic loop: its iterator, the value that it is called with, and what it does. -/
structure EachLoop where
  iterator : Value
  state : Value
  count : Nat
  block : List Stmt
  env : Env
  pos : Pos

/-- A list that is being sorted: `item` belongs between `low` and `high` of what is sorted. -/
structure Sorting where
  table : Nat
  comparator : Value
  sorted : Array Value
  item : Value
  low : Nat
  high : Nat
  todo : List Value

/-- A library function that waits for a call. -/
inductive Pending where
  /-- Answers whether the call came to an end, and its values or its error. -/
  | protect (handler : Option Value)
  /-- A call of the handler of an error. -/
  | handling
  | display
  /-- Argument `n` of a format is being displayed. -/
  | format (n : Nat) (args : List Value)
  /-- What displays the parts of a line is looked up. -/
  | lookUp (args : List Value)
  | log (display : Value) (done : List String) (todo : List Value)
  /-- The text of an error that nobody handled is being made. -/
  | describe
  /-- The host waits for a call. -/
  | host
  | element (i : Int64)
  | iterate
  | pieces (f : Value) (text : List Char) (args : List Value)
  | sort (s : Sorting)

inductive Frame where
  | one
  | truth (negated : Bool)
  | list (done : List Value) (todo : List Expr) (env : Env) (use : Use)
  | callee (args : List Expr) (env : Env) (site : Site) (tail : Bool)
  | receiver (name : ByteArray) (args : List Expr) (env : Env) (pos : Pos) (origin : Origin)
    (tail : Bool)
  | method (object : Value) (args : List Expr) (env : Env) (site : Site) (tail : Bool)
  | object (key : Expr) (env : Env) (origin : Origin) (pos : Pos)
  | key (object : Value) (origin : Origin) (pos : Pos)
  | left (op : BinOp) (a b : Expr) (env : Env) (pos : Pos)
  | right (op : BinOp) (a b : Expr) (first : Value) (pos : Pos)
  | operand (op : UnOp) (a : Expr) (pos : Pos)
  | both (b : Expr) (env : Env)
  | either (b : Expr) (env : Env)
  | items (table : Nat) (done : List Value) (todo : List Item) (env : Env)
  | itemKey (table : Nat) (done : List Value) (value : Expr) (todo : List Item) (env : Env)
    (pos : Pos)
  | itemValue (table : Nat) (done : List Value) (key : Value) (todo : List Item) (env : Env)
    (pos : Pos)
  | targetObject (key : Expr) (origin : Origin) (pos : Pos) (done : List Place)
    (todo values : List Expr) (env : Env)
  | targetKey (object : Value) (origin : Origin) (pos : Pos) (done : List Place)
    (todo values : List Expr) (env : Env)
  | store (todo : List (Place × Value))
  | branch (block : List Stmt) (cases : List (Expr × List Stmt)) (otherwise : List Stmt)
    (env : Env)
  | point (p : Point)
  | whileTest (condition : Expr) (block : List Stmt) (env : Env)
  | whileBody (condition : Expr) (block : List Stmt) (env : Env)
  | countBody (counter : Counter) (block : List Stmt) (env : Env)
  | eachCall (loop : EachLoop)
  | eachBody (loop : EachLoop) (control : Value)
  | activation (pos : Option Pos)
  | builtin (p : Pending) (site : Site)
  /-- The function returns what comes. -/
  | leaving

/-- What is done next. -/
inductive Control where
  | eval (e : Expr) (env : Env)
  | give (values : List Value)
  | run (p : Point)
  /-- A statement has come to its end. -/
  | next
  | store (todo : List (Place × Value))
  | call (f : Value) (args : List Value) (site : Site)
  /-- A call in whose place the function returns. -/
  | tailCall (f : Value) (args : List Value) (site : Site)
  | raise (error : Value)
  | leave (values : List Value)
  | stop
  | jump (label : ByteArray)

structure Machine where
  control : Control
  stack : List Frame
  heap : Heap
  requests : Array (Request Value)
  /-- How many calls are on the stack. -/
  depth : Nat

/-! ## Faults -/

/-- What goes before a message. -/
def Pos.shown (pos : Option Pos) : List Char :=
  match pos with
  | some p => charsOf p.chunk ++ ':' :: Nat.toDigits 10 p.line ++ ": ".toList
  | none => []

/-- An error with a position; the message stands as bytes, one character for each. -/
def Control.fault (pos : Option Pos) (message : List Char) : Control :=
  .raise (.str (bytesOf (Pos.shown pos ++ message)))

/-- How a message names where a value comes from. -/
def originText : Origin → List Char
  | some (kind, name) => " (".toList ++ kind.toList ++ " '".toList ++ charsOf name ++ "')".toList
  | none => []

def Heap.badValue (h : Heap) (action : String) (v : Value) (origin : Origin) : List Char :=
  "attempt to ".toList ++ action.toList ++ " a ".toList ++ h.typeName v ++ " value".toList ++
    originText origin

/-- What a complaint of a library function comes to. -/
def Complaint.control (c : Complaint) (f : Native) (site : Site) : Control :=
  match c with
  | .bare m => .fault none m.toList
  | .fault m => .fault site.pos m.toList
  | .argument n what =>
    let name := match site.name with
      | some (_, name) => charsOf name
      | none => (Library.nameOf f).toList
    match site.name, n with
    | some ("method", _), 1 =>
      .fault site.pos
        ("calling '".toList ++ name ++ "' on bad self (".toList ++ what.toList ++ [')'])
    | some ("method", _), n =>
      .fault site.pos ("bad argument #".toList ++ Nat.toDigits 10 (n - 1) ++ " to '".toList ++
        name ++ "' (".toList ++ what.toList ++ [')'])
    | _, n =>
      .fault site.pos ("bad argument #".toList ++ Nat.toDigits 10 n ++ " to '".toList ++ name ++
        "' (".toList ++ what.toList ++ [')'])

namespace Machine

/-- Goes on with a control. -/
def go (m : Machine) (c : Control) : Machine := { m with control := c }

def push (m : Machine) (f : Frame) : Machine := { m with stack := f :: m.stack }

def pushCall (m : Machine) (f : Frame) : Machine :=
  { m with stack := f :: m.stack, depth := m.depth + 1 }

/-- Evaluates an expression, with `f` waiting for it. -/
def await (m : Machine) (f : Frame) (e : Expr) (env : Env) : Machine :=
  { m with stack := f :: m.stack, control := .eval e env }

end Machine

end LiveModules.Script
