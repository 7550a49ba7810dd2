import LiveModules.Script.Value

/-!
# Operators

What an operator makes of its operands: a value, a call of a metamethod, or a fault. Strings that
spell numbers do for numbers in arithmetic, and numbers do for strings in concatenation.
-/

namespace LiveModules.Script

/-- What an operator makes of its operands. -/
inductive Reply where
  | value (v : Value)
  /-- The first result of a call is the value. -/
  | call (f : Value) (args : List Value)
  /-- Whether the first result of a call counts as true is the value, or the opposite. -/
  | test (f : Value) (args : List Value) (negated : Bool)
  /-- The operand, the second one or the first, is of a type for which `action` is not defined. -/
  | badOperand (action : String) (second : Bool)
  | fault (message : String)
  /-- A number is no integer where one is needed. -/
  | noInteger (second : Bool)

namespace Heap

/-- The name of a value's type in messages, which its metatable may give. -/
def typeName (h : Heap) (v : Value) : List Char :=
  match v, h.metatable? v with
  | .table _, some id =>
    match h.field id "__name" with
    | .str s => charsOf s
    | _ => v.typeName.toList
  | .null, _ => "light userdata".toList
  | _, _ => v.typeName.toList

/-- The metamethod for two operands: that of the first one, or else of the second. -/
def binaryMetamethod (h : Heap) (a b : Value) (name : String) : Value :=
  match h.metamethod a name with
  | .nil => h.metamethod b name
  | f => f

end Heap

def BinOp.metamethod : BinOp → String
  | add => "__add"
  | sub => "__sub"
  | mul => "__mul"
  | div => "__div"
  | mod => "__mod"
  | pow => "__pow"
  | floorDiv => "__idiv"
  | bitAnd => "__band"
  | bitOr => "__bor"
  | bitXor => "__bxor"
  | shiftLeft => "__shl"
  | shiftRight => "__shr"
  | concat => "__concat"
  | eq | ne => "__eq"
  | lt | gt => "__lt"
  | le | ge => "__le"

def BinOp.isBitwise : BinOp → Bool
  | bitAnd | bitOr | bitXor | shiftLeft | shiftRight => true
  | _ => false

namespace Operators

def onNums (op : BinOp) (a b : Num) : Reply :=
  let divided (r : Except Num.DivideError Num) : Reply :=
    match r with
    | .ok n => .value (.num n)
    | .error .quotient => .fault "attempt to perform 'n//0'"
    | .error .remainder => .fault "attempt to perform 'n%%0'"
  match op with
  | .add => .value (.num (a.add b))
  | .sub => .value (.num (a.sub b))
  | .mul => .value (.num (a.mul b))
  | .div => .value (.num (a.div b))
  | .pow => .value (.num (a.pow b))
  | .floorDiv => divided (a.floorDiv b)
  | .mod => divided (a.floorMod b)
  | op =>
    match a.toInt?, b.toInt? with
    | some i, some j =>
      .value (.int (match op with
        | .bitAnd => i &&& j
        | .bitOr => i ||| j
        | .bitXor => i ^^^ j
        | .shiftLeft => Num.shift i j
        | _ => if j == Int64.minValue then 0 else Num.shift i (-j)))
    | some _, none => .noInteger true
    | none, _ => .noInteger false

def isNumeric : Value → Bool
  | .num _ => true
  | _ => false

def isString : Value → Bool
  | .str _ => true
  | _ => false

/-- The metamethod of an operand; strings take part in arithmetic without one. -/
def arithMetamethod (h : Heap) (name : String) : Value → Value
  | .str _ => .nil
  | v => h.metamethod v name

/-- The fault of an operator on operands of which one is no number. -/
def arithFault (op : BinOp) (a b : Value) : Reply :=
  if op.isBitwise then .badOperand "perform bitwise operation on" (isNumeric a)
  else if isString a || isString b then
    let bad := if a.toNum?.isSome then b else a
    .fault ("attempt to perform arithmetic on a " ++ bad.typeName ++ " value")
  else .badOperand "perform arithmetic on" (isNumeric a)

def arith (h : Heap) (op : BinOp) (a b : Value) : Reply :=
  match a, b with
  | .num m, .num n => onNums op m n
  | _, _ =>
    let f := match arithMetamethod h op.metamethod a with
      | .nil => arithMetamethod h op.metamethod b
      | f => f
    match f, a.toNum?, b.toNum? with
    | .nil, some m, some n => onNums op m n
    | .nil, _, _ => arithFault op a b
    | f, _, _ => .call f [a, b]

def bytesLt (a b : ByteArray) : Bool := a.toList < b.toList

def compareFault (h : Heap) (a b : Value) : Reply :=
  let s := String.ofList (h.typeName a)
  let t := String.ofList (h.typeName b)
  if s == t then .fault ("attempt to compare two " ++ s ++ " values")
  else .fault ("attempt to compare " ++ s ++ " with " ++ t)

def less (h : Heap) (a b : Value) : Reply :=
  match a, b with
  | .num m, .num n => .value (.bool (m.lt n))
  | .str s, .str t => .value (.bool (bytesLt s t))
  | _, _ =>
    match h.binaryMetamethod a b "__lt" with
    | .nil => compareFault h a b
    | f => .test f [a, b] false

def atMost (h : Heap) (a b : Value) : Reply :=
  match a, b with
  | .num m, .num n => .value (.bool (m.le n))
  | .str s, .str t => .value (.bool (!bytesLt t s))
  | _, _ =>
    match h.binaryMetamethod a b "__le" with
    | .nil => compareFault h a b
    | f => .test f [a, b] false

def equal (h : Heap) (negated : Bool) (a b : Value) : Reply :=
  if a.rawEq b then .value (.bool !negated)
  else match a, b with
    | .table _, .table _ =>
      match h.binaryMetamethod a b "__eq" with
      | .nil => .value (.bool negated)
      | f => .test f [a, b] negated
    | _, _ => .value (.bool negated)

def concat (h : Heap) (a b : Value) : Reply :=
  match a.toBytes?, b.toBytes? with
  | some s, some t => .value (.str (s ++ t))
  | first, _ =>
    match h.binaryMetamethod a b "__concat" with
    | .nil => .badOperand "concatenate" first.isSome
    | f => .call f [a, b]

def binary (h : Heap) (op : BinOp) (a b : Value) : Reply :=
  match op with
  | .concat => concat h a b
  | .eq => equal h false a b
  | .ne => equal h true a b
  | .lt => less h a b
  | .le => atMost h a b
  | .gt => less h b a
  | .ge => atMost h b a
  | op => arith h op a b

def unary (h : Heap) (op : UnOp) (a : Value) : Reply :=
  match op with
  | .not => .value (.bool !a.isTrue)
  | .len =>
    match a with
    | .str s => .value (.nat s.size)
    | _ =>
      match h.metamethod a "__len", a with
      | .nil, .table id => .value (.nat (h.table id).length)
      | .nil, _ => .badOperand "get length of" false
      | f, _ => .call f [a, a]
  | .neg =>
    match a with
    | .num n => .value (.num n.neg)
    | _ =>
      match arithMetamethod h "__unm" a, a.toNum? with
      | .nil, some n => .value (.num n.neg)
      | .nil, none =>
        if isString a then .fault "attempt to perform arithmetic on a string value"
        else .badOperand "perform arithmetic on" false
      | f, _ => .call f [a, a]
  | .bitNot =>
    match arithMetamethod h "__bnot" a, a.toNum? with
    | .nil, some n =>
      match n.toInt? with
      | some i => .value (.int (Int64.complement i))
      | none => .noInteger false
    | .nil, none => .badOperand "perform bitwise operation on" false
    | f, _ => .call f [a, a]

/-! ## Fields -/

/-- How long a chain of `__index` or `__newindex` may be. -/
def chainLimit : Nat := 2000

/-- The fault of a chain that leads to a value without fields. -/
def chainFault (h : Heap) (v : Value) : String :=
  "attempt to index a " ++ String.ofList (h.typeName v) ++ " value"

/-- Looks up a field, through `__index`. -/
def index (h : Heap) : Nat → Value → Value → Reply
  | 0, _, _ => .fault "'__index' chain too long; possibly a loop"
  | fuel + 1, v, k =>
    let raw := match v with
      | .table id => h.rawGet id k
      | _ => .nil
    if !raw.isNil then .value raw
    else match h.metamethod v "__index", v with
      | .nil, .table _ => .value .nil
      | .nil, _ => .badOperand "index" false
      | .function id, _ => .call (.function id) [v, k]
      | .builtin f, _ => .call (.builtin f) [v, k]
      | next, _ =>
        match index h fuel next k with
        | .badOperand .. => .fault (chainFault h next)
        | reply => reply

/-- What an assignment to a field does. -/
inductive Storing where
  | store (id : Nat) (k : Key)
  | call (f : Value) (args : List Value)
  | badOperand
  | fault (message : String)

/-- Where an assignment to a field goes, through `__newindex`. -/
def storing (h : Heap) : Nat → Value → Value → Value → Storing
  | 0, _, _, _ => .fault "'__newindex' chain too long; possibly a loop"
  | fuel + 1, v, k, x =>
    let raw := match v with
      | .table id => h.rawGet id k
      | _ => .nil
    let here : Storing := match v, Key.ofValue? k with
      | .table id, some key => .store id key
      | .table _, none => .fault (if k.isNil then "table index is nil" else "table index is NaN")
      | _, _ => .badOperand
    if !raw.isNil then here
    else match h.metamethod v "__newindex" with
      | .nil => here
      | .function id => .call (.function id) [v, k, x]
      | .builtin f => .call (.builtin f) [v, k, x]
      | next =>
        match storing h fuel next k x with
        | .badOperand => .fault (chainFault h next)
        | storing => storing

end Operators

end LiveModules.Script
