import LiveModules.Script.Machine.Basic

/-!
# Evaluation

What expressions and statements do with the machine, calls apart.
-/

namespace LiveModules.Script

namespace Machine

/-! ## Operators -/

/-- What becomes of an operator's reply; `a` and `b` are the operands with their origins. -/
def reply (m : Machine) (r : Reply) (pos : Pos) (name : String) (a b : Value × Origin) : Machine :=
  let site : Site := ⟨some pos, some ("metamethod", name.toUTF8)⟩
  let operand (second : Bool) : Value × Origin := if second then b else a
  match r with
  | .value v => m.go (.give [v])
  | .call f args => (m.push .one).go (.call f args site)
  | .test f args negated => (m.push (.truth negated)).go (.call f args site)
  | .badOperand action second =>
    let bad := operand second
    m.go (.fault (some pos) (m.heap.badValue action bad.1 bad.2))
  | .fault message => m.go (.fault (some pos) message.toList)
  | .noInteger second =>
    m.go (.fault (some pos)
      ("number".toList ++ originText (operand second).2 ++ " has no integer representation".toList))

def binary (m : Machine) (op : BinOp) (a b : Value × Origin) (pos : Pos) : Machine :=
  m.reply (Operators.binary m.heap op a.1 b.1) pos ((op.metamethod.drop 2).toString) a b

def index (m : Machine) (object key : Value) (origin : Origin) (pos : Pos) : Machine :=
  m.reply (Operators.index m.heap Operators.chainLimit object key) pos "index"
    (object, origin) (key, none)

/-! ## Expressions -/

/-- Uses a complete list of values. -/
def use (m : Machine) (vs : List Value) : Use → Machine
  | .results => m.go (.leave vs)
  | .call f first site tail =>
    m.go (if tail then .tailCall f (first ++ vs) site else .call f (first ++ vs) site)
  | .declare count p =>
    let ⟨_, stack, heap, requests, depth⟩ := m
    let values := vs.take count ++ List.replicate (count - vs.length) .nil
    let (cells, heap) := heap.bindCells p.env.cells values
    ⟨.run { p with env := { p.env with cells } }, stack, heap, requests, depth⟩
  | .assign places =>
    let values := vs ++ List.replicate (places.length - vs.length) .nil
    m.go (.store (places.zip values).reverse)
  | .count block env pos =>
    let v (i : Nat) : Value := vs[i]?.getD .nil
    match Counter.start (v 0) (v 1) (vs[2]?.getD (.int 1)) with
    | .ok none => m.go .next
    | .ok (some counter) =>
      let ⟨_, stack, heap, requests, depth⟩ := m
      let (cells, heap) := heap.bindCells env.cells [counter.current]
      ⟨.run ⟨block, block, { env with cells }⟩, .countBody counter block env :: stack, heap,
        requests, depth⟩
    | .error .zeroStep => m.go (.fault (some pos) "'for' step is zero".toList)
    | .error (.notNumber role v) =>
      m.go (.fault (some pos) ("bad 'for' ".toList ++ role.toList ++
        " (number expected, got ".toList ++ m.heap.typeName v ++ [')']))
  | .each count block env pos =>
    let v (i : Nat) : Value := vs[i]?.getD .nil
    let loop : EachLoop := ⟨v 0, v 1, count, block, env, pos⟩
    (m.push (.eachCall loop)).go
      (.call loop.iterator [loop.state, v 2]
        ⟨some pos, some ("for iterator", "for iterator".toUTF8)⟩)

/-- Evaluates what is left of a list of expressions. -/
def evalList (m : Machine) (done : List Value) (todo : List Expr) (env : Env) (use : Use) :
    Machine :=
  match todo with
  | [] => m.use done.reverse use
  | e :: rest => m.await (.list done rest env use) e env

/-- Fills a table with what is left of its items. -/
def fillItems (m : Machine) (table : Nat) (done : List Value) (todo : List Item) (env : Env) :
    Machine :=
  match todo with
  | [] =>
    let ⟨_, stack, heap, requests, depth⟩ := m
    ⟨.give [.table table], stack, heap.modifyTable table (·.withList done.reverse), requests, depth⟩
  | .positional e :: rest => m.await (.items table done rest env) e env
  | .keyed k v pos :: rest => m.await (.itemKey table done v rest env pos) k env

def eval (m : Machine) (e : Expr) (env : Env) : Machine :=
  match e with
  | .nil => m.go (.give [.nil])
  | .bool b => m.go (.give [.bool b])
  | .num n => m.go (.give [.num n])
  | .str s => m.go (.give [.str s])
  | .varargs => m.go (.give env.varargs)
  | .function body =>
    let ⟨_, stack, heap, requests, depth⟩ := m
    let (f, heap) := heap.newClosure ⟨body, env.cells⟩
    ⟨.give [f], stack, heap, requests, depth⟩
  | .var v => m.go (.give [((env.cells[v.slot]?).map m.heap.cell).getD .nil])
  | .global name pos => m.index (.table Heap.globals) (.str name) none pos
  | .env => m.go (.give [.table Heap.globals])
  | .index o k pos => m.await (.object k env o.origin? pos) o env
  | .call f args pos => m.await (.callee args env ⟨some pos, f.origin?⟩ false) f env
  | .method o name args pos => m.await (.receiver name args env pos o.origin? false) o env
  | .binary op a b pos => m.await (.left op a b env pos) a env
  | .unary op a pos => m.await (.operand op a pos) a env
  | .both a b => m.await (.both b env) a env
  | .either a b => m.await (.either b env) a env
  | .table items =>
    let ⟨control, stack, heap, requests, depth⟩ := m
    let id := heap.tables.size
    let (_, heap) := heap.newTable .empty
    fillItems ⟨control, stack, heap, requests, depth⟩ id [] items env
  | .one e => m.await .one e env

/-! ## Assignments -/

/-- Evaluates what is left of the targets of an assignment, and then its values. -/
def evalTargets (m : Machine) (done : List Place) (todo values : List Expr) (env : Env) : Machine :=
  match todo with
  | [] => m.evalList [] values env (.assign done.reverse)
  | .var v :: rest =>
    evalTargets m (.cell ((env.cells[v.slot]?).getD 0) :: done) rest values env
  | .global name pos :: rest =>
    evalTargets m (.field (.table Heap.globals) (.str name) none pos :: done) rest values env
  | .index o k pos :: rest =>
    m.await (.targetObject k o.origin? pos done rest values env) o env
  | _ :: rest => evalTargets m done rest values env

/-- Stores values one after the other. -/
def store (m : Machine) (todo : List (Place × Value)) : Machine :=
  match todo with
  | [] => m.go .next
  | (.cell id, v) :: rest =>
    let ⟨_, stack, heap, requests, depth⟩ := m
    ⟨.store rest, stack, heap.setCell id v, requests, depth⟩
  | (.field object k origin pos, v) :: rest =>
    match Operators.storing m.heap Operators.chainLimit object k v with
    | .store id key =>
      let ⟨_, stack, heap, requests, depth⟩ := m
      ⟨.store rest, stack, heap.rawSet id key v, requests, depth⟩
    | .call f args =>
      (m.push (.store rest)).go (.call f args ⟨some pos, some ("metamethod", "newindex".toUTF8)⟩)
    | .badOperand => m.go (.fault (some pos) (m.heap.badValue "index" object origin))
    | .fault message => m.go (.fault (some pos) message.toList)

/-! ## Statements -/

def branch (m : Machine) (cases : List (Expr × List Stmt)) (otherwise : List Stmt) (env : Env) :
    Machine :=
  match cases with
  | [] => m.go (.run ⟨otherwise, otherwise, env⟩)
  | (condition, block) :: rest => m.await (.branch block rest otherwise env) condition env

/-- Runs one statement; `p` is the point behind it. -/
def statement (m : Machine) (s : Stmt) (p : Point) : Machine :=
  let env := p.env
  match s with
  | .declare count values => m.evalList [] values env (.declare count p)
  | .declareFunction body =>
    let ⟨_, stack, heap, requests, depth⟩ := m
    let (id, heap) := heap.newCell .nil
    let cells := id :: env.cells
    let (f, heap) := heap.newClosure ⟨body, cells⟩
    ⟨.run { p with env := { env with cells } }, stack, heap.setCell id f, requests, depth⟩
  | .assign targets values => (m.push (.point p)).evalTargets [] targets values env
  | .evaluate e => m.await (.point p) e env
  | .scope block => (m.push (.point p)).go (.run ⟨block, block, env⟩)
  | .whileLoop condition block =>
    (m.push (.point p)).await (.whileTest condition block env) condition env
  | .branch cases otherwise => (m.push (.point p)).branch cases otherwise env
  | .countLoop first last step block pos =>
    (m.push (.point p)).evalList [] ([first, last].map .one ++ (step.map .one).toList) env
      (.count block env pos)
  | .eachLoop count values block pos =>
    (m.push (.point p)).evalList [] values env (.each count block env pos)
  | .leave values => m.evalList [] values env .results
  | .leaveCall f args pos => m.await (.callee args env ⟨some pos, f.origin?⟩ true) f env
  | .leaveMethod o name args pos => m.await (.receiver name args env pos o.origin? true) o env
  | .stop _ => m.go .stop
  | .jump name _ => (m.push (.point p)).go (.jump name)
  | .label _ _ => m.go (.run p)

def run (m : Machine) (p : Point) : Machine :=
  match p.rest with
  | [] => m.go .next
  | s :: rest => m.statement s { p with rest }

/-- What is behind a label of a block, and how many variables are in scope there. -/
def behindLabel (name : ByteArray) : List Stmt → Option (List Stmt × Nat)
  | [] => none
  | .label n depth :: rest => if n == name then some (rest, depth) else behindLabel name rest
  | _ :: rest => behindLabel name rest

/-- Goes on at a label, which is looked for in the blocks from the innermost out. -/
def jump (m : Machine) (name : ByteArray) : Machine :=
  match m.stack with
  | [] => m.go (.leave [])
  | .activation _ :: _ => m.go (.leave [])
  | .point p :: stack =>
    match behindLabel name p.block with
    | some (rest, depth) =>
      let cells := p.env.cells.drop (p.env.cells.length - depth)
      { m with stack, control := .run { p with rest, env := { p.env with cells } } }
    | none => { m with stack }
  | _ :: stack => { m with stack }

/-- Leaves the innermost loop. -/
def stop (m : Machine) : Machine :=
  match m.stack with
  | .whileBody .. :: stack | .countBody .. :: stack | .eachBody .. :: stack =>
    { m with stack, control := .next }
  | .activation _ :: _ | [] => m.go (.leave [])
  | _ :: stack => { m with stack }

/-- Goes on behind a statement that has come to its end. -/
def next (m : Machine) : Machine :=
  match m.stack with
  | .point p :: stack => { m with stack, control := .run p }
  | .whileBody condition block env :: stack =>
    { m with stack := .whileTest condition block env :: stack, control := .eval condition env }
  | .countBody counter block env :: stack =>
    match counter.next? with
    | none => { m with stack, control := .next }
    | some counter =>
      let ⟨_, _, heap, requests, depth⟩ := m
      let (cells, heap) := heap.bindCells env.cells [counter.current]
      ⟨.run ⟨block, block, { env with cells }⟩, .countBody counter block env :: stack, heap,
        requests, depth⟩
  | .eachBody loop control :: stack =>
    { m with
      stack := .eachCall loop :: stack
      control := .call loop.iterator [loop.state, control]
        ⟨some loop.pos, some ("for iterator", "for iterator".toUTF8)⟩ }
  | _ => m.go (.leave [])

/-- Returns from the function. -/
def leave (m : Machine) (vs : List Value) : Machine :=
  match m.stack with
  | [] => m.go (.give vs)
  | .activation _ :: stack => { m with stack, depth := m.depth - 1, control := .give vs }
  | _ :: stack => { m with stack }

end Machine

end LiveModules.Script
