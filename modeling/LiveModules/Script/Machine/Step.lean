import LiveModules.Script.Machine.Calls
import LiveModules.Script.Machine.Evaluation

/-!
# Steps

What values and errors do to the frame on top, and one step of the machine.
-/

namespace LiveModules.Script

namespace Machine

/-! ## Values -/

def badDisplay : List Char := "'__tostring' must return a string".toList

/-- Values come back to a library function that waits for them. -/
def resume (m : Machine) (p : Pending) (site : Site) (vs : List Value) : Machine :=
  let v := vs.headD .nil
  let text? := v.toBytes?.map Value.str
  match p, v with
  | .protect _, _ => m.go (.give (.bool true :: vs))
  | .handling, _ => m.go (.give (.bool false :: vs))
  | .display, _ =>
    match text? with
    | some text => m.go (.give [text])
    | none => m.go (.fault site.pos badDisplay)
  | .format n args, _ =>
    match text? with
    | some text => m.go (.call (.builtin (.native .stringFormat)) (args.set (n - 1) text) site)
    | none => m.go (.fault site.pos badDisplay)
  | .lookUp args, _ => m.logWith v args site
  | .log display done todo, _ =>
    match Capability.toText v with
    | .ok part => m.logParts display (part :: done) todo site
    | .error message => m.go (.raise (.failure message))
  | .describe, _ =>
    m.go (.raise (.failure (m.heap.describe (text?.getD (.str (bytesOf badDisplay))))))
  | .host, _ => m.go (.give vs)
  | .element i, _ => m.go (.give (if v.isNil then [.nil] else [.int i, v]))
  | .iterate, _ => m.go (.give ((vs ++ List.replicate 3 Value.nil).take 3))
  | .pieces f text args, .str s =>
    if s.isEmpty then m.loadText text (piecesName m args) args
    else m.callBack (.pieces f (text ++ charsOf s) args) site f []
  | .pieces _ text args, .nil => m.loadText text (piecesName m args) args
  | .pieces .., _ => m.go (.give [.nil, .text "reader function must return a string"])
  | .sort s, v =>
    let middle := (s.low + s.high) / 2
    m.sort (if v.isTrue then { s with high := middle } else { s with low := middle + 1 }) site
where
  /-- The name of a text that comes in pieces. -/
  piecesName (m : Machine) (args : List Value) : ByteArray :=
    ((Arguments.strOr m.heap args 2 "=(load)".toUTF8).toOption).getD "=(load)".toUTF8

/-- Values come to an expression, a statement or a call that waits for them. -/
def give (m : Machine) (vs : List Value) : Machine :=
  let v := vs.headD .nil
  match m.stack with
  | [] => m
  | frame :: stack =>
    let m := { m with stack }
    match frame with
    | .one => m.go (.give [v])
    | .truth negated => m.go (.give [.bool (v.isTrue != negated)])
    | .list done [] _ use => m.use (done.reverse ++ vs) use
    | .list done todo env use => m.evalList (v :: done) todo env use
    | .callee args env site tail => m.evalList [] args env (.call v [] site tail)
    | .receiver name args env pos origin tail =>
      (m.push (.method v args env ⟨some pos, some ("method", name)⟩ tail)).index v (.str name)
        origin pos
    | .method object args env site tail => m.evalList [] args env (.call v [object] site tail)
    | .object k env origin pos => m.await (.key v origin pos) k env
    | .key object origin pos => m.index object v origin pos
    | .left op a b env pos => m.await (.right op a b v pos) b env
    | .right op a b first pos => m.binary op (first, a.origin?) (v, b.origin?) pos
    | .operand op a pos =>
      let name := match op with
        | .neg => "unm"
        | .len => "len"
        | .not => "not"
        | .bitNot => "bnot"
      m.reply (Operators.unary m.heap op v) pos name (v, a.origin?) (v, a.origin?)
    | .both b env => m.go (if v.isTrue then .eval (.one b) env else .give [v])
    | .either b env => m.go (if v.isTrue then .give [v] else .eval (.one b) env)
    | .items table done [] _ =>
      let ⟨_, stack, heap, requests, depth⟩ := m
      ⟨.give [.table table], stack,
        heap.modifyTable table (·.withList (done.reverse ++ vs)), requests, depth⟩
    | .items table done todo env => m.fillItems table (v :: done) todo env
    | .itemKey table done value todo env pos =>
      m.await (.itemValue table done v todo env pos) value env
    | .itemValue table done k todo env pos =>
      match Key.ofValue? k with
      | some key =>
        let ⟨control, stack, heap, requests, depth⟩ := m
        fillItems ⟨control, stack, heap.rawSet table key v, requests, depth⟩ table done todo env
      | none =>
        m.go (.fault (some pos)
          (if k.isNil then "table index is nil".toList else "table index is NaN".toList))
    | .targetObject k origin pos done todo values env =>
      m.await (.targetKey v origin pos done todo values env) k env
    | .targetKey object origin pos done todo values env =>
      m.evalTargets (.field object v origin pos :: done) todo values env
    | .store todo => m.go (.store todo)
    | .branch block cases otherwise env =>
      if v.isTrue then m.go (.run ⟨block, block, env⟩) else m.branch cases otherwise env
    | .point p => m.go (.run p)
    | .whileTest condition block env =>
      if v.isTrue then (m.push (.whileBody condition block env)).go (.run ⟨block, block, env⟩)
      else m.go .next
    | .eachCall loop =>
      if v.isNil then m.go .next
      else
        let ⟨_, stack, heap, requests, depth⟩ := m
        let values := vs.take loop.count ++ List.replicate (loop.count - vs.length) .nil
        let (cells, heap) := heap.bindCells loop.env.cells values
        ⟨.run ⟨loop.block, loop.block, { loop.env with cells }⟩, .eachBody loop v :: stack, heap,
          requests, depth⟩
    | .builtin p site => { m with depth := m.depth - 1 }.resume p site vs
    | .activation _ => { m with depth := m.depth - 1 }.go (.give vs)
    | .leaving => m.go (.leave vs)
    | .whileBody .. | .countBody .. | .eachBody .. => m.go .next

/-! ## Errors -/

/-- An error comes to the frame on top, which only some library functions hold up. -/
def raise (m : Machine) (error : Value) : Machine :=
  match m.stack with
  | [] => m
  | frame :: stack =>
    let m := { m with stack }
    match frame with
    | .activation _ => { m with depth := m.depth - 1 }
    | .builtin p site =>
      let m := { m with depth := m.depth - 1 }
      match p, error with
      | .protect none, _ | .handling, _ => m.go (.give [.bool false, error])
      | .protect (some handler), _ => m.callBack .handling site handler [error]
      | .pieces .., _ => m.go (.give [.nil, error])
      | .host, .failure _ | .log .., .failure _ | .describe, .failure _ => m
      | .host, _ | .log .., _ | .describe, _ => m.describe error site
      | _, _ => m
    | _ => m

/-! ## Steps -/

def step (m : Machine) : Machine :=
  match m.control with
  | .eval e env => m.eval e env
  | .give vs => m.give vs
  | .run p => m.run p
  | .next => m.next
  | .store todo => m.store todo
  | .call f args site => m.call f args site
  | .tailCall f args site => m.tailCall f args site
  | .raise error => m.raise error
  | .leave vs => m.leave vs
  | .stop => m.stop
  | .jump label => m.jump label

/-- How a run came to its end, if it did. -/
def outcome? (m : Machine) : Option (Except Value (List Value)) :=
  match m.stack, m.control with
  | [], .give vs => some (.ok vs)
  | [], .raise error => some (.error error)
  | _, _ => none

/-- Where a run of a function begins. -/
def start (h : Heap) (f : Value) (args : List Value) : Machine :=
  ⟨.call f args .outside, [.builtin .host .outside], h, #[], 0⟩

end Machine

end LiveModules.Script
