import LiveModules.Script.Grammar
import LiveModules.Script.Machine.Basic

/-!
# Calls

What a call does with the machine: of a script function, of a library function, of a capability.
-/

namespace LiveModules.Script

namespace Heap

/-- The text of an error that nobody handles. -/
def describe (h : Heap) (error : Value) : String :=
  match error with
  | .failure text => text
  | v => Capability.failed (Text.ofUtf8Lossy (bytesOf (Library.display h v)))

/-- What goes by the name of `tostring`. -/
def display (h : Heap) : Reply :=
  Operators.index h Operators.chainLimit (.table globals) (.text "tostring")

end Heap

namespace Machine

/-! ## Calls -/

/-- How many calls fit on the stack. -/
def depthLimit : Nat := 199990

/-- Calls a function of a script. -/
def enter (m : Machine) (id : Nat) (args : List Value) (pos : Option Pos) : Machine :=
  let ⟨_, stack, heap, requests, depth⟩ := m
  match heap.closures[id]? with
  | none => ⟨.give [], stack, heap, requests, depth⟩
  | some ⟨.mk named variadic block, scope⟩ =>
    let values := args.take named ++ List.replicate (named - args.length) .nil
    let (cells, heap) := heap.bindCells scope values
    ⟨.run ⟨block, block, ⟨cells, if variadic then args.drop named else []⟩⟩,
      .activation pos :: stack, heap, requests, depth + 1⟩

/-- The position of the call that a level of calls comes from; level 1 is the innermost call on the
stack. -/
def callPos : List Frame → Nat → Option Pos
  | [], _ => none
  | .activation pos :: rest, n => if n ≤ 1 then pos else callPos rest (n - 1)
  | .builtin _ site :: rest, n => if n ≤ 1 then site.pos else callPos rest (n - 1)
  | _ :: rest, n => callPos rest n

/-- Raises a value; a string gets the position of a level of calls, 1 being the call itself. -/
def raiseAt (m : Machine) (v : Value) (level : Int) (site : Site) : Machine :=
  match v with
  | .str s =>
    if level ≤ 0 then m.go (.raise v)
    else
      let pos := if level = 1 then site.pos else callPos m.stack (level.toNat - 1)
      m.go (.fault pos (charsOf s))
  | v => m.go (.raise v)

/-- What an answer of the library comes to. -/
def answered (m : Machine) (f : Native) (site : Site) : Answered → Machine
  | .ok (vs, change) =>
    let ⟨_, stack, heap, requests, depth⟩ := m
    ⟨.give vs, stack, change heap, requests, depth⟩
  | .error c => m.go (c.control f site)

/-- Calls something back. -/
def callBack (m : Machine) (p : Pending) (site : Site) (f : Value) (args : List Value) : Machine :=
  (m.pushCall (.builtin p site)).go (.call f args .outside)

/-- The name of a text in messages, from the name that it is loaded under. -/
def chunkShown (name : ByteArray) : ByteArray :=
  let cs := charsOf name
  match cs with
  | '=' :: rest => bytesOf (rest.take 59)
  | '@' :: rest =>
    if rest.length ≤ 59 then bytesOf rest
    else bytesOf ("...".toList ++ rest.drop (rest.length - 56))
  | cs =>
    let first := cs.takeWhile (· ≠ '\n')
    let whole := first.length = cs.length && cs.length < 45
    let shown := if whole then cs else first.take 45 ++ "...".toList
    bytesOf ("[string \"".toList ++ shown ++ "\"]".toList)

/-- The message of a fault of syntax. -/
def syntaxMessage (chunk : ByteArray) (f : SyntaxFault) : List Char :=
  Pos.shown (some ⟨chunk, f.line⟩) ++ f.message

/-- Makes a function of a text; `args` are the arguments behind it: its name, a mode, its
globals. -/
def loadText (m : Machine) (text : List Char) (name : ByteArray) (args : List Value) : Machine :=
  let chunk := chunkShown name
  let ownGlobals := Arguments.isGiven args 4
  match Body.ofText chunk ownGlobals text with
  | .error f => m.go (.give [.nil, .str (bytesOf (syntaxMessage chunk f))])
  | .ok body =>
    let ⟨_, stack, heap, requests, depth⟩ := m
    let (cells, heap) :=
      heap.bindCells [] (if ownGlobals then [Arguments.get args 4] else [])
    let (f, heap) := heap.newClosure ⟨body, cells⟩
    ⟨.give [f], stack, heap, requests, depth⟩

def load (m : Machine) (args : List Value) (site : Site) : Machine :=
  let f := Arguments.get args 1
  match f.toBytes? with
  | some s =>
    match Arguments.strOr m.heap args 2 s with
    | .ok name => m.loadText (charsOf s) name args
    | .error c => m.go (c.control .load site)
  | none =>
    if Arguments.isFunction f then m.callBack (.pieces f [] args) site f []
    else m.go ((Arguments.mismatch m.heap args 1 "function").control .load site)

/-- Gives an error the form in which the host sees it. -/
def describe (m : Machine) (error : Value) (site : Site) : Machine :=
  match m.heap.metamethod error "__tostring" with
  | .nil => m.go (.raise (.failure (m.heap.describe error)))
  | display => m.callBack .describe site display [error]

/-- Asks the host for something. -/
def ask (m : Machine) (c : Capability) (args : List Value) : Machine :=
  let ⟨_, stack, heap, requests, depth⟩ := m
  match (c.ask heap args).run requests with
  | (.error message, requests) => ⟨.raise (.failure message), stack, heap, requests, depth⟩
  | (.ok vs, requests) =>
    ⟨.give vs, stack, { heap with timeouts := heap.timeouts + 1 }, requests, depth⟩

/-- Displays what is left of a line's parts, and then logs it. -/
def logParts (m : Machine) (display : Value) (done : List String) (todo : List Value)
    (site : Site) : Machine :=
  match todo with
  | [] => m.ask .log [.text (" ".intercalate done.reverse)]
  | v :: rest => m.callBack (.log display done rest) site display [v]

/-- Logs a line, if what was found under the name of `tostring` is a function. -/
def logWith (m : Machine) (found : Value) (args : List Value) (site : Site) : Machine :=
  match Capability.toFunction found with
  | .error message => m.go (.raise (.failure message))
  | .ok display => m.logParts display [] args site

/-- Logs a line. The host looks up what displays its parts, in a call of its own if a function
stands for the globals that are missing. -/
def log (m : Machine) (args : List Value) (site : Site) : Machine :=
  match m.heap.display with
  | .value found => m.logWith found args site
  | .call f given =>
    (m.pushCall (.builtin (.lookUp args) site)).callBack .host .outside f given
  | .fault message => m.describe (.text message) site
  | _ => m.describe (.str (bytesOf (m.heap.badValue "index" (.table Heap.globals) none))) site

/-- Compares the item with the one in the middle of where it may belong. -/
def compareItem (m : Machine) (s : Sorting) (site : Site) : Machine :=
  let other := s.sorted[(s.low + s.high) / 2]?.getD .nil
  match s.comparator with
  | .nil =>
    match Operators.less m.heap s.item other with
    | .value v => (m.pushCall (.builtin (.sort s) site)).go (.give [v])
    | .test f args _ => m.callBack (.sort s) site f args
    | .fault message => m.go (.fault none message.toList)
    | _ => m.go (.give [])
  | f => m.callBack (.sort s) site f [s.item, other]

/-- Goes on sorting, an item having been compared or put where it belongs. -/
def sort (m : Machine) (s : Sorting) (site : Site) : Machine :=
  if s.low < s.high then m.compareItem s site
  else
    let sorted := s.sorted.toList.take s.low ++ s.item :: s.sorted.toList.drop s.low
    match s.todo with
    | [] =>
      let ⟨_, stack, heap, requests, depth⟩ := m
      ⟨.give [], stack, heap.modifyTable s.table (·.withList sorted), requests, depth⟩
    | item :: todo =>
      m.compareItem ⟨s.table, s.comparator, sorted.toArray, item, 0, sorted.length, todo⟩ site

/-- Sorts the list of a table, by a function or by the order of the values. -/
def startSort (m : Machine) (args : List Value) (site : Site) : Machine :=
  match Arguments.table m.heap args 1 with
  | .error c => m.go (c.control .tableSort site)
  | .ok id =>
    let comparator := Arguments.get args 2
    let vs := (m.heap.table id).list.toList
    let sorts := comparator.isNil || Arguments.isFunction comparator
    if vs.length < 2 then m.go (.give [])
    else if !sorts then
      m.go ((Arguments.mismatch m.heap args 2 "function").control .tableSort site)
    else match comparator, Library.sortedPlain? vs, vs with
      | .nil, some sorted, _ =>
        let ⟨_, stack, heap, requests, depth⟩ := m
        ⟨.give [], stack, heap.modifyTable id (·.withList sorted), requests, depth⟩
      | _, _, first :: second :: rest =>
        m.compareItem ⟨id, comparator, #[first], second, 0, 1, rest⟩ site
      | _, _, _ => m.go (.give [])

/-- The first argument from `n` on that has a metamethod for its text. -/
def displayedArgument (h : Heap) : Nat → List Value → Option (Nat × Value × Value)
  | _, [] => none
  | n, v :: rest =>
    match v, h.metamethod v "__tostring" with
    | .table _, .nil => displayedArgument h (n + 1) rest
    | .table _, f => some (n, v, f)
    | _, _ => displayedArgument h (n + 1) rest

def format (m : Machine) (args : List Value) (site : Site) : Machine :=
  match displayedArgument m.heap 2 (args.drop 1) with
  | some (n, v, f) => m.callBack (.format n args) site f [v]
  | none => m.answered .stringFormat site (Library.run .stringFormat m.heap args)

/-- The value under the next index of a list, with that index. -/
def nextElement (m : Machine) (args : List Value) (site : Site) : Machine :=
  match Arguments.int m.heap args 2 with
  | .error c => m.go (c.control .ipairsStep site)
  | .ok i =>
    match Operators.index m.heap Operators.chainLimit (Arguments.get args 1) (.int (i + 1)) with
    | .value .nil => m.go (.give [.nil])
    | .value v => m.go (.give [.int (i + 1), v])
    | .call f args => m.callBack (.element (i + 1)) site f args
    | .badOperand action _ =>
      m.go (.fault none (m.heap.badValue action (Arguments.get args 1) none))
    | .fault message => m.go (.fault none message.toList)
    | _ => m.go (.give [.nil])

def assert (m : Machine) (args : List Value) (site : Site) : Machine :=
  match args with
  | [] => m.go ((Complaint.argument 1 "value expected").control .assert site)
  | v :: rest =>
    if v.isTrue then m.go (.give args)
    else m.raiseAt (rest.headD (.text "assertion failed!")) 1 site

/-- Calls a function of the library. -/
def callNative (m : Machine) (f : Native) (args : List Value) (site : Site) : Machine :=
  match f, args with
  | .assert, args => m.assert args site
  | .error, args =>
    match Arguments.intOr m.heap args 2 1 with
    | .ok level => m.raiseAt (Arguments.get args 1) level.toInt site
    | .error c => m.go (c.control .error site)
  | .pcall, [] => m.go (.fault none "not enough arguments to pcall".toList)
  | .pcall, f :: args => m.callBack (.protect none) site f args
  | .xpcall, f :: handler :: args => m.callBack (.protect (some handler)) site f args
  | .xpcall, _ => m.go (.fault none "not enough arguments to xpcall".toList)
  | .tostring, v :: _ =>
    match m.heap.metamethod v "__tostring" with
    | .nil => m.answered f site (Library.run f m.heap args)
    | display => m.callBack .display site display [v]
  | .pairs, v :: _ =>
    match m.heap.metamethod v "__pairs" with
    | .nil => m.answered f site (Library.run f m.heap args)
    | iterate => m.callBack .iterate site iterate [v]
  | .stringFormat, args => m.format args site
  | .ipairsStep, args => m.nextElement args site
  | .tableSort, args => m.startSort args site
  | .load, args => m.load args site
  | f, args => m.answered f site (Library.run f m.heap args)

/-- Calls a value: a function, or one whose metatable says how it is called. -/
def call (m : Machine) (f : Value) (args : List Value) (site : Site) : Machine :=
  if depthLimit < m.depth then m.go (.fault site.pos "stack overflow".toList)
  else match f with
    | .function id => m.enter id args site.pos
    | .builtin (.native f) => m.callNative f args site
    | .builtin (.capability .log) => m.log args site
    | .builtin (.capability c) => m.ask c args
    | f =>
      match m.heap.metamethod f "__call" with
      | .nil => m.go (.fault site.pos (m.heap.badValue "call" f site.name))
      | g => m.go (.call g (f :: args) site)

/-- The stack below the activation on top, and the position that it was called from. -/
def belowActivation : List Frame → Option (Option Pos × List Frame)
  | [] => none
  | .activation pos :: rest => some (pos, rest)
  | _ :: rest => belowActivation rest

/-- Calls a value in place of the function that runs, which a script function takes the place of. -/
def tailCall (m : Machine) (f : Value) (args : List Value) (site : Site) : Machine :=
  match f, belowActivation m.stack with
  | .function id, some (pos, stack) =>
    let ⟨control, _, heap, requests, depth⟩ := m
    enter ⟨control, stack, heap, requests, depth - 1⟩ id args pos
  | f, _ => (m.push .leaving).go (.call f args site)

end Machine

end LiveModules.Script
