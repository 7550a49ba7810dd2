import LiveModules.Script.Library.Arithmetic
import LiveModules.Script.Library.Base
import LiveModules.Script.Library.Lists
import LiveModules.Script.Library.Text

/-!
# The library

Where scripts find the functions of the library, and what those answer that call nothing back.
-/

namespace LiveModules.Script

namespace Library

/-- Every function with its table, which is empty for a global one, and its name in it. -/
def entries : List (String × String × Native) :=
  [("", "assert", .assert), ("", "collectgarbage", .collectGarbage), ("", "error", .error),
    ("", "getmetatable", .getmetatable), ("", "ipairs", .ipairs), ("", "load", .load),
    ("", "next", .next), ("", "pairs", .pairs), ("", "pcall", .pcall),
    ("", "print", .print), ("", "rawequal", .rawequal), ("", "rawget", .rawget),
    ("", "rawlen", .rawlen),
    ("", "rawset", .rawset), ("", "select", .select), ("", "setmetatable", .setmetatable),
    ("", "tonumber", .tonumber), ("", "tostring", .tostring), ("", "type", .type),
    ("", "warn", .warn), ("", "xpcall", .xpcall),
    ("string", "byte", .stringByte), ("string", "char", .stringChar),
    ("string", "format", .stringFormat), ("string", "len", .stringLen),
    ("string", "lower", .stringLower), ("string", "rep", .stringRep),
    ("string", "reverse", .stringReverse), ("string", "sub", .stringSub),
    ("string", "upper", .stringUpper),
    ("table", "concat", .tableConcat), ("table", "insert", .tableInsert),
    ("table", "pack", .tablePack), ("table", "remove", .tableRemove),
    ("table", "sort", .tableSort), ("table", "unpack", .tableUnpack),
    ("math", "abs", .mathAbs), ("math", "ceil", .mathCeil), ("math", "cos", .mathCos),
    ("math", "exp", .mathExp), ("math", "floor", .mathFloor), ("math", "fmod", .mathFmod),
    ("math", "log", .mathLog), ("math", "max", .mathMax), ("math", "min", .mathMin),
    ("math", "modf", .mathModf), ("math", "sin", .mathSin), ("math", "sqrt", .mathSqrt),
    ("math", "tan", .mathTan), ("math", "tointeger", .mathToInteger),
    ("math", "type", .mathType), ("math", "ult", .mathUlt),
    ("utf8", "char", .utf8Char), ("utf8", "codepoint", .utf8Codepoint), ("utf8", "len", .utf8Len),
    ("coroutine", "create", .coroutineCreate), ("coroutine", "status", .coroutineStatus),
    ("coroutine", "isyieldable", .coroutineIsYieldable),
    ("coroutine", "running", .coroutineRunning)]

def tables : List String := ["string", "table", "math", "utf8", "coroutine"]

/-- The values of the library that are no functions. -/
def constants : List (String × String × Value) :=
  [("math", "pi", .float 3.141592653589793), ("math", "huge", .float (1.0 / 0.0)),
    ("math", "maxinteger", .int Int64.maxValue), ("math", "mininteger", .int Int64.minValue),
    ("utf8", "charpattern", .str ⟨#[0x5B, 0x00, 0x2D, 0x7F, 0xC2, 0x2D, 0xFD, 0x5D, 0x5B, 0x80,
      0x2D, 0xBF, 0x5D, 0x2A]⟩),
    ("", "_VERSION", .text "Lua 5.4"), ("", "_G", .table Heap.globals)]

/-- Puts the named values of one table into it. -/
def fillTable (name : String) (id : Nat) (h : Heap) : Heap :=
  let h := (entries.filter fun e => e.1 == name).foldl
    (fun h e => h.setField id e.2.1 (.builtin (.native e.2.2))) h
  (constants.filter fun e => e.1 == name).foldl (fun h e => h.setField id e.2.1 e.2.2) h

/-- Puts a table of the library into the globals. -/
def addTable (h : Heap) (name : String) : Heap :=
  if name == "string" then fillTable name Heap.strings (h.setField 0 name (.table Heap.strings))
  else
    let id := h.tables.size
    let (t, h) := h.newTable .empty
    fillTable name id (h.setField Heap.globals name t)

/-- A heap in which nothing ran. -/
def fresh : Heap :=
  let h := fillTable "" Heap.globals .empty
  let h := tables.foldl addTable h
  h.setField Heap.stringMeta "__index" (.table Heap.strings)

/-- The name of a function that is called under none. -/
def nameOf (f : Native) : String :=
  match entries.find? fun e => e.2.2 == f with
  | some ("", name, _) => name
  | some (table, name, _) => table ++ "." ++ name
  | none => "?"

/-- An address to show. -/
def address (kind : Nat) (id : Nat) : List Char :=
  "0x".toList ++ Decimal.padLeft 14 (Nat.toDigits 16 (0x550000000000 + (id * 4 + kind) * 16))

/-- What a failure shows behind its text. -/
def trace : String := "\nstack traceback:\n\t[C]: in ?"

/-- The text of a value that has no text of its own by a metamethod. -/
def display (h : Heap) (v : Value) : List Char :=
  let known (kind id : Nat) : List Char := h.typeName v ++ ": ".toList ++ address kind id
  match v with
  | .nil => "nil".toList
  | .bool b => (if b then "true" else "false").toList
  | .num n => n.write.toList
  | .str s => charsOf s
  | .null => "userdata: (nil)".toList
  | .failure text => charsOf (text ++ trace).toUTF8
  | .table id => known 0 id
  | .function id => known 1 id
  | .thread id => known 2 id
  | .builtin (.native f) =>
    "function: builtin: ".toList ++ address 3 ((entries.findIdx? fun e => e.2.2 == f).getD 0)
  | .builtin (.capability _) => known 3 0

/-- What a function answers that calls nothing back. -/
def run (f : Native) (h : Heap) (args : List Value) : Answered :=
  match f with
  | .type => typeOf args
  | .tonumber => toNumber h args
  | .rawequal => rawEqual args
  | .rawget => rawGet h args
  | .rawset => rawSet h args
  | .rawlen => rawLen h args
  | .select => select h args
  | .getmetatable => getMetatable h args
  | .setmetatable => setMetatable h args
  | .next => next h args
  | .ipairs => do return ([.builtin (.native .ipairsStep), ← Arguments.any args 1, .int 0], id)
  | .pairs => do return ([.builtin (.native .next), ← Arguments.any args 1, .nil], id)
  | .tostring => do single (.str (bytesOf (display h (← Arguments.any args 1))))
  | .collectGarbage => collectGarbage h args
  | .stringByte => stringByte h args
  | .stringChar => stringChar h args
  | .stringFormat => do single (.str (bytesOf (← Format.run (display h) h args)))
  | .stringLen => stringLen h args
  | .stringLower => mapBytes Char.toLower h args
  | .stringUpper => mapBytes Char.toUpper h args
  | .stringRep => stringRep h args
  | .stringReverse => stringReverse h args
  | .stringSub => stringSub h args
  | .tableConcat => tableConcat h args
  | .tableInsert => tableInsert h args
  | .tablePack => tablePack h args
  | .tableRemove => tableRemove h args
  | .tableUnpack => tableUnpack h args
  | .mathAbs => mathAbs h args
  | .mathCeil => rounding Float.ceil h args
  | .mathFloor => rounding Float.floor h args
  | .mathCos => onFloat Float.cos h args
  | .mathExp => onFloat Float.exp h args
  | .mathLog => mathLog h args
  | .mathSin => onFloat Float.sin h args
  | .mathSqrt => onFloat Float.sqrt h args
  | .mathTan => onFloat Float.tan h args
  | .mathFmod => mathFmod h args
  | .mathMax => best (fun n acc => acc.lt n) h args
  | .mathMin => best (fun n acc => n.lt acc) h args
  | .mathModf => mathModf h args
  | .mathToInteger => mathToInteger args
  | .mathType => mathType args
  | .mathUlt => mathUlt h args
  | .utf8Char => utf8Char h args
  | .utf8Codepoint => utf8Codepoint h args
  | .utf8Len => utf8Len h args
  | .coroutineCreate => createThread h args
  | .coroutineStatus => threadStatus h args
  | .coroutineIsYieldable => single (.bool false)
  | .coroutineRunning => runningThread
  | .print | .warn => .ok ([], id)
  | .assert | .error | .load | .pcall | .xpcall | .ipairsStep | .tableSort => .ok ([], id)

end Library

end LiveModules.Script
