import LiveModules.Script.Number

/-!
# Lexemes

A text as a list of lexemes, each with its line and the text that a message shows for it. Where the
text is malformed the list ends in the fault; a reader that stops earlier never meets it.
-/

namespace LiveModules.Script

inductive Token where
  | name (s : List Char)
  | str (s : List Char)
  | num (n : Num)
  /-- A keyword or a mark. -/
  | sign (s : String)
  /-- A character that begins no lexeme. -/
  | other (c : Char)
  | eof

/-- A fault of a text: what is wrong, and the line. -/
structure SyntaxFault where
  message : List Char
  line : Nat

structure Lexeme where
  token : Token
  /-- What a message shows for it. -/
  shown : List Char
  line : Nat

namespace Lexeme

def keywords : List String :=
  ["and", "break", "do", "else", "elseif", "end", "false", "for", "function", "goto", "if", "in",
    "local", "nil", "not", "or", "repeat", "return", "then", "true", "until", "while"]

/-- The marks of more than one character, longer ones first. -/
def longMarks : List String :=
  ["...", "..", "==", "~=", "<=", ">=", "//", "::", "<<", ">>"]

def shortMarks : List Char :=
  ['+', '-', '*', '/', '%', '^', '#', '&', '~', '|', '<', '>', '=', '(', ')', '\x7b', '\x7d', '[',
    ']', ';', ':', ',', '.']

/-- A text cut at its first NUL, as messages show it. -/
def visible (cs : List Char) : List Char := cs.takeWhile (· ≠ '\x00')

def quoted (cs : List Char) : List Char := '\'' :: (visible cs ++ ['\''])

def showEnd : List Char := "<eof>".toList

def showChar (c : Char) : List Char :=
  if 32 ≤ c.toNat && c.toNat ≤ 126 then ['\'', c, '\'']
  else "'<\\".toList ++ (toString c.toNat).toList ++ ">'".toList

def fault (message : String) (shown : List Char) (line : Nat) : SyntaxFault :=
  ⟨message.toList ++ " near ".toList ++ shown, line⟩

/-- What a scanner answers: a lexeme, and the line and text behind it. -/
abbrev Scanned := Except SyntaxFault (Lexeme × Nat × List Char)

def isNewline (c : Char) : Bool := c = '\n' || c = '\r'

/-- Behind a line break, which may have two characters. -/
def skipNewline : List Char → List Char
  | '\n' :: '\r' :: rest => rest
  | '\r' :: '\n' :: rest => rest
  | _ :: rest => rest
  | [] => []

/-! ## Long brackets -/

/-- The number of equals signs in an opening long bracket, from behind its first character. -/
def longOpening (cs : List Char) : Nat × Option (List Char) :=
  let level := (cs.takeWhile (· = '=')).length
  match cs.drop level with
  | '[' :: rest => (level, some rest)
  | _ => (level, none)

def closesLong (level : Nat) (cs : List Char) : Option (List Char) :=
  if cs.take level = List.replicate level '=' then
    match cs.drop level with
    | ']' :: rest => some rest
    | _ => none
  else none

/-- Reads on in a long bracket; every character takes fuel. -/
def longBody (level : Nat) : Nat → List Char → Nat → List Char →
    Option (List Char × Nat × List Char)
  | 0, _, _, _ => none
  | fuel + 1, seen, line, cs =>
    match cs with
    | [] => none
    | ']' :: rest =>
      match closesLong level rest with
      | some behind => some (seen.reverse, line, behind)
      | none => longBody level fuel (']' :: seen) line rest
    | c :: rest =>
      if isNewline c then longBody level fuel ('\n' :: seen) (line + 1) (skipNewline (c :: rest))
      else longBody level fuel (c :: seen) line rest

/-- The text in a long bracket, from behind its opening. A line break at its start is left out. -/
def readLong (what : String) (level line : Nat) (cs : List Char) :
    Except SyntaxFault (List Char × Nat × List Char) :=
  let (first, cs) := match cs with
    | c :: rest => if isNewline c then (line + 1, skipNewline (c :: rest)) else (line, cs)
    | [] => (line, cs)
  match longBody level (cs.length + 1) [] first cs with
  | some r => .ok r
  | none =>
    let breaks := (cs.filter isNewline).length
    .error (fault ("unfinished long " ++ what ++ " (starting at line " ++ toString line ++ ")")
      showEnd (first + breaks))

/-! ## Strings -/

/-- A part of a string: what it stands for, how a message shows it, and what is behind. -/
structure Piece where
  value : List Char
  lines : Nat
  rest : List Char

/-- A fault in an escape: `bad` is how many characters of it a message shows. -/
abbrev EscapeResult := Except (String × Nat) Piece

def ofBytes (bs : List UInt8) : List Char := bs.map fun b => Char.ofNat b.toNat

/-- Behind `\u`. -/
def readPoint (cs : List Char) : EscapeResult :=
  match cs with
  | '\x7b' :: rest =>
    let ds := rest.takeWhile isHexDigit
    if ds.isEmpty then .error ("hexadecimal digit expected", 2)
    else
      let tooLarge := (List.range ds.length).find? fun k =>
        Nat.pow 2 31 ≤ Num.readDigits 16 (ds.take (k + 1))
      match tooLarge with
      | some k => .error ("UTF-8 value too large", k + 2)
      | none =>
        match rest.drop ds.length with
        | '\x7d' :: behind =>
          .ok ⟨ofBytes (encodePoint (Num.readDigits 16 ds)), 0, behind⟩
        | _ => .error ("missing '\x7d'", ds.length + 2)
  | _ => .error ("missing '\x7b'", 1)

/-- Behind `\z`: blanks are skipped. -/
def skipBlanks : Nat → Nat → List Char → Nat × List Char
  | 0, lines, cs => (lines, cs)
  | fuel + 1, lines, cs =>
    match cs with
    | [] => (lines, [])
    | c :: rest =>
      if isNewline c then skipBlanks fuel (lines + 1) (skipNewline (c :: rest))
      else if isSpace c then skipBlanks fuel lines rest
      else (lines, cs)

/-- Behind a backslash. -/
def readEscape (cs : List Char) : EscapeResult :=
  let plain (c : Char) (rest : List Char) : EscapeResult := .ok ⟨[c], 0, rest⟩
  match cs with
  | [] => .ok ⟨[], 0, []⟩
  | 'a' :: r => plain '\x07' r
  | 'b' :: r => plain '\x08' r
  | 'f' :: r => plain '\x0c' r
  | 'n' :: r => plain '\n' r
  | 'r' :: r => plain '\r' r
  | 't' :: r => plain '\t' r
  | 'v' :: r => plain '\x0b' r
  | '\\' :: r => plain '\\' r
  | '"' :: r => plain '"' r
  | '\'' :: r => plain '\'' r
  | 'x' :: r =>
    match r with
    | a :: b :: behind =>
      if !isHexDigit a then .error ("hexadecimal digit expected", 1)
      else if !isHexDigit b then .error ("hexadecimal digit expected", 2)
      else plain (Char.ofNat (hexValue a * 16 + hexValue b)) behind
    | [a] => .error ("hexadecimal digit expected", if isHexDigit a then 2 else 1)
    | [] => .error ("hexadecimal digit expected", 1)
  | 'u' :: r => (readPoint r).mapError fun e => (e.1, e.2)
  | 'z' :: r =>
    let (lines, behind) := skipBlanks (r.length + 1) 0 r
    .ok ⟨[], lines, behind⟩
  | c :: r =>
    if isNewline c then .ok ⟨['\n'], 1, skipNewline (c :: r)⟩
    else if isDigit c then
      let ds := (c :: r).take 3 |>.takeWhile isDigit
      let n := Num.readDigits 10 ds
      if 255 < n then .error ("decimal escape too large", ds.length)
      else plain (Char.ofNat n) ((c :: r).drop ds.length)
    else .error ("invalid escape sequence", 0)

/-- Reads on in a string that `quote` ends; `seen` is its value so far, latest first. -/
def stringBody (quote : Char) : Nat → List Char → Nat → List Char →
    Except SyntaxFault (List Char × Nat × List Char)
  | 0, _, line, _ => .error (fault "unfinished string" showEnd line)
  | fuel + 1, seen, line, cs =>
    let soFar (more : List Char) : List Char := quoted (quote :: (seen.reverse ++ more))
    match cs with
    | [] => .error (fault "unfinished string" showEnd line)
    | '\\' :: rest =>
      match readEscape rest with
      | .ok p => stringBody quote fuel (p.value.reverse ++ seen) (line + p.lines) p.rest
      | .error (message, count) =>
        .error (fault message (soFar ('\\' :: rest.take (count + 1))) line)
    | c :: rest =>
      if c = quote then .ok (seen.reverse, line, rest)
      else if isNewline c then .error (fault "unfinished string" (soFar []) line)
      else stringBody quote fuel (c :: seen) line rest

/-! ## Numerals -/

def isExponentMark (hex : Bool) (c : Char) : Bool :=
  if hex then c = 'p' || c = 'P' else c = 'e' || c = 'E'

/-- The characters that are taken as one numeral; a sign may follow the letter of an exponent. -/
def numeralRun (hex : Bool) : List Char → List Char
  | [] => []
  | [c] => if isExponentMark hex c || isHexDigit c || c = '.' then [c] else []
  | c :: s :: rest =>
    if isExponentMark hex c && (s = '+' || s = '-') then c :: s :: numeralRun hex rest
    else if isExponentMark hex c || isHexDigit c || c = '.' then c :: numeralRun hex (s :: rest)
    else []

def readNumeral (line : Nat) (cs : List Char) : Scanned :=
  let hex := match cs with
    | '0' :: x :: _ => x = 'x' || x = 'X'
    | _ => false
  let run := if hex then cs.take 2 ++ numeralRun true (cs.drop 2) else numeralRun false cs
  let behind := cs.drop run.length
  let (run, behind) := match behind with
    | c :: rest => if isNameChar c then (run ++ [c], rest) else (run, behind)
    | [] => (run, behind)
  match Num.readUnsigned? run with
  | some n => .ok (⟨.num n, quoted run, line⟩, line, behind)
  | none => .error (fault "malformed number" (quoted run) line)

/-! ## One lexeme -/

def readMark (line : Nat) (cs : List Char) : Scanned :=
  match longMarks.find? fun m => m.toList.isPrefixOf cs with
  | some m => .ok (⟨.sign m, quoted m.toList, line⟩, line, cs.drop m.length)
  | none =>
    match cs with
    | [] => .ok (⟨.eof, showEnd, line⟩, line, [])
    | c :: rest =>
      if shortMarks.contains c then .ok (⟨.sign c.toString, quoted [c], line⟩, line, rest)
      else .ok (⟨.other c, showChar c, line⟩, line, rest)

/-- Behind a comment's two dashes: the line and the text after the comment. -/
def skipComment (line : Nat) (cs : List Char) : Except SyntaxFault (Nat × List Char) :=
  let short : Nat × List Char := (line, cs.dropWhile fun c => !isNewline c)
  match cs with
  | '[' :: rest =>
    match longOpening rest with
    | (level, some body) => (readLong "comment" level line body).map fun r => r.2
    | _ => .ok short
  | _ => .ok short

/-- The next lexeme; blanks and comments take fuel. -/
def scan : Nat → Nat → List Char → Scanned
  | 0, line, _ => .ok (⟨.eof, showEnd, line⟩, line, [])
  | fuel + 1, line, cs =>
    match cs with
    | [] => .ok (⟨.eof, showEnd, line⟩, line, [])
    | '-' :: '-' :: rest =>
      match skipComment line rest with
      | .ok (line, rest) => scan fuel line rest
      | .error f => .error f
    | '[' :: rest =>
      match longOpening rest with
      | (level, some body) =>
        (readLong "string" level line body).map fun (s, after, behind) =>
          let mark := '[' :: (List.replicate level '=' ++ ['['])
          let close := ']' :: (List.replicate level '=' ++ [']'])
          (⟨.str s, quoted (mark ++ s ++ close), after⟩, after, behind)
      | (0, none) => readMark line cs
      | (level, none) =>
        .error (fault "invalid long string delimiter"
          (quoted ('[' :: List.replicate level '=')) line)
    | c :: rest =>
      if isNewline c then scan fuel (line + 1) (skipNewline (c :: rest))
      else if isSpace c then scan fuel line rest
      else if c = '"' || c = '\'' then
        (stringBody c (rest.length + 1) [] line rest).map fun (s, after, behind) =>
          (⟨.str s, quoted (c :: (s ++ [c])), after⟩, after, behind)
      else if isDigit c || (c = '.' && rest.head?.any isDigit) then readNumeral line cs
      else if isLetter c || c = '_' then
        let word := cs.takeWhile isNameChar
        let behind := cs.dropWhile isNameChar
        let token :=
          if keywords.contains (String.ofList word) then Token.sign (String.ofList word)
          else .name word
        .ok (⟨token, quoted word, line⟩, line, behind)
      else readMark line cs

/-- All lexemes, the last of them the end, and the fault that cut them short, if there is one. -/
def scanAll : Nat → Nat → List Char → List Lexeme × Option SyntaxFault
  | 0, line, _ => ([⟨.eof, showEnd, line⟩], none)
  | fuel + 1, line, cs =>
    match scan (cs.length + 1) line cs with
    | .error f => ([], some f)
    | .ok (l, line, rest) =>
      match l.token with
      | .eof => ([l], none)
      | _ =>
        let (ls, f) := scanAll fuel line rest
        (l :: ls, f)

def ofText (text : List Char) : List Lexeme × Option SyntaxFault :=
  scanAll (text.length + 1) 1 text

end Lexeme

end LiveModules.Script
