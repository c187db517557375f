import Scriptlet.Syntax.Token
import Scriptlet.Number.Reading
import Scriptlet.Unicode.Identifier

/-!
# Tokens of a source

A source is cut into tokens on demand, because the meaning of a slash and of a closing brace
depends on the grammar.  Each function takes the characters that are left with the offset of the
first of them, and fails on text that is no token.

## Main definitions

* `Lexer.skipTrivia` — blanks, line ends and comments.
* `Lexer.next?` — the next token, a slash being an operator.
* `Lexer.regExp?` — the regular expression literal that starts at a slash.
* `Lexer.continuation?` — the template piece that starts at a closing brace.
* `Lexer.greater` — the longest operator that starts at a greater sign.
-/

namespace Scriptlet

namespace Lexer

/-- Characters that end a line. -/
def isLineEnd (c : Char) : Bool := c = '\n' || c = '\r' || c = '\u2028' || c = '\u2029'

/-- Characters between tokens that do not end a line. -/
def isGap (c : Char) : Bool :=
  c = ' ' || c = '\t' || c = '\x0b' || c = '\x0c' || c = '\u00a0' || c = '\ufeff' ||
    c = '\u0085' || c = '\u1680' || ('\u2000' ≤ c && c ≤ '\u200b') || c = '\u202f' ||
    c = '\u205f' || c = '\u3000'

/-! ### Blanks and comments -/

/-- What a stretch between two tokens consists of.  Of a mark of two characters the second one is in
`completing g`, where `g` is what follows the mark. -/
inductive Gap
  | blank | lineComment | blockComment
  | completing (after : Gap)

/-- Skips blanks, line ends and comments.  The result holds the characters that are left, their
offset, and whether a line ended; it fails on a comment that does not end. -/
def skipGap (gap : Gap) (i : Nat) (newLine : Bool) : List Char → Option (List Char × Nat × Bool)
  | [] =>
    match gap with
    | .blank | .lineComment => some ([], i, newLine)
    | _ => none
  | c :: rest =>
    let next := i + c.utf8Size
    match gap with
    | .blank =>
      if isLineEnd c then skipGap .blank next true rest
      else if isGap c then skipGap .blank next newLine rest
      else if c = '/' && rest.head? = some '/' then skipGap .lineComment next newLine rest
      else if c = '/' && rest.head? = some '*' then
        skipGap (.completing .blockComment) next newLine rest
      else some (c :: rest, i, newLine)
    | .lineComment =>
      if isLineEnd c then skipGap .blank next true rest
      else skipGap .lineComment next newLine rest
    | .blockComment =>
      if c = '*' && rest.head? = some '/' then skipGap (.completing .blank) next newLine rest
      else skipGap .blockComment next (newLine || isLineEnd c) rest
    | .completing after => skipGap after next newLine rest

/-- Skips everything between two tokens. -/
def skipTrivia (cs : List Char) (i : Nat) : Option (List Char × Nat × Bool) :=
  skipGap .blank i false cs

/-- The number of bytes of a list of characters. -/
def byteLength (cs : List Char) : Nat := cs.foldl (fun n c => n + c.utf8Size) 0

/-! ### Escapes -/

/-- The hexadecimal digits up to a closing brace, as a number that is a code point. -/
def bracedPoint? (acc count : Nat) : List Char → Option (Nat × List Char)
  | [] => none
  | c :: rest =>
    if c = '}' then if count = 0 then none else some (acc, rest)
    else
      match Text.hexDigit? c with
      | some d =>
        let value := acc * 16 + d
        if 0x10FFFF < value then none else bracedPoint? value (count + 1) rest
      | none => none

/-- The code point of a Unicode escape, the backslash and the letter being skipped. -/
def unicodeEscape? : List Char → Option (Nat × List Char)
  | '{' :: rest => bracedPoint? 0 0 rest
  | a :: b :: c :: d :: rest => do
    let w ← Text.hexDigit? a
    let x ← Text.hexDigit? b
    let y ← Text.hexDigit? c
    let z ← Text.hexDigit? d
    pure (((w * 16 + x) * 16 + y) * 16 + z, rest)
  | _ => none

/-- The code point of an escape of two hexadecimal digits, the backslash and the letter being
skipped. -/
def hexEscape? : List Char → Option (Nat × List Char)
  | a :: b :: rest => do
    let x ← Text.hexDigit? a
    let y ← Text.hexDigit? b
    pure (x * 16 + y, rest)
  | _ => none

/-- An octal digit. -/
def isOctal (c : Char) : Bool := '0' ≤ c && c ≤ '7'

/-- The value of a digit. -/
def digitValue (c : Char) : Nat := c.toNat - 48

/-- The code point of an octal escape that starts with the digit `c`: at most three digits, and
two if the first is above three. -/
def octalEscape (c : Char) (cs : List Char) : Nat × List Char :=
  match cs with
  | d :: e :: rest =>
    if isOctal d then
      if isOctal e && c ≤ '3' then
        ((digitValue c * 8 + digitValue d) * 8 + digitValue e, rest)
      else (digitValue c * 8 + digitValue d, e :: rest)
    else (digitValue c, cs)
  | [d] => if isOctal d then (digitValue c * 8 + digitValue d, []) else (digitValue c, cs)
  | [] => (digitValue c, cs)

/-- What an escape stands for. -/
inductive Escape
  | point (p : Nat)
  | nothing
  | wrong

/-- Reads an escape, the backslash being skipped.  In a template no octal escape is right, and a
wrong escape does not end the text. -/
def escape? (inTemplate : Bool) (cs : List Char) : Option (Escape × List Char) :=
  match cs with
  | [] => none
  | c :: rest =>
    match c with
    | 'n' => some (.point 10, rest)
    | 't' => some (.point 9, rest)
    | 'r' => some (.point 13, rest)
    | 'b' => some (.point 8, rest)
    | 'v' => some (.point 11, rest)
    | 'f' => some (.point 12, rest)
    | '\r' =>
      match rest with
      | '\n' :: more => some (.nothing, more)
      | _ => some (.nothing, rest)
    | '\n' | '\u2028' | '\u2029' => some (.nothing, rest)
    | 'x' =>
      match hexEscape? rest with
      | some (p, more) => some (.point p, more)
      | none => if inTemplate then some (.wrong, rest) else none
    | 'u' =>
      match unicodeEscape? rest with
      | some (p, more) => some (.point p, more)
      | none => if inTemplate then some (.wrong, rest) else none
    | _ =>
      if '0' ≤ c && c ≤ '9' then
        if c = '0' && !(rest.head?.any isDigit) then some (.point 0, rest)
        else if inTemplate then some (.wrong, rest)
        else if isOctal c then
          let (p, more) := octalEscape c rest
          some (.point p, more)
        else some (.point c.toNat, rest)
      else some (.point c.toNat, rest)

/-! ### Words -/

/-- The rest of a word that holds an escape. -/
def escapedWord? : Nat → List Char → List Char → Option (List Char × List Char)
  | 0, _, _ => none
  | fuel + 1, acc, cs =>
    match cs with
    | '\\' :: 'u' :: more =>
      match unicodeEscape? more with
      | some (p, rest) =>
        if Text.isSurrogatePoint p then none
        else
          let c := Char.ofNat p
          let fits :=
            if acc.isEmpty then Unicode.isIdentifierStart c else Unicode.isIdentifierPart c
          if fits then escapedWord? fuel (c :: acc) rest else none
      | none => none
    | '\\' :: _ => none
    | c :: rest =>
      if Unicode.isIdentifierPart c then escapedWord? fuel (c :: acc) rest
      else some (acc.reverse, cs)
    | [] => some (acc.reverse, [])

/-- A word that starts with the given characters: its name, whether it holds an escape, and what
follows. -/
def word? (cs : List Char) : Option (String × Bool × List Char) :=
  let plain := cs.takeWhile Unicode.isIdentifierPart
  let rest := cs.dropWhile Unicode.isIdentifierPart
  match rest with
  | '\\' :: _ =>
    match escapedWord? (rest.length + 1) plain.reverse rest with
    | some (name, after) => some (String.ofList name, true, after)
    | none => none
  | _ => some (String.ofList plain, false, rest)

/-! ### Numbers -/

/-- Digits with single underscores between them. -/
def separated? (isMember : Char → Bool) (acc : List Char) :
    List Char → Option (List Char × List Char)
  | [] => some (acc.reverse, [])
  | c :: rest =>
    if isMember c then separated? isMember (c :: acc) rest
    else if c = '_' then
      match acc, rest with
      | _ :: _, d :: more =>
        if isMember d then separated? isMember (d :: acc) more else none
      | _, _ => none
    else some (acc.reverse, c :: rest)

/-- What may not follow a number directly. -/
def endsNumber : List Char → Bool
  | [] => true
  | c :: _ => !(isDigit c || Unicode.isIdentifierStart c || c = '\\')

/-- An exponent behind a number: nothing, or digits behind a letter and an optional sign. -/
def exponentPart? (cs : List Char) : Option (Int × List Char) :=
  match cs with
  | [] => some (0, [])
  | c :: rest =>
    if c = 'e' || c = 'E' then
      let (negative, rest) := readSign rest
      match separated? isDigit [] rest with
      | some ([], _) => none
      | some (ds, after) =>
        let n : Int := digitsValue ds
        some (if negative then -n else n, after)
      | none => none
    else some (0, cs)

/-- A number with the given digits before the point, `cs` being what follows the point. -/
def fractionPart? (whole cs : List Char) : Option (Token × List Char) := do
  let (fraction, rest) ←
    match cs with
    | '_' :: _ => none
    | _ => separated? isDigit [] cs
  let (exponent, rest) ← exponentPart? rest
  if endsNumber rest then pure (.number (Literal.value ⟨whole, fraction, exponent⟩), rest)
  else none

/-- A number with the given digits, `cs` being what follows them. -/
def decimalTail? (whole cs : List Char) : Option (Token × List Char) :=
  match cs with
  | '.' :: rest => fractionPart? whole rest
  | 'n' :: rest => if endsNumber rest then some (.bigInt, rest) else none
  | _ => do
    let (exponent, rest) ← exponentPart? cs
    if endsNumber rest then pure (.number (Literal.value ⟨whole, [], exponent⟩), rest)
    else none

/-- An integer in a radix other than ten, its mark being skipped. -/
def radixTail? (radix : Nat) (cs : List Char) : Option (Token × List Char) := do
  let (ds, rest) ← separated? (fun c => (Radix.digit? radix c).isSome) [] cs
  if ds.isEmpty then none
  else
    match rest with
    | 'n' :: after => if endsNumber after then pure (.bigInt, after) else none
    | _ =>
      if endsNumber rest then
        pure (.number (Radix.value radix (ds.filterMap (Radix.digit? radix))), rest)
      else none

/-- An integer with a zero in front: octal, unless a digit is above seven. -/
def zeroTail? (cs : List Char) : Option (Token × List Char) :=
  let ds := cs.takeWhile isDigit
  let rest := cs.dropWhile isDigit
  if ds.all isOctal then
    if endsNumber rest then some (.number (Radix.value 8 (ds.map digitValue)), rest) else none
  else
    match rest with
    | '.' :: after => fractionPart? ds after
    | 'e' :: _ => decimalTail? ds rest
    | _ => if endsNumber rest then some (.number (Literal.value ⟨ds, [], 0⟩), rest) else none

/-- The number that starts with the digit `c`. -/
def number? (c : Char) (cs : List Char) : Option (Token × List Char) :=
  if c = '0' then
    match cs with
    | 'x' :: rest | 'X' :: rest => radixTail? 16 rest
    | 'o' :: rest | 'O' :: rest => radixTail? 8 rest
    | 'b' :: rest | 'B' :: rest => radixTail? 2 rest
    | '_' :: _ => none
    | d :: _ => if isDigit d then zeroTail? cs else decimalTail? [c] cs
    | [] => decimalTail? [c] cs
  else do
    let (ds, rest) ← separated? isDigit [] (c :: cs)
    decimalTail? ds rest

/-! ### Strings and templates -/

/-- The rest of a string up to its closing quote. -/
def string? (quote : Char) : Nat → Text → List Char → Option (Text × List Char)
  | 0, _, _ => none
  | fuel + 1, acc, cs =>
    match cs with
    | [] => none
    | c :: rest =>
      if c = quote then some (acc, rest)
      else if c = '\\' then
        match escape? false rest with
        | some (.point p, more) => string? quote fuel (acc.pushPoint p) more
        | some (_, more) => string? quote fuel acc more
        | none => none
      else if c = '\n' || c = '\r' then none
      else string? quote fuel (acc.pushPoint c.toNat) rest

/-- The rest of a template piece: its value unless an escape is wrong, its length in characters, and
what follows the mark that ends it. -/
def template? : Nat → Option Text → Nat → List Char → Option (Option Text × Nat × Bool × List Char)
  | 0, _, _, _ => none
  | fuel + 1, acc, count, cs =>
    match cs with
    | [] => none
    | '`' :: rest => some (acc, count, true, rest)
    | '$' :: '{' :: rest => some (acc, count, false, rest)
    | '\\' :: rest =>
      match escape? true rest with
      | some (e, more) =>
        let count := count + 1 + (rest.length - more.length)
        match e with
        | .point p => template? fuel (acc.map (·.pushPoint p)) count more
        | .nothing => template? fuel acc count more
        | .wrong => template? fuel none count more
      | none => none
    | '\r' :: '\n' :: rest => template? fuel (acc.map (·.pushPoint 10)) (count + 2) rest
    | '\r' :: rest => template? fuel (acc.map (·.pushPoint 10)) (count + 1) rest
    | c :: rest => template? fuel (acc.map (·.pushPoint c.toNat)) (count + 1) rest

/-- Writes every line end of a spelling as a line feed. -/
def normalizeLines : List Char → List Char
  | [] => []
  | '\r' :: '\n' :: rest => '\n' :: normalizeLines rest
  | '\r' :: rest => '\n' :: normalizeLines rest
  | c :: rest => c :: normalizeLines rest

/-- The template piece whose text is `cs`. -/
def templatePiece? (cs : List Char) : Option (Token × List Char) := do
  let (value, count, last, rest) ← template? (cs.length + 1) (some Text.empty) 0 cs
  pure (.template ⟨value, String.ofList (normalizeLines (cs.take count))⟩ last, rest)

/-! ### Marks -/

/-- The marks of several characters, longer ones first.  A greater sign starts none of them. -/
def longMarks : List String :=
  ["...", "===", "!==", "**=", "<<=", "&&=", "||=", "??=",
   "=>", "==", "!=", "<=", "<<", "++", "+=", "--", "-=", "**", "*=", "/=", "%=", "&&", "&=", "||",
   "|=", "^=", "??"]

/-- The marks of one character. -/
def shortMarks : List Char :=
  ['{', '}', '(', ')', '[', ']', ';', ',', '<', '>', '=', '!', '+', '-', '*', '/', '%', '&', '|',
   '^', '~', '?', ':', '.', '@']

/-- The mark at the start of the characters. -/
def mark? (cs : List Char) : Option (Token × List Char) :=
  match cs with
  | '?' :: '.' :: rest =>
    if rest.head?.any isDigit then some (.mark "?", '.' :: rest) else some (.mark "?.", rest)
  | '<' :: '!' :: '-' :: '-' :: _ => none
  | _ =>
    match longMarks.find? fun m => m.toList.isPrefixOf cs with
    | some m => some (.mark m, cs.drop m.length)
    | none =>
      match cs with
      | c :: rest => if shortMarks.contains c then some (.mark c.toString, rest) else none
      | [] => none

/-- The operators that start with a greater sign, longer ones first. -/
def greaterMarks : List String := [">>>=", ">>>", ">>=", ">>", ">=", ">"]

/-- The longest operator at the start of characters that start with a greater sign. -/
def greater (cs : List Char) : String × List Char :=
  match greaterMarks.find? fun m => m.toList.isPrefixOf cs with
  | some m => (m, cs.drop m.length)
  | none => (">", cs.drop 1)

/-! ### Regular expressions -/

/-- The rest of the body of a regular expression; inside brackets a slash does not end it. -/
def regExpBody? (inClass : Bool) : List Char → Option (List Char)
  | [] => none
  | c :: rest =>
    if isLineEnd c then none
    else if c = '\\' then
      match rest with
      | [] => none
      | d :: more => if isLineEnd d then none else regExpBody? inClass more
    else if c = '[' then regExpBody? true rest
    else if c = ']' then regExpBody? false rest
    else if c = '/' && !inClass then some rest
    else regExpBody? inClass rest

/-- The flags of a regular expression; each may be given once. -/
def areFlags (fs : List Char) : Bool :=
  fs.all (fun c => "gimsuydv".toList.contains c) && fs.eraseDups.length == fs.length

/-! ### The next token -/

/-- The token at the start of nonempty characters that are no blanks. -/
def tokenAt? (cs : List Char) : Option (Token × List Char) :=
  match cs with
  | [] => some (.endOfInput, [])
  | c :: rest =>
    if Unicode.isIdentifierStart c || c = '\\' then do
      let (name, escaped, after) ← word? cs
      pure (.word name escaped, after)
    else if isDigit c then number? c rest
    else if c = '"' || c = '\'' then do
      let (t, after) ← string? c (rest.length + 1) Text.empty rest
      pure (.string t, after)
    else if c = '`' then templatePiece? rest
    else if c = '#' then
      match rest with
      | d :: _ =>
        if Unicode.isIdentifierStart d || d = '\\' then do
          let (_, _, after) ← word? rest
          pure (.privateName, after)
        else none
      | [] => none
    else if c = '.' && rest.head?.any isDigit then fractionPart? [] rest
    else mark? cs

/-- A lexeme from the characters before and behind its token. -/
def lexeme (t : Token) (cs rest : List Char) (start : Nat) (newLine : Bool) : Lexeme :=
  ⟨t, start, start + byteLength (cs.take (cs.length - rest.length)), newLine, cs, rest⟩

/-- The token that follows, its first character being at or behind offset `i`. -/
def next? (cs : List Char) (i : Nat) : Option Lexeme := do
  let (cs, start, newLine) ← skipTrivia cs i
  let (t, rest) ← tokenAt? cs
  pure (lexeme t cs rest start newLine)

/-- The regular expression literal that starts where the lexeme does. -/
def regExp? (l : Lexeme) : Option Lexeme :=
  match l.source with
  | '/' :: body => do
    let after ← regExpBody? false body
    let flags := after.takeWhile Unicode.isIdentifierPart
    if areFlags flags then
      pure (lexeme .regExp l.source (after.dropWhile Unicode.isIdentifierPart) l.start l.onNewLine)
    else none
  | _ => none

/-- The template piece behind the closing brace that the lexeme is. -/
def continuation? (l : Lexeme) : Option Lexeme :=
  match l.source with
  | '}' :: body => do
    let (t, rest) ← templatePiece? body
    pure (lexeme t l.source rest l.start l.onNewLine)
  | _ => none

/-- The longest operator that starts where the lexeme does, a greater sign. -/
def joined (l : Lexeme) : Lexeme :=
  let (m, rest) := greater l.source
  lexeme (.mark m) l.source rest l.start l.onNewLine

/-- Skips the first line if it names an interpreter. -/
def skipInterpreterLine (cs : List Char) : List Char × Nat :=
  match cs with
  | '#' :: '!' :: _ =>
    let line := cs.takeWhile fun c => !isLineEnd c
    (cs.dropWhile fun c => !isLineEnd c, byteLength line)
  | _ => (cs, 0)

end Lexer

end Scriptlet
