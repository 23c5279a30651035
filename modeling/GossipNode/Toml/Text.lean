import GossipNode.Number.Digits
/-!
# TOML strings

Four written forms: basic and literal, each on one line or over several.  Basic forms have escapes.
Reading takes every form; writing takes the plainest form that holds the text, and escapes only when no
form without escapes does.
-/
namespace GossipNode.Toml.Text

open Number

/-! ## Reading

Each reader takes the characters after the opening quotes and gives the text with what follows the
closing quotes. -/

/-- May a character stand in a comment or a string as itself? -/
def isPlain (c : Char) : Bool := c = '\t' || (' ' ≤ c && c ≠ '\x7f')

/-- The scalar of a numeral in hexadecimal. -/
def scalar? (ds : List Char) : Option Char :=
  if ds.all (isDigit 16) then
    let n := ofDigits 16 ds
    if h : n.isValidChar then some (Char.ofNatAux n h) else none
  else none

def escaped? (c : Char) : Option Char :=
  if c = 'b' then some '\x08' else if c = 't' then some '\t' else if c = 'n' then some '\n'
  else if c = 'f' then some '\x0c' else if c = 'r' then some '\r' else if c = '"' then some '"'
  else if c = '\\' then some '\\' else none

def prepend (c : Char) (r : Option (List Char × List Char)) : Option (List Char × List Char) :=
  r.map (fun (t, rest) => (c :: t, rest))

/-- A basic string on one line. -/
def readBasic : List Char → Option (List Char × List Char)
  | [] => none
  | '"' :: r => some ([], r)
  | '\\' :: 'u' :: a :: b :: c :: d :: r =>
    (scalar? [a, b, c, d]).bind (fun x => prepend x (readBasic r))
  | '\\' :: 'U' :: a :: b :: c :: d :: e :: f :: g :: h :: r =>
    (scalar? [a, b, c, d, e, f, g, h]).bind (fun x => prepend x (readBasic r))
  | '\\' :: c :: r => (escaped? c).bind (fun x => prepend x (readBasic r))
  | c :: r => if isPlain c then prepend c (readBasic r) else none

/-- A literal string on one line. -/
def readLiteral : List Char → Option (List Char × List Char)
  | [] => none
  | '\'' :: r => some ([], r)
  | c :: r => if isPlain c then prepend c (readLiteral r) else none

/-- Where a reader of a basic string over several lines is. -/
inductive Place where
  | text
  /-- After a backslash at the end of a line, before the line break. -/
  | lineEnd
  /-- Skipping blanks and line breaks after that. -/
  | skipping
deriving DecidableEq, Repr

/-- A basic string over several lines, after the first line break if there is one there. -/
def readLongBasic : Place → List Char → Option (List Char × List Char)
  | _, [] => none
  | .lineEnd, '\n' :: r => readLongBasic .skipping r
  | .lineEnd, '\r' :: '\n' :: r => readLongBasic .skipping r
  | .lineEnd, c :: r => if c = ' ' || c = '\t' then readLongBasic .lineEnd r else none
  | .skipping, '\n' :: r => readLongBasic .skipping r
  | .skipping, ' ' :: r => readLongBasic .skipping r
  | .skipping, '\t' :: r => readLongBasic .skipping r
  | _, '\r' :: '\n' :: r => prepend '\n' (readLongBasic .text r)
  | _, '\n' :: r => prepend '\n' (readLongBasic .text r)
  | _, '"' :: '"' :: '"' :: '"' :: '"' :: r => some (['"', '"'], r)
  | _, '"' :: '"' :: '"' :: '"' :: r => some (['"'], r)
  | _, '"' :: '"' :: '"' :: r => some ([], r)
  | _, '\\' :: 'u' :: a :: b :: c :: d :: r =>
    (scalar? [a, b, c, d]).bind (fun x => prepend x (readLongBasic .text r))
  | _, '\\' :: 'U' :: a :: b :: c :: d :: e :: f :: g :: h :: r =>
    (scalar? [a, b, c, d, e, f, g, h]).bind (fun x => prepend x (readLongBasic .text r))
  | _, '\\' :: '\n' :: r => readLongBasic .skipping r
  | _, '\\' :: '\r' :: '\n' :: r => readLongBasic .skipping r
  | _, '\\' :: c :: r =>
    if c = ' ' || c = '\t' then readLongBasic .lineEnd r
    else (escaped? c).bind (fun x => prepend x (readLongBasic .text r))
  | _, c :: r => if isPlain c then prepend c (readLongBasic .text r) else none

/-- A literal string over several lines, after the first line break if there is one there. -/
def readLongLiteral : List Char → Option (List Char × List Char)
  | [] => none
  | '\r' :: '\n' :: r => prepend '\n' (readLongLiteral r)
  | '\n' :: r => prepend '\n' (readLongLiteral r)
  | '\'' :: '\'' :: '\'' :: '\'' :: '\'' :: r => some (['\'', '\''], r)
  | '\'' :: '\'' :: '\'' :: '\'' :: r => some (['\''], r)
  | '\'' :: '\'' :: '\'' :: r => some ([], r)
  | c :: r => if isPlain c then prepend c (readLongLiteral r) else none

def dropBreak : List Char → List Char
  | '\n' :: r => r
  | '\r' :: '\n' :: r => r
  | r => r

/-- A string in any form, at the head of the characters. -/
def read : List Char → Option (List Char × List Char)
  | '"' :: '"' :: '"' :: r => readLongBasic .text (dropBreak r)
  | '"' :: r => readBasic r
  | '\'' :: '\'' :: '\'' :: r => readLongLiteral (dropBreak r)
  | '\'' :: r => readLiteral r
  | _ => none

/-! ## Writing -/

/-- A control character that no form holds as itself. -/
def isControl (c : Char) : Bool := (c < ' ' && c ≠ '\t' && c ≠ '\n') || c = '\x7f'

def longestRun (q : Char) : Nat → List Char → Nat
  | run, [] => run
  | run, c :: r => if c = q then longestRun q (run + 1) r else max run (longestRun q 0 r)

/-- Capital hex digits of a control character, four of them. -/
def codeDigits (c : Char) : List Char :=
  let ds := (numeral 16 c.toNat).map Char.toUpper
  List.replicate (4 - ds.length) '0' ++ ds

def escape (c : Char) : List Char :=
  if c = '\x08' then ['\\', 'b'] else if c = '\t' then ['\\', 't'] else if c = '\n' then ['\\', 'n']
  else if c = '\x0c' then ['\\', 'f'] else if c = '\r' then ['\\', 'r'] else if c = '"' then ['\\', '"']
  else if c = '\\' then ['\\', '\\'] else if isControl c then '\\' :: 'u' :: codeDigits c
  else [c]

/-- A text in a basic form over several lines: line breaks stand, and so do quotes but for every third
in a row, `quotes` of which have just been written. -/
def escapeLong (quotes : Nat) : List Char → List Char
  | [] => []
  | c :: r =>
    if c = '"' then
      if quotes = 2 then '\\' :: '"' :: escapeLong 0 r else '"' :: escapeLong (quotes + 1) r
    else if c = '\n' then '\n' :: escapeLong 0 r
    else escape c ++ escapeLong 0 r

/-- The first line break after the opening quotes does not count, so a text with line breaks starts
after one. -/
def opening (quotes : List Char) (cs : List Char) : List Char :=
  if cs.contains '\n' then quotes ++ ['\n'] else quotes

def longQuotes : List Char := ['"', '"', '"']

def longApostrophes : List Char := ['\'', '\'', '\'']

/-- The first form that fits, in the order: basic, literal, basic over several lines, literal over
several lines; with escapes when none does. -/
def write (cs : List Char) : List Char :=
  let control := cs.any isControl
  let broken := cs.contains '\n'
  if !control && !cs.contains '\\' && !cs.contains '"' && !broken then
    '"' :: cs.flatMap escape ++ ['"']
  else if !control && !cs.contains '\'' && !broken then '\'' :: cs ++ ['\'']
  else if !control && !cs.contains '\\' && longestRun '"' 0 cs < 3 then
    opening longQuotes cs ++ escapeLong 0 cs ++ longQuotes
  else if !control && longestRun '\'' 0 cs < 3 then
    opening longApostrophes cs ++ cs ++ longApostrophes
  else if broken then opening longQuotes cs ++ escapeLong 0 cs ++ longQuotes
  else '"' :: cs.flatMap escape ++ ['"']

end GossipNode.Toml.Text
