import GossipNode.Toml.Scalar
import GossipNode.Toml.Text
/-!
# Reading TOML documents

A document is a sequence of lines: blank, `key = value`, or a header that opens a table; any of them may
end in a comment.  Values nest, so their readers take fuel, which the document's length bounds, and the
depth that is still allowed.
-/
namespace GossipNode.Toml

/-- Arrays and inline tables may be nested this deep. -/
def maxDepth : Nat := 79

/-- A dotted key may have this many parts. -/
def maxParts : Nat := 79

def skipBlanks : List Char → List Char := List.dropWhile (fun c => c = ' ' || c = '\t')

/-- The rest after a line break. -/
def lineBreak? : List Char → Option (List Char)
  | '\n' :: r => some r
  | '\r' :: '\n' :: r => some r
  | _ => none

def skipComment : List Char → List Char
  | '#' :: r => r.dropWhile Text.isPlain
  | r => r

def skipLines : Nat → List Char → List Char
  | 0, cs => cs
  | fuel + 1, cs =>
    let r := skipBlanks cs
    match lineBreak? r with
    | some r => skipLines fuel r
    | none =>
      match r with
      | '#' :: _ =>
        match lineBreak? (skipComment r) with
        | some r => skipLines fuel r
        | none => skipComment r
      | _ => r

/-! ## Keys -/

def isBare (c : Char) : Bool := c.isAlphanum || c = '_' || c = '-'

/-- A key without dots. -/
def readPart (cs : List Char) : Option (String × List Char) :=
  match cs with
  | '"' :: r => (Text.readBasic r).map (fun (t, r) => (String.ofList t, r))
  | '\'' :: r => (Text.readLiteral r).map (fun (t, r) => (String.ofList t, r))
  | _ =>
    let name := cs.takeWhile isBare
    if name.isEmpty then none else some (String.ofList name, cs.dropWhile isBare)

/-- The parts of a key, with dots between them. -/
def readParts : Nat → List Char → Option (List String × List Char)
  | 0, _ => none
  | fuel + 1, cs => do
    let (p, r) ← readPart (skipBlanks cs)
    match skipBlanks r with
    | '.' :: r => (readParts fuel r).map (fun (ps, r) => (p :: ps, r))
    | r => some ([p], r)

/-- A key: the parts before the last, and the last. -/
def readKey (cs : List Char) : Option (List String × String × List Char) := do
  let (ps, r) ← readParts maxParts cs
  let last ← ps.getLast?
  return (ps.dropLast, last, r)

/-! ## Values -/

mutual

/-- A value at the head of the characters. -/
def readValue : Nat → Nat → List Char → Option (Item × List Char)
  | 0, _, _ => none
  | fuel + 1, depth, cs =>
    match cs with
    | '"' :: _ => (Text.read cs).map (fun (t, r) => (.string (String.ofList t), r))
    | '\'' :: _ => (Text.read cs).map (fun (t, r) => (.string (String.ofList t), r))
    | '[' :: r =>
      match depth with
      | 0 => none
      | depth + 1 => (readItems fuel depth (skipLines fuel r)).map (fun (is, r) => (.array is, r))
    | '\x7b' :: r =>
      match depth with
      | 0 => none
      | depth + 1 =>
        match skipBlanks r with
        | '\x7d' :: r => some (.inline [], r)
        | r => (readPairs fuel depth [] r).map (fun (es, r) => (.inline es, r))
    | 't' :: 'r' :: 'u' :: 'e' :: r => some (.boolean true, r)
    | 'f' :: 'a' :: 'l' :: 's' :: 'e' :: r => some (.boolean false, r)
    | _ => Scalar.read cs

/-- The items of an array, up to the closing bracket. -/
def readItems : Nat → Nat → List Char → Option (List Item × List Char)
  | 0, _, _ => none
  | fuel + 1, depth, cs =>
    match cs with
    | ']' :: r => some ([], r)
    | _ => do
      let (i, r) ← readValue fuel depth cs
      match skipLines fuel r with
      | ']' :: r => some ([i], r)
      | ',' :: r => (readItems fuel depth (skipLines fuel r)).map (fun (is, r) => (i :: is, r))
      | _ => none

/-- The pairs of an inline table, up to the closing brace. -/
def readPairs : Nat → Nat → Entries → List Char → Option (Entries × List Char)
  | 0, _, _, _ => none
  | fuel + 1, depth, es, cs => do
    let (path, key, r) ← readKey cs
    match r with
    | '=' :: r =>
      let (i, r) ← readValue fuel depth (skipBlanks r)
      let es ← Entries.setDotted .headed true path key i es
      match skipBlanks r with
      | '\x7d' :: r => some (es, r)
      | ',' :: r => readPairs fuel depth es r
      | _ => none
    | _ => none

end

/-! ## Lines -/

/-- What follows the end of a line, where nothing but a comment may be left. -/
def endLine (cs : List Char) : Option (List Char) :=
  match skipComment (skipBlanks cs) with
  | [] => some []
  | r => lineBreak? r

/-- The path of a header after its opening bracket, and what follows the closing one. -/
def readHeader (close : List Char) (cs : List Char) : Option (List String × String × List Char) := do
  let (path, key, r) ← readKey cs
  if close.isPrefixOf r then return (path, key, r.drop close.length) else none

/-- Read lines into the document; `here` is the path of the open header. -/
def readLines : Nat → List String → Entries → List Char → Option Entries
  | 0, _, _, _ => none
  | fuel + 1, here, doc, cs =>
    match skipBlanks cs with
    | [] => some doc
    | '#' :: r => endLine ('#' :: r) >>= readLines fuel here doc
    | '\n' :: r => readLines fuel here doc r
    | '\r' :: r => endLine ('\r' :: r) >>= readLines fuel here doc
    | '[' :: '[' :: r => do
      let (path, key, r) ← readHeader [']', ']'] r
      let doc ← Entries.descend (Entries.openElement key) path doc
      let r ← endLine r
      readLines fuel (path ++ [key]) doc r
    | '[' :: r => do
      let (path, key, r) ← readHeader [']'] r
      let doc ← Entries.descend (Entries.openTable key) path doc
      let r ← endLine r
      readLines fuel (path ++ [key]) doc r
    | r => do
      let (path, key, r) ← readKey r
      match r with
      | '=' :: r =>
        let (i, r) ← readValue (2 * r.length + 2) maxDepth (skipBlanks r)
        let doc ← Entries.descend (Entries.setDotted .headed true path key i) here doc
        let r ← endLine r
        readLines fuel here doc r
      | _ => none

/-- The document that a text is, a byte-order mark at its head aside. -/
def readDocument (s : String) : Option Entries :=
  let cs := s.toList
  let cs := if cs.head? = some '\uFEFF' then cs.drop 1 else cs
  readLines (cs.length + 1) [] [] cs

end GossipNode.Toml
