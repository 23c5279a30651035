import GossipNode.Number.Binary64
/-!
# TOML documents as trees

A document is a table: keys with items, in the order they were written.  Tables come into being in three
ways, and the way decides what may still be added: by a header of their own, by the header of a table
below them, or by a dotted key.  Inline tables and arrays are values and closed.
-/
namespace GossipNode.Toml

/-- The largest integer that a document may hold.  The smallest is one further from zero. -/
def maxInteger : Nat := 0x7FFFFFFFFFFFFFFF

inductive TableKind where
  /-- By a header of its own. -/
  | headed
  /-- By the header of a table below it. -/
  | implied
  /-- By a dotted key. -/
  | dotted
deriving DecidableEq, Repr

inductive Item where
  | string (s : String)
  | integer (n : Int)
  | float (x : Binary64)
  | boolean (b : Bool)
  /-- A date or a time. -/
  | moment
  | array (items : List Item)
  /-- A closed table, written inline. -/
  | inline (entries : List (String × Item))
  | table (kind : TableKind) (entries : List (String × Item))
  /-- An array of tables, each begun by a header; the last one is open. -/
  | tables (elements : List (List (String × Item)))

/-- Keys and items, in the order written. -/
abbrev Entries := List (String × Item)

namespace Entries

def find? (k : String) (es : Entries) : Option Item := List.lookup k es

/-- Replace the item of a key that is present. -/
def set (k : String) (i : Item) (es : Entries) : Entries :=
  es.map (fun e => if e.1 = k then (k, i) else e)

def add (k : String) (i : Item) (es : Entries) : Entries := es ++ [(k, i)]

/-- Set a key through the tables that `path` names.  `kind` is that of these entries and `direct` says
that no key of the path has been followed yet.  A value may go into the table whose header is open, or
into one that dotted keys made. -/
def setDotted (kind : TableKind) (direct : Bool) : List String → String → Item → Entries → Option Entries
  | [], k, i, es =>
    if !direct && kind ≠ .dotted then none
    else if (find? k es).isSome then none
    else some (add k i es)
  | p :: path, k, i, es =>
    match find? p es with
    | none => (setDotted .dotted false path k i []).map (fun sub => add p (.table .dotted sub) es)
    | some (.table .headed _) => none
    | some (.table kind' sub) =>
      (setDotted kind' false path k i sub).map (fun sub => set p (.table kind' sub) es)
    | some (.tables ts) =>
      match ts.getLast? with
      | none => none
      | some sub =>
        (setDotted .headed false path k i sub).map (fun sub => set p (.tables (ts.dropLast ++ [sub])) es)
    | some _ => none

/-- Change the table that a header path leads to, making the tables on the way. -/
def descend (f : Entries → Option Entries) : List String → Entries → Option Entries
  | [], es => f es
  | p :: path, es =>
    match find? p es with
    | none => (descend f path []).map (fun sub => add p (.table .implied sub) es)
    | some (.table kind sub) => (descend f path sub).map (fun sub => set p (.table kind sub) es)
    | some (.tables ts) =>
      match ts.getLast? with
      | none => none
      | some sub => (descend f path sub).map (fun sub => set p (.tables (ts.dropLast ++ [sub])) es)
    | some _ => none

def openTable (k : String) (es : Entries) : Option Entries :=
  match find? k es with
  | none => some (add k (.table .headed []) es)
  | some (.table .implied sub) => some (set k (.table .headed sub) es)
  | some _ => none

/-- Begin another table of an array of tables. -/
def openElement (k : String) (es : Entries) : Option Entries :=
  match find? k es with
  | none => some (add k (.tables [[]]) es)
  | some (.tables ts) => some (set k (.tables (ts ++ [[]])) es)
  | some _ => none

end Entries

end GossipNode.Toml
