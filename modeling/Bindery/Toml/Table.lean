import Bindery.Toml.Value

/-!
# `Toml.Table` — putting the lines of a text together

A text is a sequence of pairs under headers. A pair goes into the table that its header opened, below the tables that
its dotted key passes through. No key is given a value twice, and no finished table is added to.

## Contents
- `addPair`, `addPairs`: pairs into one table.
- `Block`, `addBlock`: a header with its pairs.
-/

namespace Bindery
namespace Toml

/-- A dotted key with its value. -/
abbrev Pair := List String × Value

/-- Replace the value of a key, or add the key at the end. -/
def alter (key : String) (change : Option Value → Except Problem Value) :
    Entries → Except Problem Entries
  | [] => do return [(key, ← change none)]
  | entry :: rest =>
    if entry.1 = key then do return (key, ← change (some entry.2)) :: rest
    else do return entry :: (← alter key change rest)

/-- Change the last of some tables. -/
def alterLast (change : Entries → Except Problem Entries) : List Entries → Except Problem (List Entries)
  | [] => .ok []
  | [last] => do return [← change last]
  | first :: rest => do return first :: (← alterLast change rest)

/-- Add a pair to a table. A dotted key may pass through tables that are not finished, but the table that receives the
value must itself have been made by dotted keys. -/
def addPair : List String → Value → Entries → Except Problem Entries
  | [], _, entries => .ok entries
  | [key], value, entries =>
    alter key (fun
      | none => .ok value
      | some _ => .error (.taken key)) entries
  | step :: next :: rest, value, entries =>
    alter step (fun
      | none => (addPair (next :: rest) value []).map (.table .dotted)
      | some (.table .dotted inner) => (addPair (next :: rest) value inner).map (.table .dotted)
      | some (.table .implied inner) =>
        if rest.isEmpty then .error (.taken step)
        else (addPair (next :: rest) value inner).map (.table .implied)
      | some (.tables items) =>
        if rest.isEmpty then .error (.taken step)
        else (alterLast (addPair (next :: rest) value) items).map .tables
      | some _ => .error (.taken step)) entries

/-- Add pairs to a table, one after the other. -/
def addPairs (pairs : List Pair) (entries : Entries) : Except Problem Entries :=
  pairs.foldlM (fun entries pair => addPair pair.1 pair.2 entries) entries

/-- A header and the pairs under it. A header in double brackets opens one more table of an array. -/
structure Block where
  isItem : Bool
  key : List String
  pairs : List Pair

/-- The table that a header opens, with the pairs under it, in place of what its key stands for so far. -/
def Block.opened (block : Block) (key : String) : Option Value → Except Problem Value
  | none =>
    if block.isItem then do return .tables [← addPairs block.pairs []]
    else do return .table .header (← addPairs block.pairs [])
  | some (.table .implied entries) =>
    if block.isItem then .error (.taken key)
    else do return .table .header (← addPairs block.pairs entries)
  | some (.tables items) =>
    if block.isItem then do return .tables (items ++ [← addPairs block.pairs []])
    else .error (.taken key)
  | some _ => .error (.taken key)

/-- Add a block at the place its key names. A header may pass through any table that is not written inline, and
passes through the last table of an array. -/
def addBlock (block : Block) : List String → Entries → Except Problem Entries
  | [], entries => .ok entries
  | [key], entries => alter key (block.opened key) entries
  | step :: next :: rest, entries =>
    alter step (fun
      | none => (addBlock block (next :: rest) []).map (.table .implied)
      | some (.table origin inner) =>
        if origin = .inline then .error (.taken step)
        else (addBlock block (next :: rest) inner).map (.table origin)
      | some (.tables items) => (alterLast (addBlock block (next :: rest)) items).map .tables
      | some _ => .error (.taken step)) entries

/-- The table of a whole text: the pairs before the first header, then the blocks. -/
def assemble (pairs : List Pair) (blocks : List Block) : Except Problem Entries := do
  blocks.foldlM (fun entries block => addBlock block block.key entries) (← addPairs pairs [])

end Toml
end Bindery
