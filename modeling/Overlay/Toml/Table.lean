import Overlay.Json.Basic

/-!
# Tables of TOML documents

A document is built table by table, and the way that a table came into being decides what may still
be added to it.

* A header defines its table, once. The tables on the way to it come into being with it and may be
  defined later.
* Dotted keys make tables that only other dotted keys of the same table may extend.
* A key is set once.
* The keys of a table keep the order in which they came. A table that is defined behind other keys
  moves behind them.
-/

namespace Overlay.Toml

/-- How a table came into being. -/
inductive Origin where
  /-- By a header of its own. -/
  | header
  /-- On the way to the table of a header. -/
  | passage
  /-- By a dotted key. -/
  | dotted
deriving DecidableEq, Repr

/-- What stands under a key: a value, a table, or an array of tables with the last one in front. -/
inductive Item where
  | value (x : Json)
  | table (origin : Origin) (members : List (String × Item))
  | tables (items : List (List (String × Item)))
deriving Inhabited

/-- A table that is built. -/
structure Table where
  origin : Origin
  members : List (String × Item)

namespace Table

/-- The table that holds a whole document. -/
def root : Table := ⟨.header, []⟩

/-- The item under a key. -/
def find? (t : Table) (key : String) : Option Item := Dict.find? key t.members

/-- The table with an item under a key: in place of the old one, or behind all others. -/
def put (t : Table) (key : String) (item : Item) : Table := { t with members := place t.members }
where
  /-- The members with the item among them. -/
  place : List (String × Item) → List (String × Item)
  | [] => [(key, item)]
  | (k, old) :: rest => if k = key then (k, item) :: rest else (k, old) :: place rest

/-- The table without a key. -/
def erase (t : Table) (key : String) : Table :=
  { t with members := t.members.filter fun m => m.1 ≠ key }

/-- Changes the table that a path leads to, and makes the tables that are missing on the way. With
dotted keys the way leads through tables that no header defines. -/
def descend (dotted : Bool) (change : Table → Option Table) : List String → Table → Option Table
  | [], t => change t
  | key :: path, t =>
    match t.find? key with
    | none => do
      let child ← descend dotted change path ⟨if dotted then .dotted else .passage, []⟩
      return t.put key (.table child.origin child.members)
    | some (.table origin members) =>
      if dotted && origin = .header then none
      else do
        let child ← descend dotted change path ⟨origin, members⟩
        return t.put key (.table child.origin child.members)
    | some (.tables (last :: others)) => do
      let child ← descend dotted change path ⟨.header, last⟩
      return t.put key (.tables (child.members :: others))
    | some _ => none

/-- Sets a key that is not set yet. A dotted key ends in a table of dotted keys. -/
def set (isDotted : Bool) (key : String) (x : Json) (t : Table) : Option Table :=
  if isDotted ∧ t.origin ≠ .dotted ∨ (t.find? key).isSome then none
  else some (t.put key (.value x))

/-- Sets a key with all its parts. -/
def assign (path : List String) (x : Json) (t : Table) : Option Table :=
  match path.getLast? with
  | none => none
  | some key => descend true (set (path.length ≠ 1) key x) path.dropLast t

/-- Defines the table of a header in the table in front of it. -/
def define (key : String) (t : Table) : Option Table :=
  match t.find? key with
  | none => some (t.put key (.table .header []))
  | some (.table .passage members) => some ((t.erase key).put key (.table .header members))
  | some _ => none

/-- Adds a table to an array of tables. -/
def append (key : String) (t : Table) : Option Table :=
  match t.find? key with
  | none => some (t.put key (.tables [[]]))
  | some (.tables items) => some (t.put key (.tables ([] :: items)))
  | some _ => none

/-- Opens the table of a header. -/
def openTable (isArray : Bool) (path : List String) (t : Table) : Option Table :=
  match path.getLast? with
  | none => none
  | some key => descend false (if isArray then append key else define key) path.dropLast t

end Table

/-- An item as a document. -/
def Item.toJson : Item → Json
  | value x => x
  | table _ members => .object (membersToJson members)
  | tables items => .array (itemsToJson items).reverse
where
  /-- The members of a table as documents. -/
  membersToJson : List (String × Item) → List (String × Json)
  | [] => []
  | (key, item) :: rest => (key, item.toJson) :: membersToJson rest
  /-- Tables as documents. -/
  itemsToJson : List (List (String × Item)) → List Json
  | [] => []
  | members :: rest => .object (membersToJson members) :: itemsToJson rest

/-- A table as a document. -/
def Table.toJson (t : Table) : Json := .object (Item.toJson.membersToJson t.members)

end Overlay.Toml
