import PipelineFusion.Toml.Scalar

/-!
# TOML tables

A document is a table of items.  A table knows how it came about, because that decides who may still
add to it: headers open tables that are only implied so far, dotted keys extend what dotted keys
began, and inline tables are closed.
-/

namespace PipelineFusion.Toml

inductive Standing where
  | implied
  | dotted
  | header
  | inline
  deriving DecidableEq, Repr

inductive Item where
  | text (s : String)
  | scalar (s : Scalar)
  | array (items : List Item)
  | table (standing : Standing) (fields : List (String × Item))
  | tables (elements : List (List (String × Item)))

abbrev Fields := List (String × Item)

namespace Fields

def get? (key : String) (t : Fields) : Option Item := List.lookup key t

def set (key : String) (item : Item) : Fields → Fields
  | [] => [(key, item)]
  | (k, i) :: t => if k = key then (k, item) :: t else (k, i) :: set key item t

/-- Changes the table at the end of a path, whose missing tables are made on the way.  Headers walk
through all tables that are not inline and into the last table of a list; dotted keys only walk
through tables that no header has opened.  The change is told whether dotted keys made the table. -/
def alter (dotted : Bool) (change : Bool → Fields → Option Fields) :
    List String → Bool → Fields → Option Fields
  | [], made, t => change made t
  | key :: path, _, t =>
    match t.get? key with
    | none =>
      (alter dotted change path dotted []).map fun u ↦
        t.set key (.table (if dotted then .dotted else .implied) u)
    | some (.table standing u) =>
      if standing = .inline ∨ dotted = true ∧ standing = .header then none
      else (alter dotted change path (standing = .dotted) u).map fun u ↦
        t.set key (.table standing u)
    | some (.tables us) =>
      match us.getLast? with
      | none => none
      | some u => (alter dotted change path false u).map fun u ↦
        t.set key (.tables (us.dropLast ++ [u]))
    | some _ => none

/-- A value under a dotted key.  The table that takes it is the current one, or one made by dotted
keys. -/
def assign (path : List String) (key : String) (item : Item) (t : Fields) : Option Fields :=
  alter true
    (fun made u ↦
      if made = path.isEmpty then none
      else if (u.get? key).isSome then none
      else some (u.set key item))
    path false t

/-- Opens a table under a header: a new one, or one that is only implied so far. -/
def openTable (path : List String) (key : String) (t : Fields) : Option Fields :=
  alter false
    (fun _ u ↦
      match u.get? key with
      | none => some (u.set key (.table .header []))
      | some (.table .implied v) => some (u.set key (.table .header v))
      | some _ => none)
    path false t

/-- Opens one more table of a list of tables. -/
def openElement (path : List String) (key : String) (t : Fields) : Option Fields :=
  alter false
    (fun _ u ↦
      match u.get? key with
      | none => some (u.set key (.tables [[]]))
      | some (.tables vs) => some (u.set key (.tables (vs ++ [[]])))
      | some _ => none)
    path false t

end Fields
end PipelineFusion.Toml
