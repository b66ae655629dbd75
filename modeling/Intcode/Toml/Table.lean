import Intcode.Toml.Text
import Intcode.Value

namespace Intcode.Toml

abbrev Table := List (String × Value)

namespace Table

def put (t : Table) (k : String) (v : Value) : Table :=
  if (t.lookup k).isSome then t.map fun (k', v') => (k', if k' = k then v else v')
  else t ++ [(k, v)]

def insert (k : String) (v : Value) (t : Table) : Except Error Table :=
  if (t.lookup k).isSome then .error .malformed else .ok (t ++ [(k, v)])

-- Changes the table at the end of a path; tables that are not there are made. With `lists` the last
-- element of a list stands for the list.
def modify (lists : Bool) (f : Table → Except Error Table) :
    List String → Table → Except Error Table
  | [], t => f t
  | k :: ks, t =>
    match t.lookup k with
    | none => do return t.put k (.table (← modify lists f ks []))
    | some (.table inner) => do return t.put k (.table (← modify lists f ks inner))
    | some (.list vs) =>
      match lists, vs.getLast? with
      | true, some (.table inner) => do
        return t.put k (.list (vs.dropLast ++ [.table (← modify lists f ks inner)]))
      | _, _ => .error .malformed
    | some _ => .error .malformed

def append (k : String) (t : Table) : Except Error Table :=
  match t.lookup k with
  | none => .ok (t ++ [(k, .list [.table []])])
  | some (.list vs) => .ok (t.put k (.list (vs ++ [.table []])))
  | some _ => .error .malformed

end Table

def isClosed : Value → Bool
  | .list _ => true
  | .table _ => true
  | _ => false

end Intcode.Toml
