/-! # Key-ordered members

A list of `(key, value)` members kept in ascending key order with each key once is how
maps are held here: iteration order is key order, and building one from members in any
order lets a later member replace an earlier one of the same key.
-/
namespace Tickflow

variable {κ α : Type} [Ord κ]

/-- Inserts a member into a key-ordered member list, replacing the member of the same key. -/
def insertMember (key : κ) (v : α) : List (κ × α) → List (κ × α)
  | [] => [(key,v)]
  | (k,w) :: rest =>
    match compare key k with
    | .lt => (key,v) :: (k,w) :: rest
    | .eq => (key,v) :: rest
    | .gt => (k,w) :: insertMember key v rest

def orderMembers (members : List (κ × α)) : List (κ × α) :=
  members.foldl (fun acc (k,v) => insertMember k v acc) []

def lookupMember (key : κ) (members : List (κ × α)) : Option α :=
  (members.find? (compare ·.1 key == .eq)).map (·.2)

def eraseMember (key : κ) (members : List (κ × α)) : List (κ × α) :=
  members.filter (compare ·.1 key != .eq)

/-- The member list with the value of `key` changed by `f`, starting from `default` when the
key is absent. -/
def alterMember (key : κ) (default : α) (f : α → α) (members : List (κ × α)) : List (κ × α) :=
  insertMember key (f ((lookupMember key members).getD default)) members

end Tickflow
