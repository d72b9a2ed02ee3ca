/-!
Tables: entries under names, listed by ascending name, each name once.
-/

namespace Mustache

/-- Entries by ascending name. Names are ordered by their characters' code points, which is also
the order of their UTF-8 bytes. -/
abbrev Table (α : Type u) := List (String × α)

namespace Table

variable {α : Type u}

/-- Puts an entry in its place, over an entry of the same name. -/
def insert (name : String) (a : α) : Table α → Table α
  | [] => [(name, a)]
  | (k, b) :: rest =>
    if name < k then (name, a) :: (k, b) :: rest
    else if name = k then (name, a) :: rest
    else (k, b) :: insert name a rest

/-- The table of some entries; of two with one name the later counts. -/
def ofList (entries : List (String × α)) : Table α :=
  entries.foldl (fun t e => insert e.1 e.2 t) []

def find? (t : Table α) (name : String) : Option α := t.lookup name

def has (t : Table α) (name : String) : Bool := (t.find? name).isSome

def erase (t : Table α) (name : String) : Table α := t.filter fun e => e.1 != name

theorem find?_insert (t : Table α) (name other : String) (a : α) :
    find? (insert name a t) other = if other = name then some a else find? t other := by
  unfold find?
  induction t with
  | nil => simp only [insert, List.lookup_cons]; grind
  | cons e rest ih =>
    obtain ⟨k, b⟩ := e
    unfold insert
    repeat' split
    all_goals simp_all [List.lookup_cons]
    all_goals grind

theorem find?_erase (t : Table α) (name other : String) :
    find? (erase t name) other = if other = name then none else find? t other := by
  unfold find? erase
  induction t with
  | nil => simp
  | cons e rest ih =>
    obtain ⟨k, b⟩ := e
    simp only [List.filter_cons, List.lookup_cons]
    repeat' split
    all_goals simp_all [List.lookup_cons]
    all_goals grind

end Table

end Mustache
