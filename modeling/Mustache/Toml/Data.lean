import Mustache.Json.Record
import Mustache.Toml.Read

/-!
Data in TOML. Dates and times are tables there, and a table that looks like one of them is one.
-/

namespace Mustache.Toml

mutual

/-- Reads the tables that are dates or times as such: those that begin with the field reserved for
them. What else they hold is passed over. -/
def withMoments? : Json → Option Json
  | .array items => do return .array (← itemsWithMoments? items)
  | .object [] => some (.object [])
  | .object ((name, j) :: es) => do
    if name = momentField then
      let text ← Moment.ofString? (← j.toString?)
      return .object [(momentField, .string text)]
    return .object ((name, ← withMoments? j) :: (← entriesWithMoments? es))
  | j => some j

def itemsWithMoments? : List Json → Option (List Json)
  | [] => some []
  | j :: js => do return (← withMoments? j) :: (← itemsWithMoments? js)

def entriesWithMoments? : List (String × Json) → Option (List (String × Json))
  | [] => some []
  | (name, j) :: es => do return (name, ← withMoments? j) :: (← entriesWithMoments? es)

end

/-- The data of a text. -/
def readData? (text : String) : Option Json := (read? text).bind withMoments?

end Mustache.Toml
