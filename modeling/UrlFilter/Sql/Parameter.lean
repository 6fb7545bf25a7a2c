/-! Bound parameters. The values that a client sends reach the database as parameters alone;
the text of a statement holds their placeholders. -/
namespace UrlFilter.Sql

/-- A value bound to a placeholder. Numbers and times are bound as text, too. -/
inductive Parameter where
  | text (s : String)
  | bool (b : Bool)
  deriving DecidableEq, Repr

namespace Parameter

/-- The placeholder of the parameter at a place, counted from one. -/
def placeholder (place : Nat) : String :=
  "$" ++ toString place

/-- The truth value that a text spells. -/
def bool? : String → Option Bool
  | "1" | "t" | "T" | "TRUE" | "true" | "True" => some true
  | "0" | "f" | "F" | "FALSE" | "false" | "False" => some false
  | _ => none

end Parameter
end UrlFilter.Sql
