/-!
# Labels

How messages speak of a cell: by its name, and of a cell without a name by its number.
-/

namespace Cellbook

/-- The name by which messages speak of a cell. -/
def cellLabel (name : Option String) (id : Nat) : String :=
  match name with
  | some name => name
  | none => s!"#{id}"

end Cellbook
