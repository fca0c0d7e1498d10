/-
# GuestSync.Header.Csv -- tables as text

A table is written as a line with the names of its two columns and then a line
for each member: its name, a comma and its number. Every line ends in a line feed.
-/
import GuestSync.Header.Member

namespace GuestSync.Csv

/-- The line for the names of the columns. -/
def header : String := "Name,Value\n"

/-- The line for a member. -/
def row (m : Member) : String := m.name ++ "," ++ toString m.value.toNat ++ "\n"

/-- The text of a table. -/
def render (members : List Member) : String := header ++ String.join (members.map row)

end GuestSync.Csv
