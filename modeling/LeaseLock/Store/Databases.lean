/-!
# Databases

A table lies in a database, and a database is opened at a location. What a location means, and what
is found there, is a matter of the database engine and of the files that there are. A program is
handed the `Databases` that it can use, and supposes nothing of them.
-/

namespace LeaseLock

/-- The databases that can be used. -/
structure Databases where
  /-- Why no empty database can be opened and written at a location, if that is so. -/
  fault? : (location : String) → Option String

end LeaseLock
