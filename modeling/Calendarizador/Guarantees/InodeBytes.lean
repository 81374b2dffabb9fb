import Calendarizador.Invariant.InodeIo

/-!
# An inode is an array of bytes

`inode_read_at` and `inode_write_at` on an inode whose data is on the device: an array of fixed
length, of which a call reads or replaces the part that it reaches.
-/
namespace Calendarizador.Guarantees
open Foundation Source FileSys

section
variable {s : FileSys} {sector : Nat} {node : Inode}

end

end Calendarizador.Guarantees
