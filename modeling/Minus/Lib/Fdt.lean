/-
# Lib.Fdt — the flattened device tree through libfdt

The read-only calls of libfdt the kernel uses, as the answers they give: a node is
its offset, a property its bytes.  The cell counts of a bus are computed from the
properties as `lib/libfdt/fdt_addresses.c` does.
-/
import Minus.Mm.MemblockFdt

namespace Minus.Lib

set_option autoImplicit false

open Minus.Mm.Boot

/-- A device tree: `fdt_path_offset`, `fdt_parent_offset`, `fdt_get_name`,
`fdt_node_offset_by_phandle` and `fdt_getprop`.  A parent lies before its children. -/
structure Fdt where
  pathOffset : String → Int
  parentOffset : Int → Int
  getName : Int → Option (List UInt8)
  nodeOffsetByPhandle : UInt32 → Int
  getprop : Int → String → Except FdtErr (List UInt8)
  int : ∀ node name value, getprop node name = .ok value → value.length < 2 ^ 31
  parent_lt : ∀ node, 0 ≤ parentOffset node → parentOffset node < node

namespace Fdt

/-- `fdt32_to_cpu(prop[i])`. -/
def cell (value : List UInt8) (i : Nat) : UInt32 :=
  fdt32ToCpu (value.getD (4 * i) 0) (value.getD (4 * i + 1) 0) (value.getD (4 * i + 2) 0) (value.getD (4 * i + 3) 0)

def cells (fdt : Fdt) (node : Int) (name : String) : PropAnswer :=
  match fdt.getprop node name with
  | .error err => .missing err
  | .ok value => .value value.length (cell value 0)

/-- `fdt_address_cells`. -/
def addressCells (fdt : Fdt) (node : Int) : Int := fdtAddressCells (fdt.cells node "#address-cells")

/-- `fdt_size_cells`. -/
def sizeCells (fdt : Fdt) (node : Int) : Int := fdtSizeCells (fdt.cells node "#size-cells")

end Fdt

end Minus.Lib
