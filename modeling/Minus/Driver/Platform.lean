/-
# Driver.Platform — platform devices and their drivers

`of_platform_populate` (`kernel/driver/core/of.c`) makes a device of a node and keeps
the pointer to its `compatible` property; `platform_match` (`platform.c`) takes the
pointer for one string.  The property is a list of strings, which
`of_device_is_compatible` goes through.  The two agree exactly where the first string
decides (`platformMatch_honours_iff`).

A property is followed by its padding or by the next tag: a zero byte in both cases.
-/
import Minus.Driver.Of
import Minus.Lib.String

namespace Minus.Driver.Platform

set_option autoImplicit false

open Minus.Lib Minus.Lib.String Minus.Driver.Of

/-- The bytes behind a pointer to a property, or to a string without its terminator. -/
def text (bytes : List UInt8) : Chars := ofList (bytes ++ [0])

/-! ## The compatible list -/

/-- `while (str < end && *str != '\0') str++;` -/
def stringEnd (prop : List UInt8) (str : Nat) : Nat := str + ((prop.drop str).takeWhile (· ≠ 0)).length

/-- The loop of `of_get_compatible`, with room for so many more pointers. -/
def compatibleLoop (prop : List UInt8) (str : Nat) : Nat → List Nat
  | 0 => []
  | room + 1 => if str < prop.length then str :: compatibleLoop prop (stringEnd prop str + 1) room else []

/-- `of_get_compatible`: the property and where its strings start. -/
def ofGetCompatible (fdt : Fdt) (node : Int) (maxCount : Nat) : List UInt8 × List Nat :=
  match fdt.getprop node "compatible" with
  | .error _ => ([], [])
  | .ok prop => (prop, compatibleLoop prop 0 maxCount)

def isCompatibleLoop (prop compat : List UInt8) : List Nat → Option Int
  | [] => some 0
  | str :: rest => do
      if (← strcmp ((text prop).drop str) (text compat) (prop.length + 2)) = 0 then return 1
      else isCompatibleLoop prop compat rest

def ofDeviceIsCompatible (fdt : Fdt) (node : Int) (compat : List UInt8) : Option Int :=
  let (prop, compatibles) := ofGetCompatible fdt node 16
  isCompatibleLoop prop compat compatibles

/-! ## The resources of a node -/

def ofGetAddressCount (fdt : Fdt) (node parent : Int) : Nat :=
  let ac := fdt.addressCells parent
  let sc := fdt.sizeCells parent
  if ac < 0 ∨ sc < 0 then 0
  else
    match fdt.getprop node "reg" with
    | .error _ => 0
    | .ok prop =>
        let entryCells := (ac + sc).toNat
        if prop.length < entryCells * 4 then 0 else prop.length / (entryCells * 4)

def ofFindInterruptParent (fdt : Fdt) : Nat → Int → Option Int
  | 0, _ => none
  | fuel + 1, node =>
      let inherited :=
        let parent := fdt.parentOffset node
        if parent < 0 then some parent
        else
          match fdt.getprop parent "interrupt-controller" with
          | .ok _ => some parent
          | .error _ => ofFindInterruptParent fdt fuel parent
      match fdt.getprop node "interrupt-parent" with
      | .ok prop => if 4 ≤ prop.length then some (fdt.nodeOffsetByPhandle (Fdt.cell prop 0)) else inherited
      | .error _ => inherited

def ofGetInterruptCells (fdt : Fdt) (intc : Int) : Int :=
  if intc < 0 then -einval
  else
    match fdt.getprop intc "#interrupt-cells" with
    | .error _ => -einval
    | .ok prop => if prop.length < 4 then -einval else (Fdt.cell prop 0).toInt32.toInt

/-- `of_irq_from_cells(prop + first, nr_cells)`. -/
def ofIrqFromCells (prop : List UInt8) (first : Nat) (nrCells : Int) : Int :=
  if nrCells ≤ 0 then -einval
  else if nrCells = 1 then (Fdt.cell prop first).toInt32.toInt
  else
    let irq := Fdt.cell prop (first + 1)
    match (Fdt.cell prop first).toNat with
    | 0 => (irq + 32).toInt32.toInt
    | 1 => (irq + 16).toInt32.toInt
    | 2 => irq.toInt32.toInt
    | _ => -einval

/-- `IORESOURCE_IRQ`. -/
def ioresourceIrq : UInt32 := 0x400

/-- No result where `(index + 1) * icells * (int)sizeof(fdt32_t)` leaves the `int`s. -/
def ofGetIrqResource (fdt : Fdt) (fuel : Nat) (node : Int) (index : Nat) : Option (Except Int Resource) := do
  let intc ← ofFindInterruptParent fdt fuel node
  if intc < 0 then return .error (-enoent)
  else
    let icells := ofGetInterruptCells fdt intc
    if icells < 0 then return .error (-einval)
    else
      match fdt.getprop node "interrupts" with
      | .error _ => return .error (-enoent)
      | .ok prop =>
          if 2 ^ 31 ≤ (index + 1) * icells.toNat * 4 then none
          else if prop.length < (index + 1) * icells.toNat * 4 then return .error (-einval)
          else
            let irq := ofIrqFromCells prop (index * icells.toNat) icells
            if irq < 0 then return .error irq
            else return .ok ⟨UInt64.ofInt irq, UInt64.ofInt irq, ioresourceIrq, none⟩

def ofGetIrqCount (fdt : Fdt) (fuel : Nat) (node : Int) : Option Nat :=
  match fdt.getprop node "interrupts" with
  | .error _ => some 0
  | .ok prop => do
      let intc ← ofFindInterruptParent fdt fuel node
      if intc < 0 then return 0
      else
        let icells := ofGetInterruptCells fdt intc
        if icells ≤ 0 then return 0
        else if 2 ^ 31 ≤ icells * 4 then none
        else if prop.length < icells.toNat * 4 then return 0
        else return prop.length / (icells.toNat * 4)

/-! ## Devices -/

/-- `PLATFORM_MAX_RESOURCES`. -/
def platformMaxResources : Nat := 8

/-- `struct platform_device`; `compatible` is the property that the pointer points to. -/
structure PlatformDevice where
  name : List UInt8
  ofNode : Int
  resource : Vector Resource platformMaxResources
  numResources : Nat
  compatible : Option (List UInt8)
  deriving DecidableEq

/-- The loops that fill `pdev->resource` from index `first` on; a resource with an error stays zero. -/
def fillResources (get : Nat → Option (Except Int Resource)) (first count : Nat)
    (resource : Vector Resource platformMaxResources) : Option (Vector Resource platformMaxResources) :=
  (List.range count).foldlM (fun resource i => do
    match ← get i with
    | .error _ => return resource
    | .ok r => return resource.setIfInBounds (first + i) r) resource

def addResources (fdt : Fdt) (fuel : Nat) (pdev : PlatformDevice) : Option PlatformDevice := do
  let parent := fdt.parentOffset pdev.ofNode
  let count := if 0 ≤ parent then min (ofGetAddressCount fdt pdev.ofNode parent) platformMaxResources else 0
  let resource ← fillResources (ofGetAddressResource fdt fuel pdev.ofNode parent) 0 count pdev.resource
  let irqs := min (← ofGetIrqCount fdt fuel pdev.ofNode) (platformMaxResources - count)
  let resource ← fillResources (ofGetIrqResource fdt fuel pdev.ofNode) count irqs resource
  return { pdev with resource := resource, numResources := count + irqs }

def skippedNames : List (List UInt8) := [ascii "cpus", ascii "memory", ascii "chosen", ascii "aliases"]

/-- `strcmp(s, t) == 0` for one of the strings `t`. -/
def strcmpAny (s : List UInt8) : List (List UInt8) → Option Int
  | [] => some 0
  | t :: rest => do
      if (← strcmp (text s) (text t) (s.length + 2)) = 0 then return 1
      else strcmpAny s rest

def ofSkipNode (name : List UInt8) : Option Int := strcmpAny name skippedNames

/-- `status && strcmp(status, "disabled") == 0`. -/
def disabled (fdt : Fdt) (node : Int) : Option Int :=
  match fdt.getprop node "status" with
  | .error _ => some 0
  | .ok status => strcmpAny status [ascii "disabled"]

/-- The body of the loop of `of_platform_populate`: the device that is registered for a node, if one is;
`memory` tells whether `kmalloc` has room for it. -/
def populateNode (fdt : Fdt) (fuel : Nat) (memory : Bool) (node : Int) : Option (Option PlatformDevice) :=
  match fdt.getName node with
  | none => some none
  | some name => do
      if (← ofSkipNode name) ≠ 0 then return none
      else
        match fdt.getprop node "compatible" with
        | .error _ => return none
        | .ok compat =>
            if (← disabled fdt node) ≠ 0 then return none
            else if memory then
              return some (← addResources fdt fuel ⟨name, node, .replicate _ ⟨0, 0, 0, none⟩, 0, some compat⟩)
            else return none

/-- `platform_match`; the table of a driver without its last entry. -/
def platformMatch (pdev : PlatformDevice) (ofMatchTable : Option (List (List UInt8))) : Option Int :=
  match ofMatchTable, pdev.compatible with
  | some table, some compatible => strcmpAny compatible table
  | _, _ => some 0

/-! ## Comparing with a list of strings -/

theorem text_cstr {w : List UInt8} (nonzero : (0 : UInt8) ∉ w) : CStr (text w) w := ⟨fun _ _ => rfl, nonzero⟩

theorem strcmpAny_cstr {s v : List UInt8} (string : CStr (text s) v) (short : v.length < s.length + 2)
    {table : List (List UInt8)} (nonzero : ∀ t ∈ table, (0 : UInt8) ∉ t) :
    strcmpAny s table = some (if v ∈ table then 1 else 0) := by
  induction table with
  | nil => simp [strcmpAny]
  | cons t rest ih =>
      have compared := strcmp_cstr string (text_cstr (nonzero t (by simp))) short
      have rest := ih fun u member => nonzero u (by simp [member])
      by_cases same : v = t
      · simp [strcmpAny, compared, same]
      · simp [strcmpAny, compared, rest, same]

/-- The bytes of a list of strings, each with its terminator. -/
def listing (strs : List (List UInt8)) : List UInt8 := (strs.map (· ++ [0])).flatten

@[simp] theorem listing_cons (s : List UInt8) (strs : List (List UInt8)) :
    listing (s :: strs) = s ++ 0 :: listing strs := by simp [listing]

/-- `str` points to the string `s` in the property. -/
def PointsTo (prop : List UInt8) (str : Nat) (s : List UInt8) : Prop :=
  CStr ((text prop).drop str) s ∧ s.length < prop.length

theorem pointsTo_listing (before : List UInt8) {s : List UInt8} (nonzero : (0 : UInt8) ∉ s) (rest : List UInt8) :
    PointsTo (before ++ (s ++ 0 :: rest)) before.length s := by
  refine ⟨⟨fun i short => ?_, nonzero⟩, by simp; omega⟩
  have here : (before ++ (s ++ 0 :: rest)) ++ [0] = before ++ ((s ++ [0]) ++ (rest ++ [0])) := by simp
  rw [Chars.drop, text, here, ofList, List.getElem?_append_right (by omega), Nat.add_sub_cancel,
    List.getElem?_append_left (by rw [List.length_append]; simp; omega)]

theorem stringEnd_listing (before : List UInt8) {s : List UInt8} (nonzero : (0 : UInt8) ∉ s) (rest : List UInt8) :
    stringEnd (before ++ (s ++ 0 :: rest)) before.length = before.length + s.length := by
  have all : ∀ c ∈ s, decide (c ≠ 0) = true := by
    intro c member
    simpa using ne_of_mem_of_not_mem member nonzero
  rw [stringEnd, List.drop_left, List.takeWhile_append_of_pos all]
  simp

/-- The loop finds the strings of a listing, if there is room for them. -/
theorem compatibleLoop_listing (before : List UInt8) {strs : List (List UInt8)} (nonzero : ∀ s ∈ strs, (0 : UInt8) ∉ s)
    {room : Nat} (few : strs.length ≤ room) :
    List.Forall₂ (PointsTo (before ++ listing strs)) (compatibleLoop (before ++ listing strs) before.length room) strs := by
  induction strs generalizing before room with
  | nil =>
      cases room with
      | zero => exact List.Forall₂.nil
      | succ room => simp [compatibleLoop, listing]
  | cons s strs ih =>
      obtain ⟨room, rfl⟩ := Nat.exists_eq_succ_of_ne_zero (Nat.ne_zero_of_lt few)
      have clean := nonzero s (by simp)
      have inside : before.length < (before ++ listing (s :: strs)).length := by simp
      have onward := ih (before ++ (s ++ [0])) (fun t member => nonzero t (by simp [member])) (Nat.le_of_succ_le_succ few)
      have same : before ++ (s ++ [0]) ++ listing strs = before ++ listing (s :: strs) := by simp
      have next : (before ++ (s ++ [0])).length = before.length + s.length + 1 := by simp [Nat.add_assoc]
      rw [same, next] at onward
      rw [compatibleLoop, if_pos inside]
      rw [listing_cons] at onward ⊢
      rw [stringEnd_listing before clean]
      exact List.Forall₂.cons (pointsTo_listing before clean _) onward

theorem isCompatibleLoop_of_pointers {prop compat : List UInt8} (literal : (0 : UInt8) ∉ compat) {pointers : List Nat}
    {strs : List (List UInt8)} (point : List.Forall₂ (PointsTo prop) pointers strs) :
    isCompatibleLoop prop compat pointers = some (if compat ∈ strs then 1 else 0) := by
  induction point with
  | nil => simp [isCompatibleLoop]
  | @cons str s pointers strs first _ ih =>
      have compared := strcmp_cstr first.1 (text_cstr literal) (show s.length < prop.length + 2 by have := first.2; omega)
      by_cases same : s = compat
      · simp [isCompatibleLoop, compared, same]
      · simp [isCompatibleLoop, compared, ih, same, Ne.symm same]

section Node

variable {fdt : Fdt} {node : Int} {strs : List (List UInt8)}

/-- `of_device_is_compatible` looks at every string of the list. -/
theorem ofDeviceIsCompatible_listing (answer : fdt.getprop node "compatible" = .ok (listing strs))
    (nonzero : ∀ s ∈ strs, (0 : UInt8) ∉ s) (few : strs.length ≤ 16) {compat : List UInt8} (literal : (0 : UInt8) ∉ compat) :
    ofDeviceIsCompatible fdt node compat = some (if compat ∈ strs then 1 else 0) := by
  have point := compatibleLoop_listing [] nonzero few
  simp only [ofDeviceIsCompatible, ofGetCompatible, answer]
  exact isCompatibleLoop_of_pointers literal point

theorem addResources_compatible {fuel : Nat} {pdev pdev' : PlatformDevice} (added : addResources fdt fuel pdev = some pdev') :
    pdev'.compatible = pdev.compatible := by
  simp only [addResources, Option.bind_eq_bind, Option.bind_eq_some_iff] at added
  obtain ⟨_, -, _, -, _, -, same⟩ := added
  obtain rfl := Option.some.inj same
  rfl

/-- A device points to the property of its node. -/
theorem populateNode_compatible {fuel : Nat} {memory : Bool} {pdev : PlatformDevice} {compat : List UInt8}
    (made : populateNode fdt fuel memory node = some (some pdev)) (answer : fdt.getprop node "compatible" = .ok compat) :
    pdev.compatible = some compat := by
  rw [populateNode] at made
  split at made
  next => cases made
  next name _ =>
    simp only [answer, Option.bind_eq_bind, Option.bind_eq_some_iff] at made
    obtain ⟨skip, -, made⟩ := made
    split at made
    next => cases made
    next =>
      obtain ⟨off, -, made⟩ := Option.bind_eq_some_iff.1 made
      split at made
      next => cases made
      next =>
        split at made
        next =>
          obtain ⟨pdev', added, same⟩ := Option.bind_eq_some_iff.1 made
          obtain rfl := Option.some.inj (Option.some.inj same)
          exact addResources_compatible added
        next => cases made

/-- `platform_match` looks at the first string only. -/
theorem platformMatch_listing {pdev : PlatformDevice} (points : pdev.compatible = some (listing strs))
    (nonzero : ∀ s ∈ strs, (0 : UInt8) ∉ s) {table : List (List UInt8)} (literals : ∀ t ∈ table, (0 : UInt8) ∉ t) :
    platformMatch pdev (some table) = some (if strs.headD [] ∈ table then 1 else 0) := by
  simp only [platformMatch, points]
  cases strs with
  | nil =>
      have empty : CStr (text []) [] := text_cstr (by simp)
      exact strcmpAny_cstr empty (by decide) literals
  | cons s strs =>
      have first := pointsTo_listing [] (nonzero s (by simp)) (listing strs)
      rw [listing_cons]
      have short := first.2
      rw [List.nil_append] at first short
      exact strcmpAny_cstr first.1 (by omega) literals

end Node

/-- The bus and the list agree about a device and a driver. -/
def Honours (fdt : Fdt) (node : Int) (pdev : PlatformDevice) (table : Option (List (List UInt8))) : Prop :=
  ∃ r, platformMatch pdev table = some r ∧ (∀ c ∈ table.getD [], (ofDeviceIsCompatible fdt node c).isSome) ∧
    (r = 1 ↔ ∃ c ∈ table.getD [], ofDeviceIsCompatible fdt node c = some 1)

/-- One string is in a table, and the others are as far as it matters. -/
theorem first_decides (strs table : List (List UInt8)) : (strs.headD [] ∈ table ↔ ∃ c ∈ table, c ∈ strs) ↔
    (strs = [] → [] ∉ table) ∧ ∀ t ∈ strs.tail, t ∈ table → ∃ s, strs.head? = some s ∧ s ∈ table := by
  cases strs with
  | nil => simp
  | cons s strs =>
      by_cases first : s ∈ table
      · constructor
        · intro _
          exact ⟨by simp, fun _ _ _ => ⟨s, rfl, first⟩⟩
        · intro _
          exact ⟨fun _ => ⟨s, first, by simp⟩, fun _ => first⟩
      · have others : (∃ c ∈ table, c ∈ s :: strs) ↔ ∃ t ∈ strs, t ∈ table := by
          constructor
          · rintro ⟨c, member, inside⟩
            obtain rfl | inside := List.mem_cons.1 inside
            · exact absurd member first
            · exact ⟨c, inside, member⟩
          · rintro ⟨t, inside, member⟩
            exact ⟨t, member, List.mem_cons_of_mem _ inside⟩
        rw [others]
        simp [first]

/-- The first string decides: it is in the table, or no other one is. -/
theorem platformMatch_honours_iff (fdt : Fdt) (fuel : Nat) (memory : Bool) (node : Int) (pdev : PlatformDevice)
    (strs : List (List UInt8)) (table : Option (List (List UInt8)))
    (made : populateNode fdt fuel memory node = some (some pdev))
    (answer : fdt.getprop node "compatible" = .ok (listing strs)) (nonzero : ∀ s ∈ strs, (0 : UInt8) ∉ s)
    (few : strs.length ≤ 16) (literals : ∀ t ∈ table.getD [], (0 : UInt8) ∉ t) :
    Honours fdt node pdev table ↔ (strs = [] → [] ∉ table.getD []) ∧
      ∀ t ∈ strs.tail, t ∈ table.getD [] → ∃ s, strs.head? = some s ∧ s ∈ table.getD [] := by
  cases table with
  | none => simp [Honours, platformMatch]
  | some table =>
      rw [Option.getD_some] at literals ⊢
      have matched := platformMatch_listing (populateNode_compatible made answer) nonzero literals
      have listed : ∀ c ∈ table, ofDeviceIsCompatible fdt node c = some (if c ∈ strs then 1 else 0) := fun c member =>
        ofDeviceIsCompatible_listing answer nonzero few (literals c member)
      have defined : ∀ c ∈ table, (ofDeviceIsCompatible fdt node c).isSome := fun c member => by simp [listed c member]
      have some_ : (∃ c ∈ table, ofDeviceIsCompatible fdt node c = some 1) ↔ ∃ c ∈ table, c ∈ strs := by
        constructor
        · rintro ⟨c, member, one⟩
          rw [listed c member] at one
          exact ⟨c, member, by simpa using one⟩
        · rintro ⟨c, member, inside⟩
          exact ⟨c, member, by simp [listed c member, inside]⟩
      have one : ((if strs.headD [] ∈ table then (1 : Int) else 0) = 1) ↔ strs.headD [] ∈ table := by
        by_cases inside : strs.headD [] ∈ table
        · rw [if_pos inside]
          exact iff_of_true rfl inside
        · rw [if_neg inside]
          exact iff_of_false (by decide) inside
      rw [← first_decides, ← one, ← some_]
      constructor
      · rintro ⟨r, result, -, agree⟩
        rw [matched, Option.some_inj] at result
        exact result ▸ agree
      · intro agree
        exact ⟨_, matched, defined, agree⟩

/-- A bus whose first string is its own. -/
def simpleBus : Fdt where
  pathOffset _ := -1
  parentOffset node := if node = 8 then 0 else -1
  getName _ := some (ascii "platform-bus@c000000")
  nodeOffsetByPhandle _ := -1
  getprop _ name := if name = "compatible" then .ok (listing [ascii "qemu,platform", ascii "simple-bus"]) else .error .notfound
  int _ name value answer := by
    split at answer
    · obtain rfl := Except.ok.inj answer
      decide
    · cases answer
  parent_lt node inner := by
    split
    · omega
    · simp_all

/-- What `of_platform_populate` makes of the bus. -/
def simpleBusDevice : PlatformDevice :=
  ⟨ascii "platform-bus@c000000", 8, .replicate _ ⟨0, 0, 0, none⟩, 0, some (listing [ascii "qemu,platform", ascii "simple-bus"])⟩

theorem populateNode_simpleBus : populateNode simpleBus 1 true 8 = some (some simpleBusDevice) := by
  decide +kernel

theorem platformMatch_honours_first : Honours simpleBus 8 simpleBusDevice (some [ascii "qemu,platform"]) :=
  (platformMatch_honours_iff simpleBus 1 true 8 simpleBusDevice [ascii "qemu,platform", ascii "simple-bus"]
    (some [ascii "qemu,platform"]) populateNode_simpleBus rfl (by decide) (by decide) (by decide)).2 (by decide)

/-- The driver of every `simple-bus`. -/
theorem platformMatch_generic : populateNode simpleBus 1 true 8 = some (some simpleBusDevice) ∧
    platformMatch simpleBusDevice (some [ascii "simple-bus"]) = some 0 ∧
    ofDeviceIsCompatible simpleBus 8 (ascii "simple-bus") = some 1 ∧
    ¬ Honours simpleBus 8 simpleBusDevice (some [ascii "simple-bus"]) := by
  have unmatched : platformMatch simpleBusDevice (some [ascii "simple-bus"]) = some 0 := rfl
  have listed : ofDeviceIsCompatible simpleBus 8 (ascii "simple-bus") = some 1 := rfl
  refine ⟨populateNode_simpleBus, unmatched, listed, ?_⟩
  rintro ⟨r, result, -, agree⟩
  obtain rfl := Option.some.inj (unmatched.symm.trans result)
  cases agree.2 ⟨_, by simp, listed⟩

end Minus.Driver.Platform
