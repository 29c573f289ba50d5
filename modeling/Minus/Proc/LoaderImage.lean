/-
# Proc.LoaderImage — what a loaded program sees

`Views` says what a vspace shows at every user address.  Mapping a page and copying
into it paints that page over the view (`Views.mapped`), a segment paints its pages
(`loadSegment_views`), and the program sees what is painted last.

A page is painted whole: where a segment shares a page with an earlier one, it paints
zeroes over the earlier one's bytes, and so does the stack page.  And a segment whose
end wraps past 2^64 passes the checks with less, or nothing, painted.  Apart from
these the image is correct (`elf_image_correct_iff`).
-/
import Minus.Proc.Loader
import Minus.Theory.Layers

namespace Minus.Proc.Loader

set_option autoImplicit false

open Minus.Theory
open Minus.Core.Mmu (Memory Owner pageSize walk pteAf)
open Minus.Mm.AddressSpace
open Minus.Mm.Buddy (Pfn)

/-! ## Bytes of a page -/

def pageByte (mem : Memory) (page offset : Nat) : UInt8 :=
  byteOf (mem page (Fin.ofNat 512 (offset / 8))) (offset % 8)

theorem pageByte_memcpy (mem : Memory) (page dst len : Nat) (src : Nat → UInt8) {offset : Nat}
    (inPage : offset < pageSize) :
    pageByte (memcpyPage mem page dst len src) page offset =
      if dst ≤ offset ∧ offset < dst + len then src (offset - dst) else pageByte mem page offset := by
  have index : (Fin.ofNat 512 (offset / 8)).val = offset / 8 := by
    apply Nat.mod_eq_of_lt
    unfold pageSize at inPage
    omega
  have whole : 8 * (offset / 8) + offset % 8 = offset := by omega
  unfold pageByte memcpyPage
  rw [Function.update_self, byteOf_wordOf _ (Nat.mod_lt offset (by decide)), index, whole]

theorem memcpyPage_other (mem : Memory) {page p : Nat} (dst len : Nat) (src : Nat → UInt8)
    (other : p ≠ page) : memcpyPage mem page dst len src p = mem p :=
  Function.update_of_ne other _ _

theorem pageByte_zero {mem : Memory} {page : Nat} (zero : mem page = fun _ => 0) (offset : Nat) :
    pageByte mem page offset = 0 := by
  rw [pageByte, zero, byteOf_zero]

/-- The byte a program sees at an address; TTBR0 translates those below 2^48. -/
def userByte (mem : Memory) (pgd a : Nat) : Option UInt8 :=
  if a < 2 ^ 48 then
    (walk mem pgd a).map fun hit => pageByte mem (hit.1 / pageSize) (hit.1 % pageSize)
  else none

/-! ## What a vspace shows -/

structure Views (h : Heap) (vs : Vspace) (view : Nat → Option UInt8) : Prop where
  space : ∃ own, Space own h.mem vs
  tables : ∀ p ∈ vs.tables, p ∈ h.pages
  data : ∀ a, a < 2 ^ 48 → ∀ pa attr, walk h.mem vs.pgd a = some (pa, attr) →
    pa / pageSize ∈ h.pages ∧ pa / pageSize ∉ vs.tables
  shows : ∀ a, a < 2 ^ 48 → userByte h.mem vs.pgd a = view a

/-- The addresses of a page. -/
def inPage (uva : UInt64) (a : Nat) : Bool := uva.toNat ≤ a && a < uva.toNat + pageSize

theorem inPage_iff {uva : UInt64} {a : Nat} :
    inPage uva a = true ↔ uva.toNat ≤ a ∧ a < uva.toNat + pageSize := by
  rw [inPage, Bool.and_eq_true, decide_eq_true_iff, decide_eq_true_iff]

section Views

variable {h : Heap} {vs : Vspace} {view : Nat → Option UInt8}

/-- **A page mapped, and then written, is painted over the view.** -/
theorem Views.mapped {h' h'' : Heap} {vs' : Vspace} {uva : UInt64} {flags : UInt32} {page : Pfn}
    {used : List Pfn} (views : Views h vs view) (supply : h.LowSupply) (user : uva.toNat < 2 ^ 48)
    (mapped : PageMapped h h' vs vs' uva flags page used)
    (elsewhere : ∀ p, p ≠ page → h''.mem p = h'.mem p) (pages : h''.pages = h'.pages)
    (left : h''.pageSupply = h'.pageSupply) :
    Views h'' vs' (fun a => if inPage uva a then some (pageByte h''.mem page (a - uva.toNat)) else view a) ∧
      h''.LowSupply ∧
      ∀ a, inPage uva a = true → walk h''.mem vs'.pgd a =
        some (page * pageSize + (a - uva.toNat), userProtToAttr flags ||| pteAf) := by
  have low : page < 2 ^ 20 := supply.low page (by simp [mapped.supply])
  have fresh : page ∉ h.pages := supply.new page (by simp [mapped.supply])
  have usedNew : ∀ p ∈ used, p ∉ h.pages := fun p member =>
    supply.new p (by simp [mapped.supply, member])
  have notTable : page ∉ vs'.tables := mapped.notTable supply views.tables
  obtain ⟨own, space⟩ := mapped.space
  have kept : ∀ p ∈ vs'.tables, h''.mem p = h'.mem p := fun p table =>
    elsewhere p fun same => notTable (same ▸ table)
  obtain ⟨space', walks⟩ := space.congr kept
  -- a walk after the call: the new page, or what there was
  have walked : ∀ a, a < 2 ^ 48 → walk h''.mem vs'.pgd a =
      if inPage uva a then some (page * pageSize + (a - uva.toNat), userProtToAttr flags ||| pteAf)
      else walk h.mem vs.pgd a := by
    intro a below
    rw [walks a, mapped.walk_eq user low below]
    simp only [inPage_iff]
  have pageOf : ∀ a, inPage uva a = true → (page * pageSize + (a - uva.toNat)) / pageSize = page ∧
      (page * pageSize + (a - uva.toNat)) % pageSize = a - uva.toNat := by
    intro a here
    obtain ⟨start, stop⟩ := inPage_iff.1 here
    have small : a - uva.toNat < pageSize := by omega
    have positive : 0 < pageSize := by decide
    rw [Nat.mul_comm, Nat.mul_add_div positive, Nat.mul_add_mod, Nat.div_eq_of_lt small,
      Nat.mod_eq_of_lt small]
    exact ⟨rfl, rfl⟩
  refine ⟨⟨⟨own, space'⟩, ?_, ?_, ?_⟩, ?_, ?_⟩
  · rw [pages]
    exact mapped.inUse views.tables
  · intro a below pa attr found
    rw [walked a below] at found
    rw [pages, mapped.pages, Finset.mem_union, Finset.mem_insert]
    by_cases here : inPage uva a = true
    · rw [if_pos here] at found
      cases found
      rw [(pageOf a here).1]
      exact ⟨.inl (.inl rfl), notTable⟩
    · rw [if_neg here] at found
      obtain ⟨inUse, noTable⟩ := views.data a below pa attr found
      refine ⟨.inl (.inr inUse), fun table => ?_⟩
      obtain new | old := (mapped.tables _).1 table
      · exact usedNew _ new inUse
      · exact noTable old
  · intro a below
    rw [userByte, if_pos below, walked a below]
    by_cases here : inPage uva a = true
    · rw [if_pos here, if_pos here, Option.map_some, (pageOf a here).1, (pageOf a here).2]
    · rw [if_neg here, if_neg here, ← views.shows a below, userByte, if_pos below]
      cases found : walk h.mem vs.pgd a with
      | none => rfl
      | some hit =>
          obtain ⟨pa, attr⟩ := hit
          obtain ⟨inUse, noTable⟩ := views.data a below pa attr found
          have other : pa / pageSize ≠ page := fun same => fresh (same ▸ inUse)
          have kept : h''.mem (pa / pageSize) = h.mem (pa / pageSize) := by
            rw [elsewhere _ other]
            exact mapped.untouched _ other (fun new => usedNew _ new inUse) noTable
          rw [Option.map_some, Option.map_some, pageByte, pageByte, kept]
  · obtain ⟨small, distinct, new⟩ := mapped.lowSupply supply
    exact ⟨left ▸ small, left ▸ distinct, left ▸ pages ▸ new⟩
  · intro a here
    obtain ⟨start, stop⟩ := inPage_iff.1 here
    have aligned := (pageSize_dvd_iff uva).1 mapped.aligned
    have below : a < 2 ^ 48 := by
      unfold pageSize at *
      omega
    rw [walked a below, if_pos here]

end Views

/-! ## Segments -/

namespace Phdr

variable (f : Image) (ph : Phdr)

/-- What the segment asks for: the file's bytes, and zeroes from `p_filesz` on. -/
def content (a : Nat) : UInt8 :=
  if ph.pVaddr.toNat ≤ a ∧ a < ph.pVaddr.toNat + ph.pFilesz.toNat then
    f.bytes (ph.pOffset.toNat + (a - ph.pVaddr.toNat))
  else 0

/-- The address is in the segment. -/
def InRange (a : Nat) : Prop := ph.pVaddr.toNat ≤ a ∧ a < ph.pVaddr.toNat + ph.pMemsz.toNat

/-- The address is in a page of the segment. -/
def inPages (a : Nat) : Bool := ph.vstart.toNat ≤ a && a < ph.vend.toNat

/-- The end of the segment, rounded up, does not wrap. -/
def Whole : Prop := ph.pVaddr.toNat + ph.pMemsz.toNat + 4095 < 2 ^ 64

instance : Decidable ph.Whole := inferInstanceAs (Decidable (_ < _))

/-- A segment that passes the checks and does not wrap. -/
structure Plain : Prop where
  filesz : ph.pFilesz.toNat ≤ ph.pMemsz.toNat
  file : ph.pOffset.toNat + ph.pFilesz.toNat < 2 ^ 32
  whole : ph.Whole
  top : ph.vend.toNat ≤ 0x80000000

variable {f ph}

theorem inPages_iff {a : Nat} : ph.inPages a = true ↔ ph.vstart.toNat ≤ a ∧ a < ph.vend.toNat := by
  rw [inPages, Bool.and_eq_true, decide_eq_true_iff, decide_eq_true_iff]

theorem vstart_toNat : ph.vstart.toNat = ph.pVaddr.toNat / 4096 * 4096 :=
  Core.Mmu.Call.toNat_align ph.pVaddr

theorem Whole.vend_toNat (whole : ph.Whole) :
    ph.vend.toNat = (ph.pVaddr.toNat + ph.pMemsz.toNat + 4095) / 4096 * 4096 := by
  unfold Whole at whole
  rw [vend, Core.Mmu.Call.toNat_align, UInt64.toNat_add, UInt64.toNat_add,
    show (4096 - 1 : UInt64).toNat = 4095 by decide]
  omega

theorem Whole.inRange (whole : ph.Whole) {a : Nat} (inside : ph.InRange a) : ph.inPages a = true := by
  unfold InRange at inside
  rw [inPages_iff, vstart_toNat, whole.vend_toNat]
  omega

/-- The checks of `load_segment`, as numbers. -/
theorem not_refused_iff {size : UInt32} :
    ¬ ph.Refused size ↔ ph.pFilesz.toNat ≤ ph.pMemsz.toNat ∧
      ph.pOffset.toNat + ph.pFilesz.toNat ≤ size.toNat ∧
      ph.vstart.toNat ≤ ph.vend.toNat ∧ ph.vend.toNat ≤ 0x80000000 := by
  have bound := size.toNat_lt
  have top : userStackTop.toNat = 0x80000000 := rfl
  have := ph.pOffset.toNat_lt
  have := ph.pFilesz.toNat_lt
  unfold Refused
  simp only [not_or, gt_iff_lt, UInt64.lt_iff_toNat_lt, UInt64.toNat_add, UInt32.toNat_toUInt64, top]
  omega

theorem plain_of_accepted {size : UInt32} (accepted : ¬ ph.Refused size) (whole : ph.Whole) : ph.Plain := by
  obtain ⟨filesz, file, _, top⟩ := not_refused_iff.1 accepted
  exact ⟨filesz, by have := size.toNat_lt; omega, whole, top⟩

end Phdr

section Copy

variable {f : Image} {ph : Phdr} {h : Heap} {page : Nat} {uva : UInt64}

/-- The later of two addresses. -/
theorem later_toNat (a b : UInt64) : (if a > b then a else b).toNat = max a.toNat b.toNat := by
  split
  · rename_i later
    exact (Nat.max_eq_left (Nat.le_of_lt (UInt64.lt_iff_toNat_lt.1 later))).symm
  · rename_i later
    exact (Nat.max_eq_right (UInt64.le_iff_toNat_le.1 (UInt64.not_lt.1 later))).symm

/-- The sooner of two addresses. -/
theorem sooner_toNat (a b : UInt64) : (if a < b then a else b).toNat = min a.toNat b.toNat := by
  split
  · rename_i sooner
    exact (Nat.min_eq_left (Nat.le_of_lt (UInt64.lt_iff_toNat_lt.1 sooner))).symm
  · rename_i sooner
    exact (Nat.min_eq_right (UInt64.le_iff_toNat_le.1 (UInt64.not_lt.1 sooner))).symm

/-- Where a copy starts in the file. -/
theorem srcOff_toNat {start vaddr offset : UInt64} (order : vaddr.toNat ≤ start.toNat)
    (fits : start.toNat - vaddr.toNat + offset.toNat < 2 ^ 32) :
    (start - vaddr + offset).toUInt32.toNat = start.toNat - vaddr.toNat + offset.toNat := by
  rw [UInt64.toNat_toUInt32, UInt64.toNat_add,
    UInt64.toNat_sub_of_le _ _ (UInt64.le_iff_toNat_le.2 order)]
  omega

theorem copyPage_other (ph : Phdr) (f : Image) (h : Heap) (page : Nat) (uva : UInt64) :
    (∀ p, p ≠ page → (copyPage ph f h page uva).mem p = h.mem p) ∧
      (copyPage ph f h page uva).pages = h.pages ∧
      (copyPage ph f h page uva).pageSupply = h.pageSupply := by
  unfold copyPage
  dsimp only
  generalize (if uva > ph.pVaddr then uva else ph.pVaddr) = copyStart
  generalize (if uva + 4096 < ph.pVaddr + ph.pFilesz then uva + 4096
    else ph.pVaddr + ph.pFilesz) = copyEnd
  by_cases some : copyEnd > copyStart
  · simp only [if_pos some, and_self, and_true]
    intro p other
    rw [memcpyPage_other _ _ _ _ other]
  · rw [if_neg some]
    exact ⟨fun _ _ => rfl, rfl, rfl⟩

/-- The bytes of a page that a copy writes are those of the file part. -/
theorem copied_iff {u p v n a : Nat} (start : u ≤ a) (stop : a < u + p)
    (some : max u v < min (u + p) (v + n)) :
    (max u v - u ≤ a - u ∧ a - u < max u v - u + (min (u + p) (v + n) - max u v)) ↔
      v ≤ a ∧ a < v + n := by
  omega

/-- The byte of the file that a copy takes. -/
theorem copied_from {u v a : Nat} (offset : Nat) (start : u ≤ a) (inFile : v ≤ a) :
    max u v - v + offset + (a - u - (max u v - u)) = offset + (a - v) := by
  omega

/-- **A fresh page holds what the segment asks for once the copy is made.** -/
theorem copyPage_byte (plain : ph.Plain) (zero : h.mem page = fun _ => 0)
    (low : uva.toNat + pageSize < 2 ^ 64) {a : Nat} (here : inPage uva a = true) :
    pageByte (copyPage ph f h page uva).mem page (a - uva.toNat) = ph.content f a := by
  obtain ⟨start, stop⟩ := inPage_iff.1 here
  obtain ⟨filesz, file, whole, _⟩ := plain
  unfold Phdr.Whole at whole
  have room : a - uva.toNat < pageSize := by omega
  have next : (uva + 4096).toNat = uva.toNat + pageSize := nextPage_toNat low
  have fileEnd : (ph.pVaddr + ph.pFilesz).toNat = ph.pVaddr.toNat + ph.pFilesz.toNat := by
    rw [UInt64.toNat_add]
    exact Nat.mod_eq_of_lt (by omega)
  unfold copyPage
  dsimp only
  generalize copyStart_def : (if uva > ph.pVaddr then uva else ph.pVaddr) = copyStart
  generalize copyEnd_def : (if uva + 4096 < ph.pVaddr + ph.pFilesz then uva + 4096
    else ph.pVaddr + ph.pFilesz) = copyEnd
  have first : copyStart.toNat = max uva.toNat ph.pVaddr.toNat := by rw [← copyStart_def, later_toNat]
  have last : copyEnd.toNat = min (uva.toNat + pageSize) (ph.pVaddr.toNat + ph.pFilesz.toNat) := by
    rw [← copyEnd_def, sooner_toNat, next, fileEnd]
  unfold Phdr.content
  by_cases some : copyEnd > copyStart
  · rw [if_pos some]
    have order := UInt64.lt_iff_toNat_lt.1 some
    have page : pageSize = 4096 := rfl
    have dst : (copyStart - uva).toUInt32.toNat = copyStart.toNat - uva.toNat :=
      distance_toNat (by omega) (by omega)
    have len : (copyEnd - copyStart).toUInt32.toNat = copyEnd.toNat - copyStart.toNat :=
      distance_toNat (by omega) (by omega)
    have src : (copyStart - ph.pVaddr + ph.pOffset).toUInt32.toNat =
        copyStart.toNat - ph.pVaddr.toNat + ph.pOffset.toNat := srcOff_toNat (by omega) (by omega)
    have copied := copied_iff start stop (first ▸ last ▸ order)
    rw [pageByte_memcpy _ _ _ _ _ room, dst, len, src, pageByte_zero zero, first, last]
    by_cases inFile : ph.pVaddr.toNat ≤ a ∧ a < ph.pVaddr.toNat + ph.pFilesz.toNat
    · rw [if_pos (copied.2 inFile), if_pos inFile, copied_from _ start inFile.1]
    · rw [if_neg (mt copied.1 inFile), if_neg inFile]
  · have order := UInt64.le_iff_toNat_le.1 (UInt64.not_lt.1 some)
    rw [if_neg some, pageByte_zero zero, if_neg (by omega)]

end Copy

/-! ## The loops -/

section Load

variable {f : Image} {ph : Phdr} {h h' : Heap} {vs vs' : Vspace} {view : Nat → Option UInt8}

theorem Views.mapPage {uva : UInt64} {flags : UInt32} {kva : Nat} (views : Views h vs view)
    (supply : h.LowSupply) (map : vspaceMapPage h vs uva flags = .ok (h', vs', .ok kva)) :
    ∃ used, PageMapped h h' vs vs' uva flags kva used := by
  obtain ⟨own, space⟩ := views.space
  have spec := vspaceMapPage_space space supply views.tables uva flags
  rw [map] at spec
  obtain ⟨_, e, bad⟩ | ⟨page, used, mapped, ret⟩ := spec
  · cases bad
  · cases ret
    exact ⟨used, mapped⟩

/-- **The loop paints the pages it maps with what the segment asks for.** -/
theorem segmentLoop_views (plain : ph.Plain) {n : Nat} {uva : UInt64} (views : Views h vs view)
    (supply : h.LowSupply) (user : uva.toNat + n * pageSize ≤ 0x80000000)
    (load : segmentLoop ph f n h vs uva = .ok (h', vs', .ok ())) :
    Views h' vs' (fun a => if uva.toNat ≤ a ∧ a < uva.toNat + n * pageSize then
        some (ph.content f a) else view a) ∧ h'.LowSupply := by
  induction n generalizing h vs view uva with
  | zero =>
      cases load
      refine ⟨⟨views.space, views.tables, views.data, fun a below => ?_⟩, supply⟩
      rw [if_neg (by omega)]
      exact views.shows a below
  | succ n ih =>
      have step : (n + 1) * pageSize = pageSize + n * pageSize := by rw [Nat.add_mul, Nat.one_mul, Nat.add_comm]
      have size : pageSize = 4096 := rfl
      have next : (uva + 4096).toNat = uva.toNat + pageSize := nextPage_toNat (by omega)
      unfold segmentLoop at load
      cases map : vspaceMapPage h vs uva ph.vmFlags with
      | error stuck =>
          rw [map] at load
          cases load
      | ok r =>
          obtain ⟨h₁, vs₁, ret⟩ := r
          rw [map] at load
          cases ret with
          | error e => cases load
          | ok kva =>
              obtain ⟨used, mapped⟩ := views.mapPage supply map
              obtain ⟨elsewhere, pages, left⟩ := copyPage_other ph f h₁ kva uva
              obtain ⟨painted, supply₁, _⟩ :=
                views.mapped supply (by omega) mapped elsewhere pages left
              obtain ⟨⟨space, tables, data, shows⟩, supply'⟩ :=
                ih painted supply₁ (by omega) load
              refine ⟨⟨space, tables, data, fun a below => ?_⟩, supply'⟩
              rw [shows a below, next, step]
              by_cases later : uva.toNat + pageSize ≤ a ∧ a < uva.toNat + pageSize + n * pageSize
              · rw [if_pos later, if_pos (by omega)]
              · rw [if_neg later]
                by_cases here : inPage uva a = true
                · have inside := inPage_iff.1 here
                  rw [if_pos here, if_pos (by omega), copyPage_byte plain mapped.zero (by omega) here]
                · have outside := mt inPage_iff.2 here
                  rw [if_neg here, if_neg (by omega)]

/-- A segment as a layer. -/
def Phdr.layer (f : Image) (ph : Phdr) : Layer Nat UInt8 := ⟨ph.inPages, ph.content f, ph.InRange⟩

theorem loadSegment_views (whole : ph.Whole) (views : Views h vs view) (supply : h.LowSupply)
    (load : loadSegment ph f h vs = .ok (h', vs', .ok ())) :
    Views h' vs' (paint view [ph.layer f]) ∧ h'.LowSupply := by
  unfold loadSegment at load
  by_cases refused : ph.Refused f.size
  · rw [if_pos refused] at load
    cases load
  · rw [if_neg refused] at load
    have plain := Phdr.plain_of_accepted refused whole
    have order := (Phdr.not_refused_iff.1 refused).2.2.1
    have top := plain.top
    have size : pageSize = 4096 := rfl
    have start : ph.vstart.toNat = _ := Phdr.vstart_toNat
    have stop := whole.vend_toNat
    have pages : ph.vstart.toNat + (ph.vend.toNat - ph.vstart.toNat) / pageSize * pageSize =
        ph.vend.toNat := by
      rw [size]
      omega
    obtain ⟨⟨space, tables, data, shows⟩, supply'⟩ :=
      segmentLoop_views plain views supply (by rw [pages]; exact top) load
    refine ⟨⟨space, tables, data, fun a below => ?_⟩, supply'⟩
    rw [shows a below, pages]
    show _ = if ph.inPages a then some (ph.content f a) else view a
    simp only [Phdr.inPages_iff]

theorem loadSegment_accepts (load : loadSegment ph f h vs = .ok (h', vs', .ok ())) :
    ¬ ph.Refused f.size := by
  intro refused
  rw [loadSegment, if_pos refused] at load
  cases load

theorem loadSegments_accepts {phs : List Phdr} (load : loadSegments f phs h vs = .ok (h', vs', .ok ())) :
    ∀ ph ∈ phs.filter (·.pType = ptLoad), ¬ ph.Refused f.size := by
  induction phs generalizing h vs with
  | nil => nofun
  | cons first rest ih =>
      unfold loadSegments at load
      by_cases loaded : first.pType = ptLoad
      · rw [if_pos loaded] at load
        cases one : loadSegment first f h vs with
        | error stuck =>
            rw [one] at load
            cases load
        | ok r =>
            obtain ⟨h₁, vs₁, ret⟩ := r
            rw [one] at load
            cases ret with
            | error e => cases load
            | ok u =>
                rw [List.filter_cons_of_pos (by simpa using loaded), List.forall_mem_cons]
                exact ⟨loadSegment_accepts one, ih load⟩
      · rw [if_neg loaded] at load
        rw [List.filter_cons_of_neg (by simpa using loaded)]
        exact ih load

/-- **The segments are painted in the order of the program headers.** -/
theorem loadSegments_views {phs : List Phdr} (whole : ∀ ph ∈ phs.filter (·.pType = ptLoad), ph.Whole)
    (views : Views h vs view) (supply : h.LowSupply)
    (load : loadSegments f phs h vs = .ok (h', vs', .ok ())) :
    Views h' vs' (paint view ((phs.filter (·.pType = ptLoad)).map (Phdr.layer f))) ∧ h'.LowSupply := by
  induction phs generalizing h vs view with
  | nil =>
      cases load
      exact ⟨views, supply⟩
  | cons first rest ih =>
      unfold loadSegments at load
      by_cases loaded : first.pType = ptLoad
      · rw [if_pos loaded] at load
        rw [List.filter_cons_of_pos (by simpa using loaded)] at whole ⊢
        obtain ⟨head, others⟩ := List.forall_mem_cons.1 whole
        cases one : loadSegment first f h vs with
        | error stuck =>
            rw [one] at load
            cases load
        | ok r =>
            obtain ⟨h₁, vs₁, ret⟩ := r
            rw [one] at load
            cases ret with
            | error e => cases load
            | ok u =>
                obtain ⟨painted, supply₁⟩ := loadSegment_views head views supply one
                exact ih others painted supply₁ load
      · rw [if_neg loaded] at load
        rw [List.filter_cons_of_neg (by simpa using loaded)] at whole ⊢
        exact ih whole views supply load

/-- The stack page as a layer. -/
def stackLayer : Layer Nat UInt8 :=
  ⟨inPage (userStackTop - 4096), fun _ => 0, fun a => inPage (userStackTop - 4096) a = true⟩

/-- The page may be written at EL0. -/
def Writable (attr : UInt64) : Prop := attr &&& ((0x3 : UInt64) <<< 6) = pteApRwAny

instance (attr : UInt64) : Decidable (Writable attr) := inferInstanceAs (Decidable (_ = _))

theorem allocUserStack_views {kva : Nat} (views : Views h vs view) (supply : h.LowSupply)
    (stack : allocUserStack h vs = .ok (h', vs', .ok kva)) :
    Views h' vs' (paint view [stackLayer]) ∧
      ∀ a, inPage (userStackTop - 4096) a = true →
        ∃ pa attr, walk h'.mem vs'.pgd a = some (pa, attr) ∧ Writable attr := by
  obtain ⟨used, mapped⟩ := views.mapPage supply stack
  obtain ⟨⟨space, tables, data, shows⟩, _, walks⟩ :=
    views.mapped supply (by decide) mapped (fun _ _ => rfl) rfl rfl
  refine ⟨⟨space, tables, data, fun a below => ?_⟩, fun a here => ⟨_, _, walks a here, by decide⟩⟩
  rw [shows a below, pageByte_zero mapped.zero]
  rfl

end Load

/-! ## The image -/

/-- `vspace_alloc` has returned the vspace, and nothing was mapped in it since. -/
def Fresh (h : Heap) (vs : Vspace) : Prop :=
  ∃ h₀ h₁ : Heap, h₀.LowSupply ∧ vspaceAlloc h₀ = (h₁, some vs) ∧
    h.mem vs.pgd = h₁.mem vs.pgd ∧ vs.pgd ∈ h.pages

/-- No two segments claim the same address. -/
def Image.Disjoint (f : Image) : Prop :=
  f.segments.Pairwise fun s t => ∀ a, ¬ (s.InRange a ∧ t.InRange a)

/-- The program sees the file's bytes and zeroes behind them in every segment, and a
zeroed stack page that it may write. -/
structure Correct (f : Image) (mem : Memory) (pgd : Nat) : Prop where
  bytes : ∀ ph ∈ f.segments, ∀ a, ph.InRange a → userByte mem pgd a = some (ph.content f a)
  stack : ∀ a, inPage (userStackTop - 4096) a = true → userByte mem pgd a = some 0 ∧
    ∃ pa attr, walk mem pgd a = some (pa, attr) ∧ Writable attr

/-- No segment wraps, and what lies in a page that is mapped again is zero. -/
structure Intact (f : Image) : Prop where
  whole : ∀ ph ∈ f.segments, ph.Whole
  kept : f.segments.Pairwise fun early late => ∀ a, early.InRange a → late.inPages a = true →
    early.content f a = 0
  belowStack : ∀ ph ∈ f.segments, ∀ a, ph.InRange a → inPage (userStackTop - 4096) a = true →
    ph.content f a = 0

section Image

variable {f : Image} {h h' : Heap} {vs vs' : Vspace}

theorem Fresh.views (fresh : Fresh h vs) : Views h vs fun _ => none := by
  obtain ⟨h₀, h₁, supply, made, kept, inUse⟩ := fresh
  have out := vspaceAlloc_outcome h₀
  rw [made] at out
  cases out with
  | made obj objs page rest hasObject hasPage =>
      have zero : h.mem (frame page) = fun _ => 0 := by
        rw [kept]
        exact Function.update_self _ _ _
      have nothing : ∀ a, walk h.mem (frame page) a = none := by
        intro a
        rw [walk, Core.Mmu.lookup_zero_page (fun i => congrFun zero i) a 3]
        rfl
      refine ⟨⟨_, Core.Mmu.rooted_zero zero rfl⟩, ?_, ?_, ?_⟩
      · intro p table
        rw [List.mem_singleton.1 table]
        exact inUse
      · intro a _ pa attr found
        rw [nothing a] at found
        cases found
      · intro a below
        rw [userByte, if_pos below, nothing a]
        rfl

theorem procLoadElf_inv {r : UInt64 × UInt64} (load : procLoadElf (.ok f) h vs = .ok (h', vs', .ok r)) :
    ∃ h₁ vs₁ kva, loadSegments f f.phdrs h vs = .ok (h₁, vs₁, .ok ()) ∧
      allocUserStack h₁ vs₁ = .ok (h', vs', .ok kva) := by
  unfold procLoadElf at load
  dsimp only at load
  by_cases verified : f.Verified
  · rw [if_neg (not_not_intro verified)] at load
    cases segments : loadSegments f f.phdrs h vs with
    | error stuck =>
        rw [segments] at load
        cases load
    | ok s =>
        obtain ⟨h₁, vs₁, ret⟩ := s
        rw [segments] at load
        cases ret with
        | error e => cases load
        | ok u =>
            change (allocUserStack h₁ vs₁ >>= _) = _ at load
            cases stack : allocUserStack h₁ vs₁ with
            | error stuck =>
                rw [stack] at load
                cases load
            | ok t =>
                obtain ⟨h₂, vs₂, ret⟩ := t
                rw [stack] at load
                cases ret with
                | error e => cases load
                | ok kva =>
                    cases load
                    exact ⟨h₁, vs₁, kva, rfl, stack⟩
  · rw [if_pos verified] at load
    cases load

/-- The segments and then the stack page. -/
def Image.layers (f : Image) : List (Layer Nat UInt8) := f.segments.map (Phdr.layer f) ++ [stackLayer]

/-- A segment that passes the checks paints zeroes where another one claims the address. -/
theorem layers_apart (accepted : ∀ ph ∈ f.segments, ¬ ph.Refused f.size) (disjoint : f.Disjoint) :
    f.layers.Pairwise fun early late => ∀ a, early.meant a → late.covers a = true → late.value a = 0 := by
  refine List.pairwise_append.2 ⟨List.pairwise_map.2 ?_, List.pairwise_singleton _ _, ?_⟩
  · refine disjoint.imp_of_mem fun {s t} _ member apart a inside _ => ?_
    have filesz := (Phdr.not_refused_iff.1 (accepted t member)).1
    have outside : ¬ t.InRange a := fun other => apart a ⟨inside, other⟩
    unfold Phdr.InRange at outside
    exact if_neg (by omega)
  · intro _ _ l last a _ _
    rw [List.mem_singleton.1 last]
    rfl

theorem layers_inside (whole : ∀ ph ∈ f.segments, ph.Whole) :
    ∀ l ∈ f.layers, ∀ a, l.meant a → l.covers a = true := by
  intro l member a meant
  obtain segment | stack := List.mem_append.1 member
  · obtain ⟨ph, loaded, rfl⟩ := List.mem_map.1 segment
    exact (whole ph loaded).inRange meant
  · rw [List.mem_singleton.1 stack] at meant ⊢
    exact meant

/-- A byte in a segment can be seen only if the segment does not wrap. -/
theorem Correct.whole {mem : Memory} {pgd : Nat} (correct : Correct f mem pgd)
    (accepted : ∀ ph ∈ f.segments, ¬ ph.Refused f.size) : ∀ ph ∈ f.segments, ph.Whole := by
  intro ph member
  obtain ⟨_, _, order, _⟩ := Phdr.not_refused_iff.1 (accepted ph member)
  by_contra wraps
  unfold Phdr.Whole at wraps
  have vaddr := ph.pVaddr.toNat_lt
  by_cases empty : ph.pMemsz.toNat = 0
  · have stop : ph.vend.toNat = 0 := by
      rw [Phdr.vend, Core.Mmu.Call.toNat_align, UInt64.toNat_add, UInt64.toNat_add,
        show (4096 - 1 : UInt64).toNat = 4095 by decide]
      omega
    rw [stop, Phdr.vstart_toNat] at order
    omega
  · have shown := correct.bytes ph member (ph.pVaddr.toNat + ph.pMemsz.toNat - 1)
      ⟨by omega, by omega⟩
    rw [userByte, if_neg (by omega)] at shown
    cases shown

/-- **Once no segment wraps, the program sees the layers**, and may write its stack. -/
theorem procLoadElf_sees {r : UInt64 × UInt64} (fresh : Fresh h vs) (supply : h.LowSupply)
    (whole : ∀ ph ∈ f.segments, ph.Whole) (load : procLoadElf (.ok f) h vs = .ok (h', vs', .ok r)) :
    (∀ a, a < 2 ^ 48 → userByte h'.mem vs'.pgd a = paint (fun _ => none) f.layers a) ∧
      ∀ a, inPage (userStackTop - 4096) a = true →
        ∃ pa attr, walk h'.mem vs'.pgd a = some (pa, attr) ∧ Writable attr := by
  obtain ⟨h₁, vs₁, kva, segments, stack⟩ := procLoadElf_inv load
  obtain ⟨views₁, supply₁⟩ := loadSegments_views whole fresh.views supply segments
  obtain ⟨views, writable⟩ := allocUserStack_views views₁ supply₁ stack
  refine ⟨fun a below => ?_, writable⟩
  rw [views.shows a below, Image.layers, paint_append]
  rfl

/-- **The image is correct exactly if no segment wraps and what is mapped over is zero.** -/
theorem elf_image_correct_iff {r : UInt64 × UInt64} (fresh : Fresh h vs) (supply : h.LowSupply)
    (disjoint : f.Disjoint) (load : procLoadElf (.ok f) h vs = .ok (h', vs', .ok r)) :
    Correct f h'.mem vs'.pgd ↔ Intact f := by
  obtain ⟨_, _, _, segments, _⟩ := procLoadElf_inv load
  have accepted : ∀ ph ∈ f.segments, ¬ ph.Refused f.size := loadSegments_accepts segments
  have painted (whole : ∀ ph ∈ f.segments, ph.Whole) := procLoadElf_sees fresh supply whole load
  have stackLow : ∀ a, inPage (userStackTop - 4096) a = true → a < 2 ^ 48 := by
    intro a here
    have top : (userStackTop - 4096).toNat + pageSize = 0x80000000 := by decide
    have := (inPage_iff.1 here).2
    omega
  have segmentLow (whole : ∀ ph ∈ f.segments, ph.Whole) :
      ∀ ph ∈ f.segments, ∀ a, ph.InRange a → a < 2 ^ 48 := by
    intro ph member a inside
    have stop := (Phdr.inPages_iff.1 ((whole ph member).inRange inside)).2
    have top := (Phdr.not_refused_iff.1 (accepted ph member)).2.2.2
    omega
  have shown (whole : ∀ ph ∈ f.segments, ph.Whole) :
      (∀ l ∈ f.layers, ∀ a, l.meant a → paint (fun _ => none) f.layers a = some (l.value a)) ↔ _ :=
    paint_shows_iff (layers_inside whole) (layers_apart accepted disjoint)
  constructor
  · intro correct
    have whole := correct.whole accepted
    have kept := (shown whole).1 fun l member a meant => by
      obtain segment | last := List.mem_append.1 member
      · obtain ⟨ph, loaded, rfl⟩ := List.mem_map.1 segment
        rw [← (painted whole).1 a (segmentLow whole ph loaded a meant)]
        exact correct.bytes ph loaded a meant
      · rw [List.mem_singleton.1 last] at meant ⊢
        rw [← (painted whole).1 a (stackLow a meant)]
        exact (correct.stack a meant).1
    obtain ⟨among, _, under⟩ := List.pairwise_append.1 kept
    refine ⟨whole, List.pairwise_map.1 among, fun ph member a inside here => ?_⟩
    exact under _ (List.mem_map_of_mem member) _ (List.mem_singleton_self _) a inside here
  · rintro ⟨whole, kept, belowStack⟩
    have shows := (shown whole).2 <| List.pairwise_append.2
      ⟨List.pairwise_map.2 kept, List.pairwise_singleton _ _, by
        intro l member m last a meant covers
        obtain ⟨ph, loaded, rfl⟩ := List.mem_map.1 member
        rw [List.mem_singleton.1 last] at covers
        exact belowStack ph loaded a meant covers⟩
    constructor
    · intro ph member a inside
      rw [(painted whole).1 a (segmentLow whole ph member a inside)]
      exact shows _ (List.mem_append_left _ (List.mem_map_of_mem member)) a inside
    · intro a here
      refine ⟨?_, (painted whole).2 a here⟩
      rw [(painted whole).1 a (stackLow a here)]
      exact shows stackLayer (List.mem_append_right _ (List.mem_singleton_self _)) a here

/-! ## Two files -/

def leBytes (size : Nat) (value : UInt64) : List UInt8 := (List.range size).map (byteOf value)

/-- An AArch64 executable with its program headers right behind the ELF header. -/
def ehdrBytes (entry phnum : UInt64) : List UInt8 :=
  [0x7f, 0x45, 0x4c, 0x46, 2, 1, 1] ++ List.replicate 9 0 ++ leBytes 2 2 ++ leBytes 2 183 ++
    leBytes 4 1 ++ leBytes 8 entry ++ leBytes 8 64 ++ leBytes 12 0 ++ leBytes 2 64 ++
    leBytes 2 56 ++ leBytes 2 phnum ++ leBytes 6 0

def phdrBytes (ph : Phdr) : List UInt8 :=
  leBytes 4 ph.pType.toUInt64 ++ leBytes 4 ph.pFlags.toUInt64 ++ leBytes 8 ph.pOffset ++
    leBytes 8 ph.pVaddr ++ leBytes 8 ph.pVaddr ++ leBytes 8 ph.pFilesz ++ leBytes 8 ph.pMemsz ++
    leBytes 8 4096

def elfFile (phs : List Phdr) (contents : List UInt8) : Image :=
  let file := ehdrBytes 0x400000 (UInt64.ofNat phs.length) ++ phs.flatMap phdrBytes ++ contents
  ⟨fun i => file.getD i 0, UInt32.ofNat file.length⟩

/-- Text of four bytes, and data in the page `data` with two bytes and two more of bss. -/
def helloText : Phdr := ⟨ptLoad, 5, 176, 0x400000, 4, 4⟩
def helloData (data : UInt64) : Phdr := ⟨ptLoad, 6, 180, data, 2, 4⟩
def helloFile (data : UInt64) : Image :=
  elfFile [helloText, helloData data] [0xc0, 0x03, 0x5f, 0xd6, 0x68, 0x69]

/-- The heap when the vspace of the program is made, and when the file is loaded. -/
def execHeap : Heap := ⟨fun _ _ => 0xffff, [0x100], [0], ∅, ∅, []⟩
def execVspace : Vspace := ⟨0, 0x100, userMmapBase, [], [0x100]⟩
def loadHeap : Heap :=
  { (vspaceAlloc execHeap).1 with
    pageSupply := [0x101, 0x102, 0x103, 0x104, 0x105, 0x106, 0x107, 0x108]
    objectSupply := [1, 2, 3] }

theorem execVspace_fresh : Fresh loadHeap execVspace :=
  ⟨execHeap, (vspaceAlloc execHeap).1, ⟨by decide, by decide, by decide⟩, rfl, rfl, by decide⟩

theorem loadHeap_low : loadHeap.LowSupply := ⟨by decide, by decide, by decide⟩

/-- The heap and the vspace of a program that was loaded. -/
def loaded : Except Heap (Heap × Vspace × Except LoadError (UInt64 × UInt64)) → Option (Heap × Vspace)
  | .ok (h, vs, .ok _) => some (h, vs)
  | _ => none

theorem of_loaded {x : Except Heap (Heap × Vspace × Except LoadError (UInt64 × UInt64))}
    (some_ : (loaded x).isSome = true) : ∃ h vs r, x = .ok (h, vs, .ok r) := by
  unfold loaded at some_
  split at some_
  · exact ⟨_, _, _, rfl⟩
  · cases some_

theorem helloFile_disjoint {data : UInt64} (behind : 0x400004 ≤ data.toNat)
    (segments : (helloFile data).segments = [helloText, helloData data]) : (helloFile data).Disjoint := by
  rw [Image.Disjoint, segments, List.pairwise_pair]
  rintro a ⟨⟨_, below⟩, ⟨above, _⟩⟩
  change a < 0x400004 at below
  change data.toNat ≤ a at above
  omega

/-- With the data in the next page, the image is correct. -/
theorem elf_image_correct_hello :
    ∃ h' vs' r, procLoadElf (.ok (helloFile 0x401000)) loadHeap execVspace = .ok (h', vs', .ok r) ∧
      Correct (helloFile 0x401000) h'.mem vs'.pgd := by
  have segments : (helloFile 0x401000).segments = [helloText, helloData 0x401000] := by decide +kernel
  obtain ⟨h', vs', r, load⟩ := of_loaded (by decide +kernel :
    (loaded (procLoadElf (.ok (helloFile 0x401000)) loadHeap execVspace)).isSome = true)
  have intact : Intact (helloFile 0x401000) := by
    constructor
    · rw [segments]
      decide
    · rw [segments, List.pairwise_pair]
      rintro a ⟨_, below⟩ covers
      have above := (Phdr.inPages_iff.1 covers).1
      change a < 0x400004 at below
      change 0x401000 ≤ a at above
      omega
    · rw [segments]
      intro ph member a inside here
      have above := (inPage_iff.1 here).1
      change 0x7ffff000 ≤ a at above
      have low : ∀ ph ∈ [helloText, helloData 0x401000], ph.pVaddr.toNat + ph.pMemsz.toNat ≤ 0x401004 := by
        decide
      have below := inside.2
      have := low ph member
      omega
  exact ⟨h', vs', r, load, (elf_image_correct_iff execVspace_fresh loadHeap_low
    (helloFile_disjoint (by decide) segments) load).2 intact⟩

/-- **The data segment wipes out the text in its page**: the file has 0xc0 at 0x400000, the
program sees 0. -/
theorem elf_image_overwritten :
    Fresh loadHeap execVspace ∧ loadHeap.LowSupply ∧ (helloFile 0x400800).Disjoint ∧
    ∃ h' vs' r, procLoadElf (.ok (helloFile 0x400800)) loadHeap execVspace = .ok (h', vs', .ok r) ∧
      userByte h'.mem vs'.pgd 0x400000 = some 0 ∧
      helloText ∈ (helloFile 0x400800).segments ∧ helloText.InRange 0x400000 ∧
      helloText.content (helloFile 0x400800) 0x400000 = 0xc0 ∧
      ¬ Correct (helloFile 0x400800) h'.mem vs'.pgd := by
  have segments : (helloFile 0x400800).segments = [helloText, helloData 0x400800] := by decide +kernel
  obtain ⟨h', vs', r, load⟩ := of_loaded (by decide +kernel :
    (loaded (procLoadElf (.ok (helloFile 0x400800)) loadHeap execVspace)).isSome = true)
  have whole : ∀ ph ∈ (helloFile 0x400800).segments, ph.Whole := by
    rw [segments]
    decide
  have zero : userByte h'.mem vs'.pgd 0x400000 = some 0 := by
    rw [(procLoadElf_sees execVspace_fresh loadHeap_low whole load).1 _ (by decide), Image.layers, segments]
    decide +kernel
  have inFile : helloText.content (helloFile 0x400800) 0x400000 = 0xc0 := by decide +kernel
  have text : helloText ∈ (helloFile 0x400800).segments := by
    rw [segments]
    exact List.mem_cons_self
  have inside : helloText.InRange 0x400000 := ⟨by decide, by decide⟩
  refine ⟨execVspace_fresh, loadHeap_low, helloFile_disjoint (by decide) segments, h', vs', r, load, zero,
    text, inside, inFile, fun correct => ?_⟩
  have shown := correct.bytes helloText text 0x400000 inside
  rw [inFile, zero] at shown
  cases shown

end Image

end Minus.Proc.Loader
