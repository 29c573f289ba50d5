/-
# Proc.LoaderBounds — what a segment touches

`segmentTurns` is the loop of `load_segment` with a log: for every page that it has
mapped the address, the kernel alias and the `memcpy` into it, if there is one.  It
does what the loop does (`segmentTurns_loads`).

The six fields of a program header are sums that may wrap.  What the checks leave is
enough all the same: the file part ends below 2^33 and does not wrap, and so each copy
stays in the file and in its page (`Phdr.copy_within`).
-/
import Minus.Proc.LoaderImage

namespace Minus.Proc.Loader

set_option autoImplicit false

open Minus.Theory
open Minus.Core.Mmu (pageSize)
open Minus.Mm.AddressSpace

/-! ## The log -/

/-- The offsets and the length of a `memcpy`, as `size_t`. -/
structure Copy where
  dstOff : UInt32
  srcOff : UInt32
  len : UInt32
  deriving DecidableEq

/-- The copy into the page at `uva`, if the file has bytes for it. -/
def Phdr.copy (ph : Phdr) (uva : UInt64) : Option Copy :=
  let segFileStart := ph.pVaddr
  let segFileEnd := ph.pVaddr + ph.pFilesz
  let copyStart := if uva > segFileStart then uva else segFileStart
  let copyEnd := if uva + 4096 < segFileEnd then uva + 4096 else segFileEnd
  if copyEnd > copyStart then
    some ⟨(copyStart - uva).toUInt32, (copyStart - segFileStart + ph.pOffset).toUInt32,
      (copyEnd - copyStart).toUInt32⟩
  else none

/-- A turn of the loop that mapped its page. -/
structure Turn where
  uva : UInt64
  kva : Nat
  copied : Option Copy

/-- The turn's copy. -/
def Turn.write (t : Turn) (f : Image) (h : Heap) : Heap :=
  match t.copied with
  | none => h
  | some c =>
      { h with mem := memcpyPage h.mem t.kva c.dstOff.toNat c.len.toNat fun k => f.bytes (c.srcOff.toNat + k) }

/-- The loop of `load_segment`, and its turns. -/
def segmentLog (ph : Phdr) (f : Image) :
    Nat → Heap → Vspace → UInt64 → List Turn × Except Heap (Heap × Vspace × Except LoadError Unit)
  | 0, h, vs, _ => ([], .ok (h, vs, .ok ()))
  | n + 1, h, vs, uva =>
      match vspaceMapPage h vs uva ph.vmFlags with
      | .error h => ([], .error h)
      | .ok (h, vs, .error _) => ([], .ok (h, vs, .error .enomem))
      | .ok (h, vs, .ok kva) =>
          let turn : Turn := ⟨uva, kva, ph.copy uva⟩
          let rest := segmentLog ph f n (turn.write f h) vs (uva + 4096)
          (turn :: rest.1, rest.2)

/-- `load_segment`, and the turns of its loop. -/
def segmentTurns (ph : Phdr) (f : Image) (h : Heap) (vs : Vspace) :
    List Turn × Except Heap (Heap × Vspace × Except LoadError Unit) :=
  if ph.Refused f.size then ([], .ok (h, vs, .error .enoexec))
  else segmentLog ph f ((ph.vend.toNat - ph.vstart.toNat) / pageSize) h vs ph.vstart

section Log

variable (ph : Phdr) (f : Image)

theorem copyPage_eq (h : Heap) (kva : Nat) (uva : UInt64) :
    copyPage ph f h kva uva = Turn.write ⟨uva, kva, ph.copy uva⟩ f h := by
  unfold copyPage Turn.write Phdr.copy
  dsimp only
  generalize (if uva > ph.pVaddr then uva else ph.pVaddr) = copyStart
  generalize (if uva + 4096 < ph.pVaddr + ph.pFilesz then uva + 4096
    else ph.pVaddr + ph.pFilesz) = copyEnd
  by_cases some : copyEnd > copyStart
  · rw [if_pos some, if_pos some]
  · rw [if_neg some, if_neg some]

theorem segmentLog_loads :
    ∀ (n : Nat) (h : Heap) (vs : Vspace) (uva : UInt64),
      (segmentLog ph f n h vs uva).2 = segmentLoop ph f n h vs uva
  | 0, h, vs, uva => rfl
  | n + 1, h, vs, uva => by
      rw [segmentLog, segmentLoop]
      cases vspaceMapPage h vs uva ph.vmFlags with
      | error h' => rfl
      | ok r =>
          obtain ⟨h', vs', ret⟩ := r
          cases ret with
          | error e => rfl
          | ok kva =>
              have rest := segmentLog_loads n (copyPage ph f h' kva uva) vs' (uva + 4096)
              rw [copyPage_eq] at rest
              show (segmentLog ph f n _ vs' (uva + 4096)).2 = segmentLoop ph f n _ vs' (uva + 4096)
              rw [rest, copyPage_eq]

theorem segmentTurns_loads (h : Heap) (vs : Vspace) : (segmentTurns ph f h vs).2 = loadSegment ph f h vs := by
  unfold segmentTurns loadSegment
  split
  · rfl
  · exact segmentLog_loads ph f _ h vs _

end Log

/-! ## The bounds -/

/-- The page lies below `USER_STACK_TOP`; the copy reads bytes of the file and writes
bytes of the page. -/
structure Turn.Within (size : UInt32) (t : Turn) : Prop where
  below : t.uva.toNat + pageSize ≤ userStackTop.toNat
  source : ∀ c ∈ t.copied, c.srcOff.toNat + c.len.toNat ≤ size.toNat
  target : ∀ c ∈ t.copied, c.dstOff.toNat + c.len.toNat ≤ pageSize

/-- The vregion of a turn. -/
def Turn.Backs (vr : Vregion) (t : Turn) : Prop :=
  vr.start = t.uva ∧ vr.stop = t.uva + 4096 ∧ t.kva = frame vr.page

/-- The turns' pages, and no others, have come to the vspace. -/
def Maps (turns : List Turn) (vs vs' : Vspace) : Prop :=
  ∃ new, vs'.regions = vs.regions ++ new ∧ List.Forall₂ Turn.Backs new turns

section Bounds

variable {ph : Phdr} {f : Image} {size : UInt32}

/-- **Whatever wraps in a header that passes the checks, a copy stays in the file and in its
page.** -/
theorem Phdr.copy_within {uva : UInt64} (accepted : ¬ ph.Refused size) (start : ph.vstart.toNat ≤ uva.toNat)
    (below : uva.toNat + pageSize ≤ userStackTop.toNat) {c : Copy} (copied : c ∈ ph.copy uva) :
    c.srcOff.toNat + c.len.toNat ≤ size.toNat ∧ c.dstOff.toNat + c.len.toNat ≤ pageSize := by
  obtain ⟨filesz, file, order, top⟩ := Phdr.not_refused_iff.1 accepted
  have sizeBound := size.toNat_lt
  change uva.toNat + pageSize ≤ 0x80000000 at below
  rw [Phdr.vstart_toNat] at start order
  -- the file part of the segment does not wrap
  have next : (uva + 4096).toNat = uva.toNat + pageSize := nextPage_toNat (by omega)
  have fileEnd : (ph.pVaddr + ph.pFilesz).toNat = ph.pVaddr.toNat + ph.pFilesz.toNat := by
    rw [UInt64.toNat_add]
    exact Nat.mod_eq_of_lt (by omega)
  unfold Phdr.copy at copied
  dsimp only at copied
  generalize copyStart_def : (if uva > ph.pVaddr then uva else ph.pVaddr) = copyStart at copied
  generalize copyEnd_def : (if uva + 4096 < ph.pVaddr + ph.pFilesz then uva + 4096
    else ph.pVaddr + ph.pFilesz) = copyEnd at copied
  have afterPage : uva.toNat ≤ copyStart.toNat ∧ ph.pVaddr.toNat ≤ copyStart.toNat := by
    rw [← copyStart_def, later_toNat]
    exact ⟨Nat.le_max_left _ _, Nat.le_max_right _ _⟩
  have beforeEnd : copyEnd.toNat ≤ uva.toNat + pageSize ∧
      copyEnd.toNat ≤ ph.pVaddr.toNat + ph.pFilesz.toNat := by
    rw [← copyEnd_def, ← next, ← fileEnd, sooner_toNat]
    exact ⟨Nat.min_le_left _ _, Nat.min_le_right _ _⟩
  by_cases some : copyEnd > copyStart
  · rw [if_pos some] at copied
    cases copied
    have forward := UInt64.lt_iff_toNat_lt.1 some
    have page : pageSize = 4096 := rfl
    have dst : (copyStart - uva).toUInt32.toNat = copyStart.toNat - uva.toNat :=
      distance_toNat afterPage.1 (by omega)
    have len : (copyEnd - copyStart).toUInt32.toNat = copyEnd.toNat - copyStart.toNat :=
      distance_toNat (Nat.le_of_lt forward) (by omega)
    have src : (copyStart - ph.pVaddr + ph.pOffset).toUInt32.toNat =
        copyStart.toNat - ph.pVaddr.toNat + ph.pOffset.toNat := srcOff_toNat afterPage.2 (by omega)
    dsimp only
    rw [dst, len, src]
    omega
  · rw [if_neg some] at copied
    cases copied

theorem Maps.refl (vs : Vspace) : Maps [] vs vs := ⟨[], (List.append_nil _).symm, .nil⟩

/-- A call of `vspace_map_page` in the loop. -/
theorem vspaceMapPage_backs (h : Heap) (vs : Vspace) (uva : UInt64) (flags : UInt32) :
    Ends (fun r => match r.2.2 with
        | .error _ => Maps [] vs r.2.1
        | .ok kva => ∀ copied, Maps [⟨uva, kva, copied⟩] vs r.2.1)
      (fun h' => h'.pageSupply = []) (vspaceMapPage h vs uva flags) := by
  have stops := vspaceMapPage_stops h vs uva flags
  apply ((vspaceMapPage_outcome h vs uva flags).and stops).mono (fun r both => ?_) fun _ both => both.2
  obtain ⟨h', vs', ret⟩ := r
  obtain ⟨out, _⟩ := both
  cases out with
  | unaligned bad => exact Maps.refl vs
  | noPage aligned noPages => exact Maps.refl vs
  | noRegion aligned page rest hasPage noObjects => exact Maps.refl vs
  | mapped aligned page rest obj objs hasPage hasObject h₁ vs₁ map =>
      have books := mapIn_books (h.took page rest obj objs) vs (pageCall uva flags page)
      rw [map] at books
      obtain ⟨used, books⟩ := books
      intro copied
      refine ⟨[⟨obj, uva, uva + 4096, flags, page⟩], ?_, .cons ⟨rfl, rfl, rfl⟩ .nil⟩
      have vspace : vs₁ = { vs with tables := (used.map frame).reverse ++ vs.tables } := books.vspace
      rw [vspace]
      rfl

theorem Maps.cons {t : Turn} {turns : List Turn} {vs vs₁ vs' : Vspace} (first : Maps [t] vs vs₁)
    (rest : Maps turns vs₁ vs') : Maps (t :: turns) vs vs' := by
  obtain ⟨new, regions, backs⟩ := first
  obtain ⟨more, regions', backs'⟩ := rest
  refine ⟨new ++ more, by rw [regions', regions, List.append_assoc], ?_⟩
  cases backs with
  | cons here nothing =>
      cases nothing
      exact .cons here backs'

/-- **The loop**: every turn is within the bounds, and it returns unless the pages run out. -/
theorem segmentLog_within (accepted : ¬ ph.Refused f.size) :
    ∀ (n : Nat) (h : Heap) (vs : Vspace) (uva : UInt64), ph.vstart.toNat ≤ uva.toNat →
      uva.toNat + n * pageSize ≤ userStackTop.toNat →
      (∀ t ∈ (segmentLog ph f n h vs uva).1, t.Within f.size) ∧
        Ends (fun r => Maps (segmentLog ph f n h vs uva).1 vs r.2.1 ∧ r.2.2 ≠ .error .enoexec)
          (fun h' => h'.pageSupply = []) (segmentLog ph f n h vs uva).2
  | 0, h, vs, uva, _, _ => ⟨nofun, Maps.refl vs, nofun⟩
  | n + 1, h, vs, uva, start, room => by
      have here : uva.toNat + pageSize ≤ userStackTop.toNat := by
        rw [Nat.succ_mul] at room
        omega
      have mapped := vspaceMapPage_backs h vs uva ph.vmFlags
      rw [segmentLog]
      cases call : vspaceMapPage h vs uva ph.vmFlags with
      | error h' =>
          rw [call] at mapped
          exact ⟨nofun, mapped⟩
      | ok r =>
          rw [call] at mapped
          obtain ⟨h', vs', ret⟩ := r
          cases ret with
          | error e => exact ⟨nofun, mapped, nofun⟩
          | ok kva =>
              have next : (uva + 4096).toNat = uva.toNat + pageSize :=
                nextPage_toNat (Nat.lt_of_le_of_lt here (by decide))
              have rest := segmentLog_within accepted n (Turn.write ⟨uva, kva, ph.copy uva⟩ f h') vs'
                (uva + 4096) (by omega) (by rw [next]; rw [Nat.succ_mul] at room; omega)
              obtain ⟨within, ends⟩ := rest
              constructor
              · intro t member
                obtain rfl | later := List.mem_cons.1 member
                · exact ⟨here, fun c copied => (Phdr.copy_within accepted start here copied).1,
                    fun c copied => (Phdr.copy_within accepted start here copied).2⟩
                · exact within t later
              · apply ends.mono (fun r post => ?_) fun _ none => none
                exact ⟨(mapped _).cons post.1, post.2⟩

end Bounds

/-- A refused segment has no turns, and the others go up to their last page. -/
theorem segmentTurns_within (ph : Phdr) (f : Image) (h : Heap) (vs : Vspace) :
    (∀ t ∈ (segmentTurns ph f h vs).1, t.Within f.size) ∧
      Ends
        (fun r => Maps (segmentTurns ph f h vs).1 vs r.2.1 ∧
          (r.2.2 = .error .enoexec → r.1 = h ∧ r.2.1 = vs))
        (fun h' => h'.pageSupply = []) (segmentTurns ph f h vs).2 := by
  rw [segmentTurns]
  by_cases refused : ph.Refused f.size
  · rw [if_pos refused]
    exact ⟨nofun, Maps.refl vs, fun _ => ⟨rfl, rfl⟩⟩
  · rw [if_neg refused]
    obtain ⟨_, _, order, top⟩ := Phdr.not_refused_iff.1 refused
    have room : ph.vstart.toNat + (ph.vend.toNat - ph.vstart.toNat) / pageSize * pageSize ≤
        userStackTop.toNat := by
      have := Nat.div_mul_le_self (ph.vend.toNat - ph.vstart.toNat) pageSize
      change _ ≤ 0x80000000
      omega
    obtain ⟨within, ends⟩ := segmentLog_within refused _ h vs ph.vstart (Nat.le_refl _) room
    refine ⟨within, ends.mono (fun r post => ⟨post.1, fun bad => ?_⟩) fun _ none => none⟩
    exact absurd bad post.2

/-- **`load_segment` on any header**: every page that it maps lies below `USER_STACK_TOP`, every
copy reads bytes of the file and writes bytes of the page just mapped, -ENOEXEC has changed
nothing, and it returns unless the pages run out. -/
theorem load_segment_within (ph : Phdr) (f : Image) (h : Heap) (vs : Vspace) :
    (∀ t ∈ (segmentTurns ph f h vs).1, t.Within f.size) ∧
      (segmentTurns ph f h vs).2 = loadSegment ph f h vs ∧
      Ends
        (fun r => Maps (segmentTurns ph f h vs).1 vs r.2.1 ∧
          (r.2.2 = .error .enoexec → r.1 = h ∧ r.2.1 = vs))
        (fun h' => h'.pageSupply = []) (loadSegment ph f h vs) := by
  obtain ⟨within, ends⟩ := segmentTurns_within ph f h vs
  have loads := segmentTurns_loads ph f h vs
  exact ⟨within, loads, loads ▸ ends⟩

/-- A heap with one free page. -/
def lastPageHeap : Heap := { (vspaceAlloc execHeap).1 with pageSupply := [0x101], objectSupply := [1] }

/-- **With one free page left, `load_segment` does not return**: the page backs the text, and
`mmu_map` has none for a table. -/
theorem load_segment_stuck :
    Fresh lastPageHeap execVspace ∧ (helloFile 0x401000).Verified ∧
      helloText ∈ (helloFile 0x401000).segments ∧
      ¬ ∃ r, loadSegment helloText (helloFile 0x401000) lastPageHeap execVspace = .ok r := by
  have segments : (helloFile 0x401000).segments = [helloText, helloData 0x401000] := by decide +kernel
  have stuck : (loadSegment helloText (helloFile 0x401000) lastPageHeap execVspace).toOption.isNone = true := by
    decide +kernel
  refine ⟨⟨execHeap, (vspaceAlloc execHeap).1, ⟨by decide, by decide, by decide⟩, rfl, rfl, by decide⟩,
    by decide +kernel, ?_, ?_⟩
  · rw [segments]
    exact List.mem_cons_self
  · rintro ⟨r, load⟩
    rw [load] at stuck
    cases stuck

end Minus.Proc.Loader
