/-
# Proc.ProcessBooks — what a process owns

A process is an object and up to two capabilities of its own: an address space and a
table of open files (`Estate`).  `Built` says that memory and the capability table
hold it apart from everything else; each function of `process.c` and `proc_execve.c`
has one lemma that says what it makes of the estate, and that it leaves the rest of
the kernel alone (`Frame`).
-/
import Minus.Proc.LoaderPages
import Minus.Proc.Process

namespace Minus.Proc.Processes

set_option autoImplicit false

open Minus.Theory
open Minus.Core.Cap
open Minus.Core.Thread (capRCtl capRRead)
open Minus.Mm.AddressSpace
  (Heap Obj Vspace MmState capRMap mmVspaceCreate mmVspaceDestroy vspaceFree vspaceFree_objects mapIn_books
    vspaceMapPage vspaceMapPage_outcome PageOutcome AllocOutcome vspaceAlloc vspaceAlloc_outcome)
open Minus.Mm.Buddy (Pfn)
open Minus.Fs.Dcache (Fault)
open Minus.Proc.Loader (Image LoadError Phdr Beside SamePages kmalloc_samePages kfree_samePages)

/-! ## Capabilities and objects -/

/-- The live tokens of the table, and objects in use that differ from one another and from
what `kmalloc` will answer. -/
structure Holds (table : CapState Obj) (h : Heap) (live : List (Live Obj)) (objs : List Obj) : Prop where
  table : CapInv table live
  apart : objs.Nodup
  inUse : ∀ o ∈ objs, o ∈ h.objects
  supply : h.objectSupply.Nodup
  unused : ∀ o ∈ h.objectSupply, o ∉ h.objects

/-- The rights that vspaces, tables of open files, processes and threads are named with are
those that the kernel asks for. -/
theorem vspaceMaps : RightsSubset capRMap (capRMap ||| capRCtl) := (rightsSubset_iff _ _).2 (by decide)

theorem vspaceControls : RightsSubset Mm.AddressSpace.capRCtl (capRMap ||| capRCtl) :=
  (rightsSubset_iff _ _).2 (by decide)

theorem filesControls : RightsSubset capRCtl capRCtl := (rightsSubset_iff _ _).2 (by decide)

theorem processReads : RightsSubset capRRead (capRCtl ||| capRRead) := (rightsSubset_iff _ _).2 (by decide)

theorem threadControls : RightsSubset capRCtl (capRCtl ||| capRRead) := (rightsSubset_iff _ _).2 (by decide)

section Holds

variable {table : CapState Obj} {h h' : Heap} {live : List (Live Obj)} {objs : List Obj}

theorem Holds.perm {objs' : List Obj} (holds : Holds table h live objs) (perm : objs.Perm objs') :
    Holds table h live objs' :=
  ⟨holds.table, perm.nodup_iff.1 holds.apart, fun o member => holds.inUse o (perm.mem_iff.2 member),
    holds.supply, holds.unused⟩

theorem Holds.permLive {live' : List (Live Obj)} (holds : Holds table h live objs) (perm : live.Perm live') :
    Holds table h live' objs :=
  ⟨holds.table.perm perm, holds.apart, holds.inUse, holds.supply, holds.unused⟩

/-- Objects may be forgotten. -/
theorem Holds.sublist {objs' : List Obj} (holds : Holds table h live objs) (sub : objs'.Sublist objs) :
    Holds table h live objs' :=
  ⟨holds.table, holds.apart.sublist sub, fun o member => holds.inUse o (sub.subset member), holds.supply,
    holds.unused⟩

theorem Holds.heap (holds : Holds table h live objs) (supply : h'.objectSupply = h.objectSupply)
    (objects : h'.objects = h.objects) : Holds table h' live objs :=
  ⟨holds.table, holds.apart, by rw [objects]; exact holds.inUse, by rw [supply]; exact holds.supply,
    by rw [supply, objects]; exact holds.unused⟩

/-- What `kmalloc` answers is none of the objects. -/
theorem Holds.fresh (holds : Holds table h live objs) {o : Obj} (supplied : o ∈ h.objectSupply) : o ∉ objs :=
  fun member => holds.unused o supplied (holds.inUse o member)

/-- The next answers of `kmalloc` join the objects. -/
theorem Holds.take {new : List Obj} (holds : Holds table h live objs)
    (supply : h.objectSupply = new ++ h'.objectSupply) (objects : ∀ o, o ∈ h'.objects ↔ o ∈ new ∨ o ∈ h.objects) :
    Holds table h' live (new ++ objs) := by
  have split := holds.supply
  rw [supply, List.nodup_append] at split
  obtain ⟨newApart, restApart, disjoint⟩ := split
  have old : ∀ o ∈ new, o ∉ objs := fun o member =>
    holds.fresh (by rw [supply]; exact List.mem_append_left _ member)
  refine ⟨holds.table, ?_, fun o member => ?_, restApart, fun o member used => ?_⟩
  · rw [List.nodup_append]
    refine ⟨newApart, holds.apart, fun a isNew b isOld same => ?_⟩
    subst same
    exact old a isNew isOld
  · rw [objects]
    exact (List.mem_append.1 member).imp id (holds.inUse o)
  · rcases (objects o).1 used with isNew | isOld
    · exact disjoint o isNew o member rfl
    · exact holds.unused o (by rw [supply]; exact List.mem_append_right _ member) isOld

theorem Holds.kmalloc {o : Obj} (holds : Holds table h live objs) (result : h.kmalloc = (h', some o)) :
    Holds table h' live (o :: objs) ∧ h'.mem = h.mem := by
  unfold Heap.kmalloc at result
  split at result
  · cases result
  · rename_i obj rest supply
    cases result
    have taken : Holds table { h with objectSupply := rest, objects := insert o h.objects } live ([o] ++ objs) :=
      holds.take supply fun x => by simp
    exact ⟨taken, rfl⟩

theorem kmalloc_none (result : h.kmalloc = (h', none)) : h' = h := by
  unfold Heap.kmalloc at result
  split at result
  · cases result
    rfl
  · cases result

theorem Holds.kzallocPages {page : Option Nat} (holds : Holds table h live objs)
    (result : h.kzallocPages = (h', page)) : Holds table h' live objs := by
  have same : h'.objectSupply = h.objectSupply ∧ h'.objects = h.objects := by
    unfold Heap.kzallocPages Heap.buddyAllocPages at result
    cases supply : h.pageSupply with
    | nil =>
        rw [supply] at result
        cases result
        exact ⟨rfl, rfl⟩
    | cons p rest =>
        rw [supply] at result
        cases result
        exact ⟨rfl, rfl⟩
  exact holds.heap same.1 same.2

theorem Holds.kfree {o : Obj} (holds : Holds table h live (o :: objs)) : Holds table (h.kfree o) live objs := by
  obtain ⟨absent, apart⟩ := List.nodup_cons.1 holds.apart
  refine ⟨holds.table, apart, fun x member => ?_, holds.supply, fun x supplied used => ?_⟩
  · exact Finset.mem_erase.2 ⟨ne_of_mem_of_not_mem member absent, holds.inUse x (List.mem_cons_of_mem _ member)⟩
  · exact holds.unused x supplied (Finset.mem_of_mem_erase used)

/-- `cap_alloc` of one of the objects. -/
theorem Holds.alloc (holds : Holds table h live objs) (o : Obj) (rights : UInt64) :
    ((capAlloc table (some o) rights).2 = capNull ∧ Holds (capAlloc table (some o) rights).1 h live objs) ∨
      ((capAlloc table (some o) rights).2 ≠ capNull ∧
        Holds (capAlloc table (some o) rights).1 h (⟨(capAlloc table (some o) rights).2, o, rights⟩ :: live) objs) := by
  obtain ⟨failed, table'⟩ | ⟨issued, table'⟩ := holds.table.allocated o rights
  · exact Or.inl ⟨failed, table', holds.apart, holds.inUse, holds.supply, holds.unused⟩
  · exact Or.inr ⟨issued, table', holds.apart, holds.inUse, holds.supply, holds.unused⟩

theorem Holds.revoke {l : Live Obj} (holds : Holds table h (l :: live) objs) :
    Holds (capFree table l.token) h live objs :=
  ⟨holds.table.released, holds.apart, holds.inUse, holds.supply, holds.unused⟩

theorem Holds.resolves {l : Live Obj} (holds : Holds table h live objs) (member : l ∈ live) {required : UInt64}
    (allowed : RightsSubset required l.rights) : capResolve table l.token required = some l.obj :=
  (holds.table.resolve_live member required).1 allowed

theorem Holds.token_ne_null {l : Live Obj} (holds : Holds table h live objs) (member : l ∈ live) :
    l.token ≠ capNull :=
  Minus.Core.Cap.token_ne_null (holds.table.slot_pos l member)

/-- `vspace_free` gives back the vspace and its vregions. -/
theorem Holds.vspaceFree {vs : Vspace} {o : Obj} (self : vs.self = o)
    (holds : Holds table h live (o :: (vs.regions.map (·.self) ++ objs))) :
    Holds table (vspaceFree h vs) live objs := by
  subst self
  obtain ⟨notSelf, rest⟩ := List.nodup_cons.1 holds.apart
  obtain ⟨-, apart, disjoint⟩ := List.nodup_append.1 rest
  refine ⟨holds.table, apart, fun o member => ?_, ?_, fun o supplied used => ?_⟩
  · rw [vspaceFree_objects]
    refine ⟨holds.inUse o (by simp [member]), fun isRegion => disjoint o isRegion o member rfl, ?_⟩
    rintro rfl
    exact notSelf (List.mem_append_right _ member)
  · rw [(Mm.AddressSpace.vspaceFree_supply _ _).1]
    exact holds.supply
  · rw [(Mm.AddressSpace.vspaceFree_supply _ _).1] at supplied
    exact holds.unused o supplied ((vspaceFree_objects _ _ _).1 used).1

end Holds

/-! ## Loading -/

/-- The calls on an address space add vregions for the objects they take. -/
structure Grown (h h' : Heap) (vs vs' : Vspace) (new : List Obj) : Prop where
  supply : h.objectSupply = new ++ h'.objectSupply
  objects : ∀ o, o ∈ h'.objects ↔ o ∈ new ∨ o ∈ h.objects
  regions : vs'.regions.map (·.self) = vs.regions.map (·.self) ++ new
  self : vs'.self = vs.self
  pgd : vs'.pgd = vs.pgd

section Grown

variable {h h' h'' : Heap} {vs vs' vs'' : Vspace}

theorem Grown.refl (h : Heap) (vs : Vspace) : Grown h h vs vs [] :=
  ⟨rfl, fun o => by simp, by simp, rfl, rfl⟩

theorem Grown.trans {new new' : List Obj} (first : Grown h h' vs vs' new) (second : Grown h' h'' vs' vs'' new') :
    Grown h h'' vs vs'' (new ++ new') where
  supply := by rw [first.supply, second.supply, List.append_assoc]
  objects o := by
    rw [second.objects, first.objects, List.mem_append]
    tauto
  regions := by rw [second.regions, first.regions, List.append_assoc]
  self := second.self.trans first.self
  pgd := second.pgd.trans first.pgd

theorem vspaceMapPage_grown {uva : UInt64} {flags : UInt32} {ret : Except Mm.AddressSpace.Errno Nat}
    (run : vspaceMapPage h vs uva flags = .ok (h', vs', ret)) : ∃ new, Grown h h' vs vs' new := by
  have outcome := vspaceMapPage_outcome h vs uva flags
  rw [run] at outcome
  cases outcome with
  | unaligned => exact ⟨[], Grown.refl h vs⟩
  | noPage => exact ⟨[], Grown.refl h vs⟩
  | noRegion aligned page rest hasPage noObjects => exact ⟨[], rfl, fun o => by simp [Heap.buddyFreePages], by simp, rfl, rfl⟩
  | mapped aligned page rest obj objs hasPage hasObject h₁ vs₁ map =>
      have books := mapIn_books (h.took page rest obj objs) vs (Mm.AddressSpace.pageCall uva flags page)
      rw [map] at books
      obtain ⟨used, books⟩ := books
      have vspace : vs₁ = { vs with tables := (used.map Mm.AddressSpace.frame).reverse ++ vs.tables } := books.vspace
      refine ⟨[obj], ?_, fun o => ?_, ?_, ?_, ?_⟩
      · rw [hasObject]
        exact congrArg (obj :: ·) books.objectSupply.symm
      · change o ∈ h₁.objects ↔ _
        rw [books.objects, List.mem_singleton]
        exact Finset.mem_insert
      · rw [vspace]
        simp [Vspace.addRegion]
      · rw [vspace]
        rfl
      · rw [vspace]
        rfl

theorem copyPage_objects (ph : Phdr) (f : Image) (h : Heap) (page : Nat) (uva : UInt64) :
    (Loader.copyPage ph f h page uva).objects = h.objects ∧
      (Loader.copyPage ph f h page uva).objectSupply = h.objectSupply := by
  unfold Loader.copyPage
  dsimp only
  generalize (if uva > ph.pVaddr then uva else ph.pVaddr) = copyStart
  generalize (if uva + 4096 < ph.pVaddr + ph.pFilesz then uva + 4096 else ph.pVaddr + ph.pFilesz) = copyEnd
  by_cases some : copyEnd > copyStart
  · simp only [if_pos some, and_self]
  · rw [if_neg some]
    exact ⟨rfl, rfl⟩

theorem procLoadElf_grown {file : Except LoadError Image} {ret : Except LoadError (UInt64 × UInt64)}
    (run : Loader.procLoadElf file h vs = .ok (h', vs', ret)) : ∃ new, Grown h h' vs vs' new := by
  have keeps : Loader.Keeps fun h₁ vs₁ => ∃ new, Grown h h₁ vs vs₁ new := by
    refine ⟨?_, ?_⟩
    · rintro h₁ h₂ vs₁ vs₂ uva flags ret ⟨new, grown⟩ map
      obtain ⟨new', grown'⟩ := vspaceMapPage_grown map
      exact ⟨_, grown.trans grown'⟩
    · rintro ph f h₁ h₂ vs₁ vs₂ uva flags kva ⟨new, grown⟩ map
      obtain ⟨new', grown'⟩ := vspaceMapPage_grown map
      obtain ⟨objects, supply⟩ := copyPage_objects ph f h₂ kva uva
      have copied : Grown h₂ (Loader.copyPage ph f h₂ kva uva) vs₂ vs₂ [] :=
        ⟨by rw [supply]; rfl, fun o => by simp [objects], by simp, rfl, rfl⟩
      exact ⟨_, (grown.trans grown').trans copied⟩
  exact keeps.procLoadElf ⟨[], Grown.refl h vs⟩ run

end Grown

/-! ## The rest of the kernel -/

/-- What the subscribers of the switch bus keep. -/
def Kernel.mirrors (k : Kernel) : (UInt64 × Option Obj) × Option Obj × Option Obj × Option Nat :=
  ((k.curVspaceCap, k.curVspace), k.curFiles, k.currentProcess, k.ttbr0)

/-- A call leaves what these addresses hold, the threads and the mirrors as they are. -/
structure Frame (objs : List Obj) (k k' : Kernel) : Prop where
  processes : ∀ o ∈ objs, k'.processes o = k.processes o
  vspaces : ∀ o ∈ objs, k'.vspaces o = k.vspaces o
  tables : ∀ o ∈ objs, k'.tables o = k.tables o
  sys : k'.sys = { k.sys with caps := k'.sys.caps }
  mirrors : k'.mirrors = k.mirrors

section Frame

variable {objs : List Obj} {k k' k'' : Kernel}

theorem Frame.refl (objs : List Obj) (k : Kernel) : Frame objs k k :=
  ⟨fun _ _ => rfl, fun _ _ => rfl, fun _ _ => rfl, rfl, rfl⟩

theorem Frame.trans (first : Frame objs k k') (second : Frame objs k' k'') : Frame objs k k'' where
  processes o member := (second.processes o member).trans (first.processes o member)
  vspaces o member := (second.vspaces o member).trans (first.vspaces o member)
  tables o member := (second.tables o member).trans (first.tables o member)
  sys := by rw [second.sys, first.sys]
  mirrors := second.mirrors.trans first.mirrors

theorem Frame.mono {objs' : List Obj} (frame : Frame objs k k') (sub : objs' ⊆ objs) : Frame objs' k k' :=
  ⟨fun o member => frame.processes o (sub member), fun o member => frame.vspaces o (sub member),
    fun o member => frame.tables o (sub member), frame.sys, frame.mirrors⟩

/-- A call that writes no record. -/
theorem Frame.of_eq (processes : k'.processes = k.processes) (vspaces : k'.vspaces = k.vspaces)
    (tables : k'.tables = k.tables) (sys : k'.sys = { k.sys with caps := k'.sys.caps })
    (mirrors : k'.mirrors = k.mirrors) : Frame objs k k' :=
  ⟨fun _ _ => by rw [processes], fun _ _ => by rw [vspaces], fun _ _ => by rw [tables], sys, mirrors⟩

theorem Frame.setProcess {p : Obj} (absent : p ∉ objs) (f : Process → Process) : Frame objs k (k.setProcess p f) :=
  ⟨fun _ member => Function.update_of_ne (ne_of_mem_of_not_mem member absent) _ _, fun _ _ => rfl,
    fun _ _ => rfl, rfl, rfl⟩

end Frame

/-! ## The estate of a process -/

/-- A capability and the object it was handed out for. -/
structure Named where
  cap : UInt64
  obj : Obj

structure Estate where
  process : Named
  vspace : Option Named
  files : Option Named

namespace Estate

def live (e : Estate) : List (Live Obj) :=
  (e.files.elim [] fun f => [⟨f.cap, f.obj, capRCtl⟩]) ++
    ((e.vspace.elim [] fun v => [⟨v.cap, v.obj, capRMap ||| capRCtl⟩]) ++
      [⟨e.process.cap, e.process.obj, capRCtl ||| capRRead⟩])

/-- The objects, those of the vregions and of the `fs_ctx` included. -/
def objects (k : Kernel) (e : Estate) : List Obj :=
  (e.files.elim [] fun f => [f.obj, (k.tables f.obj).fsCtx]) ++
    ((e.vspace.elim [] fun v => v.obj :: (k.vspaces v.obj).regions.map (·.self)) ++ [e.process.obj])

/-- The process names its capabilities. -/
structure Recorded (k : Kernel) (e : Estate) : Prop where
  self : (k.processes e.process.obj).self = e.process.cap
  vspace : (k.processes e.process.obj).vspace = e.vspace.elim capNull (·.cap)
  files : (k.processes e.process.obj).files = e.files.elim capNull (·.cap)
  vspaceSelf : ∀ v, e.vspace = some v → (k.vspaces v.obj).self = v.obj

end Estate

/-- An estate beside other capabilities and objects. -/
structure Built (k : Kernel) (e : Estate) (live : List (Live Obj)) (objs : List Obj) : Prop where
  holds : Holds k.sys.caps k.heap (e.live ++ live) (e.objects k ++ objs)
  recorded : e.Recorded k

/-- Its address space stands on pages that were not in use in `base`. -/
structure Estate.Housed (base : Heap) (k : Kernel) (e : Estate) : Prop where
  beside : Beside base k.heap
  vspace : ∀ v, e.vspace = some v → Loader.Apart base k.heap (k.vspaces v.obj)

section Calls

variable {k k' : Kernel} {live : List (Live Obj)} {objs : List Obj} {base : Heap}

theorem Estate.Housed.step {e e' : Estate} (housed : e.Housed base k) (step : Beside k.heap k'.heap)
    (vspace : ∀ v, e'.vspace = some v → e.vspace = some v ∧ k'.vspaces v.obj = k.vspaces v.obj) :
    e'.Housed base k' := by
  refine ⟨housed.beside.trans step, fun v has => ?_⟩
  obtain ⟨earlier, same⟩ := vspace v has
  rw [same]
  exact (housed.vspace v earlier).beside step

theorem Estate.Housed.same {e : Estate} (housed : e.Housed base k) (same : SamePages k.heap k'.heap)
    (vspaces : ∀ v, e.vspace = some v → k'.vspaces v.obj = k.vspaces v.obj) : e.Housed base k' :=
  housed.step (same.beside housed.beside.supply) fun v has => ⟨has, vspaces v has⟩

/-- A process made later stands apart from what was in use earlier. -/
theorem Estate.Housed.from {e : Estate} {h : Heap} (housed : e.Housed h k) (earlier : Beside base h) :
    e.Housed base k :=
  ⟨earlier.trans housed.beside, fun v has => (housed.vspace v has).from earlier⟩

theorem Estate.objects_congr {e : Estate} (vspaces : ∀ v, e.vspace = some v → k'.vspaces v.obj = k.vspaces v.obj)
    (tables : ∀ f, e.files = some f → k'.tables f.obj = k.tables f.obj) : e.objects k' = e.objects k := by
  obtain ⟨process, vspace, files⟩ := e
  cases vspace with
  | none =>
      cases files with
      | none => rfl
      | some f => simp only [Estate.objects, Option.elim, tables f rfl]
  | some v =>
      cases files with
      | none => simp only [Estate.objects, Option.elim, vspaces v rfl]
      | some f => simp only [Estate.objects, Option.elim, vspaces v rfl, tables f rfl]

/-- A call that leaves the estate alone. -/
theorem Built.carry {e : Estate} {live' : List (Live Obj)} {objs' : List Obj} (built : Built k e live objs)
    (process : k'.processes e.process.obj = k.processes e.process.obj)
    (vspaces : ∀ v, e.vspace = some v → k'.vspaces v.obj = k.vspaces v.obj)
    (tables : ∀ f, e.files = some f → k'.tables f.obj = k.tables f.obj)
    (holds : Holds k'.sys.caps k'.heap (e.live ++ live') (e.objects k ++ objs')) : Built k' e live' objs' := by
  obtain ⟨-, self, vspace, files, vspaceSelf⟩ := built
  refine ⟨by rw [Estate.objects_congr vspaces tables]; exact holds, ?_, ?_, ?_, fun v has => ?_⟩
  · rw [process]; exact self
  · rw [process]; exact vspace
  · rw [process]; exact files
  · rw [vspaces v has]; exact vspaceSelf v has

/-- A change of the process that keeps its capabilities. -/
theorem Built.setProcess {e : Estate} (built : Built k e live objs) {f : Process → Process}
    (self : ∀ proc, (f proc).self = proc.self) (vspace : ∀ proc, (f proc).vspace = proc.vspace)
    (files : ∀ proc, (f proc).files = proc.files) : Built (k.setProcess e.process.obj f) e live objs := by
  obtain ⟨holds, hasSelf, hasVspace, hasFiles, vspaceSelf⟩ := built
  have updated : (k.setProcess e.process.obj f).processes e.process.obj = f (k.processes e.process.obj) :=
    Function.update_self _ _ _
  refine ⟨holds, ?_, ?_, ?_, vspaceSelf⟩
  · rw [updated, self]; exact hasSelf
  · rw [updated, vspace]; exact hasVspace
  · rw [updated, files]; exact hasFiles

theorem Built.process_absent {e : Estate} (built : Built k e live objs) : e.process.obj ∉ objs := by
  have apart := (List.nodup_append.1 built.holds.apart).2.2
  exact fun member => apart e.process.obj (by simp [Estate.objects]) _ member rfl

/-! ## Taking apart -/

theorem fsFilesDestroy_spec {f : Named}
    (holds : Holds k.sys.caps k.heap (⟨f.cap, f.obj, capRCtl⟩ :: live)
      (f.obj :: (k.tables f.obj).fsCtx :: objs))
    (run : fsFilesDestroy k f.cap = .ok k') :
    Holds k'.sys.caps k'.heap live objs ∧ (∀ kept, Frame kept k k') ∧ SamePages k.heap k'.heap := by
  have found : filesFromCap k f.cap = some f.obj :=
    holds.resolves List.mem_cons_self filesControls
  simp only [fsFilesDestroy, found, freeFilesStruct] at run
  obtain ⟨fs, -, rfl⟩ := map_eq_ok.1 run
  have swapped := holds.revoke.perm (List.Perm.swap _ _ _)
  exact ⟨swapped.kfree.kfree, fun kept => Frame.of_eq rfl rfl rfl rfl rfl, ⟨rfl, rfl, rfl⟩⟩

theorem mmVspaceDestroy_spec {v : Named}
    (holds : Holds k.sys.caps k.heap (⟨v.cap, v.obj, capRMap ||| capRCtl⟩ :: live)
      (v.obj :: ((k.vspaces v.obj).regions.map (·.self) ++ objs)))
    (self : (k.vspaces v.obj).self = v.obj) :
    Holds (k.withMm (mmVspaceDestroy k.mm v.cap)).sys.caps (k.withMm (mmVspaceDestroy k.mm v.cap)).heap live objs ∧
      (∀ kept, Frame kept k (k.withMm (mmVspaceDestroy k.mm v.cap))) ∧
      (k.withMm (mmVspaceDestroy k.mm v.cap)).heap = vspaceFree k.heap (k.vspaces v.obj) := by
  have found : capResolve k.mm.caps v.cap Mm.AddressSpace.capRCtl = some v.obj :=
    holds.resolves List.mem_cons_self vspaceControls
  have destroy : mmVspaceDestroy k.mm v.cap =
      ⟨vspaceFree k.heap (k.vspaces v.obj), capFree k.sys.caps v.cap, k.vspaces⟩ := by
    simp only [mmVspaceDestroy, found]
    rfl
  rw [destroy]
  refine ⟨?_, fun kept => Frame.of_eq rfl rfl rfl rfl rfl, rfl⟩
  exact holds.revoke.vspaceFree self

theorem releaseFiles_spec {files : Option Named}
    (holds : Holds k.sys.caps k.heap ((files.elim [] fun f => [⟨f.cap, f.obj, capRCtl⟩]) ++ live)
      ((files.elim [] fun f => [f.obj, (k.tables f.obj).fsCtx]) ++ objs))
    (run : (if files.elim capNull (·.cap) ≠ capNull then fsFilesDestroy k (files.elim capNull (·.cap))
      else .ok k) = .ok k') :
    Holds k'.sys.caps k'.heap live objs ∧ (∀ kept, Frame kept k k') ∧ SamePages k.heap k'.heap := by
  cases files with
  | none =>
      simp only [Option.elim_none, ne_eq, not_true_eq_false, if_false] at run
      cases run
      exact ⟨holds, fun kept => Frame.refl kept k, SamePages.refl k.heap⟩
  | some f =>
      have issued : (some f).elim capNull (·.cap) ≠ capNull := holds.token_ne_null List.mem_cons_self
      rw [if_pos issued] at run
      exact fsFilesDestroy_spec holds run

theorem releaseVspace_spec {vspace : Option Named}
    (holds : Holds k.sys.caps k.heap ((vspace.elim [] fun v => [⟨v.cap, v.obj, capRMap ||| capRCtl⟩]) ++ live)
      ((vspace.elim [] fun v => v.obj :: (k.vspaces v.obj).regions.map (·.self)) ++ objs))
    (self : ∀ v, vspace = some v → (k.vspaces v.obj).self = v.obj)
    (run : (if vspace.elim capNull (·.cap) ≠ capNull then
      k.withMm (mmVspaceDestroy k.mm (vspace.elim capNull (·.cap))) else k) = k') :
    Holds k'.sys.caps k'.heap live objs ∧ (∀ kept, Frame kept k k') ∧
      ∀ base, Beside base k.heap → (∀ v, vspace = some v → Loader.Apart base k.heap (k.vspaces v.obj)) →
        Beside base k'.heap := by
  cases vspace with
  | none =>
      simp only [Option.elim_none, ne_eq, not_true_eq_false, if_false] at run
      subst run
      exact ⟨holds, fun kept => Frame.refl kept k, fun _ beside _ => beside⟩
  | some v =>
      have issued : (some v).elim capNull (·.cap) ≠ capNull := holds.token_ne_null List.mem_cons_self
      rw [if_pos issued] at run
      subst run
      obtain ⟨held, frame, freed⟩ := mmVspaceDestroy_spec holds (self v rfl)
      refine ⟨held, frame, fun base _ apart => ?_⟩
      change Beside base (k.withMm (mmVspaceDestroy k.mm v.cap)).heap
      rw [freed]
      exact Loader.vspaceFree_beside (apart v rfl)

theorem releaseSelf_spec {p : Named}
    (holds : Holds k.sys.caps k.heap (⟨p.cap, p.obj, capRCtl ||| capRRead⟩ :: live) (p.obj :: objs))
    (run : (if p.cap ≠ capNull then k.withCaps (capFree k.sys.caps p.cap) else k).kfree p.obj = k') :
    Holds k'.sys.caps k'.heap live objs ∧ (∀ kept, Frame kept k k') ∧ SamePages k.heap k'.heap := by
  have issued : p.cap ≠ capNull := holds.token_ne_null List.mem_cons_self
  rw [if_pos issued] at run
  subst run
  exact ⟨holds.revoke.kfree, fun kept => Frame.of_eq rfl rfl rfl rfl rfl, ⟨rfl, rfl, rfl⟩⟩

theorem processFree_eq (k : Kernel) (p : Obj) :
    processFree k p =
      ((if (k.processes p).files ≠ capNull then fsFilesDestroy k (k.processes p).files else .ok k) >>= fun k₁ =>
        let k₂ := if (k.processes p).vspace ≠ capNull then
          k₁.withMm (mmVspaceDestroy k₁.mm (k.processes p).vspace) else k₁
        .ok ((if (k.processes p).self ≠ capNull then k₂.withCaps (capFree k₂.sys.caps (k.processes p).self)
          else k₂).kfree p)) := by
  unfold processFree
  dsimp only
  split <;> rfl

/-- **`process_free` gives back the whole estate**, and nothing else. -/
theorem processFree_spec {e : Estate} (built : Built k e live objs) (run : processFree k e.process.obj = .ok k') :
    Holds k'.sys.caps k'.heap live objs ∧ (∀ kept, Frame kept k k') ∧
      ∀ base, e.Housed base k → Beside base k'.heap := by
  obtain ⟨holds, self, hasVspace, hasFiles, vspaceSelf⟩ := built
  simp only [Estate.live, Estate.objects, List.append_assoc] at holds
  rw [processFree_eq, self, hasVspace, hasFiles] at run
  obtain ⟨k₁, freed, rest⟩ := bind_eq_ok.1 run
  obtain ⟨holds₁, frame₁, pages₁⟩ := releaseFiles_spec holds freed
  have vspaces : ∀ v, e.vspace = some v → k₁.vspaces v.obj = k.vspaces v.obj := fun v _ =>
    (frame₁ [v.obj]).vspaces v.obj List.mem_cons_self
  have regions : (e.vspace.elim [] fun v => v.obj :: (k.vspaces v.obj).regions.map (·.self)) =
      e.vspace.elim [] fun v => v.obj :: (k₁.vspaces v.obj).regions.map (·.self) := by
    cases found : e.vspace with
    | none => rfl
    | some v => rw [Option.elim, Option.elim, vspaces v found]
  rw [regions] at holds₁
  have vspaceSelf₁ : ∀ v, e.vspace = some v → (k₁.vspaces v.obj).self = v.obj := fun v found => by
    rw [vspaces v found]
    exact vspaceSelf v found
  obtain ⟨holds₂, frame₂, pages₂⟩ := releaseVspace_spec holds₁ vspaceSelf₁ rfl
  obtain ⟨holds₃, frame₃, pages₃⟩ := releaseSelf_spec holds₂ rfl
  cases rest
  refine ⟨holds₃, fun kept => ((frame₁ kept).trans (frame₂ kept)).trans (frame₃ kept), fun base housed => ?_⟩
  have housed₁ := housed.same pages₁ vspaces
  have beside₂ := pages₂ base housed₁.beside housed₁.vspace
  exact beside₂.trans (pages₃.beside beside₂.supply)

/-! ## Building -/

theorem processAlloc_spec {result : Option Obj} (holds : Holds k.sys.caps k.heap live objs)
    (run : processAlloc k = (k', result)) :
    Frame objs k k' ∧ SamePages k.heap k'.heap ∧ (result = none → Holds k'.sys.caps k'.heap live objs) ∧
      ∀ p, result = some p → ∃ self, Built k' ⟨⟨self, p⟩, none, none⟩ live objs := by
  unfold processAlloc at run
  split at run
  · rename_i h failed
    cases run
    rw [kmalloc_none failed]
    exact ⟨Frame.refl objs k, SamePages.refl k.heap, fun _ => holds, nofun⟩
  · rename_i h p made
    have taken := (holds.kmalloc made).1
    have pages := kmalloc_samePages made
    have absent : p ∉ objs := (List.nodup_cons.1 taken.apart).1
    dsimp only at run
    obtain ⟨failed, full⟩ | ⟨issued, named⟩ := taken.alloc p (capRCtl ||| capRRead)
    · rw [if_pos failed] at run
      cases run
      exact ⟨Frame.of_eq rfl rfl rfl rfl rfl, pages.trans (kfree_samePages h p), fun _ => full.kfree, nofun⟩
    · rw [if_neg issued] at run
      cases run
      refine ⟨⟨fun o member => ?_, fun _ _ => rfl, fun _ _ => rfl, rfl, rfl⟩, pages, nofun, fun q same => ?_⟩
      · exact Function.update_of_ne (ne_of_mem_of_not_mem member absent) _ _
      · cases same
        refine ⟨_, named, ?_, ?_, ?_, nofun⟩
        · simp [Kernel.withCaps]
        · simp [Kernel.withCaps]
        · simp [Kernel.withCaps]

theorem mmVspaceCreate_spec {m : MmState} {cap : UInt64} (holds : Holds k.sys.caps k.heap live objs)
    (run : mmVspaceCreate k.mm = (m, cap)) :
    Frame objs k (k.withMm m) ∧ (k.heap.LowSupply → Beside k.heap m.heap) ∧
      (cap = capNull → Holds m.caps m.heap live objs) ∧
      (cap ≠ capNull → ∃ vs, Holds m.caps m.heap (⟨cap, vs, capRMap ||| capRCtl⟩ :: live) (vs :: objs) ∧
        ((m.vspaces vs).self = vs ∧ (m.vspaces vs).regions = []) ∧
        (k.heap.LowSupply → Loader.Apart k.heap m.heap (m.vspaces vs))) := by
  unfold mmVspaceCreate at run
  have outcome := vspaceAlloc_outcome k.heap
  split at run
  · rename_i h failed
    change vspaceAlloc k.heap = (h, none) at failed
    rw [failed] at outcome
    cases run
    refine ⟨Frame.of_eq rfl rfl rfl rfl rfl, fun supply => (Loader.vspaceAlloc_apart supply failed).1, fun _ => ?_,
      fun issued => absurd rfl issued⟩
    cases outcome with
    | noObject => exact holds
    | noPgd obj rest hasObject =>
        have taken : Holds k.sys.caps { k.heap with objectSupply := rest, objects := insert obj k.heap.objects } live
            ([obj] ++ objs) := holds.take hasObject fun o => by simp
        exact taken.kfree
  · rename_i h vs made
    change vspaceAlloc k.heap = (h, some vs) at made
    rw [made] at outcome
    cases outcome with
    | made obj rest page pages hasObject hasPage =>
        have taken : Holds k.sys.caps ((k.heap.took page pages obj rest).clear (Mm.AddressSpace.frame page)) live
            ([obj] ++ objs) := holds.take hasObject fun o => by simp [Heap.took, Heap.clear]
        have absent : obj ∉ objs := (List.nodup_cons.1 taken.apart).1
        dsimp only at run
        cases run
        refine ⟨⟨fun _ _ => rfl, fun o member => ?_, fun _ _ => rfl, rfl, rfl⟩,
          fun supply => (Loader.vspaceAlloc_apart supply made).1, fun failed => ?_, fun issued => ?_⟩
        · exact Function.update_of_ne (ne_of_mem_of_not_mem member absent) _ _
        · obtain ⟨-, full⟩ | ⟨issued, -⟩ := taken.alloc obj (capRMap ||| capRCtl)
          · exact full.sublist (List.sublist_cons_self _ _)
          · exact absurd failed issued
        · obtain ⟨failed, -⟩ | ⟨-, named⟩ := taken.alloc obj (capRMap ||| capRCtl)
          · exact absurd failed issued
          · refine ⟨obj, named, ⟨?_, ?_⟩, fun supply => ?_⟩
            · simp only [Function.update_self]
            · simp only [Function.update_self]
            · simp only [Function.update_self]
              exact (Loader.vspaceAlloc_apart supply made).2 _ rfl

theorem fsFilesCreate_spec {cap : UInt64} (holds : Holds k.sys.caps k.heap live objs)
    (run : fsFilesCreate k = .ok (k', cap)) :
    Frame objs k k' ∧ SamePages k.heap k'.heap ∧ (cap = capNull → Holds k'.sys.caps k'.heap live objs) ∧
      (cap ≠ capNull → ∃ files, Holds k'.sys.caps k'.heap (⟨cap, files, capRCtl⟩ :: live)
        (files :: (k'.tables files).fsCtx :: objs)) := by
  unfold fsFilesCreate at run
  split at run
  · rename_i h failed
    cases run
    rw [kmalloc_none failed]
    exact ⟨Frame.refl objs k, SamePages.refl k.heap, fun _ => holds, fun issued => absurd rfl issued⟩
  · rename_i h files made
    have taken := (holds.kmalloc made).1
    have pages := kmalloc_samePages made
    split at run
    · rename_i h' failed
      cases run
      rw [kmalloc_none failed]
      exact ⟨Frame.of_eq rfl rfl rfl rfl rfl, pages.trans (kfree_samePages h files), fun _ => taken.kfree,
        fun issued => absurd rfl issued⟩
    · rename_i h' fsCtx made'
      have pages' := pages.trans (kmalloc_samePages made')
      have taken' := ((taken.kmalloc made').1).perm (List.Perm.swap _ _ _)
      have absent : files ∉ objs := fun member =>
        (List.nodup_cons.1 taken'.apart).1 (List.mem_cons_of_mem _ member)
      dsimp only at run
      obtain ⟨failed, full⟩ | ⟨issued, named⟩ := taken'.alloc files capRCtl
      · rw [if_pos failed] at run
        obtain ⟨k₁, freed, rest⟩ := bind_eq_ok.1 run
        cases rest
        obtain ⟨fs, -, rfl⟩ := map_eq_ok.1 freed
        simp only [Function.update_self]
        refine ⟨⟨fun _ _ => rfl, fun _ _ => rfl, fun o member => ?_, rfl, rfl⟩,
          pages'.trans ((kfree_samePages h' fsCtx).trans (kfree_samePages _ files)), fun _ => ?_,
          fun issued => absurd rfl issued⟩
        · exact Function.update_of_ne (ne_of_mem_of_not_mem member absent) _ _
        · exact (full.perm (List.Perm.swap _ _ _)).kfree.kfree
      · rw [if_neg issued] at run
        cases run
        refine ⟨⟨fun _ _ => rfl, fun _ _ => rfl, fun o member => ?_, rfl, rfl⟩, pages',
          fun failed => absurd failed issued, fun _ => ⟨files, ?_⟩⟩
        · exact Function.update_of_ne (ne_of_mem_of_not_mem member absent) _ _
        · simp only [Function.update_self]
          exact named

theorem mapError_eq_ok {ε ε' α : Type} {x : Except ε α} {f : ε → ε'} {a : α} (run : x.mapError f = .ok a) :
    x = .ok a := by
  cases x with
  | error e => cases run
  | ok b =>
      cases run
      rfl

variable {process vspace files : Named}

/-- The process is told of its address space. -/
theorem Built.withVspace {m : MmState} {cap : UInt64} (built : Built k ⟨process, none, none⟩ live objs)
    (run : mmVspaceCreate k.mm = (m, cap)) :
    let k' := (k.withMm m).setProcess process.obj fun proc => { proc with vspace := cap }
    Frame objs k k' ∧ (k.heap.LowSupply → Beside k.heap k'.heap) ∧
      (cap = capNull → Built k' ⟨process, none, none⟩ live objs) ∧
      (cap ≠ capNull → ∃ vs, Built k' ⟨process, some ⟨cap, vs⟩, none⟩ live objs ∧
        (k.heap.LowSupply → Estate.Housed k.heap k' ⟨process, some ⟨cap, vs⟩, none⟩)) := by
  intro k'
  obtain ⟨holds, self, noVspace, noFiles, -⟩ := built
  obtain ⟨frame, beside, failed, made⟩ := mmVspaceCreate_spec holds run
  have absent : process.obj ∉ objs := (List.nodup_cons.1 holds.apart).1
  have updated : k'.processes process.obj = { k.processes process.obj with vspace := cap } :=
    Function.update_self _ _ _
  refine ⟨(frame.mono (List.subset_cons_self _ _)).trans (Frame.setProcess absent _), beside, fun null => ?_,
    fun issued => ?_⟩
  · refine ⟨failed null, ?_, ?_, ?_, nofun⟩
    · rw [updated]; exact self
    · rw [updated]; exact null
    · rw [updated]; exact noFiles
  · obtain ⟨vs, held, ⟨vsSelf, empty⟩, apart⟩ := made issued
    refine ⟨vs, ⟨?_, ?_, ?_, ?_, ?_⟩, fun supply => ⟨beside supply, ?_⟩⟩
    · have objects : Estate.objects k' ⟨process, some ⟨cap, vs⟩, none⟩ = [vs, process.obj] := by
        have regions : (k'.vspaces vs).regions = [] := empty
        simp [Estate.objects, regions]
      rw [objects]
      exact held
    · rw [updated]; exact self
    · rw [updated]; rfl
    · rw [updated]; exact noFiles
    · rintro v ⟨⟩
      exact vsSelf
    · rintro v ⟨⟩
      exact apart supply

theorem Built.withFiles {cap : UInt64} (built : Built k ⟨process, some vspace, none⟩ live objs)
    (run : fsFilesCreate k = .ok (k', cap)) :
    let k'' := k'.setProcess process.obj fun proc => { proc with files := cap }
    Frame objs k k'' ∧ (SamePages k.heap k''.heap ∧ k''.vspaces vspace.obj = k.vspaces vspace.obj) ∧
      (cap = capNull → Built k'' ⟨process, some vspace, none⟩ live objs) ∧
      (cap ≠ capNull → ∃ files, Built k'' ⟨process, some vspace, some ⟨cap, files⟩⟩ live objs) := by
  intro k''
  obtain ⟨holds, self, hasVspace, noFiles, vspaceSelf⟩ := built
  obtain ⟨frame, pages, failed, made⟩ := fsFilesCreate_spec holds run
  have absent : process.obj ∉ objs := fun member => by
    have apart := holds.apart
    simp only [Estate.objects, Option.elim, List.nil_append, List.append_assoc] at apart
    exact (List.nodup_cons.1 (List.nodup_append.1 apart).2.1).1 member
  have same : k'.processes process.obj = k.processes process.obj := frame.processes _ (by simp [Estate.objects])
  have vspaces : k''.vspaces vspace.obj = k.vspaces vspace.obj := frame.vspaces _ (by simp [Estate.objects])
  have updated : k''.processes process.obj = { k.processes process.obj with files := cap } := by
    rw [← same]
    exact Function.update_self _ _ _
  have self' : (k''.processes process.obj).self = process.cap := by rw [updated]; exact self
  have vspace' : (k''.processes process.obj).vspace = vspace.cap := by rw [updated]; exact hasVspace
  have vspaceSelf' : ∀ v, some vspace = some v → (k''.vspaces v.obj).self = v.obj := by
    rintro v ⟨⟩
    rw [vspaces]
    exact vspaceSelf vspace rfl
  have objects : Estate.objects k'' ⟨process, some vspace, none⟩ = Estate.objects k ⟨process, some vspace, none⟩ := by
    simp only [Estate.objects, Option.elim, vspaces]
  refine ⟨(frame.mono (List.subset_append_right _ _)).trans (Frame.setProcess absent _), ⟨pages, vspaces⟩,
    fun null => ?_, fun issued => ?_⟩
  · refine ⟨?_, self', vspace', ?_, vspaceSelf'⟩
    · rw [objects]
      exact failed null
    · rw [updated]
      exact null
  · obtain ⟨files, held⟩ := made issued
    refine ⟨files, ?_, self', vspace', ?_, vspaceSelf'⟩
    · have more : Estate.objects k'' ⟨process, some vspace, some ⟨cap, files⟩⟩ =
          files :: (k'.tables files).fsCtx :: Estate.objects k ⟨process, some vspace, none⟩ := by
        rw [← objects]
        rfl
      rw [more]
      exact held
    · rw [updated]
      rfl

/-- Without a table of open files the address space is given back. -/
theorem Built.dropVspace (built : Built k ⟨process, some vspace, none⟩ live objs) :
    let k' := (k.withMm (mmVspaceDestroy k.mm vspace.cap)).setProcess process.obj fun proc =>
      { proc with vspace := capNull }
    Frame objs k k' ∧ Built k' ⟨process, none, none⟩ live objs ∧
      ∀ base, Loader.Apart base k.heap (k.vspaces vspace.obj) → Beside base k'.heap := by
  intro k'
  obtain ⟨holds, self, hasVspace, noFiles, vspaceSelf⟩ := built
  simp only [Estate.live, Estate.objects, Option.elim, List.nil_append, List.cons_append, List.append_assoc] at holds
  obtain ⟨held, frame, freed⟩ := mmVspaceDestroy_spec holds (vspaceSelf vspace rfl)
  have absent : process.obj ∉ objs := (List.nodup_cons.1 held.apart).1
  have updated : k'.processes process.obj = { k.processes process.obj with vspace := capNull } :=
    Function.update_self _ _ _
  refine ⟨(frame objs).trans (Frame.setProcess absent _), ⟨held, ?_, ?_, ?_, nofun⟩, fun base apart => ?_⟩
  · rw [updated]; exact self
  · rw [updated]; rfl
  · rw [updated]; exact noFiles
  · change Beside base (k.withMm (mmVspaceDestroy k.mm vspace.cap)).heap
    rw [freed]
    exact Loader.vspaceFree_beside apart

theorem Built.loaded {file : Except LoadError Image} {ret : Except Errno Unit}
    (built : Built k ⟨process, some vspace, some files⟩ live objs)
    (run : procLoadElf file k vspace.cap = .ok (k', ret)) :
    Frame objs k k' ∧ Built k' ⟨process, some vspace, some files⟩ live objs ∧
      ∀ base, Estate.Housed base k ⟨process, some vspace, some files⟩ →
        Estate.Housed base k' ⟨process, some vspace, some files⟩ := by
  obtain ⟨holds, self, hasVspace, hasFiles, vspaceSelf⟩ := built
  have found : capResolve k.sys.caps vspace.cap capRMap = some vspace.obj :=
    holds.resolves (l := ⟨vspace.cap, vspace.obj, capRMap ||| capRCtl⟩) (by simp [Estate.live]) vspaceMaps
  unfold procLoadElf at run
  rw [found] at run
  obtain ⟨⟨h, v, result⟩, load, rest⟩ := bind_eq_ok.1 run
  obtain ⟨new, grown⟩ := procLoadElf_grown (mapError_eq_ok load)
  cases rest
  have apart := holds.apart
  simp only [Estate.objects, Option.elim, List.append_assoc, List.cons_append, List.nil_append, List.nodup_cons,
    List.mem_cons, List.mem_append, not_or] at apart
  have absent : vspace.obj ∉ objs := apart.2.2.1.2.2
  refine ⟨⟨fun _ _ => rfl, fun o member => ?_, fun _ _ => rfl, rfl, rfl⟩, ⟨?_, self, hasVspace, hasFiles, ?_⟩,
    fun base housed => ?_⟩
  · exact Function.update_of_ne (ne_of_mem_of_not_mem member absent) _ _
  · refine (holds.take grown.supply grown.objects).perm ?_
    simp only [Estate.objects, Option.elim, Function.update_self, grown.regions]
    refine List.perm_iff_count.2 fun o => ?_
    simp only [List.count_append, List.count_cons, List.count_nil]
    omega
  · rintro w ⟨⟩
    simp only [Function.update_self]
    exact grown.self.trans (vspaceSelf vspace rfl)
  · have apart := Loader.procLoadElf_apart (housed.vspace vspace rfl) (mapError_eq_ok load)
    refine ⟨apart.toBeside, ?_⟩
    rintro w ⟨⟩
    simp only [Function.update_self]
    exact apart

theorem Built.opened {opens : Fin 3 → Fs.Fdtable.FileEnv} {ret : Except Errno Unit}
    (built : Built k ⟨process, some vspace, some files⟩ live objs)
    (run : fsSetupStdFds opens k files.cap = .ok (k', ret)) :
    Frame objs k k' ∧ Built k' ⟨process, some vspace, some files⟩ live objs ∧
      (SamePages k.heap k'.heap ∧ k'.vspaces vspace.obj = k.vspaces vspace.obj) := by
  obtain ⟨holds, self, hasVspace, hasFiles, vspaceSelf⟩ := built
  have found : filesFromCap k files.cap = some files.obj :=
    holds.resolves (l := ⟨files.cap, files.obj, capRCtl⟩) (by simp [Estate.live]) filesControls
  unfold fsSetupStdFds at run
  rw [found] at run
  obtain ⟨⟨fs, result⟩, _, rest⟩ := bind_eq_ok.1 run
  cases rest
  have apart := holds.apart
  simp only [Estate.objects, Option.elim, List.append_assoc, List.cons_append, List.nil_append, List.nodup_cons,
    List.mem_cons, List.mem_append, not_or] at apart
  have absent : files.obj ∉ objs := apart.1.2.2.2.2
  refine ⟨⟨fun _ _ => rfl, fun _ _ => rfl, fun o member => ?_, rfl, rfl⟩,
    ⟨?_, self, hasVspace, hasFiles, vspaceSelf⟩, ⟨rfl, rfl, rfl⟩, rfl⟩
  · exact Function.update_of_ne (ne_of_mem_of_not_mem member absent) _ _
  · simp only [Estate.objects, Option.elim, Function.update_self]
    exact holds

/-- **`proc_setup_process` builds an estate**, and on success the whole of it. -/
theorem procSetupProcess_spec {program : Program} {ret : Except Errno Unit}
    (built : Built k ⟨process, none, none⟩ live objs)
    (run : procSetupProcess program k process.obj = .ok (k', ret)) :
    Frame objs k k' ∧ ∃ vspace files, Built k' ⟨process, vspace, files⟩ live objs ∧
      (k.heap.LowSupply → Estate.Housed k.heap k' ⟨process, vspace, files⟩) ∧
      (ret = .ok () → vspace ≠ none ∧ files ≠ none) := by
  unfold procSetupProcess at run
  split at run
  · cases run
    exact ⟨Frame.refl objs k, none, none, built, fun supply => ⟨Beside.refl supply, nofun⟩, nofun⟩
  · rename_i file hasFile
    dsimp only at run
    obtain ⟨frame₁, beside₁, failed₁, made₁⟩ := built.withVspace (rfl : mmVspaceCreate k.mm = _)
    by_cases noVspace : (mmVspaceCreate k.mm).2 = capNull
    · rw [if_pos noVspace] at run
      cases run
      exact ⟨frame₁, none, none, failed₁ noVspace, fun supply => ⟨beside₁ supply, nofun⟩, nofun⟩
    · rw [if_neg noVspace] at run
      obtain ⟨vs, built₁, housed₁⟩ := made₁ noVspace
      obtain ⟨⟨k₂, files⟩, create, rest₂⟩ := bind_eq_ok.1 run
      obtain ⟨frame₂, ⟨pages₂, vspace₂⟩, failed₂, made₂⟩ := built₁.withFiles (mapError_eq_ok create)
      have frame := frame₁.trans frame₂
      dsimp only at rest₂
      by_cases noFiles : files = capNull
      · rw [if_pos noFiles] at rest₂
        cases rest₂
        obtain ⟨frame₃, built₃, dropped⟩ := (failed₂ noFiles).dropVspace
        refine ⟨frame.trans frame₃, none, none, built₃, fun supply => ⟨dropped _ ?_, nofun⟩, nofun⟩
        rw [vspace₂]
        exact ((housed₁ supply).vspace _ rfl).beside (pages₂.beside (housed₁ supply).beside.supply)
      · rw [if_neg noFiles] at rest₂
        obtain ⟨f, built₂⟩ := made₂ noFiles
        obtain ⟨⟨k₃, loaded⟩, load, rest₃⟩ := bind_eq_ok.1 rest₂
        obtain ⟨frame₃, built₃, housed₃⟩ := built₂.loaded load
        have housed : k.heap.LowSupply →
            Estate.Housed k.heap k₃ ⟨process, some ⟨(mmVspaceCreate k.mm).2, vs⟩, some ⟨files, f⟩⟩ := fun supply => by
          refine housed₃ _ ((housed₁ supply).step (pages₂.beside (housed₁ supply).beside.supply) ?_)
          rintro v ⟨⟩
          exact ⟨rfl, vspace₂⟩
        cases loaded with
        | error e =>
            cases rest₃
            exact ⟨frame.trans frame₃, _, _, built₃, housed, nofun⟩
        | ok _ =>
            obtain ⟨frame₄, built₄, pages₄, vspace₄⟩ := built₃.opened (mapError_eq_ok rest₃)
            refine ⟨(frame.trans frame₃).trans frame₄, _, _, built₄, fun supply => ?_, fun _ => ⟨nofun, nofun⟩⟩
            refine (housed supply).same pages₄ ?_
            rintro v ⟨⟩
            exact vspace₄

end Calls

end Minus.Proc.Processes
