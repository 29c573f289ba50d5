/-
# Driver.Device — devices and drivers find each other on a bus

`device_register` and `driver_register` (`kernel/driver/core`).  A device takes the first
driver on the bus that matches it; a driver takes every device that matches it and has no
driver yet.  Between them each pair is tried once, whichever of the two comes first, and
at the end a device has a driver exactly if one matches it (`Settled`).

The lists of the bus are lists of objects, the last registered first.  A callback may do
what it likes with the rest of the kernel (`World`), but it registers nothing on this bus
and leaves `dev->driver` to the bus.
-/
import Minus.Theory.Machine
import Mathlib.Data.List.Basic
import Mathlib.Logic.Function.Basic

namespace Minus.Driver.Device

set_option autoImplicit false
set_option linter.unusedSectionVars false

open Minus.Theory

universe u v w

variable {Dev : Type u} {Drv : Type v} {World : Type w} [DecidableEq Dev]

/-- The callbacks of a `struct bus_type`; the pointers may be NULL. -/
structure Callbacks (Dev : Type u) (Drv : Type v) (World : Type w) where
  matchFn : Option (Dev → Drv → Bool)
  probe : Option (Dev → Drv → World → World)

/-- The lists of the bus, `dev->driver` of every device, the calls of `probe` so far with
the driver that the device had at the call, and the rest of the kernel. -/
structure Bus (Dev : Type u) (Drv : Type v) (World : Type w) where
  devices : List Dev
  drivers : List Drv
  driver : Dev → Option Drv
  probes : List (Dev × Drv)
  world : World

variable (cb : Callbacks Dev Drv World)

/-- `bus->match && bus->match(dev, drv)`. -/
def Callbacks.matches (dev : Dev) (drv : Drv) : Bool := cb.matchFn.any fun f => f dev drv

/-- `dev->driver = drv; if (bus->probe) bus->probe(dev);`. -/
def Bus.bind (bus : Bus Dev Drv World) (dev : Dev) (drv : Drv) : Bus Dev Drv World :=
  let bus := { bus with driver := Function.update bus.driver dev (some drv) }
  match cb.probe with
  | some probe => { bus with probes := (dev, drv) :: bus.probes, world := probe dev drv bus.world }
  | none => bus

/-- The loop of `device_register`, which the first match ends. -/
def matchDrivers (dev : Dev) : List Drv → Bus Dev Drv World → Bus Dev Drv World
  | [], bus => bus
  | drv :: rest, bus => if cb.matches dev drv then bus.bind cb dev drv else matchDrivers dev rest bus

def deviceRegister (bus : Bus Dev Drv World) (dev : Dev) : Bus Dev Drv World :=
  matchDrivers cb dev bus.drivers { bus with devices := dev :: bus.devices }

/-- The loop of `driver_register`. -/
def matchDevices (drv : Drv) : List Dev → Bus Dev Drv World → Bus Dev Drv World
  | [], bus => bus
  | dev :: rest, bus =>
      if bus.driver dev = none ∧ cb.matches dev drv then matchDevices drv rest (bus.bind cb dev drv)
      else matchDevices drv rest bus

def driverRegister (bus : Bus Dev Drv World) (drv : Drv) : Bus Dev Drv World :=
  matchDevices cb drv bus.devices { bus with drivers := drv :: bus.drivers }

inductive Call (Dev : Type u) (Drv : Type v) where
  | device (dev : Dev)
  | driver (drv : Drv)
  deriving DecidableEq

/-- An object is registered once: its `node` is on one list. -/
def machine : Machine (Bus Dev Drv World) (Call Dev Drv) where
  enabled bus
    | .device dev => dev ∉ bus.devices
    | .driver drv => drv ∉ bus.drivers
  step bus
    | .device dev => deviceRegister cb bus dev
    | .driver drv => driverRegister cb bus drv

/-- The bus after `bus_register`. -/
def busRegister (world : World) : Bus Dev Drv World := ⟨[], [], fun _ => none, [], world⟩

/-! ## One binding -/

section Bind

variable {cb} {bus : Bus Dev Drv World} {dev : Dev} {drv : Drv}

theorem bind_driver (bus : Bus Dev Drv World) (dev : Dev) (drv : Drv) :
    (bus.bind cb dev drv).driver = Function.update bus.driver dev (some drv) := by
  unfold Bus.bind
  cases cb.probe <;> rfl

theorem bind_devices (bus : Bus Dev Drv World) (dev : Dev) (drv : Drv) :
    (bus.bind cb dev drv).devices = bus.devices := by
  unfold Bus.bind
  cases cb.probe <;> rfl

theorem bind_drivers (bus : Bus Dev Drv World) (dev : Dev) (drv : Drv) :
    (bus.bind cb dev drv).drivers = bus.drivers := by
  unfold Bus.bind
  cases cb.probe <;> rfl

theorem bind_probes (bus : Bus Dev Drv World) (dev : Dev) (drv : Drv) :
    (bus.bind cb dev drv).probes = if cb.probe.isSome then (dev, drv) :: bus.probes else bus.probes := by
  unfold Bus.bind
  cases cb.probe <;> rfl

/-- What is bound is registered and matches, and was probed once, with its driver. -/
structure Sound (cb : Callbacks Dev Drv World) (bus : Bus Dev Drv World) : Prop where
  bound : ∀ d r, bus.driver d = some r → d ∈ bus.devices ∧ r ∈ bus.drivers ∧ cb.matches d r
  once : (bus.probes.map Prod.fst).Nodup
  stored : ∀ p ∈ bus.probes, bus.driver p.1 = some p.2
  probed : cb.probe.isSome → ∀ d r, bus.driver d = some r → (d, r) ∈ bus.probes

/-- Binding a free device to a driver that matches it. -/
theorem Sound.bind (sound : Sound cb bus) (free : bus.driver dev = none) (device : dev ∈ bus.devices)
    (driver : drv ∈ bus.drivers) (fits : cb.matches dev drv) : Sound cb (bus.bind cb dev drv) := by
  have fresh : dev ∉ bus.probes.map Prod.fst := by
    intro member
    obtain ⟨p, there, rfl⟩ := List.mem_map.1 member
    rw [sound.stored p there] at free
    cases free
  refine ⟨?_, ?_, ?_, ?_⟩
  · intro d r found
    rw [bind_driver] at found
    rw [bind_devices, bind_drivers]
    by_cases same : d = dev
    · subst same
      rw [Function.update_self, Option.some_inj] at found
      exact found ▸ ⟨device, driver, fits⟩
    · rw [Function.update_of_ne same] at found
      exact sound.bound d r found
  · rw [bind_probes]
    split
    · exact List.nodup_cons.2 ⟨fresh, sound.once⟩
    · exact sound.once
  · intro p member
    have old (there : p ∈ bus.probes) : (bus.bind cb dev drv).driver p.1 = some p.2 := by
      have other : p.1 ≠ dev := fun same => fresh (same ▸ List.mem_map_of_mem there)
      rw [bind_driver, Function.update_of_ne other]
      exact sound.stored p there
    rw [bind_probes] at member
    split at member
    · rcases List.mem_cons.1 member with rfl | there
      · rw [bind_driver, Function.update_self]
      · exact old there
    · exact old member
  · intro exists_ d r found
    rw [bind_driver] at found
    rw [bind_probes, if_pos exists_]
    by_cases same : d = dev
    · subst same
      rw [Function.update_self, Option.some_inj] at found
      exact found ▸ List.mem_cons_self
    · rw [Function.update_of_ne same] at found
      exact List.mem_cons_of_mem _ (sound.probed exists_ d r found)

/-! ## The two loops -/

/-- One more object on a list of the bus. -/
theorem Sound.grow {bus' : Bus Dev Drv World} (sound : Sound cb bus) (driver : bus'.driver = bus.driver)
    (probes : bus'.probes = bus.probes) (devices : ∀ d ∈ bus.devices, d ∈ bus'.devices)
    (drivers : ∀ r ∈ bus.drivers, r ∈ bus'.drivers) : Sound cb bus' := by
  obtain ⟨bound, once, stored, probed⟩ := sound
  rw [← driver, ← probes] at *
  refine ⟨fun d r found => ?_, once, stored, probed⟩
  obtain ⟨device, known, fits⟩ := bound d r found
  exact ⟨devices d device, drivers r known, fits⟩

theorem matchDrivers_lists (cb : Callbacks Dev Drv World) (dev : Dev) (l : List Drv) (bus : Bus Dev Drv World) :
    (matchDrivers cb dev l bus).devices = bus.devices ∧ (matchDrivers cb dev l bus).drivers = bus.drivers := by
  induction l with
  | nil => exact ⟨rfl, rfl⟩
  | cons drv rest ih =>
      unfold matchDrivers
      split
      · exact ⟨bind_devices bus dev drv, bind_drivers bus dev drv⟩
      · exact ih

theorem matchDevices_lists (cb : Callbacks Dev Drv World) (drv : Drv) (l : List Dev) (bus : Bus Dev Drv World) :
    (matchDevices cb drv l bus).devices = bus.devices ∧ (matchDevices cb drv l bus).drivers = bus.drivers := by
  induction l generalizing bus with
  | nil => exact ⟨rfl, rfl⟩
  | cons dev rest ih =>
      unfold matchDevices
      split
      · rw [(ih _).1, (ih _).2, bind_devices, bind_drivers]
        exact ⟨rfl, rfl⟩
      · exact ih bus

/-- The device gets the first driver that matches, and no other device is touched. -/
theorem matchDrivers_driver (l : List Drv) (bus : Bus Dev Drv World) :
    (matchDrivers cb dev l bus).driver =
      match l.find? (cb.matches dev) with
      | some drv => Function.update bus.driver dev (some drv)
      | none => bus.driver := by
  induction l with
  | nil => rfl
  | cons drv rest ih =>
      unfold matchDrivers
      split
      · rename_i fits
        rw [List.find?_cons_of_pos fits, bind_driver]
      · rename_i apart
        rw [List.find?_cons_of_neg apart, ih]

/-- Every free device of the list that matches gets the driver. -/
theorem matchDevices_driver (l : List Dev) (bus : Bus Dev Drv World) (d : Dev) :
    (matchDevices cb drv l bus).driver d =
      if d ∈ l ∧ bus.driver d = none ∧ cb.matches d drv then some drv else bus.driver d := by
  induction l generalizing bus with
  | nil => simp [matchDevices]
  | cons dev rest ih =>
      unfold matchDevices
      by_cases same : d = dev
      · subst same
        split
        · rename_i taken
          rw [ih, bind_driver, Function.update_self, if_neg (by simp), if_pos ⟨List.mem_cons_self, taken⟩]
        · rename_i left
          rw [ih, if_neg fun h => left h.2, if_neg fun h => left h.2]
      · have inside : d ∈ dev :: rest ↔ d ∈ rest := by simp [same]
        split
        · simp only [ih, bind_driver, Function.update_of_ne same, inside]
        · simp only [ih, inside]

theorem Sound.matchDrivers {l : List Drv} (sound : Sound cb bus) (free : bus.driver dev = none)
    (device : dev ∈ bus.devices) (known : ∀ r ∈ l, r ∈ bus.drivers) :
    Sound cb (matchDrivers cb dev l bus) := by
  induction l with
  | nil => exact sound
  | cons drv rest ih =>
      unfold Device.matchDrivers
      split
      · rename_i fits
        exact sound.bind free device (known drv List.mem_cons_self) fits
      · exact ih fun r member => known r (List.mem_cons_of_mem drv member)

theorem Sound.matchDevices {l : List Dev} (sound : Sound cb bus) (driver : drv ∈ bus.drivers)
    (known : ∀ d ∈ l, d ∈ bus.devices) : Sound cb (matchDevices cb drv l bus) := by
  induction l generalizing bus with
  | nil => exact sound
  | cons dev rest ih =>
      have later : ∀ d ∈ rest, d ∈ bus.devices := fun d member => known d (List.mem_cons_of_mem dev member)
      unfold Device.matchDevices
      split
      · rename_i taken
        have bound := sound.bind taken.1 (known dev List.mem_cons_self) driver taken.2
        refine ih bound ?_ ?_
        · rw [bind_drivers]
          exact driver
        · rw [bind_devices]
          exact later
      · exact ih sound driver later

end Bind

/-! ## Runs -/

/-- A device of the bus that some driver of the bus matches has a driver. -/
structure Settled (cb : Callbacks Dev Drv World) (bus : Bus Dev Drv World) : Prop where
  sound : Sound cb bus
  complete : ∀ d ∈ bus.devices, ∀ r ∈ bus.drivers, cb.matches d r → bus.driver d ≠ none

section Runs

variable {cb} {bus : Bus Dev Drv World} {dev : Dev} {drv : Drv}

theorem Settled.deviceRegister (settled : Settled cb bus) (fresh : dev ∉ bus.devices) :
    Settled cb (deviceRegister cb bus dev) := by
  obtain ⟨sound, complete⟩ := settled
  have free : bus.driver dev = none := by
    cases held : bus.driver dev with
    | none => rfl
    | some r => exact absurd (sound.bound dev r held).1 fresh
  obtain ⟨devices, drivers⟩ := matchDrivers_lists cb dev bus.drivers
    { bus with devices := dev :: bus.devices }
  refine ⟨?_, ?_⟩
  · have grown : Sound cb { bus with devices := dev :: bus.devices } :=
      sound.grow rfl rfl (fun d member => List.mem_cons_of_mem dev member) fun _ => id
    exact grown.matchDrivers free List.mem_cons_self fun _ => id
  · intro d member r known fits
    unfold Device.deviceRegister at member known ⊢
    rw [devices] at member
    rw [drivers] at known
    rw [matchDrivers_driver]
    by_cases same : d = dev
    · subst same
      cases found : bus.drivers.find? (cb.matches d) with
      | none => exact absurd fits (List.find?_eq_none.1 found r known)
      | some first => simp [Function.update_self]
    · have old := complete d ((List.mem_cons.1 member).resolve_left same) r known fits
      cases bus.drivers.find? (cb.matches dev) with
      | none => exact old
      | some first =>
          simp only [Function.update_of_ne same]
          exact old

theorem Settled.driverRegister (settled : Settled cb bus) (drv : Drv) :
    Settled cb (driverRegister cb bus drv) := by
  obtain ⟨sound, complete⟩ := settled
  obtain ⟨devices, drivers⟩ := matchDevices_lists cb drv bus.devices
    { bus with drivers := drv :: bus.drivers }
  refine ⟨?_, ?_⟩
  · have grown : Sound cb { bus with drivers := drv :: bus.drivers } :=
      sound.grow rfl rfl (fun _ => id) fun r member => List.mem_cons_of_mem drv member
    exact grown.matchDevices List.mem_cons_self fun _ => id
  · intro d member r known fits
    unfold Device.driverRegister at member known ⊢
    rw [devices] at member
    rw [drivers] at known
    rw [matchDevices_driver]
    split
    · simp
    · rename_i left
      rcases List.mem_cons.1 known with rfl | old
      · exact fun free => left ⟨member, free, fits⟩
      · exact complete d member r old fits

theorem busRegister_settled (world : World) : Settled cb (busRegister world) where
  sound := ⟨nofun, List.nodup_nil, nofun, nofun⟩
  complete := nofun

/-- The objects on the lists are the registered ones. -/
theorem run_lists (cb : Callbacks Dev Drv World) (calls : List (Call Dev Drv)) (bus : Bus Dev Drv World) :
    (∀ d, d ∈ ((machine cb).run bus calls).devices ↔ .device d ∈ calls ∨ d ∈ bus.devices) ∧
      ∀ r, r ∈ ((machine cb).run bus calls).drivers ↔ .driver r ∈ calls ∨ r ∈ bus.drivers := by
  induction calls generalizing bus with
  | nil => simp
  | cons call rest ih =>
      rw [Machine.run_cons]
      cases call with
      | device dev =>
          have lists := matchDrivers_lists cb dev bus.drivers
            { bus with devices := dev :: bus.devices }
          have devices : ((machine cb).step bus (.device dev)).devices = dev :: bus.devices := lists.1
          have drivers : ((machine cb).step bus (.device dev)).drivers = bus.drivers := lists.2
          simp only [ih, devices, drivers, List.mem_cons, Call.device.injEq, reduceCtorEq, false_or]
          exact ⟨fun d => by rw [or_left_comm, or_assoc], fun _ => trivial⟩
      | driver drv =>
          have lists := matchDevices_lists cb drv bus.devices
            { bus with drivers := drv :: bus.drivers }
          have devices : ((machine cb).step bus (.driver drv)).devices = bus.devices := lists.1
          have drivers : ((machine cb).step bus (.driver drv)).drivers = drv :: bus.drivers := lists.2
          simp only [ih, devices, drivers, List.mem_cons, Call.driver.injEq, reduceCtorEq, false_or]
          exact ⟨fun _ => trivial, fun r => by rw [or_left_comm, or_assoc]⟩

/-- Calls that register each object once. -/
theorem admits_of_nodup {calls : List (Call Dev Drv)} (once : calls.Nodup) (bus : Bus Dev Drv World)
    (devices : ∀ d, .device d ∈ calls → d ∉ bus.devices) (drivers : ∀ r, .driver r ∈ calls → r ∉ bus.drivers) :
    (machine cb).Admits bus calls := by
  induction calls generalizing bus with
  | nil => trivial
  | cons call rest ih =>
      obtain ⟨fresh, once⟩ := List.nodup_cons.1 once
      have lists := run_lists cb [call] bus
      rw [Machine.run_cons, Machine.run_nil] at lists
      refine ⟨?_, ih once _ ?_ ?_⟩
      · cases call with
        | device dev => exact devices dev List.mem_cons_self
        | driver drv => exact drivers drv List.mem_cons_self
      · intro d later there
        rcases (lists.1 d).1 there with now | old
        · rw [List.mem_singleton.1 now] at later
          exact fresh later
        · exact devices d (List.mem_cons_of_mem call later) old
      · intro r later there
        rcases (lists.2 r).1 there with now | old
        · rw [List.mem_singleton.1 now] at later
          exact fresh later
        · exact drivers r (List.mem_cons_of_mem call later) old

theorem run_settled (cb : Callbacks Dev Drv World) {calls : List (Call Dev Drv)} (once : calls.Nodup) (world : World) :
    Settled cb ((machine cb).run (busRegister world) calls) := by
  refine (machine cb).run_invariant (I := Settled cb) ?_ (busRegister_settled world)
    (admits_of_nodup once _ (fun _ _ => List.not_mem_nil) fun _ _ => List.not_mem_nil)
  intro bus call settled enabled
  cases call with
  | device dev => exact settled.deviceRegister enabled
  | driver drv => exact settled.driverRegister drv

/-- A device of a run has a driver if one matches it, and the driver is one that does. -/
theorem run_driver (cb : Callbacks Dev Drv World) {calls : List (Call Dev Drv)} (once : calls.Nodup) (world : World) {d : Dev}
    (device : .device d ∈ calls) :
    (∀ r, ((machine cb).run (busRegister world) calls).driver d = some r →
        .driver r ∈ calls ∧ cb.matches d r) ∧
      ∀ r, .driver r ∈ calls → cb.matches d r →
        ((machine cb).run (busRegister world) calls).driver d ≠ none := by
  obtain ⟨sound, complete⟩ := run_settled cb once world
  obtain ⟨devices, drivers⟩ := run_lists cb calls (busRegister world)
  have known (r : Drv) : r ∈ ((machine cb).run (busRegister world) calls).drivers ↔ .driver r ∈ calls :=
    (drivers r).trans (or_iff_left List.not_mem_nil)
  refine ⟨fun r bound => ?_, fun r registered fits => ?_⟩
  · obtain ⟨_, there, fits⟩ := sound.bound d r bound
    exact ⟨(known r).1 there, fits⟩
  · exact complete d ((devices d).2 (.inl device)) r ((known r).2 registered) fits

/-- **Binding does not depend on the order of registration.**  In every run each device is
probed at most once, by the driver it has; a registered device has a driver if and only if
a registered driver matches it; and if only one does, the device has that driver after the
same calls in any order. -/
theorem binding_order_independent (cb : Callbacks Dev Drv World) {calls : List (Call Dev Drv)} (once : calls.Nodup) (world : World) :
    let bus := (machine cb).run (busRegister world) calls
    ((bus.probes.map Prod.fst).Nodup ∧ ∀ p ∈ bus.probes, bus.driver p.1 = some p.2) ∧
      (∀ d, .device d ∈ calls →
        (bus.driver d ≠ none ↔ ∃ r, .driver r ∈ calls ∧ cb.matches d r)) ∧
      ∀ d r, .device d ∈ calls → .driver r ∈ calls → cb.matches d r →
        (∀ r', .driver r' ∈ calls → cb.matches d r' → r' = r) →
        ∀ calls' : List (Call Dev Drv), calls.Perm calls' →
          ((machine cb).run (busRegister world) calls').driver d = some r := by
  have settled := run_settled cb once world
  refine ⟨⟨settled.sound.once, settled.sound.stored⟩, fun d device => ?_, ?_⟩
  · obtain ⟨sound, complete⟩ := run_driver cb once world device
    constructor
    · intro bound
      obtain ⟨r, found⟩ := Option.ne_none_iff_exists'.1 bound
      exact ⟨r, sound r found⟩
    · rintro ⟨r, registered, fits⟩
      exact complete r registered fits
  · intro d r device registered fits only calls' perm
    obtain ⟨sound, complete⟩ :=
      run_driver cb (perm.nodup_iff.1 once) world (perm.mem_iff.1 device)
    obtain ⟨r', found⟩ := Option.ne_none_iff_exists'.1 (complete r (perm.mem_iff.1 registered) fits)
    obtain ⟨registered', fits'⟩ := sound r' found
    rw [found, only r' (perm.mem_iff.2 registered') fits']

end Runs

/-! ### A bus with two devices -/

/-- Driver `n` is for the devices with the id `n`; a probe leaves its mark in the world. -/
def idBus : Callbacks (Nat × Nat) Nat (List Nat) where
  matchFn := some fun dev drv => dev.2 == drv
  probe := some fun dev _ world => dev.1 :: world

theorem binding_order_independent_idBus :
    let calls : List (Call (Nat × Nat) Nat) :=
      [.device (0, 2), .driver 1, .driver 2, .device (1, 1), .device (2, 5)]
    let bus := (machine idBus).run (busRegister []) calls
    calls.Nodup ∧ bus.world = [1, 0] ∧ bus.driver (2, 5) = none ∧
      ((machine idBus).run (busRegister []) calls.reverse).driver (0, 2) = some 2 := by
  intro calls bus
  have once : calls.Nodup := by decide
  obtain ⟨_, _, order⟩ := binding_order_independent idBus once []
  refine ⟨once, by decide, by decide, ?_⟩
  refine order (0, 2) 2 (by decide) (by decide) (by decide) ?_ calls.reverse calls.reverse_perm.symm
  intro r _ fits
  exact (beq_iff_eq.1 (by simpa [idBus, Callbacks.matches] using fits)).symm

end Minus.Driver.Device
