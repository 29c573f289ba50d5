/-
# Uapps.GfxLine — lines

`gfx_draw_line` and `gfx_draw_rect` of `uapps/libgfx/gfx.c`.  The loop of a line ends
only when it is exactly at the end point.  Its position and error term are those of
the rounding walk of `Theory.Raster`, with the extent of the line for `a` and `b`: so
it does come there, after as many steps as the longer side takes, and no int on the
way leaves the ints when the coordinates are at most 2^28 in size.
-/
import Minus.Uapps.Gfx

namespace Minus.Uapps.Gfx

set_option autoImplicit false

open Minus.Theory

/-- A point that the line comes to, and what is written there. -/
structure Visit where
  point : Int × Int
  writes : List Write

/-- `while (1)`; `none` also when `fuel` turns do not do. -/
def lineLoop (cv : Canvas) (color : UInt32) (dx dy sx sy x1 y1 : Int) : Nat → Int → Int → Int → Option (List Visit)
  | 0, _, _, _ => none
  | fuel + 1, x0, y0, err => do
      let writes ← gfxSetPixel cv x0 y0 color
      if x0 = x1 ∧ y0 = y1 then return [⟨(x0, y0), writes⟩]
      let e2 ← cint (2 * err)
      let err' ← (if e2 ≥ dy then cint (err + dy) else some err)
      let x0' ← (if e2 ≥ dy then cint (x0 + sx) else some x0)
      let err'' ← (if e2 ≤ dx then cint (err' + dx) else some err')
      let y0' ← (if e2 ≤ dx then cint (y0 + sy) else some y0)
      return ⟨(x0, y0), writes⟩ :: (← lineLoop cv color dx dy sx sy x1 y1 fuel x0' y0' err'')

def gfxDrawLine (cv : Canvas) (x0 y0 x1 y1 : Int) (color : UInt32) (fuel : Nat) : Option (List Visit) := do
  let dx ← cint (if x1 > x0 then x1 - x0 else x0 - x1)
  let dy ← cint (if y1 > y0 then y0 - y1 else y1 - y0)
  let sx := if x0 < x1 then 1 else -1
  let sy := if y0 < y1 then 1 else -1
  let err ← cint (dx + dy)
  lineLoop cv color dx dy sx sy x1 y1 fuel x0 y0 err

def gfxDrawRect (cv : Canvas) (x y w h : Int) (color : UInt32) (fuel : Nat) : Option (List Visit) := do
  let right ← cint ((← cint (x + w)) - 1)
  let top ← gfxDrawLine cv x y right y color fuel
  let bottom ← cint ((← cint (y + h)) - 1)
  let edge ← gfxDrawLine cv right y right bottom color fuel
  let base ← gfxDrawLine cv right bottom x bottom color fuel
  return top ++ edge ++ base ++ (← gfxDrawLine cv x bottom x y color fuel)

/-! ## The loop is the rounding walk -/

/-- A coordinate of at most 2^28 in size. -/
def CoordFits (v : Int) : Prop := -2 ^ 28 ≤ v ∧ v ≤ 2 ^ 28

theorem gfxSetPixel_coordFits (cv : Canvas) {x y : Int} (color : UInt32) (small : CoordFits x) :
    ∃ writes, gfxSetPixel cv x y color = some writes := by
  by_cases inside : cv.Inside (x, y)
  · have size : bytesPerPixel cv.format = 2 ∨ bytesPerPixel cv.format = 4 := by
      rw [bytesPerPixel]
      split <;> simp
    have fits : cv.ColumnFits x := by
      simp only [Canvas.ColumnFits, CoordFits] at small ⊢
      rcases size with size | size <;> rw [size] <;> omega
    exact ⟨_, gfxSetPixel_inside inside fits⟩
  · exact ⟨_, gfxSetPixel_outside inside⟩

/-- The way from `s` to `e`: how far, and in which direction. -/
def extent (s e : Int) : Int := (e - s).natAbs

def dir (s e : Int) : Int := if s < e then 1 else -1

theorem dir_mul_extent (s e : Int) : s + dir s e * extent s e = e := by
  rw [dir, extent]
  split <;> omega

/-- The coordinate next to `p` on the way from `s` to `e`, or `p` itself. -/
def Toward (s e p q : Int) : Prop := q = p ∨ q = p + (e - s).sign

/-- A step count leads to the end only if it is the extent. -/
theorem steps_of_end {s e i : Int} (at_ : s + dir s e * i = e) (from_ : 0 ≤ i) : i = extent s e := by
  rw [extent]
  rw [dir] at at_
  split at at_ <;> omega

theorem toward_step {s e i i' : Int} (from_ : 0 ≤ i) (upTo : i' ≤ extent s e) (step : i' = i ∨ i' = i + 1) :
    Toward s e (s + dir s e * i) (s + dir s e * i') := by
  rcases step with rfl | rfl
  · exact Or.inl rfl
  · right
    rw [extent] at upTo
    rw [dir]
    split
    next right => rw [Int.sign_eq_one_of_pos (by omega)]; omega
    next left => rw [Int.sign_eq_neg_one_of_neg (by omega)]; omega

theorem between {s e i : Int} (from_ : 0 ≤ i) (upTo : i ≤ extent s e) :
    min s e ≤ s + dir s e * i ∧ s + dir s e * i ≤ max s e := by
  rw [extent] at upTo
  rw [dir]
  split <;> omega

/-- `p` lies between the ends, and at most half a unit from the ideal line, measured along the minor side. -/
structure OnLine (x0 y0 x1 y1 : Int) (p : Int × Int) : Prop where
  column : min x0 x1 ≤ p.1 ∧ p.1 ≤ max x0 x1
  row : min y0 y1 ≤ p.2 ∧ p.2 ≤ max y0 y1
  half : 2 * ((p.2 - y0) * (x1 - x0) - (p.1 - x0) * (y1 - y0)).natAbs ≤ max (x1 - x0).natAbs (y1 - y0).natAbs

section Line

variable {x0 y0 x1 y1 : Int}

/-- The point of the line after `i` steps across and `j` up. -/
def linePoint (x0 y0 x1 y1 i j : Int) : Int × Int := (x0 + dir x0 x1 * i, y0 + dir y0 y1 * j)

theorem onLine_of_walk {i j : Int} {n : Nat} (walk : Walk (extent x0 x1) (extent y0 y1) i j n) :
    OnLine x0 y0 x1 y1 (linePoint x0 y0 x1 y1 i j) := by
  refine ⟨between walk.across.1 walk.across.2, between walk.up.1 walk.up.2, ?_⟩
  have across : x1 - x0 = dir x0 x1 * extent x0 x1 := by
    have := dir_mul_extent x0 x1
    omega
  have up : y1 - y0 = dir y0 y1 * extent y0 y1 := by
    have := dir_mul_extent y0 y1
    omega
  have unit : (dir x0 x1 * dir y0 y1).natAbs = 1 := by
    rw [dir, dir]
    split <;> split <;> rfl
  have cross : 2 * (((linePoint x0 y0 x1 y1 i j).2 - y0) * (x1 - x0) - ((linePoint x0 y0 x1 y1 i j).1 - x0) * (y1 - y0)) =
      dir x0 x1 * dir y0 y1 * offLine (extent x0 x1) (extent y0 y1) i j := by
    rw [across, up, linePoint, offLine]
    ring
  have size := congrArg Int.natAbs cross
  rw [Int.natAbs_mul, Int.natAbs_mul, unit, one_mul, show (2 : Int).natAbs = 2 from rfl] at size
  have off := walk.offLine_le
  rw [← size] at off
  simp only [extent] at off
  omega

/-! ## The loop -/

section Loop

variable (cv : Canvas) (color : UInt32)

/-- No int of a turn leaves the ints. -/
theorem lineErr_fits {a b i j : Int} {n : Nat} (walk : Walk a b i j n) (wide : a ≤ 2 ^ 29) (tall : b ≤ 2 ^ 29) :
    -(2 ^ 31 - 2 ^ 29) ≤ 2 * lineErr a b i j ∧ 2 * lineErr a b i j ≤ 2 ^ 31 - 2 ^ 29 := by
  have err := two_lineErr a b i j
  have off := walk.offLine_le
  have across := walk.across
  have up := walk.up
  omega

theorem coordFits_between {s e v : Int} (fits : CoordFits s) (fits' : CoordFits e) (inside : min s e ≤ v ∧ v ≤ max s e) :
    CoordFits v := by
  simp only [CoordFits] at *
  omega

/-- A coordinate that takes its step, or does not. -/
theorem coordinate_step {s e k k' : Int} {taken : Prop} [Decidable taken] (step : (if taken then k + 1 else k) = k')
    (fit : CoordFits s) (fit' : CoordFits e) (from_ : 0 ≤ k') (upTo : k' ≤ extent s e) :
    (if taken then cint (s + dir s e * k + dir s e) else some (s + dir s e * k)) = some (s + dir s e * k') := by
  have fits := coordFits_between fit fit' (between from_ upTo)
  subst step
  split
  next yes =>
    rw [if_pos yes, mul_add, mul_one, ← add_assoc] at fits
    simp only [CoordFits] at fits
    rw [mul_add, mul_one, ← add_assoc, cint_of_mem (by omega) (by omega)]
  next => rfl

/-- One turn that does not end the loop is one step of the walk. -/
theorem lineLoop_step (fits : CoordFits x0 ∧ CoordFits y0 ∧ CoordFits x1 ∧ CoordFits y1) {a b i j i' j' : Int} {n : Nat}
    (width : extent x0 x1 = a) (height : extent y0 y1 = b) (walk : Walk a b i j (n + 1))
    (across : (if -b ≤ 2 * lineErr a b i j then i + 1 else i) = i')
    (up : (if 2 * lineErr a b i j ≤ a then j + 1 else j) = j') :
    ∃ writes, ∀ fuel, lineLoop cv color a (-b) (dir x0 x1) (dir y0 y1) x1 y1 (fuel + 1) (linePoint x0 y0 x1 y1 i j).1
        (linePoint x0 y0 x1 y1 i j).2 (lineErr a b i j) =
      (lineLoop cv color a (-b) (dir x0 x1) (dir y0 y1) x1 y1 fuel (linePoint x0 y0 x1 y1 i' j').1
        (linePoint x0 y0 x1 y1 i' j').2 (lineErr a b i' j')).map (⟨linePoint x0 y0 x1 y1 i j, writes⟩ :: ·) := by
  obtain ⟨fitX, fitY, fitX', fitY'⟩ := fits
  have next := walk.step
  rw [across, up] at next
  have size : a ≤ 2 ^ 29 ∧ b ≤ 2 ^ 29 ∧ 0 ≤ a ∧ 0 ≤ b := by
    simp only [extent, CoordFits] at *
    omega
  have bounds := lineErr_fits walk size.1 size.2.1
  have here := walk.across
  have here' := walk.up
  have there := next.across
  have there' := next.up
  obtain ⟨writes, written⟩ := gfxSetPixel_coordFits cv (y := y0 + dir y0 y1 * j) color
    (coordFits_between fitX fitX' (between (i := i) (by omega) (by omega)))
  refine ⟨writes, fun fuel => ?_⟩
  have going : ¬ (x0 + dir x0 x1 * i = x1 ∧ y0 + dir y0 y1 * j = y1) := by
    rintro ⟨atX, atY⟩
    apply walk.not_done
    rw [← width, ← height]
    exact ⟨steps_of_end atX here.1, steps_of_end atY here'.1⟩
  have columns := coordinate_step across fitX fitX' (by omega) (by omega)
  have rows := coordinate_step up fitY fitY' (by omega) (by omega)
  have doubled : cint (2 * lineErr a b i j) = some (2 * lineErr a b i j) := cint_of_mem (by omega) (by omega)
  have errAcross : (if -b ≤ 2 * lineErr a b i j then cint (lineErr a b i j + -b) else some (lineErr a b i j)) =
      some (lineErr a b i' j) := by
    rw [← across]
    split
    · rw [lineErr_across, cint_of_mem (by omega) (by omega), Int.sub_eq_add_neg]
    · rfl
  have errUp : (if 2 * lineErr a b i j ≤ a then cint (lineErr a b i' j + a) else some (lineErr a b i' j)) =
      some (lineErr a b i' j') := by
    have before : lineErr a b i' j = lineErr a b i j ∨ lineErr a b i' j = lineErr a b i j - b := by
      rw [← across]
      split
      · exact Or.inr (lineErr_across a b i j)
      · exact Or.inl rfl
    rw [← up]
    split
    · rw [lineErr_up, cint_of_mem (by omega) (by omega)]
    · rfl
  simp only [lineLoop, linePoint, written, Option.bind_eq_bind, Option.bind_some, if_neg going, doubled, ge_iff_le,
    errAcross, columns, errUp, rows]
  cases lineLoop cv color a (-b) (dir x0 x1) (dir y0 y1) x1 y1 fuel (x0 + dir x0 x1 * i') (y0 + dir y0 y1 * j')
    (lineErr a b i' j') <;> rfl

/-- What the loop visits from `p` on, with `n` steps to go. -/
structure Traced (x0 y0 x1 y1 : Int) (p : Int × Int) (n : Nat) (visits : List Visit) : Prop where
  count : visits.length = n + 1
  first : (visits.map Visit.point).head? = some p
  last : (visits.map Visit.point).getLast? = some (x1, y1)
  steps : (visits.map Visit.point).IsChain fun p q => Toward x0 x1 p.1 q.1 ∧ Toward y0 y1 p.2 q.2
  onLine : ∀ v ∈ visits, OnLine x0 y0 x1 y1 v.point

theorem Traced.cons {p q : Int × Int} {n : Nat} {visits : List Visit} (traced : Traced x0 y0 x1 y1 q n visits)
    (writes : List Write) (on : OnLine x0 y0 x1 y1 p) (across : Toward x0 x1 p.1 q.1) (up : Toward y0 y1 p.2 q.2) :
    Traced x0 y0 x1 y1 p (n + 1) (⟨p, writes⟩ :: visits) := by
  obtain ⟨count, first, last, steps, onLine⟩ := traced
  cases visits with
  | nil => simp at count
  | cons v rest =>
      obtain rfl : v.point = q := by simpa using first
      refine ⟨by simpa using count, rfl, ?_, ?_, ?_⟩
      · rw [List.map_cons, List.map_cons, List.getLast?_cons_cons]
        exact last
      · exact .cons_cons ⟨across, up⟩ steps
      · intro w member
        rcases List.mem_cons.1 member with rfl | member
        · exact on
        · exact onLine w member

theorem lineLoop_traced (fits : CoordFits x0 ∧ CoordFits y0 ∧ CoordFits x1 ∧ CoordFits y1) {n : Nat} {i j : Int}
    (walk : Walk (extent x0 x1) (extent y0 y1) i j n) :
    ∃ visits, Traced x0 y0 x1 y1 (linePoint x0 y0 x1 y1 i j) n visits ∧
      ∀ fuel, n < fuel → lineLoop cv color (extent x0 x1) (-extent y0 y1) (dir x0 x1) (dir y0 y1) x1 y1 fuel
        (linePoint x0 y0 x1 y1 i j).1 (linePoint x0 y0 x1 y1 i j).2 (lineErr (extent x0 x1) (extent y0 y1) i j) =
          some visits := by
  have on := onLine_of_walk walk
  induction n generalizing i j with
  | zero =>
      obtain ⟨rfl, rfl⟩ := walk.done
      have there : linePoint x0 y0 x1 y1 (extent x0 x1) (extent y0 y1) = (x1, y1) := by
        rw [linePoint, dir_mul_extent, dir_mul_extent]
      obtain ⟨writes, written⟩ := gfxSetPixel_coordFits cv (y := y1) color fits.2.2.1
      rw [there] at on ⊢
      refine ⟨[⟨(x1, y1), writes⟩], ⟨rfl, rfl, rfl, .singleton _, by simpa using on⟩, fun fuel enough => ?_⟩
      obtain ⟨fuel, rfl⟩ := Nat.exists_eq_succ_of_ne_zero (Nat.ne_zero_of_lt enough)
      simp [lineLoop, written]
  | succ n ih =>
      have next := walk.step
      obtain ⟨visits, traced, loops⟩ := ih next (onLine_of_walk next)
      obtain ⟨writes, step⟩ := lineLoop_step cv color fits rfl rfl walk rfl rfl
      refine ⟨⟨linePoint x0 y0 x1 y1 i j, writes⟩ :: visits, traced.cons writes on ?_ ?_, fun fuel enough => ?_⟩
      · apply toward_step walk.across.1 next.across.2
        split
        · exact Or.inr rfl
        · exact Or.inl rfl
      · apply toward_step walk.up.1 next.up.2
        split
        · exact Or.inr rfl
        · exact Or.inl rfl
      · obtain ⟨fuel, rfl⟩ := Nat.exists_eq_succ_of_ne_zero (Nat.ne_zero_of_lt enough)
        rw [step fuel, loops fuel (by omega)]
        rfl

end Loop

end Line

theorem drawLine_traced (cv : Canvas) (x0 y0 x1 y1 : Int) (color : UInt32)
    (fits : CoordFits x0 ∧ CoordFits y0 ∧ CoordFits x1 ∧ CoordFits y1) :
    ∃ visits, Traced x0 y0 x1 y1 (x0, y0) (max (x1 - x0).natAbs (y1 - y0).natAbs) visits ∧
      ∀ fuel, max (x1 - x0).natAbs (y1 - y0).natAbs < fuel → gfxDrawLine cv x0 y0 x1 y1 color fuel = some visits := by
  have across : (if x1 > x0 then x1 - x0 else x0 - x1) = extent x0 x1 := by
    rw [extent]
    split <;> omega
  have up : (if y1 > y0 then y0 - y1 else y1 - y0) = -extent y0 y1 := by
    rw [extent]
    split <;> omega
  have start : linePoint x0 y0 x1 y1 0 0 = (x0, y0) := by simp [linePoint]
  have err : extent x0 x1 + -extent y0 y1 = lineErr (extent x0 x1) (extent y0 y1) 0 0 := by
    rw [lineErr]
    ring
  have count : (max (extent x0 x1) (extent y0 y1)).toNat = max (x1 - x0).natAbs (y1 - y0).natAbs := by
    simp only [extent]
    omega
  have size : 0 ≤ extent x0 x1 ∧ 0 ≤ extent y0 y1 ∧ extent x0 x1 ≤ 2 ^ 29 ∧ extent y0 y1 ≤ 2 ^ 29 := by
    simp only [extent, CoordFits] at *
    omega
  obtain ⟨visits, traced, loops⟩ := lineLoop_traced cv color fits (Walk.start size.1 size.2.1)
  rw [count] at traced loops
  rw [start] at traced loops
  refine ⟨visits, traced, fun fuel enough => ?_⟩
  simp only [gfxDrawLine, across, up]
  rw [cint_of_mem (by omega) (by omega), cint_of_mem (by omega) (by omega)]
  simp only [Option.bind_eq_bind, Option.bind_some]
  rw [cint_of_mem (by omega) (by omega), err]
  exact loops fuel enough

/-- A rectangle is the four lines between its corners. -/
theorem gfxDrawRect_lines (cv : Canvas) {x y w h : Int} (color : UInt32) (left : CoordFits x) (top : CoordFits y)
    (right : CoordFits (x + w - 1)) (bottom : CoordFits (y + h - 1)) :
    ∃ upper edge lower back,
      Traced x y (x + w - 1) y (x, y) (w - 1).natAbs upper ∧
      Traced (x + w - 1) y (x + w - 1) (y + h - 1) (x + w - 1, y) (h - 1).natAbs edge ∧
      Traced (x + w - 1) (y + h - 1) x (y + h - 1) (x + w - 1, y + h - 1) (w - 1).natAbs lower ∧
      Traced x (y + h - 1) x y (x, y + h - 1) (h - 1).natAbs back ∧
      ∀ fuel, max (w - 1).natAbs (h - 1).natAbs < fuel →
        gfxDrawRect cv x y w h color fuel = some (upper ++ edge ++ lower ++ back) := by
  obtain ⟨upper, traced₁, drawn₁⟩ := drawLine_traced cv x y (x + w - 1) y color ⟨left, top, right, top⟩
  obtain ⟨edge, traced₂, drawn₂⟩ :=
    drawLine_traced cv (x + w - 1) y (x + w - 1) (y + h - 1) color ⟨right, top, right, bottom⟩
  obtain ⟨lower, traced₃, drawn₃⟩ :=
    drawLine_traced cv (x + w - 1) (y + h - 1) x (y + h - 1) color ⟨right, bottom, left, bottom⟩
  obtain ⟨back, traced₄, drawn₄⟩ := drawLine_traced cv x (y + h - 1) x y color ⟨left, bottom, left, top⟩
  rw [show max (x + w - 1 - x).natAbs (y - y).natAbs = (w - 1).natAbs by omega] at traced₁ drawn₁
  rw [show max (x + w - 1 - (x + w - 1)).natAbs (y + h - 1 - y).natAbs = (h - 1).natAbs by omega] at traced₂ drawn₂
  rw [show max (x - (x + w - 1)).natAbs (y + h - 1 - (y + h - 1)).natAbs = (w - 1).natAbs by omega] at traced₃ drawn₃
  rw [show max (x - x).natAbs (y - (y + h - 1)).natAbs = (h - 1).natAbs by omega] at traced₄ drawn₄
  refine ⟨upper, edge, lower, back, traced₁, traced₂, traced₃, traced₄, fun fuel enough => ?_⟩
  simp only [CoordFits] at left top right bottom
  simp only [gfxDrawRect]
  rw [cint_of_mem (by omega) (by omega), Option.bind_eq_bind, Option.bind_some, cint_of_mem (by omega) (by omega)]
  simp only [Option.bind_eq_bind, Option.bind_some, drawn₁ fuel (by omega)]
  rw [cint_of_mem (by omega) (by omega), Option.bind_some, cint_of_mem (by omega) (by omega)]
  simp only [Option.bind_some, drawn₂ fuel (by omega), drawn₃ fuel (by omega), drawn₄ fuel (by omega)]
  rfl

/-- The line visits as many points as its longer side has, from its first end to its last, by unit steps
towards the last, next to the ideal line; it ends, and no int overflows on the way. -/
theorem gfxDrawLine_reaches (cv : Canvas) (x0 y0 x1 y1 : Int) (color : UInt32)
    (fits : CoordFits x0 ∧ CoordFits y0 ∧ CoordFits x1 ∧ CoordFits y1) :
    ∃ visits : List Visit,
      (∀ fuel, max (x1 - x0).natAbs (y1 - y0).natAbs < fuel → gfxDrawLine cv x0 y0 x1 y1 color fuel = some visits) ∧
      visits.length = max (x1 - x0).natAbs (y1 - y0).natAbs + 1 ∧
      (visits.map Visit.point).head? = some (x0, y0) ∧ (visits.map Visit.point).getLast? = some (x1, y1) ∧
      (visits.map Visit.point).IsChain (fun p q => Toward x0 x1 p.1 q.1 ∧ Toward y0 y1 p.2 q.2) ∧
      ∀ v ∈ visits, OnLine x0 y0 x1 y1 v.point := by
  obtain ⟨visits, traced, drawn⟩ := drawLine_traced cv x0 y0 x1 y1 color fits
  exact ⟨visits, drawn, traced.count, traced.first, traced.last, traced.steps, traced.onLine⟩

/-- A line that falls to the left, more steeply than it is wide. -/
theorem gfxDrawLine_reaches_steep : ∃ visits : List Visit,
    gfxDrawLine ⟨4, 8, 16, 0⟩ 2 0 (-1) 7 0xff 8 = some visits ∧ visits.length = 8 ∧
      (visits.map Visit.point).getLast? = some (-1, 7) := by
  obtain ⟨visits, drawn, count, -, last, -⟩ := gfxDrawLine_reaches ⟨4, 8, 16, 0⟩ 2 0 (-1) 7 0xff
    ⟨⟨by decide, by decide⟩, ⟨by decide, by decide⟩, ⟨by decide, by decide⟩, by decide, by decide⟩
  exact ⟨visits, drawn 8 (by decide), count, last⟩

end Minus.Uapps.Gfx
