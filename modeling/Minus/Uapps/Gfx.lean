/-
# Uapps.Gfx — canvases, single pixels and filled rectangles

`uapps/libgfx/gfx.c` up to `gfx_fill_rect`.  What a function does to a canvas is the
list of its writes, each at an offset from `cv->pixels`; a sum or a product of ints
that leaves the ints has no result.  The offset of a row is a product of `uint32_t`.

`gfx_fill_rect` makes the writes of `gfx_set_pixel` on the points of the rectangle,
unless the int sums of its end coordinates overflow (`gfxFillRect_pixels_iff`).
-/
import Minus.Theory.Bytes
import Minus.Theory.Raster

namespace Minus.Uapps.Gfx

set_option autoImplicit false

open Minus.Theory

/-- An int expression with the value `v`. -/
def cint (v : Int) : Option Int := if -2 ^ 31 ≤ v ∧ v < 2 ^ 31 then some v else none

@[simp] theorem cint_eq_some {v r : Int} : cint v = some r ↔ v = r ∧ -2 ^ 31 ≤ v ∧ v < 2 ^ 31 := by
  rw [cint]
  split
  next inside => exact ⟨fun same => ⟨Option.some.inj same, inside⟩, fun both => congrArg some both.1⟩
  next outside =>
    simp only [reduceCtorEq, false_iff]
    exact fun both => outside both.2

theorem cint_of_mem {v : Int} (low : -2 ^ 31 ≤ v) (high : v < 2 ^ 31) : cint v = some v := if_pos ⟨low, high⟩

theorem cint_of_notMem {v : Int} (outside : ¬ (-2 ^ 31 ≤ v ∧ v < 2 ^ 31)) : cint v = none := if_neg outside

/-- `(int)v`. -/
def asInt (v : UInt32) : Int := if v.toNat < 2 ^ 31 then v.toNat else v.toNat - 2 ^ 32

/-- `FB_FORMAT_RGB565`. -/
def fbFormatRgb565 : UInt32 := 1

/-- `struct gfx_canvas`; the pixels are a buffer of their own. -/
structure Canvas where
  width : UInt32
  height : UInt32
  stride : UInt32
  format : UInt32

inductive Pixel where
  | half (v : UInt16)
  | word (v : UInt32)
deriving DecidableEq

def Pixel.size : Pixel → Nat
  | .half _ => 2
  | .word _ => 4

/-- A store of a pixel at an offset from the first byte of the buffer. -/
structure Write where
  offset : Nat
  pixel : Pixel
deriving DecidableEq

def Write.apply (m : Bytes) (w : Write) : Bytes :=
  match w.pixel with
  | .half v => store16 m w.offset v
  | .word v => store32 m w.offset v

/-- The buffer after the writes. -/
def draw (m : Bytes) (writes : List Write) : Bytes := writes.foldl Write.apply m

def clip (v min max : Int) : Int := if v < min then min else if v > max then max else v

def bytesPerPixel (format : UInt32) : Nat := if format = fbFormatRgb565 then 2 else 4

def colorToRgb565 (color : UInt32) : UInt16 :=
  let r := (color >>> 16).toUInt8
  let g := (color >>> 8).toUInt8
  let b := color.toUInt8
  ((r &&& 0xf8).toUInt16 <<< 8) ||| ((g &&& 0xfc).toUInt16 <<< 3) ||| (b >>> 3).toUInt16

/-- The pixel that is stored for a color. -/
def Canvas.pixel (cv : Canvas) (color : UInt32) : Pixel :=
  if cv.format = fbFormatRgb565 then .half (colorToRgb565 color) else .word color

/-- `y * cv->stride`, in `uint32_t`. -/
def Canvas.rowOffset (cv : Canvas) (y : Int) : Nat := y.toNat * cv.stride.toNat % 2 ^ 32

def gfxSetPixel (cv : Canvas) (x y : Int) (color : UInt32) : Option (List Write) :=
  if x < 0 ∨ x ≥ asInt cv.width ∨ y < 0 ∨ y ≥ asInt cv.height then some []
  else do
    let column ← cint (x * bytesPerPixel cv.format)
    return [⟨cv.rowOffset y + column.toNat, cv.pixel color⟩]

/-- `for (col = x0; col < x1; col++) *p++ = c;` -/
def fillRow (c : Pixel) : Nat → Nat → List Write
  | _, 0 => []
  | p, n + 1 => ⟨p, c⟩ :: fillRow c (p + c.size) n

/-- `for (row = y0; row < y1; row++)` -/
def fillRows (cv : Canvas) (x0 : Int) (columns : Nat) (c : Pixel) : Int → Nat → Option (List Write)
  | _, 0 => some []
  | row, n + 1 => do
      let column ← cint (x0 * bytesPerPixel cv.format)
      return fillRow c (cv.rowOffset row + column.toNat) columns ++ (← fillRows cv x0 columns c (row + 1) n)

def gfxFillRect (cv : Canvas) (x y w h : Int) (color : UInt32) : Option (List Write) := do
  let x0 := clip x 0 (asInt cv.width)
  let y0 := clip y 0 (asInt cv.height)
  let x1 := clip (← cint (x + w)) 0 (asInt cv.width)
  let y1 := clip (← cint (y + h)) 0 (asInt cv.height)
  if x1 ≤ x0 ∨ y1 ≤ y0 then return []
  fillRows cv x0 (x1 - x0).toNat (cv.pixel color) y0 (y1 - y0).toNat

def gfxClear (cv : Canvas) (color : UInt32) : Option (List Write) :=
  gfxFillRect cv 0 0 (asInt cv.width) (asInt cv.height) color

/-! ## A row of pixels -/

section Pixels

variable {cv : Canvas} {color : UInt32}

theorem pixel_size (cv : Canvas) (color : UInt32) : (cv.pixel color).size = bytesPerPixel cv.format := by
  rw [Canvas.pixel, bytesPerPixel]
  split <;> rfl

/-- The write of a pixel that is inside. -/
def Canvas.write (cv : Canvas) (color : UInt32) (p : Int × Int) : Write :=
  ⟨cv.rowOffset p.2 + (p.1 * bytesPerPixel cv.format).toNat, cv.pixel color⟩

/-- `p` is a point of the canvas. -/
def Canvas.Inside (cv : Canvas) (p : Int × Int) : Prop := (0 ≤ p.1 ∧ p.1 < asInt cv.width) ∧ 0 ≤ p.2 ∧ p.2 < asInt cv.height

instance (cv : Canvas) (p : Int × Int) : Decidable (cv.Inside p) := inferInstanceAs (Decidable (_ ∧ _))

/-- `x * 2` or `x * 4` is an int. -/
def Canvas.ColumnFits (cv : Canvas) (x : Int) : Prop := x * bytesPerPixel cv.format < 2 ^ 31

theorem gfxSetPixel_outside {p : Int × Int} (outside : ¬ cv.Inside p) : gfxSetPixel cv p.1 p.2 color = some [] := by
  rw [gfxSetPixel, if_pos]
  simp only [Canvas.Inside] at outside
  omega

theorem gfxSetPixel_inside {p : Int × Int} (inside : cv.Inside p) (fits : cv.ColumnFits p.1) :
    gfxSetPixel cv p.1 p.2 color = some [cv.write color p] := by
  obtain ⟨⟨left, right⟩, top, bottom⟩ := inside
  have positive : 0 ≤ p.1 * bytesPerPixel cv.format := mul_nonneg left (Int.natCast_nonneg _)
  rw [gfxSetPixel, if_neg (by omega), cint_of_mem (by omega) fits]
  rfl

theorem gfxSetPixel_overflow {p : Int × Int} (inside : cv.Inside p) (wide : ¬ cv.ColumnFits p.1) :
    gfxSetPixel cv p.1 p.2 color = none := by
  obtain ⟨⟨left, right⟩, top, bottom⟩ := inside
  simp only [Canvas.ColumnFits] at wide
  rw [gfxSetPixel, if_neg (by omega), cint, if_neg (by omega)]
  rfl

/-- The offset of the next column. -/
theorem column_next (format : UInt32) (base : Nat) {i : Int} (left : 0 ≤ i) :
    base + (i * bytesPerPixel format).toNat + bytesPerPixel format = base + ((i + 1) * bytesPerPixel format).toNat := by
  have positive : 0 ≤ i * bytesPerPixel format := mul_nonneg left (Int.natCast_nonneg _)
  rw [add_mul, one_mul, Int.toNat_add positive (Int.natCast_nonneg _), Int.toNat_natCast, Nat.add_assoc]

/-- A row that is filled is its pixels, one after the other. -/
theorem fillRow_eq_map (x y : Int) (n : Nat) (left : 0 ≤ x) :
    fillRow (cv.pixel color) (cv.rowOffset y + (x * bytesPerPixel cv.format).toNat) n =
      (ints x n).map fun i => cv.write color (i, y) := by
  induction n generalizing x with
  | zero => rfl
  | succ n ih =>
      rw [fillRow, pixel_size, column_next _ _ left, ih (x + 1) (by omega)]
      rfl

theorem fillRows_eq_map (x0 row : Int) (columns n : Nat) (left : 0 ≤ x0) (fits : cv.ColumnFits x0) :
    fillRows cv x0 columns (cv.pixel color) row n = some ((gridPoints x0 row columns n).map (cv.write color)) := by
  have positive : 0 ≤ x0 * bytesPerPixel cv.format := mul_nonneg left (Int.natCast_nonneg _)
  induction n generalizing row with
  | zero => rfl
  | succ n ih =>
      rw [fillRows, cint_of_mem (by omega) fits, ih]
      simp [fillRow_eq_map x0 row columns left, gridPoints, ints, Function.comp_def]

end Pixels

/-! ## The rectangle pixel by pixel -/

/-- `gfx_set_pixel` on every point of the rectangle. -/
def setPixels (cv : Canvas) (x y w h : Int) (color : UInt32) : Option (List Write) :=
  each (fun p => gfxSetPixel cv p.1 p.2 color) (gridPoints x y w.toNat h.toNat)

/-- The bytes at which the code has the pixel `p`. -/
def Canvas.pixelBytes (cv : Canvas) (p : Int × Int) : Set Nat :=
  Set.Ico (cv.rowOffset p.2 + (p.1 * bytesPerPixel cv.format).toNat)
    (cv.rowOffset p.2 + (p.1 * bytesPerPixel cv.format).toNat + bytesPerPixel cv.format)

/-- The bytes of the pixels in the rows of the canvas. -/
def Canvas.rows (cv : Canvas) : Set Nat :=
  {a | ∃ j < cv.height.toNat, ∃ k < cv.width.toNat * bytesPerPixel cv.format, a = j * cv.stride.toNat + k}

def Write.bytes (w : Write) : Set Nat := Set.Ico w.offset (w.offset + w.pixel.size)

/-- A row has room for its pixels, and the dimensions are ints. -/
structure Canvas.Valid (cv : Canvas) : Prop where
  room : cv.width.toNat * bytesPerPixel cv.format ≤ cv.stride.toNat
  width : cv.width.toNat < 2 ^ 31
  height : cv.height.toNat < 2 ^ 31

/-- The fill leaves what the pixels leave, and writes to the rows only. -/
def FillsAsPixels (cv : Canvas) (x y w h : Int) (color : UInt32) : Prop :=
  ∃ writes writes', gfxFillRect cv x y w h color = some writes ∧ setPixels cv x y w h color = some writes' ∧
    (∀ m, draw m writes = draw m writes') ∧ ∀ write ∈ writes, write.bytes ⊆ cv.rows

/-- The bytes of a pixel are among those of the row that its offset modulo 2^32 leads to. -/
def Canvas.RowFits (cv : Canvas) (p : Int × Int) : Prop :=
  ∀ k < bytesPerPixel cv.format,
    (p.2.toNat * cv.stride.toNat % 2 ^ 32 + p.1.toNat * bytesPerPixel cv.format + k) % cv.stride.toNat <
      cv.width.toNat * bytesPerPixel cv.format

/-- The sums of the end coordinates are ints, and so are the byte offsets in a row of the pixels
drawn; and these stay in a row. -/
structure RectFits (cv : Canvas) (x y w h : Int) : Prop where
  right : -2 ^ 31 ≤ x + w ∧ x + w < 2 ^ 31
  bottom : -2 ^ 31 ≤ y + h ∧ y + h < 2 ^ 31
  columns : ∀ p ∈ gridPoints x y w.toNat h.toNat, cv.Inside p → cv.ColumnFits p.1
  rows : ∀ p ∈ gridPoints x y w.toNat h.toNat, cv.Inside p → cv.RowFits p

section Fill

variable {cv : Canvas} {x y w h : Int} {color : UInt32}

/-- The points of the rectangle that are inside the canvas. -/
def Canvas.visible (cv : Canvas) (x y w h : Int) : List (Int × Int) :=
  (gridPoints x y w.toNat h.toNat).filter fun p => (0 ≤ p.1 ∧ p.1 < asInt cv.width) ∧ 0 ≤ p.2 ∧ p.2 < asInt cv.height

theorem mem_visible {p : Int × Int} : p ∈ cv.visible x y w h ↔ p ∈ gridPoints x y w.toNat h.toNat ∧ cv.Inside p := by
  rw [Canvas.visible, List.mem_filter, decide_eq_true_eq]
  rfl

theorem setPixels_some (columns : ∀ p ∈ gridPoints x y w.toNat h.toNat, cv.Inside p → cv.ColumnFits p.1) :
    setPixels cv x y w h color = some ((cv.visible x y w h).map (cv.write color)) := by
  have drawn : each (fun p => gfxSetPixel cv p.1 p.2 color) (cv.visible x y w h) =
      some ((cv.visible x y w h).flatMap fun p => [cv.write color p]) := by
    apply each_of_some
    intro p member
    obtain ⟨point, inside⟩ := mem_visible.1 member
    exact gfxSetPixel_inside inside (columns p point inside)
  rw [setPixels, List.map_eq_flatMap, ← drawn, Canvas.visible, each_filter]
  intro p _ outside
  apply gfxSetPixel_outside
  simpa [Canvas.Inside] using outside

theorem asInt_of_small {v : UInt32} (small : v.toNat < 2 ^ 31) : asInt v = v.toNat := if_pos small

/-- The clipped coordinates of one axis, where something of it is left. -/
theorem clip_span {x w size : Int} (positive : 0 ≤ size) (full : ¬ clip (x + w) 0 size ≤ clip x 0 size) :
    clip x 0 size = max x 0 ∧ (clip (x + w) 0 size - max x 0).toNat = (min (x + w.toNat) size - max x 0).toNat ∧
      0 ≤ max x 0 ∧ max x 0 < size ∧ max x 0 < x + w.toNat := by
  simp only [clip] at full ⊢
  have start : (if x < 0 then 0 else if x > size then size else x) = max x 0 := by omega
  rw [start] at full ⊢
  generalize stop : (if x + w < 0 then 0 else if x + w > size then size else x + w) = x1 at full ⊢
  have clipped : x1 = min (x + w) size := by omega
  subst clipped
  omega

theorem clip_empty {x w size : Int} (positive : 0 ≤ size) (empty : clip (x + w) 0 size ≤ clip x 0 size) :
    (min (x + w.toNat) size - max x 0).toNat = 0 := by
  simp only [clip] at empty
  omega

/-- The fill makes the writes of the visible pixels, row by row. -/
theorem gfxFillRect_some (valid : cv.Valid) (right : -2 ^ 31 ≤ x + w ∧ x + w < 2 ^ 31)
    (bottom : -2 ^ 31 ≤ y + h ∧ y + h < 2 ^ 31)
    (columns : ∀ p ∈ gridPoints x y w.toNat h.toNat, cv.Inside p → cv.ColumnFits p.1) :
    gfxFillRect cv x y w h color = some ((cv.visible x y w h).map (cv.write color)) := by
  have width := asInt_of_small valid.width
  have height := asInt_of_small valid.height
  have visible := filter_gridPoints x y 0 (asInt cv.width) 0 (asInt cv.height) w.toNat h.toNat
  simp only [gfxFillRect, cint_of_mem right.1 right.2, cint_of_mem bottom.1 bottom.2, Option.bind_eq_bind, Option.bind_some]
  split
  next empty =>
    have none : cv.visible x y w h = [] := by
      rw [Canvas.visible, visible]
      apply gridPoints_eq_nil
      exact empty.imp (clip_empty (by omega)) (clip_empty (by omega))
    rw [none]
    rfl
  next full =>
    rw [not_or] at full
    obtain ⟨left, across, inLeft, inRight, inPoint⟩ := clip_span (by omega) full.1
    obtain ⟨top, down, inTop, inBottom, inPoint'⟩ := clip_span (by omega) full.2
    have point : (max x 0, max y 0) ∈ gridPoints x y w.toNat h.toNat :=
      mem_gridPoints.2 ⟨⟨le_max_left x 0, inPoint⟩, le_max_left y 0, inPoint'⟩
    rw [left, top, across, down, Canvas.visible, visible]
    apply fillRows_eq_map _ _ _ _ inLeft
    exact columns _ point ⟨⟨inLeft, inRight⟩, inTop, inBottom⟩

theorem pixelBytes_eq (p : Int × Int) : (cv.write color p).bytes = cv.pixelBytes p := by
  rw [Write.bytes, Canvas.pixelBytes, Canvas.write, pixel_size]

theorem bytesPerPixel_pos (format : UInt32) : 0 < bytesPerPixel format := by
  rw [bytesPerPixel]
  split <;> decide

theorem column_toNat (format : UInt32) {i : Int} (left : 0 ≤ i) :
    (i * bytesPerPixel format).toNat = i.toNat * bytesPerPixel format := by
  rw [Int.toNat_mul left (Int.natCast_nonneg _), Int.toNat_natCast]

/-- A pixel inside ends in its row. -/
theorem Canvas.Inside.inRow {p : Int × Int} (valid : cv.Valid) (inside : cv.Inside p) :
    p.1.toNat * bytesPerPixel cv.format + bytesPerPixel cv.format ≤ cv.width.toNat * bytesPerPixel cv.format := by
  have width := asInt_of_small valid.width
  have next : p.1.toNat + 1 ≤ cv.width.toNat := by
    have := inside.1
    omega
  have scaled := Nat.mul_le_mul_right (bytesPerPixel cv.format) next
  rwa [Nat.add_mul, Nat.one_mul] at scaled

theorem Canvas.mem_rows_iff (valid : cv.Valid) (some_ : 0 < cv.stride.toNat) {a : Nat} : a ∈ cv.rows ↔
    a / cv.stride.toNat < cv.height.toNat ∧ a % cv.stride.toNat < cv.width.toNat * bytesPerPixel cv.format := by
  constructor
  · rintro ⟨j, below, k, within, rfl⟩
    have short : k < cv.stride.toNat := Nat.lt_of_lt_of_le within valid.room
    rw [Nat.mul_add_mod', Nat.mod_eq_of_lt short, Nat.add_comm, Nat.add_mul_div_right _ _ some_, Nat.div_eq_of_lt short, Nat.zero_add]
    exact ⟨below, within⟩
  · rintro ⟨below, within⟩
    exact ⟨_, below, _, within, (Nat.div_add_mod' a cv.stride.toNat).symm⟩

/-- Where the code finds a pixel of the canvas is in its rows exactly if the row fits. -/
theorem pixelBytes_inRows_iff {p : Int × Int} (valid : cv.Valid) (inside : cv.Inside p) :
    cv.pixelBytes p ⊆ cv.rows ↔ cv.RowFits p := by
  have row := inside.inRow valid
  have height := asInt_of_small valid.height
  have room := valid.room
  have wide := bytesPerPixel_pos cv.format
  have some_ : 0 < cv.stride.toNat := by omega
  have above : (p.2.toNat + 1) * cv.stride.toNat ≤ cv.height.toNat * cv.stride.toNat := by
    apply Nat.mul_le_mul_right
    have := inside.2
    omega
  rw [Nat.add_mul, Nat.one_mul] at above
  have start := Nat.mod_le (p.2.toNat * cv.stride.toNat) (2 ^ 32)
  unfold Canvas.pixelBytes Canvas.RowFits Canvas.rowOffset
  rw [column_toNat _ inside.1.1]
  constructor
  · intro within k small
    exact ((Canvas.mem_rows_iff valid some_).1 (within ⟨Nat.le_add_right _ k, by omega⟩)).2
  · rintro fits a ⟨first, last⟩
    obtain ⟨k, rfl⟩ := Nat.exists_eq_add_of_le first
    refine (Canvas.mem_rows_iff valid some_).2 ⟨(Nat.div_lt_iff_lt_mul some_).2 ?_, fits k (by omega)⟩
    omega

/-- The fill is the pixels of the rectangle exactly if its sums do not overflow and the pixels drawn are
where the rows are. -/
theorem gfxFillRect_pixels_iff (cv : Canvas) (valid : cv.Valid) (x y w h : Int) (color : UInt32) :
    FillsAsPixels cv x y w h color ↔ RectFits cv x y w h := by
  constructor
  · rintro ⟨writes, writes', filled, drawn, -, inRows⟩
    have right : -2 ^ 31 ≤ x + w ∧ x + w < 2 ^ 31 := by
      by_contra wide
      simp only [gfxFillRect, cint_of_notMem wide, Option.bind_eq_bind, Option.bind_none, reduceCtorEq] at filled
    have bottom : -2 ^ 31 ≤ y + h ∧ y + h < 2 ^ 31 := by
      by_contra tall
      simp only [gfxFillRect, cint_of_mem right.1 right.2, cint_of_notMem tall, Option.bind_eq_bind, Option.bind_some,
        Option.bind_none, reduceCtorEq] at filled
    have columns : ∀ p ∈ gridPoints x y w.toNat h.toNat, cv.Inside p → cv.ColumnFits p.1 := by
      intro p point inside
      by_contra wide
      obtain ⟨_, set, -⟩ := defined_of_each drawn point
      rw [gfxSetPixel_overflow inside wide] at set
      cases set
    refine ⟨right, bottom, columns, fun p point inside => ?_⟩
    rw [gfxFillRect_some valid right bottom columns] at filled
    obtain rfl := Option.some.inj filled
    have written := inRows (cv.write color p) (List.mem_map_of_mem (mem_visible.2 ⟨point, inside⟩))
    rw [pixelBytes_eq] at written
    exact (pixelBytes_inRows_iff valid inside).1 written
  · intro fits
    refine ⟨_, _, gfxFillRect_some valid fits.right fits.bottom fits.columns, setPixels_some fits.columns,
      fun _ => rfl, fun write member => ?_⟩
    obtain ⟨p, visible, rfl⟩ := List.mem_map.1 member
    obtain ⟨point, inside⟩ := mem_visible.1 visible
    rw [pixelBytes_eq]
    exact (pixelBytes_inRows_iff valid inside).2 (fits.rows p point inside)

/-- On a canvas of at most 4 GiB, with rows of at most 2 GiB, only the sums matter. -/
theorem rectFits_of_sums (valid : cv.Valid) (row : cv.width.toNat * bytesPerPixel cv.format ≤ 2 ^ 31)
    (size : cv.height.toNat * cv.stride.toNat ≤ 2 ^ 32) (right : -2 ^ 31 ≤ x + w ∧ x + w < 2 ^ 31)
    (bottom : -2 ^ 31 ≤ y + h ∧ y + h < 2 ^ 31) : RectFits cv x y w h := by
  have height := asInt_of_small valid.height
  have room := valid.room
  have wide := bytesPerPixel_pos cv.format
  refine ⟨right, bottom, fun p _ inside => ?_, fun p _ inside k small => ?_⟩
  · have fits := inside.inRow valid
    have column := column_toNat cv.format inside.1.1
    rw [Canvas.ColumnFits]
    omega
  · have fits := inside.inRow valid
    have above : (p.2.toNat + 1) * cv.stride.toNat ≤ cv.height.toNat * cv.stride.toNat := by
      apply Nat.mul_le_mul_right
      have := inside.2
      omega
    rw [Nat.add_mul, Nat.one_mul] at above
    rw [Nat.mod_eq_of_lt (by omega : p.2.toNat * cv.stride.toNat < 2 ^ 32), Nat.add_assoc, Nat.mul_add_mod',
      Nat.mod_eq_of_lt (by omega)]
    omega

end Fill

/-- A fill from column 1 on that is as wide as an int: the right edge overflows. -/
theorem gfxFillRect_overflows :
    Canvas.Valid ⟨2, 1, 8, 0⟩ ∧ ¬ FillsAsPixels ⟨2, 1, 8, 0⟩ 1 0 (2 ^ 31 - 1) 1 0 := by
  refine ⟨⟨by decide, by decide, by decide⟩, ?_⟩
  rintro ⟨writes, -, filled, -⟩
  simp [gfxFillRect, cint] at filled

theorem gfxFillRect_pixels_square : FillsAsPixels ⟨2, 2, 8, 0⟩ (-1) 0 2 2 0xff :=
  (gfxFillRect_pixels_iff ⟨2, 2, 8, 0⟩ ⟨by decide, by decide, by decide⟩ (-1) 0 2 2 0xff).2
    (rectFits_of_sums ⟨by decide, by decide, by decide⟩ (by decide) (by decide) (by decide) (by decide))

end Minus.Uapps.Gfx
