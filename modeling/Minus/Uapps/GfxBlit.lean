/-
# Uapps.GfxBlit — copying a canvas to another

`gfx_blit` and the surfaces of `uapps/libgfx`.  The pixels of the source are in a
buffer of their own.  The clipping is the same on both axes (`clipAxis`), and what it
leaves are the source pixels that come to lie inside the destination, so a blit makes
the writes of `gfx_set_pixel` on these, of the pixels where it reads them.  It reads
pixels of the destination's size, and the row offsets of the source modulo 2^32: it is
the copy of the colors exactly when the formats agree and no row wraps, besides the
int arithmetic (`gfxBlit_pixels_iff`).
-/
import Mathlib.Tactic.IntervalCases
import Minus.Uapps.Gfx

namespace Minus.Uapps.Gfx

set_option autoImplicit false

open Minus.Theory

/-- One pixel copied: the offset in the source at which it is read, and the write. -/
structure Copy where
  source : Nat
  write : Write
deriving DecidableEq

/-- `*s`, by the format that the loop is for. -/
def loadPixel (format : UInt32) (m : Bytes) (a : Nat) : Pixel :=
  if format = fbFormatRgb565 then .half (load16 m a) else .word (load32 m a)

/-- One axis of the clipping: the origins in the source and in the destination, and how many. -/
def clipAxis (x size limit : Int) : Option (Int × Int × Int) := do
  let src ← (if x < 0 then cint (-x) else some 0)
  let dst := if x < 0 then 0 else x
  let n ← (if x < 0 then cint (size + x) else some size)
  let n ← (if (← cint (dst + n)) > limit then cint (limit - dst) else some n)
  return (src, dst, n)

/-- `for (int col = 0; col < w; col++) *d++ = *s++;` -/
def copyRow (format : UInt32) (m : Bytes) : Nat → Nat → Nat → List Copy
  | _, _, 0 => []
  | s, d, n + 1 => ⟨s, d, loadPixel format m s⟩ :: copyRow format m (s + bytesPerPixel format) (d + bytesPerPixel format) n

/-- `for (int row = 0; row < h; row++)` -/
def copyRows (dst src : Canvas) (m : Bytes) (srcX srcY dstX dstY : Int) (w : Nat) : Int → Nat → Option (List Copy)
  | _, 0 => some []
  | row, n + 1 => do
      let s ← cint (srcX * bytesPerPixel dst.format)
      let d ← cint (dstX * bytesPerPixel dst.format)
      let copied := copyRow dst.format m (src.rowOffset (← cint (srcY + row)) + s.toNat)
        (dst.rowOffset (← cint (dstY + row)) + d.toNat) w
      return copied ++ (← copyRows dst src m srcX srcY dstX dstY w (row + 1) n)

/-- `gfx_blit`, from a source with the pixels `m`. -/
def gfxBlit (dst : Canvas) (x y : Int) (src : Canvas) (m : Bytes) : Option (List Copy) := do
  let (srcX, dstX, w) ← clipAxis x (asInt src.width) (asInt dst.width)
  let (srcY, dstY, h) ← clipAxis y (asInt src.height) (asInt dst.height)
  if w ≤ 0 ∨ h ≤ 0 then return []
  copyRows dst src m srcX srcY dstX dstY w.toNat 0 h.toNat

/-- `gfx_surface_init`; `GFX_FORMAT_XRGB8888` is 0. -/
def gfxSurfaceInit (width height : UInt32) : Canvas := ⟨width, height, width * 4, 0⟩

def gfxSurfaceBlit (dst : Canvas) (x y : Int) (surf : Canvas) (m : Bytes) : Option (List Copy) := gfxBlit dst x y surf m

/-! ## The copy pixel by pixel -/

/-- The offset of the pixel `p`, not wrapped. -/
def Canvas.pixelAt (cv : Canvas) (p : Int × Int) : Nat :=
  p.2.toNat * cv.stride.toNat + (p.1 * bytesPerPixel cv.format).toNat

/-- The color of a pixel of a canvas; `expand` gives the color of an RGB565 pixel. -/
def Canvas.color (cv : Canvas) (expand : UInt16 → UInt32) (m : Bytes) (p : Int × Int) : UInt32 :=
  if cv.format = fbFormatRgb565 then expand (load16 m (cv.pixelAt p)) else load32 m (cv.pixelAt p)

/-- `gfx_set_pixel` with the color of every pixel of the source. -/
def setColors (dst : Canvas) (x y : Int) (src : Canvas) (expand : UInt16 → UInt32) (m : Bytes) : Option (List Write) :=
  each (fun p => gfxSetPixel dst (x + p.1) (y + p.2) (src.color expand m p))
    (gridPoints 0 0 src.width.toNat src.height.toNat)

/-- Whatever the pixels, the blit leaves what setting the colors leaves, and reads from the rows of the source only. -/
def BlitsAsPixels (dst : Canvas) (x y : Int) (src : Canvas) (expand : UInt16 → UInt32) : Prop :=
  ∀ m, ∃ copies writes, gfxBlit dst x y src m = some copies ∧ setColors dst x y src expand m = some writes ∧
    (∀ d, draw d (copies.map Copy.write) = draw d writes) ∧
    ∀ c ∈ copies, Set.Ico c.source (c.source + c.write.pixel.size) ⊆ src.rows

/-- The sums of one axis are ints. -/
def AxisFits (x size limit : Int) : Prop :=
  (x < 0 → -2 ^ 31 ≤ size + x) ∧ (0 ≤ x → x + size < 2 ^ 31) ∧ (limit < x + size → -2 ^ 31 ≤ limit - max 0 x)

/-- The pixel `p` of the source is copied as it should be. -/
structure PixelFits (dst : Canvas) (x : Int) (src : Canvas) (p : Int × Int) : Prop where
  width : src.width.toNat < 2 ^ 31
  height : src.height.toNat < 2 ^ 31
  format : src.format = fbFormatRgb565 ↔ dst.format = fbFormatRgb565
  column : dst.ColumnFits (x + p.1)
  origin : max 0 (-x) * bytesPerPixel dst.format < 2 ^ 31
  row : p.2.toNat * src.stride.toNat < 2 ^ 32

/-- The sums of the clipping are ints, and every pixel that comes to lie inside the destination fits. -/
structure BlitFits (dst : Canvas) (x y : Int) (src : Canvas) : Prop where
  across : AxisFits x (asInt src.width) (asInt dst.width)
  down : AxisFits y (asInt src.height) (asInt dst.height)
  pixels : ∀ p ∈ gridPoints 0 0 src.width.toNat src.height.toNat, dst.Inside (x + p.1, y + p.2) → PixelFits dst x src p

/-! ## The clipping -/

theorem asInt_bounds (v : UInt32) : -2 ^ 31 ≤ asInt v ∧ asInt v < 2 ^ 31 := by
  have := v.toNat_lt
  rw [asInt]
  split <;> omega

/-- The start of an axis: the sums up to the far edge. -/
theorem clipAxis_eq (x size limit : Int) (small : -2 ^ 30 < x ∧ x < 2 ^ 30) (size_ : -2 ^ 31 ≤ size ∧ size < 2 ^ 31) :
    clipAxis x size limit =
      if (x < 0 → -2 ^ 31 ≤ size + x) ∧ (0 ≤ x → x + size < 2 ^ 31) then
        (if x + size > limit then cint (limit - max 0 x) else some (min 0 x + size)).map
          fun n => (max 0 (-x), max 0 x, n)
      else none := by
  have finish (r : Option Int) (a b : Int) : (r.bind fun n => some (a, b, n)) = r.map fun n => (a, b, n) := by
    cases r <;> rfl
  by_cases left : x < 0
  · have start : max 0 (-x) = -x ∧ max 0 x = 0 ∧ min 0 x + size = size + x := by omega
    simp only [clipAxis, if_pos left, start]
    rw [cint_of_mem (by omega) (by omega)]
    by_cases low : -2 ^ 31 ≤ size + x
    · rw [cint_of_mem low (by omega), if_pos ⟨fun _ => low, fun not => by omega⟩, Int.add_comm x size]
      simp only [Option.bind_eq_bind, Option.bind_some, Int.zero_add]
      rw [cint_of_mem low (by omega), Option.bind_some]
      exact finish _ _ _
    · rw [cint_of_notMem (v := size + x) fun both => low both.1, if_neg fun both => low (both.1 left)]
      rfl
  · have start : max 0 (-x) = 0 ∧ max 0 x = x ∧ min 0 x + size = size := by omega
    simp only [clipAxis, if_neg left, start, Option.bind_eq_bind, Option.bind_some]
    by_cases high : x + size < 2 ^ 31
    · rw [cint_of_mem (by omega) high, if_pos ⟨fun not => absurd not left, fun _ => high⟩]
      simp only [Option.bind_some]
      exact finish _ _ _
    · rw [cint_of_notMem fun both => high both.2, if_neg fun both => high (both.2 (by omega))]
      rfl

theorem asInt_le (v : UInt32) : asInt v ≤ v.toNat := by
  rw [asInt]
  split <;> omega

theorem clipAxis_some {x size limit : Int} (small : -2 ^ 30 < x ∧ x < 2 ^ 30) (size_ : -2 ^ 31 ≤ size ∧ size < 2 ^ 31)
    (fits : AxisFits x size limit) :
    clipAxis x size limit = some (max 0 (-x), max 0 x, min size (limit - x) - max 0 (-x)) := by
  obtain ⟨low, high, edge⟩ := fits
  rw [clipAxis_eq x size limit small size_, if_pos ⟨low, high⟩]
  split
  next beyond =>
    rw [cint_of_mem (edge beyond) (by omega), show limit - max 0 x = min size (limit - x) - max 0 (-x) by omega]
    rfl
  next not =>
    rw [show min 0 x + size = min size (limit - x) - max 0 (-x) by omega]
    rfl

theorem axisFits_of_clipAxis {x size limit : Int} (small : -2 ^ 30 < x ∧ x < 2 ^ 30)
    (size_ : -2 ^ 31 ≤ size ∧ size < 2 ^ 31) {r : Int × Int × Int} (clipped : clipAxis x size limit = some r) :
    AxisFits x size limit := by
  rw [clipAxis_eq x size limit small size_] at clipped
  split at clipped
  next start =>
    refine ⟨start.1, start.2, fun beyond => ?_⟩
    rw [if_pos beyond] at clipped
    by_contra low
    rw [cint_of_notMem fun both => low both.1] at clipped
    cases clipped
  next => cases clipped

/-! ## The copy -/

section Blit

variable {dst src : Canvas} {x y : Int}

/-- What the blit does for the pixel `p` of the source. -/
def blitCopy (dst src : Canvas) (x y : Int) (m : Bytes) (p : Int × Int) : Copy :=
  ⟨src.rowOffset p.2 + (p.1 * bytesPerPixel dst.format).toNat,
    dst.rowOffset (y + p.2) + ((x + p.1) * bytesPerPixel dst.format).toNat,
    loadPixel dst.format m (src.rowOffset p.2 + (p.1 * bytesPerPixel dst.format).toNat)⟩

theorem copyRow_eq_map (m : Bytes) (i j : Int) (n : Nat) (left : 0 ≤ i) (left' : 0 ≤ x + i) :
    copyRow dst.format m (src.rowOffset j + (i * bytesPerPixel dst.format).toNat)
        (dst.rowOffset (y + j) + ((x + i) * bytesPerPixel dst.format).toNat) n =
      (ints i n).map fun i => blitCopy dst src x y m (i, j) := by
  induction n generalizing i with
  | zero => rfl
  | succ n ih =>
      rw [copyRow, column_next _ _ left, column_next _ _ left', add_assoc x i 1, ih (i + 1) (by omega) (by omega)]
      rfl

theorem copyRows_eq_map (m : Bytes) {srcX srcY row : Int} (w n : Nat) (left : 0 ≤ srcX) (left' : 0 ≤ x + srcX)
    (origin : srcX * bytesPerPixel dst.format < 2 ^ 31) (origin' : dst.ColumnFits (x + srcX))
    (top : 0 ≤ srcY + row ∧ srcY + row + n ≤ 2 ^ 31) (top' : 0 ≤ y + srcY + row ∧ y + srcY + row + n ≤ 2 ^ 31) :
    copyRows dst src m srcX srcY (x + srcX) (y + srcY) w row n =
      some ((gridPoints srcX (srcY + row) w n).map (blitCopy dst src x y m)) := by
  have positive : 0 ≤ srcX * bytesPerPixel dst.format := mul_nonneg left (Int.natCast_nonneg _)
  have positive' : 0 ≤ (x + srcX) * bytesPerPixel dst.format := mul_nonneg left' (Int.natCast_nonneg _)
  simp only [Canvas.ColumnFits] at origin'
  induction n generalizing row with
  | zero => rfl
  | succ n ih =>
      rw [copyRows, cint_of_mem (by omega) origin, cint_of_mem (by omega) origin', cint_of_mem (by omega) (by omega),
        cint_of_mem (by omega) (by omega), ih (by omega) (by omega)]
      simp only [Option.bind_eq_bind, Option.bind_some, ← add_assoc]
      rw [add_assoc y srcY row, copyRow_eq_map m srcX (srcY + row) w left left']
      simp [gridPoints, ints, Function.comp_def]

/-- The pixels of the source that come to lie inside the destination. -/
def arriving (dst src : Canvas) (x y : Int) : List (Int × Int) :=
  (gridPoints 0 0 src.width.toNat src.height.toNat).filter fun p => dst.Inside (x + p.1, y + p.2)

theorem mem_arriving {p : Int × Int} :
    p ∈ arriving dst src x y ↔ p ∈ gridPoints 0 0 src.width.toNat src.height.toNat ∧ dst.Inside (x + p.1, y + p.2) := by
  rw [arriving, List.mem_filter, decide_eq_true_eq]

/-- The clipping leaves exactly these. -/
theorem arriving_eq : arriving dst src x y = gridPoints (max 0 (-x)) (max 0 (-y))
    (min (src.width.toNat : Int) (asInt dst.width - x) - max 0 (-x)).toNat
    (min (src.height.toNat : Int) (asInt dst.height - y) - max 0 (-y)).toNat := by
  have clipped := filter_gridPoints 0 0 (-x) (asInt dst.width - x) (-y) (asInt dst.height - y)
    src.width.toNat src.height.toNat
  rw [Int.zero_add, Int.zero_add] at clipped
  rw [← clipped, arriving]
  apply List.filter_congr
  intro p _
  rw [decide_eq_decide]
  simp only [Canvas.Inside]
  omega

/-- The blit makes the copies of the pixels that arrive. -/
theorem gfxBlit_some (m : Bytes) (smallX : -2 ^ 30 < x ∧ x < 2 ^ 30) (smallY : -2 ^ 30 < y ∧ y < 2 ^ 30)
    (across : AxisFits x (asInt src.width) (asInt dst.width)) (down : AxisFits y (asInt src.height) (asInt dst.height))
    (dims : arriving dst src x y ≠ [] → src.width.toNat < 2 ^ 31 ∧ src.height.toNat < 2 ^ 31 ∧
      max 0 (-x) * bytesPerPixel dst.format < 2 ^ 31 ∧ dst.ColumnFits (max 0 x)) :
    gfxBlit dst x y src m = some ((arriving dst src x y).map (blitCopy dst src x y m)) := by
  have width := asInt_bounds src.width
  have height := asInt_bounds src.height
  have limitX := asInt_bounds dst.width
  have limitY := asInt_bounds dst.height
  simp only [gfxBlit, clipAxis_some smallX width across, clipAxis_some smallY height down,
    Option.bind_eq_bind, Option.bind_some]
  by_cases none : arriving dst src x y = []
  · rw [none, if_pos]
    · rfl
    · by_contra some_
      have first : (max 0 (-x), max 0 (-y)) ∈ arriving dst src x y := by
        have wider := asInt_le src.width
        have taller := asInt_le src.height
        rw [arriving_eq, mem_gridPoints]
        omega
      rw [none] at first
      cases first
  · obtain ⟨narrow, low, origin, column⟩ := dims none
    have counts : (min (asInt src.width) (asInt dst.width - x) - max 0 (-x)).toNat ≠ 0 ∧
        (min (asInt src.height) (asInt dst.height - y) - max 0 (-y)).toNat ≠ 0 := by
      rw [asInt_of_small narrow, asInt_of_small low]
      constructor
      · intro zero
        exact none (by rw [arriving_eq, gridPoints_eq_nil (Or.inl zero)])
      · intro zero
        exact none (by rw [arriving_eq, gridPoints_eq_nil (Or.inr zero)])
    have corner : max 0 x = x + max 0 (-x) ∧ max 0 y = y + max 0 (-y) := by omega
    rw [if_neg (by omega), corner.1, corner.2, arriving_eq, copyRows_eq_map]
    · rw [asInt_of_small narrow, asInt_of_small low, Int.add_zero]
    · omega
    · omega
    · exact origin
    · rw [← corner.1]
      exact column
    · omega
    · omega

theorem setColors_some {expand : UInt16 → UInt32} (m : Bytes)
    (columns : ∀ p ∈ arriving dst src x y, dst.ColumnFits (x + p.1)) :
    setColors dst x y src expand m =
      some ((arriving dst src x y).map fun p => dst.write (src.color expand m p) (x + p.1, y + p.2)) := by
  have drawn : each (fun p => gfxSetPixel dst (x + p.1) (y + p.2) (src.color expand m p)) (arriving dst src x y) =
      some ((arriving dst src x y).flatMap fun p => [dst.write (src.color expand m p) (x + p.1, y + p.2)]) := by
    apply each_of_some
    intro p member
    exact gfxSetPixel_inside (mem_arriving.1 member).2 (columns p member)
  rw [setColors, List.map_eq_flatMap, ← drawn, arriving, each_filter]
  intro p _ outside
  exact gfxSetPixel_outside (p := (x + p.1, y + p.2)) (by simpa using outside)

/-! ## When the copies are the colors -/

/-- `expand` gives every RGB565 pixel a color that is stored as this pixel. -/
def Expands (expand : UInt16 → UInt32) : Prop := ∀ v, colorToRgb565 (expand v) = v

theorem blitCopy_write {expand : UInt16 → UInt32} (expands : Expands expand) (m : Bytes) {p : Int × Int}
    (fits : PixelFits dst x src p) :
    (blitCopy dst src x y m p).write = dst.write (src.color expand m p) (x + p.1, y + p.2) := by
  have offset : src.rowOffset p.2 + (p.1 * bytesPerPixel dst.format).toNat = src.pixelAt p := by
    have size : bytesPerPixel dst.format = bytesPerPixel src.format := by
      simp only [bytesPerPixel, fits.format]
    rw [Canvas.rowOffset, Nat.mod_eq_of_lt fits.row, size, Canvas.pixelAt]
  rw [blitCopy, Canvas.write, offset]
  by_cases half : dst.format = fbFormatRgb565
  · rw [loadPixel, if_pos half, Canvas.pixel, if_pos half, Canvas.color, if_pos (fits.format.2 half), expands]
  · rw [loadPixel, if_neg half, Canvas.pixel, if_neg half, Canvas.color, if_neg fun is => half (fits.format.1 is)]

theorem loadPixel_size (format : UInt32) (m : Bytes) (a : Nat) : (loadPixel format m a).size = bytesPerPixel format := by
  rw [loadPixel, bytesPerPixel]
  split <;> rfl

theorem blitCopy_inRows (m : Bytes) {p : Int × Int} (fits : PixelFits dst x src p)
    (point : p ∈ gridPoints 0 0 src.width.toNat src.height.toNat) {c : Copy} (copied : blitCopy dst src x y m p = c) :
    Set.Ico c.source (c.source + c.write.pixel.size) ⊆ src.rows := by
  subst copied
  rw [mem_gridPoints] at point
  obtain ⟨⟨left, right⟩, top, low⟩ := point
  have size : bytesPerPixel dst.format = bytesPerPixel src.format := by
    simp only [bytesPerPixel, fits.format]
  have row : (p.1 + 1) * (bytesPerPixel src.format : Int) ≤ src.width.toNat * bytesPerPixel src.format :=
    mul_le_mul_of_nonneg_right (by omega) (Int.natCast_nonneg _)
  have positive : 0 ≤ p.1 * (bytesPerPixel src.format : Int) := mul_nonneg left (Int.natCast_nonneg _)
  rw [add_mul, one_mul] at row
  simp only [blitCopy, loadPixel_size, Canvas.rowOffset, Nat.mod_eq_of_lt fits.row, size]
  rintro a ⟨first, last⟩
  refine ⟨p.2.toNat, by omega, a - p.2.toNat * src.stride.toNat, ?_, ?_⟩ <;> omega

/-- What the last write leaves at its offset. -/
theorem loadPixel_draw (format : UInt32) (d m : Bytes) (writes : List Write) (o s : Nat) :
    loadPixel format (draw d (writes ++ [⟨o, loadPixel format m s⟩])) o = loadPixel format m s := by
  rw [draw, List.foldl_append]
  by_cases half : format = fbFormatRgb565 <;> simp [loadPixel, half, Write.apply]

theorem loadPixel_draw_color (cv : Canvas) (d : Bytes) (writes : List Write) (color : UInt32) (p : Int × Int) :
    loadPixel cv.format (draw d (writes ++ [cv.write color p])) (cv.write color p).offset = cv.pixel color := by
  rw [draw, List.foldl_append]
  by_cases half : cv.format = fbFormatRgb565 <;> simp [loadPixel, half, Write.apply, Canvas.write, Canvas.pixel]

/-- The far corner of the pixels that arrive, which comes last. -/
theorem arriving_last (some_ : arriving dst src x y ≠ []) :
    ∃ before q, arriving dst src x y = before ++ [q] ∧ ∀ p ∈ arriving dst src x y, p.2 ≤ q.2 := by
  rw [arriving_eq] at some_ ⊢
  generalize (min (src.width.toNat : Int) (asInt dst.width - x) - max 0 (-x)).toNat = w at some_ ⊢
  generalize (min (src.height.toNat : Int) (asInt dst.height - y) - max 0 (-y)).toNat = h at some_ ⊢
  have counts : w ≠ 0 ∧ h ≠ 0 :=
    ⟨fun zero => some_ (gridPoints_eq_nil (Or.inl zero)), fun zero => some_ (gridPoints_eq_nil (Or.inr zero))⟩
  obtain ⟨w, rfl⟩ := Nat.exists_eq_succ_of_ne_zero counts.1
  obtain ⟨h, rfl⟩ := Nat.exists_eq_succ_of_ne_zero counts.2
  obtain ⟨before, last⟩ := gridPoints_last (max 0 (-x)) (max 0 (-y)) w h
  refine ⟨before, _, last, fun p member => ?_⟩
  have := (mem_gridPoints.1 member).2.2
  simp only
  omega

/-- The near corner of the pixels that arrive. -/
theorem arriving_corner (some_ : arriving dst src x y ≠ []) : (max 0 (-x), max 0 (-y)) ∈ arriving dst src x y := by
  rw [arriving_eq] at some_ ⊢
  have across : (min (src.width.toNat : Int) (asInt dst.width - x) - max 0 (-x)).toNat ≠ 0 := fun zero =>
    some_ (gridPoints_eq_nil (Or.inl zero))
  have down : (min (src.height.toNat : Int) (asInt dst.height - y) - max 0 (-y)).toNat ≠ 0 := fun zero =>
    some_ (gridPoints_eq_nil (Or.inr zero))
  rw [mem_gridPoints]
  omega

/-- Nothing drawn is not what a pixel drawn leaves. -/
theorem draw_ne_nil (cv : Canvas) (writes : List Write) (color : UInt32) (p : Int × Int)
    (same : ∀ d, draw d [] = draw d (writes ++ [cv.write color p])) : False := by
  have here (d : Bytes) : loadPixel cv.format d (cv.write color p).offset = cv.pixel color := by
    have drawn := loadPixel_draw_color cv d writes color p
    rw [← same d] at drawn
    exact drawn
  have zero := here fun _ => 0
  rw [← here fun _ => 1] at zero
  by_cases half : cv.format = fbFormatRgb565
  · simp [loadPixel, half, load16] at zero
  · simp [loadPixel, half, load32] at zero

/-- Of what a blit that copies the colors reads at the last pixel: it is the color, for any pixels. -/
theorem last_pixel {expand : UInt16 → UInt32} {m : Bytes} {before : List (Int × Int)} {q : Int × Int}
    (same : ∀ d, draw d (((before ++ [q]).map (blitCopy dst src x y m)).map Copy.write) =
      draw d ((before ++ [q]).map fun p => dst.write (src.color expand m p) (x + p.1, y + p.2))) :
    loadPixel dst.format m (src.rowOffset q.2 + (q.1 * bytesPerPixel dst.format).toNat) =
      dst.pixel (src.color expand m q) := by
  have same := same fun _ => 0
  simp only [List.map_append, List.map_cons, List.map_nil] at same
  have copied := loadPixel_draw dst.format (fun _ => 0) m
    ((before.map (blitCopy dst src x y m)).map Copy.write) (blitCopy dst src x y m q).write.offset
    (src.rowOffset q.2 + (q.1 * bytesPerPixel dst.format).toNat)
  have drawn := loadPixel_draw_color dst (fun _ => 0)
    (before.map fun p => dst.write (src.color expand m p) (x + p.1, y + p.2)) (src.color expand m q) (x + q.1, y + q.2)
  rw [← same] at drawn
  rw [← copied]
  exact drawn

/-- Pixels of which all bytes are 1 tell the formats apart. -/
theorem format_of_reads {expand : UInt16 → UInt32} (expands : Expands expand) {q : Int × Int}
    (reads : ∀ m, loadPixel dst.format m (src.rowOffset q.2 + (q.1 * bytesPerPixel dst.format).toNat) =
      dst.pixel (src.color expand m q)) :
    src.format = fbFormatRgb565 ↔ dst.format = fbFormatRgb565 := by
  have ones := reads fun _ => 1
  have half (a : Nat) : load16 (fun _ => 1) a = 0x0101 := by
    simp only [load16]
    decide
  have word (a : Nat) : load32 (fun _ => 1) a = 0x01010101 := by
    simp only [load32]
    decide
  constructor
  · intro srcHalf
    by_contra dstWord
    rw [loadPixel, if_neg dstWord, Canvas.pixel, if_neg dstWord, Canvas.color, if_pos srcHalf, half, word,
      Pixel.word.injEq] at ones
    have back := expands 0x0101
    rw [← ones] at back
    exact absurd back (by decide)
  · intro dstHalf
    by_contra srcWord
    rw [loadPixel, if_pos dstHalf, Canvas.pixel, if_pos dstHalf, Canvas.color, if_neg srcWord, half, word,
      Pixel.half.injEq] at ones
    exact absurd ones (by decide)

/-- Pixels that are 1 from the true offset of `q` on tell it from a wrapped one. -/
theorem row_of_reads {expand : UInt16 → UInt32} (expands : Expands expand) {q : Int × Int}
    (format : src.format = fbFormatRgb565 ↔ dst.format = fbFormatRgb565)
    (reads : ∀ m, loadPixel dst.format m (src.rowOffset q.2 + (q.1 * bytesPerPixel dst.format).toNat) =
      dst.pixel (src.color expand m q)) : q.2.toNat * src.stride.toNat < 2 ^ 32 := by
  have size : bytesPerPixel dst.format = bytesPerPixel src.format := by simp only [bytesPerPixel, format]
  by_contra wrapped
  have seen := reads fun a => if src.pixelAt q ≤ a then 1 else 0
  have below : src.rowOffset q.2 + (q.1 * bytesPerPixel dst.format).toNat + 2 ^ 32 ≤ src.pixelAt q := by
    rw [Canvas.rowOffset, Canvas.pixelAt, size]
    omega
  generalize src.rowOffset q.2 + (q.1 * bytesPerPixel dst.format).toNat = low at seen below
  by_cases half : dst.format = fbFormatRgb565
  · rw [loadPixel, if_pos half, Canvas.pixel, if_pos half, Canvas.color, if_pos (format.2 half), expands,
      Pixel.half.injEq] at seen
    simp [load16, show ¬ src.pixelAt q ≤ low by omega, show ¬ src.pixelAt q ≤ low + 1 by omega] at seen
  · rw [loadPixel, if_neg half, Canvas.pixel, if_neg half, Canvas.color, if_neg fun is => half (format.1 is),
      Pixel.word.injEq] at seen
    simp [load32, show ¬ src.pixelAt q ≤ low by omega, show ¬ src.pixelAt q ≤ low + 1 by omega,
      show ¬ src.pixelAt q ≤ low + 2 by omega, show ¬ src.pixelAt q ≤ low + 3 by omega] at seen

/-- A blit with a result has ints for its sums, and for the column offset of the source if it copies. -/
theorem fits_of_gfxBlit {m : Bytes} {copies : List Copy} (smallX : -2 ^ 30 < x ∧ x < 2 ^ 30)
    (smallY : -2 ^ 30 < y ∧ y < 2 ^ 30) (result : gfxBlit dst x y src m = some copies) :
    AxisFits x (asInt src.width) (asInt dst.width) ∧ AxisFits y (asInt src.height) (asInt dst.height) ∧
      (copies ≠ [] → src.width.toNat < 2 ^ 31 ∧ src.height.toNat < 2 ^ 31 ∧
        max 0 (-x) * bytesPerPixel dst.format < 2 ^ 31) := by
  have width := asInt_bounds src.width
  have height := asInt_bounds src.height
  cases clippedX : clipAxis x (asInt src.width) (asInt dst.width) with
  | none => simp [gfxBlit, clippedX] at result
  | some spanX =>
      cases clippedY : clipAxis y (asInt src.height) (asInt dst.height) with
      | none => simp [gfxBlit, clippedX, clippedY] at result
      | some spanY =>
          have across := axisFits_of_clipAxis smallX width clippedX
          have down := axisFits_of_clipAxis smallY height clippedY
          refine ⟨across, down, fun copied => ?_⟩
          rw [gfxBlit, clipAxis_some smallX width across, clipAxis_some smallY height down] at result
          simp only [Option.bind_eq_bind, Option.bind_some] at result
          split at result
          next => exact absurd (Option.some.inj result).symm copied
          next some_ =>
            rw [not_or] at some_
            have positive : 0 < asInt src.width ∧ 0 < asInt src.height := by omega
            have bounds := src.width.toNat_lt
            have bounds' := src.height.toNat_lt
            obtain ⟨n, rows⟩ : ∃ n, (min (asInt src.height) (asInt dst.height - y) - max 0 (-y)).toNat = n + 1 :=
              Nat.exists_eq_succ_of_ne_zero (by omega)
            refine ⟨?_, ?_, ?_⟩
            · by_contra wide
              simp only [asInt, if_neg wide] at positive
              omega
            · by_contra tall
              simp only [asInt, if_neg tall] at positive
              omega
            · by_contra wide
              rw [rows, copyRows, cint_of_notMem fun both => wide both.2] at result
              cases result

/-- The blit copies the colors of the source exactly if the int arithmetic stays in the ints, and of the pixels
that arrive the formats agree and the row offsets do not wrap. -/
theorem gfxBlit_pixels_iff (dst src : Canvas) (x y : Int) (expand : UInt16 → UInt32) (expands : Expands expand)
    (smallX : -2 ^ 30 < x ∧ x < 2 ^ 30) (smallY : -2 ^ 30 < y ∧ y < 2 ^ 30) :
    BlitsAsPixels dst x y src expand ↔ BlitFits dst x y src := by
  constructor
  · intro blits
    obtain ⟨copies, writes, blitted, set, same, -⟩ := blits fun _ => 0
    obtain ⟨across, down, dims⟩ := fits_of_gfxBlit smallX smallY blitted
    have columns : ∀ p ∈ arriving dst src x y, dst.ColumnFits (x + p.1) := by
      intro p member
      by_contra wide
      obtain ⟨point, inside⟩ := mem_arriving.1 member
      obtain ⟨_, defined, -⟩ := defined_of_each set point
      rw [gfxSetPixel_overflow inside wide] at defined
      cases defined
    refine ⟨across, down, fun p point inside => ?_⟩
    have member : p ∈ arriving dst src x y := mem_arriving.2 ⟨point, inside⟩
    have some_ := List.ne_nil_of_mem member
    obtain ⟨before, q, last, maximal⟩ := arriving_last some_
    have copied : copies ≠ [] := by
      rintro rfl
      rw [setColors_some _ columns, last, List.map_append] at set
      obtain rfl := Option.some.inj set
      exact draw_ne_nil dst _ _ _ same
    obtain ⟨narrow, low, origin⟩ := dims copied
    have corner := columns _ (arriving_corner some_)
    rw [show x + max 0 (-x) = max 0 x by omega] at corner
    have reads (m : Bytes) : loadPixel dst.format m (src.rowOffset q.2 + (q.1 * bytesPerPixel dst.format).toNat) =
        dst.pixel (src.color expand m q) := by
      obtain ⟨copies, writes, blitted, set, same, -⟩ := blits m
      rw [gfxBlit_some m smallX smallY across down fun _ => ⟨narrow, low, origin, corner⟩, last] at blitted
      rw [setColors_some m columns, last] at set
      obtain rfl := Option.some.inj blitted
      obtain rfl := Option.some.inj set
      exact last_pixel same
    have format := format_of_reads expands reads
    refine ⟨narrow, low, format, columns p member, origin, ?_⟩
    apply Nat.lt_of_le_of_lt (Nat.mul_le_mul_right _ _) (row_of_reads expands format reads)
    have := maximal p member
    omega
  · intro fits m
    have pixels {p : Int × Int} (member : p ∈ arriving dst src x y) : PixelFits dst x src p :=
      fits.pixels p (mem_arriving.1 member).1 (mem_arriving.1 member).2
    refine ⟨_, _, gfxBlit_some m smallX smallY fits.across fits.down fun some_ => ?_,
      setColors_some m fun p member => (pixels member).column, fun d => ?_, fun c member => ?_⟩
    · have corner := pixels (arriving_corner some_)
      have column := corner.column
      rw [show x + max 0 (-x) = max 0 x by omega] at column
      exact ⟨corner.width, corner.height, corner.origin, column⟩
    · rw [List.map_map]
      congr 1
      exact List.map_congr_left fun p member => blitCopy_write expands m (pixels member)
    · obtain ⟨p, arrives, copied⟩ := List.mem_map.1 member
      exact blitCopy_inRows m (pixels arrives) (mem_arriving.1 arrives).1 copied

end Blit

/-- The color of an RGB565 pixel, with the low bits of each part clear. -/
def rgb565Color (v : UInt16) : UInt32 :=
  ((v >>> 11).toUInt32 <<< 19) ||| (((v >>> 5) &&& 0x3f).toUInt32 <<< 10) ||| ((v &&& 0x1f).toUInt32 <<< 3)

theorem rgb565Color_expands : Expands rgb565Color := by
  intro v
  apply UInt16.toBitVec_inj.1
  simp only [colorToRgb565, rgb565Color, UInt16.toBitVec_or, UInt16.toBitVec_shiftLeft, UInt8.toBitVec_toUInt16,
    UInt8.toBitVec_and, UInt32.toBitVec_toUInt8, UInt32.toBitVec_shiftRight, UInt32.toBitVec_or,
    UInt32.toBitVec_shiftLeft, UInt16.toBitVec_toUInt32, UInt16.toBitVec_shiftRight, UInt16.toBitVec_and,
    UInt8.toBitVec_shiftRight]
  ext i inside
  simp
  interval_cases i <;> simp

/-- A surface of one pixel on an RGB565 canvas: half of the pixel is copied as it is. -/
theorem gfxBlit_surface_to_rgb565 : ¬ BlitsAsPixels ⟨1, 1, 2, 1⟩ 0 0 (gfxSurfaceInit 1 1) rgb565Color := by
  intro blits
  obtain ⟨copies, writes, blitted, set, same, -⟩ := blits fun _ => 1
  have copied : gfxBlit ⟨1, 1, 2, 1⟩ 0 0 (gfxSurfaceInit 1 1) (fun _ => 1) = some [⟨0, 0, .half 0x0101⟩] := by decide
  have drawn : setColors ⟨1, 1, 2, 1⟩ 0 0 (gfxSurfaceInit 1 1) rgb565Color (fun _ => 1) = some [⟨0, .half 0⟩] := by
    decide
  rw [copied] at blitted
  rw [drawn] at set
  obtain rfl := Option.some.inj blitted
  obtain rfl := Option.some.inj set
  exact absurd (congrFun (same fun _ => 0) 0) (by decide)

/-- A surface of two pixels, one of them off the left edge of its canvas. -/
theorem gfxBlit_pixels_clipped : BlitsAsPixels ⟨2, 1, 8, 0⟩ (-1) 0 (gfxSurfaceInit 2 1) rgb565Color := by
  apply (gfxBlit_pixels_iff ⟨2, 1, 8, 0⟩ (gfxSurfaceInit 2 1) (-1) 0 rgb565Color rgb565Color_expands (by decide) (by decide)).2
  refine ⟨⟨by decide, by decide, by decide⟩, ⟨by decide, by decide, by decide⟩, fun p point _ => ?_⟩
  have points : gridPoints 0 0 (gfxSurfaceInit 2 1).width.toNat (gfxSurfaceInit 2 1).height.toNat = [(0, 0), (1, 0)] := by
    decide
  rw [points] at point
  obtain rfl | rfl : p = (0, 0) ∨ p = (1, 0) := by simpa using point
  · exact ⟨by decide, by decide, by decide, by unfold Canvas.ColumnFits; decide, by decide, by decide⟩
  · exact ⟨by decide, by decide, by decide, by unfold Canvas.ColumnFits; decide, by decide, by decide⟩

end Minus.Uapps.Gfx
