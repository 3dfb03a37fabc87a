import Mathlib.Data.Fin.VecNotation
import FacialLandmark.Detect.Frame
import FacialLandmark.Image.Decoder
import FacialLandmark.Library.BinaryRounding

/-!
# `resize_image`

`pyramid_up` enlarges the picture by bilinear interpolation. For images of `rgb_pixel`s the work is
done by a loop that handles four columns at a time, with four lanes of `float` for everything that
depends on the column, until the last lane comes to the last column of the source; a plain loop in
`double` does the rest of the row. Positions are not computed from the column but summed up, so the
rounding errors of a row add up as well. The four-lane loop asks where it is in the source only, never
how long the row is that it writes to.

A row that is being written has cells that hold nothing yet. A read outside the source or a store
outside the row is `none`, and so are a conversion to an integer type that has no such integer and a
four-lane loop that does not come to its end. Each operation is rounded by itself, no two are
contracted to one.
-/

namespace FacialLandmark

open BinaryFloat

def Array2d.numRows (img : Array2d) : ℕ := img.length

def Array2d.numColumns (img : Array2d) : ℕ := (img.headD []).length

def Array2d.Rectangular (img : Array2d) : Prop := ∀ row ∈ img, row.length = img.numColumns

/-- `img[row][column]` for signed indices. -/
def Array2d.at? (img : Array2d) (row column : ℤ) : Option RgbPixel :=
  if row < 0 ∨ column < 0 then none else img.get? row.toNat column.toNat

/-- The cells of a row while it is being written. -/
abbrev PixelRow := List (Option RgbPixel)

/-- `out_img[r][c] = pixel`. -/
def PixelRow.store? (row : PixelRow) (c : ℕ) (pixel : RgbPixel) : Option PixelRow :=
  if c < row.length then some (row.set c (some pixel)) else none

/-! ## Conversions -/

def double (z : ℤ) : Double := ofInt binary64 z

def single (z : ℤ) : Single := ofInt binary32 z

/-- `static_cast<long>(std::floor(x))`. -/
def floorLong? (x : Double) : Option ℤ := x.floor? (-2 ^ 31) (2 ^ 31)

/-- `simd4i(x)`, in one lane. -/
def toInt32? (x : Single) : Option ℤ := x.truncate? (-2 ^ 31) (2 ^ 31)

/-- `static_cast<unsigned char>(v)`. -/
def toUnsignedChar? (v : Double) : Option (BitVec 8) := (v.truncate? 0 256).map (BitVec.ofInt 8)

/-- `x_scale`, and `y_scale`: the step in the source for each column, or row, of the output. -/
def scaleOf (n m : ℕ) : Double := (double ((n : ℤ) - 1)).div (double (max ((m : ℤ) - 1) 1))

/-! ## Mixing four pixels -/

structure Corners where
  tl : RgbPixel
  tr : RgbPixel
  bl : RgbPixel
  br : RgbPixel

def corners? (in_img : Array2d) (top bottom left right : ℤ) : Option Corners := do
  let tl ← in_img.at? top left
  let tr ← in_img.at? top right
  let bl ← in_img.at? bottom left
  let br ← in_img.at? bottom right
  some ⟨tl, tr, bl, br⟩

/-- One channel of what is handed to `vector_to_pixel`. -/
def blend (tb_frac lr_frac : Double) (n : Corners) (channel : RgbPixel → BitVec 8) : Double :=
  let tl := double (channel n.tl).toNat
  let tr := double (channel n.tr).toNat
  let bl := double (channel n.bl).toNat
  let br := double (channel n.br).toNat
  let inv_lr_frac := (double 1).sub lr_frac
  (((double 1).sub tb_frac).mul ((inv_lr_frac.mul tl).add (lr_frac.mul tr))).add
    (tb_frac.mul ((inv_lr_frac.mul bl).add (lr_frac.mul br)))

/-- `vector_to_pixel(temp, …)`. -/
def blendPixel? (tb_frac lr_frac : Double) (n : Corners) : Option RgbPixel := do
  let red ← toUnsignedChar? (blend tb_frac lr_frac n RgbPixel.red)
  let green ← toUnsignedChar? (blend tb_frac lr_frac n RgbPixel.green)
  let blue ← toUnsignedChar? (blend tb_frac lr_frac n RgbPixel.blue)
  some ⟨red, green, blue⟩

/-- One channel of `tlf*tl + trf*tr + blf*bl + brf*br`, in one lane. -/
def laneBlend (tlf trf blf brf : Single) (n : Corners) (channel : RgbPixel → BitVec 8) : Single :=
  (((tlf.mul (single (channel n.tl).toNat)).add (trf.mul (single (channel n.tr).toNat))).add
    (blf.mul (single (channel n.bl).toNat))).add (brf.mul (single (channel n.br).toNat))

/-- The pixel a lane stores, by way of `int32`. -/
def lanePixel? (tb_frac inv_tb_frac lr_frac : Single) (n : Corners) : Option RgbPixel := do
  let inv_lr_frac := (single 1).sub lr_frac
  let tlf := inv_tb_frac.mul inv_lr_frac
  let trf := inv_tb_frac.mul lr_frac
  let blf := tb_frac.mul inv_lr_frac
  let brf := tb_frac.mul lr_frac
  let red ← toInt32? (laneBlend tlf trf blf brf n RgbPixel.red)
  let green ← toInt32? (laneBlend tlf trf blf brf n RgbPixel.green)
  let blue ← toInt32? (laneBlend tlf trf blf brf n RgbPixel.blue)
  some ⟨BitVec.ofInt 8 red, BitVec.ofInt 8 green, BitVec.ofInt 8 blue⟩

/-! ## The columns of a row -/

/-- The body of the loop over single columns, at column `c + i`. -/
def columnStep (in_img : Array2d) (top bottom : ℤ) (tb_frac x_scale : Double) (c : ℕ)
    (s : Double × PixelRow) (i : ℕ) : Option (Double × PixelRow) := do
  let x := s.1.add x_scale
  let left ← floorLong? x
  let right := min (left + 1) ((in_img.numColumns : ℤ) - 1)
  let n ← corners? in_img top bottom left right
  let pixel ← blendPixel? tb_frac (x.sub (double left)) n
  let row ← s.2.store? (c + i) pixel
  some (x, row)

/-- `x = -x_scale + c*x_scale; for (; c < out_img.nc(); ++c)`. -/
def columnLoop (in_img : Array2d) (top bottom : ℤ) (tb_frac x_scale : Double) (c : ℕ)
    (row : PixelRow) : Option PixelRow := do
  let x := x_scale.neg.add ((double c).mul x_scale)
  let s ← Raster.forRange? (row.length - c) (columnStep in_img top bottom tb_frac x_scale c) (x, row)
  some s.2

abbrev Simd4f := Fin 4 → Single

/-- What lane `k` stores, at column `c + k`. -/
def laneStep (in_img : Array2d) (top bottom : ℤ) (tb_frac inv_tb_frac : Single) (x : Simd4f) (c : ℕ)
    (row : PixelRow) (k : Fin 4) : Option PixelRow := do
  let left ← toInt32? (x k)
  let n ← corners? in_img top bottom left (left + 1)
  let pixel ← lanePixel? tb_frac inv_tb_frac ((x k).sub (single left)) n
  row.store? (c + k) pixel

/-- `for (;; c+=4)`, with the column it has come to when it breaks off. -/
def laneLoop (in_img : Array2d) (top bottom : ℤ) (tb_frac inv_tb_frac x_scale : Single) :
    ℕ → Simd4f → ℕ → PixelRow → Option (ℕ × PixelRow)
  | 0, _, _, _ => none
  | fuel + 1, x, c, row => do
    let x := fun k ↦ (x k).add x_scale
    let left ← toInt32? (x 3)
    if (in_img.numColumns : ℤ) ≤ left + 1 then some (c, row)
    else
      let row ← (List.finRange 4).foldlM (laneStep in_img top bottom tb_frac inv_tb_frac x c) row
      laneLoop in_img top bottom tb_frac inv_tb_frac x_scale fuel x (c + 4) row

/-- `simd4f _x(x, x+x_scale, x+2*x_scale, x+3*x_scale)`, with `x = -4*x_scale`. -/
def startLanes (x_scale : Double) : Simd4f :=
  let x := (double (-4)).mul x_scale
  ![x.convert binary32, (x.add x_scale).convert binary32,
    (x.add ((double 2).mul x_scale)).convert binary32,
    (x.add ((double 3).mul x_scale)).convert binary32]

/-- The columns of one row, in both loops. -/
def resizeRow (in_img : Array2d) (x_scale : Double) (top bottom : ℤ) (tb_frac : Double)
    (row : PixelRow) : Option PixelRow := do
  let (c, row) ← laneLoop in_img top bottom (tb_frac.convert binary32)
    (((double 1).sub tb_frac).convert binary32) (((double 4).mul x_scale).convert binary32)
    (row.length + 1) (startLanes x_scale) 0 row
  columnLoop in_img top bottom tb_frac x_scale c row

/-! ## The rows -/

/-- The body of the loop over the rows, with `y` and the rows written so far. -/
def rowStep (in_img : Array2d) (nc : ℕ) (x_scale y_scale : Double) (s : Double × List PixelRow)
    (_r : ℕ) : Option (Double × List PixelRow) := do
  let y := s.1.add y_scale
  let top ← floorLong? y
  let bottom := min (top + 1) ((in_img.numRows : ℤ) - 1)
  let row ← resizeRow in_img x_scale top bottom (y.sub (double top)) (List.replicate nc none)
  some (y, s.2 ++ [row])

/-- `resize_image(in_img, out_img, interpolate_bilinear())` into an image of `nr` rows and `nc`
columns. -/
def resizeImage (in_img : Array2d) (nr nc : ℕ) : Option (List PixelRow) :=
  if nr * nc = 0 ∨ in_img.numRows * in_img.numColumns = 0 then
    some (List.replicate nr (List.replicate nc none))
  else do
    let x_scale := scaleOf in_img.numColumns nc
    let y_scale := scaleOf in_img.numRows nr
    let s ← Raster.forRange? nr (rowStep in_img nc x_scale y_scale) (y_scale.neg, [])
    some s.2

def written? (rows : List PixelRow) : Option Array2d :=
  Raster.tabulate? (fun r ↦ do
    let row ← rows[r]?
    Raster.tabulate? (fun c ↦ (row[c]?).join) row.length) rows.length

/-- `rectangle::is_empty()`. -/
def Rectangle.isEmpty (r : Rectangle) : Bool := r.bottom < r.top || r.right < r.left

/-- `pyramid_up(img)`: the image that is swapped in. The corners of the rectangle are multiples of
one half, which a `double` has exactly. -/
def pyramidUp (img : Array2d) : Option Array2d :=
  if img.numRows * img.numColumns = 0 then some []
  else if (rectUp ℚ (getRect img.numColumns img.numRows)).isEmpty then some []
  else do
    let size := pyramidUpSize ℚ img.numColumns img.numRows
    let rows ← resizeImage img size.2.toNat size.1.toNat
    written? rows

/-! ## Rows that are being written -/

namespace PixelRow

variable {row : PixelRow} {c : ℕ} {pixel : RgbPixel}

theorem store?_of_lt (h : c < row.length) : row.store? c pixel = some (row.set c (some pixel)) :=
  if_pos h

/-- Each of the first `c` cells holds a pixel that belongs there. -/
structure Filled (Belongs : ℕ → RgbPixel → Prop) (nc c : ℕ) (row : PixelRow) : Prop where
  length_eq : row.length = nc
  cells : ∀ j < c, ∃ pixel, row[j]? = some (some pixel) ∧ Belongs j pixel

variable {Belongs : ℕ → RgbPixel → Prop} {nc : ℕ}

theorem filled_zero (Belongs : ℕ → RgbPixel → Prop) (nc : ℕ) :
    Filled Belongs nc 0 (List.replicate nc none) :=
  ⟨List.length_replicate, fun j hj ↦ absurd hj (Nat.not_lt_zero j)⟩

theorem Filled.store (h : Filled Belongs nc c row) (hc : c < nc) (hpixel : Belongs c pixel) :
    ∃ row', row.store? c pixel = some row' ∧ Filled Belongs nc (c + 1) row' := by
  have hlt : c < row.length := h.length_eq.symm ▸ hc
  refine ⟨row.set c (some pixel), store?_of_lt hlt, ⟨by rw [List.length_set, h.length_eq], ?_⟩⟩
  intro j hj
  rcases Nat.lt_succ_iff_lt_or_eq.mp hj with hj | rfl
  · rw [List.getElem?_set_ne (by omega)]
    exact h.cells j hj
  · exact ⟨pixel, List.getElem?_set_self hlt, hpixel⟩

end PixelRow

/-! ## The corners around a position -/

variable {in_img : Array2d} {top bottom : ℤ}

theorem exists_at? (himg : in_img.Rectangular) {row column : ℤ}
    (hrow : 0 ≤ row ∧ row < in_img.numRows) (hcolumn : 0 ≤ column ∧ column < in_img.numColumns) :
    ∃ pixel, in_img.at? row column = some pixel := by
  have hrow' : row.toNat < in_img.length := by
    rw [Array2d.numRows] at hrow
    omega
  have hcolumn' : column.toNat < in_img[row.toNat].length := by
    rw [himg _ (List.getElem_mem hrow')]
    omega
  refine ⟨in_img[row.toNat][column.toNat], ?_⟩
  rw [Array2d.at?, if_neg (by omega)]
  simp only [Array2d.get?, List.getElem?_eq_getElem hrow', Option.bind_eq_bind, Option.bind_some,
    List.getElem?_eq_getElem hcolumn']

theorem get?_of_at? {row column : ℤ} {pixel : RgbPixel} (h : in_img.at? row column = some pixel) :
    ∃ i j : ℕ, (i : ℤ) = row ∧ (j : ℤ) = column ∧ in_img.get? i j = some pixel := by
  rw [Array2d.at?] at h
  split at h
  case isTrue => exact absurd h (by simp)
  case isFalse hneg => exact ⟨row.toNat, column.toNat, by omega, by omega, h⟩

/-- The rows of the source around a row of the enlarged image. -/
structure RowsInside (in_img : Array2d) (top bottom : ℤ) : Prop where
  rectangular : in_img.Rectangular
  top_mem : 0 ≤ top ∧ top < in_img.numRows
  bottom_mem : 0 ≤ bottom ∧ bottom < in_img.numRows

theorem RowsInside.exists_corners (h : RowsInside in_img top bottom) {left right : ℤ}
    (hleft : 0 ≤ left ∧ left < in_img.numColumns) (hright : 0 ≤ right ∧ right < in_img.numColumns) :
    ∃ n, corners? in_img top bottom left right = some n := by
  obtain ⟨tl, htl⟩ := exists_at? h.rectangular h.top_mem hleft
  obtain ⟨tr, htr⟩ := exists_at? h.rectangular h.top_mem hright
  obtain ⟨bl, hbl⟩ := exists_at? h.rectangular h.bottom_mem hleft
  obtain ⟨br, hbr⟩ := exists_at? h.rectangular h.bottom_mem hright
  exact ⟨⟨tl, tr, bl, br⟩, by simp only [corners?, htl, htr, hbl, hbr, Option.bind_eq_bind,
    Option.bind_some]⟩

end FacialLandmark
