import FacialLandmark.Detect.Resize

/-!
# What the rounding does to the colours

The plain loop and the lanes multiply in a different order and in different types, but both come
within a thousandth of the same mixture of the four corners. The weights of the mixture need not add
up to one any more. What comes out is cut off to an integer, so a channel is never above the highest
of the corners, and it may be one below the lowest of them.
-/

namespace FacialLandmark

open BinaryFloat

/-! ## How far the two types round -/

theorem le_limit_double {v : ℚ} (h : |v| ≤ 8192) : |v| ≤ binary64.limit :=
  Format.le_limit (k := 13) (by decide) (h.trans (by norm_num))

theorem le_limit_single {v : ℚ} (h : |v| ≤ 8192) : |v| ≤ binary32.limit :=
  Format.le_limit (k := 13) (by decide) (h.trans (by norm_num))

theorem abs_nearest_double_le {v : ℚ} (h : |v| ≤ 8192) : |binary64.nearest v - v| ≤ 1 / 2 ^ 41 :=
  (Format.abs_nearest_sub_le (k := -40) (by decide) (h.trans (by norm_num [binary64]))).trans
    (by norm_num)

theorem abs_nearest_single_le {v : ℚ} (h : |v| ≤ 4096) : |binary32.nearest v - v| ≤ 1 / 2 ^ 13 :=
  (Format.abs_nearest_sub_le (k := -12) (by decide) (h.trans (by norm_num [binary32]))).trans
    (by norm_num)

theorem abs_nearest_single_le_of_byte {v : ℚ} (h : |v| ≤ 1024) :
    |binary32.nearest v - v| ≤ 1 / 2 ^ 15 :=
  (Format.abs_nearest_sub_le (k := -14) (by decide) (h.trans (by norm_num [binary32]))).trans
    (by norm_num)

theorem abs_nearest_single_le_of_fraction {v : ℚ} (h : |v| ≤ 2) :
    |binary32.nearest v - v| ≤ 1 / 2 ^ 24 :=
  (Format.abs_nearest_sub_le (k := -23) (by decide) (h.trans (by norm_num [binary32]))).trans
    (by norm_num)

theorem hasValue_double {z : ℤ} (hz : z.natAbs < 2 ^ 53) : HasValue (double z) z :=
  HasValue.ofInt hasIntegers_binary64 hz

theorem hasValue_single {z : ℤ} (hz : z.natAbs < 2 ^ 24) : HasValue (single z) z :=
  HasValue.ofInt hasIntegers_binary32 hz

theorem nearest_double_mem (low high : ℤ) {v : ℚ} (hlow : |low| < 2 ^ 53) (hhigh : |high| < 2 ^ 53)
    (h : (low : ℚ) ≤ v ∧ v ≤ high) :
    (low : ℚ) ≤ binary64.nearest v ∧ binary64.nearest v ≤ high :=
  Format.nearest_mem_of_intCast hasIntegers_binary64 hlow hhigh h

theorem nearest_single_mem (low high : ℤ) {v : ℚ} (hlow : |low| < 2 ^ 24) (hhigh : |high| < 2 ^ 24)
    (h : (low : ℚ) ≤ v ∧ v ≤ high) :
    (low : ℚ) ≤ binary32.nearest v ∧ binary32.nearest v ≤ high :=
  Format.nearest_mem_of_intCast hasIntegers_binary32 hlow hhigh h

theorem nearest_double_fraction {v : ℚ} (h : 0 ≤ v ∧ v ≤ 1) :
    0 ≤ binary64.nearest v ∧ binary64.nearest v ≤ 1 := by
  exact_mod_cast nearest_double_mem 0 1 (by decide) (by decide) (by exact_mod_cast h)

theorem nearest_single_fraction {v : ℚ} (h : 0 ≤ v ∧ v ≤ 1) :
    0 ≤ binary32.nearest v ∧ binary32.nearest v ≤ 1 := by
  exact_mod_cast nearest_single_mem 0 1 (by decide) (by decide) (by exact_mod_cast h)

/-! ## The mixture -/

/-- The two weights of one direction. -/
structure Shares (inv frac : ℚ) : Prop where
  inv_mem : 0 ≤ inv ∧ inv ≤ 1
  frac_mem : 0 ≤ frac ∧ frac ≤ 1
  sum_near : |inv + frac - 1| ≤ 1 / 2 ^ 22

theorem Shares.mix {inv frac a b : ℚ} (h : Shares inv frac) (lo hi : ℚ) (hlo : 0 ≤ lo) (hhi : hi ≤ 256)
    (ha : lo ≤ a ∧ a ≤ hi) (hb : lo ≤ b ∧ b ≤ hi) :
    lo - 1 / 2 ^ 14 ≤ inv * a + frac * b ∧ inv * a + frac * b ≤ hi + 1 / 2 ^ 14 := by
  obtain ⟨⟨hinv, -⟩, ⟨hfrac, -⟩, hsum⟩ := h
  rw [abs_le] at hsum
  have hlohi : lo ≤ hi := ha.1.trans ha.2
  constructor
  · calc lo - 1 / 2 ^ 14 ≤ (inv + frac) * lo := by nlinarith
      _ ≤ inv * a + frac * b := by
        rw [add_mul]
        exact add_le_add (mul_le_mul_of_nonneg_left ha.1 hinv) (mul_le_mul_of_nonneg_left hb.1 hfrac)
  · calc inv * a + frac * b ≤ (inv + frac) * hi := by
          rw [add_mul]
          exact add_le_add (mul_le_mul_of_nonneg_left ha.2 hinv) (mul_le_mul_of_nonneg_left hb.2 hfrac)
      _ ≤ hi + 1 / 2 ^ 14 := by nlinarith

def mixture (inv_tb tb inv_lr lr : ℚ) (n : Corners) (channel : RgbPixel → BitVec 8) : ℚ :=
  inv_tb * (inv_lr * (channel n.tl).toNat + lr * (channel n.tr).toNat)
    + tb * (inv_lr * (channel n.bl).toNat + lr * (channel n.br).toNat)

/-- The channel is between two bounds in all corners. -/
def Corners.InRange (n : Corners) (channel : RgbPixel → BitVec 8) (lo hi : ℕ) : Prop :=
  ∀ p ∈ [n.tl, n.tr, n.bl, n.br], lo ≤ (channel p).toNat ∧ (channel p).toNat ≤ hi

variable {n : Corners} {channel : RgbPixel → BitVec 8} {lo hi : ℕ}

theorem Corners.InRange.cast (h : n.InRange channel lo hi) {p : RgbPixel}
    (hp : p ∈ [n.tl, n.tr, n.bl, n.br]) :
    (lo : ℚ) ≤ ((channel p).toNat : ℚ) ∧ ((channel p).toNat : ℚ) ≤ hi :=
  ⟨by exact_mod_cast (h p hp).1, by exact_mod_cast (h p hp).2⟩

theorem mixture_mem {inv_tb tb inv_lr lr : ℚ} (htb : Shares inv_tb tb) (hlr : Shares inv_lr lr)
    (h : n.InRange channel lo hi) (hhi : hi ≤ 255) :
    (lo : ℚ) - 1 / 1000 ≤ mixture inv_tb tb inv_lr lr n channel ∧
      mixture inv_tb tb inv_lr lr n channel ≤ hi + 1 / 1000 := by
  have hhi' : (hi : ℚ) ≤ 255 := by exact_mod_cast hhi
  have hlo' : (0 : ℚ) ≤ lo := Nat.cast_nonneg lo
  have hcolour : ∀ p, (0 : ℚ) ≤ ((channel p).toNat : ℚ) := fun p ↦ Nat.cast_nonneg _
  have htop := hlr.mix lo hi hlo' (by linarith) (h.cast (p := n.tl) (by simp)) (h.cast (p := n.tr) (by simp))
  have hbottom := hlr.mix lo hi hlo' (by linarith) (h.cast (p := n.bl) (by simp))
    (h.cast (p := n.br) (by simp))
  have hnonneg : ∀ p q, 0 ≤ inv_lr * ((channel p).toNat : ℚ) + lr * (channel q).toNat := fun p q ↦
    add_nonneg (mul_nonneg hlr.inv_mem.1 (hcolour p)) (mul_nonneg hlr.frac_mem.1 (hcolour q))
  -- the lower bound of a row may have gone below zero, where `mix` cannot start from
  have hmix := htb.mix (max 0 (lo - 1 / 2 ^ 14)) (hi + 1 / 2 ^ 14) (le_max_left _ _)
    (by norm_num; linarith) ⟨max_le (hnonneg _ _) htop.1, htop.2⟩ ⟨max_le (hnonneg _ _) hbottom.1, hbottom.2⟩
  rw [mixture]
  constructor
  · have hmax := le_max_right 0 ((lo : ℚ) - 1 / 2 ^ 14)
    norm_num at hmix hmax ⊢
    linarith [hmix.1]
  · norm_num at hmix ⊢
    linarith [hmix.2]

theorem floor_mem_of_mixture {inv_tb tb inv_lr lr r : ℚ} (htb : Shares inv_tb tb)
    (hlr : Shares inv_lr lr) (h : n.InRange channel lo hi) (hhi : hi ≤ 255) (hr : 0 ≤ r)
    (hnear : |r - mixture inv_tb tb inv_lr lr n channel| ≤ 1 / 1000) :
    0 ≤ ⌊r⌋ ∧ (lo : ℤ) ≤ ⌊r⌋ + 1 ∧ ⌊r⌋ ≤ hi := by
  obtain ⟨hlow, hhigh⟩ := mixture_mem htb hlr h hhi
  rw [abs_le] at hnear
  refine ⟨Int.floor_nonneg.mpr hr, ?_, ?_⟩
  · rw [← sub_le_iff_le_add, Int.le_floor]
    push_cast
    linarith
  · rw [← Int.lt_add_one_iff, Int.floor_lt]
    push_cast
    linarith

/-! ## The plain loop -/

theorem channel_mem (b : BitVec 8) : (0 : ℚ) ≤ (b.toNat : ℚ) ∧ (b.toNat : ℚ) ≤ 255 :=
  ⟨Nat.cast_nonneg _, by exact_mod_cast Nat.le_of_lt_succ b.isLt⟩

theorem hasValue_double_channel (b : BitVec 8) : HasValue (double b.toNat) (b.toNat : ℚ) := by
  have hbyte := b.isLt
  have hvalue := hasValue_double (z := b.toNat) (by omega)
  exact_mod_cast hvalue

theorem hasValue_one_sub_double {x : Double} {v : ℚ} (hx : HasValue x v) (hv : 0 ≤ v ∧ v ≤ 1) :
    HasValue ((double 1).sub x) (binary64.nearest (1 - v)) ∧
      0 ≤ binary64.nearest (1 - v) ∧ binary64.nearest (1 - v) ≤ 1 := by
  have hone : HasValue (double 1) 1 := by exact_mod_cast hasValue_double (z := 1) (by decide)
  refine ⟨hone.sub hx (le_limit_double ?_), nearest_double_fraction ⟨by linarith, by linarith⟩⟩
  rw [abs_of_nonneg (by linarith)]
  linarith

theorem hasValue_mix {inv frac a b : Double} {inv' frac' a' b' : ℚ} (hinv : HasValue inv inv')
    (hfrac : HasValue frac frac') (ha : HasValue a a') (hb : HasValue b b')
    (hinv' : 0 ≤ inv' ∧ inv' ≤ 1) (hfrac' : 0 ≤ frac' ∧ frac' ≤ 1) (ha' : 0 ≤ a' ∧ a' ≤ 1000)
    (hb' : 0 ≤ b' ∧ b' ≤ 1000) :
    ∃ r, HasValue ((inv.mul a).add (frac.mul b)) r ∧ 0 ≤ r ∧
      |r - (inv' * a' + frac' * b')| ≤ 3 / 2 ^ 41 := by
  have hp : 0 ≤ inv' * a' ∧ inv' * a' ≤ 1000 :=
    ⟨mul_nonneg hinv'.1 ha'.1, (mul_le_of_le_one_left ha'.1 hinv'.2).trans ha'.2⟩
  have hq : 0 ≤ frac' * b' ∧ frac' * b' ≤ 1000 :=
    ⟨mul_nonneg hfrac'.1 hb'.1, (mul_le_of_le_one_left hb'.1 hfrac'.2).trans hb'.2⟩
  have hp0 := Format.nearest_nonneg (f := binary64) hp.1
  have hq0 := Format.nearest_nonneg (f := binary64) hq.1
  have hperror := abs_nearest_double_le (v := inv' * a') (by rw [abs_of_nonneg hp.1]; linarith)
  have hqerror := abs_nearest_double_le (v := frac' * b') (by rw [abs_of_nonneg hq.1]; linarith)
  have hpvalue := hinv.mul ha (le_limit_double (by rw [abs_of_nonneg hp.1]; linarith))
  have hqvalue := hfrac.mul hb (le_limit_double (by rw [abs_of_nonneg hq.1]; linarith))
  rw [abs_le] at hperror hqerror
  have hsum : |binary64.nearest (inv' * a') + binary64.nearest (frac' * b')| ≤ 8192 := by
    rw [abs_of_nonneg (add_nonneg hp0 hq0)]
    norm_num at hperror hqerror
    linarith
  have herror := abs_nearest_double_le hsum
  rw [abs_le] at herror
  refine ⟨_, hpvalue.add hqvalue (le_limit_double hsum),
    Format.nearest_nonneg (add_nonneg hp0 hq0), ?_⟩
  rw [abs_le]
  constructor <;> linarith [herror.1, herror.2]

/-- **The colour of the plain loop** is the mixture, but for the rounding. -/
theorem hasValue_blend {tb_frac lr_frac : Double} {tb lr : ℚ} (htb : HasValue tb_frac tb)
    (hlr : HasValue lr_frac lr) (htb' : 0 ≤ tb ∧ tb ≤ 1) (hlr' : 0 ≤ lr ∧ lr ≤ 1) (n : Corners)
    (channel : RgbPixel → BitVec 8) :
    ∃ r, HasValue (blend tb_frac lr_frac n channel) r ∧ 0 ≤ r ∧
      |r - mixture (binary64.nearest (1 - tb)) tb (binary64.nearest (1 - lr)) lr n channel|
        ≤ 1 / 1000 := by
  obtain ⟨hitb, hitb'⟩ := hasValue_one_sub_double htb htb'
  obtain ⟨hilr, hilr'⟩ := hasValue_one_sub_double hlr hlr'
  have hrow : ∀ p q : RgbPixel, ∃ r,
      HasValue ((((double 1).sub lr_frac).mul (double (channel p).toNat)).add
        (lr_frac.mul (double (channel q).toNat))) r ∧ 0 ≤ r ∧ r ≤ 1000 ∧
      |r - (binary64.nearest (1 - lr) * (channel p).toNat + lr * (channel q).toNat)| ≤ 3 / 2 ^ 41 := by
    intro p q
    obtain ⟨hp0, hp⟩ := channel_mem (channel p)
    obtain ⟨hq0, hq⟩ := channel_mem (channel q)
    obtain ⟨r, hr, hr0, hnear⟩ := hasValue_mix hilr hlr (hasValue_double_channel (channel p))
      (hasValue_double_channel (channel q)) hilr' hlr' ⟨hp0, by linarith⟩ ⟨hq0, by linarith⟩
    refine ⟨r, hr, hr0, ?_, hnear⟩
    have hp' := mul_le_of_le_one_left hp0 hilr'.2
    have hq' := mul_le_of_le_one_left hq0 hlr'.2
    rw [abs_le] at hnear
    norm_num at hnear
    linarith [hnear.2]
  obtain ⟨t, ht, ht0, ht', htnear⟩ := hrow n.tl n.tr
  obtain ⟨b, hb, hb0, hb', hbnear⟩ := hrow n.bl n.br
  obtain ⟨r, hr, hr0, hnear⟩ := hasValue_mix hitb htb ht hb hitb' htb' ⟨ht0, ht'⟩ ⟨hb0, hb'⟩
  refine ⟨r, hr, hr0, ?_⟩
  -- the errors of the two rows come through with a weight of at most one
  have htop : |binary64.nearest (1 - tb) * (t
      - (binary64.nearest (1 - lr) * (channel n.tl).toNat + lr * (channel n.tr).toNat))| ≤ 3 / 2 ^ 41 := by
    rw [abs_mul, abs_of_nonneg hitb'.1]
    exact (mul_le_of_le_one_left (abs_nonneg _) hitb'.2).trans htnear
  have hbottom : |tb * (b
      - (binary64.nearest (1 - lr) * (channel n.bl).toNat + lr * (channel n.br).toNat))| ≤ 3 / 2 ^ 41 := by
    rw [abs_mul, abs_of_nonneg htb'.1]
    exact (mul_le_of_le_one_left (abs_nonneg _) htb'.2).trans hbnear
  rw [abs_le] at hnear htop hbottom ⊢
  rw [mixture]
  norm_num at hnear htop hbottom ⊢
  constructor <;> linarith [hnear.1, hnear.2, htop.1, htop.2, hbottom.1, hbottom.2]

theorem shares_double {v : ℚ} (h : 0 ≤ v ∧ v ≤ 1) : Shares (binary64.nearest (1 - v)) v := by
  refine ⟨nearest_double_fraction ⟨by linarith, by linarith⟩, h, ?_⟩
  have herror := abs_nearest_double_le (v := 1 - v) (by rw [abs_of_nonneg (by linarith)]; linarith)
  rw [sub_sub_eq_add_sub] at herror
  exact herror.trans (by norm_num)

/-! ## The lanes -/

theorem hasValue_single_channel (b : BitVec 8) : HasValue (single b.toNat) (b.toNat : ℚ) := by
  have hbyte := b.isLt
  have hvalue := hasValue_single (z := b.toNat) (by omega)
  exact_mod_cast hvalue

theorem hasValue_laneTerm {x y : Single} {u v : ℚ} (hx : HasValue x u) (hy : HasValue y v)
    (hu : 0 ≤ u ∧ u ≤ 1) (hv : 0 ≤ v ∧ v ≤ 1) (b : BitVec 8) :
    ∃ r, HasValue ((x.mul y).mul (single b.toNat)) r ∧ 0 ≤ r ∧ r ≤ 255 ∧
      |r - u * v * b.toNat| ≤ 1 / 2 ^ 14 := by
  obtain ⟨hb0, hb⟩ := channel_mem b
  have huv : 0 ≤ u * v ∧ u * v ≤ 1 := ⟨mul_nonneg hu.1 hv.1, mul_le_one₀ hu.2 hv.1 hv.2⟩
  have hweight := nearest_single_fraction huv
  have hweightError := abs_nearest_single_le_of_fraction (v := u * v)
    (by rw [abs_of_nonneg huv.1]; linarith)
  have hproduct : 0 ≤ binary32.nearest (u * v) * b.toNat ∧ binary32.nearest (u * v) * b.toNat ≤ 255 :=
    ⟨mul_nonneg hweight.1 hb0, (mul_le_of_le_one_left hb0 hweight.2).trans hb⟩
  have hmem := nearest_single_mem 0 255 (by decide) (by decide)
    (by exact_mod_cast hproduct)
  have herror := abs_nearest_single_le_of_byte (v := binary32.nearest (u * v) * b.toNat)
    (by rw [abs_of_nonneg hproduct.1]; linarith)
  have hscaled : |(binary32.nearest (u * v) - u * v) * b.toNat| ≤ 1 / 2 ^ 24 * 255 := by
    rw [abs_mul, abs_of_nonneg hb0]
    exact mul_le_mul hweightError hb hb0 (by positivity)
  refine ⟨_, (hx.mul hy (le_limit_single (by rw [abs_of_nonneg huv.1]; linarith))).mul
    (hasValue_single_channel b) (le_limit_single (by rw [abs_of_nonneg hproduct.1]; linarith)),
    by exact_mod_cast hmem.1, by exact_mod_cast hmem.2, ?_⟩
  rw [sub_mul] at hscaled
  rw [abs_le] at herror hscaled ⊢
  norm_num at herror hscaled ⊢
  constructor <;> linarith [herror.1, herror.2, hscaled.1, hscaled.2]

theorem hasValue_laneSum {x y : Single} {u v : ℚ} (hx : HasValue x u) (hy : HasValue y v)
    (hu : 0 ≤ u) (hv : 0 ≤ v) (hsum : u + v ≤ 1024) :
    ∃ r, HasValue (x.add y) r ∧ 0 ≤ r ∧ |r - (u + v)| ≤ 1 / 2 ^ 15 := by
  have habs : |u + v| ≤ 1024 := by rwa [abs_of_nonneg (add_nonneg hu hv)]
  exact ⟨_, hx.add hy (le_limit_single (habs.trans (by norm_num))),
    Format.nearest_nonneg (add_nonneg hu hv), abs_nearest_single_le_of_byte habs⟩

/-- **The colour of a lane** is the mixture, but for the rounding. -/
theorem hasValue_laneBlend {inv_tb tb inv_lr lr : Single} {inv_tb' tb' inv_lr' lr' : ℚ}
    (hinvtb : HasValue inv_tb inv_tb') (htb : HasValue tb tb') (hinvlr : HasValue inv_lr inv_lr')
    (hlr : HasValue lr lr') (htb' : Shares inv_tb' tb') (hlr' : Shares inv_lr' lr') (n : Corners)
    (channel : RgbPixel → BitVec 8) :
    ∃ r, HasValue (laneBlend (inv_tb.mul inv_lr) (inv_tb.mul lr) (tb.mul inv_lr) (tb.mul lr) n
        channel) r ∧ 0 ≤ r ∧ |r - mixture inv_tb' tb' inv_lr' lr' n channel| ≤ 1 / 1000 := by
  obtain ⟨tl, htl, htl0, htl255, htlnear⟩ :=
    hasValue_laneTerm hinvtb hinvlr htb'.inv_mem hlr'.inv_mem (channel n.tl)
  obtain ⟨tr, htr, htr0, htr255, htrnear⟩ :=
    hasValue_laneTerm hinvtb hlr htb'.inv_mem hlr'.frac_mem (channel n.tr)
  obtain ⟨bl, hbl, hbl0, hbl255, hblnear⟩ :=
    hasValue_laneTerm htb hinvlr htb'.frac_mem hlr'.inv_mem (channel n.bl)
  obtain ⟨br, hbr, hbr0, hbr255, hbrnear⟩ :=
    hasValue_laneTerm htb hlr htb'.frac_mem hlr'.frac_mem (channel n.br)
  obtain ⟨two, htwo, htwo0, htwonear⟩ := hasValue_laneSum htl htr htl0 htr0 (by linarith)
  rw [abs_le] at htlnear htrnear hblnear hbrnear htwonear
  norm_num at htlnear htrnear hblnear hbrnear htwonear
  obtain ⟨three, hthree, hthree0, hthreenear⟩ := hasValue_laneSum htwo hbl htwo0 hbl0 (by linarith)
  rw [abs_le] at hthreenear
  norm_num at hthreenear
  obtain ⟨four, hfour, hfour0, hfournear⟩ := hasValue_laneSum hthree hbr hthree0 hbr0 (by linarith)
  rw [abs_le] at hfournear
  norm_num at hfournear
  refine ⟨four, hfour, hfour0, ?_⟩
  have hmixture : mixture inv_tb' tb' inv_lr' lr' n channel
      = inv_tb' * inv_lr' * (channel n.tl).toNat + inv_tb' * lr' * (channel n.tr).toNat
        + tb' * inv_lr' * (channel n.bl).toNat + tb' * lr' * (channel n.br).toNat := by
    rw [mixture]
    ring
  rw [hmixture, abs_le]
  constructor <;> linarith

/-- The weights of the rows, which are computed in `double`, as they come to the lanes. -/
theorem shares_rows {tb : ℚ} (h : 0 ≤ tb ∧ tb ≤ 1) :
    Shares (binary32.nearest (binary64.nearest (1 - tb))) (binary32.nearest tb) := by
  have hinv := nearest_double_fraction (v := 1 - tb) ⟨by linarith, by linarith⟩
  have herror := abs_nearest_double_le (v := 1 - tb) (by rw [abs_of_nonneg (by linarith)]; linarith)
  have herror' := abs_nearest_single_le_of_fraction (v := binary64.nearest (1 - tb))
    (by rw [abs_of_nonneg hinv.1]; linarith)
  have herror'' := abs_nearest_single_le_of_fraction (v := tb) (by rw [abs_of_nonneg h.1]; linarith)
  refine ⟨nearest_single_fraction hinv, nearest_single_fraction h, ?_⟩
  rw [abs_le] at herror herror' herror'' ⊢
  norm_num at herror herror' herror'' ⊢
  constructor <;> linarith

theorem shares_single {v : ℚ} (h : 0 ≤ v ∧ v ≤ 1) : Shares (binary32.nearest (1 - v)) v := by
  refine ⟨nearest_single_fraction ⟨by linarith, by linarith⟩, h, ?_⟩
  have herror := abs_nearest_single_le_of_fraction (v := 1 - v)
    (by rw [abs_of_nonneg (by linarith)]; linarith)
  rw [sub_sub_eq_add_sub] at herror
  exact herror.trans (by norm_num)

/-! ## Pixels -/

/-- Channel by channel, but for `slack` levels below. -/
structure Between (slack : ℕ) (lo hi p : RgbPixel) : Prop where
  red : lo.red.toNat ≤ p.red.toNat + slack ∧ p.red.toNat ≤ hi.red.toNat
  green : lo.green.toNat ≤ p.green.toNat + slack ∧ p.green.toNat ≤ hi.green.toNat
  blue : lo.blue.toNat ≤ p.blue.toNat + slack ∧ p.blue.toNat ≤ hi.blue.toNat

/-- A pixel that is mixed from corners: it is where they are, but it may be one level darker. -/
def MixedFrom (n : Corners) (pixel : RgbPixel) : Prop :=
  ∀ lo hi, (∀ p ∈ [n.tl, n.tr, n.bl, n.br], Between 0 lo hi p) → Between 1 lo hi pixel

theorem channel_of_mixture {inv_tb tb inv_lr lr r : ℚ} (htb : Shares inv_tb tb)
    (hlr : Shares inv_lr lr) (hr : 0 ≤ r)
    (hnear : |r - mixture inv_tb tb inv_lr lr n channel| ≤ 1 / 1000) :
    (0 ≤ ⌊r⌋ ∧ ⌊r⌋ < 256) ∧ ∀ lo hi : BitVec 8, n.InRange channel lo.toNat hi.toNat →
      lo.toNat ≤ (BitVec.ofInt 8 ⌊r⌋).toNat + 1 ∧ (BitVec.ofInt 8 ⌊r⌋).toNat ≤ hi.toNat := by
  have hbyte : ∀ b : BitVec 8, b.toNat ≤ 255 := fun b ↦ Nat.le_of_lt_succ b.isLt
  have hall : n.InRange channel 0 255 := fun p _ ↦ ⟨Nat.zero_le _, hbyte _⟩
  obtain ⟨hfloor, -, hfloor'⟩ := floor_mem_of_mixture htb hlr hall le_rfl hr hnear
  refine ⟨⟨hfloor, by omega⟩, fun lo hi h ↦ ?_⟩
  obtain ⟨-, hlow, hhigh⟩ := floor_mem_of_mixture htb hlr h (hbyte hi) hr hnear
  rw [BitVec.toNat_ofInt]
  omega

theorem mixedFrom_of_channels {red green blue : BitVec 8}
    (hred : ∀ lo hi : BitVec 8, n.InRange RgbPixel.red lo.toNat hi.toNat →
      lo.toNat ≤ red.toNat + 1 ∧ red.toNat ≤ hi.toNat)
    (hgreen : ∀ lo hi : BitVec 8, n.InRange RgbPixel.green lo.toNat hi.toNat →
      lo.toNat ≤ green.toNat + 1 ∧ green.toNat ≤ hi.toNat)
    (hblue : ∀ lo hi : BitVec 8, n.InRange RgbPixel.blue lo.toNat hi.toNat →
      lo.toNat ≤ blue.toNat + 1 ∧ blue.toNat ≤ hi.toNat) : MixedFrom n ⟨red, green, blue⟩ :=
  fun lo hi h ↦ ⟨hred lo.red hi.red fun p hp ↦ (h p hp).red,
    hgreen lo.green hi.green fun p hp ↦ (h p hp).green, hblue lo.blue hi.blue fun p hp ↦ (h p hp).blue⟩

theorem exists_blendPixel {tb_frac lr_frac : Double} {tb lr : ℚ} (htb : HasValue tb_frac tb)
    (hlr : HasValue lr_frac lr) (htb' : 0 ≤ tb ∧ tb ≤ 1) (hlr' : 0 ≤ lr ∧ lr ≤ 1) (n : Corners) :
    ∃ pixel, blendPixel? tb_frac lr_frac n = some pixel ∧ MixedFrom n pixel := by
  have hchannel : ∀ channel : RgbPixel → BitVec 8, ∃ b,
      toUnsignedChar? (blend tb_frac lr_frac n channel) = some b ∧
      ∀ lo hi : BitVec 8, n.InRange channel lo.toNat hi.toNat →
        lo.toNat ≤ b.toNat + 1 ∧ b.toNat ≤ hi.toNat := by
    intro channel
    obtain ⟨r, hr, hr0, hnear⟩ := hasValue_blend htb hlr htb' hlr' n channel
    obtain ⟨hrange, hbetween⟩ := channel_of_mixture (shares_double htb') (shares_double hlr') hr0 hnear
    exact ⟨_, by rw [toUnsignedChar?, hr.truncate? hr0 hrange, Option.map_some], hbetween⟩
  obtain ⟨red, hred, hred'⟩ := hchannel RgbPixel.red
  obtain ⟨green, hgreen, hgreen'⟩ := hchannel RgbPixel.green
  obtain ⟨blue, hblue, hblue'⟩ := hchannel RgbPixel.blue
  refine ⟨⟨red, green, blue⟩, ?_, mixedFrom_of_channels hred' hgreen' hblue'⟩
  simp only [blendPixel?, hred, hgreen, hblue, Option.bind_eq_bind, Option.bind_some]

theorem exists_lanePixel {tb_frac inv_tb_frac lr_frac : Single} {tb inv_tb lr : ℚ}
    (htb : HasValue tb_frac tb) (hinvtb : HasValue inv_tb_frac inv_tb) (hlr : HasValue lr_frac lr)
    (hshares : Shares inv_tb tb) (hlr' : 0 ≤ lr ∧ lr ≤ 1) (n : Corners) :
    ∃ pixel, lanePixel? tb_frac inv_tb_frac lr_frac n = some pixel ∧ MixedFrom n pixel := by
  have hone : HasValue (single 1) 1 := by exact_mod_cast hasValue_single (z := 1) (by decide)
  have hinvlr := hone.sub hlr (le_limit_single (by rw [abs_of_nonneg (by linarith)]; linarith))
  have hchannel : ∀ channel : RgbPixel → BitVec 8, ∃ out,
      toInt32? (laneBlend (inv_tb_frac.mul ((single 1).sub lr_frac)) (inv_tb_frac.mul lr_frac)
        (tb_frac.mul ((single 1).sub lr_frac)) (tb_frac.mul lr_frac) n channel) = some out ∧
      ∀ lo hi : BitVec 8, n.InRange channel lo.toNat hi.toNat →
        lo.toNat ≤ (BitVec.ofInt 8 out).toNat + 1 ∧ (BitVec.ofInt 8 out).toNat ≤ hi.toNat := by
    intro channel
    obtain ⟨r, hr, hr0, hnear⟩ :=
      hasValue_laneBlend hinvtb htb hinvlr hlr hshares (shares_single hlr') n channel
    obtain ⟨hrange, hbetween⟩ := channel_of_mixture hshares (shares_single hlr') hr0 hnear
    exact ⟨_, hr.truncate? hr0 ⟨by omega, by omega⟩, hbetween⟩
  obtain ⟨red, hred, hred'⟩ := hchannel RgbPixel.red
  obtain ⟨green, hgreen, hgreen'⟩ := hchannel RgbPixel.green
  obtain ⟨blue, hblue, hblue'⟩ := hchannel RgbPixel.blue
  refine ⟨⟨BitVec.ofInt 8 red, BitVec.ofInt 8 green, BitVec.ofInt 8 blue⟩, ?_,
    mixedFrom_of_channels hred' hgreen' hblue'⟩
  simp only [lanePixel?, hred, hgreen, hblue, Option.bind_eq_bind, Option.bind_some]

end FacialLandmark
