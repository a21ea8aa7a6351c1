import MobiusAgent.CheckedNumbers
import MobiusAgent.ProtocolEvents

/-!
# Dimensions of images

`dimensions` of `backend/session_files/images.rs` scales an image that does not
fit its policy. The longest side is found by bisection, since the patches of two
rounded sides have no inverse. `dimensions_maximal` says that the bisection is
right: whether a scaled image fits is monotone in its longest side.
-/

namespace MobiusAgent.ImageScaling

open ProtocolEvents (Error u64Max)
open CheckedNumbers (fitting fitting_of_le minus minus_of_le)

/-- `u32::MAX`. -/
def u32Max : Nat := 2 ^ 32 - 1

/-- `ImagePresentation`, as `image_presentation` of the store admits it. -/
structure ImagePresentation where
  /-- The longest side permitted. -/
  maxDimension : Nat
  /-- The patches of 32 by 32 pixels permitted. -/
  maxPatches : Nat
  someDimension : 0 < maxDimension
  decodable : maxDimension ≤ 16384
  somePatches : 0 < maxPatches

def imagePresentation (maxDimension maxPatches : Nat) : Except Error ImagePresentation :=
  if h : maxDimension = 0 ∨ 16384 < maxDimension ∨ maxPatches = 0 then
    .error (.config "invalid image presentation limits")
  else .ok ⟨maxDimension, maxPatches, by omega, by omega, by omega⟩

variable (policy : ImagePresentation)

def divCeil (first second : Nat) : Nat :=
  if 0 < first % second then first / second + 1 else first / second

def fits (width height : Nat) : Option Bool :=
  if 0 < width ∧ 0 < height ∧ max width height ≤ policy.maxDimension then do
    let patches ← fitting u64Max (divCeil width 32 * divCeil height 32)
    some (decide (patches ≤ policy.maxPatches))
  else some false

def scaledSide (pixels side longest : Nat) : Option Nat := do
  let product ← fitting u64Max (pixels * side)
  let quotient := max (product / longest) 1
  some (if quotient ≤ u32Max then quotient else max pixels 1)

/-- `scaled`: the image with another longest side. -/
def scaled (width height side : Nat) : Option (Nat × Nat) := do
  let longest := max (max width height) 1
  some (← scaledSide width side longest, ← scaledSide height side longest)

/-- Whether the image fits with another longest side. -/
def fitsAt (width height side : Nat) : Option Bool := do
  let (w, h) ← scaled width height side
  fits policy w h

/-- The loop of `dimensions`, which ends before the fuel does. -/
def search (test : Nat → Option Bool) : Nat → Nat → Nat → Option Nat
  | 0, low, _ => some low
  | fuel + 1, low, high =>
    if low < high then do
      let mid ← fitting u32Max (low + divCeil (high - low) 2)
      if ← test mid then search test fuel mid high
      else search test fuel low (← minus mid 1)
    else some low

def dimensions (width height : Nat) : Option (Nat × Nat) := do
  if ← fits policy width height then some (width, height)
  else
    let high := max (min (max (max width height) 1) policy.maxDimension) 1
    let side ← search (fitsAt policy width height) high 1 high
    scaled width height side

section Search

variable {test : Nat → Option Bool} {good : Nat → Prop} [DecidablePred good]

/-- The search finds the last good number, where those below a good one are good. -/
theorem search_spec {fuel low high : Nat} (hfuel : high ≤ low + fuel) (hhigh : high ≤ u32Max)
    (hlow : 0 < low) (hle : low ≤ high)
    (htest : ∀ side, 0 < side → side ≤ high → test side = some (decide (good side)))
    (hmono : ∀ side larger, 0 < side → side ≤ larger → larger ≤ high → good larger → good side)
    (hgood : good low) : ∃ found, search test fuel low high = some found ∧ low ≤ found ∧
      found ≤ high ∧ good found ∧ ∀ side, found < side → side ≤ high → ¬good side := by
  induction fuel generalizing low high with
  | zero =>
    exact ⟨low, rfl, Nat.le_refl _, hle, hgood, fun side hlt hside => absurd hside (by omega)⟩
  | succ fuel ih =>
    unfold search
    by_cases hmore : low < high
    · obtain ⟨mid, hmid, hlower, hupper⟩ : ∃ mid, low + divCeil (high - low) 2 = mid ∧
          low < mid ∧ mid ≤ high := by
        refine ⟨_, rfl, ?_⟩
        unfold divCeil
        split <;> omega
      rw [if_pos hmore, hmid, fitting_of_le (Nat.le_trans hupper hhigh)]
      simp only [bind, Option.bind_some, htest mid (by omega) hupper]
      by_cases hfits : good mid
      · rw [decide_eq_true hfits, if_pos rfl]
        obtain ⟨found, hfound, hbetween, hrest⟩ :=
          @ih mid high (by omega) hhigh (by omega) hupper htest hmono hfits
        exact ⟨found, hfound, by omega, hrest⟩
      · rw [decide_eq_false hfits, if_neg Bool.false_ne_true, minus_of_le (by omega),
          Option.bind_some]
        obtain ⟨found, hfound, hbelow, habove, hfoundGood, hlast⟩ :=
          @ih low (mid - 1) (by omega) (by omega) hlow (by omega)
            (fun side hpositive hside => htest side hpositive (by omega))
            (fun side larger hpositive hside hlarger =>
              hmono side larger hpositive hside (by omega)) hgood
        refine ⟨found, hfound, hbelow, by omega, hfoundGood, fun side hlt hside hthis => ?_⟩
        by_cases hmiddle : side < mid
        · exact hlast side hlt (by omega) hthis
        · exact hfits (hmono mid side (by omega) (by omega) hside hthis)
    · rw [if_neg hmore]
      exact ⟨low, rfl, Nat.le_refl _, hle, hgood, fun side hlt hside => absurd hside (by omega)⟩

end Search

section Sizes

variable {policy : ImagePresentation} {width height : Nat}

/-- What `fits` decides. -/
def Fits (policy : ImagePresentation) (width height : Nat) : Prop :=
  0 < width ∧ 0 < height ∧ max width height ≤ policy.maxDimension ∧
    divCeil width 32 * divCeil height 32 ≤ policy.maxPatches

/-- That can be decided. -/
instance (policy : ImagePresentation) (width height : Nat) : Decidable (Fits policy width height) :=
  inferInstanceAs (Decidable (_ ∧ _ ∧ _ ∧ _))

theorem divCeil_mono {first second : Nat} (h : first ≤ second) :
    divCeil first 32 ≤ divCeil second 32 := by
  unfold divCeil
  split <;> split <;> omega

theorem fits_eq (hwidth : width ≤ u32Max) (hheight : height ≤ u32Max) :
    fits policy width height = some (decide (Fits policy width height)) := by
  unfold fits
  by_cases hsides : 0 < width ∧ 0 < height ∧ max width height ≤ policy.maxDimension
  · have hone := divCeil_mono hwidth
    have htwo := divCeil_mono hheight
    have hproduct : divCeil width 32 * divCeil height 32 ≤ u64Max :=
      Nat.le_trans (Nat.mul_le_mul hone htwo) (by decide)
    rw [if_pos hsides, fitting_of_le hproduct]
    simp [Fits, hsides, bind]
  · rw [if_neg hsides, decide_eq_false fun h => hsides ⟨h.1, h.2.1, h.2.2.1⟩]

theorem Fits.mono {smallerWidth smallerHeight : Nat} (h : Fits policy width height)
    (hwidth : smallerWidth ≤ width) (hheight : smallerHeight ≤ height)
    (hsomeWidth : 0 < smallerWidth) (hsomeHeight : 0 < smallerHeight) :
    Fits policy smallerWidth smallerHeight := by
  obtain ⟨-, -, hmax, hpatches⟩ := h
  refine ⟨hsomeWidth, hsomeHeight, by omega, Nat.le_trans ?_ hpatches⟩
  exact Nat.mul_le_mul (divCeil_mono hwidth) (divCeil_mono hheight)

/-- The longest side, or one for an empty image. -/
def longest (width height : Nat) : Nat := max (max width height) 1

def pixelsAt (pixels side longest : Nat) : Nat := max (pixels * side / longest) 1

theorem pixelsAt_le {pixels side longest : Nat} (hpixels : 0 < pixels) (hside : side ≤ longest) :
    pixelsAt pixels side longest ≤ pixels := by
  have hquotient : pixels * side / longest ≤ pixels :=
    Nat.div_le_of_le_mul (Nat.mul_comm longest pixels ▸ Nat.mul_le_mul_left pixels hside)
  unfold pixelsAt
  omega

theorem pixelsAt_mono (pixels longest : Nat) {side larger : Nat} (h : side ≤ larger) :
    pixelsAt pixels side longest ≤ pixelsAt pixels larger longest := by
  have hquotient : pixels * side / longest ≤ pixels * larger / longest :=
    Nat.div_le_div_right (Nat.mul_le_mul_left pixels h)
  unfold pixelsAt
  omega

theorem scaledSide_eq {pixels side longest : Nat} (hpixels : pixels ≤ longest)
    (hside : side ≤ longest) (hsome : 0 < longest) (hlongest : longest ≤ u32Max) :
    scaledSide pixels side longest = some (pixelsAt pixels side longest) ∧
      pixelsAt pixels side longest ≤ u32Max := by
  have hproduct : pixels * side ≤ u64Max := Nat.le_trans
    (Nat.mul_le_mul (Nat.le_trans hpixels hlongest) (Nat.le_trans hside hlongest)) (by decide)
  have hquotient : pixels * side / longest ≤ longest :=
    Nat.div_le_of_le_mul (Nat.mul_le_mul hpixels hside)
  have hfits : max (pixels * side / longest) 1 ≤ u32Max := by omega
  unfold scaledSide
  rw [fitting_of_le hproduct]
  simp only [bind, Option.bind_some, if_pos hfits]
  exact ⟨rfl, hfits⟩

theorem scaled_eq (hwidth : width ≤ u32Max) (hheight : height ≤ u32Max) {side : Nat}
    (hside : side ≤ longest width height) : scaled width height side =
      some (pixelsAt width side (longest width height),
        pixelsAt height side (longest width height)) ∧
      pixelsAt width side (longest width height) ≤ u32Max ∧
        pixelsAt height side (longest width height) ≤ u32Max := by
  have hsome : 0 < longest width height := by unfold longest; omega
  have hlongest : longest width height ≤ u32Max := by
    have hone : 1 ≤ u32Max := by decide
    unfold longest
    omega
  have hbelow : width ≤ longest width height ∧ height ≤ longest width height := by
    unfold longest
    omega
  obtain ⟨hone, honeMax⟩ := scaledSide_eq hbelow.1 hside hsome hlongest
  obtain ⟨htwo, htwoMax⟩ := scaledSide_eq hbelow.2 hside hsome hlongest
  refine ⟨?_, honeMax, htwoMax⟩
  unfold scaled
  unfold longest at hone htwo ⊢
  simp only [bind, hone, htwo, Option.bind_some]

theorem max_pixelsAt {side : Nat} (hsome : 0 < side) (hside : side ≤ longest width height) :
    max (pixelsAt width side (longest width height))
      (pixelsAt height side (longest width height)) = side := by
  have hself : longest width height * side / longest width height = side :=
    Nat.mul_div_cancel_left side (by unfold longest; omega)
  have hbelow : ∀ pixels, pixels ≤ longest width height →
      pixelsAt pixels side (longest width height) ≤ side := by
    intro pixels hpixels
    have hquotient : pixels * side / longest width height ≤ side :=
      Nat.div_le_of_le_mul (Nat.mul_le_mul_right side hpixels)
    unfold pixelsAt
    omega
  have hlower : width ≤ longest width height ∧ height ≤ longest width height := by
    unfold longest
    omega
  have hone := hbelow width hlower.1
  have htwo := hbelow height hlower.2
  -- One of the sides is the longest, unless the image is empty and the side is one.
  have hcases : longest width height = width ∨ longest width height = height ∨
      longest width height = 1 := by
    unfold longest
    omega
  have hpositive : ∀ pixels, 1 ≤ pixelsAt pixels side (longest width height) :=
    fun pixels => Nat.le_max_right _ _
  have hattained : ∀ pixels, longest width height = pixels →
      pixelsAt pixels side (longest width height) = side := by
    intro pixels heq
    unfold pixelsAt
    rw [← heq, hself]
    omega
  have honeSide := hpositive width
  rcases hcases with hwidth | hheight | hempty
  · have hthis := hattained width hwidth
    omega
  · have hthis := hattained height hheight
    omega
  · omega

def FitsAt (policy : ImagePresentation) (width height side : Nat) : Prop :=
  Fits policy (pixelsAt width side (longest width height))
    (pixelsAt height side (longest width height))

/-- That can be decided. -/
instance (policy : ImagePresentation) (width height : Nat) :
    DecidablePred (FitsAt policy width height) :=
  fun _ => inferInstanceAs (Decidable (Fits _ _ _))

theorem FitsAt.mono {side larger : Nat} (h : FitsAt policy width height larger)
    (hle : side ≤ larger) : FitsAt policy width height side :=
  Fits.mono h (pixelsAt_mono _ _ hle) (pixelsAt_mono _ _ hle) (Nat.le_max_right _ _)
    (Nat.le_max_right _ _)

theorem scaled_fits (policy : ImagePresentation) (hwidth : width ≤ u32Max)
    (hheight : height ≤ u32Max) {side : Nat} (hside : side ≤ longest width height) :
    scaled width height side = some (pixelsAt width side (longest width height),
        pixelsAt height side (longest width height)) ∧
      fits policy (pixelsAt width side (longest width height))
        (pixelsAt height side (longest width height)) =
          some (decide (FitsAt policy width height side)) := by
  obtain ⟨hsame, hone, htwo⟩ := scaled_eq hwidth hheight hside
  exact ⟨hsame, fits_eq hone htwo⟩

theorem fitsAt_one : FitsAt policy width height 1 := by
  have hmax := @max_pixelsAt width height 1 Nat.zero_lt_one (Nat.le_max_right _ _)
  have hpositive : ∀ pixels, 1 ≤ pixelsAt pixels 1 (longest width height) :=
    fun pixels => Nat.le_max_right _ _
  have honeWidth := hpositive width
  have honeHeight := hpositive height
  have hwidth : pixelsAt width 1 (longest width height) = 1 := by omega
  have hheight : pixelsAt height 1 (longest width height) = 1 := by omega
  unfold FitsAt
  rw [hwidth, hheight]
  exact ⟨Nat.zero_lt_one, Nat.zero_lt_one, policy.someDimension, policy.somePatches⟩

theorem fitsAt_eq (hwidth : width ≤ u32Max) (hheight : height ≤ u32Max) {side : Nat}
    (hside : side ≤ longest width height) :
    fitsAt policy width height side = some (decide (FitsAt policy width height side)) := by
  obtain ⟨hsame, hthis⟩ := scaled_fits policy hwidth hheight hside
  simp only [fitsAt, bind, hsame, Option.bind_some, hthis]

end Sizes

/-- Every image gets dimensions that fit and are no larger; those that fit are kept. Otherwise
the longest side is the last one that fits, as those below it do and those above it do not. No
computation overflows, and no scaled side leaves `u32`, so its fallback is never taken. -/
theorem dimensions_maximal {width height : Nat} (hwidth : width ≤ u32Max)
    (hheight : height ≤ u32Max) : ∃ w h, dimensions policy width height = some (w, h) ∧
      fits policy w h = some true ∧ dimensions policy w h = some (w, h) ∧
      (0 < width → 0 < height → w ≤ width ∧ h ≤ height) ∧
      (fits policy width height = some true → w = width ∧ h = height) ∧
      (∀ side ≤ longest width height,
        max (width * side / longest width height) 1 ≤ u32Max ∧
          max (height * side / longest width height) 1 ≤ u32Max) ∧
      (fits policy width height = some false → ∃ side, scaled width height side = some (w, h) ∧
        max w h = side ∧ side ≤ longest width height ∧
        ∀ other, 0 < other → other ≤ longest width height → other ≤ policy.maxDimension →
          ∃ w' h', scaled width height other = some (w', h') ∧ max w' h' = other ∧
            fits policy w' h' = some (decide (other ≤ side))) := by
  have hkept : ∀ w h, fits policy w h = some true → dimensions policy w h = some (w, h) := by
    intro w h hfits
    unfold dimensions
    simp only [bind, hfits, Option.bind_some, if_true]
  have hrange : ∀ side ≤ longest width height,
      max (width * side / longest width height) 1 ≤ u32Max ∧
        max (height * side / longest width height) 1 ≤ u32Max :=
    fun side hside => (scaled_eq hwidth hheight hside).2
  have hdecided := @fits_eq policy width height hwidth hheight
  by_cases hfits : Fits policy width height
  · rw [decide_eq_true hfits] at hdecided
    refine ⟨width, height, hkept _ _ hdecided, hdecided, hkept _ _ hdecided,
      fun _ _ => ⟨Nat.le_refl _, Nat.le_refl _⟩, fun _ => ⟨rfl, rfl⟩, hrange,
      fun hfalse => ?_⟩
    rw [hdecided] at hfalse
    cases hfalse
  · rw [decide_eq_false hfits] at hdecided
    have hlongest : 0 < longest width height := Nat.lt_of_lt_of_le Nat.zero_lt_one
      (Nat.le_max_right _ _)
    have hlongestMax : longest width height ≤ u32Max := by
      have hone : 1 ≤ u32Max := by decide
      unfold longest
      omega
    obtain ⟨high, hhigh⟩ :
        ∃ high, max (min (longest width height) policy.maxDimension) 1 = high := ⟨_, rfl⟩
    have hdimension := policy.someDimension
    obtain ⟨side, hside, hpositive, hle, hfitsSide, hlast⟩ :=
      @search_spec (fitsAt policy width height) (FitsAt policy width height) _ high 1 high
        (by omega) (by omega) Nat.zero_lt_one (by omega)
        (fun side _ hside => fitsAt_eq hwidth hheight (by omega))
        (fun side larger _ hbelow _ hgood => hgood.mono hbelow) fitsAt_one
    obtain ⟨hsame, hthis⟩ := scaled_fits policy hwidth hheight (by omega : side ≤ _)
    rw [decide_eq_true hfitsSide] at hthis
    refine ⟨_, _, ?_, hthis, hkept _ _ hthis, ?_, ?_, hrange,
      fun _ => ⟨side, hsame, max_pixelsAt (by omega) (by omega), by omega, ?_⟩⟩
    · unfold dimensions
      unfold longest at hhigh
      simp only [bind, hdecided, Option.bind_some, Bool.false_eq_true, if_false, hhigh, hside, hsame]
    · intro hsomeWidth hsomeHeight
      exact ⟨pixelsAt_le hsomeWidth (by omega), pixelsAt_le hsomeHeight (by omega)⟩
    · intro htrue
      rw [hdecided] at htrue
      cases htrue
    · intro other hsome hother hlimit
      obtain ⟨hsameOther, hthisOther⟩ := scaled_fits policy hwidth hheight hother
      refine ⟨_, _, hsameOther, max_pixelsAt hsome hother, ?_⟩
      rw [hthisOther]
      by_cases hbelow : other ≤ side
      · rw [decide_eq_true hbelow, decide_eq_true (hfitsSide.mono hbelow)]
      · rw [decide_eq_false hbelow, decide_eq_false (hlast other (by omega) (by omega))]

def plainPolicy : ImagePresentation := ⟨2048, 2500, by decide, by decide, by decide⟩

/-- A large image is scaled to the last side that fits. -/
theorem dimensions_maximal_large : ∃ w h, dimensions plainPolicy 4000 3000 = some (w, h) ∧
    fits plainPolicy w h = some true ∧ w ≤ 4000 ∧ h ≤ 3000 := by
  obtain ⟨w, h, hsame, hfits, -, hle, -⟩ :=
    dimensions_maximal plainPolicy (by decide : 4000 ≤ u32Max) (by decide : 3000 ≤ u32Max)
  exact ⟨w, h, hsame, hfits, hle (by decide) (by decide)⟩

example : dimensions plainPolicy 4000 3000 = some (1835, 1376) := by decide +kernel

end MobiusAgent.ImageScaling
