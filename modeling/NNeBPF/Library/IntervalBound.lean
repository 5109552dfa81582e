import Mathlib

/-!
# Intervals through integer layers

A layer multiplies rows of integers with a vector and divides the sums by a power of two, rounded
down; between layers negative entries are cut off.  If the vector lies in a box, one interval for
each coordinate, the result lies in a box that can be computed.  Vectors, rows and boxes are lists
here, so that the bounds are quick to evaluate.
-/

namespace IntervalBound

/-- The product of a row and a vector. -/
def dot : List ℤ → List ℤ → ℤ
  | weight :: row, value :: values => weight * value + dot row values
  | _, _ => 0

def layer (shift : ℕ) (rows : List (List ℤ)) (values : List ℤ) : List ℤ :=
  rows.map fun row ↦ dot row values / 2 ^ shift

def positivePart (values : List ℤ) : List ℤ := values.map fun value ↦ max value 0

/-- Each value lies in its interval. -/
def InBox (values : List ℤ) (box : List (ℤ × ℤ)) : Prop :=
  List.Forall₂ (fun value bound ↦ bound.1 ≤ value ∧ value ≤ bound.2) values box

/-! ## Bounds -/

def dotLower : List ℤ → List (ℤ × ℤ) → ℤ
  | weight :: row, bound :: box => min (weight * bound.1) (weight * bound.2) + dotLower row box
  | _, _ => 0

def dotUpper : List ℤ → List (ℤ × ℤ) → ℤ
  | weight :: row, bound :: box => max (weight * bound.1) (weight * bound.2) + dotUpper row box
  | _, _ => 0

def layerBox (shift : ℕ) (rows : List (List ℤ)) (box : List (ℤ × ℤ)) : List (ℤ × ℤ) :=
  rows.map fun row ↦ (dotLower row box / 2 ^ shift, dotUpper row box / 2 ^ shift)

def positiveBox (box : List (ℤ × ℤ)) : List (ℤ × ℤ) :=
  box.map fun bound ↦ (max bound.1 0, max bound.2 0)

/-- A multiple of a value in an interval lies between the multiples of the ends. -/
theorem mul_mem_interval (weight : ℤ) {lower upper value : ℤ} (hlower : lower ≤ value)
    (hupper : value ≤ upper) :
    min (weight * lower) (weight * upper) ≤ weight * value ∧
      weight * value ≤ max (weight * lower) (weight * upper) := by
  rcases le_total 0 weight with hpos | hneg
  · exact ⟨min_le_of_left_le (mul_le_mul_of_nonneg_left hlower hpos),
      le_max_of_le_right (mul_le_mul_of_nonneg_left hupper hpos)⟩
  · exact ⟨min_le_of_right_le (mul_le_mul_of_nonpos_left hupper hneg),
      le_max_of_le_left (mul_le_mul_of_nonpos_left hlower hneg)⟩

theorem dot_mem_interval {values : List ℤ} {box : List (ℤ × ℤ)} (h : InBox values box)
    (row : List ℤ) : dotLower row box ≤ dot row values ∧ dot row values ≤ dotUpper row box := by
  induction h generalizing row with
  | nil => cases row <;> exact ⟨le_rfl, le_rfl⟩
  | cons hvalue _ ih =>
    cases row with
    | nil => exact ⟨le_rfl, le_rfl⟩
    | cons weight row =>
      obtain ⟨hlower, hupper⟩ := mul_mem_interval weight hvalue.1 hvalue.2
      obtain ⟨hrestLower, hrestUpper⟩ := ih row
      exact ⟨add_le_add hlower hrestLower, add_le_add hupper hrestUpper⟩

/-- A layer maps a box into the box of its bounds. -/
theorem layer_inBox {values : List ℤ} {box : List (ℤ × ℤ)} (h : InBox values box) (shift : ℕ)
    (rows : List (List ℤ)) : InBox (layer shift rows values) (layerBox shift rows box) := by
  have hpow : (0 : ℤ) < 2 ^ shift := by positivity
  unfold InBox layer layerBox
  rw [List.forall₂_map_left_iff, List.forall₂_map_right_iff, List.forall₂_same]
  intro row _
  obtain ⟨hlower, hupper⟩ := dot_mem_interval h row
  exact ⟨Int.ediv_le_ediv hpow hlower, Int.ediv_le_ediv hpow hupper⟩

theorem positivePart_inBox {values : List ℤ} {box : List (ℤ × ℤ)} (h : InBox values box) :
    InBox (positivePart values) (positiveBox box) := by
  unfold InBox positivePart positiveBox
  rw [List.forall₂_map_left_iff, List.forall₂_map_right_iff]
  apply h.imp
  intro value bound hvalue
  exact ⟨max_le_max_right 0 hvalue.1, max_le_max_right 0 hvalue.2⟩

/-- Monotone functions, one for each coordinate, map the ends of the intervals. -/
def imageBox (images : List (ℤ → ℤ)) (box : List (ℤ × ℤ)) : List (ℤ × ℤ) :=
  List.zipWith (fun image bound ↦ (image bound.1, image bound.2)) images box

theorem image_inBox {values : List ℤ} {box : List (ℤ × ℤ)} (h : InBox values box)
    {images : List (ℤ → ℤ)} (hmono : ∀ image ∈ images, Monotone image) :
    InBox (List.zipWith (fun image value ↦ image value) images values) (imageBox images box) := by
  unfold imageBox
  induction h generalizing images with
  | nil =>
    rw [List.zipWith_nil_right, List.zipWith_nil_right]
    exact List.Forall₂.nil
  | cons hvalue _ ih =>
    cases images with
    | nil => exact List.Forall₂.nil
    | cons image images =>
      have himage := hmono image List.mem_cons_self
      exact List.Forall₂.cons ⟨himage hvalue.1, himage hvalue.2⟩
        (ih fun other hother ↦ hmono other (List.mem_cons_of_mem _ hother))

/-- What contains all intervals of a box contains all values in it. -/
theorem mem_of_inBox {values : List ℤ} {box : List (ℤ × ℤ)} (h : InBox values box)
    {lower upper : ℤ} (hbox : ∀ bound ∈ box, lower ≤ bound.1 ∧ bound.2 ≤ upper) :
    ∀ value ∈ values, lower ≤ value ∧ value ≤ upper := by
  induction h with
  | nil => exact fun _ hmem ↦ absurd hmem List.not_mem_nil
  | cons hvalue _ ih =>
    intro value hmem
    rcases List.mem_cons.mp hmem with rfl | hmem
    · obtain ⟨hlower, hupper⟩ := hbox _ List.mem_cons_self
      exact ⟨hlower.trans hvalue.1, hvalue.2.trans hupper⟩
    · exact ih (fun bound hbound ↦ hbox bound (List.mem_cons_of_mem _ hbound)) value hmem

/-! ## Case distinctions -/

/-- A distinction of cases by the coordinates of a box. -/
inductive Cover
  | leaf
  | split (coordinate : ℕ) (bound : ℤ) (below above : Cover)

/-- The test succeeds on the box of every case. -/
def Cover.holds (test : List (ℤ × ℤ) → Bool) : Cover → List (ℤ × ℤ) → Bool
  | .leaf, box => test box
  | .split coordinate bound below above, box =>
    below.holds test (box.modify coordinate fun interval ↦ (interval.1, bound)) &&
      above.holds test (box.modify coordinate fun interval ↦ (bound, interval.2))

/-- An interval may be replaced by another one that contains the value. -/
theorem inBox_modify {values : List ℤ} {box : List (ℤ × ℤ)} (h : InBox values box)
    {coordinate : ℕ} {change : ℤ × ℤ → ℤ × ℤ}
    (hchange : ∀ value ∈ values[coordinate]?, ∀ interval : ℤ × ℤ,
      interval.1 ≤ value → value ≤ interval.2 →
        (change interval).1 ≤ value ∧ value ≤ (change interval).2) :
    InBox values (box.modify coordinate change) := by
  induction h generalizing coordinate with
  | nil =>
    rw [List.modify_nil]
    exact List.Forall₂.nil
  | cons hvalue hrest ih =>
    cases coordinate with
    | zero =>
      rw [List.modify_zero_cons]
      exact List.Forall₂.cons (hchange _ rfl _ hvalue.1 hvalue.2) hrest
    | succ coordinate =>
      rw [List.modify_succ_cons]
      exact List.Forall₂.cons hvalue (ih hchange)

/-- What a test guarantees in the box of every case is true in the whole box. -/
theorem of_cover {test : List (ℤ × ℤ) → Bool} {guarantee : List ℤ → Prop}
    (htest : ∀ box, test box = true → ∀ values, InBox values box → guarantee values) (cover : Cover)
    {box : List (ℤ × ℤ)} (hcover : cover.holds test box = true) {values : List ℤ}
    (h : InBox values box) : guarantee values := by
  induction cover generalizing box with
  | leaf => exact htest box hcover values h
  | split coordinate bound below above ihBelow ihAbove =>
    obtain ⟨hbelow, habove⟩ := Bool.and_eq_true_iff.mp hcover
    rcases le_total (values.getD coordinate 0) bound with hle | hge
    · apply ihBelow hbelow
      apply inBox_modify h
      intro value hvalue interval hlower _
      rw [List.getD_eq_getElem?_getD, Option.mem_def.mp hvalue, Option.getD_some] at hle
      exact ⟨hlower, hle⟩
    · apply ihAbove habove
      apply inBox_modify h
      intro value hvalue interval _ hupper
      rw [List.getD_eq_getElem?_getD, Option.mem_def.mp hvalue, Option.getD_some] at hge
      exact ⟨hge, hupper⟩

/-! ## Lists of functions -/

theorem inBox_ofFn {n : ℕ} {values : Fin n → ℤ} {bounds : Fin n → ℤ × ℤ}
    (h : ∀ i, (bounds i).1 ≤ values i ∧ values i ≤ (bounds i).2) :
    InBox (List.ofFn values) (List.ofFn bounds) := by
  induction n with
  | zero => exact List.Forall₂.nil
  | succ n ih =>
    rw [List.ofFn_succ, List.ofFn_succ]
    exact List.Forall₂.cons (h 0) (ih fun i ↦ h i.succ)

theorem dot_ofFn {n : ℕ} (row values : Fin n → ℤ) :
    dot (List.ofFn row) (List.ofFn values) = ∑ j, row j * values j := by
  induction n with
  | zero => rfl
  | succ n ih => rw [List.ofFn_succ, List.ofFn_succ, dot, ih, Fin.sum_univ_succ]

theorem layer_ofFn {M N : ℕ} (shift : ℕ) (W : Fin M → Fin N → ℤ) (values : Fin N → ℤ) :
    layer shift (List.ofFn fun i ↦ List.ofFn (W i)) (List.ofFn values) =
      List.ofFn fun i ↦ (∑ j, W i j * values j) / 2 ^ shift := by
  unfold layer
  rw [List.map_ofFn]
  congr 1
  funext i
  rw [Function.comp_apply, dot_ofFn]

theorem positivePart_ofFn {n : ℕ} (values : Fin n → ℤ) :
    positivePart (List.ofFn values) = List.ofFn fun i ↦ max (values i) 0 := by
  unfold positivePart
  rw [List.map_ofFn]
  rfl

/-- A flat row-major array cut into `M` rows of length `N`. -/
def rowsOf (N : ℕ) : ℕ → List ℤ → List (List ℤ)
  | 0, _ => []
  | M + 1, ints => ints.take N :: rowsOf N M (ints.drop N)

theorem rowsOf_eq_ofFn {M N : ℕ} {ints : List ℤ} (h : ints.length = M * N) {W : Fin M → Fin N → ℤ}
    (hW : ∀ i j, ints[i.val * N + j.val]? = some (W i j)) :
    rowsOf N M ints = List.ofFn fun i ↦ List.ofFn (W i) := by
  induction M generalizing ints with
  | zero => rfl
  | succ M ih =>
    have hdrop : (ints.drop N).length = M * N := by
      rw [List.length_drop, h, Nat.succ_mul, Nat.add_sub_cancel]
    have hrows : ∀ (i : Fin M) (j : Fin N),
        (ints.drop N)[i.val * N + j.val]? = some (W i.succ j) := by
      intro i j
      have hindex := hW i.succ j
      rw [Fin.val_succ, Nat.succ_mul] at hindex
      rw [List.getElem?_drop, ← hindex]
      congr 1
      omega
    have hfirst : ints.take N = List.ofFn (W 0) := by
      apply List.ext_getElem?
      intro j
      rcases lt_or_ge j N with hj | hj
      · have hindex := hW 0 ⟨j, hj⟩
        rw [Fin.val_zero, Nat.zero_mul, Nat.zero_add] at hindex
        rw [List.getElem?_take_of_lt hj, hindex, List.getElem?_ofFn, dif_pos hj]
      · rw [List.getElem?_eq_none (by rw [List.length_take]; omega),
          List.getElem?_eq_none (by rw [List.length_ofFn]; exact hj)]
    rw [rowsOf, ih hdrop hrows, hfirst, List.ofFn_succ]

end IntervalBound
