import SparseDatasets.Element

/-!
# Laws of element equality

Numeric equality is no equality of values: both floating-point zeros are equal,
and a NaN does not equal itself. It is still symmetric and transitive, and zero
equals itself, for each of the four kinds of elements. From this alone it
follows that two values of which one reproduces the other are both zero or both
not.

- `LawfulElement`: the laws, with an instance for each kind of element.
- `LawfulElement.of_eq`, `LawfulElement.of_agree`: integers, and words with a NaN and two zeros.
- `ReportsZero`: zero is reported as the double zero, again for each kind.
- `Element.sameValue_refl`, `Element.sameValue_symm`, `Element.sameValue_trans`: reproducing is an
  equivalence.
- `Element.sameValue_zero`: zero reproduces exactly the values that are zero.
- `Element.isZero_eq_of_sameValue`: only a zero reproduces a zero.
-/

namespace SparseDatasets

/-- Numeric equality is symmetric and transitive, and zero equals itself. -/
class LawfulElement (α : Type) [Element α] : Prop where
  equal_symm : ∀ {x y : α}, Element.equal x y = true → Element.equal y x = true
  equal_trans : ∀ {x y z : α},
    Element.equal x y = true → Element.equal y z = true → Element.equal x z = true
  equal_zero : Element.equal (0 : α) 0 = true

/-! ## The four kinds of elements -/

/-- Values that are equal iff they are the same. -/
theorem LawfulElement.of_eq {α : Type} [Element α]
    (hequal : ∀ x y : α, Element.equal x y = true ↔ x = y) : LawfulElement α where
  equal_symm h := (hequal _ _).mpr ((hequal _ _).mp h).symm
  equal_trans hxy hyz := (hequal _ _).mpr (((hequal _ _).mp hxy).trans ((hequal _ _).mp hyz))
  equal_zero := (hequal _ _).mpr rfl

/-- Values that are equal iff neither is a NaN and they are the same or both zero. The zeros form
one class, and every other number stands for itself. -/
theorem LawfulElement.of_agree {α : Type} [Element α] (nan zero : α → Bool)
    (hequal : ∀ x y : α, Element.equal x y = true ↔
      (nan x = false ∧ nan y = false) ∧ (x = y ∨ zero x = true ∧ zero y = true))
    (hzero : nan 0 = false) : LawfulElement α where
  equal_symm := by
    intro x y h
    obtain ⟨⟨hx, hy⟩, hagree⟩ := (hequal x y).mp h
    exact (hequal y x).mpr ⟨⟨hy, hx⟩, hagree.imp Eq.symm And.symm⟩
  equal_trans := by
    intro x y z hxy hyz
    obtain ⟨⟨hx, -⟩, hagree⟩ := (hequal x y).mp hxy
    obtain ⟨⟨-, hz⟩, hagree'⟩ := (hequal y z).mp hyz
    refine (hequal x z).mpr ⟨⟨hx, hz⟩, ?_⟩
    rcases hagree with rfl | ⟨hzx, hzy⟩
    · exact hagree'
    · rcases hagree' with rfl | ⟨-, hzz⟩
      · exact .inr ⟨hzx, hzy⟩
      · exact .inr ⟨hzx, hzz⟩
  equal_zero := (hequal 0 0).mpr ⟨⟨hzero, hzero⟩, .inl rfl⟩

theorem Binary64.bits_inj {x y : Binary64} : x.bits = y.bits ↔ x = y := by
  cases x
  cases y
  simp

theorem Binary32.bits_inj {x y : Binary32} : x.bits = y.bits ↔ x = y := by
  cases x
  cases y
  simp

/-- Numeric equality of doubles. -/
theorem Binary64.equal_eq_true_iff (x y : Binary64) : x.equal y = true ↔
    (x.isNaN = false ∧ y.isNaN = false) ∧ (x = y ∨ x.isZero = true ∧ y.isZero = true) := by
  rw [Binary64.equal, Bool.and_eq_true, Bool.and_eq_true, Bool.not_eq_true', Bool.not_eq_true',
    Bool.or_eq_true, Bool.and_eq_true, beq_iff_eq, Binary64.bits_inj]

/-- Numeric equality of single precision numbers. -/
theorem Binary32.equal_eq_true_iff (x y : Binary32) : x.equal y = true ↔
    (x.isNaN = false ∧ y.isNaN = false) ∧ (x = y ∨ x.isZero = true ∧ y.isZero = true) := by
  rw [Binary32.equal, Bool.and_eq_true, Bool.and_eq_true, Bool.not_eq_true', Bool.not_eq_true',
    Bool.or_eq_true, Bool.and_eq_true, beq_iff_eq, Binary32.bits_inj]

instance : LawfulElement Binary64 :=
  .of_agree Binary64.isNaN Binary64.isZero Binary64.equal_eq_true_iff (by decide)

instance : LawfulElement Binary32 :=
  .of_agree Binary32.isNaN Binary32.isZero Binary32.equal_eq_true_iff (by decide)

instance : LawfulElement Int32 := .of_eq fun _ _ => beq_iff_eq

instance : LawfulElement Int64 := .of_eq fun _ _ => beq_iff_eq

/-- Zero is reported as zero. -/
class ReportsZero (α : Type) [Element α] : Prop where
  toBinary64_zero : Element.toBinary64 (0 : α) = 0

instance : ReportsZero Binary64 := ⟨rfl⟩

instance : ReportsZero Binary32 := ⟨by decide⟩

instance : ReportsZero Int32 := ⟨by decide⟩

instance : ReportsZero Int64 := ⟨by decide⟩

/-! ## Reproducing a value -/

namespace Element

variable {α : Type} [Element α] {x y : α}

theorem sameValue_eq_true_iff :
    sameValue x y = true ↔ equal x y = true ∨ equal x x = false ∧ equal y y = false := by
  simp [sameValue]

/-- Every value reproduces itself, a NaN included. -/
theorem sameValue_refl (x : α) : sameValue x x = true := by
  rw [sameValue_eq_true_iff]
  cases equal x x
  · exact .inr ⟨rfl, rfl⟩
  · exact .inl rfl

theorem sameValue_of_isZero (h : isZero x = true) : sameValue x 0 = true :=
  sameValue_eq_true_iff.mpr (.inl h)

variable [LawfulElement α]

/-- Reproducing is symmetric. -/
theorem sameValue_symm (h : sameValue x y = true) : sameValue y x = true := by
  rw [sameValue_eq_true_iff] at h ⊢
  exact h.imp LawfulElement.equal_symm And.symm

/-- Reproducing is transitive. -/
theorem sameValue_trans {z : α} (hxy : sameValue x y = true) (hyz : sameValue y z = true) :
    sameValue x z = true := by
  rw [sameValue_eq_true_iff] at hxy hyz ⊢
  rcases hxy with hxy | ⟨hx, hy⟩
  · rcases hyz with hyz | ⟨hy, -⟩
    · exact .inl (LawfulElement.equal_trans hxy hyz)
    · -- a value that equals another one equals itself
      rw [LawfulElement.equal_trans (LawfulElement.equal_symm hxy) hxy] at hy
      cases hy
  · rcases hyz with hyz | ⟨-, hz⟩
    · rw [LawfulElement.equal_trans hyz (LawfulElement.equal_symm hyz)] at hy
      cases hy
    · exact .inr ⟨hx, hz⟩

/-- Zero reproduces exactly the values that are zero. -/
theorem sameValue_zero : sameValue x 0 = isZero x := by
  rw [Bool.eq_iff_iff, sameValue_eq_true_iff]
  constructor
  · rintro (h | ⟨-, h⟩)
    · exact h
    · rw [LawfulElement.equal_zero] at h
      cases h
  · exact .inl

/-- A value that is zero is equal to itself. -/
theorem equal_self_of_isZero (h : isZero x = true) : equal x x = true :=
  LawfulElement.equal_trans h (LawfulElement.equal_symm h)

/-- Only a zero reproduces a zero. -/
theorem isZero_eq_of_sameValue (h : sameValue x y = true) : isZero x = isZero y := by
  rw [Bool.eq_iff_iff]
  rcases sameValue_eq_true_iff.mp h with h | ⟨hx, hy⟩
  · exact ⟨LawfulElement.equal_trans (LawfulElement.equal_symm h), LawfulElement.equal_trans h⟩
  · -- a value that differs from itself is not zero
    constructor <;> intro hzero
    · rw [equal_self_of_isZero hzero] at hx
      cases hx
    · rw [equal_self_of_isZero hzero] at hy
      cases hy

end Element

end SparseDatasets
