/-!
Single-precision numbers, kept as their bit patterns so that equality is equality of bits. Arithmetic is that
of IEEE 754, one rounding per operation.
-/

namespace CodeIndex.Number

structure Single where
  bits : UInt32
  deriving DecidableEq, Repr

namespace Single

def value (x : Single) : Float32 := .ofBits x.bits

def ofValue (f : Float32) : Single := ⟨f.toBits⟩

/-- The nearest single to a double. -/
def ofFloat (f : Float) : Single := ofValue f.toFloat32

def ofNat (n : Nat) : Single := ofValue (.ofNat n)

def zero : Single := ⟨0⟩
def one : Single := ⟨0x3f800000⟩
def half : Single := ⟨0x3f000000⟩

instance : Inhabited Single := ⟨zero⟩
instance : Add Single := ⟨fun x y => ofValue (x.value + y.value)⟩
instance : Sub Single := ⟨fun x y => ofValue (x.value - y.value)⟩
instance : Mul Single := ⟨fun x y => ofValue (x.value * y.value)⟩
instance : Div Single := ⟨fun x y => ofValue (x.value / y.value)⟩

def neg (x : Single) : Single := ⟨x.bits ^^^ 0x80000000⟩

def sqrt (x : Single) : Single := ofValue x.value.sqrt

/-- The comparisons of IEEE 754: both zeros are equal, and nothing compares with a NaN. -/
def lt (x y : Single) : Bool := decide (x.value < y.value)

def le (x y : Single) : Bool := decide (x.value ≤ y.value)

def isNaN (x : Single) : Bool := (x.bits &&& 0x7fffffff) > 0x7f800000

def isFinite (x : Single) : Bool := (x.bits &&& 0x7f800000) != 0x7f800000

/-- The smaller of two numbers; of a number and a NaN the number. -/
def min (x y : Single) : Single := if x.isNaN then y else if y.lt x then y else x

/-- The larger of two numbers; of a number and a NaN the number. -/
def max (x y : Single) : Single := if x.isNaN then y else if x.lt y then y else x

/-- Places every bit pattern on a line: negative before positive, -0 before +0, NaNs at the ends. -/
def rank (x : Single) : Int :=
  if x.bits < 0x80000000 then (x.bits.toNat : Int) else 0x7fffffff - (x.bits.toNat : Int)

/-- The total order of IEEE 754. -/
def totalLe (x y : Single) : Bool := decide (x.rank ≤ y.rank)

theorem totalLe_total (x y : Single) : totalLe x y || totalLe y x := by
  simp only [totalLe, Bool.or_eq_true, decide_eq_true_eq]
  omega

theorem totalLe_trans {x y z : Single} (h : totalLe x y) (k : totalLe y z) : totalLe x z := by
  simp only [totalLe, decide_eq_true_eq] at *
  omega

/-- Every bit pattern has its own place on the line. -/
theorem totalLe_antisymm {x y : Single} (h : totalLe x y) (k : totalLe y x) : x = y := by
  have hrank : x.rank = y.rank := by
    simp only [totalLe, decide_eq_true_eq] at h k
    omega
  have hx := x.bits.toNat_lt
  have hy := y.bits.toNat_lt
  have hbits : x.bits.toNat = y.bits.toNat := by
    simp only [rank, UInt32.lt_iff_toNat_lt] at hrank
    have hhalf : (0x80000000 : UInt32).toNat = 0x80000000 := rfl
    rw [hhalf] at hrank
    split at hrank <;> split at hrank <;> omega
  cases x
  cases y
  exact congrArg mk (UInt32.toNat_inj.1 hbits)

end Single

end CodeIndex.Number
