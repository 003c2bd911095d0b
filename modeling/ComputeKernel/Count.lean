import ComputeKernel.Failure

/-!
# Counting in words

Sizes are counted in words of 32 or 64 bits. A product that outgrows its word is either told to the
caller (`product?`), or it stops the program (`counted`). Where it does neither, it is the product.
-/

namespace ComputeKernel

/-- How many values the word has in which a number is counted. -/
def Count.limit : Count → Nat
  | pixels | invocations => UInt64.size
  | row | region | pitch => UInt32.size

/-- A number, if its word can hold it. Otherwise the program stops. -/
def counted (c : Count) (n : Nat) : Except Failure Nat :=
  if n < c.limit then .ok n else .error (.overflow c)

/-- The invocations of a workgroup. -/
def Layout.invocations (l : Layout) : Except Failure Nat :=
  counted .invocations l.workgroupSize.count

/-- A product, if 64 bits can hold it. -/
def product? (a b : Nat) : Option Nat := if a * b < UInt64.size then some (a * b) else none

/-- Goes on with a result, or fails as it did. -/
def orFail {σ α : Type} : Except Failure α → EStateM Failure σ α
  | .ok a => pure a
  | .error f => throw f

section Counted

variable {c : Count} {n m : Nat} {f : Failure}

theorem counted_of_lt (h : n < c.limit) : counted c n = .ok n := if_pos h

theorem counted_of_le (h : c.limit ≤ n) : counted c n = .error (.overflow c) :=
  if_neg (Nat.not_lt.2 h)

/-- What was counted is the number itself. -/
theorem counted_eq_ok_iff : counted c n = .ok m ↔ n < c.limit ∧ m = n := by
  unfold counted
  split <;> simp [*, eq_comm]

theorem counted_eq_error_iff : counted c n = .error f ↔ c.limit ≤ n ∧ f = .overflow c := by
  unfold counted
  split
  · simp
    omega
  · simp [eq_comm]
    omega

end Counted

end ComputeKernel
