/-! Computations that may leave the range their data allows. A fault is a value:
nothing after it is computed, and what caused it is kept apart by constructor.
Look-ups in arrays are the commonest cause, so they have checked forms here. -/

namespace SatWalk

inductive Fault
  | indexOutOfRange
  | arithmeticOverflow
  | capacityExceeded
  | drawsExhausted
  | badProbability
  deriving DecidableEq, Repr, Inhabited

abbrev Checked := Except Fault

/-- A computation that may refuse for a reason `ε`, or leave its range. -/
abbrev Attempt (ε : Type) := ExceptT ε Checked

/-- The most bytes one block of memory may take. -/
def memoryLimit : Nat := 0x7fffffffffffffff

/-- Room for `count` items of `size` bytes each. -/
def reserve (count size : Nat) : Checked Unit :=
  if count * size ≤ memoryLimit then .ok () else .error .capacityExceeded

def fetch {α : Type} (xs : Array α) (i : Nat) : Checked α :=
  match xs[i]? with
  | some x => .ok x
  | none => .error .indexOutOfRange

def store {α : Type} (xs : Array α) (i : Nat) (x : α) : Checked (Array α) :=
  if h : i < xs.size then .ok (xs.set i x h) else .error .indexOutOfRange

/-- The next number, which must stay below a bound. -/
def increment (bound n : Nat) : Checked Nat :=
  if n + 1 < bound then .ok (n + 1) else .error .arithmeticOverflow

/-- Applies a function to one entry. -/
def adjust {α : Type} (xs : Array α) (i : Nat) (f : α → α) : Checked (Array α) :=
  if i < xs.size then .ok (xs.modify i f) else .error .indexOutOfRange

@[simp] theorem fetch_eq_ok_iff {α : Type} {xs : Array α} {i : Nat} {x : α} :
    fetch xs i = .ok x ↔ xs[i]? = some x := by
  unfold fetch; split <;> simp_all

theorem store_of_lt {α : Type} {xs : Array α} {i : Nat} (h : i < xs.size) (x : α) :
    store xs i x = .ok (xs.set i x h) := by
  simp [store, h]

theorem adjust_of_lt {α : Type} {xs : Array α} {i : Nat} (h : i < xs.size) (f : α → α) :
    adjust xs i f = .ok (xs.modify i f) := by
  simp [adjust, h]

theorem increment_of_lt {bound n : Nat} (h : n + 1 < bound) : increment bound n = .ok (n + 1) := by
  simp [increment, h]

theorem reserve_of_le {count size : Nat} (h : count * size ≤ memoryLimit) :
    reserve count size = .ok () := by
  simp [reserve, h]

theorem reserve_of_lt {count size : Nat} (h : memoryLimit < count * size) :
    reserve count size = .error .capacityExceeded := by
  simp [reserve, Nat.not_le.2 h]

/-! ### Sequencing -/

namespace Checked

variable {ε α β : Type}

@[simp] theorem ok_bind (x : α) (f : α → Except ε β) : (Except.ok x >>= f) = f x := rfl

@[simp] theorem error_bind (e : ε) (f : α → Except ε β) :
    (Except.error e >>= f) = .error e := rfl

@[simp] theorem pure_eq_ok (x : α) : (pure x : Except ε α) = .ok x := rfl

@[simp] theorem throw_eq_error (e : ε) : (throw e : Except ε α) = .error e := rfl

/-- What a sequence gave comes from what its first part gave. -/
theorem bind_eq_ok_iff {x : Except ε α} {f : α → Except ε β} {y : β} :
    (x >>= f) = .ok y ↔ ∃ a, x = .ok a ∧ f a = .ok y := by
  cases x <;> simp

theorem map_eq_ok_iff {x : Except ε α} {f : α → β} {y : β} :
    x.map f = .ok y ↔ ∃ a, x = .ok a ∧ f a = y := by
  cases x <;> simp [Except.map]

theorem bind_eq_error_iff {x : Except ε α} {f : α → Except ε β} {e : ε} :
    (x >>= f) = .error e ↔ x = .error e ∨ ∃ a, x = .ok a ∧ f a = .error e := by
  cases x <;> simp

end Checked

end SatWalk
