import SatWalk.Formula.Json
import SatWalk.Proofs.Formula.Truth
import SatWalk.Proofs.Json.Record

/-! Saved assignments and formulas. An assignment is read back from its text. A formula is validated
when it is read, so its text gives the formula again if it is valid, and the first fault of the
formula otherwise. -/

namespace SatWalk

open Json

/-! ### Assignments -/

/-- The reader of one value. -/
def readBit (depth : ℕ) : Reader Bool := fun cs => do
  let (v, cs) ← readValue depth cs
  return (← located (bitOf v), cs)

theorem readValue_bit (depth : ℕ) (b : Bool) {spaces rest : List Char}
    (hspaces : ∀ c ∈ spaces, isSpace c = true) (hrest : Delimits rest) :
    readValue depth (spaces ++ ((if b then '1' else '0') :: rest)) =
      .ok (.ofInt (if b then 1 else 0), rest) := by
  have hskip : skipSpace (spaces ++ ((if b then '1' else '0') :: rest)) =
      (if b then '1' else '0') :: rest := by
    rw [skipSpace_append hspaces, skipSpace_of_ne]
    rintro _ ⟨⟩
    cases b <;> rfl
  have hnumber : readNumber ((if b then '1' else '0') :: rest) =
      .ok (.whole (if b then 1 else 0), rest) := by
    cases b
    · have hzero : readNumber ['0'] = .ok (.whole 0, []) := rfl
      exact steady_readNumber hzero hrest
    · have hone : readNumber ['1'] = .ok (.whole 1, []) := rfl
      exact steady_readNumber hone hrest
  cases depth
  all_goals
    rw [readValue, readValueWith, hskip]
    cases b <;> exact Checked.bind_eq_ok_iff.2 ⟨_, hnumber, rfl⟩

theorem takes_bit (depth : ℕ) (b : Bool) :
    Takes (readBit depth) (.ofInt (if b then 1 else 0)) b := by
  intro s level spaces rest _ hspaces hrest
  have htext : (Value.ofInt (if b then 1 else 0)).write s level ++ rest =
      (if b then '1' else '0') :: rest := by
    cases b <;> rfl
  rw [htext]
  refine Checked.bind_eq_ok_iff.2 ⟨_, readValue_bit depth b hspaces hrest, ?_⟩
  cases b <;> rfl

theorem restores_bits (bits : List Bool) : bitsCodec.Restores 1 bits := by
  intro depth hdepth
  cases depth with
  | zero => contradiction
  | succ depth =>
    change Takes _ (Value.array (bits.map fun b => .ofInt (if b then 1 else 0))).sorted bits
    rw [sorted_array_map]
    have hitem : ∀ b ∈ bits, Takes (readBit depth) (Value.ofInt (if b then 1 else 0)).sorted b :=
      fun b _ => takes_bit depth b
    refine takes_array ?_ hitem
    intro cs body hcs
    simp only [bitsCodec]
    rw [hcs]
    rfl

theorem Assignment.restores (a : Assignment) : codec.Restores 2 a :=
  restores_record (by decide) ⟨restores_bits _, trivial⟩ rfl

/-- What is saved of an assignment is read back as it. -/
theorem Assignment.parse_write (a : Assignment) : codec.parse (codec.write a) = .ok a :=
  Json.parse_write a.restores (by decide)

/-! ### Formulas -/

namespace Formula

theorem restores_raw {f : Formula} (h : f.FitsWords) : rawCodec.Restores 3 f := by
  have hclauses : (Codec.list (.list .literal)).Restores 2 f.clauses.toList :=
    restores_list fun c hc => restores_list fun l hl =>
      restores_literal (h.literals c (Array.mem_toList_iff.1 hc) l hl)
  exact restores_record (by decide)
    ⟨restores_count _ h.numVariables_lt, hclauses, trivial⟩ rfl

/-- What is written of a formula is read back as it if it is valid. -/
theorem parse_write_of_valid {f : Formula} (h : f.FitsWords) (hf : f.validate = .ok ()) :
    codec.parse (codec.write f) = .ok f := by
  refine Json.parse_write (restores_refine (restores_raw h) ?_) (by decide)
  rw [id, hf]

/-- What is written of a formula that is not valid is refused for its first fault. -/
theorem parse_write_of_invalid {f : Formula} (h : f.FitsWords) {e : Error}
    (hf : f.validate = .error e) :
    codec.parse (codec.write f) = .error (.mismatch (.refused e.message)) := by
  refine parse_write_refused (restores_raw h) (by decide) ?_
  rw [id, hf]

end Formula

end SatWalk
