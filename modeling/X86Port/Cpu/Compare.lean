import X86Port.Cpu.SameFlags

/-!
# What an operation leaves for the conditions

A tuple that the ALU records has the result that its kind says, so that the conditions behind a
CMP are the comparisons of its operands.

* `consistent_shape`: the recorded tuples are consistent.
* `conditions_compare`: the sixteen conditions, on any flags and behind a CMP.
-/

namespace X86Port.Cpu

theorem operand_and_widthMask (v : U32) (w : Width) : operand w (v &&& widthMask w) = operand w v := by
  rw [and_widthMask_eq, operand_setWidth]

theorem consistent_shape {op : AluOp} {combine : U32 → U32 → U32} {kind : FlagKind}
    (h : aluShape op = some (combine, kind)) (a b : U32) (w : Width) (c : U8) :
    Consistent ⟨a, b, combine a b &&& widthMask w, kind, w, c⟩ := by
  unfold Consistent
  cases op <;> cases h <;> dsimp only
  case add => rw [operand_and_widthMask, operand_add]
  case sub | cmp => rw [operand_and_widthMask, operand_sub]

/-- The flags of a CMP, from any flags before it. -/
theorem alu_cmp (a b : U32) (w : Width) (f : Flags) :
    ∃ r f', alu .cmp a b w f = some (r, f') ∧ f'.kind = .sub ∧ f'.w = w ∧
      operand w f'.a = operand w a ∧ operand w f'.b = operand w b ∧ Consistent f' := by
  refine ⟨_, _, alu_of_shape rfl a b w f, rfl, rfl, operand_and_widthMask a w,
    operand_and_widthMask b w, @consistent_shape .cmp _ _ rfl _ _ w _⟩

/-- A condition on recorded flags is the condition on their EFLAGS word, and behind a CMP it is
the comparison that it is named after. -/
theorem conditions_compare :
    (∀ (cc : Cond) (f : Flags), cond cc f = condEflags cc (eflags f)) ∧
    ∀ (a b : U32) (w : Width) (f : Flags), ∃ r f', alu .cmp a b w f = some (r, f') ∧
      (cond .b f' = decide (operand w a < operand w b) ∧
        cond .nb f' = decide (operand w b ≤ operand w a) ∧
        cond .be f' = decide (operand w a ≤ operand w b) ∧
        cond .a f' = decide (operand w b < operand w a)) ∧
      (cond .l f' = decide ((operand w a).toInt < (operand w b).toInt) ∧
        cond .ge f' = decide ((operand w b).toInt ≤ (operand w a).toInt) ∧
        cond .le f' = decide ((operand w a).toInt ≤ (operand w b).toInt) ∧
        cond .g f' = decide ((operand w b).toInt < (operand w a).toInt)) ∧
      cond .z f' = decide (operand w a = operand w b) ∧
      cond .nz f' = decide (operand w a ≠ operand w b) := by
  refine ⟨cond_eq, fun a b w f => ?_⟩
  obtain ⟨r, f', halu, hkind, rfl, ha, hb, hconsistent⟩ := alu_cmp a b w f
  have hunsigned := unsigned_sub hkind hconsistent
  have hsigned := signed_sub hkind hconsistent
  obtain ⟨-, hzf, -⟩ := flags_sub hkind hconsistent
  rw [ha, hb] at hunsigned hsigned hzf
  simp only [cond_derived]
  refine ⟨r, f', halu, hunsigned, hsigned, hzf, ?_⟩
  rw [condOf, condFlags, hzf, ← decide_not]

/-- Minus one is above one and less than it. -/
example : (alu .cmp 0xFF 1 .byte ⟨0, 0, 0, .none, .dword, 0⟩).map
    (fun p => (cond .a p.2, cond .l p.2)) = some (true, true) := by decide

end X86Port.Cpu
