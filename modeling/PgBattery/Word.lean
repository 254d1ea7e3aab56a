import Mathlib

/-! Fixed-width unsigned words, with the saturating addition of the machine integers. -/
namespace PgBattery

abbrev U8 := Fin 256
abbrev U16 := Fin 65536
abbrev U32 := Fin 4294967296
abbrev U64 := Fin 18446744073709551616

instance neZero_u8 : NeZero 256 := ⟨by decide⟩
instance neZero_u16 : NeZero 65536 := ⟨by decide⟩
instance neZero_u32 : NeZero 4294967296 := ⟨by decide⟩
instance neZero_u64 : NeZero 18446744073709551616 := ⟨by decide⟩
instance transOrd_u64 : Std.TransOrd U64 := inferInstance
instance lawfulBEq_u64 : LawfulBEq U64 := inferInstance
instance lawfulEqOrd_u64 : Std.LawfulEqOrd U64 := inferInstance
instance isTrans_u64 : IsTrans U64 (· ≤ ·) := inferInstance
instance antisymm_u64 : Std.Antisymm (α := U64) (· ≤ ·) := inferInstance
instance total_u64 : Std.Total (α := U64) (· ≤ ·) := inferInstance
instance lawfulBEq_text : LawfulBEq (List Char) := inferInstance

namespace U32

def saturatingAdd (a b : U32) : U32 := ⟨min (a.val+b.val) 4294967295,by omega⟩

def saturatingMul (a b : U32) : U32 := ⟨min (a.val*b.val) 4294967295,by omega⟩

end U32

namespace U64

def max : U64 := Fin.last 18446744073709551615

def saturatingAdd (a b : U64) : U64 := ⟨min (a.val+b.val) 18446744073709551615,by omega⟩

def saturatingMul (a b : U64) : U64 := ⟨min (a.val*b.val) 18446744073709551615,by omega⟩

@[simp] theorem val_max : U64.max.val = 18446744073709551615 := rfl

@[simp] theorem val_saturatingAdd (a b : U64) :
    (saturatingAdd a b).val = min (a.val+b.val) 18446744073709551615 := rfl

theorem val_one : (1 : U64).val = 1 := rfl

theorem le_max (a : U64) : a ≤ U64.max := Fin.le_last a

theorem le_saturatingAdd (a b : U64) : a ≤ saturatingAdd a b := by
  have h := a.isLt
  rw [Fin.le_def,val_saturatingAdd]
  omega

theorem lt_saturatingAdd_one {a : U64} (h : a ≠ U64.max) : a < saturatingAdd a 1 := by
  have hv : a.val ≠ 18446744073709551615 := fun hv => h (Fin.ext hv)
  have hl := a.isLt
  rw [Fin.lt_def,val_saturatingAdd]
  rw [val_one]
  omega

/-- Below the greatest word a saturating successor bounds exactly the inclusive range. -/
theorem lt_saturatingAdd_one_iff {a b : U64} (h : a ≠ U64.max) :
    a < saturatingAdd b 1 ↔ a ≤ b := by
  have hv : a.val ≠ 18446744073709551615 := fun hv => h (Fin.ext hv)
  have ha := a.isLt
  have hb := b.isLt
  rw [Fin.lt_def,Fin.le_def,val_saturatingAdd]
  rw [val_one]
  omega

theorem saturatingAdd_one_le_iff {a b : U64} (h : b ≠ U64.max) :
    saturatingAdd a 1 ≤ b ↔ a < b := by
  rw [← not_lt,lt_saturatingAdd_one_iff h,not_le]

end U64
end PgBattery
