import Mathlib.Algebra.Group.Nat.Defs
import FilterTree.Yaml.Cursor
import FilterTree.Text.Quoted

/-! Hexadecimal numbers of a fixed width, and reading them, in letters of either case. -/

namespace FilterTree.Yaml

def hexValue (ds : List Nat) : Nat :=
  ds.foldl (fun k d => 16 * k + d) 0

theorem hexValue_append (ds : List Nat) (d : Nat) : hexValue (ds ++ [d]) = 16 * hexValue ds + d :=
  List.foldl_append

theorem hexValue_zeros (n : Nat) (ds : List Nat) :
    hexValue (List.replicate n 0 ++ ds) = hexValue ds := by
  induction n with
  | zero => rfl
  | succ n ih => exact ih

section
variable {f : Char → Char} (hf : ∀ d < 16, hexDigit? (f (Nat.digitChar d)) = some d)
include hf

theorem mapM_hexDigit?_toDigits (n : Nat) :
    ∃ ds, ((Nat.toDigits 16 n).map f).mapM hexDigit? = some ds ∧ hexValue ds = n := by
  induction n using Nat.strongRecOn with
  | ind n ih =>
    by_cases hn : n < 16
    · refine ⟨[n], ?_, by simp [hexValue]⟩
      rw [Nat.toDigits_of_lt_base hn]
      simp [hf n hn]
    · have hbase : 16 ≤ n := Nat.not_lt.mp hn
      obtain ⟨ds, hds, hvalue⟩ := ih (n / 16) (by omega)
      have hlast := hf (n % 16) (Nat.mod_lt n (by decide))
      refine ⟨ds ++ [n % 16], ?_, ?_⟩
      · rw [Nat.toDigits_of_base_le (by decide) hbase, List.map_append, List.mapM_append, hds]
        simp [hlast]
      · rw [hexValue_append, hvalue]
        omega

theorem mapM_hexDigit?_zeros (n : Nat) :
    (List.replicate n (f '0')).mapM hexDigit? = some (List.replicate n 0) := by
  induction n with
  | zero => rfl
  | succ n ih =>
    have hzero : hexDigit? (f '0') = some 0 := hf 0 (by decide)
    rw [List.replicate_succ, List.mapM_cons, ih, hzero]
    rfl

theorem hexNumber?_map_hexText {width n : Nat} (hwidth : 0 < width) (hn : n < 16 ^ width) :
    ((hexText width n).toList.map f).length = width ∧
      hexNumber? width ((hexText width n).toList.map f) = some n := by
  obtain ⟨ds, hds, hvalue⟩ := mapM_hexDigit?_toDigits hf n
  have hlong : (Nat.toDigits 16 n).length ≤ width :=
    (Nat.length_toDigits_le_iff (by decide) hwidth).mpr hn
  have htext : (hexText width n).toList.map f =
      List.replicate (width - (Nat.toDigits 16 n).length) (f '0') ++ (Nat.toDigits 16 n).map f := by
    rw [hexText, String.toList_ofList, List.map_append, List.map_replicate]
  have hlength : ((hexText width n).toList.map f).length = width := by
    rw [htext, List.length_append, List.length_replicate, List.length_map]
    omega
  refine ⟨hlength, ?_⟩
  unfold hexNumber?
  rw [List.take_of_length_le (Nat.le_of_eq hlength), if_pos hlength, htext, List.mapM_append, hds,
    mapM_hexDigit?_zeros hf]
  exact congrArg some ((hexValue_zeros _ ds).trans hvalue)

end

theorem hexDigit?_digitChar : ∀ d < 16, hexDigit? (Nat.digitChar d) = some d := by
  decide

theorem hexDigit?_toUpper_digitChar : ∀ d < 16, hexDigit? (Nat.digitChar d).toUpper = some d := by
  decide

theorem hexNumber?_append {width : Nat} {ds : List Char} (h : ds.length = width)
    (rest : List Char) : hexNumber? width (ds ++ rest) = hexNumber? width ds := by
  unfold hexNumber?
  rw [List.take_left' h, List.take_of_length_le (Nat.le_of_eq h)]

end FilterTree.Yaml
