import FilterTree.Proofs.Json.RoundTrip
import FilterTree.Proofs.Outcome
import FilterTree.Proofs.Value.Stored
import FilterTree.Proofs.Yaml.Numeric

/-! Halves of characters in JSON text. They are written as they are, and nothing else that is written
has any. -/

namespace FilterTree

/-- No half of a character is among the characters. -/
def IsWhole (cs : List Char) : Prop :=
  loneHalf ∉ cs

instance (cs : List Char) : Decidable (IsWhole cs) :=
  inferInstanceAs (Decidable (loneHalf ∉ cs))

abbrev IsWholeText (s : String) : Prop :=
  IsWhole s.toList

theorem isWhole_cons {c : Char} {cs : List Char} : IsWhole (c :: cs) ↔ loneHalf ≠ c ∧ IsWhole cs := by
  simp [IsWhole]

theorem isWhole_append {v w : List Char} : IsWhole (v ++ w) ↔ IsWhole v ∧ IsWhole w := by
  simp [IsWhole]

namespace Value

mutual

/-- Whether the texts that are keys of mappings in a value are of one kind, and the others of another. -/
def AllTexts (K : String → Prop) : (String → Prop) → Value → Prop
  | P, .text s => P s
  | P, .list xs => ItemsAllTexts K P xs
  | P, .map es => EntriesAllTexts K P es
  | _, _ => True

def ItemsAllTexts (K : String → Prop) : (String → Prop) → List Value → Prop
  | _, [] => True
  | P, x :: xs => AllTexts K P x ∧ ItemsAllTexts K P xs

def EntriesAllTexts (K : String → Prop) : (String → Prop) → List (Value × Value) → Prop
  | _, [] => True
  | P, (k, v) :: es => AllTexts K K k ∧ AllTexts K P v ∧ EntriesAllTexts K P es

end

section
variable {K : String → Prop} [DecidablePred K]

mutual

def decideAllTexts : ∀ (P : String → Prop) [DecidablePred P] (v : Value), Decidable (v.AllTexts K P)
  | P, _, .text s => inferInstanceAs (Decidable (P s))
  | P, _, .list xs => decideItemsAllTexts P xs
  | P, _, .map es => decideEntriesAllTexts P es
  | _, _, .null | _, _, .bool _ | _, _, .int _ | _, _, .float _ | _, _, .nan _ | _, _, .operator _
  | _, _, .join _ | _, _, .bytes _ | _, _, .buffer _ | _, _, .date _ _ | _, _, .moment _ _
  | _, _, .tuple _ | _, _, .set _ | _, _, .frozenset _ | _, _, .loop _ | _, _, .foreign _ _ =>
    .isTrue trivial

def decideItemsAllTexts : ∀ (P : String → Prop) [DecidablePred P] (xs : List Value),
    Decidable (ItemsAllTexts K P xs)
  | _, _, [] => .isTrue trivial
  | P, _, x :: xs =>
    haveI := decideAllTexts P x
    haveI := decideItemsAllTexts P xs
    inferInstanceAs (Decidable (_ ∧ _))

def decideEntriesAllTexts : ∀ (P : String → Prop) [DecidablePred P] (es : List (Value × Value)),
    Decidable (EntriesAllTexts K P es)
  | _, _, [] => .isTrue trivial
  | P, _, (k, v) :: es =>
    haveI := decideAllTexts K k
    haveI := decideAllTexts P v
    haveI := decideEntriesAllTexts P es
    inferInstanceAs (Decidable (_ ∧ _ ∧ _))

end

instance (P : String → Prop) [DecidablePred P] (v : Value) : Decidable (v.AllTexts K P) :=
  decideAllTexts P v

end

end Value

theorem Decimal.isWhole_spelled (d : Decimal) (negative : Bool) : IsWhole (d.spelled negative) :=
  fun h => absurd (d.isPart_of_mem_spelled negative h) (by decide)

namespace Json

theorem isWhole_toString (n : Int) : IsWholeText (toString n) := by
  rw [IsWholeText, toList_toString]
  exact Decimal.isWhole_spelled _ _

theorem isWhole_writeDouble {x : Double} (hx : x.IsCanonical) : IsWholeText (writeDouble x) := by
  cases x with
  | infinite negative =>
    have hnames : loneHalf ∉ "Infinity".toList ∧ loneHalf ∉ "-Infinity".toList := by decide
    cases negative with
    | true => exact hnames.2
    | false => exact hnames.1
  | finite negative m e =>
    obtain ⟨d, hd, -⟩ := Double.exists_text hx
    have htext : (writeDouble (.finite negative m e)).toList = d.spelled negative := hd
    rw [IsWholeText, htext]
    exact d.isWhole_spelled negative

theorem isWhole_writeString {s : String} (hs : IsWholeText s) : IsWholeText (writeString s) := by
  have hcontrol : ∀ n < 0x20, loneHalf ∉ (hexText 4 n).toList := by decide +kernel
  have hescape (c : Char) (hc : c ≠ loneHalf) : loneHalf ∉ escapeChar c := by
    unfold escapeChar
    split_ifs with _ _ _ _ _ _ _ h
    iterate 7
      · decide
    · exact isWhole_cons.mpr ⟨by decide, isWhole_cons.mpr ⟨by decide, hcontrol _ h⟩⟩
    · exact fun hmem => hc (List.mem_singleton.mp hmem).symm
  rw [IsWholeText, toList_writeString]
  intro hmem
  rcases List.mem_cons.mp hmem with h | hmem
  · exact absurd h (by decide)
  · rcases List.mem_append.mp hmem with hmem | hmem
    · obtain ⟨c, hc, hmem⟩ := List.mem_flatMap.mp hmem
      exact hescape c (fun h => hs (h ▸ hc)) hmem
    · exact absurd (List.mem_singleton.mp hmem) (by decide)

theorem isWhole_intercalate {ts : List String} (h : ∀ t ∈ ts, IsWholeText t) :
    IsWholeText (",".intercalate ts) := by
  induction ts with
  | nil => exact nofun
  | cons t ts ih =>
    have ht := h t List.mem_cons_self
    have hts := fun u hu => h u (List.mem_cons_of_mem t hu)
    cases ts with
    | nil => simpa using ht
    | cons u ts =>
      rw [IsWholeText, toList_intercalate_cons]
      exact isWhole_append.mpr ⟨ht, isWhole_cons.mpr ⟨by decide, ih hts⟩⟩

theorem isWhole_enclosed {left right : String} (hleft : IsWholeText left) (hright : IsWholeText right)
    {ts : List String} (h : ∀ t ∈ ts, IsWholeText t) :
    IsWholeText (left ++ ",".intercalate ts ++ right) := by
  rw [IsWholeText, String.toList_append, String.toList_append]
  exact isWhole_append.mpr ⟨isWhole_append.mpr ⟨hleft, isWhole_intercalate h⟩, hright⟩

theorem isWhole_writeInt {n : Int} {t : String} (h : writeInt n = .ok t) : IsWholeText t := by
  unfold writeInt at h
  -- the condition is generalized, or else the power of ten that is the limit would be computed
  generalize (Value.int n).isLegible = b at h
  cases b with
  | true =>
    cases h
    exact isWhole_toString n
  | false => cases h

theorem isWhole_keyText {k : Value} {t : String} (hk : k.IsAtom)
    (hw : k.AllTexts IsWholeText IsWholeText) (h : keyText k = .ok t) : IsWholeText t := by
  cases k with
  | text s =>
    cases h
    exact hw
  | int n => exact isWhole_writeInt h
  | float x =>
    cases h
    exact isWhole_writeDouble hk
  | bool b =>
    cases h
    cases b <;> decide
  | null | nan =>
    cases h
    decide
  | bytes | date | moment => cases h
  | operator | join | buffer | list | tuple | set | frozenset | map | loop | foreign =>
    exact absurd hk id

mutual

/-- What is written of whole data is whole. -/
theorem isWhole_write : ∀ (v : Value) {t : String}, v.IsStored → v.AllTexts IsWholeText IsWholeText →
    write v = .ok t → IsWholeText t
  | .text s, _, _, hs => fun h => by
    cases h
    exact isWhole_writeString hs
  | .int n, _, _, _ => fun h => isWhole_writeInt h
  | .float x, _, hx, _ => fun h => by
    cases h
    exact isWhole_writeDouble hx
  | .bool b, _, _, _ => fun h => by
    cases h
    cases b <;> decide
  | .null, _, _, _ => fun h => by
    cases h
    decide
  | .nan _, _, _, _ => fun h => by
    cases h
    decide
  | .list xs, _, hv, hw => fun h => by
    rw [write] at h
    obtain ⟨ts, hts, h⟩ := except_bind_eq_ok_iff.mp h
    cases h
    exact isWhole_enclosed (by decide) (by decide) (areWhole_writeAll xs hv hw hts)
  | .map es, _, hv, hw => fun h => by
    rw [write] at h
    obtain ⟨ts, hts, h⟩ := except_bind_eq_ok_iff.mp h
    cases h
    exact isWhole_enclosed (by decide) (by decide) (areWhole_writeEntries es hv hw hts)
  | .bytes _, _, _, _ | .date _ _, _, _, _ | .moment _ _, _, _, _ => nofun
  | .operator _, _, hv, _ | .join _, _, hv, _ | .buffer _, _, hv, _ | .tuple _, _, hv, _
  | .set _, _, hv, _ | .frozenset _, _, hv, _ | .loop _, _, hv, _ | .foreign _ _, _, hv, _ =>
    absurd hv id

theorem areWhole_writeAll : ∀ (xs : List Value) {ts : List String}, Value.AreStored xs →
    Value.ItemsAllTexts IsWholeText IsWholeText xs → writeAll xs = .ok ts → ∀ t ∈ ts, IsWholeText t
  | [], _, _, _, h => by
    cases h
    exact nofun
  | x :: xs, _, ⟨hx, hxs⟩, ⟨hw, hws⟩, h => by
    obtain ⟨t, ht, h⟩ := except_bind_eq_ok_iff.mp h
    obtain ⟨ts, hts, h⟩ := except_bind_eq_ok_iff.mp h
    cases h
    exact List.forall_mem_cons.mpr ⟨isWhole_write x hx hw ht, areWhole_writeAll xs hxs hws hts⟩

theorem areWhole_writeEntries : ∀ (es : List (Value × Value)) {ts : List String},
    Value.EntriesStored es → Value.EntriesAllTexts IsWholeText IsWholeText es → writeEntries es = .ok ts →
    ∀ t ∈ ts, IsWholeText t
  | [], _, _, _, h => by
    cases h
    exact nofun
  | (k, v) :: es, _, ⟨hk, hv, hes⟩, ⟨hkw, hvw, hesw⟩, h => by
    obtain ⟨key, hkey, h⟩ := except_bind_eq_ok_iff.mp h
    obtain ⟨t, ht, h⟩ := except_bind_eq_ok_iff.mp h
    obtain ⟨ts, hts, h⟩ := except_bind_eq_ok_iff.mp h
    cases h
    refine List.forall_mem_cons.mpr ⟨?_, areWhole_writeEntries es hes hesw hts⟩
    rw [IsWholeText, String.toList_append, String.toList_append]
    exact isWhole_append.mpr ⟨isWhole_append.mpr
      ⟨isWhole_writeString (isWhole_keyText hk hkw hkey), by decide⟩, isWhole_write v hv hvw ht⟩

end

end Json

end FilterTree
