import FilterTree.Proofs.Restore.Data
import FilterTree.Proofs.Restore.Expressed
import FilterTree.Proofs.Restore.RoundTrip
import FilterTree.Proofs.Yaml.Drawn
import FilterTree.Tree.Sketch

/-! Trees laid out for writing. The layout of a tree that holds stored data is read as the records of a
tree of the same kind, and as its own record where what it holds lasts. -/

namespace FilterTree

namespace Yaml

/-! ### Fields -/

def isPlainLetter (c : Char) : Bool :=
  Features.isInline c && !Features.marks.contains c && c ≠ '.'

theorem allowsPlain_of_letters {cs : List Char} (hne : cs ≠ [])
    (h : ∀ c ∈ cs, isPlainLetter c = true) : (Features.ofChars cs).allowsPlain = true := by
  simp only [isPlainLetter, Bool.and_eq_true, Bool.not_eq_true', decide_eq_true_eq] at h
  obtain ⟨c, more, rfl⟩ := List.exists_cons_of_ne_nil hne
  obtain ⟨⟨-, hmark⟩, hpoint⟩ := h c List.mem_cons_self
  have hmarks : c ∉ Features.marks := fun hmem => by
    rw [List.contains_iff_mem.mpr hmem] at hmark
    cases hmark
  have hminus : c ≠ '-' := fun hc => hmarks (by rw [hc]; decide)
  exact Features.allowsPlain_of_isInline (fun d hd => (h d hd).1.1)
    (Features.isMark_of_not_mem hmarks more) (by simp [List.isPrefixOf, hminus.symm, hpoint.symm])

def vocabulary : List String :=
  ["joinOperator", "expression", "condition", "key", "operator", "value", "and", "or"]

theorem isWord_of_mem_vocabulary {s : String} (h : s ∈ vocabulary) :
    (Scalar.ofText s).IsWord (· = .text s) := by
  have hall : ∀ s ∈ vocabulary, s ≠ "" ∧ tagOfSpelling s = Tags.str ∧
      s.toList.all isPlainLetter = true := by decide
  obtain ⟨hne, htag, hletters⟩ := hall s h
  exact Scalar.isWord_of_spelling hne htag
    (allowsPlain_of_letters (fun hnil => hne (String.toList_eq_nil_iff.mp hnil))
      (List.all_eq_true.mp hletters))
    ⟨by decide, fun _ => ⟨.text s, rfl, Value.IsAtom.same_self trivial nofun, rfl⟩⟩

theorem isShort_of_mem_vocabulary {s : String} (h : s ∈ vocabulary) :
    (Sketch.ofText s).isShort = true := by
  have hall : ∀ s ∈ vocabulary, (Sketch.ofText s).isShort = true := by decide
  exact hall s h

theorem drawsEntries_field {column : Nat} {name : String} {P : Value → Prop}
    {R : List (Value × Value) → Prop} {x : Sketch} {es : List (Sketch × Sketch)}
    (hname : name ∈ vocabulary) (hx : Draws column true P x) (hes : DrawsEntries column R es) :
    DrawsEntries column (fun ps => ∃ v rest, ps = (.text name, v) :: rest ∧ P v ∧ R rest)
      ((Sketch.ofText name, x) :: es) := by
  have hshort := isShort_of_mem_vocabulary hname
  refine .cons (drawsScalar_of_word (isWord_of_mem_vocabulary hname) id) (fun isOpen hopen => ?_) hes
    fun k v rest hk hv hrest => ⟨v, rest, by rw [hk], hv, hrest⟩
  rw [hopen rfl, hshort]
  exact hx

theorem draws_text (column : Nat) (isOpen : Bool) (s : String) :
    Draws column isOpen
      (fun v => ∃ t, v = .text t ∧ ((Scalar.ofText s).Lasts (column + 2) false → t = s))
      (Sketch.ofText s) :=
  .scalar (.bare (Scalar.draws_ofText (column + 2) false s) nofun)

end Yaml

namespace Tree
open Yaml
open Record (wireAll)

mutual

theorem isStored_of_portable : ∀ t : Tree, t.Portable → t.IsStored
  | .leaf _ _ _, ⟨key, operator, v, hv, hc⟩ => by
    obtain ⟨hp, hj⟩ := Value.normal_of_portable v hv
    exact ⟨key, operator, v.normal, (Value.isStored_of_portable v.normal hp hj).1, hc⟩
  | .branch _ _ slots, ht => slotsStored_of_allPortable slots ht

theorem slotsStored_of_allPortable : ∀ slots : List (Join × Tree), AllPortable slots →
    SlotsStored slots
  | [], _ => trivial
  | (_, t) :: rest, ⟨ht, hrest⟩ => ⟨isStored_of_portable t ht, slotsStored_of_allPortable rest hrest⟩

end

/-! ### Records that are read -/

def IsPayload : Tree → Value → Prop
  | .leaf _ _ _, w => ∃ key operator v, w = Wire.leaf key operator v
  | .branch _ _ _, w => ∃ records, w = .list (wireAll records)

/-- What is read for a tree: a record of the same kind, and its own one where it is portable and lasts. -/
def Echoes (column : Nat) (isOpen : Bool) (t : Tree) (w : Value) : Prop :=
  t.IsPayload w ∧ (t.record.Portable → t.record.isJson = true → Lasts column isOpen t.record →
    w = t.record)

def SlotsEcho (column : Nat) (slots : List (Join × Tree)) (ws : List Value) : Prop :=
  (∃ records, ws = wireAll records) ∧ (Value.AllPortable (recordOfSlots slots) →
    Value.areJson (recordOfSlots slots) = true → AllLast column (recordOfSlots slots) →
    ws = recordOfSlots slots)

theorem mem_vocabulary_name (j : Join) : j.name ∈ vocabulary := by
  cases j <;> decide

theorem mem_vocabulary_fieldName (t : Tree) : t.fieldName ∈ vocabulary := by
  cases t <;> simp [fieldName, vocabulary]

theorem exists_wire (j : Join) (t : Tree) {w : Value} (h : t.IsPayload w) :
    ∃ r : Record, Wire.slot j t.fieldName w = r.wire := by
  cases t with
  | leaf id hooks c =>
    obtain ⟨key, operator, v, rfl⟩ := h
    exact ⟨.expression j key operator v, rfl⟩
  | branch id hooks slots =>
    obtain ⟨records, rfl⟩ := h
    exact ⟨.condition j records, rfl⟩

/-! ### Layouts -/

theorem draws_leafSketch (leaf : NodeId) (path : List Nat) {column : Nat} {isOpen : Bool}
    {hooks : Hooks} (key operator : String) {v : Value} (hv : v.IsStored) (hr : isInReach v = true)
    {x : Sketch} (h : Context.sketch leaf path
      ⟨.value (.text key), .value (coerceOperator (.text operator)), .value v⟩ = .ok x) :
    Draws column isOpen (Echoes column isOpen (.leaf leaf hooks
      ⟨.value (.text key), .value (coerceOperator (.text operator)), .value v⟩)) x := by
  unfold Context.sketch at h
  simp only [Operand.asValue, plain_operator, Sketch.ofScalar] at h
  obtain ⟨k, hk, h⟩ := except_bind_eq_ok_iff.mp h
  obtain ⟨y, hy, h⟩ := except_bind_eq_ok_iff.mp h
  cases hk
  cases h
  have hvalue := draws_of_ofValue leaf path [] (column + 2) true v hv hr hy
  refine .map (drawsEntries_field (by decide) (draws_text _ true key)
    (drawsEntries_field (by decide) (draws_text _ true operator)
      (drawsEntries_field (by decide) hvalue (.nil (rfl : [] = []))))) ?_
  rintro _ ⟨_, _, rfl, ⟨k, rfl, hkey⟩, _, _, rfl, ⟨o, rfl, hoperator⟩, w, _, rfl, hw, rfl⟩
  rw [Json.mapOf_leaf]
  refine ⟨⟨k, o, w, rfl⟩, fun hp hj hl => ?_⟩
  rw [record, Context.toMap, plain_operator] at hp hj hl ⊢
  obtain ⟨-, -, -, -, -, -, -, -, hp, -⟩ := hp
  obtain ⟨-, hkeyText, -, hoperatorText, -, hvalueText, -⟩ := hl
  have hj : v.isJson = true := by
    simp only [Value.isJson, Value.entriesJson, Bool.and_eq_true] at hj
    exact hj.2.2.1.2
  have hshort : isShortKey (.text "value") = true := isShort_of_mem_vocabulary (by decide)
  rw [hshort] at hvalueText
  rw [hkey hkeyText, hoperator hoperatorText, hw hp hj hvalueText]
  rfl

theorem draws_slot (j : Join) (t : Tree) {column : Nat} {P : Value → Prop} {x : Sketch}
    (h : Draws (column + 2) true P x) :
    Draws column false (fun v => ∃ w, v = Wire.slot j t.fieldName w ∧ P w)
      (.mapping [(.ofText "joinOperator", .ofText j.name), (.ofText t.fieldName, x)] none) := by
  have hjoin : Draws (column + 2) true (· = .text j.name) (.ofText j.name) :=
    .scalar (drawsScalar_of_word (isWord_of_mem_vocabulary (mem_vocabulary_name j)) nofun)
  refine .map (drawsEntries_field (by decide) hjoin
    (drawsEntries_field (mem_vocabulary_fieldName t) h (.nil (rfl : [] = [])))) ?_
  rintro _ ⟨_, _, rfl, rfl, w, _, rfl, hw, rfl⟩
  have hname : t.fieldName ≠ "joinOperator" := by cases t <;> simp [fieldName]
  exact ⟨w, Json.mapOf_pair hname.symm _ _, hw⟩

mutual

/-- The layout of a tree is read as a record of its kind. -/
theorem draws_of_sketch (path : List Nat) (column : Nat) (isOpen : Bool) : ∀ t : Tree, t.IsStored →
    isInReach t.record = true → ∀ {x : Sketch}, t.sketch path = .ok x →
    Draws column isOpen (t.Echoes column isOpen) x
  | .leaf id hooks _, ⟨key, operator, v, hv, hc⟩, hr => fun h => by
    subst hc
    refine draws_leafSketch id path key operator hv ?_ h
    rw [record, Context.toMap, plain_operator] at hr
    simp only [isInReach, entriesInReach, Bool.and_eq_true] at hr
    exact hr.2.2.1.2
  | .branch id hooks slots, ht, hr => fun h => by
    rw [sketch] at h
    obtain ⟨xs, hxs, rfl⟩ := except_map_eq_ok_iff.mp h
    refine .list (drawsAll_of_sketchOfSlots path 0 _ slots ht hr hxs) fun ws hws => ?_
    exact ⟨hws.1.imp fun records hrecords => congrArg Value.list hrecords, fun hp hj hl =>
      congrArg Value.list (hws.2 hp hj hl)⟩

theorem drawsAll_of_sketchOfSlots (path : List Nat) (index column : Nat) :
    ∀ slots : List (Join × Tree), SlotsStored slots → areInReach (recordOfSlots slots) = true →
    ∀ {xs : List Sketch}, sketchOfSlots path index slots = .ok xs →
    DrawsAll column (SlotsEcho column slots) xs
  | [], _, _ => fun h => by
    cases h
    exact .nil ⟨⟨[], rfl⟩, fun _ _ _ => rfl⟩
  | (j, t) :: rest, ⟨ht, hrest⟩, hr => fun h => by
    obtain ⟨hrt, hrrest⟩ := Bool.and_eq_true_iff.mp hr
    rw [sketchOfSlots] at h
    obtain ⟨x, hx, h⟩ := except_bind_eq_ok_iff.mp h
    obtain ⟨xs, hxs, h⟩ := except_bind_eq_ok_iff.mp h
    cases h
    have hpayload : isInReach t.record = true := by
      simp only [isInReach, entriesInReach, Bool.and_eq_true] at hrt
      exact hrt.2.1.2
    refine .cons (draws_slot j t (draws_of_sketch (index :: path) (column + 2) true t ht hpayload hx))
      (drawsAll_of_sketchOfSlots path (index + 1) column rest hrest hrrest hxs) ?_
    rintro _ ws ⟨w, rfl, hkind, hsame⟩ ⟨⟨records, rfl⟩, hsames⟩
    obtain ⟨r, hr⟩ := exists_wire j t hkind
    refine ⟨⟨r :: records, by rw [hr]; rfl⟩, ?_⟩
    rintro ⟨⟨-, -, -, -, -, hp, -⟩, hps⟩ hj ⟨⟨-, -, -, hl, -⟩, hls⟩
    obtain ⟨hjt, hjs⟩ := Bool.and_eq_true_iff.mp hj
    have hshort : isShortKey (.text t.fieldName) = true :=
      isShort_of_mem_vocabulary (mem_vocabulary_fieldName t)
    rw [hshort] at hl
    simp only [Value.isJson, Value.entriesJson, Bool.and_eq_true] at hjt
    rw [hsame hp hjt.2.1.2 hl, hsames hps hjs hls]
    rfl

end

end Tree

end FilterTree
