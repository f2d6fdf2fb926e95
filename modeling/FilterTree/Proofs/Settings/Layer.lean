import FilterTree.Proofs.Outcome
import FilterTree.Proofs.Value.Shape
import FilterTree.Settings.Document

/-! Settings that nothing but a path is given for. Where no variable is named as theirs are, they are
the default ones at that path. -/

namespace FilterTree

/-- Whether no variable has a name that begins as those of settings do, in whatever case. -/
def Host.IsSilent (h : Host) : Prop :=
  ∀ e ∈ h.environment, (lowercase e.1).startsWith "condbuilder_" = false

namespace Settings

def Naming.usual : Naming :=
  ⟨"CONDBUILDER_", false, false, none, "", none⟩

namespace Naming
variable {n : Naming} {each : List (String × Option String)} {name : String}

theorem ne_text_of_insertEntry {es : List (Value × Value)} {key : String} {v : Value}
    (hes : ∀ e ∈ es, ∃ k, e.1 = .text k ∧ k ≠ name) (hkey : key ≠ name) :
    ∀ e ∈ Value.insertEntry es (.text key) v, ∃ k, e.1 = .text k ∧ k ≠ name := by
  intro e he
  unfold Value.insertEntry at he
  split at he
  · obtain ⟨d, hd, rfl⟩ := List.mem_map.mp he
    split <;> exact hes d hd
  · rcases List.mem_append.mp he with hold | hnew
    · exact hes e hold
    · cases List.mem_singleton.mp hnew
      exact ⟨key, rfl, hkey⟩

theorem field?_eq_none {es : List (Value × Value)} (hes : ∀ e ∈ es, ∃ k, e.1 = .text k ∧ k ≠ name) :
    Value.field? es name = none := by
  induction es with
  | nil => rfl
  | cons e es ih =>
    obtain ⟨k, v⟩ := e
    obtain ⟨s, rfl, hs⟩ := hes _ List.mem_cons_self
    rw [Value.field?_cons_text, if_neg hs]
    exact ih fun e he => hes e (List.mem_cons_of_mem _ he)

theorem field?_table (h : ∀ e ∈ each, n.fold e.1 ≠ name) :
    Value.field? (n.table each) name = none := by
  refine field?_eq_none ?_
  unfold table
  refine List.foldlRecOn
    (motive := fun (es : List (Value × Value)) => ∀ e ∈ es, ∃ k, e.1 = .text k ∧ k ≠ name) _ _
    (fun _ h => nomatch h) fun es hes e he => ?_
  have hkey : n.fold e.1 ≠ name := h e (List.mem_filter.mp he).1
  obtain ⟨key, value⟩ := e
  cases value with
  | none => exact fun e he => hes e (List.mem_filter.mp he).1
  | some s => exact ne_text_of_insertEntry hes hkey

theorem fields_usual {vs : List (Value × Value)}
    (h : ∀ name ∈ ["debug", "encoding", "hooks", "config_path"],
      Value.field? vs (usual.nameOf name) = none) : usual.fields vs = .ok [] := by
  have hnested : usual.nested vs "hooks" = [] := rfl
  have hdebug := h "debug" (by simp)
  have hencoding := h "encoding" (by simp)
  have hhooks := h "hooks" (by simp)
  have hpath := h "config_path" (by simp)
  unfold fields jsonField plainField
  rw [hdebug, hencoding, hhooks, hpath, hnested]
  rfl

end Naming

theorem nameOf_usual (name : String) (h : name ∈ ["debug", "encoding", "hooks", "config_path"]) :
    Naming.usual.nameOf name = "condbuilder_" ++ name := by
  simp only [List.mem_cons, List.not_mem_nil, or_false] at h
  rcases h with rfl | rfl | rfl | rfl <;> decide

theorem secretFields_nil (h : Host) : secretFields h .usual [] = .ok [] := by
  rfl

theorem fields_environment {h : Host} (hs : h.IsSilent) :
    Naming.usual.fields
      (Naming.usual.table (h.environment.map fun (name, s) => (name, some s))) = .ok [] := by
  refine Naming.fields_usual fun name hname => Naming.field?_table fun e he => ?_
  obtain ⟨v, hv, rfl⟩ := List.mem_map.mp he
  rw [nameOf_usual name hname]
  intro heq
  have hstart : (lowercase v.1).startsWith "condbuilder_" = true := by
    rw [show lowercase v.1 = "condbuilder_" ++ name from heq, String.startsWith_string_iff,
      String.toList_append]
    exact List.prefix_append _ _
  rw [hs v hv] at hstart
  cases hstart

theorem make_of_silent {h : Host} (hs : h.IsSilent) (path : String) :
    make h [(.text "config_path", .text path)] =
      .ok { Settings.default with path := Path.ofText path } := by
  -- no variable is for a field and no files are asked for, so that what is given is all there is
  have hfiled : Naming.usual.fields (Naming.usual.table []) = .ok [] := rfl
  have hgiven : Naming.ofGiven [(.text "config_path", .text path)] = .ok .usual := by
    simp [Naming.ofGiven, Naming.usual, Value.truthy, Value.text?]
  have hfiles : pathsOf [(.text "config_path", .text path)] "_env_file" = .ok [] := by
    simp [pathsOf]
  have hsecrets : pathsOf [(.text "config_path", .text path)] "_secrets_dir" = .ok [] := by
    simp [pathsOf]
  have hcover : Value.coverEntries [(.text "config_path", .text path)]
      (Value.coverEntries [] (Value.coverEntries [] [])) = [(.text "config_path", .text path)] := by
    simp [Value.coverEntries, Value.lookup?, Value.insertEntry]
  have hfields : ofFields [(.text "config_path", .text path)] =
      .ok { Settings.default with path := Path.ofText path } := by
    have hdebug : readField [(.text "config_path", .text path)] "debug" default.debug readSwitch =
        .ok default.debug := by
      simp [readField]
    have hencoding : readField [(.text "config_path", .text path)] "encoding" default.encoding
        readFormat = .ok default.encoding := by
      simp [readField]
    have hhooks : readField [(.text "config_path", .text path)] "hooks" [] (readTable readHook) =
        .ok [] := by
      simp [readField]
    have hpath : readField [(.text "config_path", .text path)] "config_path" default.path readPath =
        .ok (Path.ofText path) := by
      simp only [readField, Value.field?_cons_text]
      rfl
    rw [ofFields, hdebug, hencoding, hhooks, hpath]
    rfl
  have hself : (Value.field? [(Value.text "config_path", Value.text path)] "__pydantic_self__").isSome =
      false := by
    simp
  have hnone : fileVariables h [] = .ok [] := rfl
  unfold make
  rw [hself, hfiles, hsecrets, hgiven]
  simp only [Bool.false_eq_true, if_false, bind, Except.bind, hnone,
    fields_environment hs, hfiled, secretFields_nil,
    hcover, hfields]

end Settings

end FilterTree
