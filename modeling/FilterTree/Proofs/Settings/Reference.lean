import FilterTree.Proofs.Settings.Astray
import FilterTree.Hook.Loading

/-! Hooks loaded by reference, whatever modules there are. A reference that leads nowhere is a
misconfiguration. Loading goes astray where the reference has a shape that it does not look out for,
where the import does, or where what is found cannot take the parameters. -/

namespace FilterTree

/-! ### References -/

theorem toList_of_splitLast {s path name : String} (h : splitLast s = some (path, name)) :
    s.toList = path.toList ++ '.' :: name.toList := by
  unfold splitLast at h
  dsimp only at h
  split at h
  · cases h
  · next c before hrest =>
    obtain ⟨hpath, hname⟩ := Prod.mk.inj (Option.some.inj h)
    -- the rest of the reversed text begins with the dot that ended its first part
    have hdot : c = '.' := by
      have hhead := List.head?_dropWhile_not (· != '.') s.toList.reverse
      rw [hrest] at hhead
      simpa using hhead
    have hsplit := List.takeWhile_append_dropWhile (p := (· != '.')) (l := s.toList.reverse)
    rw [hrest, hdot] at hsplit
    have hback := congrArg List.reverse hsplit
    rw [List.reverse_append, List.reverse_cons, List.reverse_reverse] at hback
    rw [← hback, ← hpath, ← hname, String.toList_ofList, String.toList_ofList, List.append_assoc]
    rfl

theorem exists_splitLast {s : String} (h : '.' ∈ s.toList) :
    ∃ path name, splitLast s = some (path, name) := by
  unfold splitLast
  dsimp only
  split
  · next hrest =>
    exfalso
    have hsplit := List.takeWhile_append_dropWhile (p := (· != '.')) (l := s.toList.reverse)
    rw [hrest, List.append_nil] at hsplit
    have hall := List.all_takeWhile (p := (· != '.')) (l := s.toList.reverse)
    rw [hsplit] at hall
    have hdot := List.all_eq_true.mp hall '.' (List.mem_reverse.mpr h)
    cases hdot
  · exact ⟨_, _, rfl⟩

theorem head?_of_splitLast {s path name : String} (h : splitLast s = some (path, name)) :
    s.toList.head? = some '.' ↔ path.isEmpty = true ∨ path.startsWith "." = true := by
  rw [toList_of_splitLast h, String.startsWith_string_iff]
  cases hpath : path.toList with
  | nil =>
    have hempty : path.isEmpty = true := by
      rw [String.isEmpty_iff]
      exact String.toList_eq_nil_iff.mp hpath
    simp [hempty]
  | cons c rest =>
    have hne : path.isEmpty = false := by
      rw [Bool.eq_false_iff, Ne, String.isEmpty_iff]
      rintro rfl
      cases hpath
    have hdot : ".".toList = ['.'] := rfl
    simp [hne, hdot, eq_comm]

/-- What a reference leads to, if anything: the specification of that name, else what is imported at
that path. -/
def Registry.target? (r : Registry) (modules : Modules) (s : String) : Option Import :=
  match r.get? s with
  | some spec => some (.member (.spec spec))
  | none => (splitLast s).map fun (path, name) => modules path name

/-! ### Parameters -/

namespace Settles

theorem iterate (l : Linked) : Settles l.iterate := by
  unfold Linked.iterate
  split
  · exact .inl ⟨_, rfl⟩
  · exact .inr (.other _ _)

theorem asPair (l : Linked) : Settles l.asPair := by
  unfold Linked.asPair
  split
  · exact .inr (.other _ _)
  · dsimp only
    split
    · exact .inl ⟨_, rfl⟩
    · exact .inr (.other _ _)
  · exact .inr (.other _ _)

theorem asEntries (l : Linked) : Settles l.asEntries := by
  unfold Linked.asEntries
  split
  · exact .inl ⟨_, rfl⟩
  · exact (iterate l).bind fun items => mapM asPair items

end Settles

def Linked.IsNoTable (params : Linked) : Prop :=
  params.portrait.truthy = true ∧ ∀ es, params.asEntries ≠ .ok es

def Spec.IsTableless (spec : Spec) : Prop :=
  ∀ es, (Linked.ofValue spec.params).asEntries ≠ .ok es

theorem Spec.goesAstray_bind_iff (spec : Spec) (params : Linked) :
    GoesAstray (spec.bind params) ↔ spec.IsTableless ∨ params.IsNoTable := by
  have hown := (Settles.asEntries (.ofValue spec.params)).goesAstray_iff
  have hgiven := (Settles.asEntries params).goesAstray_iff
  unfold Spec.bind Spec.IsTableless Linked.IsNoTable
  rw [GoesAstray.bind_iff, hown, ← hgiven]
  cases htable : (Linked.ofValue spec.params).asEntries with
  | error f => simp
  | ok own =>
    cases params.portrait.truthy <;> simp [pure, Except.pure, GoesAstray.bind_iff]

/-! ### Loading -/

def Value.IsCompoundKey (v : Value) : Prop :=
  (∃ xs, v = .tuple xs ∨ v = .frozenset xs) ∧ v.isKey = true

/-- How loading a reference with parameters goes astray. -/
inductive Unloadable (modules : Modules) (registry : Registry) (params : Linked) : Value → Prop
  /-- It is no string. -/
  | kind {ref : Value} (h : ref.text? = none) (hkey : ¬ref.IsCompoundKey) :
    Unloadable modules registry params ref
  /-- It begins with a dot. -/
  | relative {ref : Value} {s : String} (h : ref.text? = some s) (hname : registry.get? s = none)
    (hdot : s.toList.head? = some '.') : Unloadable modules registry params ref
  /-- The import ends in a fault that is no misconfiguration. -/
  | failing {ref : Value} {s : String} {f : Fault} (h : ref.text? = some s)
    (htarget : registry.target? modules s = some (.failing f)) (hf : ∀ m, f ≠ .misconfigured m) :
    Unloadable modules registry params ref
  /-- It leads to a specification, but one without a mapping of its own or not for these parameters. -/
  | params {ref : Value} {s : String} {spec : Spec} (h : ref.text? = some s)
    (htarget : registry.target? modules s = some (.member (.spec spec)))
    (htable : spec.IsTableless ∨ params.IsNoTable) : Unloadable modules registry params ref
  /-- It leads to what passes for a specification and does not bind these parameters. -/
  | posing {ref : Value} {s : String} {bind : Linked → Except Fault Hook} (h : ref.text? = some s)
    (htarget : registry.target? modules s = some (.member (.posing bind)))
    (hbind : GoesAstray (bind params)) : Unloadable modules registry params ref

def Import.Astray (params : Linked) : Import → Prop
  | .missing _ | .member .inert | .member (.callable _) => False
  | .failing f => ∀ m, f ≠ .misconfigured m
  | .member (.spec spec) => spec.IsTableless ∨ params.IsNoTable
  | .member (.posing bind) => GoesAstray (bind params)

theorem goesAstray_loadPath_iff {modules : Modules} {registry : Registry} {s : String}
    (hname : registry.get? s = none) (params : Linked) :
    GoesAstray (loadPath modules s params).result ↔
      s.toList.head? = some '.' ∨ ∃ i, registry.target? modules s = some i ∧ i.Astray params := by
  have htarget : registry.target? modules s =
      (splitLast s).map fun (path, name) => modules path name := by
    rw [Registry.target?, hname]
  rw [htarget]
  unfold loadPath
  cases hsplit : splitLast s with
  | none =>
    have hdot : s.toList.head? ≠ some '.' := by
      intro hhead
      obtain ⟨_, _, hsome⟩ := exists_splitLast (List.mem_of_mem_head? hhead)
      rw [hsplit] at hsome
      cases hsome
    simp [hdot]
  | some parts =>
    obtain ⟨path, name⟩ := parts
    rw [head?_of_splitLast hsplit]
    by_cases hempty : path.isEmpty = true
    · simp [hempty]
    by_cases hrelative : path.startsWith "." = true
    · simp [hempty, hrelative]
    simp only [hempty, hrelative, Bool.false_eq_true, if_false, false_or, Option.map_some,
      Option.some.injEq, exists_eq_left']
    cases modules path name with
    | missing reason => simp [Import.Astray]
    | failing f => exact GoesAstray.error_iff
    | member member =>
      cases member with
      | inert => simp [Import.Astray]
      | spec spec =>
        rw [Outcome.result_ofExcept]
        exact spec.goesAstray_bind_iff params
      | posing bind =>
        rw [Outcome.result_ofExcept]
        rfl
      | callable hook =>
        refine iff_of_false ?_ id
        cases params.portrait.truthy <;> exact GoesAstray.not_ok hook

theorem result_loadHook_of_text {ref : Value} {s : String} (h : ref.text? = some s)
    (modules : Modules) (registry : Registry) (params : Linked) :
    (loadHook modules registry ref params).result =
      match registry.get? s with
      | some spec => spec.bind params
      | none =>
        if s.toList.contains '.' then (loadPath modules s params).result
        else .error (.misconfigured (.unknownHook ref.plain)) := by
  unfold loadHook
  dsimp only
  split
  · cases h
  · cases h
  · rw [h]
    dsimp only
    cases registry.get? s with
    | some spec => exact Outcome.result_ofExcept _
    | none => cases s.toList.contains '.' <;> rfl

theorem result_loadHook_of_callable {modules : Modules} {registry : Registry} {s path name : String}
    {hook : Hook} (hname : registry.get? s = none) (hsplit : splitLast s = some (path, name))
    (hdot : s.toList.head? ≠ some '.') (hmember : modules path name = .member (.callable hook))
    (params : Linked) : (loadHook modules registry (.text s) params).result = .ok hook := by
  rw [ne_eq, head?_of_splitLast hsplit, not_or] at hdot
  have hcontains : s.toList.contains '.' = true := by
    rw [toList_of_splitLast hsplit]
    simp
  rw [result_loadHook_of_text rfl, hname, hcontains, loadPath, hsplit]
  simp only [if_true, hdot, hmember, Bool.false_eq_true, if_false]
  cases params.portrait.truthy <;> rfl

theorem goesAstray_loadHook_of_no_text {ref : Value} (h : ref.text? = none) (modules : Modules)
    (registry : Registry) (params : Linked) :
    GoesAstray (loadHook modules registry ref params).result ↔ ¬ref.IsCompoundKey := by
  unfold loadHook
  dsimp only
  split
  · next xs =>
    have hcompound : (Value.tuple xs).IsCompoundKey ↔ (Value.tuple xs).isKey = true :=
      ⟨And.right, fun hkey => ⟨⟨xs, .inl rfl⟩, hkey⟩⟩
    rw [hcompound]
    cases (Value.tuple xs).isKey
    · simp
    · cases xs.any (·.same false (.text ".")) <;> simp
  · next xs =>
    have hkey : (Value.frozenset xs).IsCompoundKey := ⟨⟨xs, .inr rfl⟩, rfl⟩
    rw [if_neg (by simp [Value.isKey])]
    cases xs.any (·.same false (.text ".")) <;> simp [hkey]
  · next htuple hfrozen =>
    have hkey : ¬ref.IsCompoundKey := by
      rintro ⟨⟨xs, rfl | rfl⟩, -⟩
      · exact htuple xs rfl
      · exact hfrozen xs rfl
    rw [h]
    simp [hkey]

theorem unloadable_iff_of_text {modules : Modules} {registry : Registry} {params : Linked}
    {ref : Value} {s : String} (h : ref.text? = some s) :
    Unloadable modules registry params ref ↔
      registry.get? s = none ∧ s.toList.head? = some '.' ∨
        ∃ i, registry.target? modules s = some i ∧ i.Astray params := by
  constructor
  · rintro (⟨hnone, _⟩ | ⟨ht, hname, hdot⟩ | ⟨ht, htarget, hbad⟩ | ⟨ht, htarget, hbad⟩ |
      ⟨ht, htarget, hbad⟩)
    · cases h.symm.trans hnone
    all_goals cases h.symm.trans ht
    · exact .inl ⟨hname, hdot⟩
    all_goals exact .inr ⟨_, htarget, hbad⟩
  · rintro (⟨hname, hdot⟩ | ⟨i, htarget, hbad⟩)
    · exact .relative h hname hdot
    · match i with
      | .missing _ | .member .inert | .member (.callable _) => exact hbad.elim
      | .failing _ => exact .failing h htarget hbad
      | .member (.spec _) => exact .params h htarget hbad
      | .member (.posing _) => exact .posing h htarget hbad

theorem goesAstray_loadHook_iff (modules : Modules) (registry : Registry) (ref : Value)
    (params : Linked) :
    GoesAstray (loadHook modules registry ref params).result ↔
      Unloadable modules registry params ref := by
  cases htext : ref.text? with
  | none =>
    rw [goesAstray_loadHook_of_no_text htext]
    refine ⟨.kind htext, ?_⟩
    rintro (⟨-, hkey⟩ | ⟨h, -⟩ | ⟨h, -⟩ | ⟨h, -⟩ | ⟨h, -⟩)
    · exact hkey
    all_goals cases htext.symm.trans h
  | some s =>
    rw [result_loadHook_of_text htext, unloadable_iff_of_text htext]
    cases hname : registry.get? s with
    | some spec => simp [Registry.target?, hname, Spec.goesAstray_bind_iff, Import.Astray]
    | none =>
      dsimp only
      by_cases hdot : s.toList.contains '.' = true
      · rw [if_pos hdot, goesAstray_loadPath_iff hname]
        simp
      · rw [if_neg hdot]
        have hhead : s.toList.head? ≠ some '.' := fun h =>
          hdot (List.contains_iff_mem.mpr (List.mem_of_mem_head? h))
        have hsplit : splitLast s = none := by
          refine Option.eq_none_iff_forall_ne_some.mpr fun parts h => hdot ?_
          rw [toList_of_splitLast h]
          simp
        simp [hhead, Registry.target?, hname, hsplit]

def toolbox : Modules := fun path name =>
  if path = "tools" ∧ name = "refuse" then
    .member (.callable (.failing name (.rejected "refused" none)))
  else Modules.own path name

end FilterTree
