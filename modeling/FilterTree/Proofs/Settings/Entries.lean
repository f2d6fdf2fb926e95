import FilterTree.Proofs.Settings.Reference
import FilterTree.Settings.Hooks

/-! The hooks of settings, entry by entry. An entry that refers to a hook puts it in its place, and
nothing of what came before matters to that. Where an entry cannot be loaded it is a
misconfiguration, unless it is misshapen. -/

namespace FilterTree

namespace Settings

def purpose? (slot : Value) : Option HookName :=
  slot.text?.bind HookName.ofSpelling?

def AreTold (params : Linked) : Prop :=
  params.portrait.truthy = true → params.portrait.isLegible = true

def RefersTo (modules : Modules) (registry : Registry) (slot : Value) (entry : Linked)
    (hook : Hook) : Prop :=
  ∃ ref params, reference slot entry = .ok (ref, params) ∧
    (loadHook modules registry ref params).result = .ok hook ∧ AreTold params

/-- What goes wrong with an entry otherwise than by a misconfiguration. -/
inductive Misshapen (modules : Modules) (registry : Registry) (slot : Value) (entry : Linked) : Prop
  /-- What it is for is unknown, and too long to be told. -/
  | slot (hslot : purpose? slot = none) (hlong : slot.isLegible = false)
  /-- It is neither a string nor a mapping. -/
  | shape {n : HookName} (hslot : purpose? slot = some n) (hmap : entry.entries? = none)
    (htext : entry.portrait.text? = none)
  /-- It names no hook, and is too long to be told. -/
  | hookless {n : HookName} {es : List (Value × Linked)} (hslot : purpose? slot = some n)
    (hmap : entry.entries? = some es)
    (hhook : (((Value.field? es "hook").map Linked.portrait).getD (.text "")).truthy = false)
    (hlong : entry.portrait.isLegible = false)
  | unloadable {n : HookName} {ref : Value} {params : Linked} (hslot : purpose? slot = some n)
    (href : reference slot entry = .ok (ref, params)) (hload : Unloadable modules registry params ref)
  /-- It loads, and its parameters are too long to be told. -/
  | params {n : HookName} {ref : Value} {params : Linked} {hook : Hook}
    (hslot : purpose? slot = some n) (href : reference slot entry = .ok (ref, params))
    (hload : (loadHook modules registry ref params).result = .ok hook) (hlong : ¬AreTold params)

/-! ### One entry -/

section
variable {modules : Modules} {registry : Registry} {slot : Value} {entry : Linked} {n : HookName}

theorem result_loadEntry_of_none (hslot : purpose? slot = none) (h : HookSet) :
    (loadEntry modules registry h slot entry).result =
      slot.plainText >>= fun name => .error (.misconfigured (.unknownSlot name)) := by
  unfold loadEntry
  rw [show slot.text?.bind HookName.ofSpelling? = none from hslot]
  dsimp only
  rw [Outcome.result_bind, Outcome.result_ofExcept]
  rfl

theorem result_loadEntry_of_some (hslot : purpose? slot = some n) (h : HookSet) :
    (loadEntry modules registry h slot entry).result =
      ((Outcome.ofExcept (reference slot entry) >>= fun (ref, params) =>
        loadHook modules registry ref params >>= fun hook =>
          (if params.portrait.truthy then
              Outcome.ofExcept (params.portrait.plainText.map (" with params: " ++ ·))
            else pure "") >>= fun shown =>
            Outcome.log .debug .config s!"Loaded hook: {ref.plain} for {slot.plain}{shown}" >>=
              fun _ => pure (h.put n (some hook))) : Outcome HookSet).result := by
  unfold loadEntry
  rw [show slot.text?.bind HookName.ofSpelling? = some n from hslot]
  refine congrArg Outcome.result (Outcome.bind_congr_of_ok fun found _ => ?_)
  obtain ⟨ref, params⟩ := found
  refine Outcome.bind_congr_of_ok fun hook _ => ?_
  dsimp only
  split <;> rfl

variable {ref : Value} {params : Linked}

theorem result_loadEntry_of_reference_error {f : Fault} (hslot : purpose? slot = some n)
    (href : reference slot entry = .error f) (h : HookSet) :
    (loadEntry modules registry h slot entry).result = .error f := by
  rw [result_loadEntry_of_some hslot, href]
  rfl

theorem result_loadEntry_of_load_error {f : Fault} (hslot : purpose? slot = some n)
    (href : reference slot entry = .ok (ref, params))
    (hload : (loadHook modules registry ref params).result = .error f) (h : HookSet) :
    (loadEntry modules registry h slot entry).result = .error f := by
  rw [result_loadEntry_of_some hslot, href, Outcome.result_bind_of_ok _ rfl,
    Outcome.result_bind_of_error _ hload]

theorem result_loadEntry_of_told {hook : Hook} (hslot : purpose? slot = some n)
    (href : reference slot entry = .ok (ref, params))
    (hload : (loadHook modules registry ref params).result = .ok hook) (htold : AreTold params)
    (h : HookSet) : (loadEntry modules registry h slot entry).result = .ok (h.put n (some hook)) := by
  rw [result_loadEntry_of_some hslot, href, Outcome.result_bind_of_ok _ rfl,
    Outcome.result_bind_of_ok _ hload]
  cases ht : params.portrait.truthy with
  | false => rfl
  | true =>
    rw [if_pos rfl, Value.plainText, Value.written_of_isLegible (htold ht)]
    rfl

theorem result_loadEntry_of_not_told {hook : Hook} (hslot : purpose? slot = some n)
    (href : reference slot entry = .ok (ref, params))
    (hload : (loadHook modules registry ref params).result = .ok hook) (htold : ¬AreTold params)
    (h : HookSet) : (loadEntry modules registry h slot entry).result = .error .longInteger := by
  have ht : params.portrait.truthy = true := by
    by_cases ht : params.portrait.truthy = true
    · exact ht
    · exact absurd (fun h => absurd h ht) htold
  have hlong : params.portrait.isLegible = false :=
    Bool.eq_false_iff.mpr fun hlegible => htold fun _ => hlegible
  rw [result_loadEntry_of_some hslot, href, Outcome.result_bind_of_ok _ rfl,
    Outcome.result_bind_of_ok _ hload, if_pos ht, Value.plainText,
    Value.written_of_not_isLegible hlong]
  rfl

theorem result_loadEntry_of_refersTo {hook : Hook} (hslot : purpose? slot = some n)
    (href : RefersTo modules registry slot entry hook) (h : HookSet) :
    (loadEntry modules registry h slot entry).result = .ok (h.put n (some hook)) := by
  obtain ⟨ref, params, href, hload, htold⟩ := href
  exact result_loadEntry_of_told hslot href hload htold h

theorem refersTo_of_text {s : String} {hook : Hook} (hmap : entry.entries? = none)
    (htext : entry.portrait.text? = some s)
    (hload : (loadHook modules registry (.text s) (.ofValue .null)).result = .ok hook) :
    RefersTo modules registry slot entry hook := by
  refine ⟨.text s, .ofValue .null, ?_, hload, nofun⟩
  unfold reference
  rw [hmap, htext]
  rfl

theorem exists_result_loadEntry_iff (h : HookSet) :
    (∃ h', (loadEntry modules registry h slot entry).result = .ok h') ↔
      (∃ n, purpose? slot = some n) ∧ ∃ hook, RefersTo modules registry slot entry hook := by
  constructor
  · rintro ⟨h', hload⟩
    cases hslot : purpose? slot with
    | none =>
      rw [result_loadEntry_of_none hslot] at hload
      obtain ⟨_, _, hfail⟩ := except_bind_eq_ok_iff.mp hload
      cases hfail
    | some n =>
      refine ⟨⟨n, rfl⟩, ?_⟩
      cases href : reference slot entry with
      | error f =>
        rw [result_loadEntry_of_reference_error hslot href] at hload
        cases hload
      | ok found =>
        obtain ⟨ref, params⟩ := found
        cases hhook : (loadHook modules registry ref params).result with
        | error f =>
          rw [result_loadEntry_of_load_error hslot href hhook] at hload
          cases hload
        | ok hook =>
          by_cases htold : AreTold params
          · exact ⟨hook, ref, params, href, hhook, htold⟩
          · rw [result_loadEntry_of_not_told hslot href hhook htold] at hload
            cases hload
  · rintro ⟨⟨n, hslot⟩, hook, href⟩
    exact ⟨_, result_loadEntry_of_refersTo hslot href h⟩

/-! ### Entries that are misshapen -/

theorem goesAstray_reference_iff (hslot : purpose? slot = some n) :
    GoesAstray (reference slot entry) ↔
      entry.entries? = none ∧ entry.portrait.text? = none ∨
      ∃ es, entry.entries? = some es ∧
        (((Value.field? es "hook").map Linked.portrait).getD (.text "")).truthy = false ∧
        entry.portrait.isLegible = false := by
  have htold : slot.plainText = .ok slot.plain := by
    obtain ⟨s, hs, -⟩ := Option.bind_eq_some_iff.mp hslot
    exact Value.written_of_isLegible (Value.isLegible_of_text? hs) _
  unfold reference
  cases hmap : entry.entries? with
  | none =>
    cases htext : entry.portrait.text? with
    | none => simp [throw, throwThe, MonadExceptOf.throw]
    | some s => simp [pure, Except.pure]
  | some es =>
    dsimp only
    cases htruthy : (((Value.field? es "hook").map Linked.portrait).getD (.text "")).truthy with
    | true => simp [pure, Except.pure, htruthy]
    | false =>
      rw [htold]
      exact (GoesAstray.written_iff ..).trans (by simp [htruthy])

theorem misshapen_iff_of_none (hslot : purpose? slot = none) :
    Misshapen modules registry slot entry ↔ slot.isLegible = false := by
  refine ⟨?_, .slot hslot⟩
  rintro (⟨-, hlong⟩ | ⟨hsome, _⟩ | ⟨hsome, _⟩ | ⟨hsome, _⟩ | ⟨hsome, _⟩)
  · exact hlong
  all_goals simp [hslot] at hsome

theorem misshapen_of_goesAstray (hslot : purpose? slot = some n)
    {h : HookSet} (hastray : GoesAstray (loadEntry modules registry h slot entry).result) :
    Misshapen modules registry slot entry := by
  -- the first step that goes astray tells what is wrong with the entry
  cases href : reference slot entry with
  | error f =>
    rw [result_loadEntry_of_reference_error hslot href, GoesAstray.error_iff] at hastray
    rcases (goesAstray_reference_iff hslot).mp ⟨f, href, hastray⟩ with
      ⟨hmap, htext⟩ | ⟨es, hmap, hhook, hlong⟩
    · exact .shape hslot hmap htext
    · exact .hookless hslot hmap hhook hlong
  | ok found =>
    obtain ⟨ref, params⟩ := found
    cases hload : (loadHook modules registry ref params).result with
    | error f =>
      rw [result_loadEntry_of_load_error hslot href hload, GoesAstray.error_iff] at hastray
      have hbad := (goesAstray_loadHook_iff _ _ ref params).mp ⟨f, hload, hastray⟩
      exact .unloadable hslot href hbad
    | ok hook =>
      by_cases htold : AreTold params
      · rw [result_loadEntry_of_told hslot href hload htold] at hastray
        exact absurd hastray (GoesAstray.not_ok _)
      · exact .params hslot href hload htold

theorem goesAstray_of_reference (hslot : purpose? slot = some n) (h : HookSet)
    (hastray : GoesAstray (reference slot entry)) :
    GoesAstray (loadEntry modules registry h slot entry).result := by
  obtain ⟨f, href, hf⟩ := hastray
  rw [result_loadEntry_of_reference_error hslot href]
  exact ⟨f, rfl, hf⟩

theorem goesAstray_loadEntry_iff (h : HookSet) :
    GoesAstray (loadEntry modules registry h slot entry).result ↔
      Misshapen modules registry slot entry := by
  cases hslot : purpose? slot with
  | none =>
    rw [misshapen_iff_of_none hslot, result_loadEntry_of_none hslot]
    exact GoesAstray.written_iff ..
  | some n =>
    refine ⟨misshapen_of_goesAstray hslot, ?_⟩
    rintro (⟨hnone, -⟩ | ⟨-, hmap, htext⟩ | ⟨-, hmap, hhook, hlong⟩ | ⟨-, href, hbad⟩ |
      ⟨-, href, hload, hlong⟩)
    · rw [hslot] at hnone
      cases hnone
    · exact goesAstray_of_reference hslot h
        ((goesAstray_reference_iff hslot).mpr (.inl ⟨hmap, htext⟩))
    · exact goesAstray_of_reference hslot h
        ((goesAstray_reference_iff hslot).mpr (.inr ⟨_, hmap, hhook, hlong⟩))
    · obtain ⟨f, hload, hf⟩ := (goesAstray_loadHook_iff _ _ _ _).mpr hbad
      rw [result_loadEntry_of_load_error hslot href hload]
      exact ⟨f, rfl, hf⟩
    · rw [result_loadEntry_of_not_told hslot href hload hlong]
      exact GoesAstray.longInteger

end

/-! ### All entries -/

theorem result_hookSet (modules : Modules) (registry : Registry) (s : Settings) :
    (s.hookSet modules registry).result =
      s.hooks.foldlM (fun h e => (loadEntry modules registry h e.1 e.2).result) .empty :=
  Outcome.result_foldlM _ _ _

theorem exists_foldlM_loadEntry_iff {modules : Modules} {registry : Registry}
    {entries : List (Value × Linked)} (base : HookSet) :
    (∃ h, entries.foldlM (fun h e => (loadEntry modules registry h e.1 e.2).result) base = .ok h) ↔
      ∀ e ∈ entries, (∃ n, purpose? e.1 = some n) ∧ ∃ hook, RefersTo modules registry e.1 e.2 hook := by
  induction entries generalizing base with
  | nil => exact iff_of_true ⟨base, rfl⟩ nofun
  | cons e entries ih =>
    rw [List.forall_mem_cons, ← exists_result_loadEntry_iff base]
    constructor
    · rintro ⟨h, hfold⟩
      rw [List.foldlM_cons] at hfold
      obtain ⟨next, hnext, hrest⟩ := except_bind_eq_ok_iff.mp hfold
      exact ⟨⟨next, hnext⟩, (ih next).mp ⟨h, hrest⟩⟩
    · rintro ⟨⟨next, hnext⟩, hrest⟩
      obtain ⟨h, hfold⟩ := (ih next).mpr hrest
      refine ⟨h, ?_⟩
      rw [List.foldlM_cons, hnext]
      exact hfold

/-- Settings make a hook set or report a misconfiguration, unless an entry is misshapen and all those
before it load. -/
theorem goesAstray_hookSet_iff {modules : Modules} {registry : Registry} (s : Settings) :
    GoesAstray (s.hookSet modules registry).result ↔
      ∃ before slot entry after, s.hooks = before ++ (slot, entry) :: after ∧
        (∀ e ∈ before, (∃ n, purpose? e.1 = some n) ∧ ∃ hook, RefersTo modules registry e.1 e.2 hook) ∧
        Misshapen modules registry slot entry := by
  rw [result_hookSet, GoesAstray.foldlM_iff]
  constructor
  · rintro ⟨before, ⟨slot, entry⟩, after, h, hentries, hbefore, hastray⟩
    exact ⟨before, slot, entry, after, hentries, (exists_foldlM_loadEntry_iff _).mp ⟨h, hbefore⟩,
      (goesAstray_loadEntry_iff h).mp hastray⟩
  · rintro ⟨before, slot, entry, after, hentries, hbefore, hbad⟩
    obtain ⟨h, hfold⟩ := (exists_foldlM_loadEntry_iff .empty).mpr hbefore
    exact ⟨before, (slot, entry), after, h, hentries, hfold, (goesAstray_loadEntry_iff h).mpr hbad⟩

end Settings
end FilterTree
