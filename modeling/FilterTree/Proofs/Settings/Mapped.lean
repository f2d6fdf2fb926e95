import FilterTree.Proofs.Settings.Entries
import FilterTree.Proofs.Tree.Overlay
import FilterTree.Proofs.Value.Reorder
import FilterTree.Proofs.Value.Shape

/-! Settings against mappings. The hook set that settings describe is the one that a mapping of their
slots to the loaded hooks makes. Both take the last entry for each purpose, in whichever way it is
spelled, and the order of entries for different purposes does not matter to either. -/

namespace FilterTree

theorem HookSet.ext_get {a b : HookSet} (h : ∀ n, a.get n = b.get n) : a = b := by
  cases a
  cases b
  have hvalidate := h .validate
  have hkey := h .renderKey
  have hvalue := h .renderValue
  have hoperator := h .renderOperator
  have hexpression := h .renderExpression
  simp only [HookSet.get] at hvalidate hkey hvalue hoperator hexpression
  rw [hvalidate, hkey, hvalue, hoperator, hexpression]

namespace Settings

/-- A slot with a reference and the hook that it loads as. -/
structure Binding (modules : Modules) (registry : Registry) where
  slot : String
  entry : Linked
  hook : Hook
  refers : RefersTo modules registry (.text slot) entry hook

namespace Binding
variable {modules : Modules} {registry : Registry}

def configured (b : Binding modules registry) : Value × Linked :=
  (.text b.slot, b.entry)

def mapped (b : Binding modules registry) : Value × FilterTree.Entry :=
  (.text b.slot, .hook b.hook)

def isFor (n : HookName) (b : Binding modules registry) : Bool :=
  n.spelledBy (.text b.slot)

def last (bs : List (Binding modules registry)) (n : HookName) : Option Hook :=
  (bs.filter (isFor n)).getLast?.map hook

/-- Whether no two bindings are for one purpose. -/
def SpelledOnce (bs : List (Binding modules registry)) : Prop :=
  bs.Pairwise fun a b => ∀ n, ¬(a.isFor n = true ∧ b.isFor n = true)

theorem purpose?_slot (b : Binding modules registry) {n : HookName} :
    purpose? (.text b.slot) = some n ↔ b.isFor n = true := by
  refine ⟨fun h => ?_, HookName.ofSpelling?_of_spelledBy⟩
  have hfound : HookName.all.find? (fun m => m.name == b.slot || m.camelName == b.slot) = some n := h
  have hspelled : n.name = b.slot ∨ n.camelName = b.slot := by
    simpa using List.find?_some hfound
  unfold isFor HookName.spelledBy
  rcases hspelled with hname | hname <;> simp [hname]

theorem usable_mapped {bs : List (Binding modules registry)} (h : ∀ b ∈ bs, ∃ n, b.isFor n = true) :
    (Hooks.mapping (bs.map mapped)).Usable := by
  intro e he
  obtain ⟨b, hb, rfl⟩ := List.mem_map.mp he
  exact ⟨h b hb, nofun⟩

theorem folds_agree (bs : List (Binding modules registry)) (base : HookSet) :
    (∃ h, (bs.map configured).foldlM (fun h e => (loadEntry modules registry h e.1 e.2).result) base =
        .ok h ∧
      (bs.map mapped).foldlM (fun h e => h.putEntry e.1 e.2) base = .ok h) ∨
    ∃ b ∈ bs, purpose? (.text b.slot) = none ∧
      (bs.map configured).foldlM (fun h e => (loadEntry modules registry h e.1 e.2).result) base =
        .error (.misconfigured (.unknownSlot b.slot)) ∧
      (bs.map mapped).foldlM (fun h e => h.putEntry e.1 e.2) base =
        .error (.misuse (.unknownHook (.text b.slot))) := by
  induction bs generalizing base with
  | nil => exact .inl ⟨base, rfl, rfl⟩
  | cons b bs ih =>
    rw [List.map_cons, List.map_cons, List.foldlM_cons, List.foldlM_cons]
    cases hslot : purpose? (.text b.slot) with
    | none =>
      -- the first slot without a purpose ends both walks
      refine .inr ⟨b, List.mem_cons_self, hslot, ?_, ?_⟩
      · have hload : (loadEntry modules registry base (.text b.slot) b.entry).result =
            .error (.misconfigured (.unknownSlot b.slot)) := by
          rw [result_loadEntry_of_none hslot, Value.plainText,
            Value.written_of_isLegible (Value.isLegible_of_text? rfl)]
          rfl
        exact congrArg (· >>= _) hload
      · have hput : base.putEntry (.text b.slot) (.hook b.hook) =
            .error (.misuse (.unknownHook (.text b.slot))) := by
          unfold HookSet.putEntry
          rw [show (Value.text b.slot).text?.bind HookName.ofSpelling? = none from hslot]
        exact congrArg (· >>= _) hput
    | some n =>
      have hload : (loadEntry modules registry base (.text b.slot) b.entry).result =
          .ok (base.put n (some b.hook)) := result_loadEntry_of_refersTo hslot b.refers base
      have hput : base.putEntry (.text b.slot) (.hook b.hook) = .ok (base.put n (some b.hook)) :=
        Hooks.putEntry_of_spelledBy base (b.purpose?_slot.mp hslot) (by simp)
      simp only [configured, mapped, hload, hput]
      rcases ih (base.put n (some b.hook)) with h | ⟨c, hc, h⟩
      · exact .inl h
      · exact .inr ⟨c, List.mem_cons_of_mem _ hc, h⟩

theorem exists_ofEntries {bs : List (Binding modules registry)} (h : ∀ b ∈ bs, ∃ n, b.isFor n = true) :
    ∃ a, HookSet.ofEntries (bs.map mapped) = .ok a ∧ ∀ n, a.get n = last bs n := by
  obtain ⟨a, hfold, hget⟩ := Hooks.exists_foldlM_putEntry (usable_mapped h) .empty
  refine ⟨a, hfold, fun n => ?_⟩
  have hfilter : (bs.map mapped).filter (fun e => n.spelledBy e.1) = (bs.filter (isFor n)).map mapped :=
    List.filter_map ..
  rw [hget n, hfilter, List.getLast?_map, last, HookSet.get_empty]
  cases (bs.filter (isFor n)).getLast? <;> rfl

theorem SpelledOnce.length_filter_le {bs : List (Binding modules registry)} (h : SpelledOnce bs)
    (n : HookName) : (bs.filter (isFor n)).length ≤ 1 := by
  have hpair := (List.Pairwise.filter (isFor n) h).imp_of_mem (S := fun _ _ => False)
    fun ha hb hnot => hnot n ⟨List.of_mem_filter ha, List.of_mem_filter hb⟩
  match hlist : bs.filter (isFor n) with
  | [] | [_] => simp
  | _ :: _ :: _ =>
    rw [hlist] at hpair
    exact absurd (List.rel_of_pairwise_cons hpair List.mem_cons_self) id

theorem last_eq_of_perm {bs cs : List (Binding modules registry)} (h : SpelledOnce bs)
    (hperm : cs.Perm bs) :
    last cs = last bs := by
  funext n
  have hfilter := hperm.symm.filter (isFor n)
  rw [last, last, Value.eq_of_perm_of_length_le_one hfilter (h.length_filter_le n)]

def fromSettings (s : Settings) (bs : List (Binding modules registry)) : Except Fault HookSet :=
  (hookSet modules registry { s with hooks := bs.map configured }).result

def fromMapping (bs : List (Binding modules registry)) : Except Fault HookSet :=
  HookSet.ofEntries (bs.map mapped)

theorem agree (s : Settings) (bs : List (Binding modules registry)) :
    (∃ a, fromSettings s bs = .ok a ∧ fromMapping bs = .ok a ∧ (∀ b ∈ bs, ∃ n, b.isFor n = true) ∧
      ∀ n, a.get n = last bs n) ∨
    ∃ b ∈ bs, (∀ n, b.isFor n = false) ∧
      fromSettings s bs = .error (.misconfigured (.unknownSlot b.slot)) ∧
      fromMapping bs = .error (.misuse (.unknownHook (.text b.slot))) := by
  have hsettings : fromSettings s bs =
      (bs.map configured).foldlM (fun h e => (loadEntry modules registry h e.1 e.2).result) .empty :=
    result_hookSet modules registry _
  rw [hsettings]
  rcases folds_agree bs .empty with ⟨a, hconfigured, hmapped⟩ | ⟨b, hb, hslot, hboth⟩
  · have hpurposes : ∀ b ∈ bs, ∃ n, b.isFor n = true := by
      intro b hb
      have hload := (exists_foldlM_loadEntry_iff .empty).mp ⟨a, hconfigured⟩
      obtain ⟨⟨n, hn⟩, -⟩ := hload b.configured (List.mem_map_of_mem hb)
      exact ⟨n, b.purpose?_slot.mp hn⟩
    obtain ⟨a', ha', hget⟩ := exists_ofEntries hpurposes
    cases hmapped.symm.trans ha'
    exact .inl ⟨a, hconfigured, hmapped, hpurposes, hget⟩
  · have hnone : ∀ n, b.isFor n = false := by
      intro n
      refine Bool.eq_false_iff.mpr fun hn => ?_
      rw [b.purpose?_slot.mpr hn] at hslot
      cases hslot
    exact .inr ⟨b, hb, hnone, hboth⟩

section
variable (s : Settings) {bs cs : List (Binding modules registry)}

theorem exists_fromSettings_iff :
    (∃ a, fromSettings s bs = .ok a) ↔ ∀ b ∈ bs, ∃ n, b.isFor n = true := by
  rcases agree s bs with ⟨a, hs, -, hpurposes, -⟩ | ⟨b, hb, hnone, hs, -⟩
  · exact iff_of_true ⟨a, hs⟩ hpurposes
  · refine iff_of_false (by simp [hs]) fun hall => ?_
    obtain ⟨n, hn⟩ := hall b hb
    rw [hnone n] at hn
    cases hn

theorem fromSettings_eq_ok_iff {a : HookSet} :
    fromSettings s bs = .ok a ↔ fromMapping bs = .ok a := by
  rcases agree s bs with ⟨b, hs, hm, -⟩ | ⟨b, -, -, hs, hm⟩
  · rw [hs, hm]
  · simp [hs, hm]

theorem kind_of_fromSettings {f : Fault} (h : fromSettings s bs = .error f) :
    f.kind = .configuration := by
  rcases agree s bs with ⟨a, hs, -⟩ | ⟨b, -, -, hs, -⟩
  · rw [hs] at h
    cases h
  · cases hs.symm.trans h
    rfl

theorem kind_of_fromMapping {f : Fault} (h : fromMapping bs = .error f) : f.kind = .contract := by
  rcases agree .default bs with ⟨a, -, hm, -⟩ | ⟨b, -, -, -, hm⟩
  · rw [hm] at h
    cases h
  · cases hm.symm.trans h
    rfl

theorem get_of_fromSettings {a : HookSet} (h : fromSettings s bs = .ok a) (n : HookName) :
    a.get n = last bs n := by
  rcases agree s bs with ⟨b, hs, -, -, hget⟩ | ⟨b, -, -, hs, -⟩
  · cases hs.symm.trans h
    exact hget n
  · rw [hs] at h
    cases h

theorem fromSettings_of_perm {a : HookSet} (honce : SpelledOnce bs) (hperm : cs.Perm bs)
    (h : fromSettings s bs = .ok a) : fromSettings s cs = .ok a := by
  have hpurposes : ∀ b ∈ cs, ∃ n, b.isFor n = true := fun b hb =>
    (exists_fromSettings_iff s).mp ⟨a, h⟩ b (hperm.mem_iff.mp hb)
  obtain ⟨a', ha'⟩ := (exists_fromSettings_iff s).mpr hpurposes
  have heq : a' = a := HookSet.ext_get fun n => by
    rw [get_of_fromSettings s ha', get_of_fromSettings s h, last_eq_of_perm honce hperm]
  rw [ha', heq]

theorem SpelledOnce.of_perm (honce : SpelledOnce bs) (hperm : cs.Perm bs) : SpelledOnce cs :=
  hperm.symm.pairwise honce fun h n hn => h n hn.symm

end

end Binding

/-- Settings make the hook set of the mapping from their slots to the loaded hooks. Either makes one
just where all slots have purposes. The last binding for each purpose counts, and where no two are
for the same one, their order does not matter. -/
theorem hookSet_eq_ofEntries {modules : Modules} {registry : Registry} (s : Settings)
    (bs : List (Binding modules registry)) :
    ((∃ a, Binding.fromSettings s bs = .ok a) ↔ ∀ b ∈ bs, ∃ n, b.isFor n = true) ∧
    (∀ a, Binding.fromSettings s bs = .ok a ↔ Binding.fromMapping bs = .ok a) ∧
    (∀ f, Binding.fromSettings s bs = .error f → f.kind = .configuration) ∧
    (∀ f, Binding.fromMapping bs = .error f → f.kind = .contract) ∧
    (∀ a, Binding.fromSettings s bs = .ok a → ∀ n, a.get n = Binding.last bs n) ∧
    ∀ cs, Binding.SpelledOnce bs → cs.Perm bs →
      (∀ a, Binding.fromSettings s cs = .ok a ↔ Binding.fromSettings s bs = .ok a) ∧
      ∀ a, Binding.fromMapping cs = .ok a ↔ Binding.fromMapping bs = .ok a := by
  refine ⟨Binding.exists_fromSettings_iff s, fun a => Binding.fromSettings_eq_ok_iff s,
    fun f => Binding.kind_of_fromSettings s, fun f => Binding.kind_of_fromMapping,
    fun a => Binding.get_of_fromSettings s, ?_⟩
  intro cs honce hperm
  have hsettings : ∀ a, Binding.fromSettings s cs = .ok a ↔ Binding.fromSettings s bs = .ok a :=
    fun a => ⟨Binding.fromSettings_of_perm s (honce.of_perm hperm) hperm.symm,
      Binding.fromSettings_of_perm s honce hperm⟩
  refine ⟨hsettings, fun a => ?_⟩
  rw [← Binding.fromSettings_eq_ok_iff s, ← Binding.fromSettings_eq_ok_iff s]
  exact hsettings a

theorem reference_with_params (slot : Value) {ref : String} (h : ref ≠ "") (params : Value) :
    reference slot (.ofValue (.map [(.text "hook", .text ref), (.text "params", params)])) =
      .ok (.text ref, .ofValue params) := by
  have hentries : (Linked.ofValue (.map [(.text "hook", .text ref), (.text "params", params)])).entries? =
      some [(.text "hook", .ofValue (.text ref)), (.text "params", .ofValue params)] := rfl
  have hportrait : (Linked.ofValue (.text ref)).portrait = .text ref := rfl
  have htruthy : (Value.text ref).truthy = true := by simp [Value.truthy, h]
  unfold reference
  simp [hentries, hportrait, htruthy, pure, Except.pure]

def quotedKeys : Binding toolbox .initial where
  slot := "renderKey"
  entry := .ofValue (.text "quote_identifier")
  hook := ⟨"quote_identifier", fun c => Shipped.quoteIdentifier.handler c []⟩
  refers := ⟨.text "quote_identifier", .ofValue .null, rfl, rfl, nofun⟩

def loweredKeys : Binding toolbox .initial where
  slot := "render_key"
  entry := .ofValue (.text "lowercase_key")
  hook := ⟨"lowercase_key", fun c => Shipped.lowercaseKey.handler c []⟩
  refers := ⟨.text "lowercase_key", .ofValue .null, rfl, rfl, nofun⟩

def refusedKeys : Binding toolbox .initial where
  slot := "validate"
  entry := .ofValue (.text "tools.refuse")
  hook := .failing "refuse" (.rejected "refused" none)
  refers := ⟨.text "tools.refuse", .ofValue .null, rfl,
    result_loadHook_of_callable rfl rfl (by decide) rfl _, nofun⟩

def listedKeys : Binding toolbox .initial where
  slot := "check"
  entry := .ofValue (.map [(.text "hook", .text "key_whitelist"),
    (.text "params", .map [(.text "keys", .list [.text "name"])])])
  hook := ⟨"key_whitelist", fun c => Shipped.keyWhitelist.handler c
    [(.text "keys", .ofValue (.list [.text "name"]))]⟩
  refers := ⟨.text "key_whitelist", .ofValue (.map [(.text "keys", .list [.text "name"])]),
    reference_with_params _ (by decide) _, rfl, fun _ => by cbv⟩

theorem hookSet_eq_ofEntries_respelled :
    let bs := [quotedKeys, refusedKeys, loweredKeys]
    (∃ a, Binding.fromSettings .default bs = .ok a ∧ Binding.fromMapping bs = .ok a ∧
      a.get .renderKey = some loweredKeys.hook ∧ a.get .validate = some refusedKeys.hook ∧
      a.get .renderValue = none) ∧
    (∃ f, Binding.fromSettings .default (listedKeys :: bs) = .error f ∧ f.kind = .configuration) ∧
    (∃ f, Binding.fromMapping (listedKeys :: bs) = .error f ∧ f.kind = .contract) ∧
    Binding.SpelledOnce [quotedKeys, refusedKeys] ∧
    [refusedKeys, quotedKeys].Perm [quotedKeys, refusedKeys] ∧
    (∀ a, Binding.fromSettings .default [refusedKeys, quotedKeys] = .ok a ↔
      Binding.fromSettings .default [quotedKeys, refusedKeys] = .ok a) ∧
    ∀ a, Binding.fromMapping [refusedKeys, quotedKeys] = .ok a ↔
      Binding.fromMapping [quotedKeys, refusedKeys] = .ok a := by
  intro bs
  have honce : Binding.SpelledOnce [quotedKeys, refusedKeys] := by
    refine List.pairwise_pair.mpr fun n hn => ?_
    cases n <;> exact absurd hn (by decide)
  have hperm : [refusedKeys, quotedKeys].Perm [quotedKeys, refusedKeys] := List.Perm.swap _ _ _
  obtain ⟨hexists, hsame, -, -, hlast, -⟩ := hookSet_eq_ofEntries .default bs
  obtain ⟨hunknown, hboth, hsettings, hmapping, -, -⟩ :=
    hookSet_eq_ofEntries .default (listedKeys :: bs)
  obtain ⟨-, -, -, -, -, horder⟩ := hookSet_eq_ofEntries .default [quotedKeys, refusedKeys]
  have hpurposes : ∀ b ∈ bs, ∃ n, b.isFor n = true :=
    List.forall_mem_cons.mpr ⟨⟨.renderKey, rfl⟩, List.forall_mem_cons.mpr ⟨⟨.validate, rfl⟩,
      List.forall_mem_cons.mpr ⟨⟨.renderKey, rfl⟩, nofun⟩⟩⟩
  have hnone : ¬∀ b ∈ listedKeys :: bs, ∃ n, b.isFor n = true := by
    intro hall
    obtain ⟨n, hn⟩ := hall listedKeys List.mem_cons_self
    cases n <;> exact absurd hn (by decide)
  obtain ⟨a, ha⟩ := hexists.mpr hpurposes
  refine ⟨⟨a, ha, (hsame a).mp ha, ?_, ?_, ?_⟩, ?_, ?_, honce, hperm, horder _ honce hperm⟩
  · rw [hlast a ha]
    rfl
  · rw [hlast a ha]
    rfl
  · rw [hlast a ha]
    rfl
  · cases hf : Binding.fromSettings .default (listedKeys :: bs) with
    | error f => exact ⟨f, rfl, hsettings f hf⟩
    | ok a => exact absurd (hunknown.mp ⟨a, hf⟩) hnone
  · cases hf : Binding.fromMapping (listedKeys :: bs) with
    | error f => exact ⟨f, rfl, hmapping f hf⟩
    | ok a => exact absurd (hunknown.mp ⟨a, (hboth a).mpr hf⟩) hnone

/-- Parameters with a number that is too long to be written. -/
def untold : List (Value × Value) :=
  [(.text "keys", .list [.int Value.tooLong])]

theorem not_areTold_untold : ¬AreTold (.ofValue (.map untold)) := by
  intro h
  have hlegible : Value.isLegible (.map untold) = true := h rfl
  rw [untold, Value.isLegible, Value.entriesLegible, Value.isLegible_of_text? (s := "keys") rfl,
    Value.isLegible, Value.areLegible, Value.isLegible_tooLong] at hlegible
  cases hlegible

/-- A reference with such parameters loads, and a mapping takes the hook; settings fail all the
same, for they cannot tell what they loaded. -/
theorem hookSet_untold :
    (loadHook .own .initial (.text "key_whitelist") (.ofValue (.map untold))).result =
      .ok ⟨"key_whitelist", fun c => Shipped.keyWhitelist.handler c
        (untold.map fun e => (e.1, .ofValue e.2))⟩ ∧
    (∃ a, HookSet.ofEntries [(.text "validate", .hook ⟨"key_whitelist", fun c =>
      Shipped.keyWhitelist.handler c (untold.map fun e => (e.1, .ofValue e.2))⟩)] = .ok a) ∧
    (hookSet .own .initial { Settings.default with hooks := [(.text "validate", .ofValue (.map
      [(.text "hook", .text "key_whitelist"), (.text "params", .map untold)]))] }).result =
        .error .longInteger := by
  have href := reference_with_params (.text "validate") (by decide : "key_whitelist" ≠ "") (.map untold)
  refine ⟨rfl, ⟨_, rfl⟩, ?_⟩
  rw [result_hookSet, List.foldlM_cons,
    result_loadEntry_of_not_told (n := .validate) rfl href rfl not_areTold_untold]
  rfl

end Settings

end FilterTree
