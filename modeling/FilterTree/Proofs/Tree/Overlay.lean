import FilterTree.Proofs.Tree.Bare

/-! Hooks of a call over hooks of nodes. Purpose by purpose, what a call hands over counts before
what a node has, so that the call renders what would be rendered without it if its hooks had been
put over those of every leaf. -/

namespace FilterTree

namespace HookName

def spelledBy (n : HookName) : Value → Bool
  | .text s => s == n.name || s == n.camelName
  | _ => false

theorem ofSpelling?_of_spelledBy {n : HookName} {v : Value} (h : n.spelledBy v = true) :
    v.text?.bind ofSpelling? = some n := by
  cases v with
  | text s =>
    have hs : s = n.name ∨ s = n.camelName := by simpa [spelledBy] using h
    rcases hs with rfl | rfl <;> cases n <;> rfl
  | _ => cases h

theorem eq_of_spelledBy {n m : HookName} {v : Value} (hn : n.spelledBy v = true)
    (hm : m.spelledBy v = true) : n = m :=
  Option.some.inj ((ofSpelling?_of_spelledBy hn).symm.trans (ofSpelling?_of_spelledBy hm))

end HookName

/-- The hook set with others in the place of its own, wherever there are others. -/
def HookSet.overlaid (others : HookName → Option Hook) (h : HookSet) : HookSet where
  validate := (others .validate).or h.validate
  renderKey := (others .renderKey).or h.renderKey
  renderValue := (others .renderValue).or h.renderValue
  renderOperator := (others .renderOperator).or h.renderOperator
  renderExpression := (others .renderExpression).or h.renderExpression

theorem HookSet.get_overlaid (others : HookName → Option Hook) (h : HookSet) (n : HookName) :
    (h.overlaid others).get n = (others n).or (h.get n) := by
  cases n <;> rfl

theorem HookSet.get_empty (n : HookName) : HookSet.empty.get n = none := by
  cases n <;> rfl

namespace Hooks

/-- What a call takes as hooks: none, a hook set, or a mapping from purposes, spelled either way, to
hooks or to nothing. -/
def Usable : Hooks → Prop
  | .none | .set _ _ => True
  | .mapping entries =>
    ∀ e ∈ entries, (∃ n : HookName, n.spelledBy e.1 = true) ∧ ∀ v, e.2 ≠ .inert v
  | .other _ => False

def defines : Hooks → HookName → Option Hook
  | .none, _ | .other _, _ => Option.none
  | .set _ h, n => h.get n
  | .mapping entries, n => (entries.filter (n.spelledBy ·.1)).getLast?.bind (·.2.hook?)

def overlaid (others : HookName → Option Hook) : Hooks → Hooks
  | .set identity h => .set identity (h.overlaid others)
  | hooks => hooks

/-! ### Hook sets made from mappings -/

theorem putEntry_of_spelledBy (h : HookSet) {n : HookName} {name : Value} {e : Entry}
    (hn : n.spelledBy name = true) (he : ∀ v, e ≠ .inert v) :
    h.putEntry name e = .ok (h.put n e.hook?) := by
  unfold HookSet.putEntry
  rw [HookName.ofSpelling?_of_spelledBy hn]
  cases e with
  | inert v => exact absurd rfl (he v)
  | absent | hook => rfl

theorem exists_foldlM_putEntry {entries : List (Value × Entry)} (hu : (mapping entries).Usable)
    (base : HookSet) :
    ∃ h, entries.foldlM (fun h (name, e) => h.putEntry name e) base = .ok h ∧
      ∀ n, h.get n = ((entries.filter (n.spelledBy ·.1)).getLast?.map (·.2.hook?)).getD
        (base.get n) := by
  induction entries generalizing base with
  | nil => exact ⟨base, rfl, fun _ => rfl⟩
  | cons e rest ih =>
    obtain ⟨name, entry⟩ := e
    obtain ⟨⟨m, hm⟩, hcall⟩ := hu _ List.mem_cons_self
    obtain ⟨h, hfold, hget⟩ :=
      ih (fun e he => hu e (List.mem_cons_of_mem _ he)) (base.put m entry.hook?)
    refine ⟨h, ?_, fun n => ?_⟩
    · rw [List.foldlM_cons]
      dsimp only
      rw [putEntry_of_spelledBy base hm hcall]
      exact hfold
    · rw [hget n]
      -- an entry for the same purpose counts only where none of the rest is for it
      by_cases hn : n = m
      · subst hn
        rw [List.filter_cons_of_pos (p := fun e : Value × Entry => n.spelledBy e.1) hm,
          List.getLast?_cons, HookSet.get_put_self]
        cases (rest.filter (n.spelledBy ·.1)).getLast? <;> rfl
      · have hother : ¬ n.spelledBy name = true := fun h => hn (HookName.eq_of_spelledBy h hm)
        rw [List.filter_cons_of_neg (p := fun e : Value × Entry => n.spelledBy e.1) hother,
          HookSet.get_put_of_ne _ _ hn]

theorem exists_resolve {given : Hooks} (hu : given.Usable) (fresh : Nat) :
    ∃ k h, given.resolve fresh = .ok (k, h) ∧ ∀ n, h.get n = given.defines n := by
  cases given with
  | none => exact ⟨emptyIdentity, .empty, rfl, HookSet.get_empty⟩
  | set k h => exact ⟨k, h, rfl, fun _ => rfl⟩
  | mapping entries =>
    obtain ⟨h, hfold, hget⟩ := exists_foldlM_putEntry hu .empty
    refine ⟨fresh, h, ?_, fun n => ?_⟩
    · rw [resolve, HookSet.ofEntries, hfold]
      rfl
    · rw [hget n, HookSet.get_empty, defines]
      cases (entries.filter (n.spelledBy ·.1)).getLast? <;> rfl
  | other v => cases hu

end Hooks

/-! ### One expression -/

def resolved (n : HookName) (overrides node : Hooks) : Except Fault (Option Hook) :=
  (resolveHook n.name overrides node).map Prod.fst

theorem resolved_eq {n : HookName} {overrides node : Hooks} {a b : Option Hook}
    (ha : overrides.lookup n.name = .ok a) (hb : node.lookup n.name = .ok b) :
    resolved n overrides node = .ok ((a.or b).or (Builtin.hooks.get n)) := by
  unfold resolved resolveHook
  rw [ha, hb, get_builtin_of_name]
  cases a with
  | some h => rfl
  | none =>
    cases b with
    | some h => rfl
    | none => cases Builtin.hooks.get n <;> rfl

section
variable {overrides node overrides' node' : Hooks}

theorem runHook_congr {n : HookName} (h : resolved n overrides node = resolved n overrides' node')
    (c : Context) : runHook n c overrides node = runHook n c overrides' node' := by
  unfold resolved at h
  unfold runHook
  generalize resolveHook n.name overrides node = x at h ⊢
  generalize resolveHook n.name overrides' node' = y at h ⊢
  rcases x with e | ⟨a, i⟩ <;> rcases y with d | ⟨b, j⟩ <;> cases h <;> rfl

theorem renderParts_congr (h : ∀ n : HookName, n ≠ .renderExpression →
    resolved n overrides node = resolved n overrides' node') (c : Context) :
    renderParts c overrides node = renderParts c overrides' node' := by
  have hkey := runHook_congr (h .renderKey nofun) c
  have hoperator := runHook_congr (h .renderOperator nofun) c
  have hvalue := runHook_congr (h .renderValue nofun) c
  unfold renderParts
  rw [hkey, hoperator, hvalue]

theorem result_renderExpression_congr
    (h : ∀ n : HookName, resolved n overrides node = resolved n overrides' node') (c : Context) :
    (renderExpression c overrides node).result =
      (renderExpression c overrides' node').result := by
  have hparts := renderParts_congr (fun n _ => h n) c
  have hwhole := h .renderExpression
  unfold resolved at hwhole
  unfold renderExpression
  generalize resolveHook HookName.renderExpression.name overrides node = x at hwhole ⊢
  generalize resolveHook HookName.renderExpression.name overrides' node' = y at hwhole ⊢
  rcases x with e | ⟨a, i⟩ <;> rcases y with d | ⟨b, j⟩ <;> cases hwhole
  · rfl
  · rw [Outcome.ofExcept_ok, Outcome.ofExcept_ok, pure_bind, pure_bind]
    cases a with
    | none => rw [hparts]
    | some hook =>
      dsimp only
      rw [Outcome.result_bind, Outcome.result_bind, hparts]
      congr 1
      funext v
      split <;> rfl

end

/-- What a call and a leaf define together, a leaf may define alone. -/
theorem resolved_overlaid {overrides : Hooks} {others : HookName → Option Hook}
    (ho : ∀ n : HookName, overrides.lookup n.name = .ok (others n)) (k l : Nat) (own : HookSet)
    (n : HookName) :
    resolved n overrides (.set k own) = resolved n .none (.set l (own.overlaid others)) := by
  have hnone : Hooks.none.lookup n.name = .ok Option.none := rfl
  rw [resolved_eq (ho n) (Hooks.lookup_set k own n),
    resolved_eq hnone (Hooks.lookup_set l _ n), HookSet.get_overlaid, Option.none_or]

/-! ### Whole trees -/

namespace Tree

mutual

/-- The tree with other hooks put over those of every leaf. -/
def overlaid (others : HookName → Option Hook) : Tree → Tree
  | .leaf id h c => .leaf id (h.overlaid others) c
  | .branch id h slots => .branch id h (overlaidSlots others slots)

def overlaidSlots (others : HookName → Option Hook) : List (Join × Tree) → List (Join × Tree)
  | [] => []
  | (j, t) :: rest => (j, overlaid others t) :: overlaidSlots others rest

end

def HoldsSet (h : Hooks) (_ : Context) : Prop :=
  ∃ k own, h = .set k own

def Hooked (t : Tree) : Prop :=
  t.AllLeaves HoldsSet

def shown : Tree → Value → Value
  | .leaf _ _ _, v => v
  | .branch _ _ _, v => .text ("(" ++ v.plain ++ ")")

theorem result_renderSlots_cons (overrides : Hooks) (j : Join) (t : Tree)
    (rest : List (Join × Tree)) :
    (renderSlots overrides ((j, t) :: rest)).result =
      (renderWith overrides t).result >>= fun v =>
        (renderSlots overrides rest).result >>= fun others => .ok ((j, t.shown v) :: others) := by
  rw [renderSlots, Outcome.result_bind]
  congr 1
  funext v
  rw [Outcome.result_bind]
  cases t <;> rfl

theorem result_renderWith_branch {a b : Hooks} {i k : NodeId} {h l : Hooks}
    {xs ys : List (Join × Tree)} (hslots : (renderSlots a xs).result = (renderSlots b ys).result) :
    (renderWith a (.branch i h xs)).result = (renderWith b (.branch k l ys)).result := by
  rw [renderWith, renderWith, Outcome.result_bind, Outcome.result_bind, hslots]

section
variable {overrides : Hooks} {others : HookName → Option Hook}

mutual

theorem result_renderWith_overlaid
    (ho : ∀ n : HookName, overrides.lookup n.name = .ok (others n)) : ∀ t : Tree, t.Hooked →
      (renderWith overrides t).result = (renderWith .none (t.overlaid others)).result
  | .leaf _ _ c, ⟨k, own, hown⟩ => by
    subst hown
    exact result_renderExpression_congr (resolved_overlaid ho k k own) c
  | .branch _ _ slots, h => result_renderWith_branch (result_renderSlots_overlaid ho slots h)

theorem result_renderSlots_overlaid
    (ho : ∀ n : HookName, overrides.lookup n.name = .ok (others n)) :
    ∀ slots : List (Join × Tree), AllLeavesOfSlots HoldsSet slots →
      (renderSlots overrides slots).result =
        (renderSlots .none (overlaidSlots others slots)).result
  | [], _ => rfl
  | (j, t) :: rest, h => by
    rw [overlaidSlots, result_renderSlots_cons, result_renderSlots_cons,
      result_renderWith_overlaid ho t h.1, result_renderSlots_overlaid ho rest h.2]
    cases t <;> rfl

end

end

theorem exists_renderWith {given : Hooks} {p : Nat × HookSet} (hp : given.resolve 0 = .ok p) :
    ∃ overrides : Hooks, (∀ n : HookName, overrides.lookup n.name = .ok (p.2.get n)) ∧
      ∀ t : Tree, (∀ id h, t ≠ .branch id h []) → t.render given = t.renderWith overrides := by
  by_cases hnone : given = .none
  · subst hnone
    cases hp
    refine ⟨.none, fun n => congrArg Except.ok (HookSet.get_empty n).symm, fun t ht => ?_⟩
    rcases t with _ | ⟨id, h, _ | _⟩
    · rfl
    · exact absurd rfl (ht id h)
    · rfl
  · refine ⟨.set p.1 p.2, Hooks.lookup_set p.1 p.2, fun t ht => ?_⟩
    have hrender : t.render given =
        Outcome.ofExcept (given.resolve 0) >>= fun p => t.renderWith (.set p.1 p.2) := by
      rcases t with _ | ⟨id, h, _ | _⟩
      · cases given <;> rfl
      · exact absurd rfl (ht id h)
      · cases given <;> first | rfl | exact absurd rfl hnone
    rw [hrender, hp, Outcome.ofExcept_ok, pure_bind]

theorem exists_render {given : Hooks} (hu : given.Usable) :
    ∃ overrides : Hooks, (∀ n : HookName, overrides.lookup n.name = .ok (given.defines n)) ∧
      ∀ t : Tree, (∀ id h, t ≠ .branch id h []) →
        (t.render given).result = (t.renderWith overrides).result := by
  obtain ⟨k, h, hresolve, hget⟩ := Hooks.exists_resolve hu 0
  obtain ⟨overrides, hlookup, hrender⟩ := exists_renderWith hresolve
  exact ⟨overrides, fun n => (hlookup n).trans (congrArg Except.ok (hget n)),
    fun t ht => by rw [hrender t ht]⟩

theorem result_render_overlaid {given : Hooks} (hu : given.Usable) {t : Tree} (ht : t.Hooked) :
    (t.render given).result = ((t.overlaid given.defines).render .none).result := by
  obtain ⟨overrides, hlookup, hrender⟩ := exists_render hu
  rcases t with ⟨id, h, c⟩ | ⟨id, h, _ | ⟨p, slots⟩⟩
  · rw [hrender _ (fun _ _ => by simp), result_renderWith_overlaid hlookup _ ht]
    rfl
  · rfl
  · rw [hrender _ (fun _ _ => by simp), result_renderWith_overlaid hlookup _ ht]
    rfl

theorem result_render_of_falsy {given : Hooks} (hu : given.Usable) {hook : Hook} {c : Context}
    {v : Value} (hhook : given.defines .renderExpression = some hook)
    (hrun : (hook.run c).result = .ok v) (hv : v.truthy = false) (id k : Nat) (own : HookSet)
    (whole : Option Hook) :
    ((leaf id (.set k (own.put .renderExpression whole)) c).render given).result =
      (renderParts c .none (.set k (own.overlaid given.defines))).result := by
  have hnone (n : HookName) : Hooks.none.lookup n.name = .ok Option.none := rfl
  have hwhole : resolveHook HookName.renderExpression.name .none
      (.set k ((own.put .renderExpression whole).overlaid given.defines)) =
        .ok (some hook, .node) := by
    unfold resolveHook
    rw [Hooks.lookup_set, HookSet.get_overlaid, hhook]
    rfl
  have hparts : renderParts c .none
      (.set k ((own.put .renderExpression whole).overlaid given.defines)) =
        renderParts c .none (.set k (own.overlaid given.defines)) := by
    refine renderParts_congr (fun n hn => ?_) c
    rw [resolved_eq (hnone n) (Hooks.lookup_set k _ n), resolved_eq (hnone n)
      (Hooks.lookup_set k _ n), HookSet.get_overlaid, HookSet.get_overlaid,
      HookSet.get_put_of_ne _ _ hn]
  have hooked : (leaf id (.set k (own.put .renderExpression whole)) c).Hooked := ⟨k, _, rfl⟩
  rw [result_render_overlaid hu hooked, ← hparts]
  change (renderExpression c .none
    (.set k ((own.put .renderExpression whole).overlaid given.defines))).result = _
  unfold renderExpression
  rw [hwhole, Outcome.ofExcept_ok, pure_bind]
  dsimp only
  rw [Outcome.result_bind_of_ok _ hrun, if_neg (by simp [hv])]

end Tree

end FilterTree
