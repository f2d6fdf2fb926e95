import FilterTree.Proofs.Store.Entry
import FilterTree.Proofs.Tree.Overlay

/-! Validation hooks that tell of their calls. To see when validation hooks are called, each of them is
made to note the call before it does what it does. Nothing else depends on these hooks: views, parts
of expressions and texts stay as they are. -/

namespace FilterTree

/-- What is noted when a validation hook is called. -/
abbrev Note := Hook → Context → List Event

def Hook.noted (note : Note) (hook : Hook) : Hook :=
  ⟨hook.name, fun c => ⟨note hook c ++ (hook.run c).events, (hook.run c).result⟩⟩

def HookSet.noted (note : Note) (h : HookSet) : HookSet :=
  { h with validate := h.validate.map (·.noted note) }

def Entry.noted (note : Note) : Entry → Entry
  | .hook h => .hook (h.noted note)
  | e => e

/-- In a mapping only the entries for validation tell of calls. -/
def Hooks.noted (note : Note) : Hooks → Hooks
  | .set k h => .set k (h.noted note)
  | .mapping entries => .mapping (entries.map fun e =>
      (e.1, if e.1.text? = some HookName.validate.name then e.2.noted note else e.2))
  | h => h

variable {note : Note}

/-! ### Looking hooks up -/

theorem HookSet.get_noted (h : HookSet) {n : HookName} (hn : n ≠ .validate) :
    (h.noted note).get n = h.get n := by
  cases n <;> first | rfl | exact absurd rfl hn

theorem HookSet.put_noted (h : HookSet) (n : HookName) (hook : Option Hook) :
    (h.put n hook).noted note =
      (h.noted note).put n (if n = .validate then hook.map (·.noted note) else hook) := by
  cases n <;> rfl

theorem eq_text_of_same {k : Value} {name : String} (h : k.same true (.text name) = true) :
    k = .text name := by
  cases k <;> simp_all [Value.same, Value.sameScalar, Value.sameNumber?, Value.text?]

theorem Hooks.lookup_noted (h : Hooks) {n : HookName} (hn : n ≠ .validate) :
    (h.noted note).lookup n.name = h.lookup n.name := by
  cases h with
  | none => rfl
  | other v => rfl
  | set k own => rw [noted, lookup_set, lookup_set, HookSet.get_noted own hn]
  | mapping entries =>
    simp only [noted, lookup]
    congr 1
    induction entries with
    | nil => rfl
    | cons e rest ih =>
      rw [List.map_cons, List.find?_cons, List.find?_cons]
      cases hsame : e.1.same true (.text n.name) with
      | false => exact ih
      | true =>
        have hname : e.1.text? ≠ some HookName.validate.name := by
          rw [eq_text_of_same hsame]
          cases n <;> first | decide | exact absurd rfl hn
        simp only [Option.bind_some, if_neg hname]

theorem ofSpelling?_eq_validate {s : String} (h : HookName.ofSpelling? s = some .validate) :
    s = HookName.validate.name := by
  unfold HookName.ofSpelling? at h
  have hfound := List.find?_some h
  rcases Bool.or_eq_true_iff.mp hfound with hs | hs
  · exact (beq_iff_eq.mp hs).symm
  · exact (beq_iff_eq.mp hs).symm

theorem HookSet.putEntry_noted (h : HookSet) (name : Value) (e : Entry) :
    (h.noted note).putEntry name
        (if name.text? = some HookName.validate.name then e.noted note else e) =
      (h.putEntry name e).map (·.noted note) := by
  unfold HookSet.putEntry
  cases hspelled : name.text?.bind HookName.ofSpelling? with
  | none => rfl
  | some n =>
    obtain ⟨s, hs, hn⟩ := Option.bind_eq_some_iff.mp hspelled
    have hvalidate : name.text? = some HookName.validate.name ↔ n = .validate := by
      rw [hs, Option.some.injEq]
      constructor
      · rintro rfl
        exact (Option.some.inj hn).symm
      · rintro rfl
        exact ofSpelling?_eq_validate hn
    simp only [hvalidate]
    by_cases hv : n = .validate
    · rw [if_pos hv]
      cases e with
      | inert v => rfl
      | absent =>
        simp only [Entry.noted, Except.map, put_noted, if_pos hv]
        rfl
      | hook k =>
        simp only [Entry.noted, Except.map, put_noted, if_pos hv]
        rfl
    · rw [if_neg hv]
      cases e with
      | inert v => rfl
      | absent | hook => simp only [Except.map, put_noted, if_neg hv]

theorem HookSet.foldlM_putEntry_noted (entries : List (Value × Entry)) (base : HookSet) :
    (entries.map fun e =>
        (e.1, if e.1.text? = some HookName.validate.name then e.2.noted note else e.2)).foldlM
      (fun (h : HookSet) (e : Value × Entry) => h.putEntry e.1 e.2) (base.noted note) =
    Except.map (·.noted note)
      (entries.foldlM (fun (h : HookSet) (e : Value × Entry) => h.putEntry e.1 e.2) base) := by
  induction entries generalizing base with
  | nil => rfl
  | cons e rest ih =>
    rw [List.map_cons, List.foldlM_cons, List.foldlM_cons, putEntry_noted]
    cases base.putEntry e.1 e.2 with
    | error f => rfl
    | ok h => exact ih h

theorem Hooks.resolve_noted (given : Hooks) (fresh : Nat) :
    (given.noted note).resolve fresh =
      (given.resolve fresh).map fun p => (p.1, p.2.noted note) := by
  cases given with
  | none => rfl
  | other v => rfl
  | set k own => rfl
  | mapping entries =>
    have hentries : HookSet.ofEntries _ = (HookSet.ofEntries entries).map (·.noted note) :=
      HookSet.foldlM_putEntry_noted entries .empty
    change (HookSet.ofEntries _).map _ = ((HookSet.ofEntries entries).map _).map _
    rw [hentries]
    cases HookSet.ofEntries entries <;> rfl

/-! ### Rendering -/

theorem resolveHook_noted (overrides node : Hooks) {n : HookName} (hn : n ≠ .validate) :
    resolveHook n.name (overrides.noted note) (node.noted note) =
      resolveHook n.name overrides node := by
  unfold resolveHook
  rw [Hooks.lookup_noted overrides hn, Hooks.lookup_noted node hn]

theorem renderExpression_noted (c : Context) (overrides node : Hooks) :
    renderExpression c (overrides.noted note) (node.noted note) =
      renderExpression c overrides node := by
  have hresolve {n : HookName} (hn : n ≠ .validate) :
      resolveHook n.name (overrides.noted note) (node.noted note) =
        resolveHook n.name overrides node := resolveHook_noted overrides node hn
  unfold renderExpression renderParts runHook
  rw [hresolve (n := .renderExpression) nofun, hresolve (n := .renderKey) nofun,
    hresolve (n := .renderOperator) nofun, hresolve (n := .renderValue) nofun]

namespace Tree

mutual

def noted (note : Note) : Tree → Tree
  | .leaf id h c => .leaf id (h.noted note) c
  | .branch id h slots => .branch id (h.noted note) (notedSlots note slots)

def notedSlots (note : Note) : List (Join × Tree) → List (Join × Tree)
  | [] => []
  | (j, t) :: rest => (j, noted note t) :: notedSlots note rest

end

mutual

theorem renderWith_noted (overrides : Hooks) : ∀ t : Tree,
    renderWith (overrides.noted note) (t.noted note) = renderWith overrides t
  | .leaf _ h c => renderExpression_noted c overrides h
  | .branch _ _ slots => by rw [noted, renderWith, renderWith, renderSlots_noted overrides slots]

theorem renderSlots_noted (overrides : Hooks) : ∀ slots : List (Join × Tree),
    renderSlots (overrides.noted note) (notedSlots note slots) = renderSlots overrides slots
  | [] => rfl
  | (j, t) :: rest => by
    rw [notedSlots, renderSlots, renderSlots, renderWith_noted overrides t,
      renderSlots_noted overrides rest]
    cases t <;> rfl

end

theorem render_of_given {t : Tree} (ht : ∀ id h, t ≠ .branch id h []) {given : Hooks}
    (hgiven : given ≠ .none) : t.render given = (do
      let (identity, h) ← Outcome.ofExcept (given.resolve 0)
      t.renderWith (.set identity h)) := by
  rcases t with _ | ⟨id, h, _ | _⟩
  · cases given with
    | none => exact absurd rfl hgiven
    | _ => rfl
  · exact absurd rfl (ht id h)
  · cases given with
    | none => exact absurd rfl hgiven
    | _ => rfl

theorem render_noted (overrides : Hooks) (t : Tree) :
    (t.noted note).render (overrides.noted note) = t.render overrides := by
  by_cases ht : ∃ id h, t = .branch id h []
  · obtain ⟨id, h, rfl⟩ := ht
    rfl
  · have hfull : ∀ id h, t ≠ .branch id h [] := fun id h heq => ht ⟨id, h, heq⟩
    have hnoted : ∀ id h, t.noted note ≠ .branch id h [] := by
      rcases t with _ | ⟨id, h, _ | ⟨⟨j, u⟩, rest⟩⟩
      · simp [noted]
      · exact absurd rfl (hfull id h)
      · simp [noted, notedSlots]
    by_cases hnone : overrides = .none
    · subst hnone
      rcases t with _ | ⟨id, h, _ | ⟨⟨j, u⟩, rest⟩⟩
      · exact renderWith_noted .none _
      · rfl
      · exact renderWith_noted .none (.branch id h ((j, u) :: rest))
    · have hnone' : overrides.noted note ≠ .none := by
        cases overrides with
        | none => exact absurd rfl hnone
        | _ => simp [Hooks.noted]
      rw [render_of_given hfull hnone, render_of_given hnoted hnone', Hooks.resolve_noted]
      cases overrides.resolve 0 with
      | error e => rfl
      | ok q => exact renderWith_noted (.set q.1 q.2) t

theorem typeName_noted (t : Tree) : (t.noted note).typeName = t.typeName := by
  cases t <;> rfl

theorem fieldName_noted (t : Tree) : (t.noted note).fieldName = t.fieldName := by
  cases t <;> rfl

theorem id_noted (t : Tree) : (t.noted note).id = t.id := by
  cases t <;> rfl

theorem text_noted (t : Tree) : (t.noted note).text = t.text := by
  have hrender : (t.noted note).render .none = t.render .none := render_noted .none t
  rw [text, text, hrender]

theorem display_noted (t : Tree) : (t.noted note).display = t.display := by
  cases t with
  | leaf id h c => rfl
  | branch id h slots =>
    have hrender : (noted note (.branch id h slots)).render .none = _ :=
      render_noted .none (.branch id h slots)
    change (do
      let v ← (noted note (.branch id h slots)).render .none
      return s!"Condition({v.display})" : Outcome String) = _
    rw [hrender]
    rfl

mutual

theorem record_noted : ∀ t : Tree, (t.noted note).record = t.record
  | .leaf _ _ _ => rfl
  | .branch _ _ slots => by rw [noted, record, record, recordOfSlots_noted slots]

theorem recordOfSlots_noted : ∀ slots : List (Join × Tree),
    recordOfSlots (notedSlots note slots) = recordOfSlots slots
  | [] => rfl
  | (j, t) :: rest => by
    rw [notedSlots, recordOfSlots, recordOfSlots, recordOfSlots_noted rest, record_noted t,
      fieldName_noted]

end

mutual

theorem ids_noted : ∀ t : Tree, (t.noted note).ids = t.ids
  | .leaf _ _ _ => rfl
  | .branch _ _ slots => by rw [noted, ids, ids, idsOfSlots_noted slots]

theorem idsOfSlots_noted : ∀ slots : List (Join × Tree),
    idsOfSlots (notedSlots note slots) = idsOfSlots slots
  | [] => rfl
  | (j, t) :: rest => by
    rw [notedSlots, idsOfSlots, idsOfSlots, idsOfSlots_noted rest, ids_noted t]

end

theorem asOperand_noted (t : Tree) : (t.noted note).asOperand = t.asOperand := by
  unfold asOperand
  rw [id_noted, typeName_noted, text_noted, display_noted, record_noted]

theorem unending_noted (t : Tree) : (t.noted note).unending = t.unending := by
  unfold unending
  rw [id_noted, typeName_noted]

mutual

theorem sketch_noted : ∀ (t : Tree) (path : List Nat),
    (t.noted note).sketch path = t.sketch path
  | .leaf _ _ _, _ => rfl
  | .branch _ _ slots, path => by rw [noted, sketch, sketch, sketchOfSlots_noted slots]

theorem sketchOfSlots_noted : ∀ (slots : List (Join × Tree)) (path : List Nat)
    (index : Nat),
    sketchOfSlots path index (notedSlots note slots) = sketchOfSlots path index slots
  | [], _, _ => rfl
  | (j, t) :: rest, path, index => by
    rw [notedSlots, sketchOfSlots, sketchOfSlots, sketch_noted t, sketchOfSlots_noted rest,
      fieldName_noted]

end

theorem dump_noted (t : Tree) (format : Value) :
    (t.noted note).dump format = t.dump format := by
  unfold dump encode
  rw [record_noted, sketch_noted]

mutual

theorem same_noted : ∀ a b : Tree, (a.noted note).same (b.noted note) = a.same b
  | .leaf _ _ _, b => by cases b <;> rfl
  | .branch _ _ xs, b => by
    cases b with
    | leaf => rfl
    | branch _ _ ys => exact sameSlots_noted xs ys

theorem sameSlots_noted : ∀ xs ys : List (Join × Tree),
    sameSlots (notedSlots note xs) (notedSlots note ys) = sameSlots xs ys
  | [], ys => by cases ys <;> rfl
  | (j, t) :: xs, ys => by
    cases ys with
    | nil => rfl
    | cons p ys =>
      obtain ⟨k, u⟩ := p
      rw [notedSlots, notedSlots, sameSlots, sameSlots, same_noted t u, sameSlots_noted xs ys]

end

theorem equal_noted (a b : Tree) : (a.noted note).equal (b.noted note) = a.equal b := by
  unfold equal
  rw [record_noted, record_noted, same_noted]

theorem notedSlots_eq_map (slots : List (Join × Tree)) :
    notedSlots note slots = slots.map fun p => (p.1, p.2.noted note) := by
  induction slots with
  | nil => rfl
  | cons p rest ih => rw [notedSlots, ih, List.map_cons]

end Tree

/-! ### Stores -/

def Node.noted (note : Note) (n : Node) : Node :=
  { n with hooks := n.hooks.noted note }

def Store.noted (note : Note) (s : Store) : Store :=
  { s with nodes := s.nodes.map (·.noted note) }

namespace Store

theorem noted_empty : empty.noted note = empty := by
  rw [noted, empty]
  exact congrArg (Store.mk · 1) Array.map_empty

theorem nodes_noted (s : Store) (i : NodeId) :
    (s.noted note).nodes[i]? = s.nodes[i]?.map (·.noted note) :=
  Array.getElem?_map ..

@[simp] theorem size_noted (s : Store) : (s.noted note).nodes.size = s.nodes.size :=
  Array.size_map ..

@[simp] theorem slots_noted (s : Store) (i : NodeId) : (s.noted note).slots i = s.slots i := by
  unfold slots
  rw [nodes_noted]
  rcases s.nodes[i]? with _ | ⟨_, _ | _⟩ <;> rfl

@[simp] theorem isBranch_noted (s : Store) (i : NodeId) :
    (s.noted note).isBranch i = s.isBranch i := by
  unfold isBranch
  rw [nodes_noted]
  rcases s.nodes[i]? with _ | ⟨_, _ | _⟩ <;> rfl

@[simp] theorem hooks_noted (s : Store) (i : NodeId) :
    (s.noted note).hooks i = (s.hooks i).noted note := by
  unfold hooks
  rw [nodes_noted]
  rcases s.nodes[i]? with _ | _ <;> rfl

theorem viewWithin_noted (s : Store) (d : Nat) (i : NodeId) :
    (s.noted note).viewWithin d i = (s.viewWithin d i).noted note := by
  induction d generalizing i with
  | zero => rfl
  | succ d ih =>
    rw [viewWithin, viewWithin, nodes_noted]
    simp only [ih, Tree.unending_noted, Tree.asOperand_noted]
    rcases s.nodes[i]? with _ | ⟨h, ⟨key, operator, value⟩ | slots⟩
    · rfl
    · rfl
    · simp only [Option.map_some, Node.noted, Tree.noted, Tree.notedSlots_eq_map, List.map_map]
      rfl

theorem view_noted (s : Store) (i : NodeId) : (s.noted note).view i = (s.view i).noted note := by
  rw [view, view, size_noted, viewWithin_noted]

@[simp] theorem see_noted (s : Store) : (s.noted note).see = s.see := by
  funext i
  rw [see, see, view_noted, Tree.asOperand_noted]

@[simp] theorem contextOf_noted (s : Store) (key operator value : Argument) :
    (s.noted note).contextOf key operator value = s.contextOf key operator value := by
  rw [contextOf, contextOf, see_noted]

@[simp] theorem argumentType_noted (s : Store) (a : Argument) :
    (s.noted note).argumentType a = s.argumentType a := by
  rw [argumentType, argumentType, see_noted]

@[simp] theorem reaches_noted (s : Store) (a b : NodeId) :
    (s.noted note).reaches a b = s.reaches a b := by
  rw [reaches, reaches, view_noted, Tree.ids_noted]

theorem eq_of_nodes {s t : Store} (hidentity : s.nextIdentity = t.nextIdentity)
    (h : ∀ i : Nat, s.nodes[i]? = t.nodes[i]?) : s = t := by
  obtain ⟨nodes, identity⟩ := s
  obtain ⟨nodes', identity'⟩ := t
  obtain rfl : nodes = nodes' := Array.ext_getElem? h
  obtain rfl : identity = identity' := hidentity
  rfl

theorem setSlots_noted (s : Store) (i : NodeId) (slots : List Slot) :
    (s.noted note).setSlots i slots = (s.setSlots i slots).noted note := by
  refine eq_of_nodes rfl fun k => ?_
  rw [nodes_setSlots, nodes_noted, nodes_noted, nodes_setSlots]
  split
  · rw [Option.map_map, Option.map_map]
    rfl
  · rfl

theorem setHooks_noted (s : Store) (i : NodeId) (h : Hooks) :
    (s.noted note).setHooks i (h.noted note) = (s.setHooks i h).noted note := by
  refine eq_of_nodes rfl fun k => ?_
  rw [nodes_setHooks, nodes_noted, nodes_noted, nodes_setHooks]
  split
  · rw [Option.map_map, Option.map_map]
    rfl
  · rfl

theorem rebind_noted (s : Store) (i : NodeId) (h : Hooks) :
    (s.noted note).rebind i (h.noted note) = (s.rebind i h).noted note := by
  unfold rebind
  rw [view_noted, Tree.ids_noted]
  generalize (s.view i).ids = ids
  induction ids generalizing s with
  | nil => rfl
  | cons k ids ih => rw [List.foldl_cons, List.foldl_cons, setHooks_noted, ih]

theorem push_noted (s : Store) (n : Node) :
    (s.noted note).push (n.noted note) = ((s.push n).1.noted note, (s.push n).2) := by
  refine Prod.ext (eq_of_nodes rfl fun k => ?_) (size_noted s)
  rw [nodes_push, nodes_noted, nodes_noted, nodes_push, size_noted]
  split <;> rfl

theorem takeHooks_noted (s : Store) (given : Hooks) :
    (s.noted note).takeHooks (given.noted note) =
      (s.takeHooks given).map fun p => (p.1.noted note, p.2.noted note) := by
  unfold takeHooks
  rw [Hooks.resolve_noted]
  change Except.bind (Except.map _ (given.resolve s.nextIdentity)) _ = _
  cases given.resolve s.nextIdentity <;> rfl

theorem newCondition_noted (s : Store) (given : Hooks) :
    (s.noted note).newCondition (given.noted note) =
      (s.newCondition given).map fun p => (p.1.noted note, p.2) := by
  unfold newCondition
  rw [takeHooks_noted]
  cases s.takeHooks given with
  | error e => rfl
  | ok q => exact congrArg Except.ok (push_noted q.1 ⟨q.2, .branch []⟩)

theorem setJoin_noted (s : Store) (id : NodeId) (index join : Value) :
    (s.noted note).setJoin id index join = (s.setJoin id index join).map (·.noted note) := by
  unfold setJoin
  rw [slots_noted]
  cases coerceJoin join with
  | error e => rfl
  | ok j =>
    change (checkIndex _ index >>= _) = Except.map _ (checkIndex _ index >>= _)
    cases checkIndex (s.slots id).length index with
    | error e => rfl
    | ok i => exact congrArg Except.ok (setSlots_noted ..)

theorem keepLastJoin_noted (s : Store) (id : NodeId) (records : List Record) :
    (s.noted note).keepLastJoin id records = (s.keepLastJoin id records).noted note := by
  unfold keepLastJoin
  split
  · rfl
  · rw [slots_noted, setSlots_noted]

end Store

end FilterTree
