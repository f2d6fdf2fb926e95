import FilterTree.Proofs.Store.Noted

/-! Calls of validation hooks in order. Whatever is noted of the calls, the events of a step are those
of one script, in which each call stands where it is made. So the script tells of all calls that
there are. -/

namespace FilterTree

abbrev Script := List (Event ⊕ Hook × Context)

namespace Script

def events (note : Note) (script : Script) : List Event :=
  script.flatMap (Sum.elim (fun e => [e]) fun p => note p.1 p.2)

def calls (script : Script) : List (Hook × Context) :=
  script.filterMap Sum.getRight?

theorem events_append (note : Note) (a b : Script) :
    events note (a ++ b) = events note a ++ events note b :=
  List.flatMap_append

theorem calls_append (a b : Script) : calls (a ++ b) = calls a ++ calls b :=
  List.filterMap_append

theorem events_inl (note : Note) (es : List Event) :
    events note (es.map Sum.inl) = es := by
  induction es with
  | nil => rfl
  | cons e es ih => exact congrArg (e :: ·) ih

theorem calls_inl (es : List Event) : calls (es.map Sum.inl) = [] := by
  induction es with
  | nil => rfl
  | cons e es ih => exact ih

end Script

section
variable {α β : Type} {calls more : List (Hook × Context)}

/-- With all calls noted `x` makes just `calls`, and has the result `r` all the same. -/
def Reports (calls : List (Hook × Context)) (x : Note → Outcome α) (r : Note → Except Fault α) :
    Prop :=
  ∃ script : Script, script.calls = calls ∧ ∀ note, x note = ⟨script.events note, r note⟩

namespace Reports

theorem quiet (x : Outcome α) : Reports [] (fun _ => x) fun _ => x.result :=
  ⟨x.events.map .inl, Script.calls_inl _, fun note => by rw [Script.events_inl]⟩

theorem pure (a : Note → α) : Reports [] (fun note => Pure.pure (a note)) fun note => .ok (a note) :=
  ⟨[], rfl, fun _ => rfl⟩

theorem fail (e : Fault) : Reports [] (fun _ => (Outcome.fail e : Outcome α)) fun _ => .error e :=
  quiet (Outcome.fail e)

theorem bind {x : Note → Outcome α} {a : Note → α} {f : Note → α → Outcome β}
    {r : Note → Except Fault β} (hx : Reports calls x fun note => .ok (a note))
    (hf : Reports more (fun note => f note (a note)) r) :
    Reports (calls ++ more) (fun note => x note >>= f note) r := by
  obtain ⟨script, hcalls, hscript⟩ := hx
  obtain ⟨rest, hmore, hrest⟩ := hf
  refine ⟨script ++ rest, by rw [Script.calls_append, hcalls, hmore], fun note => ?_⟩
  simp only [hscript, Outcome.bind_mk_ok, hrest, Script.events_append]

theorem result_eq {x : Note → Outcome α} {r : Note → Except Fault α} (h : Reports calls x r)
    (note : Note) : (x note).result = r note := by
  obtain ⟨script, -, hscript⟩ := h
  exact congrArg Outcome.result (hscript note)

theorem bind_of_error {x : Note → Outcome α} {e : Fault} (f : Note → α → Outcome β)
    (hx : Reports calls x fun _ => .error e) :
    Reports calls (fun note => x note >>= f note) fun _ => .error e := by
  obtain ⟨script, hcalls, hscript⟩ := hx
  refine ⟨script, hcalls, fun note => ?_⟩
  simp only [hscript]
  rfl

theorem bind_result {γ δ : Type} {x : Note → Outcome α} {y : Outcome γ} {a : γ → Note → α}
    {f : Note → α → Outcome β} {g : γ → Outcome δ} {b : δ → Note → β}
    (hx : Reports calls x fun note => y.result.map fun c => a c note)
    (hf : ∀ c, Reports [] (fun note => f note (a c note)) fun note =>
      (g c).result.map fun d => b d note) :
    Reports calls (fun note => x note >>= f note) fun note =>
      (y >>= g).result.map fun d => b d note := by
  cases hr : y.result with
  | error e =>
    rw [hr] at hx
    simp only [Outcome.result_bind_of_error _ hr]
    exact hx.bind_of_error f
  | ok c =>
    rw [hr] at hx
    simp only [Outcome.result_bind_of_ok _ hr]
    rw [← List.append_nil calls]
    exact hx.bind (hf c)

end Reports

end

namespace Store

/-! ### Making an expression -/

/-- The making of an expression: the hook set that has a say in it, and what this is told. -/
abbrev Attempt := HookSet × Context

def Attempt.call? (p : Attempt) : Option (Hook × Context) :=
  p.1.validate.map fun hook => (hook, p.2)

def attempt? (s : Store) (given : Hooks) (key operator value : Argument) : Option Attempt :=
  match value.normal, s.takeHooks given with
  | .ok v, .ok (_, .set _ own) => some (own, s.contextOf key operator v)
  | _, _ => none

theorem attempt?_eq {s u : Store} {given : Hooks} {k : Nat} {own : HookSet}
    (hu : s.takeHooks given = .ok (u, .set k own)) (key operator : Argument) {value v : Argument}
    (hv : value.normal = .ok v) :
    s.attempt? given key operator value = some (own, s.contextOf key operator v) := by
  unfold attempt?
  rw [hv, hu]

theorem validate_noted {own : HookSet} {hook : Hook} (h : own.validate = some hook) (c : Context)
    (note : Note) : validate (own.noted note) c =
      ⟨note hook c ++ (validate own c).events, (validate own c).result⟩ := by
  unfold validate HookSet.noted
  simp only [h, Option.map_some, Hook.noted]
  cases (hook.run c).result with
  | ok v => rfl
  | error f => simp only [Outcome.bind_mk_ok, List.append_assoc]

theorem reports_validate (own : HookSet) (c : Context) :
    Reports (Attempt.call? (own, c)).toList (fun note => validate (own.noted note) c) fun _ =>
      (validate own c).result := by
  unfold Attempt.call?
  cases h : own.validate with
  | none =>
    have hquiet (own : HookSet) (h : own.validate = none) : validate own c = Pure.pure () := by
      rw [validate, h]
    have hnoted (note : Note) : validate (own.noted note) c = Pure.pure () :=
      hquiet _ (by rw [HookSet.noted, h]; rfl)
    simp only [hnoted, hquiet own h]
    exact .quiet _
  | some hook =>
    refine ⟨.inr (hook, c) :: ((validate own c).events.map .inl), ?_, fun note => ?_⟩
    · exact congrArg ((hook, c) :: ·) (Script.calls_inl _)
    · refine (validate_noted h c note).trans ?_
      exact congrArg (Outcome.mk · _) (congrArg (note hook c ++ ·) (Script.events_inl ..).symm)

theorem newExpression_of_error {s : Store} {given : Hooks} {value : Argument} {e : Fault}
    (h : value.normal = .error e) (key operator : Argument) :
    s.newExpression key operator value given = .fail e := by
  unfold newExpression
  rw [h]
  rfl

theorem newExpression_of_takeHooks_error {s : Store} {given : Hooks} {value v : Argument} {e : Fault}
    (hv : value.normal = .ok v) (h : s.takeHooks given = .error e) (key operator : Argument) :
    s.newExpression key operator value given = .fail e := by
  unfold newExpression
  rw [hv, h]
  rfl

theorem takeHooks_noted_of_ok {s u : Store} {given : Hooks} {k : Nat} {own : HookSet}
    (h : s.takeHooks given = .ok (u, .set k own)) (note : Note) :
    (s.noted note).takeHooks (given.noted note) = .ok (u.noted note, .set k (own.noted note)) := by
  rw [takeHooks_noted, h]
  rfl

theorem reports_newExpression (s : Store) (key operator value : Argument) (given : Hooks) :
    Reports ((s.attempt? given key operator value).bind Attempt.call?).toList
      (fun note => (s.noted note).newExpression key operator value (given.noted note)) fun note =>
        (s.newExpression key operator value given).result.map fun p => (p.1.noted note, p.2) := by
  -- what has no normal form, and hooks that cannot be taken, fail before any call
  cases hv : value.normal with
  | error e =>
    have hnone : s.attempt? given key operator value = none := by rw [attempt?, hv]
    simp only [newExpression_of_error hv, hnone]
    exact .fail e
  | ok v =>
    cases hu : s.takeHooks given with
    | error e =>
      have hnone : s.attempt? given key operator value = none := by rw [attempt?, hv, hu]
      have hnoted (note : Note) : (s.noted note).takeHooks (given.noted note) = .error e := by
        rw [takeHooks_noted, hu]
        rfl
      simp only [newExpression_of_takeHooks_error hv (hnoted _),
        newExpression_of_takeHooks_error hv hu, hnone]
      exact .fail e
    | ok q =>
      obtain ⟨u, g⟩ := q
      obtain ⟨k, own, rfl⟩ := exists_set_of_takeHooks hu
      simp only [newExpression_set (takeHooks_noted_of_ok hu _) key operator hv,
        newExpression_set hu key operator hv, attempt?_eq hu key operator hv, contextOf_noted]
      have hvalidate := reports_validate own (s.contextOf key operator v)
      rw [Option.bind_some]
      cases hr : (validate own (s.contextOf key operator v)).result with
      | error e =>
        rw [hr] at hvalidate
        simp only [Outcome.result_bind_of_error _ hr]
        exact hvalidate.bind_of_error _
      | ok _ =>
        rw [hr] at hvalidate
        simp only [Outcome.result_bind_of_ok _ hr]
        rw [← List.append_nil (Option.toList _)]
        refine hvalidate.bind ?_
        have hpush (note : Note) : (u.noted note).push
            ⟨.set k (own.noted note), .leaf key operator.coerced v⟩ =
              ((u.push ⟨.set k own, .leaf key operator.coerced v⟩).1.noted note,
                (u.push ⟨.set k own, .leaf key operator.coerced v⟩).2) :=
          push_noted u ⟨.set k own, .leaf key operator.coerced v⟩
        simp only [hpush]
        exact .pure _

/-! ### Appending -/

theorem reports_append (s : Store) (owner : NodeId) (j : Join) (payload : NodeId) :
    Reports [] (fun note => (s.noted note).append owner j payload) fun note =>
      (s.append owner j payload).result.map (·.noted note) := by
  unfold append
  simp only [slots_noted, view_noted, Tree.typeName_noted, setSlots_noted]
  have hlog := Reports.quiet (Outcome.log .debug .condition
    s!"Appended {j.name} slot #{(s.slots owner).length} ({(s.view payload).typeName})")
  exact hlog.bind (.pure _)

theorem reports_attach (s : Store) (owner : NodeId) (j : Join) (child : NodeId) :
    Reports [] (fun note => (s.noted note).attach owner j child) fun note =>
      (s.attach owner j child).result.map (·.noted note) := by
  unfold attach
  simp only [reaches_noted, hooks_noted, rebind_noted]
  split
  · exact .fail _
  · exact reports_append ..

theorem reports_appendExpression (s : Store) (owner : NodeId) (j : Join)
    (key operator value : Argument) :
    Reports ((s.attempt? (s.hooks owner) key operator value).bind Attempt.call?).toList
      (fun note => (s.noted note).appendExpression owner j key operator value) fun note =>
        (s.appendExpression owner j key operator value).result.map (·.noted note) := by
  unfold appendExpression
  simp only [hooks_noted]
  exact (reports_newExpression s key operator value (s.hooks owner)).bind_result fun p =>
    reports_append p.1 owner j p.2

/-! ### Actions -/

theorem filterMap_toList {α β : Type} (f : α → Option β) (o : Option α) :
    o.toList.filterMap f = (o.bind f).toList := by
  cases o with
  | none => rfl
  | some a => cases h : f a <;> simp [h]

def addAttempts (s : Store) (owner : NodeId) : Arguments → List Attempt
  | ⟨key, some operator, some value⟩ =>
    if (argumentText? key).isSome ∧ (argumentText? operator).isSome then
      (s.attempt? (s.hooks owner) key operator value).toList
    else []
  | _ => []

theorem addAttempts_of_not_text (s : Store) (owner : NodeId) {first : Argument}
    (h : argumentText? first = none) (operator value : Option Argument) :
    s.addAttempts owner ⟨first, operator, value⟩ = [] := by
  rcases operator with _ | operator
  · rfl
  · rcases value with _ | value
    · rfl
    · exact if_neg (by simp [h])

theorem reports_add (s : Store) (owner : NodeId) (j : Join) (a : Arguments) :
    Reports ((s.addAttempts owner a).filterMap Attempt.call?)
      (fun note => (s.noted note).add owner j a) fun note =>
        (s.add owner j a).result.map (·.noted note) := by
  obtain ⟨first, operator, value⟩ := a
  by_cases hf : ∃ child, first = .node child ∧ s.isBranch child = true
  · obtain ⟨child, rfl, hc⟩ := hf
    have hnoted (note : Note) : (s.noted note).isBranch child = true :=
      (isBranch_noted s child).trans hc
    simp only [add_nested (hnoted _), add_nested hc]
    rw [addAttempts_of_not_text s owner rfl]
    split
    · exact .fail _
    · exact reports_attach ..
  · have hkey : ∀ id, first = .node id → s.isBranch id = false := by simpa using hf
    have hnoted (note : Note) : ∀ id, first = .node id → (s.noted note).isBranch id = false := by
      simpa only [isBranch_noted] using hkey
    simp only [add_keyed (hnoted _), add_keyed hkey, argumentType_noted]
    cases hfirst : argumentText? first with
    | none =>
      rw [addAttempts_of_not_text s owner hfirst]
      exact .fail _
    | some key =>
      rcases operator with _ | operator
      · exact .fail _
      · rcases value with _ | value
        · exact .fail _
        · simp only [addAttempts, hfirst, Option.isSome_some, true_and]
          split
          · rw [filterMap_toList]
            exact reports_appendExpression ..
          · exact .fail _

end Store

end FilterTree
