import FilterTree.Proofs.Restore.Attempts

/-! What is validated in a history, and when: each making of an expression once, by the hooks that its
condition has at that moment. Nothing else that can be done or asked calls a validation hook. -/

namespace FilterTree

namespace Store
open Record

/-! ### Steps -/

inductive Query where
  | render (id : NodeId) (overrides : Hooks)
  | record (id : NodeId)
  | dump (id : NodeId) (format : Value)
  | equal (a b : NodeId)

def answer (s : Store) : Query → Outcome Value
  | .render id overrides => (s.view id).render overrides
  | .record id => return (s.view id).record
  | .dump id format => do
    let text ← Outcome.ofExcept ((s.view id).dump format)
    return .text text
  | .equal a b => do
    let same ← Outcome.ofExcept ((s.view a).equal (s.view b))
    return .bool same

inductive Step where
  | act (a : Action)
  | ask (q : Query)

def take (s : Store) : Step → Outcome Store
  | .act a => ⟨(s.perform a).events, .ok (s.after a)⟩
  | .ask q => ⟨(s.answer q).events, .ok s⟩

def follow (s : Store) (steps : List Step) : Outcome Store :=
  steps.foldlM take s

def Step.action? : Step → Option Action
  | .act a => some a
  | .ask _ => none

/-! ### What is validated -/

/-- The attempts at an expression that an action makes. -/
def attempts (s : Store) : Action → List Attempt
  | .add owner _ positional named =>
    match s.isBranch owner, Arguments.ofCall positional named with
    | true, .ok a => s.addAttempts owner a
    | _, _ => []
  | .restore encoded given format =>
    match (decode encoded format).result, s.takeHooks given with
    | .ok records, .ok (_, .set _ own) => attempted own (leavesAll records)
    | _, _ => []
  | _ => []

/-- The calls of validation hooks in a history, each with its context. -/
def validations (s : Store) : List Step → List (Hook × Context)
  | [] => []
  | .act a :: rest => (s.attempts a).filterMap Attempt.call? ++ (s.after a).validations rest
  | .ask _ :: rest => s.validations rest

/-! ### The calls of a history -/

def Action.noted (note : Note) : Action → Action
  | .create given => .create (given.noted note)
  | .assignHooks id h => .assignHooks id (h.noted note)
  | .restore encoded given format => .restore encoded (given.noted note) format
  | .add owner j positional named => .add owner j positional named
  | .setJoin id index join => .setJoin id index join

def Query.noted (note : Note) : Query → Query
  | .render id overrides => .render id (overrides.noted note)
  | .record id => .record id
  | .dump id format => .dump id format
  | .equal a b => .equal a b

def Step.noted (note : Note) : Step → Step
  | .act a => .act (a.noted note)
  | .ask q => .ask (q.noted note)

theorem answer_noted (s : Store) (q : Query) (note : Note) :
    (s.noted note).answer (q.noted note) = s.answer q := by
  cases q with
  | render id overrides =>
    rw [answer, Query.noted, answer, view_noted, Tree.render_noted]
  | record id => rw [answer, Query.noted, answer, view_noted, Tree.record_noted]
  | dump id format => rw [answer, Query.noted, answer, view_noted, Tree.dump_noted]
  | equal a b => rw [answer, Query.noted, answer, view_noted, view_noted, Tree.equal_noted]

theorem reports_replay (s : Store) (k : Nat) (own : HookSet) (records : List Record) :
    Reports ((attempted own (leavesAll records)).filterMap Attempt.call?)
      (fun note => (s.noted note).replay (.set k (own.noted note)) records) fun note =>
        (s.replay (.set k own) records).result.map fun p => (p.1.noted note, p.2) := by
  obtain ⟨u, hu, hbranch, hhooks, hnoted⟩ := newCondition_noted_set s k own
  have hadd := reports_addRecords records s.nodes.size .and u hbranch hhooks
  simp only [replay, hnoted, hu, Outcome.ofExcept_ok, pure_bind]
  refine hadd.bind_result fun w => ?_
  simp only [keepLastJoin_noted]
  exact .pure _

theorem attempts_restore {s u : Store} {encoded format : Value} {given : Hooks} {k : Nat}
    {own : HookSet} {records : List Record} (hdec : (decode encoded format).result = .ok records)
    (hu : s.takeHooks given = .ok (u, .set k own)) :
    s.attempts (.restore encoded given format) = attempted own (leavesAll records) := by
  simp only [attempts, hdec, hu]

theorem reports_restore (s : Store) (encoded : Value) (given : Hooks) (format : Value) :
    Reports ((s.attempts (.restore encoded given format)).filterMap Attempt.call?)
      (fun note => (s.noted note).restore encoded (given.noted note) format) fun note =>
        (s.restore encoded given format).result.map fun p => (p.1.noted note, p.2) := by
  -- there are no calls before the replay
  have hdecode := Reports.quiet (decode encoded format)
  unfold restore
  cases hdec : (decode encoded format).result with
  | error e =>
    have hnone : s.attempts (.restore encoded given format) = [] := by simp only [attempts, hdec]
    rw [hdec] at hdecode
    rw [hnone]
    simp only [Outcome.result_bind_of_error _ hdec]
    exact hdecode.bind_of_error _
  | ok records =>
    rw [hdec] at hdecode
    simp only [Outcome.result_bind_of_ok _ hdec, takeHooks_noted]
    cases hu : s.takeHooks given with
    | error e =>
      have hnone : s.attempts (.restore encoded given format) = [] := by
        simp only [attempts, hdec, hu]
      rw [hnone, ← List.nil_append (List.filterMap _ _)]
      exact hdecode.bind (.fail e)
    | ok q =>
      obtain ⟨u, g⟩ := q
      obtain ⟨k, own, rfl⟩ := exists_set_of_takeHooks hu
      have hreplay := reports_replay u k own records
      rw [attempts_restore hdec hu, ← List.nil_append (List.filterMap _ _)]
      refine hdecode.bind ?_
      simp only [Except.map, Outcome.ofExcept_ok, pure_bind, Hooks.noted]
      refine hreplay.bind_result fun p => ?_
      have hlog := Reports.quiet (Outcome.log .debug .serializer
        s!"Restored condition with {records.length} top-level slot(s)")
      exact hlog.bind (.pure fun note => (p.1.noted note, p.2))

theorem reports_perform (s : Store) (a : Action) :
    Reports ((s.attempts a).filterMap Attempt.call?)
      (fun note => (s.noted note).perform (a.noted note)) fun note =>
        (s.perform a).result.map (·.noted note) := by
  cases a with
  | create given =>
    simp only [perform, Action.noted, newCondition_noted]
    cases s.newCondition given with
    | error e => exact .fail e
    | ok p => exact .pure _
  | add owner j positional named =>
    simp only [perform, Action.noted, isBranch_noted, attempts]
    cases s.isBranch owner with
    | false => exact .fail _
    | true =>
      cases ha : Arguments.ofCall positional named with
      | error e => exact .fail e
      | ok a => exact reports_add s owner j a
  | setJoin id index join =>
    simp only [perform, Action.noted, isBranch_noted, setJoin_noted]
    cases s.isBranch id with
    | false => exact .fail _
    | true =>
      cases s.setJoin id index join with
      | error e => exact .fail e
      | ok t => exact .pure _
  | assignHooks id h =>
    simp only [perform, Action.noted, setHooks_noted]
    exact .pure _
  | restore encoded given format =>
    simp only [perform, Action.noted]
    exact (reports_restore s encoded given format).bind_result fun p => .pure _

theorem after_noted (s : Store) (a : Action) (note : Note) :
    (s.noted note).after (a.noted note) = (s.after a).noted note := by
  have hresult : ((s.noted note).perform (a.noted note)).result =
      (s.perform a).result.map (·.noted note) := (reports_perform s a).result_eq note
  unfold after
  rw [hresult]
  cases (s.perform a).result <;> rfl

theorem reports_take (s : Store) (step : Step) :
    Reports (s.validations [step]) (fun note => (s.noted note).take (step.noted note)) fun note =>
      (s.take step).result.map (·.noted note) := by
  cases step with
  | act a =>
    obtain ⟨script, hcalls, hscript⟩ := reports_perform s a
    rw [validations, validations, List.append_nil]
    refine ⟨script, hcalls, fun note => ?_⟩
    simp only [take, Step.noted, hscript, after_noted]
    rfl
  | ask q =>
    simp only [take, Step.noted, answer_noted]
    exact ⟨(s.answer q).events.map .inl, Script.calls_inl _, fun note => by
      rw [Script.events_inl]
      rfl⟩

theorem reports_follow (s : Store) (steps : List Step) :
    Reports (s.validations steps) (fun note => (s.noted note).follow (steps.map (·.noted note)))
      fun note => .ok (((steps.filterMap Step.action?).foldl after s).noted note) := by
  induction steps generalizing s with
  | nil => exact .pure fun note => s.noted note
  | cons step rest ih =>
    have hfirst := reports_take s step
    simp only [follow, List.map_cons, List.foldlM_cons]
    cases step with
    | act a =>
      rw [validations, validations, List.append_nil] at hfirst
      exact hfirst.bind (ih (s.after a))
    | ask q => exact hfirst.bind (ih s)

end Store

end FilterTree
