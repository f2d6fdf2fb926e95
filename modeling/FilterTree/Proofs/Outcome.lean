import FilterTree.Outcome

/-! How results compose. Events are kept on failure too, so that most statements are about the
result of an outcome alone. -/

namespace FilterTree

theorem except_bind_eq_ok_iff {ε α β : Type} {x : Except ε α} {f : α → Except ε β} {b : β} :
    (x >>= f) = .ok b ↔ ∃ a, x = .ok a ∧ f a = .ok b := by
  cases x <;> simp [bind, Except.bind]

theorem except_map_eq_ok_iff {ε α β : Type} {x : Except ε α} {f : α → β} {b : β} :
    x.map f = .ok b ↔ ∃ a, x = .ok a ∧ f a = b := by
  cases x <;> simp [Except.map]

theorem except_bind_eq_error_iff {ε α β : Type} {x : Except ε α} {f : α → Except ε β} {e : ε} :
    (x >>= f) = .error e ↔ x = .error e ∨ ∃ a, x = .ok a ∧ f a = .error e := by
  cases x <;> simp [bind, Except.bind]

theorem except_map_eq_error_iff {ε α β : Type} {x : Except ε α} {f : α → β} {e : ε} :
    x.map f = .error e ↔ x = .error e := by
  cases x <;> simp [Except.map]

theorem except_foldlM_induction {ε α β : Type} {P : β → Prop} {f : β → α → Except ε β}
    (hf : ∀ b a c, P b → f b a = .ok c → P c) {xs : List α} {b c : β} (hb : P b)
    (h : xs.foldlM f b = .ok c) : P c := by
  induction xs generalizing b with
  | nil =>
    cases h
    exact hb
  | cons x xs ih =>
    rw [List.foldlM_cons] at h
    obtain ⟨next, hnext, hrest⟩ := except_bind_eq_ok_iff.mp h
    exact ih (hf b x next hb hnext) hrest

theorem exists_error_of_isOk {ε α : Type} {x : Except ε α} (h : x.isOk = false) :
    ∃ e, x = .error e := by
  cases x with
  | error e => exact ⟨e, rfl⟩
  | ok a => cases h

theorem exists_ok_of_any {ε α : Type} {x : Except ε α} {p : α → Bool}
    (h : x.toOption.any p = true) : ∃ a, x = .ok a ∧ p a = true := by
  cases x with
  | ok a => exact ⟨a, rfl, h⟩
  | error e => cases h

/-- A result that is there just where a condition holds, and else is a fault that nobody expects. -/
inductive ExactIf {α : Type} : Bool → Except Fault α → Prop
  | ok (a : α) : ExactIf true (.ok a)
  | error {e : Fault} (he : e.isOwn = false) : ExactIf false (.error e)

namespace ExactIf
variable {α β : Type} {b c : Bool}

theorem bind {x : Except Fault α} {f : α → Except Fault β} (hx : ExactIf b x)
    (hf : ∀ a, ExactIf c (f a)) : ExactIf (b && c) (x >>= f) := by
  cases hx with
  | ok a => exact hf a
  | error he => exact .error he

theorem map {x : Except Fault α} (hx : ExactIf b x) (f : α → β) : ExactIf b (x.map f) := by
  cases hx with
  | ok a => exact .ok _
  | error he => exact .error he

theorem eq_true {a : α} (h : ExactIf b (.ok a : Except Fault α)) : b = true := by
  cases h
  rfl

theorem exists_ok {x : Except Fault α} (h : ExactIf b x) (hb : b = true) : ∃ a, x = .ok a := by
  cases h with
  | ok a => exact ⟨a, rfl⟩
  | error _ => cases hb

end ExactIf

namespace Outcome
variable {α β : Type}

@[simp] theorem result_pure (a : α) : (Pure.pure a : Outcome α).result = .ok a := rfl

@[simp] theorem result_fail (f : Fault) : (fail f : Outcome α).result = .error f := rfl

theorem ofExcept_ok (a : α) : ofExcept (.ok a) = (Pure.pure a : Outcome α) := rfl

@[simp] theorem result_ofExcept (x : Except Fault α) : (ofExcept x).result = x := by
  cases x <;> rfl

theorem result_bind (x : Outcome α) (f : α → Outcome β) :
    (x >>= f).result = x.result >>= fun a => (f a).result := by
  change (Outcome.bind x f).result = _
  unfold Outcome.bind
  split <;> simp only [*] <;> rfl

theorem result_bind_of_ok {x : Outcome α} {a : α} (f : α → Outcome β) (h : x.result = .ok a) :
    (x >>= f).result = (f a).result := by
  rw [result_bind, h]
  rfl

theorem result_bind_of_error {x : Outcome α} {e : Fault} (f : α → Outcome β)
    (h : x.result = .error e) : (x >>= f).result = .error e := by
  rw [result_bind, h]
  rfl

theorem bind_eq_ok_iff {x : Outcome α} {f : α → Outcome β} {b : β} :
    (x >>= f).result = .ok b ↔ ∃ a, x.result = .ok a ∧ (f a).result = .ok b := by
  rw [result_bind, except_bind_eq_ok_iff]

theorem bind_mk_ok (events : List Event) (a : α) (f : α → Outcome β) :
    ((⟨events, .ok a⟩ : Outcome α) >>= f) = ⟨events ++ (f a).events, (f a).result⟩ := rfl

instance : LawfulMonad Outcome := LawfulMonad.mk' Outcome
  (fun x => by
    obtain ⟨events, _ | a⟩ := x
    · rfl
    · change (⟨events ++ [], .ok a⟩ : Outcome _) = _
      rw [List.append_nil])
  (fun _ _ => rfl)
  (fun x f g => by
    obtain ⟨events, _ | a⟩ := x
    · rfl
    · rw [bind_mk_ok, bind_mk_ok]
      obtain ⟨more, _ | b⟩ := f a
      · rfl
      · rw [bind_mk_ok, bind_mk_ok, List.append_assoc])

theorem result_map (f : α → β) (x : Outcome α) : (f <$> x).result = x.result.map f := by
  rw [map_eq_pure_bind, result_bind]
  cases x.result <;> rfl

theorem bind_congr_of_ok {x : Outcome α} {f g : α → Outcome β}
    (h : ∀ a, x.result = .ok a → f a = g a) : (x >>= f) = (x >>= g) := by
  obtain ⟨events, _ | a⟩ := x
  · rfl
  · rw [bind_mk_ok, bind_mk_ok, h a rfl]

theorem result_foldlM (f : β → α → Outcome β) (xs : List α) (b : β) :
    (xs.foldlM f b).result = xs.foldlM (fun b a => (f b a).result) b := by
  induction xs generalizing b with
  | nil => rfl
  | cons x xs ih =>
    rw [List.foldlM_cons, List.foldlM_cons, result_bind]
    cases (f b x).result with
    | error e => rfl
    | ok c => exact ih c

end Outcome

end FilterTree
