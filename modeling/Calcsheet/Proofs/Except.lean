/-!
# Results of several steps

Steps in a row succeed exactly if each of them does, a walk along a list too (`exists_walk_iff`).
-/

namespace Calcsheet

theorem bind_eq_ok_iff {ε α β : Type} {x : Except ε α} {g : α → Except ε β} {b : β} :
    (x >>= g) = .ok b ↔ ∃ a, x = .ok a ∧ g a = .ok b := by
  cases x with
  | error e => simp [bind, Except.bind]
  | ok a => simp [bind, Except.bind]

theorem exists_bind_ok_iff {ε α β : Type} {x : Except ε α} {g : α → Except ε β} :
    (∃ b, (x >>= g) = .ok b) ↔ ∃ a, x = .ok a ∧ ∃ b, g a = .ok b := by
  simp only [bind_eq_ok_iff]
  constructor
  · rintro ⟨b, a, ha, hb⟩
    exact ⟨a, ha, b, hb⟩
  · rintro ⟨a, ha, b, hb⟩
    exact ⟨b, a, ha, hb⟩

theorem toOption_eq_some_iff {ε α : Type} {x : Except ε α} {a : α} :
    x.toOption = some a ↔ x = .ok a := by
  cases x <;> simp [Except.toOption]

/-! ## Walks -/

section Walk

variable {ε α β γ : Type} (step : α → Except ε β) (walk : List α → Except ε γ) {start : γ}
  {join : β → γ → γ}

/-- A walk that takes one step after another succeeds exactly if each step does. -/
theorem exists_walk_iff (nil : walk [] = .ok start)
    (cons : ∀ a rest, walk (a :: rest) = do
      let b ← step a
      let c ← walk rest
      .ok (join b c))
    (as : List α) : (∃ c, walk as = .ok c) ↔ ∀ a ∈ as, ∃ b, step a = .ok b := by
  induction as with
  | nil => simp [nil]
  | cons a rest ih =>
    simp only [cons, exists_bind_ok_iff, List.forall_mem_cons, ← ih, Except.ok.injEq,
      exists_eq', and_true]
    constructor
    · rintro ⟨b, hb, c, hc⟩
      exact ⟨⟨b, hb⟩, c, hc⟩
    · rintro ⟨⟨b, hb⟩, c, hc⟩
      exact ⟨b, hb, c, hc⟩

/-- What holds of the start and is kept by each step holds of what a walk went along and of what it
gives. -/
theorem walk_pairing (nil : walk [] = .ok start)
    (cons : ∀ a rest, walk (a :: rest) = do
      let b ← step a
      let c ← walk rest
      .ok (join b c))
    {P : List α → γ → Prop} (initial : P [] start) {as : List α} {c : γ}
    (each : ∀ a ∈ as, ∀ rest b c, step a = .ok b → P rest c → P (a :: rest) (join b c))
    (h : walk as = .ok c) : P as c := by
  induction as generalizing c with
  | nil =>
    obtain rfl := Except.ok.inj (nil.symm.trans h)
    exact initial
  | cons a rest ih =>
    obtain ⟨now, later⟩ := List.forall_mem_cons.1 each
    simp only [cons, bind_eq_ok_iff, Except.ok.injEq] at h
    obtain ⟨b, hb, c, hc, rfl⟩ := h
    exact now rest b c hb (ih later hc)

/-- A walk that succeeds gives what it starts with or what its steps make of that. -/
theorem walk_induction (nil : walk [] = .ok start)
    (cons : ∀ a rest, walk (a :: rest) = do
      let b ← step a
      let c ← walk rest
      .ok (join b c))
    {P : γ → Prop} (initial : P start) {as : List α} {c : γ}
    (each : ∀ a ∈ as, ∀ b c, step a = .ok b → P c → P (join b c)) (h : walk as = .ok c) :
    P c :=
  walk_pairing step walk nil cons (P := fun _ => P) initial (fun a ha _ => each a ha) h

end Walk

end Calcsheet
