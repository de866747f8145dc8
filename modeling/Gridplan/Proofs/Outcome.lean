import Gridplan.Fault
import Mathlib.Tactic

namespace Gridplan.Outcome

variable {α β : Type}

@[simp] theorem ok_bind (a : α) (f : α → Outcome β) : (Except.ok a : Outcome α) >>= f = f a := rfl

@[simp] theorem error_bind (x : Fault) (f : α → Outcome β) :
    (Except.error x : Outcome α) >>= f = .error x := rfl

@[simp] theorem pure_eq (a : α) : (pure a : Outcome α) = .ok a := rfl

theorem bind_eq_ok {x : Outcome α} {f : α → Outcome β} {b : β} :
    x >>= f = .ok b ↔ ∃ a, x = .ok a ∧ f a = .ok b := by
  cases x with
  | error e => simp
  | ok a => simp

theorem bind_eq_error {x : Outcome α} {f : α → Outcome β} {e : Fault} :
    x >>= f = .error e ↔ x = .error e ∨ ∃ a, x = .ok a ∧ f a = .error e := by
  cases x with
  | error e => simp
  | ok a => simp

theorem mapM_ok {f : α → Outcome β} {g : α → β} {xs : List α} (h : ∀ x ∈ xs, f x = .ok (g x)) :
    xs.mapM f = .ok (xs.map g) := by
  induction xs with
  | nil => rfl
  | cons x xs ih =>
    rw [List.mapM_cons, h x (by simp), ok_bind, ih fun y hy ↦ h y (by simp [hy])]
    rfl

theorem mapM_cons_eq_ok {f : α → Outcome β} {x : α} {xs : List α} {ys : List β} :
    (x :: xs).mapM f = .ok ys ↔ ∃ y zs, f x = .ok y ∧ xs.mapM f = .ok zs ∧ ys = y :: zs := by
  simp only [List.mapM_cons, bind_eq_ok, pure_eq, Except.ok.injEq]
  constructor
  · rintro ⟨y, hy, zs, hzs, rfl⟩
    exact ⟨y, zs, hy, hzs, rfl⟩
  · rintro ⟨y, zs, hy, hzs, rfl⟩
    exact ⟨y, hy, zs, hzs, rfl⟩

theorem filterM_ok {f : α → Outcome Bool} {g : α → Bool} {xs : List α}
    (h : ∀ x ∈ xs, f x = .ok (g x)) : xs.filterM f = .ok (xs.filter g) := by
  have aux : ∀ acc, xs.filterAuxM f acc = .ok ((xs.filter g).reverse ++ acc) := by
    induction xs with
    | nil => intro acc; rfl
    | cons x xs ih =>
      intro acc
      rw [List.filterAuxM, h x (by simp), ok_bind, ih fun y hy ↦ h y (by simp [hy])]
      cases hg : g x <;> simp [hg]
  simp [List.filterM, aux]

def Ensures (x : Outcome α) (P : α → Prop) : Prop := ∀ a, x = .ok a → P a

namespace Ensures

variable {x : Outcome α} {P : α → Prop} {Q : β → Prop}

theorem ok {a : α} (h : P a) : Ensures (.ok a) P := by
  intro b hb
  obtain rfl := Except.ok.inj hb
  exact h

theorem error (f : Fault) : Ensures (.error f) P := by
  intro a h
  cases h

theorem bind {f : α → Outcome β} (hx : Ensures x P) (hf : ∀ a, P a → Ensures (f a) Q) :
    Ensures (x >>= f) Q := by
  intro b hb
  obtain ⟨a, ha, hb⟩ := bind_eq_ok.mp hb
  exact hf a (hx a ha) b hb

theorem skip {f : α → Outcome β} (hf : ∀ a, Ensures (f a) Q) : Ensures (x >>= f) Q := by
  intro b hb
  obtain ⟨a, -, hb⟩ := bind_eq_ok.mp hb
  exact hf a b hb

theorem check {C : Prop} [Decidable C] {f : Fault} (h : ¬C → Ensures x P) :
    Ensures (if C then .error f else x) P := by
  split
  · exact error f
  · next hC => exact h hC

theorem mono {P' : α → Prop} (hx : Ensures x P) (h : ∀ a, P a → P' a) : Ensures x P' :=
  fun a ha ↦ h a (hx a ha)

theorem mapM {f : α → Outcome β} {xs : List α} (h : ∀ x ∈ xs, Ensures (f x) Q) :
    Ensures (xs.mapM f) fun ys ↦ ∀ y ∈ ys, Q y := by
  induction xs with
  | nil => exact ok (by simp)
  | cons x xs ih =>
    rw [List.mapM_cons]
    refine bind (h x (by simp)) fun y hy ↦ ?_
    refine bind (ih fun x hx ↦ h x (by simp [hx])) fun ys hys ↦ ?_
    exact ok (List.forall_mem_cons.mpr ⟨hy, hys⟩)

theorem filterMapM {f : α → Outcome (Option β)} {xs : List α}
    (h : ∀ x ∈ xs, Ensures (f x) fun o ↦ ∀ y ∈ o, Q y) :
    Ensures (xs.filterMapM f) fun ys ↦ ∀ y ∈ ys, Q y := by
  have hloop : ∀ acc : List β, (∀ y ∈ acc, Q y) →
      Ensures (List.filterMapM.loop f xs acc) fun ys ↦ ∀ y ∈ ys, Q y := by
    induction xs with
    | nil =>
      intro acc hacc
      exact ok (by simpa using hacc)
    | cons x xs ih =>
      intro acc hacc
      rw [List.filterMapM.loop]
      refine bind (h x (by simp)) fun o ho ↦ ?_
      have ih := ih fun x hx ↦ h x (by simp [hx])
      cases o with
      | none => exact ih acc hacc
      | some y => exact ih (y :: acc) (List.forall_mem_cons.mpr ⟨ho y rfl, hacc⟩)
  exact hloop [] (by simp)

theorem mapM_forall₂ {f : α → Outcome β} {R : α → β → Prop} {xs : List α}
    (h : ∀ x ∈ xs, Ensures (f x) (R x)) : Ensures (xs.mapM f) (List.Forall₂ R xs) := by
  induction xs with
  | nil => exact ok .nil
  | cons x xs ih =>
    rw [List.mapM_cons]
    refine bind (h x (by simp)) fun y hy ↦ ?_
    refine bind (ih fun x hx ↦ h x (by simp [hx])) fun ys hys ↦ ?_
    exact ok (.cons hy hys)

theorem filterMapM_forall₂ {f : α → Outcome (Option β)} {R : α → β → Prop} {keep : α → Bool}
    {xs : List α} (hkeep : ∀ x ∈ xs, keep x = true → Ensures (f x) fun o ↦ ∃ y, o = some y ∧ R x y)
    (hskip : ∀ x ∈ xs, keep x = false → Ensures (f x) fun o ↦ o = none) :
    Ensures (xs.filterMapM f) (List.Forall₂ R (xs.filter keep)) := by
  induction xs with
  | nil => exact ok .nil
  | cons x xs ih =>
    have ih := ih (fun y hy ↦ hkeep y (by simp [hy])) fun y hy ↦ hskip y (by simp [hy])
    rw [List.filterMapM_cons]
    cases hx : keep x with
    | false =>
      rw [List.filter_cons_of_neg (by simp [hx])]
      refine bind (hskip x (by simp) hx) fun o ho ↦ ?_
      rw [ho]
      exact ih
    | true =>
      rw [List.filter_cons_of_pos hx]
      refine bind (hkeep x (by simp) hx) fun o ho ↦ ?_
      obtain ⟨y, rfl, hxy⟩ := ho
      exact bind ih fun ys hys ↦ ok (.cons hxy hys)

end Ensures

def Succeeds (x : Outcome α) : Prop := ∃ a, x = .ok a

section Succeeds

variable {x : Outcome α}

@[simp] theorem succeeds_ok (a : α) : Succeeds (.ok a) := ⟨a, rfl⟩

@[simp] theorem not_succeeds_error (f : Fault) : ¬Succeeds (.error f : Outcome α) := nofun

theorem succeeds_of_isOk (h : x.isOk = true) : Succeeds x := by
  cases x with
  | ok a => exact ⟨a, rfl⟩
  | error f => cases h

theorem exists_of_any {P : α → Prop} [DecidablePred P] (h : x.toOption.any (P ·) = true) :
    ∃ a, x = .ok a ∧ P a := by
  cases x with
  | ok a => exact ⟨a, rfl, by simpa [Except.toOption] using h⟩
  | error f => cases h

theorem succeeds_bind {f : α → Outcome β} :
    Succeeds (x >>= f) ↔ ∃ a, x = .ok a ∧ Succeeds (f a) := by
  simp only [Succeeds, bind_eq_ok]
  constructor
  · rintro ⟨b, a, ha, hb⟩
    exact ⟨a, ha, b, hb⟩
  · rintro ⟨a, ha, b, hb⟩
    exact ⟨b, a, ha, hb⟩

theorem succeeds_bind_iff {f : α → Outcome β} {C : Prop}
    (h : ∀ a, x = .ok a → (Succeeds (f a) ↔ C)) : Succeeds (x >>= f) ↔ Succeeds x ∧ C := by
  rw [succeeds_bind]
  constructor
  · rintro ⟨a, ha, hf⟩
    exact ⟨⟨a, ha⟩, (h a ha).mp hf⟩
  · rintro ⟨⟨a, ha⟩, hC⟩
    exact ⟨a, ha, (h a ha).mpr hC⟩

theorem succeeds_bind_total {f : α → Outcome β} (h : ∀ a, x = .ok a → Succeeds (f a)) :
    Succeeds (x >>= f) ↔ Succeeds x := by
  rw [succeeds_bind_iff (C := True) fun a ha ↦ iff_of_true (h a ha) trivial, and_true]

theorem succeeds_bind_ok {f : α → β} : Succeeds (x >>= fun a ↦ .ok (f a)) ↔ Succeeds x :=
  succeeds_bind_total fun _ _ ↦ succeeds_ok _

theorem succeeds_mapM {f : α → Outcome β} {xs : List α} :
    Succeeds (xs.mapM f) ↔ ∀ x ∈ xs, Succeeds (f x) := by
  induction xs with
  | nil => exact iff_of_true ⟨[], rfl⟩ (by simp)
  | cons x xs ih =>
    rw [List.mapM_cons, List.forall_mem_cons, ← ih]
    exact succeeds_bind_iff fun y _ ↦ succeeds_bind_ok

theorem succeeds_filterMapM {f : α → Outcome (Option β)} {xs : List α} :
    Succeeds (xs.filterMapM f) ↔ ∀ x ∈ xs, Succeeds (f x) := by
  have hloop : ∀ acc : List β, Succeeds (List.filterMapM.loop f xs acc) ↔
      ∀ x ∈ xs, Succeeds (f x) := by
    induction xs with
    | nil => exact fun acc ↦ iff_of_true ⟨acc.reverse, rfl⟩ (by simp)
    | cons x xs ih =>
      intro acc
      rw [List.filterMapM.loop, List.forall_mem_cons]
      refine succeeds_bind_iff fun o _ ↦ ?_
      cases o with
      | none => exact ih acc
      | some y => exact ih (y :: acc)
  exact hloop []

end Succeeds

/-- Whether two outcomes fail alike or have results in a relation. -/
inductive Agree (R : α → β → Prop) : Outcome α → Outcome β → Prop
  | ok {a : α} {b : β} (h : R a b) : Agree R (.ok a) (.ok b)
  | error (f : Fault) : Agree R (.error f) (.error f)

namespace Agree

variable {γ δ : Type} {R : α → β → Prop} {S : γ → δ → Prop} {x : Outcome α} {y : Outcome β}

theorem refl {R : α → α → Prop} (h : ∀ a, R a a) (x : Outcome α) : Agree R x x := by
  cases x with
  | ok a => exact .ok (h a)
  | error f => exact .error f

theorem bind {f : α → Outcome γ} {g : β → Outcome δ} (h : Agree R x y)
    (hfg : ∀ a b, R a b → Agree S (f a) (g b)) : Agree S (x >>= f) (y >>= g) := by
  cases h with
  | ok h => exact hfg _ _ h
  | error e => exact .error e

end Agree

end Gridplan.Outcome
