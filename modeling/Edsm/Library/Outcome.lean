import Mathlib.Data.List.Induction
import Mathlib.Tactic.Common

/-!
# Computations that may fail

`Meets safe P x` says that whatever `x` returns has the property `P`, and that
under the condition `safe` it does return.  `safe` is `False` for partial and
`True` for total correctness, so that one proof serves both.
-/

namespace Except

variable {ε α β : Type*} {safe safe' : Prop} {P Q : α → Prop} {x : Except ε α}

theorem map_eq_ok {f : α → β} {b : β} : x.map f = .ok b ↔ ∃ a, x = .ok a ∧ f a = b := by
  cases x <;> simp [Except.map]

theorem map_eq_error {f : α → β} {e : ε} : x.map f = .error e ↔ x = .error e := by
  cases x <;> simp [Except.map]

def Meets (safe : Prop) (P : α → Prop) : Except ε α → Prop
  | .ok a => P a
  | .error _ => ¬ safe

theorem Meets.mono (h : x.Meets safe P) (hP : ∀ a, P a → Q a) : x.Meets safe Q := by
  cases x with
  | ok a => exact hP a h
  | error e => exact h

theorem Meets.of_imp (h : x.Meets safe P) (hsafe : safe' → safe) : x.Meets safe' P := by
  cases x with
  | ok a => exact h
  | error e => exact mt hsafe h

/-- The first of two computations may need less than both. -/
theorem Meets.bind {f : α → Except ε β} {R : β → Prop} (h : x.Meets safe' P)
    (hsafe : safe → safe') (hf : ∀ a, P a → (f a).Meets safe R) : (x.bind f).Meets safe R := by
  cases x with
  | ok a => exact hf a h
  | error e => exact mt hsafe h

theorem Meets.of_eq_ok (h : x.Meets safe P) {a : α} (hx : x = .ok a) : P a := by
  subst hx
  exact h

theorem Meets.exists_ok (h : x.Meets safe P) (hsafe : safe) : ∃ a, x = .ok a ∧ P a := by
  cases x with
  | ok a => exact ⟨a, rfl, h⟩
  | error e => exact absurd hsafe h

theorem forall₂_of_mapM {f : α → Except ε β} {as : List α} {bs : List β} (h : as.mapM f = .ok bs) :
    List.Forall₂ (fun a b ↦ f a = .ok b) as bs := by
  induction as generalizing bs with
  | nil =>
      obtain rfl := Except.ok.inj h
      exact .nil
  | cons a as ih =>
      rw [List.mapM_cons] at h
      cases ha : f a with
      | error e =>
          rw [ha] at h
          cases h
      | ok b =>
          cases has : as.mapM f with
          | error e =>
              rw [ha, has] at h
              cases h
          | ok bs' =>
              rw [ha, has] at h
              obtain rfl := Except.ok.inj h
              exact .cons ha (ih has)

/-- A list that is related to another one is mapped without an error if each of its members is. -/
theorem exists_mapM_of_forall₂ {γ : Type*} {f : β → Except ε γ} {R : α → β → Prop}
    {S : α → γ → Prop} (hf : ∀ a b, R a b → ∃ c, f b = .ok c ∧ S a c) {as : List α} {bs : List β}
    (h : List.Forall₂ R as bs) : ∃ cs, bs.mapM f = .ok cs ∧ List.Forall₂ S as cs := by
  induction h with
  | nil => exact ⟨[], rfl, .nil⟩
  | cons hab _ ih =>
      obtain ⟨c, hc, hS⟩ := hf _ _ hab
      obtain ⟨cs, hcs, hall⟩ := ih
      refine ⟨c :: cs, ?_, .cons hS hall⟩
      rw [List.mapM_cons, hc, hcs]
      rfl

/-! ## Folds -/

section Folds

variable {f : β → α → Except ε β} {as front : List α} {a : α} {b b' : β} {e : ε}

theorem foldlM_cons_eq_error : (a :: as).foldlM f b = .error e ↔
    f b a = .error e ∨ ∃ b', f b a = .ok b' ∧ as.foldlM f b' = .error e := by
  rw [List.foldlM_cons]
  cases f b a with
  | ok b' => simp [bind, Except.bind]
  | error e' => simp [bind, Except.bind]

theorem foldlM_cons_eq_ok : (a :: as).foldlM f b = .ok b' ↔
    ∃ b'', f b a = .ok b'' ∧ as.foldlM f b'' = .ok b' := by
  rw [List.foldlM_cons]
  cases f b a with
  | ok b'' => simp [bind, Except.bind]
  | error e' => simp [bind, Except.bind]

/-- A fold that fails does so at one of its steps. -/
theorem foldlM_eq_error : as.foldlM f b = .error e ↔
    ∃ front a rest b', as = front ++ a :: rest ∧ front.foldlM f b = .ok b' ∧
      f b' a = .error e := by
  induction as generalizing b with
  | nil => exact ⟨fun h ↦ (by cases h), fun ⟨front, a, rest, _, h, _⟩ ↦ by simp at h⟩
  | cons a as ih =>
      rw [foldlM_cons_eq_error]
      constructor
      · rintro (hhead | ⟨b', hhead, htail⟩)
        · exact ⟨[], a, as, b, rfl, rfl, hhead⟩
        · obtain ⟨front, a', rest, b'', rfl, hfront, hfail⟩ := ih.mp htail
          exact ⟨a :: front, a', rest, b'', rfl, foldlM_cons_eq_ok.mpr ⟨b', hhead, hfront⟩, hfail⟩
      · rintro ⟨front, a', rest, b'', hsplit, hfront, hfail⟩
        cases front with
        | nil =>
            obtain ⟨rfl, rfl⟩ := List.cons.inj hsplit
            obtain rfl : b = b'' := Except.ok.inj hfront
            exact .inl hfail
        | cons a'' front =>
            obtain ⟨rfl, rfl⟩ := List.cons.inj hsplit
            obtain ⟨b', hhead, hfront'⟩ := foldlM_cons_eq_ok.mp hfront
            exact .inr ⟨b', hhead, ih.mpr ⟨front, a', rest, b'', rfl, hfront', hfail⟩⟩

theorem foldlM_snoc_eq_ok : (front ++ [a]).foldlM f b = .ok b' ↔
    ∃ b'', front.foldlM f b = .ok b'' ∧ f b'' a = .ok b' := by
  rw [List.foldlM_append]
  cases front.foldlM f b with
  | ok b'' =>
      change [a].foldlM f b'' = .ok b' ↔ _
      simp only [foldlM_cons_eq_ok, List.foldlM_nil, pure, Except.pure, Except.ok.injEq,
        exists_eq_right, exists_eq_left']
  | error e => simp [bind, Except.bind]

/-- The invariant holds after each part of the list that has been gone through, so that it may be
used to tell when a step fails. -/
theorem foldlM_rule (Inv : List α → β → Prop) {Fails : β → α → ε → Prop}
    (hfails : ∀ {done a rest b}, as = done ++ a :: rest → Inv done b →
      ∀ e, f b a = .error e ↔ Fails b a e)
    (hstep : ∀ {done a rest b b'}, as = done ++ a :: rest → Inv done b → f b a = .ok b' →
      Inv (done ++ [a]) b') (hinit : Inv [] b) :
    (∀ e, as.foldlM f b = .error e ↔ ∃ front a rest b', as = front ++ a :: rest ∧
      front.foldlM f b = .ok b' ∧ Fails b' a e) ∧
    ∀ b', as.foldlM f b = .ok b' → Inv as b' := by
  have hinv : ∀ front rest b', as = front ++ rest → front.foldlM f b = .ok b' →
      Inv front b' := by
    intro front
    induction front using List.reverseRecOn with
    | nil =>
        intro rest b' _ hfront
        obtain rfl : b = b' := Except.ok.inj hfront
        exact hinit
    | append_singleton front a ih =>
        intro rest b' has hfront
        rw [List.append_assoc] at has
        obtain ⟨b'', hfront', hlast⟩ := foldlM_snoc_eq_ok.mp hfront
        exact hstep has (ih _ b'' has hfront') hlast
  refine ⟨fun e ↦ ?_, fun b' hall ↦ hinv as [] b' (List.append_nil as).symm hall⟩
  rw [foldlM_eq_error]
  constructor
  · rintro ⟨front, a, rest, b', has, hfront, hfail⟩
    exact ⟨front, a, rest, b', has, hfront, (hfails has (hinv front _ b' has hfront) e).mp hfail⟩
  · rintro ⟨front, a, rest, b', has, hfront, hfail⟩
    exact ⟨front, a, rest, b', has, hfront, (hfails has (hinv front _ b' has hfront) e).mpr hfail⟩

end Folds

end Except
