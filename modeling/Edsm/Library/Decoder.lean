import Mathlib.Data.List.Basic

/-!
# Decoders

A decoder takes the symbols of one value off the front of a list.  It inverts an
encoder on the values that fit its fields if it reads each of them back, whatever
follows, and reads nothing else.
-/

universe u

abbrev Decoder (β α : Type u) : Type u := StateT (List β) Option α

namespace Decoder

variable {α β γ : Type u}

structure Inverts (decode : Decoder β α) (encode : α → List β) (Fits : α → Prop) : Prop where
  decode_append : ∀ {a}, Fits a → ∀ rest, decode (encode a ++ rest) = some (a, rest)
  eq_append : ∀ {bytes a rest}, decode bytes = some (a, rest) →
    Fits a ∧ bytes = encode a ++ rest

/-- The next `n` symbols. -/
def take (n : ℕ) : Decoder β (List β) := fun bytes ↦
  if n ≤ bytes.length then some (bytes.take n, bytes.drop n) else none

/-- So many values, one after the other. -/
def times (decode : Decoder β α) : ℕ → Decoder β (List α)
  | 0 => pure []
  | n + 1 => do
      let a ← decode
      let as ← times decode n
      return a :: as

theorem bind_eq_some {decode : Decoder β α} {next : α → Decoder β γ} {bytes : List β}
    {result : γ × List β} (h : (decode >>= next) bytes = some result) :
    ∃ a rest, decode bytes = some (a, rest) ∧ next a rest = some result := by
  obtain ⟨⟨a, rest⟩, hfirst, hnext⟩ := Option.bind_eq_some_iff.mp h
  exact ⟨a, rest, hfirst, hnext⟩

theorem bind_of_eq_some {decode : Decoder β α} {bytes rest : List β} {a : α}
    (h : decode bytes = some (a, rest)) (next : α → Decoder β γ) :
    (decode >>= next) bytes = next a rest := by
  change (decode bytes).bind (fun result ↦ next result.1 result.2) = next a rest
  rw [h]
  rfl

theorem inverts_take (n : ℕ) : (take n).Inverts (fun bytes : List β ↦ bytes) (·.length = n) where
  decode_append := by
    rintro bytes rfl rest
    simp [take]
  eq_append := by
    intro bytes data rest h
    obtain ⟨hle, heq⟩ := Option.ite_none_right_eq_some.mp h
    obtain ⟨rfl, rfl⟩ := Prod.mk.inj (Option.some.inj heq)
    exact ⟨List.length_take_of_le hle, (List.take_append_drop n bytes).symm⟩

namespace Inverts

variable {decode : Decoder β α} {encode : α → List β} {Fits : α → Prop}

theorem congr {encode' : α → List β} {Fits' : α → Prop} (h : decode.Inverts encode Fits)
    (hencode : ∀ a, encode' a = encode a) (hfits : ∀ a, Fits' a ↔ Fits a) :
    decode.Inverts encode' Fits' := by
  obtain rfl := funext hencode
  obtain rfl := funext fun a ↦ propext (hfits a)
  exact h

/-- The first part of a value may say how the second part is to be read. -/
theorem bind {next : α → Decoder β γ} {encodeNext : γ → List β} {FitsNext : γ → Prop}
    (h : decode.Inverts encode Fits) (first : γ → α)
    (hnext : ∀ a, (next a).Inverts encodeNext fun c ↦ first c = a ∧ FitsNext c) :
    (decode >>= next).Inverts (fun c ↦ encode (first c) ++ encodeNext c)
      fun c ↦ Fits (first c) ∧ FitsNext c where
  decode_append := by
    rintro c ⟨hfirst, hrest⟩ rest
    rw [List.append_assoc, bind_of_eq_some (h.decode_append hfirst _)]
    exact (hnext _).decode_append ⟨rfl, hrest⟩ rest
  eq_append := by
    intro bytes c rest hc
    obtain ⟨a, bytes', hdecode, hrest⟩ := bind_eq_some hc
    obtain ⟨hfits, rfl⟩ := h.eq_append hdecode
    obtain ⟨⟨rfl, hfits'⟩, rfl⟩ := (hnext a).eq_append hrest
    exact ⟨⟨hfits, hfits'⟩, (List.append_assoc _ _ _).symm⟩

/-- A value that is read and put in its place. -/
theorem map {f : α → γ} (h : decode.Inverts encode Fits) (g : γ → α)
    (hg : ∀ a, Fits a → g (f a) = a) :
    (f <$> decode).Inverts (fun c ↦ encode (g c)) fun c ↦ Fits (g c) ∧ f (g c) = c where
  decode_append := by
    rintro c ⟨hfits, hc⟩ rest
    have hread : (f <$> decode) (encode (g c) ++ rest) = some (f (g c), rest) :=
      bind_of_eq_some (h.decode_append hfits rest) fun a ↦ pure (f a)
    rw [hread, hc]
  eq_append := by
    intro bytes c rest hc
    have hbind : (decode >>= fun a ↦ pure (f a)) bytes = some (c, rest) := hc
    obtain ⟨a, bytes', hdecode, hpure⟩ := bind_eq_some hbind
    obtain ⟨rfl, rfl⟩ := Prod.mk.inj (Option.some.inj hpure)
    obtain ⟨hfits, rfl⟩ := h.eq_append hdecode
    rw [hg a hfits]
    exact ⟨⟨hfits, rfl⟩, rfl⟩

theorem times (h : decode.Inverts encode Fits) (n : ℕ) :
    (Decoder.times decode n).Inverts (fun as ↦ as.flatMap encode)
      fun as ↦ as.length = n ∧ ∀ a ∈ as, Fits a where
  decode_append := by
    rintro as ⟨rfl, hfits⟩ rest
    induction as with
    | nil => rfl
    | cons a as ih =>
        obtain ⟨ha, has⟩ := List.forall_mem_cons.mp hfits
        rw [List.flatMap_cons, List.append_assoc, List.length_cons, Decoder.times,
          bind_of_eq_some (h.decode_append ha _), bind_of_eq_some (ih has)]
        rfl
  eq_append := by
    intro bytes as rest has
    induction n generalizing bytes as with
    | zero =>
        obtain ⟨rfl, rfl⟩ := Prod.mk.inj (Option.some.inj has)
        simp
    | succ n ih =>
        obtain ⟨a, bytes₁, hdecode, hrest⟩ := bind_eq_some has
        obtain ⟨as, bytes₂, htimes, hpure⟩ := bind_eq_some hrest
        obtain ⟨rfl, rfl⟩ := Prod.mk.inj (Option.some.inj hpure)
        obtain ⟨ha, rfl⟩ := h.eq_append hdecode
        obtain ⟨⟨rfl, hall⟩, rfl⟩ := ih htimes
        exact ⟨⟨rfl, List.forall_mem_cons.mpr ⟨ha, hall⟩⟩, by simp⟩

end Inverts

end Decoder
