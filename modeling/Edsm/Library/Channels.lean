import Mathlib.Data.List.Nodup
import Mathlib.Logic.Function.Basic

/-!
# Point-to-point FIFO channels

`net p q` is the list of messages sent by `p` and not yet received by `q`,
oldest first.  Sending appends, receiving takes the head; a multicast sends
every message of a list to every receiver of a list.
-/

abbrev Channels (ι μ : Type*) := ι → ι → List μ

namespace Channels

variable {ι μ : Type*}

def empty : Channels ι μ := fun _ _ ↦ []

@[simp] theorem empty_apply (p q : ι) : (empty : Channels ι μ) p q = [] := rfl

variable [DecidableEq ι]

/-- Replace the content of one channel. -/
def set (net : Channels ι μ) (p q : ι) (ms : List μ) : Channels ι μ :=
  fun a b ↦ if a = p ∧ b = q then ms else net a b

def send (net : Channels ι μ) (p q : ι) (m : μ) : Channels ι μ :=
  net.set p q (net p q ++ [m])

/-- One message to each receiver of the list, in the order of the list. -/
def sendEach (net : Channels ι μ) (p : ι) (qs : List ι) (m : μ) : Channels ι μ :=
  qs.foldl (fun net q ↦ net.send p q m) net

/-- Several messages, each to all receivers, one message after the other. -/
def multicast (net : Channels ι μ) (p : ι) (qs : List ι) (ms : List μ) : Channels ι μ :=
  ms.foldl (fun net m ↦ net.sendEach p qs m) net

/-- The oldest message on a channel and the channels without it. -/
def receive (net : Channels ι μ) (p q : ι) : Option (μ × Channels ι μ) :=
  match net p q with
  | [] => none
  | m :: ms => some (m, net.set p q ms)

@[simp] theorem set_self (net : Channels ι μ) (p q : ι) (ms : List μ) :
    net.set p q ms p q = ms := by
  simp [set]

theorem set_apply (net : Channels ι μ) (p q a b : ι) (ms : List μ) :
    net.set p q ms a b = if a = p ∧ b = q then ms else net a b := rfl

theorem send_apply (net : Channels ι μ) (p q a b : ι) (m : μ) :
    net.send p q m a b = if a = p ∧ b = q then net a b ++ [m] else net a b := by
  unfold send set
  split <;> simp_all

theorem sendEach_apply (net : Channels ι μ) (p : ι) {qs : List ι} (hqs : qs.Nodup) (m : μ)
    (a b : ι) :
    net.sendEach p qs m a b = if a = p ∧ b ∈ qs then net a b ++ [m] else net a b := by
  induction qs generalizing net with
  | nil => simp [sendEach]
  | cons q qs ih =>
      have hq : q ∉ qs := (List.nodup_cons.mp hqs).1
      have hrest := ih (net.send p q m) (List.nodup_cons.mp hqs).2
      change (net.send p q m).sendEach p qs m a b = _
      rw [hrest, send_apply]
      by_cases ha : a = p
      · by_cases hb : b = q
        · subst hb
          simp [ha, hq]
        · simp [ha, hb]
      · simp [ha]

theorem multicast_apply (net : Channels ι μ) (p : ι) {qs : List ι} (hqs : qs.Nodup)
    (ms : List μ) (a b : ι) :
    net.multicast p qs ms a b = if a = p ∧ b ∈ qs then net a b ++ ms else net a b := by
  induction ms generalizing net with
  | nil => simp [multicast]
  | cons m ms ih =>
      change (net.sendEach p qs m).multicast p qs ms a b = _
      rw [ih, sendEach_apply net p hqs]
      split <;> simp

theorem receive_eq_some {net net' : Channels ι μ} {p q : ι} {m : μ}
    (h : net.receive p q = some (m, net')) :
    ∃ ms, net p q = m :: ms ∧ net' = net.set p q ms := by
  unfold receive at h
  split at h
  · cases h
  · next m' ms hnet =>
      obtain ⟨rfl, rfl⟩ : m' = m ∧ net.set p q ms = net' := by simpa using h
      exact ⟨ms, hnet, rfl⟩

end Channels
