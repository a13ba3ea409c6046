import Reckoner.Instant.Basic
import Mathlib.Data.Int.Order.Basic
import Mathlib.Tactic.SplitIfs

/-!
# Time that passes

A duration is added to an instant field by field, with care for leap seconds and for the end of the
calendar. On a clock that counts nanoseconds from one instant on, the same is a sum of whole
numbers.
-/

namespace Reckoner

/-! ## Milliseconds -/

theorem Duration.nanos_ofMillis (ms : UInt64) : (ofMillis ms).nanos = ms.toNat * 1000000 := by
  unfold nanos ofMillis Instant.billion
  rw [UInt64.toNat_div]
  change ms.toNat / 1000 * 1000000000 + ms.toNat % 1000 * 1000000 = _
  omega

theorem Duration.millis_ofMillis (ms : UInt64) : (ofMillis ms).millis = ms := by
  have hms : ms.toNat ≤ 0xffffffffffffffff := Nat.le_of_lt_succ ms.toNat_lt
  have hmin : Nat.min ms.toNat 0xffffffffffffffff = ms.toNat := Nat.min_eq_left hms
  rw [millis, nanos_ofMillis, Nat.mul_div_cancel _ (by decide), hmin]
  exact UInt64.ofNat_toNat

namespace Instant

/-! ## Deadlines -/

structure Shown (i : Instant) : Prop where
  representable : i.isRepresentable = true
  nano : i.nano < 2 * billion

/--
Nanoseconds since the start of 1970 at `i`, on a clock that has been set at `s`. It counts the leap
second in which it has been set, and stands still in every other.
-/
def ticks (s i : Instant) : Int :=
  if s.nano < billion ∨ i.second < s.second then i.second * billion + min i.nano (billion - 1)
  else if i.second = s.second then i.second * billion + i.nano
  else (i.second + 1) * billion + min i.nano (billion - 1)

theorem ticks_eq (s : Instant) {i : Instant} (hs : s.nano < billion) (hi : i.nano < billion) :
    s.ticks i = i.second * billion + i.nano := by
  unfold ticks
  rw [if_pos (.inl hs), Nat.min_eq_left (by omega)]

theorem notAfter_iff {a b : Instant} :
    a.notAfter b = true ↔ a.second < b.second ∨ a.second = b.second ∧ a.nano ≤ b.nano := by
  rw [notAfter]
  change (compare a.second b.second |>.then (compare a.nano b.nano)).isLE = true ↔ _
  rw [Ordering.isLE_then_iff_or, Std.compare_eq_lt, Std.compare_eq_iff_eq, Std.isLE_compare]

theorem notAfter_trans {a b c : Instant} (h : a.notAfter b = true) (h' : b.notAfter c = true) :
    a.notAfter c = true := by
  rw [notAfter_iff] at *
  omega

theorem le_second_later (s : Instant) (d : Duration) : s.second ≤ (s.later d).second := by
  unfold later billion
  dsimp only
  split
  · exact le_rfl
  · dsimp only
    omega

theorem notAfter_later_iff {s now : Instant} (hs : s.Shown) (hnow : now.Shown) (d : Duration) :
    (s.later d).notAfter now = true ↔ s.ticks s + d.nanos ≤ s.ticks now := by
  have hn := hs.nano
  have hn' := hnow.nano
  rw [notAfter_iff]
  unfold later ticks billion at *
  dsimp only
  split
  -- within the leap second in which `s` falls
  · dsimp only
    split_ifs <;> omega
  · dsimp only
    split_ifs <;> omega

/-- A deadline beyond the end of the calendar is after every instant that a clock can show. -/
theorem exists_later?_iff {s now : Instant} (hs : s.Shown) (hnow : now.Shown) (d : Duration) :
    (∃ deadline, s.later? d = some deadline ∧ deadline.notAfter now = true) ↔
      s.ticks s + d.nanos ≤ s.ticks now := by
  rw [← notAfter_later_iff hs hnow d]
  constructor
  · rintro ⟨deadline, hd, hle⟩
    rw [later?, Option.ite_none_right_eq_some] at hd
    cases hd.2
    exact hle
  · intro hle
    have hfirst := hs.representable
    have hlast := hnow.representable
    have hlater := le_second_later s d
    have hsecond := notAfter_iff.1 hle
    simp only [isRepresentable, Bool.and_eq_true, decide_eq_true_eq] at hfirst hlast
    have hshown : (s.later d).isRepresentable = true := by
      simp only [isRepresentable, Bool.and_eq_true, decide_eq_true_eq]
      omega
    exact ⟨_, by rw [later?, if_pos hshown], hle⟩

end Instant

end Reckoner
