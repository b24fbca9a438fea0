import Vcass.Core.Bytes

/-!
# Copies from User Memory

The memory that a user passes to the kernel stays the user's: another thread may write to it at any
time.  Two calls of `copy_from_user` for one address are therefore two unrelated fetches, and nothing
that was checked on the first copy is known about the second one.
-/

namespace Vcass.Core

/-- What one call of `copy_from_user` finds at the user's address: bytes, or a fault -/
abbrev Fetch := Option Bytes

/-- A block of kernel memory.  The bytes from its size on belong to somebody else. -/
structure Block where
  size : Nat
  bytes : Bytes

namespace Block

/-- `kzalloc` -/
def kzalloc (size : Nat) : Block := ⟨size, fun _ => 0⟩

/-- `copy_from_user` of `n` bytes to the begin of a block -/
def copyFromUser (b : Block) (fetch : Fetch) (n : Nat) : Option Block :=
  fetch.map fun user => { b with bytes := fun k => if k < n then user k else b.bytes k }

/-- What was copied -/
structure CopyOf (b' b : Block) (user : Bytes) (n : Nat) : Prop where
  size : b'.size = b.size
  copied : ∀ k < n, b'.bytes k = user k
  kept : ∀ k, n ≤ k → b'.bytes k = b.bytes k

theorem copyFromUser_some {b b' : Block} {fetch : Fetch} {n : Nat}
    (h : b.copyFromUser fetch n = some b') : ∃ user, fetch = some user ∧ CopyOf b' b user n := by
  obtain ⟨user, hfetch, rfl⟩ := Option.map_eq_some_iff.mp h
  refine ⟨user, hfetch, rfl, ?_, ?_⟩
  · intro k hk
    exact if_pos hk
  · intro k hk
    exact if_neg (Nat.not_lt.mpr hk)

/-- A number inside the copied bytes -/
theorem CopyOf.le {b' b : Block} {user : Bytes} {n : Nat} (h : CopyOf b' b user n) {off w : Nat}
    (hfield : off + w ≤ n) : b'.bytes.le off w = user.le off w :=
  Bytes.le_congr fun k hk => h.copied _ (by omega)

end Block

end Vcass.Core
