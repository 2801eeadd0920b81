import Rawbin.Core.Config
import Rawbin.Library.Expiring

/-!
# The keys of Redis

One constructor for each key template of the source, with the type of the value that is stored
under it. Templates have different prefixes, so keys of different constructors never meet.
-/

namespace Rawbin

/-- The dictionary of `_load_thresholds`, which is what the cache holds as JSON. -/
structure Thresholds where
  temperatureCMax : ℚ
  temperatureCMin : ℚ
  co2PpmMax : ℚ
  humidityPctMin : ℚ
  humidityPctMax : ℚ
  phMin : ℚ
  phMax : ℚ
  deriving DecidableEq

inductive RedisKey where
  /-- `pairing:challenge:{device_id}` -/
  | challenge (deviceId : Uuid)
  /-- `otp:code:{phone}` -/
  | otpCode (phone : String)
  /-- `otp:attempts:{phone}` -/
  | otpAttempts (phone : String)
  /-- `otp:cooldown:{phone}` -/
  | otpCooldown (phone : String)
  /-- `alert_config:{device_id}` -/
  | alertConfig (deviceId : Uuid)
  deriving DecidableEq

abbrev RedisKey.Val : RedisKey → Type
  | .challenge _ => String
  | .otpCode _ => String
  | .otpAttempts _ => Nat
  | .otpCooldown _ => String
  | .alertConfig _ => Thresholds

abbrev Redis := Expiring Time RedisKey RedisKey.Val

/-- The commands of the source. -/
inductive RedisCmd : Type → Type where
  | get (k : RedisKey) : RedisCmd (Option k.Val)
  | setex (k : RedisKey) (ttl : Nat) (v : k.Val) : RedisCmd Unit
  | delete (ks : List RedisKey) : RedisCmd Unit
  /-- `INCR otp:attempts:{phone}` -/
  | incr (phone : String) : RedisCmd Nat

namespace Redis

/-- The counter after an increment: an absent one starts at one and never expires, a present
one keeps its deadline. -/
def incremented (r : Redis) (now : Time) (phone : String) : Entry Time Nat :=
  match r.entry now (.otpAttempts phone) with
  | some e => ⟨e.value + 1, e.deadline⟩
  | none => ⟨1, none⟩

def incr (r : Redis) (now : Time) (phone : String) : Redis :=
  let e := r.incremented now phone
  r.set (.otpAttempts phone) e.value e.deadline

end Redis

def RedisCmd.exec (now : Time) (r : Redis) : {β : Type} → RedisCmd β → β × Redis
  | _, .get k => (r.get now k, r)
  | _, .setex k ttl v => ((), r.set k v (some (now + seconds ttl)))
  | _, .delete ks => ((), r.delAll ks)
  | _, .incr phone => ((r.incremented now phone).value, r.incr now phone)

/-- The keys that a command reads or writes. -/
def RedisCmd.keys : {β : Type} → RedisCmd β → List RedisKey
  | _, .get k => [k]
  | _, .setex k _ _ => [k]
  | _, .delete ks => ks
  | _, .incr phone => [.otpAttempts phone]

theorem RedisCmd.exec_of_notMem {c : RedisCmd β} (h : k ∉ c.keys) (now : Time) (r : Redis) :
    (c.exec now r).2 k = r k := by
  cases c with
  | get => rfl
  | delete ks => exact Expiring.delAll_of_notMem h
  | setex | incr => exact Expiring.set_ne (List.ne_of_not_mem_cons h)

/-- The answer depends on these keys alone. -/
theorem RedisCmd.exec_fst_congr {c : RedisCmd β} {r r' : Redis} (h : ∀ k ∈ c.keys, r k = r' k)
    (now : Time) : (c.exec now r).1 = (c.exec now r').1 := by
  cases c with
  | get k => exact Expiring.get_congr (h k (List.mem_singleton_self k))
  | setex | delete => rfl
  | incr phone =>
    have he : r.entry now (.otpAttempts phone) = r'.entry now (.otpAttempts phone) := by
      rw [Expiring.entry, Expiring.entry, h _ (List.mem_singleton_self _)]
    simp only [exec, Redis.incremented, he]

/-- A key holds the same after a command if it did before, given that the keys of the command
do. -/
theorem RedisCmd.exec_snd_congr {c : RedisCmd β} {r r' : Redis} (h : ∀ k ∈ c.keys, r k = r' k)
    (now : Time) (hk : r k = r' k) : (c.exec now r).2 k = (c.exec now r').2 k := by
  by_cases hmem : k ∈ c.keys
  · cases c with
    | get => exact hk
    | setex key ttl v =>
      cases List.mem_singleton.mp hmem
      exact Expiring.set_self.trans Expiring.set_self.symm
    | delete ks => exact (Expiring.delAll_of_mem hmem).trans (Expiring.delAll_of_mem hmem).symm
    | incr phone =>
      cases List.mem_singleton.mp hmem
      have he : r.incremented now phone = r'.incremented now phone := by
        rw [Redis.incremented, Redis.incremented, Expiring.entry, Expiring.entry, hk]
      simp only [exec, Redis.incr, he, Expiring.set_self]
  · rw [exec_of_notMem hmem, exec_of_notMem hmem, hk]

end Rawbin
