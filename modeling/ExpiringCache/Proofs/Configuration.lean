import ExpiringCache.Health.Monitor
import ExpiringCache.Proofs.Fields

/-! What a document configures. Every text of a value is told apart: a configuration is read
off the records whose field is an integer that 64 bits hold with its sign, and off nothing
else. What is read reaches a cache and a health check as it is written, or is refused by both
because it is negative. -/

namespace ExpiringCache

universe u

open Json

/-- The integer that a field of a configuration may be. -/
def Json.Value.signed? : Value → Option Int
  | .integer n =>
    if -9223372036854775808 ≤ n ∧ n ≤ 9223372036854775807 then some n else none
  | _ => none

theorem Json.Value.signed?_eq_some_iff {v : Value} {n : Int} : v.signed? = some n ↔
    v = .integer n ∧ -9223372036854775808 ≤ n ∧ n ≤ 9223372036854775807 := by
  cases v with
  | integer m =>
    by_cases hm : -9223372036854775808 ≤ m ∧ m ≤ 9223372036854775807
    · rw [Value.signed?, if_pos hm, Option.some.injEq, Value.integer.injEq]
      constructor
      · rintro rfl
        exact ⟨rfl, hm⟩
      · exact fun h => h.1
    · rw [Value.signed?, if_neg hm, Value.integer.injEq]
      constructor
      · intro h
        cases h
      · rintro ⟨rfl, h⟩
        exact absurd h hm
  | _ => simp [Value.signed?]

theorem reads_readInteger : Reads readInteger Value.signed? := by
  intro v a t r ha h hr
  rw [readInteger, toOption_bind, readAs_value "i64" rfl rfl ha h hr]
  cases v with
  | integer n =>
    by_cases hn : -9223372036854775808 ≤ n ∧ n ≤ 9223372036854775807
    · simp only [Value.found, Option.map_some, Option.bind_some, if_pos hn, Value.signed?]
      rfl
    · simp only [Value.found, Option.map_some, Option.bind_some, if_neg hn, Value.signed?]
      rfl
  | _ => rfl

/-- A configuration is read off the records of an integer, and off no other document. -/
theorem Config.parse_eq_ok_iff {v : Value} {text : String} (h : v.IsWrittenAs text) {n : Int} :
    Config.parse text = .ok ⟨n⟩ ↔ v.Carries "expire_after_ms" (.integer n) ∧
      -9223372036854775808 ≤ n ∧ n ≤ 9223372036854775807 := by
  have hmk : Function.Injective Config.mk := fun _ _ => Config.mk.inj
  rw [Config.parse, map_parse_eq_ok_iff (f := Config.field) hmk reads_readInteger h]
  simp only [Value.signed?_eq_some_iff]
  constructor
  · rintro ⟨w, hw, rfl, hn⟩
    exact ⟨hw, hn⟩
  · rintro ⟨hw, hn⟩
    exact ⟨_, hw, rfl, hn⟩

/-! ### What is configured -/

theorem Config.expireAfter_of_neg {n : Int} (hn : n < 0) :
    Config.expireAfter ⟨n⟩ = .error (.negativeExpiry n) := if_pos hn

/-- As many milliseconds as 64 bits hold are a duration. -/
theorem Config.expireAfter_of_nonneg {n : Int} (hn : 0 ≤ n) (hlast : n ≤ 9223372036854775807) :
    ∃ ttl : Nat, Config.expireAfter ⟨n⟩ = .ok ttl ∧ (ttl : Int) = n * 1000000 ∧
      Time.IsDuration ttl := by
  have hnat : (n.toNat : Int) = n := Int.toNat_of_nonneg hn
  refine ⟨n.toNat * Time.millisecond, if_neg (Int.not_lt.2 hn), ?_, ?_⟩
  · rw [Int.natCast_mul, hnat]
    rfl
  · unfold Time.IsDuration Time.longest Time.millisecond Time.second
    omega

/-- The configuration is refused, whatever is made of it. -/
structure Config.Refused (α : Type u) (c : Config) (e : Rejection) : Prop where
  expireAfter : c.expireAfter = .error e
  cache : ∀ now, (Cache.ofConfig c now : Except Rejection (Cache α)) = .error e
  monitor : ∀ probe now, HealthMonitor.ofConfig c probe now = .error e

/-- Whatever is made of the configuration has the lifetime, and sweeps as often as is due to
this lifetime. -/
structure Config.Lasts (α : Type u) (c : Config) (ttl : Nat) : Prop where
  expireAfter : c.expireAfter = .ok ttl
  cache : ∀ now, ∃ cache : Cache α, Cache.ofConfig c now = .ok cache ∧ cache.ttl = ttl ∧
    cache.sweeper.interval = Sweeper.intervalFor ttl
  monitor : ∀ probe now, ∃ h, HealthMonitor.ofConfig c probe now = .ok h ∧ h.memo.ttl = ttl ∧
    h.memo.sweeper.interval = Sweeper.intervalFor ttl

theorem Config.refused_of_expireAfter (α : Type u) {c : Config} {e : Rejection}
    (h : c.expireAfter = .error e) : c.Refused α e where
  expireAfter := h
  cache := by simp [Cache.ofConfig, h, Except.map]
  monitor := by simp [HealthMonitor.ofConfig, h, Except.map]

theorem Config.lasts_of_expireAfter (α : Type u) {c : Config} {ttl : Nat}
    (h : c.expireAfter = .ok ttl) : c.Lasts α ttl where
  expireAfter := h
  cache now := ⟨.start ttl now, by rw [Cache.ofConfig, h]; rfl, rfl, rfl⟩
  monitor probe now := ⟨.start ttl probe now, by rw [HealthMonitor.ofConfig, h]; rfl, rfl, rfl⟩

/-- A document sets the lifetime exactly if it is a record of an integer that 64 bits hold with
its sign: an object with exactly one member of the key, or a list of one element. A negative
integer is then refused, and any other is the lifetime in milliseconds. -/
theorem Config.document_sets_lifetime (α : Type u) {v : Value} {text : String}
    (h : v.IsWrittenAs text) :
    (∀ n, Config.parse text = .ok ⟨n⟩ ↔ v.Carries "expire_after_ms" (.integer n) ∧
      -9223372036854775808 ≤ n ∧ n ≤ 9223372036854775807) ∧
    ((∀ n, v.Carries "expire_after_ms" (.integer n) →
      ¬(-9223372036854775808 ≤ n ∧ n ≤ 9223372036854775807)) →
      ∃ refusal, Config.parse text = .error refusal) ∧
    ∀ n, Config.parse text = .ok ⟨n⟩ →
      (n < 0 → Config.Refused α ⟨n⟩ (.negativeExpiry n)) ∧
      (0 ≤ n → ∃ ttl : Nat, (ttl : Int) = n * 1000000 ∧ Time.IsDuration ttl ∧
        Config.Lasts α ⟨n⟩ ttl) := by
  refine ⟨fun n => parse_eq_ok_iff h, fun hnone => ?_, fun n hn => ⟨fun hneg => ?_, fun hpos => ?_⟩⟩
  · cases hparse : Config.parse text with
    | error refusal => exact ⟨refusal, rfl⟩
    | ok c =>
      obtain ⟨hcarries, hrange⟩ := (parse_eq_ok_iff h).1 hparse
      exact absurd hrange (hnone _ hcarries)
  · exact refused_of_expireAfter α (expireAfter_of_neg hneg)
  · obtain ⟨-, -, hlast⟩ := (parse_eq_ok_iff h).1 hn
    obtain ⟨ttl, hexpire, httl, hduration⟩ := expireAfter_of_nonneg hpos hlast
    exact ⟨ttl, httl, hduration, lasts_of_expireAfter α hexpire⟩

/-- The key may be spelled by an escape and stand after a member that is skipped. -/
theorem Config.document_sets_lifetime_escaped :
    Value.IsWrittenAs (.object [("tags", .list [.null]), ("expire_after_ms", .integer 250)])
      "\x7b\"tags\":[null],\"\\u0065xpire_after_ms\": 250\x7d" ∧
    Config.parse "\x7b\"tags\":[null],\"\\u0065xpire_after_ms\": 250\x7d" = .ok ⟨250⟩ ∧
    ∃ ttl : Nat, (ttl : Int) = 250000000 ∧ Config.Lasts Unit ⟨250⟩ ttl := by
  have htags : Spells (.member ("tags", .list [.null])) "\"tags\":[null]".toList :=
    .member (a := []) (k := "tags".toList) (b := []) blanks_nil (.plain (by simp)) blanks_nil
      (Spells.list (.lastElement Spells.null.bare)).bare
  have hunit : SpellsUnit 'e'.toNat ['0', '0', '6', '5'] :=
    .digits (a := 0) (b := 0) (c := 6) (d := 5) (by decide) (by decide) (by decide) (by decide)
  have hrest : SpellsText "xpire_after_ms".toList "xpire_after_ms".toList := .plain (by simp)
  have hkey : SpellsText "expire_after_ms".toList "\\u0065xpire_after_ms".toList :=
    .cons (.unit hunit) hrest
  have hinteger : Spells (.element (.integer 250)) " 250".toList :=
    .element (a := [' ']) (t := "250".toList) (b := []) (by simp [Blanks])
      (.integer (n := 250) (by decide) (by decide)) blanks_nil
  have hlast : Spells (.member ("expire_after_ms", .integer 250))
      "\"\\u0065xpire_after_ms\": 250".toList :=
    .member (a := []) (b := []) blanks_nil hkey blanks_nil hinteger
  have hwritten : Value.IsWrittenAs
      (.object [("tags", .list [.null]), ("expire_after_ms", .integer 250)])
      "\x7b\"tags\":[null],\"\\u0065xpire_after_ms\": 250\x7d" :=
    (Spells.object (.members htags (.lastMember hlast))).bare
  obtain ⟨haccepts, -, hlasts⟩ := document_sets_lifetime Unit hwritten
  have hparse := (haccepts 250).2 ⟨.inl ⟨_, rfl, rfl⟩, by decide⟩
  obtain ⟨ttl, httl, -, h⟩ := (hlasts 250 hparse).2 (by decide)
  exact ⟨hwritten, hparse, ttl, httl, h⟩

end ExpiringCache
