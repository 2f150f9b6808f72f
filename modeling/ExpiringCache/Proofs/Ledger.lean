import ExpiringCache.Proofs.Commands
import ExpiringCache.Proofs.Contents

/-! The account of what the loop of a worker removes. Every entry is still there at the end,
as it was, or was removed by one round: by a sweep that came after it had expired or by a
purge with its token. What the loop reports adds up to what is gone, and so does the time
that the removals took (`accounts_for_every_entry`). -/

namespace ExpiringCache

universe u

variable {α : Type u}

namespace Event

/-- The number of entries that a report of a sweep gives. -/
def sweptCount? : Event → Option Nat
  | .sweptExpired count => some count
  | _ => none

/-- The key that a report of a purge names. -/
def purgedKey? : Event → Option String
  | .keyPurged key => some key
  | _ => none

/-- What the reports of sweeps add up to. -/
def sweptTotal (log : List Event) : Nat := (log.filterMap sweptCount?).foldr (· + ·) 0

/-- The keys that the reports of purges name. -/
def purgedKeys (log : List Event) : List String := log.filterMap purgedKey?

theorem sweptTotal_append (log log' : List Event) :
    sweptTotal (log ++ log') = sweptTotal log + sweptTotal log' := by
  rw [sweptTotal, sweptTotal, sweptTotal, List.filterMap_append]
  induction log.filterMap sweptCount? with
  | nil => exact (Nat.zero_add _).symm
  | cons n ns ih =>
    rw [List.cons_append, List.foldr_cons, ih, List.foldr_cons, Nat.add_assoc]

theorem purgedKeys_append (log log' : List Event) :
    purgedKeys (log ++ log') = purgedKeys log ++ purgedKeys log' := List.filterMap_append

end Event

namespace Round

/-- A round reports as many removals as it makes. -/
theorem length_removed (r : Round α) : r.removed.length =
    Event.sweptTotal r.events + (Event.purgedKeys r.events).length := by
  cases r with
  | swept now removed => cases removed <;> rfl
  | purged p removed => cases removed <;> rfl
  | shutdown | closed => rfl

/-- A report of a purge names the key of an entry that was removed. -/
theorem purgedKeys_sublist (r : Round α) :
    (Event.purgedKeys r.events).Sublist (r.removed.map (·.1)) := by
  cases r with
  | swept now removed => cases removed <;> exact List.nil_sublist _
  | purged p removed => cases removed <;> exact .refl _
  | shutdown | closed => exact .refl _

end Round

namespace Worker

variable {cost : α → Nat} {w v last : Worker α} {rounds : List (Round α)}

/-! ### The reports -/

theorem events_cons (r : Round α) (rounds : List (Round α)) :
    events (r :: rounds) = r.events ++ events rounds := List.flatMap_cons

theorem length_flatMap_removed (rounds : List (Round α)) :
    (rounds.flatMap Round.removed).length =
      Event.sweptTotal (events rounds) + (Event.purgedKeys (events rounds)).length := by
  induction rounds with
  | nil => rfl
  | cons r rounds ih =>
    have hround := r.length_removed
    rw [List.flatMap_cons, List.length_append, events_cons, Event.sweptTotal_append,
      Event.purgedKeys_append, List.length_append]
    omega

theorem purgedKeys_events_sublist (rounds : List (Round α)) :
    (Event.purgedKeys (events rounds)).Sublist ((rounds.flatMap Round.removed).map (·.1)) := by
  induction rounds with
  | nil => exact .refl _
  | cons r rounds ih =>
    rw [List.flatMap_cons, List.map_append, events_cons, Event.purgedKeys_append]
    exact r.purgedKeys_sublist.append ih

/-! ### The removals -/

/-- The clock moves by the time that removals take. -/
theorem Passes.clock_eq (h : Passes cost w rounds v) :
    v.clock = w.clock + removalTime cost (rounds.flatMap Round.removed) := by
  have htotal := h.reaches.clock_add.2
  have hperm := removalTime_perm cost h.perm
  rw [removalTime_append] at hperm
  omega

/-- A round removes what has expired, if it sweeps, or else what its command is for. -/
theorem removed_round {b : String × Entry α} (hb : b ∈ (w.round cost).removed) :
    (∃ gone, w.round cost = .swept w.clock gone ∧ b ∈ gone ∧ b.2.expiresAt < w.clock) ∨
      w.round cost = .purged ⟨b.1, b.2.expiresAt⟩ (some b.2) ∧
        .purge ⟨b.1, b.2.expiresAt⟩ ∈ w.queue := by
  cases hdue : w.isDue with
  | true =>
    rw [round_of_due hdue] at hb ⊢
    have hexpired : b ∈ (w.store.sweep w.clock).1 := hb
    rw [Store.sweep_eq, List.mem_filter, Entry.isExpired_iff] at hexpired
    exact .inl ⟨_, rfl, hb, hexpired.2⟩
  | false =>
    match hqueue : w.queue with
    | [] =>
      rw [round_of_queue_nil hdue hqueue] at hb
      cases hb
    | .shutdown :: rest =>
      rw [round_of_queue_shutdown hdue hqueue] at hb
      cases hb
    | .purge p :: rest =>
      rw [round_of_queue_purge hdue hqueue] at hb ⊢
      have hremoved : b ∈ ((w.store.target? p).map fun e => (p.key, e)).toList := hb
      rw [Option.mem_toList, Option.map_eq_some_iff] at hremoved
      obtain ⟨e, htarget, rfl⟩ := hremoved
      have htoken := (Store.target?_eq_some_iff.1 htarget).2
      have hp : p = ⟨p.key, e.expiresAt⟩ := by rw [htoken]
      refine .inr ⟨?_, hp ▸ .head _⟩
      show Round.purged p (w.store.target? p) = .purged ⟨p.key, e.expiresAt⟩ (some e)
      rw [htarget, ← hp]

namespace Runs

/-- The round that ends a run changes neither the store nor the clock. -/
theorem exists_passes_to_end (h : Runs cost w rounds last) :
    ∃ before v, Passes cost w before v ∧
      rounds.flatMap Round.removed = before.flatMap Round.removed ∧
      last.store = v.store ∧ last.clock = v.clock := by
  obtain ⟨before, v, hpasses, -, ⟨rfl, -, rfl⟩ | ⟨rest, rfl, -, rfl⟩⟩ := h.exists_passes
  · exact ⟨before, _, hpasses, by simp [Round.removed], rfl, rfl⟩
  · exact ⟨before, v, hpasses, by simp [Round.removed], rfl, rfl⟩

/-- What was removed and what is left at the end are what was there. -/
theorem perm (h : Runs cost w rounds last) :
    (rounds.flatMap Round.removed ++ last.store.bindings).Perm w.store.bindings := by
  obtain ⟨before, v, hpasses, hremoved, hstore, -⟩ := h.exists_passes_to_end
  rw [hremoved, hstore]
  exact hpasses.perm

theorem clock_eq (h : Runs cost w rounds last) :
    last.clock = w.clock + removalTime cost (rounds.flatMap Round.removed) := by
  obtain ⟨before, v, hpasses, hremoved, -, hclock⟩ := h.exists_passes_to_end
  rw [hremoved, hclock]
  exact hpasses.clock_eq

/-- What a sweep removed had expired when it began, and what a purge removed had its token. -/
theorem removed_for (h : Runs cost w rounds last) {b : String × Entry α}
    (hb : b ∈ rounds.flatMap Round.removed) :
    (∃ before now gone after, rounds = before ++ .swept now gone :: after ∧
        now = w.clock + removalTime cost (before.flatMap Round.removed) ∧
        b ∈ gone ∧ b.2.expiresAt < now) ∨
      .purged ⟨b.1, b.2.expiresAt⟩ (some b.2) ∈ rounds ∧
        .purge ⟨b.1, b.2.expiresAt⟩ ∈ w.queue := by
  obtain ⟨r, hr, hmem⟩ := List.mem_flatMap.1 hb
  obtain ⟨before, after, rfl⟩ := List.append_of_mem hr
  obtain ⟨v, hpasses, rfl⟩ := h.exists_passes_to
  rcases removed_round hmem with ⟨gone, hswept, hgone, hexpired⟩ | ⟨hpurged, hqueue⟩
  · exact .inl ⟨before, v.clock, gone, after, by rw [hswept], hpasses.clock_eq, hgone, hexpired⟩
  · refine .inr ⟨hpurged ▸ hr, ?_⟩
    rw [← hpasses.queue_eq]
    exact List.mem_append_right _ hqueue

end Runs

/-- Let the loop of a worker end. What is left was there before, as it is. As many entries
are gone as the reports of sweeps add up to and the reports of purges name, and no two of
these name the same key. The rounds removed what is gone and each entry of it once, and the
clock has moved by the time that this takes. Each of these entries had expired at the instant
of the sweep that removed it, which is where the removals before it had moved the clock, or
it had the token of a purge in the queue that removed it. -/
theorem accounts_for_every_entry (cost : α → Nat) (interval : Nat) (s : Store α) (begun : Int)
    (queue : List Request) {rounds : List (Round α)} {last : Worker α}
    (h : (start interval s begun queue).run cost = some (rounds, last)) :
    let gone := s.missingFrom last.store
    let log := events rounds
    (∀ k e, last.store.find? k = some e → s.find? k = some e) ∧
      s.size = last.store.size + (Event.sweptTotal log + (Event.purgedKeys log).length) ∧
      (Event.purgedKeys log).Nodup ∧
      (rounds.flatMap Round.removed).Perm gone ∧
      last.clock = begun + removalTime cost gone ∧
      ∀ b ∈ gone,
        (∃ before now swept after, rounds = before ++ .swept now swept :: after ∧
            now = begun + removalTime cost (before.flatMap Round.removed) ∧
            b ∈ swept ∧ b.2.expiresAt < now) ∨
          .purged ⟨b.1, b.2.expiresAt⟩ (some b.2) ∈ rounds ∧
            .purge ⟨b.1, b.2.expiresAt⟩ ∈ queue := by
  intro gone log
  have hruns := runs_of_run_eq_some h
  have hperm : (rounds.flatMap Round.removed ++ last.store.bindings).Perm s.bindings := hruns.perm
  have hgone : (rounds.flatMap Round.removed).Perm gone := Store.perm_missingFrom hperm
  refine ⟨fun k e he => ?_, ?_, ?_, hgone, ?_, fun b hb => ?_⟩
  · rw [Store.find?_eq_some_iff] at he ⊢
    exact hperm.mem_iff.1 (List.mem_append_right _ he)
  · have hlength := hperm.length_eq
    rw [List.length_append, length_flatMap_removed] at hlength
    exact hlength.symm.trans (Nat.add_comm _ _)
  · apply (purgedKeys_events_sublist rounds).nodup
    have hkeys := (hperm.map (·.1)).nodup_iff.2 s.nodup_keys
    rw [List.map_append] at hkeys
    exact hkeys.of_append_left
  · rw [← removalTime_perm cost hgone]
    exact hruns.clock_eq
  · exact hruns.removed_for (hgone.mem_iff.2 hb)

/-- A purge and a sweep remove three of four entries and report them; the purge of an entry
that the sweep has taken, and one with another token, go unmentioned. -/
theorem accounts_for_every_entry_slow :
    let s : Store Nat := (((Store.empty.insert "a" ⟨3, 5⟩).insert "b" ⟨4, 1⟩).insert "d"
      ⟨9, 100⟩).insert "e" ⟨1, 2⟩
    let queue : List Request := [.purge ⟨"a", 5⟩, .purge ⟨"b", 1⟩, .purge ⟨"d", 7⟩]
    let gone : List (String × Entry Nat) := [("a", ⟨3, 5⟩), ("b", ⟨4, 1⟩), ("e", ⟨1, 2⟩)]
    ∃ rounds last, (start 2 s 0 queue).run id = some (rounds, last) ∧
      events rounds = [.keyPurged "a", .sweptExpired 2, .queueClosed] ∧
      s.missingFrom last.store = gone ∧ s.size = last.store.size + (2 + 1) ∧
      (rounds.flatMap Round.removed).Perm gone ∧ last.clock = 0 + removalTime id gone ∧
      ∃ before, ∃ now : Int, ∃ swept after, rounds = before ++ .swept now swept :: after ∧
        now = 0 + removalTime id (before.flatMap Round.removed) ∧
        ("b", ⟨4, 1⟩) ∈ swept ∧ 1 < now := by
  intro s queue gone
  have hends : ((start 2 s 0 queue).run id).isSome = true := by decide +kernel
  obtain ⟨⟨rounds, last⟩, hrun⟩ := Option.isSome_iff_exists.1 hends
  have heval : ((start 2 s 0 queue).run id).map (fun r => (r.1, s.missingFrom r.2.store)) =
      some ([.purged ⟨"a", 5⟩ (some ⟨3, 5⟩), .swept 3 [("b", ⟨4, 1⟩), ("e", ⟨1, 2⟩)],
        .swept 8 [], .purged ⟨"b", 1⟩ none, .purged ⟨"d", 7⟩ none, .closed], gone) := by
    decide +kernel
  rw [hrun] at heval
  obtain ⟨rfl, hgone⟩ := Prod.mk.inj (Option.some.inj heval)
  obtain ⟨-, hsize, -, hperm, hclock, hwhy⟩ := accounts_for_every_entry id 2 s 0 queue hrun
  rw [hgone] at hperm hclock hwhy
  exact ⟨_, last, hrun, rfl, hgone, hsize, hperm, hclock,
    (hwhy ("b", ⟨4, 1⟩) (by decide)).resolve_right (by decide)⟩

end Worker

end ExpiringCache
