import ExpiringCache.Proofs.Rounds
import Mathlib.Data.List.Basic

/-! What the loop of a worker does with its queue. The states between the rounds are followed
together with the rounds that lead to them (`Passes`), also where the loop has no end, and
what happens on the way does not depend on the commands that are in the queue at the end of
it. The loop takes its commands in the order of the queue, each once, up to the first
shutdown, however many sweeps come between them, and leaves no entry that one of its purges
is for (`takes_queue_in_order`). -/

namespace ExpiringCache

universe u

variable {α : Type u}

/-- The command that a round took off the queue. -/
def Round.command? : Round α → Option Request
  | .purged p _ => some (.purge p)
  | .shutdown => some .shutdown
  | _ => none

namespace Worker

/-- What the loop does next. -/
def round (cost : α → Nat) (w : Worker α) : Round α :=
  if w.isDue then (w.sweep cost).1
  else
    match w.queue with
    | [] => .closed
    | .shutdown :: _ => .shutdown
    | .purge p :: rest => (w.purge cost p rest).1

/-- From `w` the loop passes through these rounds to `v`, where it has not ended. A run from
`w` is these rounds and then a run from `v` (`Passes.run_eq`), and every round of a run is
come to in this way (`Runs.exists_passes_to`). -/
inductive Passes (cost : α → Nat) : Worker α → List (Round α) → Worker α → Prop where
  | refl (w : Worker α) : Passes cost w [] w
  | sweep {w v : Worker α} {rounds : List (Round α)} (hdue : w.isDue = true)
      (h : Passes cost (w.sweep cost).2 rounds v) :
      Passes cost w ((w.sweep cost).1 :: rounds) v
  | purge {w v : Worker α} {p : Purge} {rest : List Request} {rounds : List (Round α)}
      (hdue : w.isDue = false) (hqueue : w.queue = .purge p :: rest)
      (h : Passes cost (w.purge cost p rest).2 rounds v) :
      Passes cost w ((w.purge cost p rest).1 :: rounds) v

variable {cost : α → Nat} {w v : Worker α} {p : Purge} {rest : List Request}
  {rounds : List (Round α)}

/-! ### One round -/

theorem round_of_due (h : w.isDue = true) : w.round cost = (w.sweep cost).1 := if_pos h

theorem round_of_queue_purge (h : w.isDue = false) (hqueue : w.queue = .purge p :: rest) :
    w.round cost = (w.purge cost p rest).1 := by
  rw [round, if_neg (by simp [h]), hqueue]

theorem round_of_queue_shutdown (h : w.isDue = false) (hqueue : w.queue = .shutdown :: rest) :
    w.round cost = .shutdown := by
  rw [round, if_neg (by simp [h]), hqueue]

theorem round_of_queue_nil (h : w.isDue = false) (hqueue : w.queue = []) :
    w.round cost = .closed := by
  rw [round, if_neg (by simp [h]), hqueue]

/-- A round takes the command at the head of the queue, unless it is a sweep. -/
theorem command?_round (cost : α → Nat) (w : Worker α) :
    (w.round cost).command? = if w.isDue then none else w.queue.head? := by
  cases hdue : w.isDue with
  | true =>
    rw [round_of_due hdue]
    rfl
  | false =>
    rw [if_neg Bool.false_ne_true]
    match hqueue : w.queue with
    | [] =>
      rw [round_of_queue_nil hdue hqueue]
      rfl
    | .shutdown :: rest =>
      rw [round_of_queue_shutdown hdue hqueue]
      rfl
    | .purge p :: rest =>
      rw [round_of_queue_purge hdue hqueue]
      rfl

/-- A purge leaves no entry that it is for. -/
theorem find?_purge_ne (cost : α → Nat) (w : Worker α) (rest : List Request) (k : String)
    (e : Entry α) : (w.purge cost ⟨k, e.expiresAt⟩ rest).2.store.find? k ≠ some e := by
  intro h
  have hstore : (w.purge cost ⟨k, e.expiresAt⟩ rest).2.store =
      w.store.purge ⟨k, e.expiresAt⟩ := rfl
  rw [hstore, Store.find?_purge, Option.filter_eq_some_iff, decide_eq_true_iff] at h
  exact h.2 ⟨rfl, rfl⟩

/-- A sweep that finds nothing only puts the next one off. -/
theorem sweep_of_nothing (cost : α → Nat) (hnothing : (w.store.sweep w.clock).1 = []) :
    (w.sweep cost).2 = { w with nextSweep := Time.deadline w.clock w.interval } := by
  have hstore : (w.store.sweep w.clock).2 = w.store :=
    Store.purgeEach_snd_eq_of_fst_eq_nil hnothing
  simp [sweep, hnothing, hstore, removalTime]

theorem spins_iff : w.spins cost = true ↔
    w.isDue = true ∧ (w.store.sweep w.clock).1 = [] ∧ (w.sweep cost).2.isDue = true := by
  rw [spins, Bool.and_eq_true, Bool.and_eq_true, List.isEmpty_iff, and_assoc]

/-- A loop that spins goes on to do so. -/
theorem spins_sweep (h : w.spins cost = true) : (w.sweep cost).2.spins cost = true := by
  obtain ⟨-, hnothing, hlater⟩ := spins_iff.1 h
  have hsame := sweep_of_nothing cost hnothing
  refine spins_iff.2 ⟨hlater, ?_, ?_⟩
  · rw [hsame]
    exact hnothing
  · have hagain : ((w.sweep cost).2.sweep cost).2 = (w.sweep cost).2 := by
      rw [hsame]
      exact hsame
    rw [hagain]
    exact hlater

theorem run_of_spins (h : w.spins cost = true) : w.run cost = none := by
  rw [run, if_pos (spins_iff.1 h).1, if_pos h]

namespace Passes

/-! ### On the way -/

theorem append {u : Worker α} {more : List (Round α)} (h : Passes cost w rounds v)
    (h' : Passes cost v more u) : Passes cost w (rounds ++ more) u := by
  induction h with
  | refl w => exact h'
  | sweep hdue _ ih => exact .sweep hdue (ih h')
  | purge hdue hqueue _ ih => exact .purge hdue hqueue (ih h')

theorem reaches (h : Passes cost w rounds v) : Reaches cost w v := by
  induction h with
  | refl w => exact .refl w
  | sweep hdue _ ih => exact .sweep hdue ih
  | purge hdue hqueue _ ih => exact .purge hdue hqueue ih

theorem interval_eq (h : Passes cost w rounds v) : v.interval = w.interval := h.reaches.clock_add.1

/-- The rest of a run does not depend on how the loop came to where it is. -/
theorem run_eq (h : Passes cost w rounds v) :
    w.run cost = (v.run cost).map fun r => (rounds ++ r.1, r.2) := by
  induction h with
  | refl w => simp
  | @sweep w v rounds hdue _ ih =>
    cases hspin : w.spins cost with
    | false =>
      rw [run_of_due hdue hspin, ih, Option.map_map]
      rfl
    | true =>
      have hnone := run_of_spins (spins_sweep hspin)
      rw [ih, Option.map_eq_none_iff] at hnone
      rw [run_of_spins hspin, hnone]
      rfl
  | @purge w v p rest rounds hdue hqueue _ ih =>
    rw [run_of_queue_purge cost hdue hqueue, ih, Option.map_map]
    rfl

/-- The commands taken on the way and those still there are the queue. -/
theorem queue_eq (h : Passes cost w rounds v) :
    rounds.filterMap Round.command? ++ v.queue = w.queue := by
  induction h with
  | refl w => rfl
  | sweep hdue _ ih => exact ih
  | purge hdue hqueue _ ih =>
    rw [hqueue]
    exact congrArg _ ih

/-- A shutdown ends the loop, so none is taken on the way. -/
theorem shutdown_not_mem (h : Passes cost w rounds v) :
    .shutdown ∉ rounds.filterMap Round.command? := by
  induction h with
  | refl w => exact List.not_mem_nil
  | sweep hdue _ ih => exact ih
  | purge hdue hqueue _ ih => exact List.not_mem_cons_of_ne_of_not_mem (by simp) ih

/-- With other commands behind those that it takes, the loop takes the same way. -/
theorem requeue (h : Passes cost w rounds v) (others : List Request) :
    Passes cost { w with queue := rounds.filterMap Round.command? ++ others } rounds
      { v with queue := others } := by
  induction h with
  | refl w => exact .refl _
  | sweep hdue _ ih => exact .sweep hdue ih
  | @purge w v p rest rounds hdue hqueue _ ih =>
    let later := rounds.filterMap Round.command? ++ others
    let next : Worker α := { w with queue := .purge p :: later }
    -- from the goal alone the rest of the queue would be that of `w`
    have hfirst := Passes.purge (w := next) hdue rfl ih
    exact hfirst

/-- What is removed on the way and what is left at the end of it are what was there. -/
theorem perm (h : Passes cost w rounds v) :
    (rounds.flatMap Round.removed ++ v.store.bindings).Perm w.store.bindings := by
  induction h with
  | refl w => exact .refl _
  | @sweep w v rounds hdue _ ih =>
    rw [List.flatMap_cons, List.append_assoc]
    exact (ih.append_left _).trans (w.sweep_perm cost)
  | @purge w v p rest rounds hdue hqueue _ ih =>
    rw [List.flatMap_cons, List.append_assoc]
    exact (ih.append_left _).trans (w.purge_perm cost p rest)

/-- No entry comes into the store on the way. -/
theorem find?_eq_some (h : Passes cost w rounds v) {k : String} {e : Entry α}
    (he : v.store.find? k = some e) : w.store.find? k = some e := by
  rw [Store.find?_eq_some_iff] at he ⊢
  exact h.perm.mem_iff.1 (List.mem_append_right _ he)

/-- An entry is gone once a purge for it has been taken. -/
theorem find?_ne_of_taken (h : Passes cost w rounds v) {k : String} {e : Entry α}
    (htaken : .purge ⟨k, e.expiresAt⟩ ∈ rounds.filterMap Round.command?) :
    v.store.find? k ≠ some e := by
  induction h with
  | refl w => exact absurd htaken List.not_mem_nil
  | sweep hdue _ ih => exact ih htaken
  | @purge w v p rest rounds hdue hqueue hrest ih =>
    rcases List.mem_cons.1 htaken with hp | hlater
    · cases hp
      exact fun hleft => w.find?_purge_ne cost rest k e (hrest.find?_eq_some hleft)
    · exact ih hlater

/-- Where nothing is left in the queue, all of it was taken, and it had no shutdown in it. -/
theorem taken_of_queue_nil (h : Passes cost w rounds v) (hv : v.queue = []) :
    rounds.filterMap Round.command? = w.queue ∧ Request.shutdown ∉ w.queue := by
  have hqueue := h.queue_eq
  rw [hv, List.append_nil] at hqueue
  exact ⟨hqueue, hqueue ▸ h.shutdown_not_mem⟩

/-- Where a shutdown is next in the queue, it is the first one. -/
theorem split_of_queue_shutdown (h : Passes cost w rounds v) (hv : v.queue = .shutdown :: rest) :
    w.queue.take (w.queue.idxOf .shutdown + 1) =
        rounds.filterMap Round.command? ++ [.shutdown] ∧
      w.queue.drop (w.queue.idxOf .shutdown + 1) = rest := by
  have hqueue : w.queue = rounds.filterMap Round.command? ++ [.shutdown] ++ rest := by
    rw [← h.queue_eq, hv, List.append_assoc]
    rfl
  have hfirst : w.queue.idxOf .shutdown + 1 =
      (rounds.filterMap Round.command? ++ [Request.shutdown]).length := by
    rw [hqueue, List.append_assoc, List.idxOf_append_of_notMem h.shutdown_not_mem]
    simp
  rw [hfirst, hqueue]
  exact ⟨List.take_left, List.drop_left⟩

/-- Whatever comes after the shutdown that ends it, the run is the same. -/
theorem run_of_queue_shutdown (h : Passes cost w rounds v) (hdue : v.isDue = false)
    (others : List Request) :
    run cost { w with queue := rounds.filterMap Round.command? ++ .shutdown :: others } =
      some (rounds ++ [.shutdown], { v with queue := others }) := by
  have hend : run cost { v with queue := .shutdown :: others } =
      some ([.shutdown], { v with queue := others }) :=
    Worker.run_of_queue_shutdown cost hdue rfl
  rw [(h.requeue (.shutdown :: others)).run_eq, hend]
  rfl

end Passes

/-! ### To the end -/

namespace Runs

variable {last : Worker α}

/-- A run comes to a state in which it ends, by a shutdown or because nothing is left. -/
theorem exists_passes (h : Runs cost w rounds last) :
    ∃ before v, Passes cost w before v ∧ v.isDue = false ∧
      (rounds = before ++ [.closed] ∧ v.queue = [] ∧ last = v ∨
        ∃ rest, rounds = before ++ [.shutdown] ∧ v.queue = .shutdown :: rest ∧
          last = { v with queue := rest }) := by
  induction h with
  | @closed w hdue hqueue => exact ⟨[], w, .refl w, hdue, .inl ⟨rfl, hqueue, rfl⟩⟩
  | @shutdown w rest hdue hqueue =>
    exact ⟨[], w, .refl w, hdue, .inr ⟨rest, rfl, hqueue, rfl⟩⟩
  | purge hdue hqueue _ ih =>
    obtain ⟨before, v, hpasses, hend⟩ := ih
    refine ⟨_ :: before, v, .purge hdue hqueue hpasses, ?_⟩
    simpa only [List.cons_append, List.cons.injEq, true_and] using hend
  | sweep hdue _ ih =>
    obtain ⟨before, v, hpasses, hend⟩ := ih
    refine ⟨_ :: before, v, .sweep hdue hpasses, ?_⟩
    simpa only [List.cons_append, List.cons.injEq, true_and] using hend

theorem head?_eq (h : Runs cost w rounds last) : rounds.head? = some (w.round cost) := by
  cases h with
  | closed hdue hqueue => rw [round_of_queue_nil hdue hqueue, List.head?_cons]
  | shutdown hdue hqueue => rw [round_of_queue_shutdown hdue hqueue, List.head?_cons]
  | purge hdue hqueue _ => rw [round_of_queue_purge hdue hqueue, List.head?_cons]
  | sweep hdue _ => rw [round_of_due hdue, List.head?_cons]

/-- Every round of a run is what the loop does in the state that the rounds before lead to. -/
theorem exists_passes_to {before after : List (Round α)} {r : Round α}
    (h : Runs cost w (before ++ r :: after) last) :
    ∃ v, Passes cost w before v ∧ v.round cost = r := by
  induction before generalizing w with
  | nil => exact ⟨w, .refl w, (Option.some.inj h.head?_eq).symm⟩
  | cons b before ih =>
    generalize hrounds : b :: before ++ r :: after = rounds at h
    cases h with
    | closed | shutdown => exact absurd (List.cons.inj hrounds).2 (by simp)
    | purge hdue hqueue h =>
      obtain ⟨rfl, rfl⟩ := List.cons.inj hrounds
      obtain ⟨v, hpasses, hround⟩ := ih h
      exact ⟨v, .purge hdue hqueue hpasses, hround⟩
    | sweep hdue h =>
      obtain ⟨rfl, rfl⟩ := List.cons.inj hrounds
      obtain ⟨v, hpasses, hround⟩ := ih h
      exact ⟨v, .sweep hdue hpasses, hround⟩

end Runs

theorem getLast?_events_concat (rounds : List (Round α)) {r : Round α} {e : Event}
    (h : r.events = [e]) : (events (rounds ++ [r])).getLast? = some e := by
  rw [events, List.flatMap_append, List.flatMap_singleton, h, List.getLast?_concat]

/-- Let the loop of a worker end. The commands that it took are those of the queue up to the
first shutdown, that one included, or all of them if there is none; it took them in their
order and each once. The commands after them are still in the queue, and with any others in
their place the loop would have done the same. What the loop reports last is that it was
shut down, if the queue has a shutdown in it, and that the queue was closed otherwise. None
of the entries is left that a purge among the commands taken was for. -/
theorem takes_queue_in_order (cost : α → Nat) (interval : Nat) (s : Store α) (begun : Int)
    (queue : List Request) {rounds : List (Round α)} {last : Worker α}
    (h : (start interval s begun queue).run cost = some (rounds, last)) :
    let taken := rounds.filterMap Round.command?
    taken = queue.take (queue.idxOf .shutdown + 1) ∧
      last.queue = queue.drop (queue.idxOf .shutdown + 1) ∧
      (.shutdown ∈ queue → ∀ others, (start interval s begun (taken ++ others)).run cost =
        some (rounds, { last with queue := others })) ∧
      (events rounds).getLast? =
        some (if .shutdown ∈ queue then .shutdownRequested else .queueClosed) ∧
      ∀ k e, .purge ⟨k, e.expiresAt⟩ ∈ taken → last.store.find? k ≠ some e := by
  intro taken
  obtain ⟨before, v, hpasses, hdue, hend⟩ := (runs_of_run_eq_some h).exists_passes
  rcases hend with ⟨rfl, hempty, rfl⟩ | ⟨rest, rfl, hshutdown, rfl⟩
  · obtain ⟨htaken, hnone⟩ : before.filterMap Round.command? = queue ∧ Request.shutdown ∉ queue :=
      hpasses.taken_of_queue_nil hempty
    have hall : taken = queue := by
      rw [← htaken]
      exact (List.filterMap_append).trans (List.append_nil _)
    rw [hall, List.idxOf_of_notMem hnone, if_neg hnone]
    refine ⟨(List.take_of_length_le (Nat.le_succ _)).symm, ?_, fun hmem => absurd hmem hnone,
      getLast?_events_concat before rfl, fun k e hp => ?_⟩
    · rw [hempty, List.drop_of_length_le (Nat.le_succ _)]
    · exact hpasses.find?_ne_of_taken (htaken ▸ hp)
  · have hall : taken = before.filterMap Round.command? ++ [.shutdown] := List.filterMap_append
    obtain ⟨htaken, hrest⟩ : queue.take (queue.idxOf .shutdown + 1) = taken ∧
        queue.drop (queue.idxOf .shutdown + 1) = rest :=
      hall ▸ hpasses.split_of_queue_shutdown hshutdown
    have hmem : Request.shutdown ∈ queue := by
      apply List.mem_of_mem_take
      rw [htaken, hall]
      exact List.mem_append_right _ (.head _)
    rw [if_pos hmem]
    refine ⟨htaken.symm, hrest.symm, fun _ others => ?_, getLast?_events_concat before rfl,
      fun k e hp => ?_⟩
    · rw [hall, List.append_assoc]
      exact hpasses.run_of_queue_shutdown hdue others
    · rw [hall, List.mem_append, List.mem_singleton] at hp
      exact hpasses.find?_ne_of_taken (hp.resolve_right (by simp))

/-- Two sweeps come between the first command and the second, whose entry the first of them
has removed. The purge behind the shutdown is not made. -/
theorem takes_queue_in_order_shutdown :
    let s : Store Nat :=
      ((Store.empty.insert "a" ⟨3, 5⟩).insert "b" ⟨4, 1⟩).insert "d" ⟨0, 100⟩
    let taken : List Request := [.purge ⟨"a", 5⟩, .purge ⟨"b", 1⟩, .shutdown]
    let unread : List Request := [.purge ⟨"d", 100⟩, .shutdown]
    ∃ rounds last, (start 2 s 0 (taken ++ unread)).run id = some (rounds, last) ∧
      rounds.countP Round.isSweep = 2 ∧ rounds.filterMap Round.command? = taken ∧
      last.queue = unread ∧ (events rounds).getLast? = some .shutdownRequested ∧
      (start 2 s 0 taken).run id = some (rounds, { last with queue := [] }) ∧
      last.store.find? "a" ≠ some ⟨3, 5⟩ := by
  intro s taken unread
  have hends : ((start 2 s 0 (taken ++ unread)).run id).isSome = true := by decide +kernel
  obtain ⟨⟨rounds, last⟩, hrun⟩ := Option.isSome_iff_exists.1 hends
  obtain ⟨htaken, hunread, hsame, hlast, hgone⟩ := takes_queue_in_order id 2 s 0 _ hrun
  have hsweeps : ((start 2 s 0 (taken ++ unread)).run id).map (·.1.countP Round.isSweep) =
      some 2 := by decide +kernel
  have hrounds : rounds.filterMap Round.command? = taken := htaken.trans (by decide)
  rw [hrounds] at hsame hgone
  rw [hrun] at hsweeps
  refine ⟨rounds, last, hrun, Option.some.inj hsweeps, hrounds, hunread.trans (by decide),
    hlast.trans (by decide), hsame (by decide) [], hgone "a" ⟨3, 5⟩ (by decide)⟩

end Worker

end ExpiringCache
